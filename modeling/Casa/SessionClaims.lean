import Casa.SessionRegistry

/-! What a save may remove and clear. A claim is one field of the entry, and a save that ends
compares only the session id, so it takes another registration for its own if that one keeps the
id; a save that gives up before it has read the transcript compares nothing. Where no registration
of that kind completes while a save is past its claim, each save answers for its own registration
and its own claim. -/

namespace Casa.SessionClaims
open StepRuns SessionRegistry

def claimedAt : Stage → Option ℕ
  | .begins => none
  | .claiming r => some r
  | .retaining _ r => some r
  | .finish _ r => some r
  | .finishing _ r => some r
  | .release _ r _ => some r
  | .releasing r _ => some r

def Past (calls : ℕ → Option Call) (i r : ℕ) : Prop :=
  ∃ s, calls i = some (.save s) ∧ claimedAt s.stage = some r

def Matches (guard : Option String) (e : Entry) : Prop := guard = none ∨ e.sid = guard

/-- What a save past its claim knows of the entry: if the comparison holds it is the registration
that was claimed, and that one carries its claim. -/
def Owns (entry : Option Entry) (i : ℕ) (guard : Option String) (r : ℕ) : Prop :=
  ∀ e, entry = some e → (Matches guard e → e.registration = r) ∧
    (e.registration = r → e.claim = some (.call i))

def Spent (entry : Option Entry) (sid : String) (r : ℕ) : Prop :=
  ∀ e, entry = some e → e.sid = some sid → e.registration = r

def StageOk (entry : Option Entry) (i : ℕ) (caller : Caller) : Stage → Prop
  | .begins => True
  | .claiming r => ∃ e, entry = some e ∧ e.registration = r ∧ e.claim = some (.call i)
  | .retaining sid r => Owns entry i (some sid) r ∧
      (caller.expected = none ∨ caller.expected = some sid)
  | .finish sid r => Owns entry i (some sid) r ∧
      (caller.expected = none ∨ caller.expected = some sid)
  | .finishing _ _ => entry = none
  | .release guard r _ => Owns entry i guard r ∧
      (guard = none ∨ caller.expected = none ∨ caller.expected = guard)
  | .releasing r _ => ∀ sid, caller = .reset sid → Spent entry sid r

def CallOk (entry : Option Entry) (i : ℕ) : Call → Prop
  | .save s => StageOk entry i s.caller s.stage
  | .remove sid (some r) false => Spent entry sid r
  | _ => True

def EventOk : Event → Prop
  | .finished _ claimed registration => claimed = registration
  | .removed _ claimed registration => ∀ r, claimed = some r → r = registration
  | .cleared i claim => claim = .call i
  | .failed _ => True

def pending : Call → Bool
  | .notifies _ => true
  | .save _ => true
  | _ => false

def undecided : Call → Bool
  | .save ⟨_, .finishing _ _⟩ => false
  | c => pending c

/-- The invariant, for every call but the one whose step is under way. -/
structure Sound (x : Option ℕ) (p : Registry) : Prop where
  locked : ∀ i c, x ≠ some i → p.calls i = some c → Registry.Call.writing c = true →
    p.lock = some i
  call : ∀ i c, x ≠ some i → p.calls i = some c → CallOk p.entry i c
  once : ∀ i j r, x ≠ some i → x ≠ some j → Past p.calls i r → Past p.calls j r → i = j
  young : ∀ i r, x ≠ some i → Past p.calls i r → r < p.registrations
  entry : ∀ e, p.entry = some e → e.registration < p.registrations
  idle : ∀ i, p.nextCall ≤ i → p.calls i = none
  events : ∀ ev, ev ∈ p.events → EventOk ev
  finished : ∀ i r r', .finished i r r' ∈ p.events → i < p.nextCall ∧ .failed i ∉ p.events ∧
    (x ≠ some i → ∀ c, p.calls i = some c → undecided c = false)
  failed : ∀ i, .failed i ∈ p.events → i < p.nextCall ∧
    (x ≠ some i → ∀ c, p.calls i = some c → pending c = false)

theorem Sound.but {p : Registry} (h : Sound none p) (i : ℕ) : Sound (some i) p where
  locked j c _ := h.locked j c nofun
  call j c _ := h.call j c nofun
  once j l r _ _ := h.once j l r nofun nofun
  young j r _ := h.young j r nofun
  entry := h.entry
  idle := h.idle
  events := h.events
  finished j r r' now := ⟨(h.finished j r r' now).1, (h.finished j r r' now).2.1,
    fun _ => (h.finished j r r' now).2.2 nofun⟩
  failed j now := ⟨(h.failed j now).1, fun _ => (h.failed j now).2 nofun⟩

variable {p q : Registry} {x : Option ℕ} {i j r : ℕ} {sid : String} {c : Call} {s : Save}
  {caller : Caller} {stage : Stage} {guard : Option String}

section Moves

theorem Sound.made (h : Sound x p) (called : p.calls i = some c) : i < p.nextCall := by
  by_contra late
  rw [h.idle i (Nat.le_of_not_lt late)] at called
  cases called

theorem sound_setCall {new : Option Call} (h : Sound (some i) p) (made : i < p.nextCall)
    (locked : ∀ c, new = some c → Registry.Call.writing c = true → p.lock = some i)
    (ok : ∀ c, new = some c → CallOk p.entry i c)
    (past : ∀ s r, new = some (.save s) → claimedAt s.stage = some r →
      r < p.registrations ∧ ∀ j, j ≠ i → ¬ Past p.calls j r)
    (finished : ∀ r r', .finished i r r' ∈ p.events → ∀ c, new = some c → undecided c = false)
    (failed : .failed i ∈ p.events → ∀ c, new = some c → pending c = false) :
    Sound none (p.setCall i new) := by
  have here : (p.setCall i new).calls i = new := Function.update_self i _ _
  have away {j : ℕ} (ne : j ≠ i) : (p.setCall i new).calls j = p.calls j :=
    Function.update_of_ne ne _ _
  have apart {j : ℕ} (ne : j ≠ i) : some i ≠ some j := fun same => ne (Option.some.inj same).symm
  have others {j r : ℕ} (ne : j ≠ i) (at_ : Past (p.setCall i new).calls j r) :
      Past p.calls j r := by
    obtain ⟨s, called, claimed⟩ := at_
    exact ⟨s, (away ne).symm.trans called, claimed⟩
  have own {r : ℕ} (at_ : Past (p.setCall i new).calls i r) :
      r < p.registrations ∧ ∀ j, j ≠ i → ¬ Past p.calls j r := by
    obtain ⟨s, called, claimed⟩ := at_
    exact past s r (here.symm.trans called) claimed
  refine ⟨fun j c _ called writing => ?_, fun j c _ called => ?_, fun j l r _ _ first second => ?_,
    fun j r _ at_ => ?_, h.entry, fun j le => ?_, h.events, fun j r r' now => ?_, fun j now => ?_⟩
  · by_cases same : j = i
    · subst same
      exact locked c (here.symm.trans called) writing
    · exact h.locked j c (apart same) ((away same).symm.trans called) writing
  · by_cases same : j = i
    · subst same
      exact ok c (here.symm.trans called)
    · exact h.call j c (apart same) ((away same).symm.trans called)
  · by_cases first' : j = i
    · by_cases second' : l = i
      · rw [first', second']
      · subst first'
        exact absurd (others second' second) ((own first).2 l second')
    · by_cases second' : l = i
      · subst second'
        exact absurd (others first' first) ((own second).2 j first')
      · exact h.once j l r (apart first') (apart second') (others first' first)
          (others second' second)
  · by_cases same : j = i
    · subst same
      exact (own at_).1
    · exact h.young j r (apart same) (others same at_)
  · have ne : j ≠ i := fun same => absurd (same ▸ le) (Nat.not_le.mpr made)
    exact (away ne).trans (h.idle j le)
  · obtain ⟨old, without, after⟩ := h.finished j r r' now
    refine ⟨old, without, fun _ c called => ?_⟩
    by_cases same : j = i
    · subst same
      exact finished r r' now c (here.symm.trans called)
    · exact after (apart same) c ((away same).symm.trans called)
  · obtain ⟨old, after⟩ := h.failed j now
    refine ⟨old, fun _ c called => ?_⟩
    by_cases same : j = i
    · subst same
      exact failed now c (here.symm.trans called)
    · exact after (apart same) c ((away same).symm.trans called)

theorem sound_setOther {new : Option Call} (h : Sound (some i) p) (made : i < p.nextCall)
    (locked : ∀ c, new = some c → Registry.Call.writing c = true → p.lock = some i)
    (ok : ∀ c, new = some c → CallOk p.entry i c)
    (other : ∀ c, new = some c → pending c = false) : Sound none (p.setCall i new) := by
  refine sound_setCall h made locked ok ?_ ?_ fun _ => other
  · intro s r same
    cases other _ same
  · intro r r' _ c same
    have decided := other c same
    cases c <;> first | rfl | cases decided

theorem sound_endCall (h : Sound (some i) p) (made : i < p.nextCall) :
    Sound none (p.setCall i none) :=
  sound_setOther h made nofun nofun nofun

theorem sound_setLock {l : Option ℕ} (h : Sound (some i) p)
    (free : p.lock = none ∨ p.lock = some i) : Sound (some i) (p.setLock l) := by
  refine ⟨fun j c other called writing => ?_, h.call, h.once, h.young, h.entry, h.idle, h.events,
    h.finished, h.failed⟩
  have holds := h.locked j c other called writing
  rcases free with free | free
  · cases free.symm.trans holds
  · exact absurd (free.symm.trans holds) other

def Evolves (entry entry' : Option Entry) (j : ℕ) : Prop :=
  ∀ e', entry' = some e' → ∃ e, entry = some e ∧ e'.registration = e.registration ∧
    (∀ s, e'.sid = some s → e.sid = some s) ∧
    (e.claim = some (.call j) → e'.claim = some (.call j))

theorem Owns.evolve {entry entry' : Option Entry} (h : Owns entry j guard r)
    (evolves : Evolves entry entry' j) : Owns entry' j guard r := by
  intro e' now
  obtain ⟨e, before, number, sid, claim⟩ := evolves e' now
  obtain ⟨matched, claimed⟩ := h e before
  refine ⟨fun matches_ => ?_, fun same => claim (claimed (number.symm.trans same))⟩
  refine number.trans (matched ?_)
  rcases matches_ with none_ | same
  · exact .inl none_
  · cases guard with
    | none => exact .inl rfl
    | some s => exact .inr (sid s same)

theorem Spent.evolve {entry entry' : Option Entry} (h : Spent entry sid r)
    (evolves : Evolves entry entry' j) : Spent entry' sid r := by
  intro e' now same
  obtain ⟨e, before, number, sid, -⟩ := evolves e' now
  exact number.trans (h e before (sid _ same))

theorem CallOk.evolve {entry entry' : Option Entry} (h : CallOk entry j c)
    (waits : Registry.Call.writing c = false) (evolves : Evolves entry entry' j) :
    CallOk entry' j c := by
  cases c with
  | save s =>
    obtain ⟨caller, stage⟩ := s
    cases stage with
    | begins => trivial
    | retaining sid r => exact ⟨h.1.evolve evolves, h.2⟩
    | finish sid r => exact ⟨h.1.evolve evolves, h.2⟩
    | release guard r shielded => exact ⟨h.1.evolve evolves, h.2⟩
    | claiming r => cases waits
    | finishing sid r => cases waits
    | releasing r shielded => cases waits
  | remove sid claimed writing =>
    cases claimed with
    | none => trivial
    | some r =>
      cases writing with
      | false => exact Spent.evolve h evolves
      | true => trivial
  | register agent sid writing => trivial
  | touch writing => trivial
  | clearSession writing => trivial
  | notifies bank => trivial

theorem sound_setEntry {e' : Option Entry} (h : Sound (some i) p) (free : p.lock = none)
    (evolves : ∀ j, j ≠ i → Evolves p.entry e' j) : Sound (some i) (p.setEntry e') := by
  refine ⟨h.locked, fun j c other called => ?_, h.once, h.young, fun e now => ?_, h.idle, h.events,
    h.finished, h.failed⟩
  · have ne : j ≠ i := fun same => other (congrArg some same.symm)
    refine (h.call j c other called).evolve ?_ (evolves j ne)
    rw [Bool.eq_false_iff]
    intro writing
    cases free.symm.trans (h.locked j c other called writing)
  · obtain ⟨e, before, number, -⟩ := evolves (i + 1) (Nat.succ_ne_self i) e now
    exact number ▸ h.entry e before

theorem sound_happened {ev : Event} (h : Sound x p) (ok : EventOk ev)
    (unfinished : ∀ i r r', ev ≠ .finished i r r') (unfailed : ∀ i, ev ≠ .failed i) :
    Sound x (p.happened ev) := by
  refine ⟨h.locked, h.call, h.once, h.young, h.entry, h.idle, fun ev' now => ?_,
    fun j r r' now => ?_, fun j now => ?_⟩
  · rcases List.mem_cons.mp now with rfl | old
    · exact ok
    · exact h.events ev' old
  · rcases List.mem_cons.mp now with same | old
    · exact absurd same.symm (unfinished j r r')
    · obtain ⟨made, without, after⟩ := h.finished j r r' old
      refine ⟨made, fun failed => ?_, after⟩
      rcases List.mem_cons.mp failed with same | old
      · exact unfailed j same.symm
      · exact without old
  · rcases List.mem_cons.mp now with same | old
    · exact absurd same.symm (unfailed j)
    · exact h.failed j old

theorem sound_failed (h : Sound (some i) p) (made : i < p.nextCall)
    (unfinished : ∀ r r', .finished i r r' ∉ p.events) :
    Sound (some i) (p.happened (.failed i)) := by
  refine ⟨h.locked, h.call, h.once, h.young, h.entry, h.idle, fun ev' now => ?_,
    fun j r r' now => ?_, fun j now => ?_⟩
  · rcases List.mem_cons.mp now with rfl | old
    · trivial
    · exact h.events ev' old
  · rcases List.mem_cons.mp now with same | old
    · cases same
    · obtain ⟨made, without, after⟩ := h.finished j r r' old
      refine ⟨made, fun failed => ?_, after⟩
      rcases List.mem_cons.mp failed with same | older
      · cases same
        exact unfinished r r' old
      · exact without older
  · rcases List.mem_cons.mp now with same | old
    · cases same
      exact ⟨made, fun other => absurd rfl other⟩
    · exact h.failed j old

theorem sound_finished (h : Sound (some i) p) (made : i < p.nextCall)
    (unfailed : .failed i ∉ p.events) : Sound (some i) (p.happened (.finished i r r)) := by
  refine ⟨h.locked, h.call, h.once, h.young, h.entry, h.idle, fun ev' now => ?_,
    fun j r' r'' now => ?_, fun j now => ?_⟩
  · rcases List.mem_cons.mp now with rfl | old
    · rfl
    · exact h.events ev' old
  · rcases List.mem_cons.mp now with same | old
    · cases same
      refine ⟨made, fun failed => ?_, fun other => absurd rfl other⟩
      rcases List.mem_cons.mp failed with same | old
      · cases same
      · exact unfailed old
    · obtain ⟨made, without, after⟩ := h.finished j r' r'' old
      refine ⟨made, fun failed => ?_, after⟩
      rcases List.mem_cons.mp failed with same | old
      · cases same
      · exact without old
  · rcases List.mem_cons.mp now with same | old
    · cases same
    · exact h.failed j old

end Moves

section Saves

theorem Owns.spent {entry : Option Entry} (h : Owns entry i guard r)
    (expected : guard = none ∨ caller.expected = none ∨ caller.expected = guard) :
    ∀ sid, caller = .reset sid → Spent entry sid r := by
  rintro sid rfl e now same
  refine (h e now).1 ?_
  rcases expected with none_ | none_ | guarded
  · exact .inl none_
  · cases none_
  · exact .inr (same.trans guarded)

theorem past_claim (h : Sound none p) (free : p.lock = none) {e : Entry} (entry : p.entry = some e)
    (past : Past p.calls j e.registration) : e.claim = some (.call j) := by
  obtain ⟨⟨caller, stage⟩, called, claimed⟩ := past
  have ok := h.call j _ nofun called
  have idle : Registry.Call.writing (.save ⟨caller, stage⟩) = false := by
    rw [Bool.eq_false_iff]
    intro writing
    cases free.symm.trans (h.locked j _ nofun called writing)
  cases stage with
  | begins => cases claimed
  | claiming r => cases idle
  | finishing sid r => cases idle
  | releasing r shielded => cases idle
  | retaining sid r =>
    cases claimed
    exact (ok.1 e entry).2 rfl
  | finish sid r =>
    cases claimed
    exact (ok.1 e entry).2 rfl
  | release guard r shielded =>
    cases claimed
    exact (ok.1 e entry).2 rfl

theorem sound_raise (h : Sound (some i) p) (made : i < p.nextCall)
    (unfinished : ∀ r r', .finished i r r' ∉ p.events) : Sound none (p.raise i) :=
  sound_endCall (sound_failed h made unfinished) made

theorem sound_returned {claimed : Option ℕ} {ok : Bool} (h : Sound (some i) p)
    (made : i < p.nextCall) (unfinished : ok = false → ∀ r r', .finished i r r' ∉ p.events)
    (spent : ∀ sid r, caller = .reset sid → claimed = some r → Spent p.entry sid r) :
    Sound none (p.returned i caller claimed ok) := by
  obtain ⟨q, same, sound, entry, nextCall⟩ : ∃ q, q = (if ok then p else p.happened (.failed i)) ∧
      Sound (some i) q ∧ q.entry = p.entry ∧ q.nextCall = p.nextCall := by
    refine ⟨_, rfl, ?_⟩
    cases ok with
    | true => exact ⟨h, rfl, rfl⟩
    | false => exact ⟨sound_failed h made (unfinished rfl), rfl, rfl⟩
  have made : i < q.nextCall := nextCall ▸ made
  unfold Registry.returned
  rw [← same]
  cases caller with
  | plain expected => exact sound_endCall sound made
  | reset sid =>
    refine sound_setOther sound made ?_ ?_ ?_
    · rintro c ⟨⟩ writing
      cases writing
    · rintro c ⟨⟩
      cases claimed with
      | none => trivial
      | some r =>
        change Spent q.entry sid r
        rw [entry]
        exact spent sid r rfl rfl
    · rintro c ⟨⟩
      rfl

structure Moving (p : Registry) (i : ℕ) (stage : Stage) : Prop where
  made : i < p.nextCall
  unfailed : .failed i ∉ p.events
  young : ∀ r, claimedAt stage = some r → r < p.registrations
  alone : ∀ r, claimedAt stage = some r → ∀ j, j ≠ i → ¬ Past p.calls j r
  unfinished : (∀ sid r, stage ≠ .finishing sid r) → ∀ r r', .finished i r r' ∉ p.events

theorem Sound.moving (h : Sound none p) (called : p.calls i = some (.save ⟨caller, stage⟩)) :
    Moving p i stage where
  made := h.made called
  unfailed now := by cases (h.failed i now).2 nofun _ called
  young r claimed := h.young i r nofun ⟨_, called, claimed⟩
  alone r claimed j ne past := ne (h.once j i r nofun nofun past ⟨_, called, claimed⟩)
  unfinished other r r' now := by
    have decided := (h.finished i r r' now).2.2 nofun _ called
    cases stage with
    | finishing sid r => exact other sid r rfl
    | _ => cases decided

theorem sound_goto {stage' : Stage} (h : Sound (some i) p) (moving : Moving p i stage)
    (claim : claimedAt stage' = claimedAt stage)
    (locked : Registry.Call.writing (.save ⟨caller, stage'⟩) = true → p.lock = some i)
    (ok : StageOk p.entry i caller stage')
    (finished : (∃ r r', .finished i r r' ∈ p.events) → ∃ sid r, stage' = .finishing sid r) :
    Sound none (p.goto i caller stage') := by
  refine sound_setCall h moving.made ?_ ?_ ?_ ?_ fun failed => absurd failed moving.unfailed
  · rintro c ⟨⟩
    exact locked
  · rintro c ⟨⟩
    exact ok
  · rintro s r ⟨⟩ claimed
    have claimed := claim.symm.trans claimed
    exact ⟨moving.young r claimed, moving.alone r claimed⟩
  · rintro r r' now c ⟨⟩
    obtain ⟨sid, r'', rfl⟩ := finished ⟨r, r', now⟩
    rfl

theorem sound_tryBeginSave (h : Sound none p) (free : p.lock = none)
    (called : p.calls i = some (.save ⟨caller, .begins⟩)) :
    Sound none (p.tryBeginSave i caller) := by
  have moving := h.moving called
  have unfinished := moving.unfinished nofun
  have missed : Sound none (p.returned i caller none false) :=
    sound_returned (h.but i) moving.made (fun _ => unfinished) nofun
  unfold Registry.tryBeginSave
  split
  · exact missed
  · rename_i e entry
    split
    swap
    · exact missed
    rename_i unclaimed
    have claimed : Sound (some i)
        ((p.setEntry (some { e with claim := some (.call i) })).setLock (some i)) := by
      refine sound_setLock (sound_setEntry (h.but i) free fun j ne => ?_) (.inl free)
      rintro e' ⟨⟩
      refine ⟨e, entry, rfl, fun _ same => same, fun claim => ?_⟩
      cases unclaimed.symm.trans claim
    refine sound_setCall claimed moving.made (fun _ _ _ => rfl) ?_ ?_ ?_
      fun failed => absurd failed moving.unfailed
    · rintro c ⟨⟩
      exact ⟨_, rfl, rfl, rfl⟩
    · rintro s r ⟨⟩ ⟨⟩
      refine ⟨h.entry e entry, fun j _ past => ?_⟩
      cases unclaimed.symm.trans (past_claim h free entry past)
    · exact fun r r' now => absurd now (unfinished r r')

theorem sound_claimed (h : Sound none p)
    (called : p.calls i = some (.save ⟨caller, .claiming r⟩)) :
    Sound none ((p.setLock none).claimed i caller r) := by
  have moving := h.moving called
  have unfinished := moving.unfinished nofun
  have held : p.lock = some i := h.locked i _ nofun called rfl
  obtain ⟨e, entry, number, claim⟩ := h.call i _ nofun called
  have owns (guard : Option String) : Owns p.entry i guard r := by
    intro e' now
    cases entry.symm.trans now
    exact ⟨fun _ => number, fun _ => claim⟩
  have unlocked : Sound (some i) (p.setLock none) := sound_setLock (h.but i) (.inr held)
  have go {stage : Stage} (same : claimedAt stage = some r)
      (waits : Registry.Call.writing (.save ⟨caller, stage⟩) = false)
      (ok : StageOk p.entry i caller stage) : Sound none ((p.setLock none).goto i caller stage) := by
    refine sound_goto (p := p.setLock none) unlocked
      ⟨moving.made, moving.unfailed, moving.young, moving.alone, moving.unfinished⟩ same
      (fun writing => ?_) ok fun ⟨r, r', now⟩ => absurd now (unfinished r r')
    cases waits.symm.trans writing
  unfold Registry.claimed
  split
  · exact go rfl rfl ⟨owns none, .inl rfl⟩
  · rename_i sid _
    split
    · rename_i expected
      exact go rfl rfl ⟨owns (some sid), expected⟩
    · exact go rfl rfl ⟨owns none, .inl rfl⟩

theorem sound_finishSave (h : Sound none p) (free : p.lock = none)
    (called : p.calls i = some (.save ⟨caller, .finish sid r⟩)) :
    Sound none (p.finishSave i caller sid r) := by
  have moving := h.moving called
  obtain ⟨owns, expected⟩ : Owns p.entry i (some sid) r ∧
      (caller.expected = none ∨ caller.expected = some sid) := h.call i _ nofun called
  have kept : Sound none (p.returned i caller (some r) true) := by
    refine sound_returned (h.but i) moving.made nofun ?_
    rintro sid' r' reset ⟨⟩
    exact owns.spent (.inr expected) sid' reset
  unfold Registry.finishSave
  split
  · exact kept
  · rename_i e entry
    split
    swap
    · exact kept
    rename_i same
    have number : e.registration = r := (owns e entry).1 (.inr same)
    have removed : Sound (some i) (p.setEntry none) :=
      sound_setEntry (h.but i) free fun _ _ => nofun
    have finished : Sound (some i)
        (((p.setEntry none).happened (.finished i r e.registration)).setLock (some i)) := by
      rw [number]
      exact sound_setLock (sound_finished removed moving.made moving.unfailed) (.inl free)
    refine sound_setCall finished moving.made (fun _ _ _ => rfl) ?_ ?_ ?_ ?_
    · rintro c ⟨⟩
      rfl
    · rintro s r' ⟨⟩ ⟨⟩
      exact ⟨moving.young r rfl, moving.alone r rfl⟩
    · rintro r' r'' now c ⟨⟩
      rfl
    · intro failed
      rcases List.mem_cons.mp failed with same | old
      · cases same
      · exact absurd old moving.unfailed

theorem sound_released {shielded : Bool} (h : Sound (some i) p) (made : i < p.nextCall)
    (unfinished : ∀ r r', .finished i r r' ∉ p.events)
    (spent : ∀ sid, caller = .reset sid → Spent p.entry sid r) :
    Sound none (p.released i caller r shielded) := by
  unfold Registry.released
  split
  · exact sound_raise h made unfinished
  · refine sound_returned h made (fun _ => unfinished) ?_
    rintro sid r' reset ⟨⟩
    exact spent sid reset

theorem sound_clearSaveClaim {shielded : Bool} (h : Sound none p) (free : p.lock = none)
    (called : p.calls i = some (.save ⟨caller, .release guard r shielded⟩)) :
    Sound none (p.clearSaveClaim i caller guard r shielded) := by
  have moving := h.moving called
  have unfinished := moving.unfinished nofun
  obtain ⟨owns, expected⟩ : Owns p.entry i guard r ∧
      (guard = none ∨ caller.expected = none ∨ caller.expected = guard) :=
    h.call i _ nofun called
  have kept : Sound none (p.released i caller r shielded) :=
    sound_released (h.but i) moving.made unfinished (owns.spent expected)
  unfold Registry.clearSaveClaim
  split
  · exact kept
  rename_i e entry
  split
  · exact kept
  rename_i claim claimed
  split
  swap
  · exact kept
  rename_i matches_
  have number : e.registration = r := (owns e entry).1 matches_
  have mine : e.claim = some (.call i) := (owns e entry).2 number
  have cleared : Sound (some i) (((p.setEntry (some { e with claim := none })).happened
      (.cleared i claim)).setLock (some i)) := by
    refine sound_setLock (sound_happened (sound_setEntry (h.but i) free fun j ne => ?_) ?_ nofun
      nofun) (.inl free)
    · rintro e' ⟨⟩
      refine ⟨e, entry, rfl, fun _ same => same, fun claim' => ?_⟩
      cases mine.symm.trans claim'
      exact absurd rfl ne
    · cases claimed.symm.trans mine
      rfl
  refine sound_goto cleared ⟨moving.made, fun failed => ?_, moving.young, moving.alone, fun _ => ?_⟩
    rfl (fun _ => rfl) ?_ ?_
  · rcases List.mem_cons.mp failed with same | old
    · cases same
    · exact moving.unfailed old
  · intro r' r'' now
    rcases List.mem_cons.mp now with same | old
    · cases same
    · exact unfinished r' r'' old
  · rintro sid reset e' ⟨⟩ same
    exact owns.spent expected sid reset e entry same
  · rintro ⟨r', r'', now⟩
    rcases List.mem_cons.mp now with same | old
    · cases same
    · exact absurd old (unfinished r' r'')

theorem sound_wait {stage' : Stage} (h : Sound none p)
    (called : p.calls i = some (.save ⟨caller, stage⟩)) (open_ : ∀ sid r, stage ≠ .finishing sid r)
    (claim : claimedAt stage' = claimedAt stage)
    (waits : Registry.Call.writing (.save ⟨caller, stage'⟩) = false)
    (ok : StageOk p.entry i caller stage') : Sound none (p.goto i caller stage') := by
  have moving := h.moving called
  refine sound_goto (h.but i) moving claim (fun writing => ?_) ok fun ⟨r, r', now⟩ =>
    absurd now (moving.unfinished open_ r r')
  cases waits.symm.trans writing

theorem sound_advanceSave {ok : Bool} (h : Sound none p)
    (called : p.calls i = some (.save ⟨caller, stage⟩))
    (ends : ∀ sid r, stage = .finishing sid r → ok = true) :
    Sound none (p.advanceSave i caller ok stage) := by
  have moving := h.moving called
  have unlocked (writing : Registry.Call.writing (.save ⟨caller, stage⟩) = true) :
      Sound (some i) (p.setLock none) :=
    sound_setLock (h.but i) (.inr (h.locked i _ nofun called writing))
  have good := h.call i _ nofun called
  cases stage with
  | begins =>
    simp only [Registry.advanceSave]
    split
    · rename_i free
      exact sound_tryBeginSave h free called
    · exact h
  | claiming r =>
    simp only [Registry.advanceSave]
    split
    · exact sound_claimed h called
    · exact sound_raise (unlocked rfl) moving.made (moving.unfinished nofun)
  | retaining sid r =>
    simp only [Registry.advanceSave]
    split
    · exact sound_wait h called nofun rfl rfl good
    · exact sound_wait h called nofun rfl rfl ⟨good.1, .inr good.2⟩
  | finish sid r =>
    simp only [Registry.advanceSave]
    split
    · rename_i free
      exact sound_finishSave h free called
    · exact h
  | finishing sid r =>
    simp only [Registry.advanceSave, ends sid r rfl, if_true]
    have absent : p.entry = none := good
    refine sound_returned (unlocked rfl) moving.made nofun fun _ _ _ _ e now => ?_
    cases absent.symm.trans now
  | release guard r shielded =>
    simp only [Registry.advanceSave]
    split
    · rename_i free
      exact sound_clearSaveClaim h free called
    · exact h
  | releasing r shielded =>
    simp only [Registry.advanceSave]
    split
    · exact sound_released (unlocked rfl) moving.made (moving.unfinished nofun) good
    · exact sound_raise (unlocked rfl) moving.made (moving.unfinished nofun)

theorem sound_cancelSave (h : Sound none p) (called : p.calls i = some (.save ⟨caller, stage⟩))
    (open_ : ∀ sid r, stage ≠ .finishing sid r) : Sound none (p.cancelSave i caller stage) := by
  have moving := h.moving called
  have raised : Sound none (p.raise i) :=
    sound_raise (h.but i) moving.made (moving.unfinished open_)
  have unlocked (writing : Registry.Call.writing (.save ⟨caller, stage⟩) = true) :
      Sound none ((p.setLock none).raise i) :=
    sound_raise (sound_setLock (h.but i) (.inr (h.locked i _ nofun called writing))) moving.made
      (moving.unfinished open_)
  have good := h.call i _ nofun called
  cases stage with
  | begins => exact raised
  | claiming r => exact unlocked rfl
  | retaining sid r => exact sound_wait h called nofun rfl rfl ⟨good.1, .inr good.2⟩
  | finish sid r => exact sound_wait h called nofun rfl rfl ⟨good.1, .inr good.2⟩
  | finishing sid r => exact absurd rfl (open_ sid r)
  | release guard r shielded =>
    simp only [Registry.cancelSave]
    split
    · exact h
    · exact raised
  | releasing r shielded =>
    simp only [Registry.cancelSave]
    split
    · exact h
    · exact unlocked rfl

end Saves

section Runs

def exposed (sid : String) : Call → Bool
  | .save ⟨_, .retaining sid' _⟩ => decide (sid' = sid)
  | .save ⟨_, .finish sid' _⟩ => decide (sid' = sid)
  | .save ⟨_, .release (some sid') _ _⟩ => decide (sid' = sid)
  | .save ⟨_, .release none _ _⟩ => true
  | .remove sid' (some _) false => decide (sid' = sid)
  | _ => false

/-- No registration with the session id of a save past its claim, or of the reset around it, and
none at all while a save gives its claim back without a comparison; and no write of `finish_save`
fails or is cancelled. -/
def careful : Label → Registry → Bool
  | .advance i ok, p =>
    match p.calls i with
    | some (.register _ sid false) => decide (p.lock ≠ none) ||
        (List.range p.nextCall).all fun j => !(p.calls j).any (exposed sid)
    | some (.save ⟨_, .finishing _ _⟩) => ok
    | _ => true
  | .cancel i, p =>
    match p.calls i with
    | some (.save ⟨_, .finishing _ _⟩) => false
    | _ => true
  | _, _ => true

theorem CallOk.register {entry : Option Entry} {e : Entry} (h : CallOk entry j c)
    (waits : Registry.Call.writing c = false) (apart : exposed sid c = false)
    (other : e.sid = some sid)
    (young : ∀ s r, c = .save s → claimedAt s.stage = some r → r ≠ e.registration) :
    CallOk (some e) j c := by
  have owns {sid' : String} {r : ℕ} (ne : sid' ≠ sid) (fresh : r ≠ e.registration) :
      Owns (some e) j (some sid') r := by
    rintro e' ⟨⟩
    refine ⟨fun matches_ => ?_, fun same => absurd same.symm fresh⟩
    rcases matches_ with none_ | same
    · cases none_
    · cases other.symm.trans same
      exact absurd rfl ne
  cases c with
  | save s =>
    obtain ⟨caller, stage⟩ := s
    have fresh := fun r => young ⟨caller, stage⟩ r rfl
    cases stage with
    | begins => trivial
    | retaining sid' r => exact ⟨owns (of_decide_eq_false apart) (fresh r rfl), h.2⟩
    | finish sid' r => exact ⟨owns (of_decide_eq_false apart) (fresh r rfl), h.2⟩
    | release guard r shielded =>
      cases guard with
      | none => cases apart
      | some sid' => exact ⟨owns (of_decide_eq_false apart) (fresh r rfl), h.2⟩
    | claiming r => cases waits
    | finishing sid' r => cases waits
    | releasing r shielded => cases waits
  | remove sid' claimed writing =>
    cases claimed with
    | none => trivial
    | some r =>
      cases writing with
      | true => trivial
      | false =>
        rintro e' ⟨⟩ same
        cases other.symm.trans same
        exact absurd rfl (of_decide_eq_false apart)
  | register agent sid' writing => trivial
  | touch writing => trivial
  | clearSession writing => trivial
  | notifies bank => trivial

section
variable (h : Sound none p)
include h

theorem sound_register {agent : String} (free : p.lock = none)
    (called : p.calls i = some (.register agent sid false))
    (apart : ∀ j c, p.calls j = some c → exposed sid c = false) :
    Sound none (p.register i agent sid) := by
  have idle {j : ℕ} {c : Call} (called : p.calls j = some c) :
      Registry.Call.writing c = false := by
    rw [Bool.eq_false_iff]
    intro writing
    cases free.symm.trans (h.locked j c nofun called writing)
  have replaced : Sound (some i)
      { p with
        entry := some ⟨agent, some sid, true, none, p.registrations⟩
        registrations := p.registrations + 1 } := by
    have h' := h.but i
    refine ⟨h'.locked, fun j c other called => ?_, h'.once,
      fun j r other past => Nat.lt_succ_of_lt (h'.young j r other past), ?_, h'.idle, h'.events,
      h'.finished, h'.failed⟩
    · refine (h.call j c nofun called).register (idle called) (apart j c called) rfl ?_
      rintro s r rfl claimed
      exact Nat.ne_of_lt (h.young j r nofun ⟨s, called, claimed⟩)
    · rintro e ⟨⟩
      exact Nat.lt_succ_self _
  refine sound_setOther (sound_setLock replaced (.inl free)) (h.made called) (fun _ _ _ => rfl) ?_ ?_
  · rintro c ⟨⟩
    trivial
  · rintro c ⟨⟩
    rfl

theorem sound_remove {claimed : Option ℕ} (free : p.lock = none)
    (called : p.calls i = some (.remove sid claimed false)) :
    Sound none (p.remove i sid claimed) := by
  have gone : Sound none (p.setCall i none) := sound_endCall (h.but i) (h.made called)
  unfold Registry.remove
  split
  · exact gone
  · rename_i e entry
    split
    swap
    · exact gone
    rename_i same
    have removed : Sound (some i) ((p.setEntry none).happened
        (.removed i claimed e.registration)) := by
      refine sound_happened (sound_setEntry (h.but i) free fun _ _ => nofun) ?_ nofun nofun
      rintro r rfl
      have spent : Spent p.entry sid r := h.call i _ nofun called
      exact (spent e entry same).symm
    refine sound_setOther (sound_setLock removed (.inl free)) (h.made called) (fun _ _ _ => rfl) ?_
      ?_
    · rintro c ⟨⟩
      cases claimed <;> trivial
    · rintro c ⟨⟩
      rfl

theorem sound_touch (free : p.lock = none) (called : p.calls i = some c) :
    Sound none (p.touch i) := by
  unfold Registry.touch
  split
  · exact sound_endCall (h.but i) (h.made called)
  · refine sound_setOther (sound_setLock (h.but i) (.inl free)) (h.made called)
      (fun _ _ _ => rfl) ?_ ?_
    · rintro c ⟨⟩
      trivial
    · rintro c ⟨⟩
      rfl

theorem sound_clearSession (free : p.lock = none)
    (called : p.calls i = some c) : Sound none (p.clearSession i) := by
  unfold Registry.clearSession
  split
  · exact sound_endCall (h.but i) (h.made called)
  · rename_i e entry
    split
    · exact sound_endCall (h.but i) (h.made called)
    have cleared : Sound (some i) (p.setEntry (some { e with sid := none })) := by
      refine sound_setEntry (h.but i) free fun j _ => ?_
      rintro e' ⟨⟩
      exact ⟨e, entry, rfl, nofun, id⟩
    refine sound_setOther (sound_setLock cleared (.inl free)) (h.made called)
      (fun _ _ _ => rfl) ?_ ?_
    · rintro c ⟨⟩
      trivial
    · rintro c ⟨⟩
      rfl

theorem sound_reset {bank : Bool} (called : p.calls i = some (.notifies bank)) :
    Sound none (p.reset i bank) := by
  unfold Registry.reset
  split
  · exact sound_endCall (h.but i) (h.made called)
  · split
    · refine sound_setCall (h.but i) (h.made called) ?_ ?_ ?_ ?_ ?_
      · rintro c ⟨⟩ writing
        cases writing
      · rintro c ⟨⟩
        trivial
      · rintro s r ⟨⟩ claimed
        cases claimed
      · intro r r' now
        cases (h.finished i r r' now).2.2 nofun _ called
      · intro now
        cases (h.failed i now).2 nofun _ called
    · refine sound_setOther (h.but i) (h.made called) ?_ ?_ ?_
      · rintro c ⟨⟩ writing
        cases writing
      · rintro c ⟨⟩
        trivial
      · rintro c ⟨⟩
        rfl

theorem sound_begin {new : Call} (waits : Registry.Call.writing new = false)
    (ok : CallOk p.entry p.nextCall new)
    (fresh : ∀ s, new = .save s → claimedAt s.stage = none) : Sound none (p.begin_ new) := by
  have opened : Sound (some p.nextCall) { p with nextCall := p.nextCall + 1 } := by
    have h' := h.but p.nextCall
    refine ⟨h'.locked, h'.call, h'.once, h'.young, h'.entry,
      fun i le => h.idle i (Nat.le_of_succ_le le), h'.events, fun i r r' now => ?_, fun i now => ?_⟩
    · obtain ⟨made, rest⟩ := h'.finished i r r' now
      exact ⟨Nat.lt_succ_of_lt made, rest⟩
    · obtain ⟨made, rest⟩ := h'.failed i now
      exact ⟨Nat.lt_succ_of_lt made, rest⟩
  refine sound_setCall opened (Nat.lt_succ_self _) ?_ ?_ ?_ ?_ ?_
  · rintro c ⟨⟩ writing
    cases waits.symm.trans writing
  · rintro c ⟨⟩
    exact ok
  · rintro s r ⟨⟩ claimed
    cases (fresh s rfl).symm.trans claimed
  · intro r r' now
    exact absurd (h.finished _ r r' now).1 (Nat.lt_irrefl _)
  · intro now
    exact absurd (h.failed _ now).1 (Nat.lt_irrefl _)

theorem sound_leave (called : p.calls i = some c)
    (writing : Registry.Call.writing c = true) : Sound none (p.leave i) :=
  sound_endCall (sound_setLock (h.but i) (.inr (h.locked i c nofun called writing))) (h.made called)

theorem sound_advance {ok : Bool} (allowed : careful (.advance i ok) p = true) :
    Sound none (p.advance i ok) := by
  unfold Registry.advance
  split
  · exact h
  · rename_i agent sid called
    split
    · rename_i free
      simp only [careful, called, free, ne_eq, not_true_eq_false, decide_false, Bool.false_or,
        List.all_eq_true, List.mem_range, Bool.not_eq_true', Option.any_eq_false] at allowed
      exact sound_register h free called fun j c called' => allowed j (h.made called') c called'
    · exact h
  · rename_i called
    split
    · rename_i free
      exact sound_touch h free called
    · exact h
  · rename_i called
    split
    · rename_i free
      exact sound_clearSession h free called
    · exact h
  · rename_i sid claimed called
    split
    · rename_i free
      exact sound_remove h free called
    · exact h
  · rename_i bank called
    exact sound_reset h called
  · rename_i s called
    refine sound_advanceSave h called fun sid r finishing => ?_
    obtain ⟨caller, stage⟩ := s
    cases finishing
    simpa only [careful, called] using allowed
  · rename_i c registers touches clears removes notifies saves called
    refine sound_leave h called ?_
    cases c with
    | register agent sid writing =>
      cases writing with
      | true => rfl
      | false => exact absurd rfl (registers agent sid)
    | touch writing =>
      cases writing with
      | true => rfl
      | false => exact absurd rfl touches
    | clearSession writing =>
      cases writing with
      | true => rfl
      | false => exact absurd rfl clears
    | remove sid claimed writing =>
      cases writing with
      | true => rfl
      | false => exact absurd rfl (removes sid claimed)
    | notifies bank => exact absurd rfl (notifies bank)
    | save s => exact absurd rfl (saves s)

theorem sound_cancel (allowed : careful (.cancel i) p = true) : Sound none (p.cancel i) := by
  unfold Registry.cancel
  split
  · exact h
  · rename_i s called
    refine sound_cancelSave h called fun sid r finishing => ?_
    obtain ⟨caller, stage⟩ := s
    cases finishing
    simp only [careful, called, Bool.false_eq_true] at allowed
  · rename_i c _ called
    split
    · rename_i writing
      exact sound_leave h called writing
    · exact sound_endCall (h.but i) (h.made called)

theorem sound_step {l : Label} (allowed : careful l p = true) : Sound none (step l p) := by
  cases l with
  | register agent sid => exact sound_begin h rfl trivial nofun
  | touch => exact sound_begin h rfl trivial nofun
  | clearSession => exact sound_begin h rfl trivial nofun
  | save expected bank =>
    simp only [step]
    split
    · refine sound_begin h rfl trivial ?_
      rintro s ⟨⟩
      rfl
    · exact h
  | reset bank => exact sound_begin h rfl trivial nofun
  | advance i ok => exact sound_advance h allowed
  | cancel i => exact sound_cancel h allowed

end

theorem sound_loaded {stored : Option (String × Option String × Bool × Bool)} :
    Sound none (Registry.loaded stored) := by
  refine ⟨nofun, nofun, ?_, ?_, fun e now => ?_, fun _ _ => rfl, nofun, nofun, nofun⟩
  · rintro i j r - - ⟨s, called, -⟩
    cases called
  · rintro i r - ⟨s, called, -⟩
    cases called
  · cases stored with
    | none => cases now
    | some given =>
      cases now
      exact Nat.lt_succ_self _

structure KeepsSessions (p : Registry) : Prop where
  /-- A save removes the registration that it claimed, and no later one. -/
  finished : ∀ i r r', .finished i r r' ∈ p.events → r' = r
  /-- So does the reset around it. -/
  removed : ∀ i r r', .removed i (some r) r' ∈ p.events → r' = r
  /-- One save at a time is past its claim of a registration. -/
  single : ∀ i j r, Past p.calls i r → Past p.calls j r → i = j
  /-- A save that fails has left the entry where it was. -/
  present : ∀ i, .failed i ∈ p.events → ∀ r r', .finished i r r' ∉ p.events
  /-- A save clears its own claim. -/
  cleared : ∀ i claim, .cleared i claim ∈ p.events → claim = .call i

theorem saves_keep_sessions {stored : Option (String × Option String × Bool × Bool)}
    {ls : List Label}
    (run : Runs step (fun l p => careful l p = true) (Registry.loaded stored) ls p) :
    KeepsSessions p := by
  have sound := run.invariant (I := Sound none) (fun l p ok h => sound_step h ok) sound_loaded
  refine ⟨fun i r r' now => (sound.events _ now).symm, fun i r r' now => ?_,
    fun i j r first second => sound.once i j r nofun nofun first second,
    fun i failed r r' now => (sound.finished i r r' now).2.1 failed,
    fun i claim now => sound.events _ now⟩
  exact (sound.events _ now r rfl).symm

def anotherSession : List Label :=
  [.save (some "s1") true, .advance 0 true, .advance 0 true, .register "resident:butler" "s2",
    .advance 1 true, .advance 1 true, .advance 0 true, .advance 0 true]

def stored : Option (String × Option String × Bool × Bool) :=
  some ("resident:butler", some "s1", true, false)

theorem saves_keep_sessions_runs : ∃ p, Runs step (fun l p => careful l p = true)
    (Registry.loaded stored) anotherSession p ∧ p.entry.isSome = true ∧ KeepsSessions p := by
  have legal : Legal step (fun l p => careful l p = true) (Registry.loaded stored)
      anotherSession := by
    decide +kernel
  exact ⟨_, legal.runs, rfl, saves_keep_sessions legal.runs⟩

def resumed : List Label :=
  [.save (some "s1") true, .advance 0 true, .advance 0 true, .register "resident:butler" "s1",
    .advance 1 true, .advance 1 true]

def removesResumed : List Label := resumed ++ [.advance 0 true, .advance 0 true]

def clearsAnother : List Label :=
  resumed ++ [.save (some "s1") true, .advance 2 true, .advance 2 true, .advance 0 false,
    .advance 0 true, .advance 0 true, .save (some "s1") true, .advance 3 true]

/-- The write of `finish_save` fails. -/
def failsRemoved : List Label :=
  [.save none true, .advance 0 true, .advance 0 true, .advance 0 true, .advance 0 true,
    .advance 0 false, .advance 0 true]

theorem sessions_dropped :
    (∃ p, Runs step (fun _ _ => True) (Registry.loaded stored) removesResumed p ∧
      .finished 0 0 1 ∈ p.events) ∧
    (∃ p, Runs step (fun _ _ => True) (Registry.loaded stored) clearsAnother p ∧
      Past p.calls 2 1 ∧ Past p.calls 3 1 ∧ .cleared 0 (.call 2) ∈ p.events) ∧
    ∃ p, Runs step (fun _ _ => True) (Registry.loaded stored) failsRemoved p ∧
      .finished 0 0 0 ∈ p.events ∧ .failed 0 ∈ p.events := by
  refine ⟨⟨_, Runs.foldl (fun _ _ _ => trivial) _, ?_⟩,
    ⟨_, Runs.foldl (fun _ _ _ => trivial) _, ?_, ?_, ?_⟩,
    _, Runs.foldl (fun _ _ _ => trivial) _, ?_, ?_⟩
  · decide +kernel
  · exact ⟨⟨.plain (some "s1"), .retaining "s1" 1⟩, rfl, rfl⟩
  · exact ⟨⟨.plain (some "s1"), .claiming 1⟩, rfl, rfl⟩
  · decide +kernel
  · decide +kernel
  · decide +kernel

end Runs

end Casa.SessionClaims
