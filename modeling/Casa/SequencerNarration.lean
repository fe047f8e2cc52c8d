import Casa.SequencerTruth
import Casa.SequencerCancels

/-! Whether narration is append-only: an edit goes out only while the edited message is the
newest one in the topic. Every path that lets another message land seals the narration, except
one: when the poster of an intent comes back with a message although an outcome is already
recorded, `_post_intent_locked` returns at once. A cancel records such an outcome on an intent
that a walk has listed and not reached, and the walk posts it all the same. -/

namespace Casa.SequencerNarration
open SequencerIntents SequencerWriter SequencerLedger SequencerCancels SequencerTruth StepRuns

section Ids

/-- The messages sent through the sequencer, and the operator's messages reported to it. -/
def Topic.ids (t : Topic) : List Nat := t.sent.map (·.2) ++ t.reported

/-- `landed` are the messages of the send that is being awaited. -/
structure Topped (narration : Option Nat) (ids : List Nat) (top : Nat) (landed : List Nat) :
    Prop where
  bound : ∀ x ∈ ids, x ≤ top
  newest : ∀ m, narration = some m → ∀ x ∈ ids, x ≤ m ∨ x ∈ landed
  above : ∀ x ∈ ids, x ∈ landed ∨ ∀ y ∈ landed, x < y

variable {narration : Option Nat} {ids landed : List Nat} {top : Nat}

section
variable (h : Topped narration ids top landed)
include h

theorem Topped.sealed : Topped none ids top [] :=
  ⟨h.bound, nofun, fun _ _ => .inr nofun⟩

theorem Topped.closed : Topped none ids top landed :=
  ⟨h.bound, nofun, h.above⟩

theorem Topped.returned (nothing : narration = none ∨ landed = []) :
    Topped narration ids top [] := by
  rcases nothing with rfl | rfl
  · exact h.sealed
  · exact h

theorem Topped.raise (gap : Nat) : Topped narration ids (top + 1 + gap) landed :=
  ⟨fun x mem => Nat.le_trans (h.bound x mem) (by omega), h.newest, h.above⟩

theorem Topped.opened {m : Nat} (mem : m ∈ landed)
    (last : ∀ y ∈ landed, y ≤ m) : Topped (some m) ids top [] := by
  refine ⟨h.bound, ?_, fun _ _ => .inr nofun⟩
  rintro _ ⟨⟩ x inside
  refine .inl ((h.above x inside).elim (last x) fun below => ?_)
  exact Nat.le_of_lt (below m mem)

theorem Topped.reported {o : Nat} (given : o ≤ top) : Topped none (ids ++ [o]) top [] := by
  refine ⟨fun x mem => ?_, nofun, fun _ _ => .inr nofun⟩
  rcases List.mem_append.mp mem with old | new
  · exact h.bound x old
  · exact List.mem_singleton.mp new ▸ given

end

theorem Topped.lands {sent : List (Sender × Nat)} {reported : List Nat} {sender : Sender}
    (h : Topped narration (sent.map (·.2) ++ reported) top landed) (gap : Nat) :
    Topped narration ((sent ++ [(sender, top + 1 + gap)]).map (·.2) ++ reported) (top + 1 + gap)
      (landed ++ [top + 1 + gap]) := by
  have split : ∀ x ∈ (sent ++ [(sender, top + 1 + gap)]).map (·.2) ++ reported,
      x ∈ sent.map (·.2) ++ reported ∨ x = top + 1 + gap := by
    intro x mem
    simp only [List.map_append, List.map_cons, List.map_nil, List.mem_append,
      List.mem_singleton] at mem ⊢
    tauto
  refine ⟨fun x mem => ?_, fun m open_ x mem => ?_, fun x mem => ?_⟩
  · rcases split x mem with old | rfl
    · have := h.bound x old
      omega
    · exact Nat.le_refl _
  · rcases split x mem with old | rfl
    · exact (h.newest m open_ x old).imp_right (List.mem_append_left _)
    · exact .inr (List.mem_append_right _ List.mem_cons_self)
  · rcases split x mem with old | rfl
    · rcases h.above x old with inside | below
      · exact .inl (List.mem_append_left _ inside)
      · refine .inr fun y there => ?_
        rcases List.mem_append.mp there with before | new
        · exact below y before
        · have := h.bound x old
          rw [List.mem_singleton.mp new]
          omega
    · exact .inl (List.mem_append_right _ List.mem_cons_self)

end Ids

section Conditions

/-- What a send or poster may answer: it returns an id exactly when it has sent, the last id if
there are several. A poster that has compensated what it sent returns nothing, and one that is
interrupted may have sent. -/
def Reply.faithful (s : Sequencer) : Doing → Reply → Bool
  | .sending _ ids, .returns (some m) => ids.contains m && ids.all (· ≤ m)
  | .sending (.intent k _ _) ids, .returns none =>
      ids.isEmpty || (s.registry.get? k).any (·.outcome.any (·.isCompensated))
  | .sending (.intent k _ _) ids, .raises =>
      ids.isEmpty || (s.registry.get? k).any (·.outcome.any (·.isCompensated))
  | .sending (.intent _ _ _) _, .interrupted => true
  | .sending _ ids, .returns none => ids.isEmpty
  | .sending _ ids, .raises => ids.isEmpty
  | .sending _ ids, .interrupted => ids.isEmpty
  | _, _ => true

/-- Every call but `record_intent_refusal`, operator messages reported under the ids the wire gave
them, and faithful answers. -/
def faithful : Label → World → Bool
  | .call (.recordIntentRefusal _ _ _), _ => false
  | .start (.advanceHighWaterForInbound (some o)), w => decide (o ≤ w.topic.top)
  | .reply r, w => Reply.faithful w.seq w.doing r
  | _, _ => true

/-- No cancel takes effect on an intent that the walk in progress is still going to post. -/
def timely (intentTimeout : Nat) : Label → World → Bool
  | .call (.recordIntentCancelledNowait rid error message), w =>
      decide ((recordIntentCancelledNowait rid (.refused error message) w.seq).1 ≠ .cancelled) ||
        (w.seq.registry.byRequestId rid).all fun i => !willPost intentTimeout i.seq w
  | _, _ => true

def Faithful (l : Label) (w : World) : Prop := scheduled l w = true ∧ faithful l w = true

def Steady (intentTimeout : Nat) (l : Label) (w : World) : Prop :=
  Faithful l w ∧ timely intentTimeout l w = true

instance (l : Label) (w : World) : Decidable (Faithful l w) :=
  inferInstanceAs (Decidable (_ ∧ _))

instance (intentTimeout : Nat) (l : Label) (w : World) : Decidable (Steady intentTimeout l w) :=
  inferInstanceAs (Decidable (_ ∧ _))

end Conditions

section Invariant
variable {intentTimeout : Nat} {w v : World}

def Doing.landed : Doing → List Nat
  | .sending _ ids => ids
  | _ => []

def Fits (narration : Option MsgId) : Doing → Prop
  | .editing (.narration m _ _ _) => narration = some m
  | .sending (.notice _) _ => narration = none
  | _ => True

/-- The intent in hand has no outcome but the one its poster records, and those on the list that
will be posted have none. -/
structure Clean (intentTimeout : Nat) (w : World) : Prop where
  current : ∀ k, Doing.current w.doing = some k → ∀ i, w.seq.registry.get? k = some i →
    i.posting = true ∧ (i.outcome = none ∨
      i.outcome.any (·.isCompensated) = true ∧ w.seq.narrationMsgId = none)
  ahead : ∀ e ∈ Doing.ahead w.doing, ∀ i, w.seq.registry.get? e.2 = some i →
    i.state ≠ .pending ∧ (e.1.due intentTimeout i = true → i.outcome = none)

structure Newest (intentTimeout : Nat) (w : World) : Prop where
  topped : Topped w.seq.narrationMsgId (Topic.ids w.topic) w.topic.top (Doing.landed w.doing)
  fits : Fits w.seq.narrationMsgId w.doing
  clean : Clean intentTimeout w

theorem clean_of_free (free : Doing.current v.doing = none) (empty : Doing.ahead v.doing = []) :
    Clean intentTimeout v := by
  refine ⟨fun k serving => ?_, fun e mem => ?_⟩
  · rw [free] at serving
    cases serving
  · rw [empty] at mem
    exact absurd mem List.not_mem_nil

section
variable {s : Sequencer} (topped : Topped s.narrationMsgId (Topic.ids w.topic) w.topic.top [])
include topped

/-- The lock holder has no intent in hand and nothing landed: what it did to the narration is to
leave it or to seal it. -/
theorem newest_of_idle {d : Doing} {a : Answer}
    (free : Doing.current d = none) (empty : Doing.ahead d = []) (none : Doing.landed d = [])
    (fits : Fits s.narrationMsgId d) :
    Newest intentTimeout { w with seq := s, doing := d, answer := a } := by
  refine ⟨?_, fits, clean_of_free free empty⟩
  rw [none]
  exact topped

theorem newest_back (origin : Origin) (a : Answer) :
    Newest intentTimeout ({ w with seq := s }.back origin a) := by
  cases origin <;> exact newest_of_idle topped rfl rfl rfl trivial

theorem newest_finish (a : Answer) :
    Newest intentTimeout ({ w with seq := s }.finish a) :=
  newest_of_idle topped rfl rfl rfl trivial

end

end Invariant

section Calls
variable {intentTimeout : Nat} {w : World}

/-- What a call without the lock may do to an intent that a writer has in hand or on its list. -/
structure Gentle (intentTimeout : Nat) (w : World) (i j : SendIntent) : Prop where
  ticket : j.toTicket = i.toTicket
  posting : j.posting = i.posting
  slotMissed : j.slotMissed = i.slotMissed
  state : i.state ≠ .pending → j.state ≠ .pending ∧ j.armedAt = i.armedAt
  outcome : j.outcome = i.outcome ∨ i.posting = false ∧ willPost intentTimeout i.seq w = false

theorem Gentle.refl (i : SendIntent) : Gentle intentTimeout w i i :=
  ⟨rfl, rfl, rfl, fun h => ⟨h, rfl⟩, .inl rfl⟩

theorem due_false_of_willPost {walk : Walk} {k : Nat} {i : SendIntent}
    (off : willPost intentTimeout k w = false) (mem : (walk, k) ∈ Doing.ahead w.doing)
    (found : w.seq.registry.get? k = some i) : walk.due intentTimeout i = false := by
  have no := List.any_eq_false.mp off (walk, k) mem
  simpa [found] using no

theorem Clean.gentle {s : Sequencer} (clean : Clean intentTimeout w)
    (narration : s.narrationMsgId = w.seq.narrationMsgId)
    (gentle : ∀ k j, k < w.seq.registry.nextSeq → s.registry.get? k = some j →
      ∃ i, w.seq.registry.get? k = some i ∧ Gentle intentTimeout w i j)
    (once : Once (ledger w)) : Clean intentTimeout { w with seq := s } := by
  refine ⟨fun k serving j found => ?_, ?_⟩
  · have known : k < w.seq.registry.nextSeq := once.known k (once.current k serving)
    obtain ⟨i, before, same⟩ := gentle k j known found
    obtain ⟨posting, outcome⟩ := clean.current k serving i before
    refine ⟨same.posting.trans posting, ?_⟩
    rcases same.outcome with kept | ⟨idle, -⟩
    · change j.outcome = none ∨ _ ∧ s.narrationMsgId = none
      rw [kept, narration]
      exact outcome
    · exact absurd (idle.symm.trans posting) Bool.false_ne_true
  · rintro ⟨walk, k⟩ mem j found
    have known : k < w.seq.registry.nextSeq := (once.waiting _ mem).2
    obtain ⟨i, before, same⟩ := gentle k j known found
    obtain ⟨moved, outcome⟩ := clean.ahead _ mem i before
    obtain ⟨still, armedAt⟩ := same.state moved
    have due : walk.due intentTimeout j = walk.due intentTimeout i :=
      due_of_frozen same.ticket.symm ⟨armedAt, same.slotMissed⟩
    refine ⟨still, fun yes => ?_⟩
    rw [due] at yes
    rcases same.outcome with kept | ⟨-, off⟩
    · exact kept.trans (outcome yes)
    · have here : i.seq = k := (IntentRegistry.get?_eq_some_iff.mp before).2
      rw [here] at off
      exact absurd ((due_false_of_willPost off mem before).symm.trans yes) Bool.false_ne_true

theorem gentle_modify {r : IntentRegistry} {n : Nat} {f : Progress → Progress}
    (gentle : ∀ i, r.get? n = some i →
      Gentle intentTimeout w i { i with toProgress := f i.toProgress }) (k : Nat) (j : SendIntent)
    (found : (r.modify n f).get? k = some j) :
    ∃ i, r.get? k = some i ∧ Gentle intentTimeout w i j := by
  rw [IntentRegistry.get?_modify, Option.map_eq_some_iff] at found
  obtain ⟨i, before, rfl⟩ := found
  refine ⟨i, before, ?_⟩
  unfold SendIntent.progress
  split
  · rename_i here
    rw [← (IntentRegistry.get?_eq_some_iff.mp before).2, here] at before
    exact gentle i before
  · exact .refl i

theorem byRequestId_of_mem {r : IntentRegistry} {i : SendIntent} (mem : i ∈ r.intents) :
    r.byRequestId i.requestId = some i := by
  cases found : r.byRequestId i.requestId with
  | none => exact absurd (List.mem_map_of_mem mem) (IntentRegistry.not_mem_of_byRequestId found)
  | some j =>
    have same : j.requestId = i.requestId := by simpa using List.find?_some found
    have there := IntentRegistry.mem_of_byRequestId found
    rw [List.inj_on_of_nodup_map r.requests there mem same]

theorem get?_register {r : IntentRegistry} (now : Nat) (rid : String) (tool : Tool)
    (hash : String) (onRetire : Bool) {k : Nat} (known : k < r.nextSeq) {i : SendIntent}
    (found : (r.register now rid tool hash onRetire).2.get? k = some i) : r.get? k = some i := by
  rcases IntentRegistry.register_cases r now rid tool hash onRetire with same | new
  · rwa [same] at found
  · obtain ⟨mem, here⟩ := IntentRegistry.get?_eq_some_iff.mp found
    rw [new.2, List.mem_append, List.mem_singleton] at mem
    rcases mem with old | rfl
    · exact IntentRegistry.get?_eq_some_iff.mpr ⟨old, here⟩
    · exact absurd known (here ▸ Nat.lt_irrefl _)

theorem posting_cancel (p : Progress) : p.cancel.posting = p.posting := by
  unfold Progress.cancel
  split <;> rfl

theorem not_pending_cancel (p : Progress) : p.cancel.state ≠ .pending := by
  intro pending
  rcases settled_cancel p with no | no
  · exact absurd (pending.symm.trans no) nofun
  · exact absurd (pending.symm.trans no) nofun

theorem gentle_arm (now : Nat) (i : SendIntent) :
    Gentle intentTimeout w i { i with toProgress := i.toProgress.arm now } := by
  unfold Progress.arm
  split
  · rename_i pending
    exact ⟨rfl, rfl, rfl, fun moved => absurd pending moved, .inl rfl⟩
  · exact .refl i

theorem gentle_cancel (i : SendIntent) :
    Gentle intentTimeout w i { i with toProgress := i.toProgress.cancel } :=
  ⟨rfl, posting_cancel _, slotMissed_cancel _, fun _ => ⟨not_pending_cancel _, armedAt_cancel _⟩,
    .inl (outcome_cancel _)⟩

theorem narration_call (c : Call) (s : Sequencer) :
    (c.run s).narrationMsgId = s.narrationMsgId := by
  have requested : ∀ rid f, (s.progressRequest rid f).narrationMsgId = s.narrationMsgId := by
    intro rid f
    unfold Sequencer.progressRequest
    split <;> rfl
  cases c with
  | registerIntent rid tool hash onRetire =>
    simp only [Call.run, registerIntent]
    split <;> rfl
  | armIntent rid => exact requested rid _
  | cancelIntent rid => exact requested rid _
  | recordIntentRefusal rid error message => exact requested rid _
  | recordIntentCancelledNowait rid error message =>
    simp only [Call.run]
    rcases recordIntentCancelledNowait_cases s rid (.refused error message) with
      ⟨-, same⟩ | ⟨i, -, -, -, effect⟩
    · rw [same]
    · rw [effect]
      rfl
  | registerCompletionConsumption rid hash =>
    simp only [Call.run, registerCompletionConsumption]
    split <;> rfl
  | setTurnReplyTo mid => rfl
  | consumeTurnReplyTo => rfl
  | restoreTurnReplyTo mid =>
    simp only [Call.run]
    split <;> rfl

theorem gentle_call (c : Call) (ok : Steady intentTimeout (.call c) w) (k : Nat)
    (j : SendIntent) (known : k < w.seq.registry.nextSeq)
    (found : (c.run w.seq).registry.get? k = some j) :
    ∃ i, w.seq.registry.get? k = some i ∧ Gentle intentTimeout w i j := by
  have requested : ∀ rid f,
      (∀ i, Gentle intentTimeout w i { i with toProgress := f i.toProgress }) →
      (w.seq.progressRequest rid f).registry.get? k = some j →
      ∃ i, w.seq.registry.get? k = some i ∧ Gentle intentTimeout w i j := by
    intro rid f gentle found
    unfold Sequencer.progressRequest at found
    split at found
    · exact gentle_modify (fun i _ => gentle i) k j found
    · exact ⟨j, found, .refl j⟩
  cases c with
  | registerIntent rid tool hash onRetire =>
    simp only [Call.run, registerIntent] at found
    split at found
    · exact ⟨j, found, .refl j⟩
    · exact ⟨j, get?_register _ rid tool hash onRetire known found, .refl j⟩
  | armIntent rid => exact requested rid _ (gentle_arm w.seq.clock) found
  | cancelIntent rid => exact requested rid _ gentle_cancel found
  | recordIntentRefusal rid error message => exact absurd ok.1.2 Bool.false_ne_true
  | recordIntentCancelledNowait rid error message =>
    simp only [Call.run] at found
    rcases recordIntentCancelledNowait_cases w.seq rid (.refused error message) with
      ⟨-, same⟩ | ⟨n, request, idle, won, effect⟩
    · rw [same] at found
      exact ⟨j, found, .refl j⟩
    · have mem := IntentRegistry.mem_of_byRequestId request
      rw [effect] at found
      refine gentle_modify (fun i before => ?_) k j found
      obtain ⟨inside, here⟩ := IntentRegistry.get?_eq_some_iff.mp before
      obtain rfl := IntentRegistry.eq_of_seq inside mem here
      refine ⟨rfl, posting_cancel _, slotMissed_cancel _,
        fun _ => ⟨not_pending_cancel _, armedAt_cancel _⟩, .inr ⟨idle, ?_⟩⟩
      simpa [timely, won, request] using ok.2
  | registerCompletionConsumption rid hash =>
    simp only [Call.run, registerCompletionConsumption] at found
    split at found
    · exact ⟨j, found, .refl j⟩
    · have marked : ∀ i : SendIntent, Gentle intentTimeout w i { i with
          toProgress := { i.toProgress with
            state := .posted
            timeoutPosted := true
            consumed := false } } :=
        fun i => ⟨rfl, rfl, rfl, fun _ => ⟨by simp, rfl⟩, .inl rfl⟩
      obtain ⟨i, before, gentle⟩ := gentle_modify (fun i _ => marked i) k j found
      exact ⟨i, get?_register _ rid .emitCompletion hash false known before, gentle⟩
  | setTurnReplyTo mid => exact ⟨j, found, .refl j⟩
  | consumeTurnReplyTo => exact ⟨j, found, .refl j⟩
  | restoreTurnReplyTo mid =>
    simp only [Call.run] at found
    split at found <;> exact ⟨j, found, .refl j⟩

end Calls

section Walks
variable {intentTimeout : Nat} {w : World}

theorem clean_rest {s : Sequencer} {walk : Walk} {k : Nat} {rest : List Nat}
    {f : Progress → Progress} (registry : s.registry = w.seq.registry.modify k f)
    (others : ∀ j ∈ rest, j ≠ k ∧ ∀ i, w.seq.registry.get? j = some i →
      i.state ≠ .pending ∧ (walk.due intentTimeout i = true → i.outcome = none)) :
    ∀ e ∈ rest.map (fun j => (walk, j)), ∀ i, s.registry.get? e.2 = some i →
      i.state ≠ .pending ∧ (e.1.due intentTimeout i = true → i.outcome = none) := by
  intro e mem i found
  obtain ⟨j, inside, rfl⟩ := List.mem_map.mp mem
  obtain ⟨other, clean⟩ := others j inside
  rw [registry, IntentRegistry.get?_modify, Option.map_eq_some_iff] at found
  obtain ⟨o, before, rfl⟩ := found
  have here : o.seq ≠ k := (IntentRegistry.get?_eq_some_iff.mp before).2 ▸ other
  simpa [SendIntent.progress, here] using clean o before

theorem newest_visit {walk : Walk} {k : Nat} {rest : List Nat}
    (topped : Topped w.seq.narrationMsgId (Topic.ids w.topic) w.topic.top [])
    (fresh : ∀ i, w.seq.registry.get? k = some i → walk.due intentTimeout i = true →
      i.outcome = none)
    (others : ∀ j ∈ rest, j ≠ k ∧ ∀ i, w.seq.registry.get? j = some i →
      i.state ≠ .pending ∧ (walk.due intentTimeout i = true → i.outcome = none)) :
    Newest intentTimeout (visit intentTimeout walk k rest w) := by
  have passed : Newest intentTimeout { w with doing := .walking walk rest } := by
    refine ⟨topped, trivial, nofun, fun e mem i found => ?_⟩
    obtain ⟨j, inside, rfl⟩ := List.mem_map.mp mem
    exact (others j inside).2 i found
  unfold visit
  split
  · exact passed
  · rename_i i found
    split
    · exact passed
    · rename_i due
      split
      · exact ⟨topped, trivial, nofun, clean_rest rfl others⟩
      · refine ⟨topped, trivial, ?_, clean_rest rfl others⟩
        rintro _ ⟨⟩ j posted
        change (w.seq.registry.modify k _).get? k = some j at posted
        rw [IntentRegistry.get?_modify, found] at posted
        cases posted
        have here := (IntentRegistry.get?_eq_some_iff.mp found).2
        simp only [SendIntent.progress, here, if_true]
        exact ⟨trivial, .inl (fresh i found ((Bool.not_eq_false _).mp due))⟩

theorem clean_listed (once : Once (ledger w)) {k : Nat} (mem : k ∈ w.seq.registry.armedUnposted)
    {i : SendIntent} (found : w.seq.registry.get? k = some i) :
    i.state ≠ .pending ∧ i.outcome = none := by
  obtain ⟨j, inside, armed, same⟩ := IntentRegistry.mem_armedUnposted.mp mem
  obtain ⟨here, also⟩ := IntentRegistry.get?_eq_some_iff.mp found
  obtain rfl := IntentRegistry.eq_of_seq here inside (also.trans same.symm)
  refine ⟨fun pending => ?_, ?_⟩
  · simp [SendIntent.armedUnposted, pending] at armed
  · cases outcome : i.outcome with
    | none => rfl
    | some o =>
      have spent := (once.sound i here).resolved (by rw [outcome]; rfl)
      exact absurd spent (not_spent_of_armedUnposted armed)

theorem newest_list (walk : Walk) (once : Once (ledger w))
    (topped : Topped w.seq.narrationMsgId (Topic.ids w.topic) w.topic.top []) :
    Newest intentTimeout { w with doing := .walking walk w.seq.registry.armedUnposted } := by
  refine ⟨topped, trivial, nofun, fun e mem i found => ?_⟩
  obtain ⟨k, listed, rfl⟩ := List.mem_map.mp mem
  obtain ⟨moved, none⟩ := clean_listed once listed found
  exact ⟨moved, fun _ => none⟩

theorem newest_proceed {walk : Walk} {rest : List Nat} (once : Once (ledger w))
    (h : Newest intentTimeout w) (here : w.doing = .walking walk rest) :
    Newest intentTimeout (proceed intentTimeout walk rest w) := by
  have topped := h.topped
  rw [here] at topped
  cases rest with
  | cons k more =>
    have ahead : Doing.ahead w.doing = (walk, k) :: more.map fun j => (walk, j) := by
      rw [here]
      rfl
    have distinct : k ∉ more := by
      have nodup := once.distinct
      change ((Doing.ahead w.doing).map _).Nodup at nodup
      rw [ahead, List.map_cons, List.nodup_cons, List.map_map] at nodup
      simpa using nodup.1
    have clean := h.clean.ahead
    rw [ahead] at clean
    refine newest_visit topped ?_ ?_
    · exact fun i found => (clean (walk, k) List.mem_cons_self i found).2
    · refine fun j mem => ⟨fun same => distinct (same ▸ mem), ?_⟩
      exact clean (walk, j) (List.mem_cons_of_mem _ (List.mem_map_of_mem mem))
  | nil =>
    cases walk with
    | block => exact newest_finish topped _
    | process now => exact newest_finish topped _
    | flush => exact newest_finish topped _
    | drain =>
      simp only [proceed]
      split
      · refine ⟨?_, trivial, clean_of_free rfl rfl⟩
        simpa [World.prune, World.finish, Topic.ids, Doing.landed] using topped.sealed
      · exact newest_list _ once topped

end Walks

section Steps
variable {intentTimeout : Nat} {w : World}

theorem newest_openNarration (text : String) (origin : Origin)
    (topped : Topped w.seq.narrationMsgId (Topic.ids w.topic) w.topic.top []) :
    Newest intentTimeout (openNarration text origin w) := by
  unfold openNarration
  split
  · exact newest_back topped origin _
  · exact newest_of_idle topped rfl rfl rfl trivial

theorem newest_editNarrationIfLatest (m : MsgId) (text : String) (markup : Markup)
    (origin : Origin)
    (topped : Topped w.seq.narrationMsgId (Topic.ids w.topic) w.topic.top []) :
    Newest intentTimeout (editNarrationIfLatest m text markup origin w) := by
  unfold editNarrationIfLatest
  split
  · exact newest_back topped origin _
  · split
    · exact newest_back topped origin _
    · rename_i latest
      split
      · exact newest_back topped origin _
      · exact newest_of_idle topped rfl rfl rfl (not_not.mp (not_or.mp latest).1)

theorem newest_gateDiscreteEdit (m : MsgId) (text : Option String) (markup : Markup)
    (topped : Topped w.seq.narrationMsgId (Topic.ids w.topic) w.topic.top []) :
    Newest intentTimeout (gateDiscreteEdit m text markup w) := by
  unfold gateDiscreteEdit
  split
  · exact newest_finish topped _
  · exact newest_of_idle topped rfl rfl rfl trivial

theorem newest_postForBlock (tool : Tool) (hash : String) (last : Bool) (once : Once (ledger w))
    (topped : Topped w.seq.narrationMsgId (Topic.ids w.topic) w.topic.top []) :
    Newest intentTimeout (postForBlock intentTimeout tool hash last w) := by
  unfold postForBlock
  split
  · rename_i i found
    obtain ⟨mem, matchable⟩ := IntentRegistry.mem_of_oldestMatchable found
    split
    · rename_i armed
      refine newest_visit topped (fun j before _ => ?_) nofun
      obtain ⟨inside, same⟩ := IntentRegistry.get?_eq_some_iff.mp before
      obtain rfl := IntentRegistry.eq_of_seq inside mem same
      cases outcome : j.outcome with
      | none => rfl
      | some o =>
        have spent := (once.sound j inside).resolved (by rw [outcome]; rfl)
        exact absurd spent (not_spent_of_matchable armed matchable)
    · exact newest_finish (s := w.seq.progress _ _) topped _
    · refine newest_finish ?_ _
      simpa [Sequencer.progress] using topped.sealed
    · split
      · exact newest_finish (s := w.seq.progress _ _) topped _
      · exact newest_finish topped _
  · split
    · exact newest_finish topped _
    · split <;> exact newest_finish topped _

theorem newest_start (task : Task) (once : Once (ledger w))
    (topped : Topped w.seq.narrationMsgId (Topic.ids w.topic) w.topic.top [])
    (ok : Faithful (.start task) w) :
    Newest intentTimeout (task.start intentTimeout w) := by
  cases task with
  | openNarration text => exact newest_openNarration text .caller topped
  | editNarrationIfLatest m text markup =>
    exact newest_editNarrationIfLatest m text markup .caller topped
  | postUnlessAnchorOpen text seam posts =>
    simp only [Task.start, postUnlessAnchorOpen]
    split
    · exact newest_finish topped _
    · split
      · exact newest_of_idle topped rfl rfl rfl trivial
      · split <;> exact newest_of_idle topped rfl rfl rfl trivial
  | editSummary m text =>
    simp only [Task.start, editSummary]
    split
    · exact newest_finish topped _
    · exact newest_of_idle topped rfl rfl rfl trivial
  | sealNarration =>
    refine newest_finish ?_ _
    simpa using topped.sealed
  | advanceHighWaterForInbound o =>
    cases o with
    | none =>
      refine newest_finish ?_ _
      simpa using topped.sealed
    | some m =>
      have given : m ≤ w.topic.top := of_decide_eq_true ok.2
      refine ⟨?_, trivial, clean_of_free rfl rfl⟩
      simpa [Task.start, advanceHighWaterForInbound, World.finish, Topic.ids, Doing.landed]
        using topped.reported given
  | postPlatformNotice =>
    simp only [Task.start, postPlatformNotice]
    split
    · exact newest_finish topped _
    · refine newest_of_idle ?_ rfl rfl rfl (narration_sealNarrationLocked _)
      simpa using topped.sealed
  | postCompletionNotice =>
    refine newest_of_idle ?_ rfl rfl rfl (narration_sealNarrationLocked _)
    simpa using topped.sealed
  | postDiscrete text markup revalidate budgeted =>
    simp only [Task.start, postDiscrete]
    split
    · exact newest_finish topped _
    · split <;> exact newest_of_idle topped rfl rfl rfl trivial
  | editDiscrete m text markup revalidate =>
    simp only [Task.start, editDiscrete]
    split
    · exact newest_of_idle topped rfl rfl rfl trivial
    · exact newest_gateDiscreteEdit m text markup topped
  | postForBlock tool hash last => exact newest_postForBlock tool hash last once topped
  | processIntentsOnce => exact newest_list _ once topped
  | flushArmedIntents => exact newest_list _ once topped
  | drainAndPruneTurn => exact newest_of_idle topped rfl rfl rfl trivial
  | terminalize =>
    simp only [Task.start, terminalize]
    split
    · exact newest_finish topped _
    · exact ⟨topped, trivial, clean_of_free rfl rfl⟩

theorem newest_edited (what : Edit) (ok : Bool)
    (topped : Topped w.seq.narrationMsgId (Topic.ids w.topic) w.topic.top []) :
    Newest intentTimeout (edited what ok w) := by
  unfold edited
  split
  · split <;> exact newest_back (s := w.seq.cache _ _) topped _ _
  · split <;> exact newest_finish (s := w.seq.cache _ _) topped _
  · split
    · exact newest_finish (s := (w.seq.cache _ _).registerDiscreteCache _) topped _
    · exact newest_finish (s := (w.seq.cache _ _).forgetDiscreteCache _) topped _

theorem newest_editRaised (what : Edit)
    (topped : Topped w.seq.narrationMsgId (Topic.ids w.topic) w.topic.top []) :
    Newest intentTimeout (editRaised what w) := by
  unfold editRaised
  split
  · exact newest_back topped .relay _
  · exact newest_finish topped _

theorem narration_postedDiscrete (text : String) (markup : Markup) (m : MsgId) (s : Sequencer) :
    (postedDiscrete text markup (some m) s).narrationMsgId = none := by
  simp [postedDiscrete, Sequencer.cache, Sequencer.registerDiscreteCache]

theorem narration_postedNotice (mid : Option MsgId) (s : Sequencer) :
    (postedNotice mid s).narrationMsgId = s.narrationMsgId := by
  cases mid <;> simp [postedNotice]

theorem others_of_clean {k : Nat} {walk : Walk} {rest ids : List Nat} (once : Once (ledger w))
    (clean : Clean intentTimeout w) (here : w.doing = .sending (.intent k walk rest) ids) :
    ∀ j ∈ rest, j ≠ k ∧ ∀ i, w.seq.registry.get? j = some i →
      i.state ≠ .pending ∧ (walk.due intentTimeout i = true → i.outcome = none) := by
  intro j mem
  have listed : (walk, j) ∈ Doing.ahead w.doing := by
    rw [here]
    exact List.mem_map_of_mem mem
  refine ⟨?_, clean.ahead (walk, j) listed⟩
  rintro rfl
  have called : j ∈ w.topic.invoked := once.current j (by simp [ledger, here])
  exact (once.waiting (walk, j) listed).1 called

theorem narration_of_recorded {k : Nat} {walk : Walk} {rest ids : List Nat}
    (clean : Clean intentTimeout w) (here : w.doing = .sending (.intent k walk rest) ids)
    (recorded : w.seq.recorded k = true) : w.seq.narrationMsgId = none := by
  cases found : w.seq.registry.get? k with
  | none =>
    rw [Sequencer.recorded, found] at recorded
    cases recorded
  | some i =>
    rw [recorded_iff found] at recorded
    rcases (clean.current k (by rw [here]; rfl) i found).2 with none | ⟨-, narration⟩
    · rw [none] at recorded
      cases recorded
    · exact narration

theorem narration_of_compensated {k : Nat} {walk : Walk} {rest ids : List Nat}
    (clean : Clean intentTimeout w) (here : w.doing = .sending (.intent k walk rest) ids)
    (compensated : (w.seq.registry.get? k).any (·.outcome.any (·.isCompensated)) = true) :
    w.seq.narrationMsgId = none := by
  refine narration_of_recorded clean here ?_
  obtain ⟨i, found, outcome⟩ := (Option.any_eq_true _ _).mp compensated
  rw [recorded_iff found]
  exact Option.isSome_of_any outcome

theorem topped_resolvePost {k : Nat} {walk : Walk} {rest ids : List Nat} {mid : Option MsgId}
    (h : Newest intentTimeout w) (here : w.doing = .sending (.intent k walk rest) ids)
    (sent : mid = none → ids = [] ∨
      (w.seq.registry.get? k).any (·.outcome.any (·.isCompensated)) = true) :
    Topped (resolvePost walk k mid w.seq).narrationMsgId (Topic.ids w.topic) w.topic.top [] := by
  have topped := h.topped
  rw [here] at topped
  cases mid with
  | none =>
    refine topped.returned ((sent rfl).symm.imp_left ?_)
    exact narration_of_compensated h.clean here
  | some m =>
    simp only [resolvePost]
    split
    · exact topped.returned (.inl (narration_of_recorded h.clean here ‹_›))
    · simpa [Sequencer.progress] using topped.sealed

theorem newest_returned {what : Send} {ids : List Nat} {mid : Option MsgId}
    (once : Once (ledger w)) (h : Newest intentTimeout w) (here : w.doing = .sending what ids)
    (ok : Reply.faithful w.seq w.doing (.returns mid) = true) :
    Newest intentTimeout (returned what mid w) := by
  have topped := h.topped
  have fits := h.fits
  rw [here] at topped ok fits
  have answered : ∀ m, mid = some m → m ∈ ids ∧ ∀ y ∈ ids, y ≤ m := by
    rintro m rfl
    cases what <;> simpa [Reply.faithful] using ok
  cases what with
  | narration text replyTo origin =>
    cases mid with
    | none => exact newest_back (topped.returned (.inr (List.isEmpty_iff.mp ok))) origin _
    | some m =>
      obtain ⟨mem, last⟩ := answered m rfl
      exact newest_back (topped.opened mem last) origin _
  | notice completion =>
    refine newest_finish ?_ _
    rw [narration_postedNotice]
    exact topped.returned (.inl fits)
  | discrete text markup budgeted =>
    cases mid with
    | none => exact newest_finish (topped.returned (.inr (List.isEmpty_iff.mp ok))) _
    | some m =>
      refine newest_finish ?_ _
      rw [narration_postedDiscrete]
      exact topped.sealed
  | intent k walk rest =>
    obtain ⟨f, -, registry, -⟩ := resolvePost_resolves walk k mid w.seq
    refine ⟨topped_resolvePost h here ?_, trivial, nofun,
      clean_rest registry (others_of_clean once h.clean here)⟩
    rintro rfl
    simpa [Reply.faithful] using ok

theorem newest_raised {what : Send} {ids : List Nat} (once : Once (ledger w))
    (h : Newest intentTimeout w) (here : w.doing = .sending what ids)
    (ok : Reply.faithful w.seq w.doing .raises = true) : Newest intentTimeout (raised what w) := by
  have topped := h.topped
  rw [here] at topped ok
  cases what with
  | intent k walk rest =>
    obtain ⟨f, -, registry, -⟩ := resolvePost_resolves walk k none w.seq
    refine ⟨topped_resolvePost h here ?_, trivial, nofun,
      clean_rest registry (others_of_clean once h.clean here)⟩
    intro
    simpa [Reply.faithful] using ok
  | narration text replyTo origin =>
    have idle := topped.returned (.inr (List.isEmpty_iff.mp ok))
    cases origin with
    | relay => exact newest_back idle .relay _
    | caller => exact newest_finish idle _
    | fallback => exact newest_finish idle _
  | notice completion => exact newest_finish (topped.returned (.inr (List.isEmpty_iff.mp ok))) _
  | discrete text markup budgeted =>
    exact newest_finish (topped.returned (.inr (List.isEmpty_iff.mp ok))) _

theorem newest_interrupted {what : Send} {ids : List Nat} (once : Once (ledger w))
    (h : Newest intentTimeout w) (here : w.doing = .sending what ids)
    (ok : Reply.faithful w.seq w.doing .interrupted = true) :
    Newest intentTimeout (interrupted what w) := by
  have topped := h.topped
  rw [here] at topped ok
  cases what with
  | intent k walk rest =>
    refine newest_finish ?_ _
    unfold interruptPost
    split
    · exact topped.returned (.inl (narration_of_recorded h.clean here ‹_›))
    · simpa [Sequencer.progress] using topped.sealed
  | narration text replyTo origin =>
    cases origin <;> exact newest_raised once h here (by rw [here]; exact ok)
  | notice completion => exact newest_raised once h here (by rw [here]; exact ok)
  | discrete text markup budgeted => exact newest_raised once h here (by rw [here]; exact ok)

theorem newest_landed {what : Send} {ids : List Nat} (gap : Nat) (h : Newest intentTimeout w)
    (here : w.doing = .sending what ids) : Newest intentTimeout (landed what ids gap w) := by
  have topped := h.topped
  have fits := h.fits
  have current := h.clean.current
  have ahead := h.clean.ahead
  rw [here] at topped fits current ahead
  refine ⟨topped.lands gap, ?_, ?_, ?_⟩
  · cases what <;> exact fits
  · cases what <;> exact current
  · cases what <;> exact ahead

theorem newest_compensate {k : Nat} {walk : Walk} {rest ids : List Nat} (mid : MsgId)
    (once : Once (ledger w)) (h : Newest intentTimeout w)
    (here : w.doing = .sending (.intent k walk rest) ids) :
    Newest intentTimeout { w with seq := compensate k mid w.seq } := by
  unfold compensate
  split
  · rename_i i found
    obtain ⟨mem, same⟩ := IntentRegistry.get?_eq_some_iff.mp found
    unfold markIntentCompensated
    rw [byRequestId_of_mem mem]
    simp only
    split
    · exact h
    · have narration : ∀ f, ((w.seq.sealNarrationLocked.progress i.seq f).raiseHighWater
          mid).narrationMsgId = none := by
        intro f
        simp [Sequencer.progress]
      have registry : ∀ f, ((w.seq.sealNarrationLocked.progress i.seq f).raiseHighWater
          mid).registry = w.seq.registry.modify k f := by
        intro f
        simp [Sequencer.progress, same]
      refine ⟨?_, ?_, ?_, ?_⟩
      · rw [narration]
        exact h.topped.closed
      · rw [here]
        trivial
      · intro n serving j after
        rw [here] at serving
        cases serving
        rw [registry, IntentRegistry.get?_modify, found] at after
        cases after
        have posting := (h.clean.current k (by rw [here]; rfl) i found).1
        refine ⟨?_, .inr ⟨?_, narration _⟩⟩
        · simpa only [SendIntent.progress, same, if_true] using posting
        · simp only [SendIntent.progress, same, if_true]
          rfl
      · rw [here]
        exact clean_rest (registry _) (others_of_clean once h.clean here)
  · exact h

theorem newest_nestedSummary (m : MsgId) (text : String) (ok : Bool)
    (h : Newest intentTimeout w) :
    Newest intentTimeout { w with seq := nestedSummary m text ok w.seq } := by
  unfold nestedSummary
  split
  · exact h
  · split <;> exact ⟨h.topped, h.fits, h.clean.current, h.clean.ahead⟩

theorem newest_reply (r : Reply) (once : Once (ledger w)) (h : Newest intentTimeout w)
    (ok : Reply.faithful w.seq w.doing r = true) : Newest intentTimeout (r.answer w w.doing) := by
  have topped := h.topped
  unfold Reply.answer
  split
  · exact newest_landed _ h ‹_›
  · exact newest_returned once h ‹_› ok
  · exact newest_raised once h ‹_› ok
  · exact newest_interrupted once h ‹_› ok
  · refine newest_finish ?_ _
    simpa using topped.sealed
  · exact newest_compensate _ once h ‹_›
  · exact newest_nestedSummary _ _ _ h
  -- from here on nothing has landed
  all_goals try rw [‹w.doing = _›] at topped
  · exact newest_edited _ _ topped
  · exact newest_editRaised _ topped
  · split
    · exact newest_finish topped _
    · split <;> exact newest_of_idle topped rfl rfl rfl trivial
  · exact newest_finish topped _
  · exact newest_openNarration _ .relay topped
  · exact newest_editNarrationIfLatest _ _ _ .relay topped
  · exact newest_finish topped _
  · exact newest_finish topped _
  · split
    · exact newest_of_idle topped rfl rfl rfl trivial
    · exact newest_finish topped _
  · exact newest_finish topped _
  · split
    · exact newest_gateDiscreteEdit _ _ _ topped
    · exact newest_finish topped _
  · exact newest_finish topped _
  · exact h

theorem Newest.step (lab : Label) (once : Once (ledger w)) (h : Newest intentTimeout w)
    (ok : Steady intentTimeout lab w) : Newest intentTimeout (step intentTimeout lab w) := by
  cases lab with
  | call c =>
    refine ⟨?_, ?_, h.clean.gentle (narration_call c w.seq) (gentle_call c ok) once⟩
    · change Topped (c.run w.seq).narrationMsgId _ _ _
      rw [narration_call]
      exact h.topped
    · change Fits (c.run w.seq).narrationMsgId _
      rw [narration_call]
      exact h.fits
  | operator gap => exact ⟨h.topped.raise gap, h.fits, h.clean.current, h.clean.ahead⟩
  | tick n => exact ⟨h.topped, h.fits, h.clean.current, h.clean.ahead⟩
  | start task =>
    simp only [SequencerWriter.step]
    split
    · rename_i idle
      have topped := h.topped
      rw [idle] at topped
      exact newest_start task once topped ok.1
    · exact h
  | proceed =>
    simp only [SequencerWriter.step]
    split
    · exact newest_proceed once h ‹_›
    · exact h
  | reply r => exact newest_reply r once h ok.1.2

theorem newest_empty : Newest intentTimeout {} := by
  refine ⟨⟨?_, ?_, ?_⟩, trivial, clean_of_free rfl rfl⟩
  · exact fun x mem => absurd mem List.not_mem_nil
  · exact fun m no => absurd no.symm (Option.some_ne_none m)
  · exact fun x mem => absurd mem List.not_mem_nil

/-- A narration message is open and a flush has two asks to post. The second ask is cancelled
while the first poster is awaited, the first post fails, and the second goes out: its outcome is
recorded already, so the narration stays open above it. -/
def editAbove : List Label :=
  [.start (.openNarration "working"), .reply (.lands 0), .reply (.returns (some 1)),
    .call (.registerIntent "a" .ask "x" false), .call (.armIntent "a"),
    .call (.registerIntent "b" .ask "y" false), .call (.armIntent "b"),
    .start .flushArmedIntents, .proceed,
    .call (.recordIntentCancelledNowait "b" "cancelled" none), .reply (.returns none),
    .proceed, .reply (.lands 0), .reply (.returns (some 2)), .proceed,
    .start (.editNarrationIfLatest 1 "done" .absent)]

end Steps

end Casa.SequencerNarration
