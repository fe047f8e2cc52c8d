import Casa.ClientPool

/-! One turn at a time for each key. A turn is engaged from the check of its entry to the end of
`run_turn_locked`; while it is, the key has its entry under the same lock, or the barrier of an
invalidation that waits for that lock, unless the pool is closing. An eviction or a `close_key`
that takes the entry of an engaged turn leaves neither. -/

namespace Casa.ClientTurns
open StepRuns ClientPool

/-- From the check of the entry to the end of `run_turn_locked`. -/
def engagedIn : Stage → Bool
  | .failing _ => false
  | .publishing => false
  | .dropping => false
  | _ => true

def freshOf : Stage → Option ℕ
  | .connecting _ c => some c
  | .failing c => some c
  | _ => none

structure Core where
  next : ℕ
  keyOf : ℕ → String
  lockOf : ℕ → ℕ
  entries : String → Option ℕ
  barriers : String → Option ℕ
  locks : ℕ → Option Holder
  taken : ℕ → Option Closer
  closing : Bool

def core (p : Pool) : Core where
  next := p.next
  keyOf := p.keyOf
  lockOf := p.lockOf
  entries := p.entries
  barriers := p.barriers
  locks := p.locks
  taken := p.taken
  closing := p.closing

def Engaged (calls : ℕ → Option Call) (i : ℕ) (k : String) : Prop :=
  ∃ t e s, calls i = some (.turn t) ∧ t.key = k ∧ t.place = .holds e s ∧ engagedIn s = true

def Guarded (p : Core) (k : String) (l : ℕ) : Prop :=
  match p.entries k with
  | some e => p.lockOf e = l
  | none => p.closing = true ∨ ∃ b, p.barriers k = some b ∧ p.lockOf b = l ∧
      p.taken b = some ⟨.worker, .waiting⟩

structure Fresh (p : Core) (k : String) (l c : ℕ) : Prop where
  made : c < p.next
  lock : p.lockOf c = l
  key : p.keyOf c = k
  free : p.taken c = none
  apart : ∀ k', p.entries k' ≠ some c

/-- What is known under the entry lock; `g` says that no entry of an engaged turn is taken. -/
structure Held (g : Prop) (p : Core) (i : ℕ) (k : String) (e : ℕ) (s : Stage) : Prop where
  made : e < p.next
  owner : p.locks (p.lockOf e) = some (.call i)
  fresh : ∀ c, freshOf s = some c → Fresh p k (p.lockOf e) c
  guarded : g → engagedIn s = true → Guarded p k (p.lockOf e)

def TurnOk (g : Prop) (p : Core) (i : ℕ) (t : Turn) : Prop :=
  match t.place with
  | .stub => True
  | .barred _ => True
  | .wants e => e < p.next
  | .holds e s => Held g p i t.key e s

/-- The invariant, for every call but the one whose step is under way. -/
structure OrderlyCore (g : Prop) (x : Option ℕ) (p : Core) (calls : ℕ → Option Call)
    (nextCall : ℕ) : Prop where
  entry : ∀ k e, p.entries k = some e → e < p.next ∧ p.keyOf e = k ∧ p.taken e = none
  takenMade : ∀ e c, p.taken e = some c → e < p.next
  turns : ∀ i t, x ≠ some i → calls i = some (.turn t) → TurnOk g p i t
  alone : g → ∀ i j k, x ≠ some i → x ≠ some j → Engaged calls i k → Engaged calls j k → i = j
  shutter : ∀ e r, p.taken e = some ⟨r, .shutting⟩ → p.locks (p.lockOf e) = some (.closer e)
  idle : ∀ i, nextCall ≤ i → calls i = none

abbrev Orderly (g : Prop) (x : Option ℕ) (p : Pool) : Prop :=
  OrderlyCore g x (core p) p.calls p.nextCall

theorem OrderlyCore.but {g : Prop} {p : Core} {calls : ℕ → Option Call} {n : ℕ}
    (h : OrderlyCore g none p calls n) (i : ℕ) : OrderlyCore g (some i) p calls n where
  entry := h.entry
  takenMade := h.takenMade
  turns := fun j u _ => h.turns j u nofun
  alone := fun hg j l k _ _ => h.alone hg j l k nofun nofun
  shutter := h.shutter
  idle := h.idle

variable {g : Prop} {p q : Pool} {x : Option ℕ} {i j e : ℕ} {k : String} {t : Turn}

theorem OrderlyCore.held (h : Orderly g x p) (other : x ≠ some i) (at_ : Engaged p.calls i k) :
    ∃ e s, Held g (core p) i k e s ∧ engagedIn s = true := by
  obtain ⟨t, e, s, called, rfl, place, engaged⟩ := at_
  have ok := h.turns i t other called
  rw [TurnOk, place] at ok
  exact ⟨e, s, ok, engaged⟩

theorem Held.entryLock {s : Stage} (h : Held g (core p) i k e s) (hg : g)
    (engaged : engagedIn s = true) {e' : ℕ} (entry : p.entries k = some e') :
    p.lockOf e' = p.lockOf e := by
  have guarded := h.guarded hg engaged
  rw [Guarded, show (core p).entries k = some e' from entry] at guarded
  exact guarded

theorem not_engaged (h : Orderly g x p) (hg : g) (other : x ≠ some j) (entry : p.entries k = some e)
    (free : p.locks (p.lockOf e) ≠ some (.call j)) : ¬ Engaged p.calls j k := by
  intro at_
  obtain ⟨e', s, held, engaged⟩ := h.held other at_
  have owner : p.locks (p.lockOf e') = some (.call j) := held.owner
  rw [← held.entryLock hg engaged entry] at owner
  exact free owner

section Moves

theorem TurnOk.transfer {p q : Core} (ok : TurnOk g p i t) (next : p.next ≤ q.next)
    (held : ∀ e s, t.place = .holds e s → Held g p i t.key e s → Held g q i t.key e s) :
    TurnOk g q i t := by
  unfold TurnOk at ok ⊢
  split
  · trivial
  · trivial
  · rename_i e place
    rw [place] at ok
    exact Nat.lt_of_lt_of_le ok next
  · rename_i e s place
    rw [place] at ok
    exact held e s place ok

theorem Guarded.transfer {p q : Core} {l : ℕ} (h : Guarded p k l)
    (entries : q.entries k = p.entries k)
    (entry : ∀ e, p.entries k = some e → p.lockOf e = l → q.lockOf e = l)
    (closing : q.closing = p.closing)
    (barrier : ∀ b, p.barriers k = some b → p.lockOf b = l → p.taken b = some ⟨.worker, .waiting⟩ →
      q.barriers k = some b ∧ q.lockOf b = l ∧ q.taken b = some ⟨.worker, .waiting⟩) :
    Guarded q k l := by
  unfold Guarded at h ⊢
  rw [entries, closing]
  cases here : p.entries k with
  | some e =>
    rw [here] at h
    exact entry e here h
  | none =>
    rw [here] at h
    refine h.imp_right ?_
    rintro ⟨b, up, lock, waiting⟩
    exact ⟨b, barrier b up lock waiting⟩

theorem orderly_setCall {c : Call} (h : Orderly g (some i) p) (made : i < p.nextCall)
    (ok : ∀ u, c = .turn u → TurnOk g (core p) i u)
    (alone : g → ∀ u e s j, c = .turn u → u.place = .holds e s → engagedIn s = true → j ≠ i →
      ¬ Engaged p.calls j u.key) :
    Orderly g none (p.setCall i (some c)) := by
  have others {l : ℕ} {k' : String} (ne : l ≠ i)
      (at_ : Engaged (p.setCall i (some c)).calls l k') : Engaged p.calls l k' := by
    obtain ⟨u, e, s, called, rest⟩ := at_
    exact ⟨u, e, s, (Function.update_of_ne ne _ _).symm.trans called, rest⟩
  have own {k' : String} (at_ : Engaged (p.setCall i (some c)).calls i k') :
      ∃ u e s, c = .turn u ∧ u.key = k' ∧ u.place = .holds e s ∧ engagedIn s = true := by
    obtain ⟨u, e, s, called, rest⟩ := at_
    have called' : some c = some (.turn u) := (Function.update_self i _ _).symm.trans called
    exact ⟨u, e, s, Option.some.inj called', rest⟩
  refine ⟨h.entry, h.takenMade, fun l u _ called => ?_,
    fun hg l m k' _ _ first second => ?_, h.shutter, fun l le => ?_⟩
  · by_cases same : l = i
    · subst same
      have called' : some c = some (.turn u) := (Function.update_self l _ _).symm.trans called
      exact ok u (Option.some.inj called')
    · exact h.turns l u (fun eq => same (Option.some.inj eq).symm)
        ((Function.update_of_ne same _ _).symm.trans called)
  · by_cases here : l = i
    · by_cases there : m = i
      · rw [here, there]
      · subst here
        obtain ⟨u, e, s, rfl, rfl, place, engaged⟩ := own first
        exact absurd (others there second) (alone hg u e s m rfl place engaged there)
    · by_cases there : m = i
      · subst there
        obtain ⟨u, e, s, rfl, rfl, place, engaged⟩ := own second
        exact absurd (others here first) (alone hg u e s l rfl place engaged here)
      · exact h.alone hg l m k' (fun eq => here (Option.some.inj eq).symm)
          (fun eq => there (Option.some.inj eq).symm) (others here first) (others there second)
  · have ne : l ≠ i := fun same => absurd (same ▸ le) (Nat.not_le.mpr made)
    exact (Function.update_of_ne ne _ _).trans (h.idle l le)

theorem orderly_endCall (h : Orderly g (some i) p) :
    Orderly g none (p.setCall i none) := by
  have others {l : ℕ} {u : Turn} (called : (p.setCall i none).calls l = some (.turn u)) :
      l ≠ i ∧ p.calls l = some (.turn u) := by
    have ne : l ≠ i := by
      rintro rfl
      cases (Function.update_self l _ _).symm.trans called
    exact ⟨ne, (Function.update_of_ne ne _ _).symm.trans called⟩
  have apart {l : ℕ} (ne : l ≠ i) : some i ≠ some l := fun eq => ne (Option.some.inj eq).symm
  refine ⟨h.entry, h.takenMade, fun l u _ called => ?_, ?_, h.shutter, fun l le => ?_⟩
  · obtain ⟨ne, called⟩ := others called
    exact h.turns l u (apart ne) called
  · rintro hg l m k' - - ⟨u, e, s, called, rest⟩ ⟨u', e', s', called', rest'⟩
    obtain ⟨ne, called⟩ := others called
    obtain ⟨ne', called'⟩ := others called'
    exact h.alone hg l m k' (apart ne) (apart ne') ⟨u, e, s, called, rest⟩
      ⟨u', e', s', called', rest'⟩
  · by_cases same : l = i
    · rw [same]
      exact Function.update_self i _ _
    · exact (Function.update_of_ne same _ _).trans (h.idle l le)

theorem orderly_setLock (h : Orderly g x p) (new : Option Holder)
    (calls : ∀ j, x ≠ some j → p.locks (p.lockOf e) ≠ some (.call j))
    (closers : ∀ e' r, p.taken e' = some ⟨r, .shutting⟩ →
      p.locks (p.lockOf e) ≠ some (.closer e')) :
    Orderly g x (p.setLock e new) := by
  have kept {l : ℕ} {holder : Holder} (holds : p.locks l = some holder)
      (other : p.locks (p.lockOf e) ≠ some holder) :
      (p.setLock e new).locks l = some holder := by
    have ne : l ≠ p.lockOf e := fun same => other (same ▸ holds)
    exact (Function.update_of_ne ne _ _).trans holds
  refine ⟨h.entry, h.takenMade, fun j u other called => ?_, h.alone,
    fun e' r shutting => ?_, h.idle⟩
  · refine (h.turns j u other called).transfer (Nat.le_refl _) fun e' s _ held => ?_
    refine ⟨held.made, kept held.owner (calls j other), fun c fresh => ?_, held.guarded⟩
    exact ⟨(held.fresh c fresh).made, (held.fresh c fresh).lock, (held.fresh c fresh).key,
      (held.fresh c fresh).free, (held.fresh c fresh).apart⟩
  · exact kept (h.shutter e' r shutting) (closers e' r shutting)

theorem orderly_unregister (h : Orderly g x p)
    (none_ : g → ∀ j, x ≠ some j → p.entries k = some e → ¬ Engaged p.calls j k) :
    Orderly g x (p.unregister k e) := by
  unfold Pool.unregister
  split
  swap
  · exact h
  rename_i entry
  have fewer {k' : String} {e' : ℕ}
      (now : Function.update p.entries k none k' = some e') : p.entries k' = some e' ∧ k' ≠ k := by
    by_cases same : k' = k
    · subst same
      cases (Function.update_self k' _ _).symm.trans now
    · exact ⟨(Function.update_of_ne same _ _).symm.trans now, same⟩
  refine ⟨fun k' e' now => h.entry k' e' (fewer now).1, h.takenMade, fun j u other called => ?_,
    h.alone, h.shutter, h.idle⟩
  refine (h.turns j u other called).transfer (Nat.le_refl _) fun e' s place held => ?_
  refine ⟨held.made, held.owner, fun c fresh => ?_, fun hg engaged => ?_⟩
  · have old := held.fresh c fresh
    exact ⟨old.made, old.lock, old.key, old.free, fun k' now => old.apart k' (fewer now).1⟩
  · have ne : u.key ≠ k := by
      rintro rfl
      exact none_ hg j other entry ⟨u, e', s, called, rfl, place, engaged⟩
    exact (held.guarded hg engaged).transfer (Function.update_of_ne ne _ _) (fun _ _ => id) rfl
      fun b barrier lock waiting => ⟨barrier, lock, waiting⟩

theorem orderly_make (h : Orderly g x p) (lock : ℕ) (client : Bool) :
    Orderly g x (p.make k lock client) := by
  have old {e' : ℕ} (made : e' < p.next) : e' ≠ p.next := Nat.ne_of_lt made
  have lockOf {e' : ℕ} (made : e' < p.next) : (p.make k lock client).lockOf e' = p.lockOf e' :=
    Function.update_of_ne (old made) _ _
  have keyOf {e' : ℕ} (made : e' < p.next) : (p.make k lock client).keyOf e' = p.keyOf e' :=
    Function.update_of_ne (old made) _ _
  refine ⟨fun k' e' now => ?_, fun e' c taken => Nat.lt_succ_of_lt (h.takenMade e' c taken),
    fun j u other called => ?_, h.alone, fun e' r shutting => ?_, h.idle⟩
  · obtain ⟨made, key, free⟩ := h.entry k' e' now
    exact ⟨Nat.lt_succ_of_lt made, (keyOf made).trans key, free⟩
  · refine (h.turns j u other called).transfer (Nat.le_succ _) fun e' s _ held => ?_
    have same : (p.make k lock client).lockOf e' = p.lockOf e' := lockOf held.made
    refine ⟨Nat.lt_succ_of_lt held.made, ?_, fun c fresh => ?_, fun hg engaged => ?_⟩
    · change p.locks ((p.make k lock client).lockOf e') = _
      rw [same]
      exact held.owner
    · have known := held.fresh c fresh
      refine ⟨Nat.lt_succ_of_lt known.made, ?_, (keyOf known.made).trans known.key, known.free,
        known.apart⟩
      exact ((lockOf known.made).trans known.lock).trans same.symm
    · rw [show (core (p.make k lock client)).lockOf e' = p.lockOf e' from same]
      refine (held.guarded hg engaged).transfer rfl (fun e entry lock' => ?_) rfl
        fun b barrier lock' waiting => ⟨barrier, ?_, waiting⟩
      · exact (lockOf (h.entry _ _ entry).1).trans lock'
      · exact (lockOf (h.takenMade b _ waiting)).trans lock'
  · have made := h.takenMade e' _ shutting
    change p.locks ((p.make k lock client).lockOf e') = _
    rw [lockOf made]
    exact h.shutter e' r shutting

theorem orderly_register {c : ℕ} (h : Orderly g x p) (made : c < p.next) (key : p.keyOf c = k)
    (free : p.taken c = none) (none_ : g → ∀ j, x ≠ some j → ¬ Engaged p.calls j k)
    (unshared : ∀ j u e s, x ≠ some j → p.calls j = some (.turn u) → u.place = .holds e s →
      freshOf s ≠ some c) :
    Orderly g x (p.register k c) := by
  have now {k' : String} {e' : ℕ} (entry : Function.update p.entries k (some c) k' = some e') :
      k' = k ∧ e' = c ∨ k' ≠ k ∧ p.entries k' = some e' := by
    by_cases same : k' = k
    · subst same
      exact .inl ⟨rfl, (Option.some.inj ((Function.update_self k' _ _).symm.trans entry)).symm⟩
    · exact .inr ⟨same, (Function.update_of_ne same _ _).symm.trans entry⟩
  refine ⟨fun k' e' entry => ?_, h.takenMade, fun j u other called => ?_, h.alone,
    h.shutter, h.idle⟩
  · rcases now entry with ⟨rfl, rfl⟩ | ⟨-, old⟩
    · exact ⟨made, key, free⟩
    · exact h.entry k' e' old
  · refine (h.turns j u other called).transfer (Nat.le_refl _) fun e' s place held => ?_
    refine ⟨held.made, held.owner, fun c' fresh => ?_, fun hg engaged => ?_⟩
    · have old := held.fresh c' fresh
      refine ⟨old.made, old.lock, old.key, old.free, fun k' entry => ?_⟩
      rcases now entry with ⟨-, same⟩ | ⟨-, still⟩
      · exact unshared j u e' s other called place (same ▸ fresh)
      · exact old.apart k' still
    · have ne : u.key ≠ k := by
        rintro rfl
        exact none_ hg j other ⟨u, e', s, called, rfl, place, engaged⟩
      exact (held.guarded hg engaged).transfer (Function.update_of_ne ne _ _) (fun _ _ => id) rfl
        fun b barrier lock waiting => ⟨barrier, lock, waiting⟩

structure MayTake (x : Option ℕ) (p : Pool) (e : ℕ) (new : Option Closer) : Prop where
  made : new ≠ none → e < p.next
  entry : new ≠ none → ∀ k, p.entries k ≠ some e
  fresh : new ≠ none → ∀ j u e' s, x ≠ some j → p.calls j = some (.turn u) →
    u.place = .holds e' s → freshOf s ≠ some e
  barrier : p.taken e ≠ some ⟨.worker, .waiting⟩ ∨
    ∀ j, x ≠ some j → p.locks (p.lockOf e) ≠ some (.call j)
  shutter : ∀ r, new = some ⟨r, .shutting⟩ → p.locks (p.lockOf e) = some (.closer e)

theorem orderly_setTaken {new : Option Closer} (h : Orderly g x p) (may : MayTake x p e new) :
    Orderly g x (p.setTaken e new) := by
  have away {e' : ℕ} (ne : e' ≠ e) : (p.setTaken e new).taken e' = p.taken e' :=
    Function.update_of_ne ne _ _
  have here : (p.setTaken e new).taken e = new := Function.update_self e _ _
  have free {e' : ℕ} (out : new ≠ none → e' ≠ e) (old : p.taken e' = none) :
      (p.setTaken e new).taken e' = none := by
    by_cases same : e' = e
    · rw [same, here]
      by_contra some_
      exact out some_ same
    · exact (away same).trans old
  refine ⟨fun k' e' entry => ?_, fun e' c taken => ?_, fun j u other called => ?_, h.alone,
    fun e' r shutting => ?_, h.idle⟩
  · obtain ⟨made, key, old⟩ := h.entry k' e' entry
    exact ⟨made, key, free (fun some_ same => may.entry some_ k' (same ▸ entry)) old⟩
  · by_cases same : e' = e
    · subst same
      have now : new = some c := here.symm.trans taken
      exact may.made (now ▸ Option.some_ne_none c)
    · exact h.takenMade e' c ((away same).symm.trans taken)
  · refine (h.turns j u other called).transfer (Nat.le_refl _) fun e' s place held => ?_
    refine ⟨held.made, held.owner, fun c fresh => ?_, fun hg engaged => ?_⟩
    · have old := held.fresh c fresh
      refine ⟨old.made, old.lock, old.key, free (fun some_ same => ?_) old.free, old.apart⟩
      exact may.fresh some_ j u e' s other called place (same ▸ fresh)
    · refine (held.guarded hg engaged).transfer rfl (fun _ _ => id) rfl
        fun b barrier lock waiting => ⟨barrier, lock, (away ?_).trans waiting⟩
      rintro rfl
      rcases may.barrier with idle | unheld
      · exact idle waiting
      · have owner : p.locks (p.lockOf e') = some (.call j) := held.owner
        rw [← show p.lockOf b = p.lockOf e' from lock] at owner
        exact unheld j other owner
  · by_cases same : e' = e
    · subst same
      exact may.shutter r (here.symm.trans shutting)
    · exact h.shutter e' r ((away same).symm.trans shutting)

end Moves

section Turns

theorem orderly_goto {place : Place} (h : Orderly g (some i) p) (made : i < p.nextCall)
    (ok : TurnOk g (core p) i { t with place })
    (alone : g → ∀ e s j, place = .holds e s → engagedIn s = true → j ≠ i →
      ¬ Engaged p.calls j t.key) :
    Orderly g none (p.goto i t place) := by
  refine orderly_setCall h made ?_ ?_
  · rintro u ⟨⟩
    exact ok
  · rintro hg u e s j ⟨⟩ place engaged ne
    exact alone hg e s j place engaged ne

theorem OrderlyCore.owned (h : Orderly g x p) {c : Call} (called : p.calls i = some c) :
    i < p.nextCall := by
  by_contra late
  rw [h.idle i (Nat.le_of_not_lt late)] at called
  cases called

theorem unshut (owner : p.locks (p.lockOf e) = some (.call i)) :
    ∀ e' r, p.taken e' = some ⟨r, .shutting⟩ → p.locks (p.lockOf e) ≠ some (.closer e') := by
  intro e' r _ same
  rw [owner] at same
  cases same

section
variable (h : Orderly g (some i) p)
include h

theorem orderly_leave (owner : p.locks (p.lockOf e) = some (.call i)) :
    Orderly g none (p.leave i e) := by
  refine orderly_endCall (orderly_setLock h none (fun j other same => ?_) (unshut owner))
  rw [owner] at same
  cases same
  exact other rfl

theorem orderly_retry (made : i < p.nextCall) : Orderly g none (p.retry i t) := by
  unfold Pool.retry
  split
  · exact orderly_endCall h
  · refine orderly_setCall h made ?_ ?_
    · rintro u ⟨⟩
      trivial
    · rintro - u e s j ⟨⟩ place
      cases place

theorem orderly_unregister_own
    (owner : p.locks (p.lockOf e) = some (.call i)) : Orderly g (some i) (p.unregister k e) := by
  refine orderly_unregister h fun hg j other entry => not_engaged h hg other entry ?_
  rw [owner]
  rintro ⟨⟩
  exact other rfl

theorem orderly_drop (made : i < p.nextCall) (object : e < p.next)
    (owner : p.locks (p.lockOf e) = some (.call i)) : Orderly g none (p.drop i t e) := by
  have removed : Orderly g (some i) (p.unregister t.key e) := orderly_unregister_own h owner
  have frame : (p.unregister t.key e).next = p.next ∧ (p.unregister t.key e).lockOf = p.lockOf ∧
      (p.unregister t.key e).locks = p.locks ∧ (p.unregister t.key e).nextCall = p.nextCall := by
    unfold Pool.unregister
    split <;> exact ⟨rfl, rfl, rfl, rfl⟩
  obtain ⟨next, lockOf, locks, nextCall⟩ := frame
  have owner' : (p.unregister t.key e).locks ((p.unregister t.key e).lockOf e) =
      some (.call i) := by
    rw [lockOf, locks]
    exact owner
  unfold Pool.drop
  simp only
  split
  · refine orderly_goto (p := (p.unregister t.key e).unlink e .closed) removed
      (nextCall ▸ made) ?_ ?_
    · refine ⟨?_, owner', nofun, nofun⟩
      change e < (p.unregister t.key e).next
      rwa [next]
    · rintro - e' s j ⟨⟩ engaged
      cases engaged
  · exact orderly_leave (p := (p.unregister t.key e).unlink e .closed) removed owner'

theorem orderly_start (made : i < p.nextCall) (ok : Held g (core p) i t.key e .touching)
    (alone : g → ∀ j, j ≠ i → ¬ Engaged p.calls j t.key) : Orderly g none (p.start i t e) := by
  unfold Pool.start
  split
  · refine orderly_goto (p := p.setState e .inTurn) h made ?_ ?_
    · exact ⟨ok.made, ok.owner, nofun, fun hg _ => ok.guarded hg rfl⟩
    · exact fun hg _ _ j _ _ ne => alone hg j ne
  · exact orderly_drop h made ok.made ok.owner

end

section
variable (h : Orderly g none p) (called : p.calls i = some (.turn t))
include h called

theorem orderly_finish (made : e < p.next) (owner : p.locks (p.lockOf e) = some (.call i)) :
    Orderly g none (p.finish i t e) := by
  unfold Pool.finish
  split
  · exact orderly_leave (h.but i) owner
  · exact orderly_drop (h.but i) (h.owned called) made owner

theorem orderly_returned
    (made : e < p.next) (owner : p.locks (p.lockOf e) = some (.call i)) (sid : Bool) :
    Orderly g none (p.returned i t e sid) := by
  unfold Pool.returned
  split
  · refine orderly_goto (h.but i) (h.owned called) ⟨made, owner, nofun, nofun⟩ ?_
    rintro - e' s j ⟨⟩ engaged
    cases engaged
  · exact orderly_finish h called made owner

theorem orderly_entryStub : Orderly g none (p.entryStub i t) := by
  have waits {e : ℕ} {q : Pool} (h : Orderly g none q) (made : i < q.nextCall) (old : e < q.next) :
      Orderly g none (q.goto i t (.wants e)) := by
    refine orderly_goto (h.but i) made old ?_
    rintro - e' s j ⟨⟩
  unfold Pool.entryStub
  split
  · exact orderly_endCall (h.but i)
  rename_i open_
  split
  · refine orderly_goto (h.but i) (h.owned called) trivial ?_
    rintro - e' s j ⟨⟩
  rename_i free
  split
  · rename_i e entry
    exact waits h (h.owned called) (h.entry _ _ entry).1
  · rename_i absent
    have made := orderly_make (k := t.key) h p.next false
    refine waits (q := (p.make t.key p.next false).register t.key p.next) ?_ (h.owned called)
      (Nat.lt_succ_self _)
    refine orderly_register made (Nat.lt_succ_self _) (Function.update_self _ _ _) ?_ ?_ ?_
    · cases taken : p.taken p.next with
      | none => exact taken
      | some c => exact absurd (h.takenMade _ c taken) (Nat.lt_irrefl _)
    · intro hg j other at_
      obtain ⟨e, s, held, engaged⟩ := h.held (p := p) (by rintro ⟨⟩) at_
      have guarded := held.guarded hg engaged
      unfold Guarded at guarded
      rw [show (core p).entries t.key = none from absent] at guarded
      rcases guarded with closing | ⟨b, barrier, -⟩
      · exact open_ closing
      · cases free.symm.trans barrier
    · intro j u e s other called' place same
      have ok := h.turns j u other called'
      rw [TurnOk, place] at ok
      exact absurd (ok.fresh _ same).made (Nat.lt_irrefl _)

theorem orderly_acquire
    (made : e < p.next) (resume same : Bool) : Orderly g none (p.acquire i t e resume same) := by
  unfold Pool.acquire
  split
  · exact h
  rename_i free
  rw [not_not] at free
  split
  · exact orderly_retry (h.but i) (h.owned called)
  rename_i entry
  rw [not_not] at entry
  have nobody (hg : g) (j : ℕ) : ¬ Engaged p.calls j t.key := by
    refine not_engaged h hg (by exact nofun) entry ?_
    rw [free]
    exact nofun
  have locked : Orderly g (some i) (p.setLock e (some (.call i))) := by
    refine orderly_setLock (h.but i) _ (fun j _ => ?_) fun e' r _ => ?_
    · rw [free]
      exact nofun
    · rw [free]
      exact nofun
  have held (s : Stage) (fresh : freshOf s = none) :
      Held g (core (p.setLock e (some (.call i)))) i t.key e s := by
    refine ⟨made, Function.update_self _ _ _, fun c now => ?_, fun _ _ => ?_⟩
    · rw [fresh] at now
      cases now
    · change match p.entries t.key with
        | some e' => p.lockOf e' = p.lockOf e
        | none => _
      rw [entry]
  split
  · unfold Pool.decide_
    simp only
    split
    · exact orderly_goto locked (h.owned called) (held _ rfl) fun hg _ _ j _ _ _ => nobody hg j
    split
    · refine orderly_goto (p := (p.setLock e (some (.call i))).unlink e .closed) locked
        (h.owned called) ?_ fun hg _ _ j _ _ _ => nobody hg j
      refine held _ ?_
      split <;> rfl
    · exact orderly_goto locked (h.owned called) (held _ rfl) fun hg _ _ j _ _ _ => nobody hg j
  · have removed : Orderly g (some i) (p.unregister t.key e) :=
      orderly_unregister (h.but i) fun hg j _ _ => nobody hg j
    refine orderly_retry removed ?_
    unfold Pool.unregister
    split <;> exact h.owned called

end

section Holding
variable {s : Stage} (h : Orderly g none p) (called : p.calls i = some (.turn t))
  (place : t.place = .holds e s)

include h called place

theorem turn_held : Held g (core p) i t.key e s := by
  have ok := h.turns i t nofun called
  rwa [TurnOk, place] at ok

theorem turn_alone (hg : g) (engaged : engagedIn s = true) {j : ℕ} (ne : j ≠ i) :
    ¬ Engaged p.calls j t.key :=
  fun other => ne (h.alone hg j i t.key nofun nofun other ⟨t, e, s, called, rfl, place, engaged⟩)

theorem orderly_stay {s' : Stage} (engaged : engagedIn s' = true → engagedIn s = true)
    (fresh : ∀ c, freshOf s' = some c → freshOf s = some c) :
    Orderly g none (p.goto i t (.holds e s')) := by
  have held := turn_held h called place
  refine orderly_goto (h.but i) (h.owned called) ?_ ?_
  · exact ⟨held.made, held.owner, fun c now => held.fresh c (fresh c now),
      fun hg yes => held.guarded hg (engaged yes)⟩
  · rintro hg e' s'' j ⟨⟩ yes ne
    exact turn_alone h called place hg (engaged yes) ne

theorem orderly_dropped : Orderly g none (p.drop i t e) := by
  have held := turn_held h called place
  exact orderly_drop (h.but i) (h.owned called) held.made held.owner

theorem orderly_left : Orderly g none (p.leave i e) :=
  orderly_leave (h.but i) (turn_held h called place).owner

end Holding

section
variable (h : Orderly g none p)
include h

theorem orderly_publish {resume resume' : Bool} {c : ℕ}
    (called : p.calls i = some (.turn t)) (place : t.place = .holds e (.connecting resume c)) :
    Orderly g none (p.publish i t c resume') := by
  have held := turn_held h called place
  have fresh := held.fresh c rfl
  have alone (hg : g) (j : ℕ) (ne : j ≠ i) : ¬ Engaged p.calls j t.key :=
    turn_alone h called place hg rfl ne
  have owner : p.locks (p.lockOf c) = some (.call i) := by
    have lock : p.lockOf c = p.lockOf e := fresh.lock
    rw [lock]
    exact held.owner
  have registered : Orderly g (some i) (p.register t.key c) := by
    refine orderly_register (h.but i) fresh.made fresh.key fresh.free
      (fun hg j other => alone hg j ?_) ?_
    · rintro rfl
      exact other rfl
    · intro j u e' s other called' place' same
      have held' := turn_held h called' place'
      have owner' : p.locks (p.lockOf e') = some (.call j) := held'.owner
      have lock : p.lockOf c = p.lockOf e' := (held'.fresh c same).lock
      rw [← lock, owner] at owner'
      cases owner'
      exact other rfl
  have now (s : Stage) (none_ : freshOf s = none) :
      Held g (core (p.register t.key c)) i t.key c s := by
    refine ⟨fresh.made, owner, fun c' some_ => ?_, fun _ _ => ?_⟩
    · rw [none_] at some_
      cases some_
    · change match Function.update p.entries t.key (some c) t.key with
        | some e' => p.lockOf e' = p.lockOf c
        | none => _
      rw [Function.update_self]
  unfold Pool.publish
  simp only
  split
  · exact orderly_goto (p := ((p.setState c .warm).setConnected c true).register t.key c)
      registered (h.owned called) (now _ rfl) fun hg _ _ j _ _ ne => alone hg j ne
  · exact orderly_start (p := ((p.setState c .warm).setConnected c true).register t.key c)
      registered (h.owned called) (now _ rfl) alone

theorem orderly_disconnected {a : Answer} {c : ℕ} : Orderly g none (p.disconnected c a) := by
  unfold Pool.disconnected
  split <;> exact h

section
variable (called : p.calls i = some (.turn t))
include called

theorem orderly_built {resume : Bool} (place : t.place = .holds e (.building resume)) :
    Orderly g none ((p.make t.key (p.lockOf e) true).goto i t
      (.holds e (.connecting resume p.next))) := by
  have made := orderly_make (k := t.key) h (p.lockOf e) true
  have held : Held g (core (p.make t.key (p.lockOf e) true)) i t.key e (.building resume) :=
    turn_held made called place
  have lock : (p.make t.key (p.lockOf e) true).lockOf e = p.lockOf e :=
    Function.update_of_ne (Nat.ne_of_lt (turn_held h called place).made) _ _
  refine orderly_goto (made.but i) (h.owned called) ⟨held.made, held.owner, ?_, held.guarded⟩ ?_
  · rintro c ⟨⟩
    refine ⟨Nat.lt_succ_self _, ?_, Function.update_self _ _ _, ?_, fun k' entry => ?_⟩
    · change (p.make t.key (p.lockOf e) true).lockOf p.next =
        (p.make t.key (p.lockOf e) true).lockOf e
      rw [lock]
      exact Function.update_self _ _ _
    · cases taken : p.taken p.next with
      | none => exact taken
      | some c => exact absurd (h.takenMade _ c taken) (Nat.lt_irrefl _)
    · exact absurd (h.entry k' _ entry).1 (Nat.lt_irrefl _)
  · exact fun hg _ _ j _ _ ne => turn_alone h called place hg rfl ne

theorem orderly_advanceHolding {s : Stage} (place : t.place = .holds e s) (a : Answer) :
    Orderly g none (p.advanceHolding i t e s a) := by
  have off (c : ℕ) : Orderly g none (p.disconnected c a) := orderly_disconnected h
  have still (c : ℕ) : (p.disconnected c a).calls i = some (.turn t) := by
    rw [Pool.disconnected_calls]
    exact called
  have held := turn_held h called place
  cases s with
  | flushing resume => exact orderly_stay (off e) (still e) place (fun _ => rfl) nofun
  | building resume =>
    cases a with
    | ok => exact orderly_built h called place
    | _ => exact orderly_left h called place
  | connecting resume c =>
    cases a with
    | ok => exact orderly_publish h called place
    | _ => exact orderly_stay (p := p.unlink c .invalid) h called place nofun fun _ same => same
  | failing c => exact orderly_left (off c) (still c) place
  | touching =>
    cases a with
    | ok =>
      refine orderly_start (h.but i) (h.owned called) held fun hg j ne => ?_
      exact turn_alone h called place hg rfl ne
    | _ => exact orderly_left h called place
  | running =>
    cases a with
    | reply errored retried sid =>
      cases errored with
      | false => exact orderly_returned (p := p.setState e .warm) h called held.made held.owner sid
      | true => exact orderly_stay (p := p.unlink e .invalid) h called place (fun _ => rfl) nofun
    | _ => exact orderly_stay (p := p.unlink e .invalid) h called place (fun _ => rfl) nofun
  | cleaning =>
    cases a with
    | ok => exact orderly_left (p := p.setState e .warm) h called place
    | _ => exact orderly_stay (p := p.unlink e .invalid) h called place (fun _ => rfl) nofun
  | breaking exit =>
    cases exit with
    | raises => exact orderly_dropped (off e) (still e) place
    | returns sid =>
      have held' := turn_held (off e) (still e) place
      exact orderly_returned (off e) (still e) held'.made held'.owner sid
  | publishing =>
    cases a with
    | ok => exact orderly_finish h called held.made held.owner
    | _ => exact orderly_dropped h called place
  | dropping => exact orderly_left (off e) (still e) place

theorem orderly_cancelHolding {s : Stage} (place : t.place = .holds e s) :
    Orderly g none (p.cancelHolding i t e s) := by
  cases s with
  | connecting resume c =>
    exact orderly_stay (p := p.unlink c .invalid) h called place nofun fun _ same => same
  | running => exact orderly_stay h called place (fun _ => rfl) nofun
  | cleaning => exact orderly_stay (p := p.unlink e .invalid) h called place (fun _ => rfl) nofun
  | breaking exit => exact orderly_dropped h called place
  | publishing => exact orderly_dropped h called place
  | _ => exact orderly_left h called place

theorem orderly_advanceTurn (a : Answer) : Orderly g none (p.advanceTurn i t a) := by
  unfold Pool.advanceTurn
  split
  · exact orderly_entryStub h called
  · split
    · refine orderly_goto (h.but i) (h.owned called) trivial ?_
      rintro - e s j ⟨⟩
    · exact h
  · rename_i e place
    have ok := h.turns i t nofun called
    rw [TurnOk, place] at ok
    split
    · exact orderly_acquire h called ok _ _
    · exact h
  · rename_i e s place
    exact orderly_advanceHolding h called place a

end

end

end Turns

section Closers

theorem orderly_begin {c : Call} (h : Orderly g none p)
    (idle : ∀ u, c = .turn u → u.place = .stub) : Orderly g none (p.begin_ c) := by
  have opened : Orderly g (some p.nextCall) { p with nextCall := p.nextCall + 1 } := by
    have h' := h.but p.nextCall
    exact ⟨h'.entry, h'.takenMade, h'.turns, h'.alone, h'.shutter,
      fun i le => h.idle i (Nat.le_of_succ_le le)⟩
  refine orderly_setCall opened (Nat.lt_succ_self _) (fun u same => ?_)
    fun _ u e s j same place => ?_
  · rw [TurnOk, idle u same]
    trivial
  · rw [idle u same] at place
    cases place

theorem mayTake_taken {c : Closer} {new : Option Closer} (h : Orderly g x p)
    (taken : p.taken e = some c)
    (barrier : c ≠ ⟨.worker, .waiting⟩ ∨ ∀ j, x ≠ some j → p.locks (p.lockOf e) ≠ some (.call j))
    (shutter : ∀ r, new = some ⟨r, .shutting⟩ → p.locks (p.lockOf e) = some (.closer e)) :
    MayTake x p e new where
  made _ := h.takenMade e c taken
  entry _ k entry := by
    have free : p.taken e = none := (h.entry k e entry).2.2
    rw [taken] at free
    cases free
  fresh _ j u e' s other called place fresh := by
    have ok := h.turns j u other called
    rw [TurnOk, place] at ok
    have free : p.taken e = none := (ok.fresh e fresh).free
    rw [taken] at free
    cases free
  barrier := by
    rw [taken]
    exact barrier.imp_left fun ne same => ne (Option.some.inj same)
  shutter := shutter

theorem orderly_released {c : Closer} (h : Orderly g none p) (taken : p.taken e = some c)
    (shutting : c.phase = .shutting) : Orderly g none ((p.setLock e none).setTaken e none) := by
  have holds : p.locks (p.lockOf e) = some (.closer e) := by
    obtain ⟨r, phase⟩ := c
    cases shutting
    exact h.shutter e r taken
  have gone : Orderly g none (p.setTaken e none) := by
    refine orderly_setTaken h (mayTake_taken h taken (.inl ?_) nofun)
    rintro rfl
    cases shutting
  refine orderly_setLock (p := p.setTaken e none) gone none (fun j _ same => ?_) ?_
  · cases holds.symm.trans same
  · intro e' r shutting' same
    cases holds.symm.trans same
    cases (Function.update_self e _ p.taken).symm.trans shutting'

theorem orderly_abandon {c : Closer} (h : Orderly g none p) (taken : p.taken e = some c)
    (other : c.remover ≠ .worker) : Orderly g none (p.abandon e) := by
  unfold Pool.abandon
  split
  · rename_i r now
    exact orderly_released h now rfl
  · refine orderly_setTaken h (mayTake_taken h taken (.inl ?_) nofun)
    rintro rfl
    exact other rfl

theorem orderly_abandonDrains (h : Orderly g none p) (snap : ℕ → Bool) :
    Orderly g none (p.abandonDrains snap) := by
  have kept {e' : ℕ} {c : Closer}
      (now : (p.abandonDrains snap).taken e' = some c) :
      p.taken e' = some c ∧ (snap e' && p.takenBy e' .drain) = false := by
    simp only [Pool.abandonDrains] at now
    split at now
    · cases now
    · rename_i there
      exact ⟨now, Bool.eq_false_iff.mpr there⟩
  have free {e' : ℕ} (none_ : p.taken e' = none) : (p.abandonDrains snap).taken e' = none := by
    simp only [Pool.abandonDrains]
    split
    · rfl
    · exact none_
  have call {l j : ℕ} (holds : p.locks l = some (.call j)) :
      (p.abandonDrains snap).locks l = some (.call j) := by
    simp only [Pool.abandonDrains, holds]
  refine ⟨fun k e' entry => ?_, fun e' c now => h.takenMade e' c (kept now).1,
    fun j u other called => ?_, h.alone, fun e' r shutting => ?_, h.idle⟩
  · obtain ⟨made, key, none_⟩ := h.entry k e' entry
    exact ⟨made, key, free none_⟩
  · refine (h.turns j u other called).transfer (Nat.le_refl _) fun e' s place held => ?_
    refine ⟨held.made, call held.owner, fun c fresh => ?_, fun hg engaged => ?_⟩
    · have old := held.fresh c fresh
      exact ⟨old.made, old.lock, old.key, free old.free, old.apart⟩
    · refine (held.guarded hg engaged).transfer rfl (fun _ _ => id) rfl
        fun b barrier lock waiting => ⟨barrier, lock, ?_⟩
      rw [show (core p).taken b = p.taken b from rfl] at waiting
      simp [core, Pool.abandonDrains, Pool.takenBy, waiting]
  · obtain ⟨now, there⟩ := kept shutting
    have holds : p.locks (p.lockOf e') = some (.closer e') := h.shutter e' r now
    change (p.abandonDrains snap).locks (p.lockOf e') = _
    simp only [Pool.abandonDrains, holds, there, Bool.false_eq_true, if_false]

theorem orderly_releaseBarrier (h : Orderly g x p)
    (free : ∀ j, x ≠ some j → p.locks (p.lockOf e) ≠ some (.call j)) :
    Orderly g x (p.releaseBarrier e) := by
  unfold Pool.releaseBarrier
  split
  swap
  · exact h
  rename_i mine
  refine ⟨h.entry, h.takenMade, fun j u other called => ?_, h.alone, h.shutter, h.idle⟩
  refine (h.turns j u other called).transfer (Nat.le_refl _) fun e' s place held => ?_
  refine ⟨held.made, held.owner, fun c fresh => ?_, fun hg engaged => ?_⟩
  · have old := held.fresh c fresh
    exact ⟨old.made, old.lock, old.key, old.free, old.apart⟩
  · refine (held.guarded hg engaged).transfer rfl (fun _ _ => id) rfl fun b barrier lock waiting =>
      ⟨(Function.update_of_ne ?_ _ _).trans barrier, lock, waiting⟩
    intro same
    cases (same ▸ barrier : p.barriers (p.keyOf e) = some b).symm.trans mine
    have owner : p.locks (p.lockOf e') = some (.call j) := held.owner
    rw [← show p.lockOf e = p.lockOf e' from lock] at owner
    exact free j other owner

theorem orderly_closeLocked {r : Remover} (h : Orderly g none p)
    (taken : p.taken e = some ⟨r, .waiting⟩) (free : p.locks (p.lockOf e) = none) :
    Orderly g none (p.closeLocked e r) := by
  have unheld (j : ℕ) : p.locks (p.lockOf e) ≠ some (.call j) := by
    rw [free]
    exact nofun
  obtain ⟨q, same, ordered, locks, lockOf, taken', closes⟩ : ∃ q,
      q = (if r = .worker then p.releaseBarrier e else p) ∧ Orderly g none q ∧
        q.locks = p.locks ∧ q.lockOf = p.lockOf ∧ q.taken = p.taken ∧ q.closes = p.closes := by
    refine ⟨_, rfl, ?_, ?_⟩
    · split
      · exact orderly_releaseBarrier h fun j _ => unheld j
      · exact h
    · split
      · unfold Pool.releaseBarrier
        split <;> exact ⟨rfl, rfl, rfl, rfl⟩
      · exact ⟨rfl, rfl, rfl, rfl⟩
  have free' : q.locks (q.lockOf e) = none := by
    rw [locks, lockOf]
    exact free
  have unheld' (j : ℕ) : q.locks (q.lockOf e) ≠ some (.call j) := by
    rw [free']
    exact nofun
  have waits : q.taken e = some ⟨r, .waiting⟩ := taken' ▸ taken
  unfold Pool.closeLocked
  rw [← same]
  simp only
  split
  · have locked : Orderly g none ((q.unlink e .closed).setLock e (some (.closer e))) := by
      refine orderly_setLock (p := q.unlink e .closed) ordered _ (fun j _ => unheld' j)
        fun e' r' _ => ?_
      change q.locks (q.lockOf e) ≠ _
      rw [free']
      exact nofun
    have held : ((q.unlink e .closed).setLock e (some (.closer e))).locks
        (((q.unlink e .closed).setLock e (some (.closer e))).lockOf e) = some (.closer e) :=
      Function.update_self _ _ _
    refine orderly_setTaken locked (mayTake_taken locked waits (.inr fun j _ => ?_) fun _ _ => held)
    rw [held]
    exact nofun
  · exact orderly_setTaken (p := q.unlink e .closed) ordered
      (mayTake_taken (p := q.unlink e .closed) ordered waits (.inr fun j _ => unheld' j) nofun)

theorem orderly_close (h : Orderly g none p) (ok : Bool) : Orderly g none (p.close e ok) := by
  have off (a : Answer) : Orderly g none (p.disconnected e a) := orderly_disconnected h
  have still (a : Answer) : (p.disconnected e a).taken e = p.taken e := by
    unfold Pool.disconnected
    split <;> rfl
  unfold Pool.close
  simp only
  split
  · exact h
  · rename_i r taken
    split
    · rename_i free
      exact orderly_closeLocked h taken free
    · exact h
  · rename_i r taken
    exact orderly_released (off _) ((still _).trans taken) rfl
  · rename_i r taken
    exact orderly_setTaken (off _)
      (mayTake_taken (off _) ((still _).trans taken) (.inl nofun) nofun)

theorem orderly_force (h : Orderly g none p) : Orderly g none (p.force e) := by
  unfold Pool.force
  split
  · rename_i taken
    split
    · exact orderly_setTaken (p := p.unlink e .closed) h
        (mayTake_taken (p := p.unlink e .closed) h taken (.inl nofun) nofun)
    · exact orderly_setTaken (p := p.unlink e .closed) h
        (mayTake_taken (p := p.unlink e .closed) h taken (.inl nofun) nofun)
  · exact h

theorem orderly_abandonEviction (h : Orderly g none p) : Orderly g none (p.abandonEviction e) := by
  unfold Pool.abandonEviction
  split
  · rename_i taken
    exact orderly_abandon h taken nofun
  · exact h

end Closers

section Removals

theorem orderly_take {r : Remover} (h : Orderly g x p) (entry : p.entries k = some e)
    (nobody : g → ∀ j, x ≠ some j → ¬ Engaged p.calls j k) :
    Orderly g x ((p.unregister k e).setTaken e (some ⟨r, .waiting⟩)) := by
  obtain ⟨made, key, free⟩ := h.entry k e entry
  have removed := orderly_unregister (e := e) h fun hg j other _ => nobody hg j other
  rw [Pool.unregister, if_pos entry] at removed ⊢
  refine orderly_setTaken removed ⟨fun _ => made, fun _ k' now => ?_, ?_, .inl ?_, nofun⟩
  · change Function.update p.entries k none k' = some e at now
    by_cases same : k' = k
    · rw [same, Function.update_self] at now
      cases now
    · rw [Function.update_of_ne same] at now
      exact same ((h.entry k' e now).2.1.symm.trans key)
  · intro _ j u e' s other called place fresh
    have ok := h.turns j u other called
    rw [TurnOk, place] at ok
    exact (ok.fresh e fresh).apart k entry
  · change p.taken e ≠ _
    rw [show p.taken e = none from free]
    exact nofun

section
variable (h : Orderly g none p)
include h

theorem orderly_evict {sweep : Bool}
    (nobody : g → ∀ e, p.entries k = some e → p.lockOf e ≠ e → ∀ j, ¬ Engaged p.calls j k) :
    Orderly g none (p.evict k sweep) := by
  unfold Pool.evict
  split
  · exact h
  · rename_i e entry
    split
    · exact h
    · rename_i client
      exact orderly_take h entry fun hg j _ => nobody hg e entry client j

theorem orderly_pop {mark : ℕ} (made : i < p.nextCall)
    (nobody : g → ∀ e, p.blocked k = false → p.entries k = some e → ∀ j, ¬ Engaged p.calls j k) :
    Orderly g none (p.pop i k mark) := by
  unfold Pool.pop
  split
  · exact h
  rename_i free
  split
  · exact orderly_endCall (h.but i)
  · rename_i e entry
    have took := orderly_take (r := .reset) (h.but i) entry
      fun hg j _ => nobody hg e (Bool.eq_false_iff.mpr free) entry j
    refine orderly_setCall took ?_ (by rintro u ⟨⟩) (by rintro - u e s j ⟨⟩)
    change i < (p.unregister k e).nextCall
    rw [Pool.unregister, if_pos entry]
    exact made

theorem registered_iff : p.registered e = true ↔ ∃ k, p.entries k = some e := by
  unfold Pool.registered
  rw [decide_eq_true_iff]
  constructor
  · exact fun entry => ⟨_, entry⟩
  · rintro ⟨k, entry⟩
    rw [show p.keyOf e = k from (h.entry k e entry).2.1]
    exact entry

/-- Where the map is emptied, a closer takes each entry, and closers that wait for a lock stay. -/
theorem orderly_emptied {q : Pool} {r : Remover}
    (next : q.next = p.next) (lockOf : q.lockOf = p.lockOf) (keyOf : q.keyOf = p.keyOf)
    (entries : ∀ k, q.entries k = none) (locks : q.locks = p.locks) (calls : q.calls = p.calls)
    (nextCall : q.nextCall = p.nextCall)
    (now : ∀ e, p.registered e = true → q.taken e = some ⟨r, .waiting⟩)
    (old : ∀ e, p.registered e = false → q.taken e = p.taken e ∨ q.taken e = none)
    (guarded : ∀ i k e s, Engaged p.calls i k → Held g (core p) i k e s →
      Guarded (core p) k (p.lockOf e) → Guarded (core q) k (p.lockOf e)) : Orderly g none q := by
  have apart {c : ℕ} (none_ : ∀ k, p.entries k ≠ some c) : p.registered c = false := by
    rw [Bool.eq_false_iff]
    intro yes
    obtain ⟨k, entry⟩ := (registered_iff h).mp yes
    exact none_ k entry
  refine ⟨fun k e entry => ?_, fun e c taken => ?_, fun j u _ called => ?_, ?_, ?_, ?_⟩
  · cases (entries k).symm.trans entry
  · change e < q.next
    rw [next]
    cases registered : p.registered e with
    | true =>
      obtain ⟨k, entry⟩ := (registered_iff h).mp registered
      exact (h.entry k e entry).1
    | false =>
      rcases old e registered with same | none_
      · exact h.takenMade e c (same.symm.trans taken)
      · cases none_.symm.trans taken
  · rw [calls] at called
    refine (h.turns j u nofun called).transfer (Nat.le_of_eq next.symm) fun e s place held => ?_
    have lock : (core q).lockOf e = p.lockOf e := congrFun lockOf e
    refine ⟨Nat.lt_of_lt_of_eq held.made next.symm, ?_, fun c fresh => ?_, fun hg engaged => ?_⟩
    · rw [lock]
      exact (congrFun locks _).trans held.owner
    · have known := held.fresh c fresh
      refine ⟨Nat.lt_of_lt_of_eq known.made next.symm, ?_, ?_, ?_, fun k now => ?_⟩
      · rw [lock]
        exact (congrFun lockOf c).trans known.lock
      · exact (congrFun keyOf c).trans known.key
      · exact (old c (apart known.apart)).elim (fun same => same.trans known.free) id
      · cases (entries k).symm.trans now
    · rw [lock]
      exact guarded j u.key e s ⟨u, e, s, called, rfl, place, engaged⟩ held
        (held.guarded hg engaged)
  · rw [calls]
    exact h.alone
  · intro e r' shutting
    have same : q.taken e = p.taken e := by
      cases registered : p.registered e with
      | true => cases (now e registered).symm.trans shutting
      | false =>
        rcases old e registered with same | none_
        · exact same
        · cases none_.symm.trans shutting
    change q.locks (q.lockOf e) = _
    rw [locks, lockOf]
    exact h.shutter e r' (same.symm.trans shutting)
  · rw [calls, nextCall]
    exact h.idle

theorem orderly_invalidateAll : Orderly g none p.invalidateAll := by
  unfold Pool.invalidateAll
  refine orderly_begin ?_ nofun
  refine orderly_emptied (r := .worker) h rfl rfl rfl (fun _ => rfl) rfl rfl rfl
    (fun e yes => if_pos yes) (fun e no => .inl (if_neg (by rw [no]; exact nofun))) ?_
  intro i k e s at_ held guarded
  unfold Guarded at guarded ⊢
  change p.closing = true ∨ ∃ b, ((p.entries k).orElse fun _ => p.barriers k) = some b ∧
    p.lockOf b = p.lockOf e ∧
      (if p.registered b then some ⟨.worker, .waiting⟩ else p.taken b) = some ⟨.worker, .waiting⟩
  change match p.entries k with
    | some e'' => p.lockOf e'' = p.lockOf e
    | none => p.closing = true ∨ ∃ b, p.barriers k = some b ∧ p.lockOf b = p.lockOf e ∧
        p.taken b = some ⟨.worker, .waiting⟩ at guarded
  cases entry : p.entries k with
  | some e'' =>
    rw [entry] at guarded
    exact .inr ⟨e'', rfl, guarded, if_pos ((registered_iff h).mpr ⟨k, entry⟩)⟩
  | none =>
    rw [entry] at guarded
    refine guarded.imp_right ?_
    rintro ⟨b, barrier, lock, waiting⟩
    refine ⟨b, barrier, lock, ?_⟩
    split
    · rfl
    · exact waiting

theorem orderly_aclose : Orderly g none p.aclose := by
  unfold Pool.aclose
  refine orderly_begin ?_ nofun
  refine orderly_emptied (r := .drain) h rfl rfl rfl (fun _ => rfl) rfl rfl rfl
    (fun e yes => if_pos yes) (fun e no => ?_) fun i k e s _ _ _ => .inl rfl
  have other : ¬ p.registered e = true := by
    rw [no]
    exact fun h => by cases h
  simp only [if_neg other]
  split
  · exact .inr rfl
  · exact .inl rfl

end

end Removals

section Runs

/-- The key whose entry an eviction or a `close_key` takes. -/
def takes (p : Pool) : Label → Option String
  | .evict k _ => if (p.entries k).any fun e => decide (p.lockOf e ≠ e) then some k else none
  | .advance i _ =>
    match p.calls i with
    | some (.closeKey k _ none) => if p.blocked k = false ∧ (p.entries k).isSome then some k else none
    | _ => none
  | _ => none

def engagedOn (p : Pool) (k : String) : Bool :=
  (List.range p.nextCall).any fun i =>
    match p.calls i with
    | some (.turn t) => decide (t.key = k) &&
        (match t.place with
          | .holds _ s => engagedIn s
          | _ => false)
    | _ => false

/-- No eviction and no `close_key` takes the entry of an engaged turn. -/
def spares (l : Label) (p : Pool) : Prop := ((takes p l).all fun k => !engagedOn p k) = true

instance : ∀ l p, Decidable (spares l p) :=
  fun l p => inferInstanceAs (Decidable (((takes p l).all fun k => !engagedOn p k) = true))

theorem not_engaged_of_spares (h : Orderly g none p) {l : Label} (ok : spares l p)
    (taken : takes p l = some k) (j : ℕ) : ¬ Engaged p.calls j k := by
  rintro ⟨t, e, s, called, key, place, engaged⟩
  rw [spares, taken, Option.all_some, Bool.not_eq_true', engagedOn, List.any_eq_false] at ok
  have no := ok j (List.mem_range.mpr (h.owned called))
  rw [called] at no
  simp only [place, key, decide_true, Bool.true_and] at no
  exact no engaged

theorem orderly_step {l : Label} (h : Orderly g none p) (ok : g → spares l p) :
    Orderly g none (step l p) := by
  cases l with
  | turn key =>
    refine orderly_begin h ?_
    rintro u ⟨⟩
    rfl
  | closeKey key => exact orderly_begin h nofun
  | invalidateAll => exact orderly_invalidateAll h
  | aclose => exact orderly_aclose h
  | evict key sweep =>
    refine orderly_evict h fun hg e entry client j => not_engaged_of_spares h (ok hg) ?_ j
    simp [takes, entry, client]
  | advance i a =>
    simp only [step]
    unfold Pool.advance
    split
    · exact h
    · rename_i t called
      exact orderly_advanceTurn h called a
    · rename_i k mark called
      refine orderly_pop h (h.owned called) fun hg e free entry j =>
        not_engaged_of_spares h (ok hg) ?_ j
      simp [takes, called, free, entry]
    · split
      · exact orderly_endCall (h.but i)
      · exact h
    · split
      · exact orderly_endCall (h.but i)
      · exact h
    · split
      · exact orderly_endCall (h.but i)
      · exact h
  | cancel i =>
    simp only [step]
    unfold Pool.cancel
    split
    · exact h
    · rename_i t called
      split
      · rename_i e s place
        exact orderly_cancelHolding h called place
      · exact orderly_endCall (h.but i)
    · exact orderly_endCall (h.but i)
    · rename_i k mark e called
      refine orderly_endCall (OrderlyCore.but ?_ i)
      split
      · rename_i mine
        unfold Pool.takenBy at mine
        cases taken : p.taken e with
        | none =>
          rw [taken] at mine
          cases mine
        | some c =>
          rw [taken, Option.any_some, decide_eq_true_iff] at mine
          refine orderly_abandon h taken ?_
          rw [mine]
          exact nofun
      · exact h
    · exact orderly_endCall (h.but i)
    · exact orderly_endCall ((orderly_abandonDrains h _).but i)
  | close e alive => exact orderly_close h alive
  | force e => exact orderly_force h
  | abandon e => exact orderly_abandonEviction h

theorem orderly_empty : Orderly g none Pool.empty := by
  refine ⟨nofun, nofun, nofun, ?_, nofun, fun _ _ => rfl⟩
  rintro - i j k - - ⟨t, e, s, called, -⟩
  cases called

/-- `run_turn_locked` is in progress. -/
def inRun : Stage → Bool
  | .running => true
  | .cleaning => true
  | .breaking _ => true
  | _ => false

def InTurn (p : Pool) (i : ℕ) (k : String) : Prop :=
  ∃ t e s, p.calls i = some (.turn t) ∧ t.key = k ∧ t.place = .holds e s ∧ inRun s = true

/-- No two turns of a key run at the same time, in every run in which no eviction and no
`close_key` takes the entry of an engaged turn. -/
theorem one_turn_per_key {ls : List Label} (run : Runs step spares Pool.empty ls p) {i j : ℕ}
    {k : String} (first : InTurn p i k) (second : InTurn p j k) : i = j := by
  have ordered := run.invariant (I := Orderly True none)
    (fun l p ok h => orderly_step h fun _ => ok) orderly_empty
  have engaged {l : ℕ} (at_ : InTurn p l k) : Engaged p.calls l k := by
    obtain ⟨t, e, s, called, key, place, runs⟩ := at_
    refine ⟨t, e, s, called, key, place, ?_⟩
    cases s <;> first | rfl | cases runs
  exact ordered.alone trivial i j k nofun nofun (engaged first) (engaged second)

def coldTurn (i : ℕ) (k : String) : List Label :=
  [.turn k, .advance i .ok, .advance i (.decision false false), .advance i .ok, .advance i .ok]

def secondWaits : List Label := coldTurn 0 "k" ++ [.turn "k", .advance 1 .ok]

theorem one_turn_runs : ∃ p, Runs step spares Pool.empty secondWaits p ∧ InTurn p 0 "k" ∧
    ∀ j, InTurn p j "k" → 0 = j := by
  have legal : Legal step spares Pool.empty secondWaits := by
    decide +kernel
  have first : InTurn (secondWaits.foldl (fun p l => step l p) Pool.empty) 0 "k" :=
    ⟨⟨"k", false, .holds 1 .running, 0, 0⟩, 1, .running, rfl, rfl, rfl, rfl⟩
  exact ⟨_, legal.runs, first, fun j second => one_turn_per_key legal.runs first second⟩

/-- A reset in the middle of a turn, and the next turn of the key. -/
theorem two_turns_after_reset : ∃ ls p, Runs step (fun _ _ => True) Pool.empty ls p ∧
    InTurn p 0 "k" ∧ InTurn p 2 "k" := by
  refine ⟨coldTurn 0 "k" ++ [.closeKey "k", .advance 1 .ok] ++ coldTurn 2 "k", _,
    Runs.foldl (fun _ _ _ => trivial) _, ?_, ?_⟩
  · exact ⟨⟨"k", false, .holds 1 .running, 0, 0⟩, 1, .running, rfl, rfl, rfl, rfl⟩
  · exact ⟨⟨"k", false, .holds 3 .running, 0, 0⟩, 3, .running, rfl, rfl, rfl, rfl⟩

end Runs

end Casa.ClientTurns
