import Casa.ClientPool

/-! What a turn may be served by. Objects and registrations are numbered, so what is stale for a
turn lies below its two floors. After the map has been emptied by `invalidate_all`, every entry
is younger than it, unless a client was being connected at that time: its turn registers it
later, and nobody closes it. -/

namespace Casa.ClientFreshness
open StepRuns ClientPool

structure Ledger where
  next : ℕ
  entries : String → Option ℕ
  registrations : ℕ
  stamp : ℕ → ℕ
  outdated : ℕ
  keyOutdated : String → ℕ

def ledger (p : Pool) : Ledger where
  next := p.next
  entries := p.entries
  registrations := p.registrations
  stamp := p.stamp
  outdated := p.outdated
  keyOutdated := p.keyOutdated

def connecting : Stage → Option ℕ
  | .connecting _ c => some c
  | _ => none

structure Reach where
  cleared : ℕ
  keyCleared : String → ℕ

def Serves (stamp : ℕ → ℕ) (t : Turn) (e : ℕ) : Prop := t.floor ≤ e ∧ t.keyFloor ≤ stamp e

def PlaceOk (stamp : ℕ → ℕ) (r : Reach) (t : Turn) : Place → Prop
  | .stub => True
  | .barred _ => True
  | .wants e => Serves stamp t e
  | .holds e s => Serves stamp t e ∧ ∀ c, connecting s = some c → r.cleared ≤ c

structure TurnOk (stamp : ℕ → ℕ) (r : Reach) (t : Turn) : Prop where
  floor : t.floor ≤ r.cleared
  keyFloor : t.keyFloor ≤ r.keyCleared t.key
  place : PlaceOk stamp r t t.place

def CallOk (registrations : ℕ) (stamp : ℕ → ℕ) (r : Reach) : Call → Prop
  | .turn t => TurnOk stamp r t
  | .closeKey _ mark none => mark ≤ registrations
  | .closeKey k mark (some _) => mark ≤ r.keyCleared k
  | .invalidateAll mark _ => mark ≤ r.cleared
  | .aclose _ => True

structure CurrentIn (l : Ledger) (calls : ℕ → Option Call) (nextCall : ℕ) (r : Reach) : Prop where
  made : r.cleared ≤ l.next
  registered : ∀ k, r.keyCleared k ≤ l.registrations
  entry : ∀ k e, l.entries k = some e → r.cleared ≤ e ∧ r.keyCleared k ≤ l.stamp e
  outdated : l.outdated ≤ r.cleared
  keyOutdated : ∀ k, l.keyOutdated k ≤ r.keyCleared k
  call : ∀ i c, calls i = some c → CallOk l.registrations l.stamp r c
  idle : ∀ i, nextCall ≤ i → calls i = none

abbrev Current (p : Pool) (r : Reach) : Prop := CurrentIn (ledger p) p.calls p.nextCall r

variable {p : Pool} {r : Reach} {i e : ℕ} {k : String} {t : Turn}

section Moves

section
variable (h : Current p r)
include h

theorem CurrentIn.owned {c : Call} (called : p.calls i = some c) : i < p.nextCall := by
  by_contra late
  rw [h.idle i (Nat.le_of_not_lt late)] at called
  cases called

theorem current_setCall {c : Call} (made : i < p.nextCall)
    (ok : CallOk p.registrations p.stamp r c) : Current (p.setCall i (some c)) r := by
  refine ⟨h.made, h.registered, h.entry, h.outdated, h.keyOutdated, fun j d now => ?_,
    fun j le => ?_⟩
  · change Function.update p.calls i (some c) j = some d at now
    by_cases same : j = i
    · rw [same, Function.update_self] at now
      cases now
      exact ok
    · rw [Function.update_of_ne same] at now
      exact h.call j d now
  · have ne : j ≠ i := fun same => absurd (same ▸ le) (Nat.not_le.mpr made)
    exact (Function.update_of_ne ne _ _).trans (h.idle j le)

theorem current_endCall : Current (p.setCall i none) r := by
  refine ⟨h.made, h.registered, h.entry, h.outdated, h.keyOutdated, fun j d now => ?_,
    fun j le => ?_⟩
  · change Function.update p.calls i none j = some d at now
    by_cases same : j = i
    · rw [same, Function.update_self] at now
      cases now
    · rw [Function.update_of_ne same] at now
      exact h.call j d now
  · change Function.update p.calls i none j = none
    by_cases same : j = i
    · rw [same, Function.update_self]
    · rw [Function.update_of_ne same]
      exact h.idle j le

theorem current_begin {c : Call} (ok : CallOk p.registrations p.stamp r c) :
    Current (p.begin_ c) r := by
  have opened : Current { p with nextCall := p.nextCall + 1 } r :=
    ⟨h.made, h.registered, h.entry, h.outdated, h.keyOutdated, h.call,
      fun j le => h.idle j (Nat.le_of_succ_le le)⟩
  exact current_setCall opened (Nat.lt_succ_self _) ok

theorem current_unregister : Current (p.unregister k e) r := by
  unfold Pool.unregister
  split
  swap
  · exact h
  refine ⟨h.made, h.registered, fun k' e' now => ?_, h.outdated, h.keyOutdated, h.call, h.idle⟩
  change Function.update p.entries k none k' = some e' at now
  by_cases same : k' = k
  · rw [same, Function.update_self] at now
    cases now
  · rw [Function.update_of_ne same] at now
    exact h.entry k' e' now

theorem current_make {lock : ℕ} {client : Bool} : Current (p.make k lock client) r :=
  ⟨Nat.le_succ_of_le h.made, h.registered, h.entry, h.outdated, h.keyOutdated, h.call, h.idle⟩

theorem serves_register {c : ℕ} (ok : TurnOk p.stamp r t)
    (serves : Serves p.stamp t e) : Serves (p.register k c).stamp t e := by
  refine ⟨serves.1, ?_⟩
  change t.keyFloor ≤ Function.update p.stamp c p.registrations e
  by_cases same : e = c
  · rw [same, Function.update_self]
    exact Nat.le_trans ok.keyFloor (h.registered t.key)
  · rw [Function.update_of_ne same]
    exact serves.2

theorem turnOk_register {c : ℕ} (ok : TurnOk p.stamp r t) : TurnOk (p.register k c).stamp r t := by
  refine ⟨ok.floor, ok.keyFloor, ?_⟩
  have old := ok.place
  cases place : t.place with
  | stub => trivial
  | barred b => trivial
  | wants e =>
    rw [place] at old
    exact serves_register h ok old
  | holds e s =>
    rw [place] at old
    exact ⟨serves_register h ok old.1, old.2⟩

theorem current_register {c : ℕ} (young : r.cleared ≤ c) : Current (p.register k c) r := by
  refine ⟨h.made, fun k' => Nat.le_succ_of_le (h.registered k'), fun k' e' now => ?_, h.outdated,
    h.keyOutdated, fun j d now => ?_, h.idle⟩
  · change Function.update p.entries k (some c) k' = some e' at now
    change _ ∧ _ ≤ Function.update p.stamp c p.registrations e'
    by_cases same : e' = c
    · rw [same, Function.update_self]
      exact ⟨young, h.registered k'⟩
    · have other : k' ≠ k := by
        rintro rfl
        rw [Function.update_self] at now
        exact same (Option.some.inj now).symm
      rw [Function.update_of_ne other] at now
      rw [Function.update_of_ne same]
      exact h.entry k' e' now
  · have old := h.call j d now
    cases d with
    | turn t => exact turnOk_register (k := k) h old
    | closeKey k mark took =>
      cases took with
      | none => exact Nat.le_succ_of_le old
      | some e => exact old
    | _ => exact old

theorem CurrentIn.turn (called : p.calls i = some (.turn t)) : TurnOk p.stamp r t :=
  h.call i _ called

theorem current_goto {place : Place} (made : i < p.nextCall)
    (ok : TurnOk p.stamp r t) (there : PlaceOk p.stamp r t place) :
    Current (p.goto i t place) r := by
  refine current_setCall h made ⟨ok.floor, ok.keyFloor, ?_⟩
  cases place <;> exact there

end

end Moves

section Turns

theorem current_retry (h : Current p r) (made : i < p.nextCall) (ok : TurnOk p.stamp r t) :
    Current (p.retry i t) r := by
  unfold Pool.retry
  split
  · exact current_endCall h
  · exact current_setCall h made ⟨ok.floor, ok.keyFloor, trivial⟩

theorem current_leave (h : Current p r) : Current (p.leave i e) r :=
  current_endCall (p := p.setLock e none) h

variable (h : Current p r) (made : i < p.nextCall) (ok : TurnOk p.stamp r t)
  (serves : Serves p.stamp t e)

include h made ok serves

theorem current_drop : Current (p.drop i t e) r := by
  have removed : Current (p.unregister t.key e) r := current_unregister h
  obtain ⟨nextCall, stamp⟩ : (p.unregister t.key e).nextCall = p.nextCall ∧
      (p.unregister t.key e).stamp = p.stamp := by
    unfold Pool.unregister
    split <;> exact ⟨rfl, rfl⟩
  unfold Pool.drop
  simp only
  split
  · refine current_goto (p := (p.unregister t.key e).unlink e .closed) removed ?_ ?_ ?_
    · change i < (p.unregister t.key e).nextCall
      rwa [nextCall]
    · change TurnOk (p.unregister t.key e).stamp r t
      rwa [stamp]
    · refine ⟨?_, nofun⟩
      change Serves (p.unregister t.key e).stamp t e
      rwa [stamp]
  · exact current_leave (p := (p.unregister t.key e).unlink e .closed) removed

theorem current_start : Current (p.start i t e) r := by
  unfold Pool.start
  split
  · exact current_goto (p := p.setState e .inTurn) h made ok ⟨serves, nofun⟩
  · exact current_drop h made ok serves

theorem current_finish : Current (p.finish i t e) r := by
  unfold Pool.finish
  split
  · exact current_leave h
  · exact current_drop h made ok serves

theorem current_returned (sid : Bool) : Current (p.returned i t e sid) r := by
  unfold Pool.returned
  split
  · exact current_goto h made ok ⟨serves, nofun⟩
  · exact current_finish h made ok serves

end Turns

section Calls
variable (h : Current p r) (called : p.calls i = some (.turn t))

include h called

theorem current_entryStub : Current (p.entryStub i t) r := by
  have made := h.owned called
  have ok := h.turn called
  unfold Pool.entryStub
  split
  · exact current_endCall h
  split
  · exact current_goto h made ok trivial
  split
  · rename_i e entry
    obtain ⟨young, stamped⟩ := h.entry _ _ entry
    refine current_goto h made ok ⟨Nat.le_trans ok.floor young, ?_⟩
    exact Nat.le_trans ok.keyFloor stamped
  · have stub : Current (p.make t.key p.next false) r := current_make h
    have registered := current_register (k := t.key) stub h.made
    refine current_goto registered made ?_ ⟨Nat.le_trans ok.floor h.made, ?_⟩
    · exact turnOk_register (current_make h) ok
    · change t.keyFloor ≤ Function.update p.stamp p.next p.registrations p.next
      rw [Function.update_self]
      exact Nat.le_trans ok.keyFloor (h.registered t.key)

theorem current_acquire (resume same : Bool) (serves : Serves p.stamp t e) :
    Current (p.acquire i t e resume same) r := by
  have made := h.owned called
  have ok := h.turn called
  unfold Pool.acquire
  split
  · exact h
  split
  · exact current_retry h made ok
  split
  · unfold Pool.decide_
    simp only
    split
    · exact current_goto (p := p.setLock e (some (.call i))) h made ok ⟨serves, nofun⟩
    split
    · refine current_goto (p := (p.setLock e (some (.call i))).unlink e .closed) h made ok
        ⟨serves, fun c now => ?_⟩
      split at now <;> cases now
    · exact current_goto (p := p.setLock e (some (.call i))) h made ok ⟨serves, nofun⟩
  · have removed : Current (p.unregister t.key e) r := current_unregister h
    obtain ⟨nextCall, stamp⟩ : (p.unregister t.key e).nextCall = p.nextCall ∧
        (p.unregister t.key e).stamp = p.stamp := by
      unfold Pool.unregister
      split <;> exact ⟨rfl, rfl⟩
    refine current_retry removed ?_ ?_
    · rwa [nextCall]
    · rwa [stamp]

theorem current_publish {c : ℕ} (young : r.cleared ≤ c) (resume : Bool) :
    Current (p.publish i t c resume) r := by
  have made := h.owned called
  have ok := turnOk_register (k := t.key) (c := c) h (h.turn called)
  have registered := current_register (k := t.key) h young
  have serves : Serves (p.register t.key c).stamp t c := by
    refine ⟨Nat.le_trans ok.floor young, ?_⟩
    change t.keyFloor ≤ Function.update p.stamp c p.registrations c
    rw [Function.update_self]
    exact Nat.le_trans ok.keyFloor (h.registered t.key)
  unfold Pool.publish
  simp only
  split
  · exact current_goto (p := ((p.setState c .warm).setConnected c true).register t.key c)
      registered made ok ⟨serves, nofun⟩
  · exact current_start (p := ((p.setState c .warm).setConnected c true).register t.key c)
      registered made ok serves

theorem current_advanceHolding {s : Stage} (place : t.place = .holds e s) (a : Answer) :
    Current (p.advanceHolding i t e s a) r := by
  have made := h.owned called
  have ok := h.turn called
  obtain ⟨serves, young⟩ : Serves p.stamp t e ∧ ∀ c, connecting s = some c → r.cleared ≤ c := by
    have here := ok.place
    rwa [place] at here
  have stay {q : Pool} {s' : Stage} (h : Current q r) (made : i < q.nextCall)
      (same : q.stamp = p.stamp) (idle : connecting s' = none) :
      Current (q.goto i t (.holds e s')) r := by
    refine current_goto h made (same ▸ ok) ⟨same ▸ serves, fun c now => ?_⟩
    rw [idle] at now
    cases now
  have off (c : ℕ) : Current (p.disconnected c a) r ∧ (p.disconnected c a).nextCall = p.nextCall ∧
      (p.disconnected c a).stamp = p.stamp := by
    unfold Pool.disconnected
    split <;> exact ⟨h, rfl, rfl⟩
  obtain ⟨gone, nextCall, stamp⟩ := off e
  have made' : i < (p.disconnected e a).nextCall := nextCall ▸ made
  have ok' : TurnOk (p.disconnected e a).stamp r t := stamp ▸ ok
  have serves' : Serves (p.disconnected e a).stamp t e := stamp ▸ serves
  cases s with
  | flushing resume => exact stay gone made' stamp rfl
  | building resume =>
    cases a with
    | ok =>
      refine current_goto (p := p.make t.key (p.lockOf e) true) (current_make h) made ok
        ⟨serves, ?_⟩
      rintro c ⟨⟩
      exact h.made
    | _ => exact current_leave h
  | connecting resume c =>
    cases a with
    | ok => exact current_publish h called (young c rfl) resume
    | _ => exact stay (q := p.unlink c .invalid) h made rfl rfl
  | failing c => exact current_leave (off c).1
  | touching =>
    cases a with
    | ok => exact current_start h made ok serves
    | _ => exact current_leave h
  | running =>
    cases a with
    | reply errored retried sid =>
      cases errored with
      | false => exact current_returned (p := p.setState e .warm) h made ok serves sid
      | true => exact stay (q := p.unlink e .invalid) h made rfl rfl
    | _ => exact stay (q := p.unlink e .invalid) h made rfl rfl
  | cleaning =>
    cases a with
    | ok => exact current_leave (p := p.setState e .warm) h
    | _ => exact stay (q := p.unlink e .invalid) h made rfl rfl
  | breaking exit =>
    cases exit with
    | raises => exact current_drop gone made' ok' serves'
    | returns sid => exact current_returned gone made' ok' serves' sid
  | publishing =>
    cases a with
    | ok => exact current_finish h made ok serves
    | _ => exact current_drop h made ok serves
  | dropping => exact current_leave gone

theorem current_cancelHolding {s : Stage} (place : t.place = .holds e s) :
    Current (p.cancelHolding i t e s) r := by
  have made := h.owned called
  have ok := h.turn called
  have serves : Serves p.stamp t e := by
    have here := ok.place
    rw [place] at here
    exact here.1
  cases s with
  | connecting resume c =>
    exact current_goto (p := p.unlink c .invalid) h made ok ⟨serves, nofun⟩
  | running => exact current_goto h made ok ⟨serves, nofun⟩
  | cleaning => exact current_goto (p := p.unlink e .invalid) h made ok ⟨serves, nofun⟩
  | breaking exit => exact current_drop h made ok serves
  | publishing => exact current_drop h made ok serves
  | _ => exact current_leave h

theorem current_advanceTurn (a : Answer) : Current (p.advanceTurn i t a) r := by
  have ok := h.turn called
  unfold Pool.advanceTurn
  split
  · exact current_entryStub h called
  · split
    · exact current_goto h (h.owned called) ok trivial
    · exact h
  · rename_i e place
    have here := ok.place
    rw [place] at here
    split
    · exact current_acquire h called _ _ here
    · exact h
  · rename_i e s place
    exact current_advanceHolding h called place a

end Calls

section Removals

def Reach.pop (r : Reach) (k : String) (n : ℕ) : Reach where
  cleared := r.cleared
  keyCleared := Function.update r.keyCleared k n

theorem pop_self (r : Reach) (k : String) (n : ℕ) : (r.pop k n).keyCleared k = n :=
  Function.update_self _ _ _

theorem turnOk_pop {n : ℕ} {stamp : ℕ → ℕ} (ok : TurnOk stamp r t) (later : r.keyCleared k ≤ n) :
    TurnOk stamp (r.pop k n) t := by
  refine ⟨ok.floor, ?_, ?_⟩
  · change t.keyFloor ≤ Function.update r.keyCleared k n t.key
    by_cases same : t.key = k
    · rw [same, Function.update_self]
      exact Nat.le_trans (same ▸ ok.keyFloor) later
    · rw [Function.update_of_ne same]
      exact ok.keyFloor
  · have old := ok.place
    cases place : t.place with
    | stub => trivial
    | barred b => trivial
    | wants e =>
      rw [place] at old
      exact old
    | holds e s =>
      rw [place] at old
      exact old

theorem current_pop (h : Current p r) (absent : p.entries k = none) :
    Current p (r.pop k p.registrations) := by
  have later := h.registered k
  have grows (k' : String) : r.keyCleared k' ≤ (r.pop k p.registrations).keyCleared k' := by
    change _ ≤ Function.update r.keyCleared k p.registrations k'
    by_cases same : k' = k
    · rw [same, Function.update_self]
      exact later
    · exact Nat.le_of_eq (Function.update_of_ne same _ _).symm
  refine ⟨h.made, fun k' => ?_, fun k' e now => ?_, h.outdated,
    fun k' => Nat.le_trans (h.keyOutdated k') (grows k'), fun j c now => ?_, h.idle⟩
  · change Function.update r.keyCleared k p.registrations k' ≤ p.registrations
    by_cases same : k' = k
    · subst same
      exact Nat.le_of_eq (Function.update_self _ _ _)
    · rw [Function.update_of_ne same]
      exact h.registered k'
  · have other : k' ≠ k := by
      rintro rfl
      cases absent.symm.trans now
    change _ ∧ Function.update r.keyCleared k p.registrations k' ≤ _
    rw [Function.update_of_ne other]
    exact h.entry k' e now
  · have old := h.call j c now
    cases c with
    | turn t => exact turnOk_pop old later
    | closeKey k' mark took =>
      cases took with
      | none => exact old
      | some e => exact Nat.le_trans old (grows k')
    | _ => exact old

theorem current_closed {mark : ℕ} (h : Current p r) (behind : mark ≤ r.keyCleared k) :
    Current { p.setCall i none with
      keyOutdated := Function.update p.keyOutdated k (max (p.keyOutdated k) mark) } r := by
  have ended := current_endCall (i := i) h
  refine ⟨ended.made, ended.registered, ended.entry, ended.outdated, fun k' => ?_, ended.call,
    ended.idle⟩
  change Function.update p.keyOutdated k _ k' ≤ _
  by_cases same : k' = k
  · rw [same, Function.update_self]
    exact Nat.max_le.mpr ⟨h.keyOutdated k, behind⟩
  · rw [Function.update_of_ne same]
    exact h.keyOutdated k'

theorem current_invalidateAll (h : Current p r)
    (idle : ∀ i t e s, p.calls i = some (.turn t) → t.place = .holds e s → connecting s = none) :
    Current p.invalidateAll { r with cleared := p.next } := by
  unfold Pool.invalidateAll
  refine current_begin ?_ (Nat.le_refl _)
  refine ⟨Nat.le_refl _, h.registered, nofun, Nat.le_trans h.outdated h.made, h.keyOutdated,
    fun j c now => ?_, h.idle⟩
  have old := h.call j c now
  cases c with
  | turn t =>
    refine ⟨Nat.le_trans old.floor h.made, old.keyFloor, ?_⟩
    have here := old.place
    cases place : t.place with
    | stub => trivial
    | barred b => trivial
    | wants e =>
      rw [place] at here
      exact here
    | holds e s =>
      rw [place] at here
      refine ⟨here.1, fun c now' => ?_⟩
      rw [idle j t e s now place] at now'
      cases now'
  | closeKey k mark took => cases took <;> exact old
  | invalidateAll mark snap => exact Nat.le_trans old h.made
  | aclose snap => trivial

end Removals

section Runs

def anyConnecting (p : Pool) : Bool :=
  (List.range p.nextCall).any fun i =>
    match p.calls i with
    | some (.turn t) =>
      (match t.place with
        | .holds _ s => (connecting s).isSome
        | _ => false)
    | _ => false

/-- No `invalidate_all` begins while a client is being connected. -/
def settled : Label → Pool → Bool
  | .invalidateAll, p => !anyConnecting p
  | _, _ => true

theorem idle_of_settled (h : Current p r) (ok : settled .invalidateAll p = true) {i : ℕ}
    {t : Turn} {e : ℕ} {s : Stage} (called : p.calls i = some (.turn t))
    (place : t.place = .holds e s) : connecting s = none := by
  rw [settled, Bool.not_eq_true', anyConnecting, List.any_eq_false] at ok
  have no := ok i (List.mem_range.mpr (h.owned called))
  rw [called] at no
  simp only [place, Bool.not_eq_true, Option.isSome_eq_false_iff, Option.isNone_iff_eq_none] at no
  exact no

/-- A step that moves only locks, barriers, closers and clients. -/
structure Beside (p q : Pool) : Prop where
  ledger : ledger q = ledger p
  calls : q.calls = p.calls
  nextCall : q.nextCall = p.nextCall

theorem Beside.current {q : Pool} (beside : Beside p q) (h : Current p r) : Current q r := by
  unfold Current
  rw [beside.ledger, beside.calls, beside.nextCall]
  exact h

theorem beside_refl (p : Pool) : Beside p p := ⟨rfl, rfl, rfl⟩

theorem beside_abandon (p : Pool) (e : ℕ) : Beside p (p.abandon e) := by
  unfold Pool.abandon
  split <;> exact ⟨rfl, rfl, rfl⟩

theorem beside_abandonEviction (p : Pool) (e : ℕ) : Beside p (p.abandonEviction e) := by
  unfold Pool.abandonEviction
  split
  · exact beside_abandon p e
  · exact beside_refl p

theorem beside_force (p : Pool) (e : ℕ) : Beside p (p.force e) := by
  unfold Pool.force
  split
  · split <;> exact ⟨rfl, rfl, rfl⟩
  · exact beside_refl p

theorem beside_releaseBarrier (p : Pool) (e : ℕ) : Beside p (p.releaseBarrier e) := by
  unfold Pool.releaseBarrier
  split <;> exact ⟨rfl, rfl, rfl⟩

theorem beside_closeLocked (p : Pool) (e : ℕ) (remover : Remover) :
    Beside p (p.closeLocked e remover) := by
  have inner : Beside p (if remover = .worker then p.releaseBarrier e else p) := by
    split
    · exact beside_releaseBarrier p e
    · exact beside_refl p
  unfold Pool.closeLocked
  simp only
  split <;> exact ⟨inner.ledger, inner.calls, inner.nextCall⟩

theorem beside_close (p : Pool) (e : ℕ) (ok : Bool) : Beside p (p.close e ok) := by
  have inner (a : Answer) : Beside p (p.disconnected e a) := by
    unfold Pool.disconnected
    split <;> exact ⟨rfl, rfl, rfl⟩
  unfold Pool.close
  simp only
  split
  · exact beside_refl p
  · split
    · exact beside_closeLocked p e _
    · exact beside_refl p
  · exact ⟨(inner _).ledger, (inner _).calls, (inner _).nextCall⟩
  · exact ⟨(inner _).ledger, (inner _).calls, (inner _).nextCall⟩

theorem current_advance (h : Current p r) (a : Answer) : ∃ r', Current (p.advance i a) r' := by
  unfold Pool.advance
  split
  · exact ⟨r, h⟩
  · rename_i t called
    exact ⟨r, current_advanceTurn h called a⟩
  · rename_i k mark called
    have behind : mark ≤ p.registrations := h.call i _ called
    unfold Pool.pop
    split
    · exact ⟨r, h⟩
    split
    · rename_i absent
      refine ⟨r.pop k p.registrations, current_closed (current_pop h absent) ?_⟩
      exact Nat.le_trans behind (Nat.le_of_eq (pop_self r k _).symm)
    · rename_i e entry
      have removed : Current (p.unregister k e) r := current_unregister h
      rw [Pool.unregister, if_pos entry] at removed ⊢
      have popped := current_pop (k := k) removed (Function.update_self _ _ _)
      refine ⟨r.pop k p.registrations, ?_⟩
      refine current_setCall (p := { p with
        entries := Function.update p.entries k none
        taken := Function.update p.taken e (some ⟨.reset, .waiting⟩) }) popped (h.owned called) ?_
      exact Nat.le_trans behind (Nat.le_of_eq (pop_self r k _).symm)
  · rename_i k mark e called
    split
    · exact ⟨r, current_closed h (h.call i _ called)⟩
    · exact ⟨r, h⟩
  · rename_i mark snap called
    have behind : mark ≤ r.cleared := h.call i _ called
    split
    · have ended := current_endCall (i := i) h
      refine ⟨r, ended.made, ended.registered, ended.entry, ?_, ended.keyOutdated, ended.call,
        ended.idle⟩
      exact Nat.max_le.mpr ⟨h.outdated, behind⟩
    · exact ⟨r, h⟩
  · split
    · exact ⟨r, current_endCall h⟩
    · exact ⟨r, h⟩

theorem current_cancel (h : Current p r) : Current (p.cancel i) r := by
  unfold Pool.cancel
  split
  · exact h
  · rename_i t called
    split
    · rename_i e s place
      exact current_cancelHolding h called place
    · exact current_endCall h
  · exact current_endCall h
  · rename_i k mark e called
    refine current_endCall (Beside.current ?_ h)
    split
    · exact beside_abandon p e
    · exact beside_refl p
  · exact current_endCall h
  · rename_i snap called
    exact current_endCall (p := p.abandonDrains snap) h

theorem current_step {l : Label} (h : Current p r) (ok : settled l p = true) :
    ∃ r', Current (step l p) r' := by
  cases l with
  | turn key => exact ⟨r, current_begin h ⟨h.outdated, h.keyOutdated key, trivial⟩⟩
  | closeKey key => exact ⟨r, current_begin h (Nat.le_refl _)⟩
  | invalidateAll =>
    exact ⟨_, current_invalidateAll h fun i t e s called place => idle_of_settled h ok called place⟩
  | aclose =>
    refine ⟨r, current_begin ?_ trivial⟩
    exact ⟨h.made, h.registered, nofun, h.outdated, h.keyOutdated, h.call, h.idle⟩
  | evict key sweep =>
    simp only [step]
    unfold Pool.evict
    split
    · exact ⟨r, h⟩
    · split
      · exact ⟨r, h⟩
      · exact ⟨r, current_unregister h⟩
  | advance i a => exact current_advance h a
  | cancel i => exact ⟨r, current_cancel h⟩
  | close e alive => exact ⟨r, (beside_close p e alive).current h⟩
  | force e => exact ⟨r, (beside_force p e).current h⟩
  | abandon e => exact ⟨r, (beside_abandonEviction p e).current h⟩

theorem current_empty : Current Pool.empty ⟨0, fun _ => 0⟩ :=
  ⟨Nat.le_refl _, fun _ => Nat.le_refl _, nofun, Nat.le_refl _, fun _ => Nat.le_refl _, nofun,
    fun _ _ => rfl⟩

/-- In every run in which no `invalidate_all` begins while a client is being connected, the
client that runs a turn was made after the beginning of every `invalidate_all` that had returned
when the turn was called, and registered after that of every such `close_key` of its key. -/
theorem turns_run_current {ls : List Label}
    (run : Runs step (fun l p => settled l p = true) Pool.empty ls p)
    (called : p.calls i = some (.turn t)) (place : t.place = .holds e .running) :
    t.floor ≤ e ∧ t.keyFloor ≤ p.stamp e := by
  obtain ⟨r, h⟩ := run.invariant (I := fun p => ∃ r, Current p r)
    (fun l p ok ⟨r, h⟩ => current_step h ok) ⟨_, current_empty⟩
  have here := (h.turn called).place
  rw [place] at here
  exact here.1

def afterReset : List Label :=
  [.turn "k", .advance 0 .ok, .advance 0 (.decision false false), .advance 0 .ok, .advance 0 .ok,
    .advance 0 (.reply false false false), .invalidateAll, .close 1 true, .close 1 true,
    .advance 1 .ok, .closeKey "k", .advance 2 .ok, .turn "k", .advance 3 .ok,
    .advance 3 (.decision false false), .advance 3 .ok, .advance 3 .ok]

theorem runs_current_after_reset :
    ∃ p t, Runs step (fun l p => settled l p = true) Pool.empty afterReset p ∧
      p.calls 3 = some (.turn t) ∧ t.floor = 2 ∧ t.keyFloor = 2 ∧ t.floor ≤ 3 ∧
      t.keyFloor ≤ p.stamp 3 := by
  have legal : Legal step (fun l p => settled l p = true) Pool.empty afterReset := by
    decide +kernel
  have both := turns_run_current (i := 3) (e := 3)
    (t := ⟨"k", false, .holds 3 .running, 2, 2⟩) legal.runs rfl rfl
  exact ⟨_, _, legal.runs, rfl, rfl, rfl, both.1, both.2⟩

/-- An `invalidate_all` in the middle of a cold connect: the client is registered behind it, and
serves the turn that is called after it has returned. -/
theorem stale_client_after_connect : ∃ ls p t,
    Runs step (fun _ _ => True) Pool.empty ls p ∧ p.calls 2 = some (.turn t) ∧
      t.place = .holds 1 .running ∧ 1 < t.floor := by
  refine ⟨[.turn "k", .advance 0 .ok, .advance 0 (.decision false false), .advance 0 .ok,
    .invalidateAll, .advance 0 .ok, .advance 0 (.reply false false false), .close 0 true,
    .advance 1 .ok, .turn "k", .advance 2 .ok, .advance 2 (.decision true true),
    .advance 2 .ok], _, _, Runs.foldl (fun _ _ _ => trivial) _, rfl, rfl, by decide⟩

end Runs

end Casa.ClientFreshness
