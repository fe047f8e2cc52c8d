import Casa.ClientOwnership

/-! What a shutdown leaves, and the runs of the pool in which no client is orphaned. Once the map
has been emptied for good, no step fills it and nothing more is taken out of it, so that an
`aclose` that returns has seen the last closer go. -/

namespace Casa.ClientShutdown
open StepRuns ClientPool ClientTurns ClientOwnership

variable {p q : Pool} {i j e c : ℕ} {k : String} {t : Turn} {s : Stage}

section Shutdown

structure Gates where
  closing : Bool
  shut : Bool
  entries : String → Option ℕ
  taken : ℕ → Option Closer
  calls : ℕ → Option Call

def gates (p : Pool) : Gates where
  closing := p.closing
  shut := p.shut
  entries := p.entries
  taken := p.taken
  calls := p.calls

def Gates.Emptied (p : Gates) : Prop := p.closing = true ∧ ∀ k, p.entries k = none

structure Quiet (p q : Gates) : Prop where
  closing : q.closing = p.closing
  shut : q.shut = p.shut
  acloses : ∀ i snap, q.calls i = some (.aclose snap) → p.calls i = some (.aclose snap)
  empty : p.Emptied → ∀ k, q.entries k = none
  taken : p.Emptied → ∀ e d, q.taken e = some d → ∃ d', p.taken e = some d' ∧ d'.remover = d.remover

theorem Quiet.refl (p : Gates) : Quiet p p :=
  ⟨rfl, rfl, fun _ _ => id, fun emptied => emptied.2, fun _ _ d now => ⟨d, now, rfl⟩⟩

theorem Quiet.trans {p q r : Gates} (first : Quiet p q) (second : Quiet q r) : Quiet p r := by
  have next (emptied : p.Emptied) : q.Emptied :=
    ⟨first.closing.trans emptied.1, first.empty emptied⟩
  refine ⟨second.closing.trans first.closing, second.shut.trans first.shut,
    fun i snap called => first.acloses i snap (second.acloses i snap called),
    fun emptied => second.empty (next emptied), fun emptied e d now => ?_⟩
  obtain ⟨d', then_, same⟩ := second.taken (next emptied) e d now
  obtain ⟨d'', before, same'⟩ := first.taken emptied e d' then_
  exact ⟨d'', before, same'.trans same⟩

theorem quiet_setCall {new : Option Call} (other : ∀ snap, new ≠ some (.aclose snap)) :
    Quiet (gates p) (gates (p.setCall i new)) := by
  refine ⟨rfl, rfl, fun j snap called => ?_, fun emptied => emptied.2,
    fun _ _ d now => ⟨d, now, rfl⟩⟩
  by_cases same : j = i
  · subst same
    exact absurd ((Function.update_self j _ _).symm.trans called) (other snap)
  · exact (Function.update_of_ne same _ _).symm.trans called

theorem quiet_unregister : Quiet (gates p) (gates (p.unregister k e)) := by
  unfold Pool.unregister
  split
  · rename_i entry
    refine ⟨rfl, rfl, fun _ _ => id, fun emptied => ?_, fun _ _ d now => ⟨d, now, rfl⟩⟩
    cases (emptied.2 k).symm.trans entry
  · exact Quiet.refl _

theorem quiet_register (open_ : p.closing = false) : Quiet (gates p) (gates (p.register k c)) :=
  ⟨rfl, rfl, fun _ _ => id, fun emptied => (by cases open_.symm.trans emptied.1),
    fun _ _ d now => ⟨d, now, rfl⟩⟩

theorem quiet_drop : Quiet (gates p) (gates (p.drop i t e)) := by
  have removed : Quiet (gates p) (gates ((p.unregister t.key e).unlink e .closed)) :=
    quiet_unregister
  unfold Pool.drop
  simp only
  split
  · exact removed.trans (quiet_setCall nofun)
  · exact removed.trans
      (quiet_setCall (p := ((p.unregister t.key e).unlink e .closed).setLock e none) nofun)

theorem quiet_leave : Quiet (gates p) (gates (p.leave i e)) :=
  quiet_setCall (p := p.setLock e none) nofun

theorem quiet_start : Quiet (gates p) (gates (p.start i t e)) := by
  unfold Pool.start
  split
  · exact quiet_setCall (p := p.setState e .inTurn) nofun
  · exact quiet_drop

theorem quiet_finish : Quiet (gates p) (gates (p.finish i t e)) := by
  unfold Pool.finish
  split
  · exact quiet_leave
  · exact quiet_drop

theorem quiet_returned {sid : Bool} : Quiet (gates p) (gates (p.returned i t e sid)) := by
  unfold Pool.returned
  split
  · exact quiet_setCall nofun
  · exact quiet_finish

theorem quiet_retry : Quiet (gates p) (gates (p.retry i t)) := by
  unfold Pool.retry
  split <;> exact quiet_setCall nofun

theorem quiet_entryStub : Quiet (gates p) (gates (p.entryStub i t)) := by
  unfold Pool.entryStub
  split
  · exact quiet_setCall (by rintro u ⟨⟩)
  rename_i open_
  split
  · exact quiet_setCall (by rintro u ⟨⟩)
  split
  · exact quiet_setCall (by rintro u ⟨⟩)
  · have registered := quiet_register (p := p.make t.key p.next false) (k := t.key) (c := p.next)
      (Bool.eq_false_iff.mpr open_)
    exact registered.trans (quiet_setCall (by rintro u ⟨⟩))

theorem quiet_acquire {resume same : Bool} :
    Quiet (gates p) (gates (p.acquire i t e resume same)) := by
  unfold Pool.acquire
  split
  · exact Quiet.refl _
  split
  · exact quiet_retry
  split
  · unfold Pool.decide_
    simp only
    split
    · exact quiet_setCall (p := p.setLock e (some (.call i))) nofun
    split
    · exact quiet_setCall (p := (p.setLock e (some (.call i))).unlink e .closed) nofun
    · exact quiet_setCall (p := p.setLock e (some (.call i))) nofun
  · exact quiet_unregister.trans quiet_retry

theorem quiet_disconnected {a : Answer} : Quiet (gates p) (gates (p.disconnected c a)) := by
  unfold Pool.disconnected
  split <;> exact Quiet.refl _

theorem quiet_publish {resume : Bool} (open_ : p.closing = false) :
    Quiet (gates p) (gates (p.publish i t c resume)) := by
  have registered := quiet_register (p := (p.setState c .warm).setConnected c true) (k := t.key)
    (c := c) open_
  unfold Pool.publish
  simp only
  split
  · exact registered.trans (quiet_setCall nofun)
  · exact registered.trans quiet_start

theorem quiet_advanceHolding {a : Answer} (fits : Fits p t e s a) :
    Quiet (gates p) (gates (p.advanceHolding i t e s a)) := by
  have down (c : ℕ) : Quiet (gates p) (gates (p.disconnected c a)) := quiet_disconnected
  have unlinked {c : ℕ} {place : Place} :
      Quiet (gates p) (gates ((p.unlink c .invalid).goto i t place)) :=
    quiet_setCall (p := p.unlink c .invalid) nofun
  cases s with
  | flushing resume => exact (down e).trans (quiet_setCall nofun)
  | building resume =>
    cases a with
    | ok => exact quiet_setCall (p := p.make t.key (p.lockOf e) true) nofun
    | _ => exact quiet_leave
  | connecting resume c =>
    cases a with
    | ok => exact quiet_publish (fits.2 nofun rfl).1
    | late => exact quiet_setCall (p := (p.unlink c .invalid).setConnected c true) nofun
    | _ => exact unlinked
  | failing c => exact (down c).trans quiet_leave
  | touching =>
    cases a with
    | ok => exact quiet_start
    | _ => exact quiet_leave
  | running =>
    cases a with
    | reply errored retried sid =>
      cases errored with
      | false => exact quiet_returned (p := p.setState e .warm)
      | true => exact unlinked
    | _ => exact unlinked
  | cleaning =>
    cases a with
    | ok => exact quiet_leave (p := p.setState e .warm)
    | _ => exact unlinked
  | breaking exit =>
    cases exit with
    | raises => exact (down e).trans quiet_drop
    | returns sid => exact (down e).trans quiet_returned
  | publishing =>
    cases a with
    | ok => exact quiet_finish
    | _ => exact quiet_drop
  | dropping => exact (down e).trans quiet_leave

theorem quiet_advanceTurn {a : Answer} (fits : ∀ e s, t.place = .holds e s → Fits p t e s a) :
    Quiet (gates p) (gates (p.advanceTurn i t a)) := by
  unfold Pool.advanceTurn
  split
  · exact quiet_entryStub
  · split
    · exact quiet_setCall nofun
    · exact Quiet.refl _
  · split
    · exact quiet_acquire
    · exact Quiet.refl _
  · rename_i e s place
    exact quiet_advanceHolding (fits e s place)

theorem quiet_cancelHolding : Quiet (gates p) (gates (p.cancelHolding i t e s)) := by
  cases s with
  | connecting resume c => exact quiet_setCall (p := p.unlink c .invalid) nofun
  | running => exact quiet_setCall nofun
  | cleaning => exact quiet_setCall (p := p.unlink e .invalid) nofun
  | breaking exit => exact quiet_drop
  | publishing => exact quiet_drop
  | _ => exact quiet_leave

theorem quiet_evict {sweep : Bool} : Quiet (gates p) (gates (p.evict k sweep)) := by
  unfold Pool.evict
  split
  · exact Quiet.refl _
  · rename_i e entry
    split
    · exact Quiet.refl _
    · rw [Pool.unregister, if_pos entry]
      refine ⟨rfl, rfl, fun _ _ => id, fun emptied => ?_, fun emptied => ?_⟩ <;>
        cases (emptied.2 k).symm.trans entry

theorem quiet_pop {mark : ℕ} : Quiet (gates p) (gates (p.pop i k mark)) := by
  unfold Pool.pop
  split
  · exact Quiet.refl _
  split
  · refine quiet_setCall ?_
    rintro snap ⟨⟩
  · rename_i e entry
    have took : Quiet (gates p)
        (gates ((p.unregister k e).setTaken e (some ⟨.reset, .waiting⟩))) := by
      rw [Pool.unregister, if_pos entry]
      refine ⟨rfl, rfl, fun _ _ => id, fun emptied => ?_, fun emptied => ?_⟩ <;>
        cases (emptied.2 k).symm.trans entry
    refine took.trans (quiet_setCall ?_)
    rintro snap ⟨⟩

theorem quiet_setTaken {d : Closer} {new : Option Closer} (taken : p.taken e = some d)
    (same : ∀ d', new = some d' → d.remover = d'.remover) :
    Quiet (gates p) (gates (p.setTaken e new)) := by
  refine ⟨rfl, rfl, fun _ _ => id, fun emptied => emptied.2, fun _ e' d' now => ?_⟩
  by_cases here : e' = e
  · subst here
    have now : new = some d' := (Function.update_self e' _ _).symm.trans now
    exact ⟨d, taken, same d' now⟩
  · exact ⟨d', (Function.update_of_ne here _ _).symm.trans now, rfl⟩

theorem quiet_gone : Quiet (gates p) (gates (p.setTaken e none)) := by
  refine ⟨rfl, rfl, fun _ _ => id, fun emptied => emptied.2, fun _ e' d now => ?_⟩
  by_cases here : e' = e
  · subst here
    cases (Function.update_self e' _ _).symm.trans now
  · exact ⟨d, (Function.update_of_ne here _ _).symm.trans now, rfl⟩

theorem quiet_releaseBarrier : Quiet (gates p) (gates (p.releaseBarrier e)) := by
  unfold Pool.releaseBarrier
  split <;> exact Quiet.refl _

theorem quiet_close {ok : Bool} : Quiet (gates p) (gates (p.close e ok)) := by
  have down {q : Pool} (a : Answer) : Quiet (gates q) (gates (q.disconnected e a)) :=
    quiet_disconnected
  unfold Pool.close
  simp only
  split
  · exact Quiet.refl _
  · rename_i r taken
    split
    · have start : Quiet (gates p) (gates (if r = .worker then p.releaseBarrier e else p)) := by
        split
        · exact quiet_releaseBarrier
        · exact Quiet.refl _
      have same : (if r = .worker then p.releaseBarrier e else p).taken e = some ⟨r, .waiting⟩ := by
        split
        · unfold Pool.releaseBarrier
          split <;> exact taken
        · exact taken
      unfold Pool.closeLocked
      simp only
      split
      · refine start.trans (quiet_setTaken
          (p := (Pool.unlink _ e .closed).setLock e (some (.closer e))) same ?_)
        rintro d ⟨⟩
        rfl
      · exact start.trans (quiet_gone (p := Pool.unlink _ e .closed))
    · exact Quiet.refl _
  · exact (down _).trans (quiet_gone (p := (p.disconnected e _).setLock e none))
  · exact (down _).trans quiet_gone

theorem quiet_force : Quiet (gates p) (gates (p.force e)) := by
  unfold Pool.force
  split
  · rename_i taken
    split
    · refine quiet_setTaken (p := p.unlink e .closed) taken ?_
      rintro d ⟨⟩
      rfl
    · exact quiet_gone (p := p.unlink e .closed)
  · exact Quiet.refl _

theorem quiet_abandon : Quiet (gates p) (gates (p.abandon e)) := by
  unfold Pool.abandon
  split
  · exact quiet_gone (p := p.setLock e none)
  · exact quiet_gone

theorem quiet_abandonDrains {snap : ℕ → Bool} :
    Quiet (gates p) (gates (p.abandonDrains snap)) := by
  refine ⟨rfl, rfl, fun _ _ => id, fun emptied => emptied.2, fun _ e d now => ⟨d, ?_, rfl⟩⟩
  change (if snap e && p.takenBy e .drain then none else p.taken e) = some d at now
  split at now
  · cases now
  · exact now

theorem quiet_begin {new : Call} (other : ∀ snap, new ≠ .aclose snap) :
    Quiet (gates p) (gates (p.begin_ new)) :=
  quiet_setCall (p := { p with nextCall := p.nextCall + 1 })
    fun snap same => other snap (Option.some.inj same)

theorem unregistered (emptied : (gates p).Emptied) (e : ℕ) : p.registered e = false := by
  unfold Pool.registered
  rw [show p.entries (p.keyOf e) = none from emptied.2 _]
  rfl

theorem quiet_invalidateAll : Quiet (gates p) (gates p.invalidateAll) := by
  unfold Pool.invalidateAll
  refine Quiet.trans ?_ (quiet_begin nofun)
  refine ⟨rfl, rfl, fun _ _ => id, fun _ _ => rfl, fun emptied e d now => ⟨d, ?_, rfl⟩⟩
  change (if p.registered e then some ⟨.worker, .waiting⟩ else p.taken e) = some d at now
  rwa [unregistered emptied e] at now

structure Ends (p : Gates) : Prop where
  empty : p.closing = true → ∀ k, p.entries k = none
  workers : ∀ i snap, p.calls i = some (.aclose snap) → p.closing = true ∧
    ∀ e d, p.taken e = some d → d.remover = .worker → snap e = true
  done : p.shut = true → p.closing = true ∧
    ∀ e d, p.taken e = some d → d.remover = .eviction false

theorem Ends.quiet {p q : Gates} (h : Ends p) (quiet : Quiet p q) : Ends q := by
  have emptied (closing : p.closing = true) : p.Emptied := ⟨closing, h.empty closing⟩
  refine ⟨fun closing => quiet.empty (emptied (quiet.closing.symm.trans closing)),
    fun i snap called => ?_, fun shut => ?_⟩
  · obtain ⟨closing, covered⟩ := h.workers i snap (quiet.acloses i snap called)
    refine ⟨quiet.closing.trans closing, fun e d now worker => ?_⟩
    obtain ⟨d', before, same⟩ := quiet.taken (emptied closing) e d now
    exact covered e d' before (same.trans worker)
  · obtain ⟨closing, rest⟩ := h.done (quiet.shut.symm.trans shut)
    refine ⟨quiet.closing.trans closing, fun e d now => ?_⟩
    obtain ⟨d', before, same⟩ := quiet.taken (emptied closing) e d now
    exact same.symm.trans (rest e d' before)

theorem ends_aclose (h : Ends (gates p)) : Ends (gates p.aclose) := by
  have now {e : ℕ} {d : Closer} (taken : p.aclose.taken e = some d) :
      d.remover = .drain ∧ p.registered e = true ∨ p.registered e = false ∧ p.taken e = some d := by
    change (if p.registered e then some ⟨.drain, .waiting⟩
      else if p.taken e = some ⟨.eviction true, .waiting⟩ then none
      else p.taken e) = some d at taken
    split at taken
    · rename_i registered
      cases taken
      exact .inl ⟨rfl, registered⟩
    · rename_i registered
      split at taken
      · cases taken
      · exact .inr ⟨Bool.eq_false_iff.mpr registered, taken⟩
  refine ⟨fun _ _ => rfl, fun i snap called => ⟨rfl, fun e d taken worker => ?_⟩,
    fun shut => ⟨rfl, fun e d taken => ?_⟩⟩
  · rcases now taken with ⟨drain, -⟩ | ⟨-, before⟩
    · cases worker.symm.trans drain
    by_cases same : i = p.nextCall
    · subst same
      cases (Function.update_self p.nextCall _ _).symm.trans called
      simp [Pool.takenBy, before, worker]
    · have called : p.calls i = some (.aclose snap) :=
        (Function.update_of_ne same _ _).symm.trans called
      exact (h.workers i snap called).2 e d before worker
  · obtain ⟨closing, rest⟩ := h.done shut
    rcases now taken with ⟨-, registered⟩ | ⟨-, before⟩
    · cases (unregistered ⟨closing, h.empty closing⟩ e).symm.trans registered
    · exact rest e d before

theorem ends_return {snap : ℕ → Bool} (h : Ends (gates p)) (ord : Orderly False none p)
    (called : p.calls i = some (.aclose snap)) (finished : p.finished snap = true)
    (others : ∀ e d, snap e = false → p.taken e = some d →
      d.remover = .worker ∨ d.remover = .eviction false) :
    Ends (gates { p.setCall i none with shut := true }) := by
  have calm : Ends (gates (p.setCall i none)) := h.quiet (quiet_setCall nofun)
  obtain ⟨closing, covered⟩ := h.workers i snap called
  refine ⟨calm.empty, calm.workers, fun _ => ⟨closing, fun e d taken => ?_⟩⟩
  have taken : p.taken e = some d := taken
  have made := ord.takenMade e d taken
  rw [Pool.finished, List.all_eq_true] at finished
  have closed := finished e (List.mem_range.mpr made)
  cases inside : snap e with
  | true => simp [inside, taken] at closed
  | false =>
    rcases others e d inside taken with worker | eviction
    · cases inside.symm.trans (covered e d taken worker)
    · exact eviction

end Shutdown

section Runs

def waits (p : Pool) (e : ℕ) : Bool := (p.taken e).all fun d => decide (d.phase = .waiting)

def evicted (p : Pool) (e : ℕ) : Bool :=
  (p.taken e).any fun d => decide (d.remover = .eviction false ∨ d.remover = .eviction true)

def succeeds : Label → Pool → Bool
  | .advance i a, p =>
    match p.calls i with
    | some (.turn t) =>
      match t.place with
      | .holds e s => (cuts e s).isNone || decide (a ≠ .fail)
      | _ => true
    | _ => true
  | .cancel i, p =>
    match p.calls i with
    | some (.turn t) =>
      match t.place with
      | .holds e s => (cuts e s).isNone
      | _ => true
    | some (.closeKey _ _ (some e)) => !p.takenBy e .reset || waits p e
    | some (.aclose snap) =>
      (List.range p.next).all fun e => !(snap e && p.takenBy e .drain) || waits p e
    | _ => true
  | .close _ ok, _ => ok
  | .abandon e, p => !evicted p e || waits p e
  | _, _ => true

/-- No client is published over a connected one or into a pool that is closing, no closer of a
connected client is cancelled, and `aclose` returns after every other closer but the evictions of
turns. -/
def careful : Label → Pool → Bool
  | .advance i a, p =>
    match p.calls i with
    | some (.turn t) =>
      match t.place with
      | .holds _ s => (connects s).isNone || decide (a ≠ .ok) ||
          (!p.closing && (p.entries t.key).all fun e => !p.connected e)
      | _ => true
    | some (.aclose snap) => !p.finished snap || (List.range p.next).all fun e => snap e ||
        (p.taken e).all fun d => decide (d.remover = .worker ∨ d.remover = .eviction false)
    | _ => true
  | .cancel i, p =>
    match p.calls i with
    | some (.closeKey _ _ (some e)) => !p.takenBy e .reset || !p.connected e
    | some (.aclose snap) =>
      (List.range p.next).all fun e => !(snap e && p.takenBy e .drain) || !p.connected e
    | _ => true
  | .aclose, p => (List.range p.next).all fun e =>
      decide (p.taken e ≠ some ⟨.eviction true, .waiting⟩) || !p.connected e
  | .abandon e, p => !evicted p e || !p.connected e
  | _, _ => true

structure Kept (p : Pool) : Prop where
  orderly : Orderly False none p
  owned : Owned none none p
  ends : Ends (gates p)

theorem kept_empty : Kept Pool.empty where
  orderly := orderly_empty
  owned c _ := by
    refine ⟨nofun, nofun, fun _ => rfl, nofun, ?_⟩
    rintro j - ⟨t, e, s, called, -⟩
    cases called
  ends := ⟨nofun, nofun, nofun⟩

theorem fits_of {a : Answer} (called : p.calls i = some (.turn t))
    (ok : succeeds (.advance i a) p = true) (ok' : careful (.advance i a) p = true) (e : ℕ)
    (s : Stage) (place : t.place = .holds e s) : Fits p t e s a := by
  simp only [succeeds, called, place, Bool.or_eq_true, Option.isNone_iff_eq_none,
    decide_eq_true_iff] at ok
  simp only [careful, called, place, Bool.or_eq_true, Option.isNone_iff_eq_none,
    decide_eq_true_iff, Bool.and_eq_true, Bool.not_eq_true', Option.all_eq_true] at ok'
  refine ⟨fun cut => ok.resolve_left cut, fun connect up => ?_⟩
  rcases ok' with (none_ | other) | rest
  · exact absurd none_ connect
  · exact absurd up other
  · exact rest

theorem kept_advance {a : Answer} (h : Kept p) (ok : succeeds (.advance i a) p = true)
    (ok' : careful (.advance i a) p = true) :
    Owned none none (p.advance i a) ∧ Ends (gates (p.advance i a)) := by
  have other {c : Call} (called : p.calls i = some c) (no : ∀ t, c ≠ .turn t) (t : Turn) :
      p.calls i ≠ some (.turn t) := by
    rw [called]
    exact fun same => no t (Option.some.inj same)
  unfold Pool.advance
  split
  · exact ⟨h.owned, h.ends⟩
  · rename_i t called
    have fits := fits_of called ok ok'
    exact ⟨owned_advanceTurn h.owned h.orderly called fits, h.ends.quiet (quiet_advanceTurn fits)⟩
  · rename_i k mark called
    exact ⟨owned_pop h.owned h.orderly called, h.ends.quiet quiet_pop⟩
  · rename_i k mark e called
    split
    · exact ⟨owned_idle (h.owned.call (other called nofun)) nofun,
        h.ends.quiet (quiet_setCall nofun)⟩
    · exact ⟨h.owned, h.ends⟩
  · rename_i mark snap called
    split
    · exact ⟨owned_idle (h.owned.call (other called nofun)) nofun,
        h.ends.quiet (quiet_setCall nofun)⟩
    · exact ⟨h.owned, h.ends⟩
  · rename_i snap called
    split
    · rename_i finished
      refine ⟨owned_idle (h.owned.call (other called nofun)) nofun,
        ends_return h.ends h.orderly called finished fun e d outside taken => ?_⟩
      simp only [careful, called, finished, Bool.not_true, Bool.false_or, List.all_eq_true,
        List.mem_range, Bool.or_eq_true, Option.all_eq_true, decide_eq_true_iff] at ok'
      rcases ok' e (h.orderly.takenMade e d taken) with inside | rest
      · cases outside.symm.trans inside
      · exact rest d taken
    · exact ⟨h.owned, h.ends⟩

theorem kept_cancel (h : Kept p) (ok : succeeds (.cancel i) p = true)
    (ok' : careful (.cancel i) p = true) :
    Owned none none (p.cancel i) ∧ Ends (gates (p.cancel i)) := by
  have made {e : ℕ} {r : Remover} (taken : p.takenBy e r = true) : e < p.next := by
    unfold Pool.takenBy at taken
    cases closer : p.taken e with
    | none =>
      rw [closer] at taken
      cases taken
    | some d => exact h.orderly.takenMade e d closer
  unfold Pool.cancel
  split
  · exact ⟨h.owned, h.ends⟩
  · rename_i t called
    split
    · rename_i e s place
      simp only [succeeds, called, place, Option.isNone_iff_eq_none] at ok
      exact ⟨owned_cancelHolding h.owned h.orderly called place ok,
        h.ends.quiet quiet_cancelHolding⟩
    · rename_i away
      refine ⟨owned_idle (h.owned.turn called fun e s place => ?_) nofun,
        h.ends.quiet (quiet_setCall nofun)⟩
      exact absurd place (away e s)
  · rename_i k mark called
    exact ⟨owned_idle (h.owned.call (by rw [called]; exact nofun)) nofun,
      h.ends.quiet (quiet_setCall nofun)⟩
  · rename_i k mark e called
    simp only [careful, called, Bool.or_eq_true, Bool.not_eq_true'] at ok'
    have moved : Owned none none (if p.takenBy e .reset then p.abandon e else p) := by
      split
      · rename_i mine
        refine owned_abandon h.owned (ok'.resolve_left fun no => ?_)
        cases no.symm.trans mine
      · exact h.owned
    have quiet : Quiet (gates p) (gates (if p.takenBy e .reset then p.abandon e else p)) := by
      split
      · exact quiet_abandon
      · exact Quiet.refl _
    refine ⟨owned_idle (moved.call fun t => ?_) nofun,
      h.ends.quiet (quiet.trans (quiet_setCall nofun))⟩
    have same : (if p.takenBy e .reset then p.abandon e else p).calls = p.calls := by
      split
      · unfold Pool.abandon
        split <;> rfl
      · rfl
    rw [same, called]
    exact nofun
  · rename_i mark snap called
    exact ⟨owned_idle (h.owned.call (by rw [called]; exact nofun)) nofun,
      h.ends.quiet (quiet_setCall nofun)⟩
  · rename_i snap called
    simp only [careful, called, List.all_eq_true, List.mem_range, Bool.or_eq_true,
      Bool.not_eq_true'] at ok'
    have off (e : ℕ) (gone : (snap e && p.takenBy e .drain) = true) : p.connected e = false := by
      have mine : p.takenBy e .drain = true := ((Bool.and_eq_true _ _).mp gone).2
      refine (ok' e (made mine)).resolve_left fun no => ?_
      cases no.symm.trans gone
    have moved := owned_abandonDrains h.owned off
    refine ⟨owned_idle (moved.call ?_) nofun,
      h.ends.quiet (quiet_abandonDrains.trans (quiet_setCall nofun))⟩
    intro t
    change p.calls i ≠ _
    rw [called]
    exact nofun

theorem kept_step {l : Label} (h : Kept p) (ok : succeeds l p = true) (ok' : careful l p = true) :
    Kept (step l p) := by
  have orderly := orderly_step (l := l) h.orderly nofun
  have absent : p.calls p.nextCall = none := h.orderly.idle _ (Nat.le_refl _)
  suffices Owned none none (step l p) ∧ Ends (gates (step l p)) from ⟨orderly, this.1, this.2⟩
  cases l with
  | turn key =>
    refine ⟨owned_begin h.owned absent ?_, h.ends.quiet (quiet_begin nofun)⟩
    rintro t ⟨⟩
    rfl
  | closeKey key => exact ⟨owned_begin h.owned absent nofun, h.ends.quiet (quiet_begin nofun)⟩
  | invalidateAll =>
    exact ⟨owned_invalidateAll h.owned h.orderly, h.ends.quiet quiet_invalidateAll⟩
  | aclose =>
    refine ⟨owned_aclose h.owned h.orderly fun e swept => ?_, ends_aclose h.ends⟩
    simp only [careful, List.all_eq_true, List.mem_range, Bool.or_eq_true, decide_eq_true_iff,
      Bool.not_eq_true'] at ok'
    exact (ok' e (h.orderly.takenMade e _ swept)).resolve_left fun other => other swept
  | evict key sweep => exact ⟨owned_evict h.owned h.orderly, h.ends.quiet quiet_evict⟩
  | advance i a => exact kept_advance h ok ok'
  | cancel i => exact kept_cancel h ok ok'
  | close e alive =>
    have alive : alive = true := ok
    subst alive
    exact ⟨owned_close h.owned h.orderly, h.ends.quiet quiet_close⟩
  | force e => exact ⟨owned_force h.owned h.orderly, h.ends.quiet quiet_force⟩
  | abandon e =>
    simp only [careful, Bool.or_eq_true, Bool.not_eq_true'] at ok'
    simp only [step]
    unfold Pool.abandonEviction
    split
    · rename_i sweep phase taken
      refine ⟨owned_abandon h.owned (ok'.resolve_left fun no => ?_), h.ends.quiet quiet_abandon⟩
      simp only [evicted, taken, Option.any_some, decide_eq_false_iff_not] at no
      cases sweep
      · exact no (.inl rfl)
      · exact no (.inr rfl)
    · exact ⟨h.owned, h.ends⟩

/-- A connected client is the entry of its key, or a closer has it, or a turn in progress holds
it. -/
def HasOwner (p : Pool) (c : ℕ) : Prop :=
  p.entries (p.keyOf c) = some c ∨ p.taken c ≠ none ∨
    ∃ j, At p.calls j fun e s => c = e ∨ freshOf s = some c

def TurnsEnded (p : Pool) : Prop :=
  (∀ i t, p.calls i ≠ some (.turn t)) ∧ ∀ e, p.takenBy e (.eviction false) = false

/-- No client is orphaned in a run of careful steps, and none is left when an `aclose` has returned
and every turn has ended. -/
theorem no_orphans {ls : List Label} (run : Runs step
    (fun l p => (succeeds l p && careful l p) = true) Pool.empty ls p) :
    (∀ c, p.connected c = true → HasOwner p c) ∧
      (p.shut = true → TurnsEnded p → ∀ c, p.connected c = false) := by
  have kept := run.invariant (I := Kept) (fun l p ok h => by
    rw [Bool.and_eq_true] at ok
    exact kept_step h ok.1 ok.2) kept_empty
  constructor
  · intro c up
    refine ((kept.owned c nofun).owner up).imp_right fun rest => rest.imp_right ?_
    rintro ⟨j, -, t, e, s, called, place, cut⟩
    exact ⟨j, t, e, s, called, place, cuts_mine cut⟩
  · intro shut ended c
    obtain ⟨closing, rest⟩ := kept.ends.done shut
    rw [Bool.eq_false_iff]
    intro up
    rcases (kept.owned c nofun).owner up with entry | taken | ⟨j, -, t, e, s, called, -⟩
    · cases (kept.ends.empty closing _).symm.trans entry
    · obtain ⟨d, closer⟩ := Option.ne_none_iff_exists'.mp taken
      have closer : p.taken c = some d := closer
      have no := ended.2 c
      rw [Pool.takenBy, closer, Option.any_some, rest c d closer] at no
      cases no
    · exact ended.1 j t called

def quietShutdown : List Label :=
  coldTurn 0 "k" ++ [.advance 0 (.reply false false false), .aclose, .close 1 true, .close 1 true,
    .advance 1 .ok]

theorem orderly_run {allowed : Label → Pool → Prop} {ls : List Label}
    (run : Runs step allowed Pool.empty ls p) : Orderly False none p :=
  run.invariant (I := Orderly False none) (fun _ _ _ h => orderly_step h nofun) orderly_empty

theorem turnsEnded_of (ord : Orderly False none p) (calls : ∀ i < p.nextCall, p.calls i = none)
    (taken : ∀ e < p.next, p.taken e = none) : TurnsEnded p := by
  constructor
  · intro i t called
    cases (calls i (ord.owned called)).symm.trans called
  · intro e
    unfold Pool.takenBy
    cases closer : p.taken e with
    | none => rfl
    | some d => cases (taken e (ord.takenMade e d closer)).symm.trans closer

theorem no_orphans_runs : ∃ p, Runs step (fun l p => (succeeds l p && careful l p) = true)
    Pool.empty quietShutdown p ∧ p.shut = true ∧ ∀ c, p.connected c = false := by
  have legal : Legal step (fun l p => (succeeds l p && careful l p) = true) Pool.empty
      quietShutdown := by
    decide +kernel
  refine ⟨_, legal.runs, rfl, (no_orphans legal.runs).2 rfl ?_⟩
  refine turnsEnded_of (orderly_run legal.runs) ?_ ?_
  · decide +kernel
  · decide +kernel

/-- A shutdown while a client is being connected: it is published after the map was emptied. -/
def shutdownInConnect : List Label :=
  (coldTurn 0 "k").take 4 ++ [.aclose, .advance 0 .ok, .advance 0 (.reply false false false),
    .close 0 true, .advance 1 .ok]

/-- A reset while a client is being connected, and the next turn of the key: the first client is
published over the second one. -/
def resetInConnect : List Label :=
  (coldTurn 0 "k").take 4 ++ [.closeKey "k", .advance 1 .ok] ++ coldTurn 2 "k" ++
    [.advance 2 (.reply false false false), .advance 0 .ok]

theorem clients_orphaned :
    (∃ p, Runs step (fun l p => succeeds l p = true) Pool.empty shutdownInConnect p ∧
      p.shut = true ∧ TurnsEnded p ∧ p.connected 1 = true) ∧
    ∃ p, Runs step (fun l p => succeeds l p = true) Pool.empty resetInConnect p ∧
      p.connected 3 = true ∧ ¬ HasOwner p 3 := by
  have first : Legal step (fun l p => succeeds l p = true) Pool.empty shutdownInConnect := by
    decide +kernel
  have second : Legal step (fun l p => succeeds l p = true) Pool.empty resetInConnect := by
    decide +kernel
  refine ⟨⟨_, first.runs, rfl, turnsEnded_of (orderly_run first.runs) ?_ ?_, rfl⟩, _, second.runs,
    rfl, ?_⟩
  · decide +kernel
  · decide +kernel
  · rintro (entry | taken | ⟨j, at_⟩)
    · exact absurd entry (by decide +kernel)
    · exact absurd rfl taken
    · have ord := orderly_run second.runs
      obtain ⟨t, e, s, called, place, mine⟩ := at_
      have made : j < 3 := ord.owned called
      rcases j with _ | _ | _ | j
      · have here : some (Call.turn ⟨"k", false, .holds 1 .running, 0, 0⟩) = some (.turn t) :=
          called
        cases here
        cases place
        rcases mine with mine | mine <;> cases mine
      · have here : some (Call.closeKey "k" 1 (some 0)) = some (.turn t) := called
        cases here
      · have here : none = some (Call.turn t) := called
        cases here
      · omega

end Runs

end Casa.ClientShutdown
