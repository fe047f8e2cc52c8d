import Mathlib.Data.List.Nodup
import Mathlib.Logic.Function.Basic

/-! A cooperative lock whose waiters queue with a future each (`asyncio.Lock`). A release wakes
the head of the queue, and the lock stays free until that task runs; a newcomer passes the queue
only when everybody in it has been cancelled. -/

namespace Casa.AsyncLock

/-- The future a suspended task waits for. -/
inductive Fut where
  | pending
  | woken
  | cancelled
deriving DecidableEq, Repr

variable {I : Type}

/-- The waiters are tasks; a task waits for one future at a time. -/
structure Lock (I : Type) where
  locked : Bool := false
  waiters : List I := []
deriving DecidableEq

namespace Lock
variable (l : Lock I) (futs : I → Fut)

/-- The test of `acquire` that lets it pass without waiting. -/
def isFree : Bool := !l.locked && l.waiters.all fun t => futs t = .cancelled

variable [DecidableEq I]

/-- `_wake_up_first`. -/
def wakeFirst : I → Fut :=
  match l.waiters.head? with
  | none => futs
  | some t => if futs t = .pending then Function.update futs t .woken else futs

def unlocked : Lock I := { l with locked := false }

def taken : Lock I := { l with locked := true }

def queue (t : I) : Lock I := { l with waiters := l.waiters ++ [t] }

/-- A woken waiter takes the lock. -/
def granted (t : I) : Lock I := ⟨true, l.waiters.erase t⟩

def without (t : I) : Lock I := { l with waiters := l.waiters.erase t }

/-- A cancelled waiter passes the wakeup on if the lock is free. -/
def refusedFuts (t : I) : I → Fut :=
  if l.locked then futs else (l.without t).wakeFirst futs

end Lock

/-- Nobody waits twice, and only the head of the queue of a free lock is woken. -/
structure Orderly (futs : I → Fut) (l : Lock I) : Prop where
  nodup : l.waiters.Nodup
  woken : ∀ t ∈ l.waiters, futs t = .woken → l.locked = false ∧ l.waiters.head? = some t

variable {l : Lock I} {futs futs' : I → Fut}

theorem orderly_new : Orderly futs ({} : Lock I) := ⟨List.nodup_nil, nofun⟩

/-- Only the futures of its own waiters matter. -/
theorem Orderly.congr (h : Orderly futs l) (same : ∀ t ∈ l.waiters, futs' t = futs t) :
    Orderly futs' l :=
  ⟨h.nodup, fun t mem woken => h.woken t mem ((same t mem).symm.trans woken)⟩

/-- A free lock has no woken waiter. -/
theorem Orderly.taken (h : Orderly futs l) (free : l.isFree futs = true) :
    Orderly futs l.taken := by
  refine ⟨h.nodup, fun t mem woken => ?_⟩
  have cancelled := List.all_eq_true.mp (Bool.and_eq_true_iff.mp free).2 t mem
  rw [decide_eq_true_eq, woken] at cancelled
  cases cancelled

theorem unlocked_of_isFree (free : l.isFree futs = true) : l.locked = false := by
  simpa using (Bool.and_eq_true_iff.mp free).1

variable [DecidableEq I]

theorem wakeFirst_of_not_mem {t : I} (out : t ∉ l.waiters) : l.wakeFirst futs t = futs t := by
  unfold Lock.wakeFirst
  cases head : l.waiters.head? with
  | none => rfl
  | some u =>
    have other : t ≠ u := by
      rintro rfl
      exact out (List.mem_of_mem_head? head)
    dsimp only
    split
    · rw [Function.update_of_ne other]
    · rfl

/-- Who is woken now was woken before, or is the head. -/
theorem wakeFirst_woken {t : I} (woken : l.wakeFirst futs t = .woken) :
    futs t = .woken ∨ l.waiters.head? = some t := by
  unfold Lock.wakeFirst at woken
  cases head : l.waiters.head? with
  | none =>
    rw [head] at woken
    exact .inl woken
  | some u =>
    by_cases same : t = u
    · exact .inr (congrArg some same.symm)
    · rw [head] at woken
      dsimp only at woken
      split at woken
      · rw [Function.update_of_ne same] at woken
        exact .inl woken
      · exact .inl woken

/-- No future becomes pending. -/
theorem wakeFirst_pending {t : I} (pending : l.wakeFirst futs t = .pending) :
    futs t = .pending := by
  unfold Lock.wakeFirst at pending
  cases head : l.waiters.head? with
  | none =>
    rw [head] at pending
    exact pending
  | some u =>
    rw [head] at pending
    dsimp only at pending
    split at pending
    · by_cases same : t = u
      · rw [same, Function.update_self] at pending
        cases pending
      · rwa [Function.update_of_ne same] at pending
    · exact pending

theorem refusedFuts_pending {t u : I} (pending : l.refusedFuts futs t u = .pending) :
    futs u = .pending := by
  unfold Lock.refusedFuts at pending
  split at pending
  · exact pending
  · exact wakeFirst_pending pending

theorem refusedFuts_of_not_mem {t u : I} (out : u ∉ l.waiters) :
    l.refusedFuts futs t u = futs u := by
  unfold Lock.refusedFuts
  split
  · rfl
  · exact wakeFirst_of_not_mem fun mem => out (List.mem_of_mem_erase mem)

theorem Orderly.cancel (h : Orderly futs l) (t : I) :
    Orderly (Function.update futs t .cancelled) l := by
  refine ⟨h.nodup, fun u mem woken => h.woken u mem ?_⟩
  by_cases same : u = t
  · rw [same, Function.update_self] at woken
    cases woken
  · rwa [Function.update_of_ne same] at woken

theorem Orderly.wakeFirst (h : Orderly futs l) (free : l.locked = false) :
    Orderly (l.wakeFirst futs) l := by
  refine ⟨h.nodup, fun t mem woken => ⟨free, ?_⟩⟩
  rcases wakeFirst_woken woken with old | head
  · exact (h.woken t mem old).2
  · exact head

/-- A taken lock has no woken waiter, so its release may wake one. -/
theorem Orderly.release (h : Orderly futs l) (held : l.locked = true) :
    Orderly (l.wakeFirst futs) l.unlocked := by
  refine ⟨h.nodup, fun t mem woken => ⟨rfl, ?_⟩⟩
  rcases wakeFirst_woken woken with old | head
  · exact absurd ((h.woken t mem old).1.symm.trans held) (by decide)
  · exact head

theorem Orderly.queue (h : Orderly futs l) {t : I} (out : t ∉ l.waiters) :
    Orderly (Function.update futs t .pending) (l.queue t) := by
  refine ⟨List.nodup_append.mpr ⟨h.nodup, List.nodup_singleton t, ?_⟩, fun u mem woken => ?_⟩
  · intro a mem b mem' same
    rw [List.mem_singleton] at mem'
    exact out (mem' ▸ same ▸ mem)
  · have other : u ≠ t := by
      rintro rfl
      rw [Function.update_self] at woken
      cases woken
    rw [Function.update_of_ne other] at woken
    have old : u ∈ l.waiters := by
      rcases List.mem_append.mp mem with old | new
      · exact old
      · exact absurd (List.mem_singleton.mp new) other
    obtain ⟨free, head⟩ := h.woken u old woken
    refine ⟨free, ?_⟩
    rw [Lock.queue, List.head?_append, head]
    rfl

/-- The head that was woken is the only one. -/
theorem Orderly.granted (h : Orderly futs l) {t : I} (mem : t ∈ l.waiters)
    (woken : futs t = .woken) : Orderly futs (l.granted t) ∧ l.locked = false := by
  obtain ⟨free, head⟩ := h.woken t mem woken
  refine ⟨⟨h.nodup.erase t, fun u left again => ?_⟩, free⟩
  obtain ⟨other, old⟩ := (List.Nodup.mem_erase_iff h.nodup).mp left
  exact absurd (Option.some.inj ((h.woken u old again).2.symm.trans head)) other

theorem head?_erase_of_ne {t u : I} {ts : List I} (head : ts.head? = some u) (ne : u ≠ t) :
    (ts.erase t).head? = some u := by
  cases ts with
  | nil => cases head
  | cons a rest =>
    obtain rfl := Option.some.inj head
    rw [List.erase_cons_tail (by simpa using ne)]
    rfl

/-- A waiter that gives up leaves the queue in order. -/
theorem Orderly.without (h : Orderly futs l) (t : I) : Orderly futs (l.without t) := by
  refine ⟨h.nodup.erase t, fun u left woken => ?_⟩
  obtain ⟨other, old⟩ := (List.Nodup.mem_erase_iff h.nodup).mp left
  obtain ⟨free, head⟩ := h.woken u old woken
  exact ⟨free, head?_erase_of_ne head other⟩

theorem Orderly.refused (h : Orderly futs l) (t : I) :
    Orderly (l.refusedFuts futs t) (l.without t) := by
  unfold Lock.refusedFuts
  split
  · exact h.without t
  · next free => exact (h.without t).wakeFirst (Bool.eq_false_iff.mpr free)

end Casa.AsyncLock
