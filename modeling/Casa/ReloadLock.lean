import Mathlib.Data.List.Basic
import Mathlib.Data.Int.Notation
import Mathlib.Tactic.Tauto
import Casa.AsyncLock

/-! The locks of `reload.dispatch`: a readers-writer lock built on a condition, and one lock for
each scope key. Any number of calls interleave at their awaits, and each may be cancelled at any
of them. -/

namespace Casa.ReloadLock
open AsyncLock

structure Call where
  scope : String
  role : Option String := none

def Call.lockKey (c : Call) : String :=
  if c.scope = "agent" ∨ c.scope = "triggers" then c.scope ++ ":" ++ c.role.getD "" else c.scope

def Call.full (c : Call) : Prop := c.scope = "full"

instance (c : Call) : Decidable c.full := inferInstanceAs (Decidable (c.scope = "full"))

inductive Ref where
  | condition
  | scope (key : String)
deriving DecidableEq

/-- Where a call stands. `entering`, `reentering` and `leaving` wait for the lock inside the
condition, `waiting` for its notification; `held` are the scope locks, the last taken first. -/
inductive Pc where
  | fresh
  | entering
  | waiting
  | reentering (cancelled : Bool)
  | locking (key : String) (held : List String)
  | running (held : List String)
  | leaving
  | ended
deriving DecidableEq

namespace Pc

@[simp] def held : Pc → List String
  | locking _ held => held
  | running held => held
  | _ => []

@[simp] def stack : Pc → List String
  | locking key held => key :: held
  | running held => held
  | _ => []

/-- The `try` block behind the readers-writer lock. -/
@[simp] def inside : Pc → Bool
  | locking .. => true
  | running _ => true
  | leaving => true
  | _ => false

def inHandler (p : Pc) : Prop := p.held ≠ []

def away : Pc → Prop
  | fresh => True
  | ended => True
  | _ => False

def suspended : Pc → Bool
  | entering => true
  | waiting => true
  | reentering _ => true
  | locking .. => true
  | leaving => true
  | _ => false

end Pc

structure World where
  readers : ℤ := 0
  writer : Bool := false
  locks : Ref → Lock ℕ := fun _ => {}
  condWaiters : List ℕ := []
  pc : ℕ → Pc := fun _ => .fresh
  fut : ℕ → Fut := fun _ => .pending
  mustCancel : ℕ → Bool := fun _ => false

namespace World
variable (w : World) (t : ℕ)

def goes (p : Pc) : World := { w with pc := Function.update w.pc t p }

def setLock (r : Ref) (l : Lock ℕ) : World := { w with locks := Function.update w.locks r l }

def awaits : World := { w with fut := Function.update w.fut t .pending }

/-- `Lock.acquire` up to its first await. -/
def acquire (r : Ref) (suspended : Pc) (taken : World → World) : World :=
  if (w.locks r).isFree w.fut then taken (w.setLock r (w.locks r).taken)
  else ((w.setLock r ((w.locks r).queue t)).awaits t).goes t suspended

def release (r : Ref) : World :=
  { w.setLock r (w.locks r).unlocked with fut := (w.locks r).wakeFirst w.fut }

/-- The rest of `Lock.acquire` after its future is done. -/
def granted (r : Ref) : World := w.setLock r ((w.locks r).granted t)

/-- The rest of `Lock.acquire` after a cancellation. -/
def refused (r : Ref) : World :=
  { w.setLock r ((w.locks r).without t) with fut := (w.locks r).refusedFuts w.fut t }

def notifyAll : World :=
  { w with fut := fun u => if u ∈ w.condWaiters ∧ w.fut u = .pending then .woken else w.fut u }

def ends : World := w.goes t .ended

def delivered : World := { w with mustCancel := Function.update w.mustCancel t false }

def cancelledNow : Bool := w.mustCancel t || w.fut t = .cancelled

end World

variable (calls : ℕ → Call) (handlers : List String)

namespace World
variable (w : World) (t : ℕ)

/-- `Condition.wait` up to its first await. -/
def waitCond : World :=
  let w := w.release .condition
  ({ w with condWaiters := w.condWaiters ++ [t] }.awaits t).goes t .waiting

/-- `async with lock`, the lock of the call's own key. -/
def enterScope : World :=
  w.acquire t (.scope (calls t).lockKey) (.locking (calls t).lockKey [])
    fun w => w.goes t (.running [(calls t).lockKey])

/-- The test of the loops in `acquire_read` and `acquire_write`. -/
def blocked : Prop := w.writer = true ∨ (calls t).full ∧ 0 < w.readers

instance : Decidable (w.blocked calls t) :=
  inferInstanceAs (Decidable (w.writer = true ∨ (calls t).full ∧ 0 < w.readers))

def counted : World :=
  if (calls t).full then { w with writer := true } else { w with readers := w.readers + 1 }

/-- The loop of `acquire_read` and `acquire_write`, and the `try` block behind it. -/
def enterRw : World :=
  if w.blocked calls t then w.waitCond t
  else (((w.counted calls t).release .condition).goes t (.running [])).enterScope calls t

def uncounted : World :=
  if (calls t).full then { w with writer := false }.notifyAll
  else
    let w := { w with readers := w.readers - 1 }
    if w.readers = 0 then w.notifyAll else w

/-- The body of `release_read` and `release_write`, and the end of the call. -/
def leaveBody : World := ((w.uncounted calls t).release .condition).ends t

/-- The `finally` block of `dispatch`. -/
def leaveRw : World := w.acquire t .condition .leaving fun w => w.leaveBody calls t

/-- `Condition.wait` has its lock back. -/
def afterWait (cancelled : Bool) : World :=
  if cancelled then (w.release .condition).ends t else w.enterRw calls t

end World

/-- What a handler does in a block of code: it takes the lock of a cascade, gives the last one
back, is over (also with an error), or none of these. -/
inductive Choice where
  | enter (key : String)
  | leave
  | finish
  | idle

inductive Event where
  | resume (t : ℕ) (choice : Choice)
  | cancel (t : ℕ)

def World.handlerStep (w : World) (t : ℕ) : List String → Choice → World
  | key :: held, .enter new =>
    w.acquire t (.scope new) (.locking new (key :: held)) fun w => w.goes t (.running (new :: key :: held))
  | key :: next :: held, .leave => (w.release (.scope key)).goes t (.running (next :: held))
  | [key], .finish => ((w.release (.scope key)).goes t (.running [])).leaveRw calls t
  | _, _ => w

def World.resume (w : World) (t : ℕ) (choice : Choice) : World :=
  let cancelled := w.cancelledNow t
  let w' := w.delivered t
  match w.pc t with
  | .fresh =>
    if w.mustCancel t ∨ (calls t).scope ∉ handlers then w'.ends t
    else w'.acquire t .condition .entering fun w => w.enterRw calls t
  | .entering =>
    if w.fut t = .pending then w
    else if cancelled then (w'.refused t .condition).ends t
    else (w'.granted t .condition).enterRw calls t
  | .waiting =>
    if w.fut t = .pending then w
    else
      -- the call stands nowhere until it is back at the test of its loop
      let w' := { w' with condWaiters := w'.condWaiters.erase t }.goes t .fresh
      w'.acquire t .condition (.reentering cancelled) fun w => w.afterWait calls t cancelled
  | .reentering before =>
    if w.fut t = .pending then w
    else if cancelled then
      (w'.refused t .condition).acquire t .condition (.reentering true)
        fun w => w.afterWait calls t true
    else (w'.granted t .condition).afterWait calls t before
  | .locking key held =>
    if w.fut t = .pending then w
    else if cancelled then
      let w' := (w'.refused t (.scope key)).goes t (.running held)
      if held = [] then w'.leaveRw calls t else w'
    else (w'.granted t (.scope key)).goes t (.running (key :: held))
  | .running held => w'.handlerStep calls t held choice
  | .leaving =>
    if w.fut t = .pending then w
    else if cancelled then (w'.refused t .condition).ends t
    else (w'.granted t .condition).leaveBody calls t
  | .ended => w

/-- `Task.cancel`: it cancels the future the task waits for, else it is delivered later. -/
def World.cancel (w : World) (t : ℕ) : World :=
  if w.pc t = .ended then w
  else if (w.pc t).suspended ∧ w.fut t = .pending then
    { w with fut := Function.update w.fut t .cancelled }
  else { w with mustCancel := Function.update w.mustCancel t true }

def step (w : World) : Event → World
  | .resume t choice => w.resume calls handlers t choice
  | .cancel t => w.cancel t

def run (w : World) (events : List Event) : World := events.foldl (step calls handlers) w

section Invariant
variable {calls : ℕ → Call} {handlers : List String}

structure Counted (calls : ℕ → Call) (pc : ℕ → Pc) (readers : ℤ) (writer : Bool) : Prop where
  flagged : ∀ t, (calls t).full → (pc t).inside = true → writer = true
  alone : writer = true → ∃ t, (calls t).full ∧ (pc t).inside = true ∧
    ∀ u, (pc u).inside = true → u = t
  count : ∃ inside : List ℕ, inside.Nodup ∧ readers = inside.length ∧
    ∀ t, t ∈ inside ↔ (pc t).inside = true ∧ ¬(calls t).full

/-- A scope lock is held by exactly one call, and its queue is the calls that wait for it. -/
structure Locked (calls : ℕ → Call) (pc : ℕ → Pc) (locks : Ref → Lock ℕ) (fut : ℕ → Fut) :
    Prop where
  orderly : ∀ k, Orderly fut (locks (.scope k))
  queued : ∀ k t, t ∈ (locks (.scope k)).waiters ↔ ∃ held, pc t = .locking k held
  locked : ∀ k, (locks (.scope k)).locked = true ↔ ∃ t, k ∈ (pc t).held
  unique : ∀ t u k, k ∈ (pc t).held → k ∈ (pc u).held → t = u
  nodup : ∀ t, (pc t).held.Nodup
  own : ∀ t, ∀ k ∈ (pc t).stack.getLast?, k = (calls t).lockKey

structure Parked (calls : ℕ → Call) (pc : ℕ → Pc) (condWaiters : List ℕ) (fut : ℕ → Fut)
    (readers : ℤ) (writer : Bool) : Prop where
  waiters : ∀ t, t ∈ condWaiters ↔ pc t = .waiting
  nodup : condWaiters.Nodup
  blocked : ∀ t, pc t = .waiting → fut t = .pending → writer = true ∨
    (calls t).full ∧ 0 < readers

/-- The places no call ever stops at: the lock inside the condition is free at every await. -/
def Pc.transit : Pc → Bool
  | .entering => true
  | .reentering _ => true
  | .leaving => true
  | _ => false

structure Sound (calls : ℕ → Call) (w : World) : Prop where
  counted : Counted calls w.pc w.readers w.writer
  locked : Locked calls w.pc w.locks w.fut
  parked : Parked calls w.pc w.condWaiters w.fut w.readers w.writer
  idle : w.locks .condition = {}
  settled : ∀ t, (w.pc t).transit = false

theorem sound_new : Sound calls {} where
  counted := ⟨nofun, nofun, [], List.nodup_nil, rfl, by simp⟩
  locked := ⟨fun _ => orderly_new, by simp, by simp, nofun, by simp, nofun⟩
  parked := ⟨by simp, List.nodup_nil, nofun⟩
  idle := rfl
  settled := fun _ => rfl

section Counted
variable {pc pc' : ℕ → Pc} {readers : ℤ} {writer : Bool} {t : ℕ}

theorem Counted.congr (h : Counted calls pc readers writer)
    (same : ∀ u, (pc' u).inside = (pc u).inside) : Counted calls pc' readers writer := by
  obtain ⟨inside, nodup, count, mem⟩ := h.count
  exact ⟨by simpa only [same] using h.flagged, by simpa only [same] using h.alone,
    inside, nodup, count, by simpa only [same] using mem⟩

theorem Counted.nobody_full (h : Counted calls pc readers false) {u : ℕ}
    (inside : (pc u).inside = true) : ¬(calls u).full := fun full =>
  absurd (h.flagged u full inside) (by decide)

theorem Counted.enter_full (h : Counted calls pc readers false) (none : readers ≤ 0)
    (full : (calls t).full) (goes : ∀ u, (pc' u).inside = true ↔ u = t ∨ (pc u).inside = true) :
    Counted calls pc' readers true := by
  obtain ⟨inside, nodup, count, mem⟩ := h.count
  obtain rfl : inside = [] := List.eq_nil_of_length_eq_zero (by omega)
  have empty : ∀ u, (pc u).inside ≠ true := fun u there =>
    List.not_mem_nil ((mem u).mpr ⟨there, h.nobody_full there⟩)
  refine ⟨fun _ _ _ => rfl, fun _ => ⟨t, full, (goes t).mpr (.inl rfl), fun u there => ?_⟩,
    [], List.nodup_nil, count, fun u => ?_⟩
  · exact ((goes u).mp there).resolve_right (empty u)
  · refine ⟨nofun, fun ⟨there, other⟩ => ?_⟩
    obtain rfl := ((goes u).mp there).resolve_right (empty u)
    exact absurd full other

theorem Counted.enter (h : Counted calls pc readers false) (other : ¬(calls t).full)
    (out : (pc t).inside = false)
    (goes : ∀ u, (pc' u).inside = true ↔ u = t ∨ (pc u).inside = true) :
    Counted calls pc' (readers + 1) false := by
  obtain ⟨inside, nodup, count, mem⟩ := h.count
  refine ⟨fun u full there => ?_, nofun, t :: inside, List.nodup_cons.mpr ⟨fun old => ?_, nodup⟩,
    by simp [count], fun u => ?_⟩
  · rcases (goes u).mp there with rfl | there
    · exact absurd full other
    · exact absurd full (h.nobody_full there)
  · rw [mem, out] at old
    exact absurd old.1 (by decide)
  · rw [List.mem_cons, mem, goes]
    constructor
    · rintro (rfl | old)
      · exact ⟨.inl rfl, other⟩
      · exact ⟨.inr old.1, old.2⟩
    · rintro ⟨rfl | there, small⟩
      · exact .inl rfl
      · exact .inr ⟨there, small⟩

theorem Counted.leave_full (h : Counted calls pc readers writer) (full : (calls t).full)
    (here : (pc t).inside = true)
    (goes : ∀ u, (pc' u).inside = true ↔ u ≠ t ∧ (pc u).inside = true) :
    Counted calls pc' readers false := by
  obtain ⟨inside, nodup, count, mem⟩ := h.count
  obtain ⟨one, -, -, alone⟩ := h.alone (h.flagged t full here)
  refine ⟨fun u _ there => ?_, nofun, inside, nodup, count, fun u => ?_⟩
  · obtain ⟨ne, there⟩ := (goes u).mp there
    exact absurd ((alone u there).trans (alone t here).symm) ne
  · rw [mem, goes]
    refine ⟨fun ⟨there, small⟩ => ⟨⟨?_, there⟩, small⟩, fun ⟨there, small⟩ => ⟨there.2, small⟩⟩
    rintro rfl
    exact small full

theorem Counted.leave (h : Counted calls pc readers writer) (other : ¬(calls t).full)
    (here : (pc t).inside = true)
    (goes : ∀ u, (pc' u).inside = true ↔ u ≠ t ∧ (pc u).inside = true) :
    Counted calls pc' (readers - 1) writer ∧ writer = false ∧ 0 < readers := by
  obtain ⟨inside, nodup, count, mem⟩ := h.count
  have old : t ∈ inside := (mem t).mpr ⟨here, other⟩
  have nowriter : writer = false := by
    rw [Bool.eq_false_iff]
    intro set
    obtain ⟨one, full, -, alone⟩ := h.alone set
    exact other (alone t here ▸ full)
  subst nowriter
  have some : 0 < inside.length := List.length_pos_of_mem old
  refine ⟨⟨fun u full there => ?_, nofun, inside.erase t, nodup.erase t, ?_, fun u => ?_⟩, rfl,
    by omega⟩
  · exact absurd full (h.nobody_full ((goes u).mp there).2)
  · rw [List.length_erase_of_mem old]
    omega
  · rw [List.Nodup.mem_erase_iff nodup, mem, goes]
    tauto

end Counted

section Locked
variable {pc : ℕ → Pc} {locks : Ref → Lock ℕ} {fut futs : ℕ → Fut} {t : ℕ} {p : Pc}

theorem Locked.not_queued (h : Locked calls pc locks fut) {u : ℕ} (free : (pc u).stack = [])
    (k : String) : u ∉ (locks (.scope k)).waiters := by
  intro mem
  obtain ⟨held, waits⟩ := (h.queued k u).mp mem
  rw [waits] at free
  cases free

theorem held_of_stack {p : Pc} (free : p.stack = []) : p.held = [] := by
  cases p with
  | running held => exact free
  | locking key held => cases free
  | _ => rfl

/-- A call without scope locks moves, and the condition's lock and the futures of such calls
change. -/
theorem Locked.frame (h : Locked calls pc locks fut) (before : (pc t).stack = [])
    (after : p.stack = []) (futs_eq : ∀ u, (∃ k held, pc u = .locking k held) → futs u = fut u)
    (l : Lock ℕ) : Locked calls (Function.update pc t p) (Function.update locks .condition l) futs := by
  have waits : ∀ u k, (∃ held, Function.update pc t p u = .locking k held) ↔
      ∃ held, pc u = .locking k held := by
    intro u k
    by_cases same : u = t
    · subst same
      rw [Function.update_self]
      constructor
      · rintro ⟨held, rfl⟩
        cases after
      · rintro ⟨held, now⟩
        rw [now] at before
        cases before
    · rw [Function.update_of_ne same]
  have helds : ∀ u, (Function.update pc t p u).held = (pc u).held := by
    intro u
    by_cases same : u = t
    · subst same
      rw [Function.update_self, held_of_stack before, held_of_stack after]
    · rw [Function.update_of_ne same]
  have scopes : ∀ k, Function.update locks .condition l (.scope k) = locks (.scope k) := fun k =>
    Function.update_of_ne (by simp) _ _
  refine ⟨fun k => ?_, fun k u => ?_, fun k => ?_, fun u v k => ?_, fun u => ?_, fun u k last => ?_⟩
  · rw [scopes]
    exact (h.orderly k).congr fun u mem =>
      futs_eq u (((h.queued k u).mp mem).elim fun held now => ⟨k, held, now⟩)
  · rw [scopes, h.queued, waits]
  · simp only [scopes, helds, h.locked]
  · simp only [helds]
    exact h.unique u v k
  · rw [helds]
    exact h.nodup u
  · by_cases same : u = t
    · subst same
      rw [Function.update_self, after] at last
      cases last
    · rw [Function.update_of_ne same] at last
      exact h.own u k last

theorem Locked.change (h : Locked calls pc locks fut) {k : String} {l : Lock ℕ}
    (before : ∀ k' held, pc t = .locking k' held → k' = k)
    (after : ∀ k' held, p = .locking k' held → k' = k)
    (others : ∀ k' ≠ k, k' ∈ p.held ↔ k' ∈ (pc t).held)
    (futs_eq : ∀ u ≠ t, u ∉ (locks (.scope k)).waiters → futs u = fut u)
    (orderly : Orderly futs l)
    (queued : ∀ u, u ∈ l.waiters ↔ u = t ∧ (∃ held, p = .locking k held) ∨
      u ≠ t ∧ u ∈ (locks (.scope k)).waiters)
    (locked : l.locked = true ↔ k ∈ p.held ∨ ∃ u ≠ t, k ∈ (pc u).held)
    (unique : k ∈ p.held → ∀ u ≠ t, k ∉ (pc u).held) (nodup : p.held.Nodup)
    (own : ∀ k ∈ p.stack.getLast?, k = (calls t).lockKey) :
    Locked calls (Function.update pc t p) (Function.update locks (.scope k) l) futs := by
  have only : ∀ u v k', k' ∈ (Function.update pc t p u).held → k' ∈ (pc v).held → v ≠ t →
      u = v := by
    intro u v k' mem mem' ne
    by_cases same : u = t
    · subst same
      rw [Function.update_self] at mem
      by_cases this : k' = k
      · subst this
        exact absurd mem' (unique mem v ne)
      · exact h.unique u v k' ((others k' this).mp mem) mem'
    · rw [Function.update_of_ne same] at mem
      exact h.unique u v k' mem mem'
  refine ⟨fun k' => ?_, fun k' u => ?_, fun k' => ?_, fun u v k' mem mem' => ?_, fun u => ?_,
    fun u k' last => ?_⟩
  · by_cases this : k' = k
    · subst this
      rwa [Function.update_self]
    · rw [Function.update_of_ne (by simpa using this)]
      refine (h.orderly k').congr fun u mem => futs_eq u ?_ fun mem' => ?_
      · rintro rfl
        obtain ⟨held, now⟩ := (h.queued k' u).mp mem
        exact this (before k' held now)
      · obtain ⟨held, now⟩ := (h.queued k' u).mp mem
        obtain ⟨held', now'⟩ := (h.queued k u).mp mem'
        rw [now] at now'
        cases now'
        exact this rfl
  · by_cases this : k' = k
    · subst this
      rw [Function.update_self, queued]
      by_cases same : u = t
      · subst same
        simp
      · rw [Function.update_of_ne same, h.queued]
        simp [same]
    · rw [Function.update_of_ne (by simpa using this), h.queued]
      by_cases same : u = t
      · subst same
        rw [Function.update_self]
        exact ⟨fun ⟨held, now⟩ => absurd (before k' held now) this,
          fun ⟨held, now⟩ => absurd (after k' held now) this⟩
      · rw [Function.update_of_ne same]
  · by_cases this : k' = k
    · subst this
      rw [Function.update_self, locked]
      constructor
      · rintro (mem | ⟨u, ne, mem⟩)
        · exact ⟨t, by rwa [Function.update_self]⟩
        · exact ⟨u, by rwa [Function.update_of_ne ne]⟩
      · rintro ⟨u, mem⟩
        by_cases same : u = t
        · subst same
          rw [Function.update_self] at mem
          exact .inl mem
        · rw [Function.update_of_ne same] at mem
          exact .inr ⟨u, same, mem⟩
    · rw [Function.update_of_ne (by simpa using this), h.locked]
      refine exists_congr fun u => ?_
      by_cases same : u = t
      · subst same
        rw [Function.update_self, others k' this]
      · rw [Function.update_of_ne same]
  · by_cases same : v = t
    · by_cases same' : u = t
      · exact same'.trans same.symm
      · rw [Function.update_of_ne same'] at mem
        exact (only v u k' mem' mem same').symm
    · rw [Function.update_of_ne same] at mem'
      exact only u v k' mem mem' same
  · by_cases same : u = t
    · subst same
      rwa [Function.update_self]
    · rw [Function.update_of_ne same]
      exact h.nodup u
  · by_cases same : u = t
    · subst same
      rw [Function.update_self] at last
      exact own k' last
    · rw [Function.update_of_ne same] at last
      exact h.own u k' last

theorem Locked.of_orderly (h : Locked calls pc locks fut)
    (orderly : ∀ k, Orderly futs (locks (.scope k))) : Locked calls pc locks futs :=
  ⟨orderly, h.queued, h.locked, h.unique, h.nodup, h.own⟩

end Locked

/-- A call that does not wait for the condition moves, and nobody who waits is left behind. -/
theorem Parked.frame {pc : ℕ → Pc} {condWaiters : List ℕ} {fut futs : ℕ → Fut} {readers readers' : ℤ}
    {writer writer' : Bool} {t : ℕ} {p : Pc}
    (h : Parked calls pc condWaiters fut readers writer) (before : pc t ≠ .waiting)
    (after : p ≠ .waiting)
    (blocked : ∀ u, pc u = .waiting → futs u = .pending → fut u = .pending ∧
      ((writer = true ∨ (calls u).full ∧ 0 < readers) →
        writer' = true ∨ (calls u).full ∧ 0 < readers')) :
    Parked calls (Function.update pc t p) condWaiters futs readers' writer' := by
  have waits : ∀ u, Function.update pc t p u = .waiting ↔ pc u = .waiting := by
    intro u
    by_cases same : u = t
    · subst same
      rw [Function.update_self]
      exact ⟨fun now => absurd now after, fun now => absurd now before⟩
    · rw [Function.update_of_ne same]
  refine ⟨fun u => (h.waiters u).trans (waits u).symm, h.nodup, fun u now pending => ?_⟩
  have now := (waits u).mp now
  obtain ⟨pending, still⟩ := blocked u now pending
  exact still (h.blocked u now pending)

section Sound
variable {w : World} {t : ℕ}

theorem update_same {β : Type} (f : Pc → β) {pc : ℕ → Pc} {p : Pc} (same : f p = f (pc t)) (u : ℕ) :
    f (Function.update pc t p u) = f (pc u) := by
  by_cases this : u = t
  · rw [this, Function.update_self, same]
  · rw [Function.update_of_ne this]

theorem Sound.settled_goes (h : Sound calls w) {p : Pc} (settled : p.transit = false) (u : ℕ) :
    (Function.update w.pc t p u).transit = false :=
  (update_same Pc.transit (settled.trans (h.settled t).symm) u).trans (h.settled u)

theorem Sound.delivered (h : Sound calls w) (t : ℕ) : Sound calls (w.delivered t) :=
  ⟨h.counted, h.locked, h.parked, h.idle, h.settled⟩

theorem Sound.cancel (h : Sound calls w) (t : ℕ) : Sound calls (w.cancel t) := by
  unfold World.cancel
  split
  · exact h
  · split
    · next pending =>
      refine ⟨h.counted, h.locked.of_orderly fun k => (h.locked.orderly k).cancel t,
        ⟨h.parked.waiters, h.parked.nodup, fun u now still => h.parked.blocked u now ?_⟩,
        h.idle, h.settled⟩
      by_cases same : u = t
      · exact same ▸ pending.2
      · exact (Function.update_of_ne same _ _).symm.trans still
    · exact ⟨h.counted, h.locked, h.parked, h.idle, h.settled⟩

theorem Sound.goes (h : Sound calls w) {p : Pc} (before : w.pc t = .fresh)
    (free : p.stack = []) (out : p.inside = false) (moving : p ≠ .waiting)
    (settled : p.transit = false) : Sound calls (w.goes t p) where
  counted := h.counted.congr (update_same Pc.inside (by rw [before, out]; rfl))
  locked := by
    have := h.locked.frame (by rw [before]; rfl) free (fun _ _ => rfl) (w.locks .condition)
    rwa [Function.update_eq_self] at this
  parked := h.parked.frame (by rw [before]; nofun) moving fun _ _ pending => ⟨pending, id⟩
  idle := h.idle
  settled := h.settled_goes settled

def World.shut (w : World) : World := w.setLock .condition ⟨true, []⟩

theorem acquire_condition (idle : w.locks .condition = {}) (p : Pc) (taken : World → World) :
    w.acquire t .condition p taken = taken w.shut := by
  unfold World.acquire World.shut
  rw [idle]
  exact if_pos rfl

theorem setLock_twice (r : Ref) {l l' : Lock ℕ} (old : w.locks r = l') :
    (w.setLock r l).setLock r l' = w := by
  unfold World.setLock
  rw [Function.update_idem, ← old, Function.update_eq_self]

theorem release_shut {w' : World} (same : w'.locks = w.shut.locks) :
    w'.release .condition = w'.setLock .condition {} := by
  have held : w'.locks .condition = ⟨true, []⟩ := by
    rw [same]
    exact Function.update_self Ref.condition _ w.locks
  unfold World.release Lock.wakeFirst
  rw [held]
  rfl

theorem reopen (idle : w.locks .condition = {}) : w.shut.release .condition = w :=
  (release_shut rfl).trans (setLock_twice .condition idle)

theorem counted_shut (idle : w.locks .condition = {}) :
    (w.shut.counted calls t).release .condition = w.counted calls t := by
  unfold World.counted
  split
  · exact (release_shut rfl).trans (setLock_twice (w := { w with writer := true }) .condition idle)
  · exact (release_shut rfl).trans
      (setLock_twice (w := { w with readers := w.readers + 1 }) .condition idle)

theorem uncounted_locks (w : World) : (w.uncounted calls t).locks = w.locks := by
  unfold World.uncounted
  split
  · rfl
  · dsimp only
    split <;> rfl

theorem uncounted_shut (idle : w.locks .condition = {}) :
    (w.shut.uncounted calls t).release .condition = w.uncounted calls t := by
  rw [release_shut (uncounted_locks w.shut)]
  have same : w.shut.uncounted calls t = (w.uncounted calls t).setLock .condition ⟨true, []⟩ := by
    dsimp only [World.uncounted, World.shut, World.setLock]
    split
    · rfl
    · split <;> rfl
  rw [same, setLock_twice .condition ((congrFun (uncounted_locks w) _).trans idle)]

theorem Sound.waitCond (h : Sound calls w) (new : w.pc t = .fresh) (blocked : w.blocked calls t) :
    Sound calls (w.shut.waitCond t) := by
  unfold World.waitCond
  rw [reopen h.idle]
  have absent : t ∉ w.condWaiters := fun mem =>
    absurd (new.symm.trans ((h.parked.waiters t).mp mem)) nofun
  have away : ∀ u, (∃ k held, w.pc u = .locking k held) → u ≠ t := by
    rintro u ⟨k, held, now⟩ rfl
    cases new.symm.trans now
  refine ⟨h.counted.congr (update_same Pc.inside (congrArg Pc.inside new).symm), ?_,
    ⟨fun u => ?_, ?_, fun u now pending => ?_⟩, h.idle, h.settled_goes rfl⟩
  · have := h.locked.frame (p := .waiting) (by rw [new]; rfl) rfl
      (fun u waits => Function.update_of_ne (away u waits) .pending w.fut) (w.locks .condition)
    rwa [Function.update_eq_self] at this
  · by_cases same : u = t
    · subst same
      simp [World.goes, World.awaits]
    · simp [World.goes, World.awaits, same, h.parked.waiters]
  · exact List.nodup_append.mpr ⟨h.parked.nodup, List.nodup_singleton t, fun a mem b mem' same =>
      absent (List.mem_singleton.mp mem' ▸ same ▸ mem)⟩
  · by_cases same : u = t
    · exact same ▸ blocked
    · exact h.parked.blocked u ((Function.update_of_ne same _ _).symm.trans now)
        ((Function.update_of_ne same _ _).symm.trans pending)

theorem inside_goes {pc : ℕ → Pc} {p : Pc} (there : p.inside = true) (u : ℕ) :
    (Function.update pc t p u).inside = true ↔ u = t ∨ (pc u).inside = true := by
  by_cases same : u = t
  · subst same
    rw [Function.update_self]
    exact ⟨fun _ => .inl rfl, fun _ => there⟩
  · rw [Function.update_of_ne same]
    exact (or_iff_right same).symm

theorem Sound.counted_in (h : Sound calls w) (new : w.pc t = .fresh)
    (free : ¬w.blocked calls t) : Sound calls ((w.counted calls t).goes t (.running [])) := by
  have open' : w.writer = false := Bool.eq_false_iff.mpr fun set => free (.inl set)
  have locked := h.locked.frame (p := .running []) (by rw [new]; rfl) rfl (fun _ _ => rfl)
    (w.locks .condition)
  rw [Function.update_eq_self] at locked
  have moving : w.pc t ≠ .waiting := by
    rw [new]
    nofun
  unfold World.counted
  split
  · next full =>
    have none : w.readers ≤ 0 := by
      by_contra some
      exact free (.inr ⟨full, by omega⟩)
    exact ⟨(open' ▸ h.counted).enter_full none full (inside_goes rfl), locked,
      h.parked.frame moving nofun fun _ _ pending => ⟨pending, fun _ => .inl rfl⟩, h.idle,
      h.settled_goes rfl⟩
  · next small =>
    have entered := (open' ▸ h.counted).enter small (by rw [new]; rfl)
      (inside_goes (p := .running []) rfl)
    refine ⟨?_, locked, h.parked.frame moving nofun fun u _ pending => ⟨pending, ?_⟩, h.idle,
      h.settled_goes rfl⟩
    · exact open'.symm ▸ entered
    · rintro (set | ⟨full, some⟩)
      · exact .inl set
      · have more : 0 < w.readers + 1 := by omega
        exact .inr ⟨full, more⟩

theorem Sound.change (h : Sound calls w) {k : String} {l : Lock ℕ} (futs : ℕ → Fut) {p : Pc}
    (here : (w.pc t).inside = true) (there : p.inside = true) (settled : p.transit = false)
    (locked : Locked calls (Function.update w.pc t p) (Function.update w.locks (.scope k) l) futs)
    (pending : ∀ u, w.pc u = .waiting → futs u = .pending → w.fut u = .pending) :
    Sound calls ({ w.setLock (.scope k) l with fut := futs }.goes t p) where
  counted := h.counted.congr (update_same Pc.inside (there.trans here.symm))
  locked := locked
  parked := by
    have moving : w.pc t ≠ .waiting := by
      intro now
      rw [now] at here
      cases here
    have stays : p ≠ .waiting := by
      rintro rfl
      cases there
    exact h.parked.frame moving stays fun u now still => ⟨pending u now still, id⟩
  idle := by
    change Function.update w.locks (.scope k) l .condition = {}
    rw [Function.update_of_ne (by simp)]
    exact h.idle
  settled := h.settled_goes settled

theorem ne_of_queued (h : Sound calls w) {held : List String} (here : w.pc t = .running held)
    (k : String) : t ∉ (w.locks (.scope k)).waiters := by
  intro mem
  obtain ⟨_, waits⟩ := (h.locked.queued k t).mp mem
  cases here.symm.trans waits

theorem mem_held (h : Sound calls w) (k : String) : (w.locks (.scope k)).locked = true ↔
    k ∈ (w.pc t).held ∨ ∃ u ≠ t, k ∈ (w.pc u).held := by
  rw [h.locked.locked]
  constructor
  · rintro ⟨u, mem⟩
    by_cases same : u = t
    · exact .inl (same ▸ mem)
    · exact .inr ⟨u, same, mem⟩
  · rintro (mem | ⟨u, -, mem⟩)
    · exact ⟨t, mem⟩
    · exact ⟨u, mem⟩

theorem queue_iff {l : List ℕ} {u : ℕ} {P : Prop} (out : t ∉ l) (now : P) :
    u ∈ l ++ [t] ↔ u = t ∧ P ∨ u ≠ t ∧ u ∈ l := by
  rw [List.mem_append, List.mem_singleton]
  constructor
  · rintro (old | new)
    · exact .inr ⟨fun same => out (same ▸ old), old⟩
    · exact .inl ⟨new, now⟩
  · rintro (⟨new, -⟩ | ⟨-, old⟩)
    · exact .inr new
    · exact .inl old

theorem Sound.acquire (h : Sound calls w) {k : String} {held : List String}
    (here : w.pc t = .running held) (own : ∀ k' ∈ (k :: held).getLast?, k' = (calls t).lockKey) :
    Sound calls (w.acquire t (.scope k) (.locking k held) fun w =>
      w.goes t (.running (k :: held))) := by
  unfold World.acquire
  have inside : (w.pc t).inside = true := by
    rw [here]
    rfl
  have unqueued := ne_of_queued h here k
  split
  · next free =>
    have open' := unlocked_of_isFree free
    have nobody : ∀ u, k ∉ (w.pc u).held := fun u mem =>
      absurd (open'.symm.trans ((h.locked.locked k).mpr ⟨u, mem⟩)) (by decide)
    refine h.change w.fut inside rfl rfl (h.locked.change ?_ nofun ?_ (fun _ _ _ => rfl)
      ((h.locked.orderly k).taken free) (fun u => ?_) ?_ (fun _ u _ => nobody u) ?_ own)
      fun _ _ => id
    · rw [here]
      nofun
    · intro k' ne
      rw [here]
      exact List.mem_cons.trans (or_iff_right ne)
    · refine ⟨fun mem => .inr ⟨fun same => unqueued (same ▸ mem), mem⟩, ?_⟩
      rintro (⟨-, held, now⟩ | ⟨-, mem⟩)
      · cases now
      · exact mem
    · exact ⟨fun _ => .inl List.mem_cons_self, fun _ => rfl⟩
    · have := nobody t
      have nodup := h.locked.nodup t
      rw [here] at this nodup
      exact List.nodup_cons.mpr ⟨this, nodup⟩
  · refine h.change _ inside rfl rfl (h.locked.change ?_ ?_ ?_ ?_ ((h.locked.orderly k).queue unqueued)
      (fun u => ?_) ?_ ?_ ?_ own) fun u now still => ?_
    · rw [here]
      nofun
    · rintro k' held' now
      cases now
      rfl
    · intro k' _
      rw [here]
      rfl
    · exact fun u ne _ => Function.update_of_ne ne _ _
    · exact queue_iff unqueued ⟨held, rfl⟩
    · have := mem_held (t := t) h k
      rwa [here] at this
    · intro mem u ne mem'
      refine ne (h.locked.unique u t k mem' ?_)
      rw [here]
      exact mem
    · have := h.locked.nodup t
      rwa [here] at this
    · have ne : u ≠ t := by
        rintro rfl
        cases here.symm.trans now
      exact (Function.update_of_ne ne _ _).symm.trans still

theorem Sound.release (h : Sound calls w) {k : String} {held : List String}
    (here : w.pc t = .running (k :: held)) (own : ∀ k' ∈ held.getLast?, k' = (calls t).lockKey) :
    Sound calls ((w.release (.scope k)).goes t (.running held)) := by
  have inside : (w.pc t).inside = true := by
    rw [here]
    rfl
  have unqueued := ne_of_queued h here k
  have nodup := h.locked.nodup t
  have mine : k ∈ (w.pc t).held := by
    rw [here]
    exact List.mem_cons_self
  rw [here] at nodup
  obtain ⟨gone, nodup⟩ := List.nodup_cons.mp nodup
  refine h.change _ inside rfl rfl (h.locked.change ?_ nofun ?_ ?_
    ((h.locked.orderly k).release ((h.locked.locked k).mpr ⟨t, mine⟩)) (fun u => ?_) ?_
    (fun mem => absurd mem gone) nodup own) fun u _ still => wakeFirst_pending still
  · rw [here]
    nofun
  · intro k' ne
    rw [here]
    exact (List.mem_cons.trans (or_iff_right ne)).symm
  · exact fun u _ out => wakeFirst_of_not_mem out
  · refine ⟨fun mem => .inr ⟨fun same => unqueued (same ▸ mem), mem⟩, ?_⟩
    rintro (⟨-, _, now⟩ | ⟨-, mem⟩)
    · cases now
    · exact mem
  · refine ⟨nofun, ?_⟩
    rintro (mem | ⟨u, ne, mem⟩)
    · exact absurd mem gone
    · exact absurd (h.locked.unique u t k mem mine) ne

theorem mem_erase_iff {l : List ℕ} {u : ℕ} {P : Prop} (nodup : l.Nodup) (never : ¬P) :
    u ∈ l.erase t ↔ u = t ∧ P ∨ u ≠ t ∧ u ∈ l := by
  rw [List.Nodup.mem_erase_iff nodup, or_iff_right fun both => never both.2]

theorem Sound.granted (h : Sound calls w) {k : String} {held : List String}
    (here : w.pc t = .locking k held) (woken : w.fut t = .woken) :
    Sound calls ((w.granted t (.scope k)).goes t (.running (k :: held))) := by
  have inside : (w.pc t).inside = true := by
    rw [here]
    rfl
  obtain ⟨orderly, open'⟩ := (h.locked.orderly k).granted ((h.locked.queued k t).mpr ⟨held, here⟩) woken
  have nobody : ∀ u, k ∉ (w.pc u).held := fun u mem =>
    absurd (open'.symm.trans ((h.locked.locked k).mpr ⟨u, mem⟩)) (by decide)
  refine h.change w.fut inside rfl rfl (h.locked.change ?_ nofun ?_ (fun _ _ _ => rfl)
    orderly (fun u => mem_erase_iff (h.locked.orderly k).nodup nofun) ?_ (fun _ u _ => nobody u) ?_ ?_)
    fun _ _ => id
  · rw [here]
    rintro k' held' now
    cases now
    rfl
  · intro k' ne
    rw [here]
    exact List.mem_cons.trans (or_iff_right ne)
  · exact ⟨fun _ => .inl List.mem_cons_self, fun _ => rfl⟩
  · have := nobody t
    have nodup := h.locked.nodup t
    rw [here] at this nodup
    exact List.nodup_cons.mpr ⟨this, nodup⟩
  · have := h.locked.own t
    rwa [here] at this

theorem Sound.refused (h : Sound calls w) {k : String} {held : List String}
    (here : w.pc t = .locking k held) :
    Sound calls ((w.refused t (.scope k)).goes t (.running held)) := by
  have inside : (w.pc t).inside = true := by
    rw [here]
    rfl
  refine h.change _ inside rfl rfl (h.locked.change ?_ nofun ?_ ?_ ((h.locked.orderly k).refused t)
    (fun u => mem_erase_iff (h.locked.orderly k).nodup nofun) ?_ ?_ ?_ ?_)
    fun u _ still => refusedFuts_pending still
  · rw [here]
    rintro k' held' now
    cases now
    rfl
  · intro k' _
    rw [here]
    rfl
  · exact fun u _ out => refusedFuts_of_not_mem out
  · have := mem_held (t := t) h k
    rwa [here] at this
  · intro mem u ne mem'
    refine ne (h.locked.unique u t k mem' ?_)
    rw [here]
    exact mem
  · have := h.locked.nodup t
    rwa [here] at this
  · have := h.locked.own t
    rw [here] at this
    intro k' last
    refine this k' ?_
    cases held with
    | nil => cases last
    | cons a rest => exact last

theorem inside_leaves {pc : ℕ → Pc} (u : ℕ) :
    (Function.update pc t .ended u).inside = true ↔ u ≠ t ∧ (pc u).inside = true := by
  by_cases same : u = t
  · subst same
    rw [Function.update_self]
    exact ⟨nofun, fun both => absurd rfl both.1⟩
  · rw [Function.update_of_ne same]
    exact (and_iff_right same).symm

section
variable (h : Sound calls w)
include h

theorem Sound.leaveRw (here : w.pc t = .running []) : Sound calls (w.leaveRw calls t) := by
  unfold World.leaveRw
  rw [acquire_condition h.idle]
  unfold World.leaveBody
  rw [uncounted_shut h.idle]
  have inside : (w.pc t).inside = true := by
    rw [here]
    rfl
  have moving : w.pc t ≠ .waiting := by
    rw [here]
    nofun
  have noted : ∀ u, w.pc u = .waiting →
      (if u ∈ w.condWaiters ∧ w.fut u = .pending then .woken else w.fut u) ≠ Fut.pending := by
    intro u waits still
    split at still
    · cases still
    · next free => exact free ⟨(h.parked.waiters u).mpr waits, still⟩
  have same : ∀ u, (∃ k held, w.pc u = .locking k held) →
      (if u ∈ w.condWaiters ∧ w.fut u = .pending then .woken else w.fut u) = w.fut u := by
    rintro u ⟨k, held, now⟩
    rw [if_neg]
    rintro ⟨mem, -⟩
    cases now.symm.trans ((h.parked.waiters u).mp mem)
  have frame : ∀ futs : ℕ → Fut, (∀ u, (∃ k held, w.pc u = .locking k held) →
      futs u = w.fut u) → Locked calls (Function.update w.pc t .ended) w.locks futs := by
    intro futs eq
    have := h.locked.frame (p := .ended) (by rw [here]; rfl) rfl eq (w.locks .condition)
    rwa [Function.update_eq_self] at this
  unfold World.uncounted World.ends
  split
  · next full =>
    exact ⟨h.counted.leave_full full inside inside_leaves, frame _ same,
      h.parked.frame moving nofun fun u now still => absurd still (noted u now), h.idle,
      h.settled_goes rfl⟩
  · next small =>
    obtain ⟨left, none, some⟩ := h.counted.leave small inside inside_leaves
    dsimp only
    split
    · exact ⟨left, frame _ same,
        h.parked.frame moving nofun fun u now still => absurd still (noted u now), h.idle,
        h.settled_goes rfl⟩
    · next more =>
      refine ⟨left, frame _ fun _ _ => rfl, h.parked.frame moving nofun fun u now still =>
        ⟨still, ?_⟩, h.idle, h.settled_goes rfl⟩
      rintro (set | ⟨full, -⟩)
      · exact .inl set
      · have still : 0 < w.readers - 1 := by omega
        exact .inr ⟨full, still⟩

theorem Sound.waking (here : w.pc t = .waiting) :
    Sound calls ({ w with condWaiters := w.condWaiters.erase t }.goes t .fresh) := by
  have locked := h.locked.frame (p := .fresh) (by rw [here]; rfl) rfl (fun _ _ => rfl)
    (w.locks .condition)
  rw [Function.update_eq_self] at locked
  refine ⟨h.counted.congr (update_same Pc.inside (congrArg Pc.inside here).symm), locked,
    ⟨fun u => ?_, h.parked.nodup.erase t, fun u now still => ?_⟩, h.idle, h.settled_goes rfl⟩
  · change u ∈ w.condWaiters.erase t ↔ Function.update w.pc t .fresh u = .waiting
    rw [List.Nodup.mem_erase_iff h.parked.nodup, h.parked.waiters]
    by_cases same : u = t
    · subst same
      simp
    · simp [same]
  · change Function.update w.pc t .fresh u = .waiting at now
    by_cases same : u = t
    · rw [same, Function.update_self] at now
      cases now
    · rw [Function.update_of_ne same] at now
      exact h.parked.blocked u now still

theorem Sound.enterRw (new : w.pc t = .fresh) : Sound calls (w.shut.enterRw calls t) := by
  unfold World.enterRw
  split
  · next blocked => exact h.waitCond new blocked
  · next free =>
    rw [counted_shut h.idle]
    exact (h.counted_in new free).acquire (Function.update_self ..) fun k last =>
      (Option.some.inj last).symm

theorem Sound.afterWait (new : w.pc t = .fresh) (cancelled : Bool) :
    Sound calls (w.shut.afterWait calls t cancelled) := by
  unfold World.afterWait
  split
  · rw [reopen h.idle]
    exact h.goes new rfl rfl nofun rfl
  · exact h.enterRw new

theorem Sound.handlerStep {held : List String} (choice : Choice)
    (here : w.pc t = .running held) : Sound calls (w.handlerStep calls t held choice) := by
  have own := h.locked.own t
  rw [here] at own
  unfold World.handlerStep
  split
  · exact h.acquire here own
  · exact h.release here own
  · exact (h.release here nofun).leaveRw (Function.update_self ..)
  · exact h

theorem Sound.resume (t : ℕ) (choice : Choice) :
    Sound calls (w.resume calls handlers t choice) := by
  have h' := h.delivered t
  unfold World.resume
  cases here : w.pc t with
  | fresh =>
    dsimp only
    split
    · exact h'.goes here rfl rfl nofun rfl
    · rw [acquire_condition h'.idle]
      exact h'.enterRw here
  | waiting =>
    dsimp only
    split
    · exact h
    · have awake := h'.waking here
      rw [acquire_condition awake.idle]
      exact awake.afterWait (Function.update_self ..) _
  | locking key held =>
    dsimp only
    split
    · exact h
    · next done =>
      split
      · have out := h'.refused here
        split
        · next none =>
          subst none
          exact out.leaveRw (Function.update_self ..)
        · exact out
      · next kept =>
        refine h'.granted here ?_
        change w.fut t = .woken
        unfold World.cancelledNow at kept
        cases fut : w.fut t with
        | pending => exact absurd fut done
        | woken => rfl
        | cancelled =>
          rw [fut] at kept
          simp at kept
  | running held => exact h'.handlerStep choice here
  | ended => exact h
  | _ =>
    have settled := h.settled t
    rw [here] at settled
    cases settled

theorem Sound.step (e : Event) : Sound calls (step calls handlers w e) := by
  cases e with
  | resume t choice => exact h.resume t choice
  | cancel t => exact h.cancel t

theorem Sound.run (events : List Event) : Sound calls (run calls handlers w events) := by
  induction events generalizing w with
  | nil => exact h
  | cons e rest ih => exact ih (h.step e)

end

theorem inside_of_inHandler {p : Pc} (there : p.inHandler) : p.inside = true := by
  cases p with
  | locking => rfl
  | running => rfl
  | _ => exact absurd rfl there

theorem Sound.exclusive (h : Sound calls w) {t u : ℕ} (full : (calls t).full)
    (here : (w.pc t).inHandler) (there : (w.pc u).inHandler) : u = t := by
  have here := inside_of_inHandler here
  obtain ⟨one, -, -, alone⟩ := h.counted.alone (h.counted.flagged t full here)
  exact (alone u (inside_of_inHandler there)).trans (alone t here).symm

theorem Sound.own_held (h : Sound calls w) (there : (w.pc t).inHandler) :
    (calls t).lockKey ∈ (w.pc t).held := by
  have last : ∀ held : List String, held ≠ [] →
      (∀ k ∈ held.getLast?, k = (calls t).lockKey) → (calls t).lockKey ∈ held := by
    intro held some own
    rw [← own _ (List.getLast?_eq_getLast_of_ne_nil some)]
    exact List.getLast_mem some
  have own := h.locked.own t
  cases here : w.pc t with
  | running held =>
    rw [here] at own there
    exact last held there own
  | locking key held =>
    rw [here] at own there
    refine last held there fun k mem => own k ?_
    cases held with
    | nil => cases mem
    | cons a rest => exact mem
  | _ =>
    rw [here] at there
    exact absurd rfl there

theorem Sound.one_per_key (h : Sound calls w) {t u : ℕ} (here : (w.pc t).inHandler)
    (there : (w.pc u).inHandler) (same : (calls t).lockKey = (calls u).lockKey) : t = u :=
  h.locked.unique t u _ (h.own_held here) (same ▸ h.own_held there)

theorem Sound.unused (h : Sound calls w) (over' : ∀ t, (w.pc t).away) :
    w.readers = 0 ∧ w.writer = false ∧ ∀ r, w.locks r = {} := by
  have out : ∀ t, (w.pc t).stack = [] ∧ (w.pc t).inside = false := by
    intro t
    have away := over' t
    cases here : w.pc t with
    | fresh => exact ⟨rfl, rfl⟩
    | ended => exact ⟨rfl, rfl⟩
    | _ =>
      rw [here] at away
      exact away.elim
  refine ⟨?_, Bool.eq_false_iff.mpr fun set => ?_, fun r => ?_⟩
  · obtain ⟨inside, -, count, mem⟩ := h.counted.count
    obtain rfl : inside = [] := List.eq_nil_iff_forall_not_mem.mpr fun t there =>
      absurd ((out t).2.symm.trans ((mem t).mp there).1) (by decide)
    exact count
  · obtain ⟨t, -, there, -⟩ := h.counted.alone set
    exact absurd ((out t).2.symm.trans there) (by decide)
  · cases r with
    | condition => exact h.idle
    | scope k =>
      have queue : (w.locks (.scope k)).waiters = [] := List.eq_nil_iff_forall_not_mem.mpr
        fun t => h.locked.not_queued (out t).1 k
      have free : (w.locks (.scope k)).locked = false := Bool.eq_false_iff.mpr fun set => by
        obtain ⟨t, mem⟩ := (h.locked.locked k).mp set
        rw [held_of_stack (out t).1] at mem
        cases mem
      cases lock : w.locks (.scope k) with
      | mk locked waiters =>
        rw [lock] at queue free
        subst queue free
        rfl

theorem full_starts {choice : Choice} (free : w.readers = 0 ∧ w.writer = false ∧ ∀ r, w.locks r = {})
    (new : w.pc t = .fresh) (kept : w.mustCancel t = false) (full : (calls t).full)
    (registered : "full" ∈ handlers) :
    (w.resume calls handlers t choice).pc t = .running ["full"] := by
  obtain ⟨none, flag, locks⟩ := free
  change (calls t).scope = "full" at full
  have key : (calls t).lockKey = "full" := by
    unfold Call.lockKey
    rw [if_neg (by rw [full]; decide), full]
  have open' : ¬(w.delivered t).shut.blocked calls t := by
    rintro (set | ⟨-, some⟩)
    · exact absurd (flag.symm.trans set) (by decide)
    · exact absurd (none ▸ some : (0 : ℤ) < 0) (by decide)
  have idle : (w.delivered t).locks .condition = {} := locks .condition
  have scope : ∀ r, ((w.delivered t).counted calls t).locks r = {} := by
    intro r
    unfold World.counted
    split
    · exact locks r
    · exact locks r
  have known : ¬(w.mustCancel t = true ∨ (calls t).scope ∉ handlers) := by
    rw [kept, full]
    simpa using registered
  unfold World.resume
  rw [new]
  dsimp only
  rw [if_neg known, acquire_condition idle, World.enterRw, if_neg open', counted_shut idle,
    World.enterScope, key, World.acquire, if_pos]
  · exact Function.update_self ..
  · change Lock.isFree (((w.delivered t).counted calls t).locks (.scope "full")) _ = true
    rw [scope]
    rfl

end Sound

end Invariant

/-- In every run a full reload excludes every other handler, a scope lock (also of a cascade) has
one holder, so two handlers of one lock key never run together; and when every call is over the
count, the flag and the locks are as new, and a full reload goes straight to its handler. -/
theorem reload_lock_safe (events : List Event) :
    (∀ t u, (calls t).full → ((run calls handlers {} events).pc t).inHandler →
      ((run calls handlers {} events).pc u).inHandler → u = t) ∧
    (∀ t u, ((run calls handlers {} events).pc t).inHandler →
      ((run calls handlers {} events).pc u).inHandler →
      (calls t).lockKey = (calls u).lockKey → t = u) ∧
    (∀ t u k, k ∈ ((run calls handlers {} events).pc t).held →
      k ∈ ((run calls handlers {} events).pc u).held → t = u) ∧
    ((∀ t, ((run calls handlers {} events).pc t).away) →
      (run calls handlers {} events).readers = 0 ∧
      (run calls handlers {} events).writer = false ∧
      (∀ r, (run calls handlers {} events).locks r = {}) ∧
      ∀ t choice, (run calls handlers {} events).pc t = .fresh →
        (run calls handlers {} events).mustCancel t = false → (calls t).full → "full" ∈ handlers →
        ((run calls handlers {} events).resume calls handlers t choice).pc t =
          .running ["full"]) := by
  have sound : Sound calls (run calls handlers {} events) := sound_new.run events
  refine ⟨fun t u => sound.exclusive, fun t u => sound.one_per_key, sound.locked.unique,
    fun away => ?_⟩
  have free := sound.unused away
  exact ⟨free.1, free.2.1, free.2.2, fun t choice => full_starts free⟩

/-- No wake-up is lost: in every run, a call that still waits for the readers-writer lock has
another call behind it, and one of the two is a full reload. -/
theorem waiting_behind (calls : ℕ → Call) (handlers : List String) (events : List Event) {t : ℕ}
    (waits : ((run calls handlers {} events).pc t) = .waiting)
    (unwoken : (run calls handlers {} events).fut t = .pending) :
    ∃ u, u ≠ t ∧ ((run calls handlers {} events).pc u).inside = true ∧
      ((calls u).full ∨ (calls t).full) := by
  have sound : Sound calls (run calls handlers {} events) := sound_new.run events
  have apart {u : ℕ} (inside : ((run calls handlers {} events).pc u).inside = true) : u ≠ t := by
    rintro rfl
    rw [waits] at inside
    cases inside
  rcases sound.parked.blocked t waits unwoken with writer | ⟨full, some_⟩
  · obtain ⟨u, full, inside, -⟩ := sound.counted.alone writer
    exact ⟨u, apart inside, inside, .inl full⟩
  · obtain ⟨readers, -, count, mem⟩ := sound.counted.count
    obtain ⟨u, there⟩ := List.exists_mem_of_length_pos (l := readers) (by omega)
    exact ⟨u, apart ((mem u).mp there).1, ((mem u).mp there).1, .inr full⟩

def fullAndAgents (t : ℕ) : Call := ⟨if t = 0 then "full" else "agent", none⟩

theorem full_behind_reader : ∃ u, u ≠ 0 ∧
    ((run fullAndAgents ["agent", "full"] {} [.resume 1 .idle, .resume 0 .idle]).pc u).inside =
      true ∧ ((fullAndAgents u).full ∨ (fullAndAgents 0).full) :=
  waiting_behind _ _ _ (by decide +kernel) (by decide +kernel)

section Example

private def sample (t : ℕ) : Call :=
  if t = 0 then ⟨"full", none⟩ else ⟨"agent", some "scout"⟩

private def crossing : List Event :=
  [.resume 1 .idle, .resume 2 .idle, .resume 0 .idle, .cancel 2, .resume 1 .finish, .resume 2 .idle]

/-- The last one out notifies the full reload. -/
example : ((run sample ["agent", "full"] {} crossing).resume sample ["agent", "full"] 0 .idle).pc 0 =
    .running ["full"] := by decide +kernel

end Example

end Casa.ReloadLock
