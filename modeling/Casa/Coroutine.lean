import Casa.StepRuns
import Mathlib.Data.List.Basic

/-! Cooperative code under one lock. A program is a tree of atomic blocks: between two
blocks anything the environment may do can happen, so a fact a block has read must be
stable before the next block may use it. `Safe` is the proof rule for one program and
`Machine` runs programs, environment steps and cancellations in any order. -/

namespace Casa.Coroutine
open StepRuns

variable {I σ ε α β ω E K : Type}

/-- Ended, or suspended before a block that runs on the state and input it will find. -/
inductive Co (I σ ε α : Type) where
  | done (r : Except ε α)
  | act (run : I → σ → σ) (next : I → σ → Co I σ ε α)

namespace Co

def bind : Co I σ ε α → (α → Co I σ ε β) → Co I σ ε β
  | done (.ok a), k => k a
  | done (.error e), _ => done (.error e)
  | act run next, k => act run fun i s => (next i s).bind k

instance : Monad (Co I σ ε) where
  pure a := done (.ok a)
  bind := bind

def raise (e : ε) : Co I σ ε α := done (.error e)

/-- One atomic block. -/
def block (f : I → σ → Except ε α × σ) : Co I σ ε α :=
  act (fun i s => (f i s).2) fun i s => done (f i s).1

/-- A block that cannot raise. -/
def step (f : I → σ → α × σ) : Co I σ ε α := block fun i s => (.ok (f i s).1, (f i s).2)

/-- Code between two suspension points that only reads. -/
def look : Co I σ ε σ := act (fun _ s => s) fun _ s => done (.ok s)

def update (f : I → σ → σ) : Co I σ ε PUnit := act f fun _ _ => done (.ok ⟨⟩)

/-- A loop over a list fixed when the loop starts. -/
def forEach (body : β → Co I σ ε PUnit) : List β → Co I σ ε PUnit
  | [] => pure ⟨⟩
  | b :: rest => do
      body b
      forEach body rest

/-- `try p except`: errors without a handler pass through. -/
def rescue (handler : ε → Option (Co I σ ε α)) : Co I σ ε α → Co I σ ε α
  | done (.ok a) => done (.ok a)
  | done (.error e) => (handler e).getD (done (.error e))
  | act run next => act run fun i s => rescue handler (next i s)

end Co

section Rules

/-- What every step keeps, and what one state promises about all later ones. -/
structure Protocol (σ : Type) where
  inv : σ → Prop
  later : σ → σ → Prop
  refl : ∀ s, later s s
  trans : ∀ {s t u}, later s t → later t u → later s u

variable (P : Protocol σ)

/-- Every block keeps the invariant and the promise, whatever happens before it, and a
normal end satisfies `Q` from then on. -/
def Safe : Co I σ ε α → σ → (α → σ → Prop) → Prop
  | .done (.ok a), s, Q => ∀ t, P.later s t → P.inv t → Q a t
  | .done (.error _), _, _ => True
  | .act run next, s, Q => ∀ t, P.later s t → P.inv t → ∀ i,
      P.inv (run i t) ∧ P.later t (run i t) ∧ Safe (next i t) (run i t) Q

variable {P}
variable {Q : α → σ → Prop} {s t : σ}

/-- Time passing is harmless. -/
theorem Safe.later {p : Co I σ ε α} (h : Safe P p s Q) (later : P.later s t) : Safe P p t Q := by
  cases p with
  | done r =>
    cases r with
    | error e => exact h
    | ok a => exact fun u first => h u (P.trans later first)
  | act run next => exact fun u first => h u (P.trans later first)

theorem safe_pure {a : α} (h : ∀ t, P.later s t → P.inv t → Q a t) :
    Safe P (pure a : Co I σ ε α) s Q := h

theorem safe_raise (e : ε) : Safe P (Co.raise e : Co I σ ε α) s Q := trivial

theorem Safe.bind {R : β → σ → Prop} {p : Co I σ ε α} {k : α → Co I σ ε β} (h : Safe P p s Q)
    (inv : P.inv s)
    (next : ∀ a t, P.later s t → P.inv t → Q a t → Safe P (k a) t R) : Safe P (p >>= k) s R := by
  change Safe P (p.bind k) s R
  induction p generalizing s with
  | done r =>
    cases r with
    | error e => trivial
    | ok a => exact next a s (P.refl s) inv (h s (P.refl s) inv)
  | act run rest ih =>
    intro t later invT i
    obtain ⟨keeps, promised, tail⟩ := h t later invT i
    refine ⟨keeps, promised, ih i t tail keeps fun a u first invU post => ?_⟩
    exact next a u (P.trans later (P.trans promised first)) invU post

theorem safe_block {f : I → σ → Except ε α × σ}
    (h : ∀ t, P.later s t → P.inv t → ∀ i, P.inv (f i t).2 ∧ P.later t (f i t).2 ∧
      ∀ a, (f i t).1 = .ok a → ∀ u, P.later (f i t).2 u → P.inv u → Q a u) :
    Safe P (Co.block f) s Q := by
  intro t later inv i
  obtain ⟨keeps, promised, post⟩ := h t later inv i
  refine ⟨keeps, promised, ?_⟩
  change Safe P (Co.done (f i t).1) (f i t).2 Q
  cases result : (f i t).1 with
  | error e => trivial
  | ok a => exact post a result

theorem safe_step {f : I → σ → α × σ}
    (h : ∀ t, P.later s t → P.inv t → ∀ i, P.inv (f i t).2 ∧ P.later t (f i t).2 ∧
      ∀ u, P.later (f i t).2 u → P.inv u → Q (f i t).1 u) :
    Safe P (Co.step f : Co I σ ε α) s Q := by
  refine safe_block fun t later inv i => ?_
  obtain ⟨keeps, promised, post⟩ := h t later inv i
  refine ⟨keeps, promised, ?_⟩
  rintro a ⟨rfl⟩
  exact post

/-- What was read is no later than what is. -/
theorem safe_look : Safe P (Co.look : Co I σ ε σ) s
    (fun seen t => P.inv seen ∧ P.later s seen ∧ P.later seen t) := by
  intro t later inv i
  exact ⟨inv, P.refl t, fun u first _ => ⟨inv, later, first⟩⟩

theorem safe_update {f : I → σ → σ}
    (h : ∀ t, P.later s t → P.inv t → ∀ i, P.inv (f i t) ∧ P.later t (f i t)) :
    Safe P (Co.update f : Co I σ ε PUnit) s (fun _ _ => True) := by
  intro t later inv i
  obtain ⟨keeps, promised⟩ := h t later inv i
  exact ⟨keeps, promised, fun _ _ _ => trivial⟩

theorem safe_forEach {body : β → Co I σ ε PUnit} {items : List β} (inv : P.inv s)
    (h : ∀ b ∈ items, ∀ t, P.later s t → P.inv t → Safe P (body b) t (fun _ _ => True)) :
    Safe P (Co.forEach body items) s (fun _ _ => True) := by
  induction items generalizing s with
  | nil => exact safe_pure fun _ _ _ => trivial
  | cons b rest ih =>
    rw [List.forall_mem_cons] at h
    refine (h.1 s (P.refl s) inv).bind inv fun _ t later invT _ => ih invT ?_
    intro c mem u first invU
    exact h.2 c mem u (P.trans later first) invU

theorem Safe.rescue {p : Co I σ ε α} {handler : ε → Option (Co I σ ε α)} (h : Safe P p s Q)
    (inv : P.inv s)
    (handled : ∀ e q, handler e = some q → ∀ t, P.later s t → P.inv t → Safe P q t Q) :
    Safe P (p.rescue handler) s Q := by
  induction p generalizing s with
  | done r =>
    cases r with
    | ok a => exact h
    | error e =>
      change Safe P ((handler e).getD (.done (.error e))) s Q
      cases found : handler e with
      | none => trivial
      | some q => exact handled e q found s (P.refl s) inv
  | act run rest ih =>
    intro t later invT i
    obtain ⟨keeps, promised, tail⟩ := h t later invT i
    refine ⟨keeps, promised, ih i t tail keeps fun e q found u first => ?_⟩
    exact handled e q found u (P.trans later (P.trans promised first))

end Rules

section Crashes
variable {P : Protocol σ} {Q : α → σ → Prop}

/-- The state a process leaves that dies after as many blocks as there are inputs. -/
def Co.crashed : Co I σ ε α → List I → σ → σ
  | .act run next, i :: rest, s => (next i s).crashed rest (run i s)
  | _, _, s => s

theorem Safe.crashed {p : Co I σ ε α} {s : σ} (h : Safe P p s Q) (inv : P.inv s)
    (inputs : List I) : P.inv (p.crashed inputs s) := by
  induction inputs generalizing p s with
  | nil => cases p <;> exact inv
  | cons i rest ih =>
    cases p with
    | done r => exact inv
    | act run next =>
      obtain ⟨keeps, -, tail⟩ := h s (P.refl s) inv i
      exact ih tail keeps

end Crashes

section Silence
variable (π : σ → ω)

/-- No block changes what `π` sees. -/
def Silent : Co I σ ε α → Prop
  | .done _ => True
  | .act run next => ∀ i s, π (run i s) = π s ∧ Silent (next i s)

variable {π}

theorem Silent.bind {p : Co I σ ε α} {k : α → Co I σ ε β} (h : Silent π p)
    (next : ∀ a, Silent π (k a)) : Silent π (p >>= k) := by
  change Silent π (p.bind k)
  induction p with
  | done r =>
    cases r with
    | error e => trivial
    | ok a => exact next a
  | act run rest ih => exact fun i s => ⟨(h i s).1, ih i s (h i s).2⟩

theorem silent_block {f : I → σ → Except ε α × σ} (h : ∀ i s, π (f i s).2 = π s) :
    Silent π (Co.block f) :=
  fun i s => ⟨h i s, trivial⟩

theorem silent_step {f : I → σ → α × σ} (h : ∀ i s, π (f i s).2 = π s) :
    Silent π (Co.step f : Co I σ ε α) :=
  silent_block h

theorem silent_look : Silent π (Co.look : Co I σ ε σ) := fun _ _ => ⟨rfl, trivial⟩

theorem silent_update {f : I → σ → σ} (h : ∀ i s, π (f i s) = π s) :
    Silent π (Co.update f : Co I σ ε PUnit) :=
  fun i s => ⟨h i s, trivial⟩

theorem silent_forEach {body : β → Co I σ ε PUnit} (h : ∀ b, Silent π (body b)) (items : List β) :
    Silent π (Co.forEach body items) := by
  induction items with
  | nil => trivial
  | cons b rest ih => exact (h b).bind fun _ => ih

end Silence

section Machines

/-- The state and the program that holds the lock. -/
structure Config (I σ ε : Type) where
  state : σ
  running : Option (Co I σ ε PUnit)

inductive Label (E K I : Type) where
  | env (e : E)
  | start (task : K)
  | advance (input : I)
  | leave

/-- What the environment does, and the programs that compete for the lock. -/
structure Machine (E K I σ ε : Type) where
  env : E → σ → σ
  program : K → Co I σ ε PUnit

/-- A task that finds the lock taken waits; the holder leaves it when it has ended, or at any
suspension point when it is cancelled. -/
def Machine.step (m : Machine E K I σ ε) : Label E K I → Config I σ ε → Config I σ ε
  | .env e, c => { c with state := m.env e c.state }
  | .start task, ⟨s, none⟩ => ⟨s, some (m.program task)⟩
  | .start _, c => c
  | .advance i, ⟨s, some (.act run next)⟩ => ⟨run i s, some (next i s)⟩
  | .advance _, c => c
  | .leave, c => { c with running := none }

def Machine.run (m : Machine E K I σ ε) (ls : List (Label E K I)) (c : Config I σ ε) :
    Config I σ ε :=
  ls.foldl (fun c l => m.step l c) c

variable {m : Machine E K I σ ε} {P : Protocol σ}

/-- The invariant holds and the lock holder is safe from here on. -/
structure Guarded (P : Protocol σ) (c : Config I σ ε) : Prop where
  inv : P.inv c.state
  safe : ∀ p, c.running = some p → Safe P p c.state (fun _ _ => True)

theorem Guarded.step {c : Config I σ ε} (h : Guarded P c) (l : Label E K I)
    (env : ∀ e, l = .env e → P.inv (m.env e c.state) ∧ P.later c.state (m.env e c.state))
    (start : ∀ task, Safe P (m.program task) c.state (fun _ _ => True)) :
    Guarded P (m.step l c) := by
  obtain ⟨s, running⟩ := c
  cases l with
  | env e =>
    obtain ⟨inv, later⟩ := env e rfl
    exact ⟨inv, fun p held => (h.safe p held).later later⟩
  | start task =>
    cases running with
    | some p => exact h
    | none =>
      refine ⟨h.inv, fun p held => ?_⟩
      obtain rfl : m.program task = p := Option.some.inj held
      exact start task
  | advance i =>
    cases running with
    | none => exact h
    | some p =>
      cases p with
      | done r => exact h
      | act run next =>
        obtain ⟨inv, _, tail⟩ := h.safe _ rfl s (P.refl s) h.inv i
        refine ⟨inv, fun p held => ?_⟩
        obtain rfl : next i s = p := Option.some.inj held
        exact tail
  | leave => exact ⟨h.inv, fun _ held => by cases held⟩

theorem guarded_of_runs {allowed : Label E K I → Config I σ ε → Prop} {c d : Config I σ ε}
    {ls : List (Label E K I)} (run : Runs m.step allowed c ls d) (h : Guarded P c)
    (env : ∀ e c, allowed (.env e) c → P.inv c.state →
      P.inv (m.env e c.state) ∧ P.later c.state (m.env e c.state))
    (start : ∀ task s, P.inv s → Safe P (m.program task) s (fun _ _ => True)) : Guarded P d :=
  run.invariant (I := Guarded P) (fun l _ ok held => held.step l
    (fun e same => env e _ (same ▸ ok) held.inv) (fun task => start task _ held.inv)) h

end Machines

section Shadows
variable {m : Machine E K I σ ε} {π : σ → ω}

/-- A silent lock holder is invisible: `π` sees only the environment. -/
theorem run_silent (env : ∀ e s t, π s = π t → π (m.env e s) = π (m.env e t))
    {ls : List (Label E K I)} (stays : .leave ∉ ls) {p : Co I σ ε PUnit} (h : Silent π p)
    (r : Except ε PUnit) {s t : σ} (same : π s = π t) :
    π (m.run ls ⟨s, some p⟩).state = π (m.run ls ⟨t, some (.done r)⟩).state := by
  induction ls generalizing p s t with
  | nil => exact same
  | cons l rest ih =>
    rw [List.mem_cons, not_or] at stays
    cases l with
    | env e => exact ih stays.2 h (env e s t same)
    | start task => exact ih stays.2 h same
    | leave => exact absurd rfl stays.1
    | advance i =>
      cases p with
      | done r' => exact ih stays.2 h same
      | act run next => exact ih stays.2 (h i s).2 ((h i s).1.trans same)

/-- Code followed by `q` does to `π` what it does alone, when `q` turns out silent in the state
its first block finds. -/
theorem run_then (env : ∀ e s t, π s = π t → π (m.env e s) = π (m.env e t))
    {ls : List (Label E K I)} (stays : .leave ∉ ls) (p q : Co I σ ε PUnit) (s : σ)
    (quiet : ∀ before after i run next, ls = before ++ .advance i :: after →
      (m.run before ⟨s, some (p >>= fun _ => q)⟩).running = some q → q = .act run next →
      π (run i (m.run before ⟨s, some (p >>= fun _ => q)⟩).state) =
          π (m.run before ⟨s, some (p >>= fun _ => q)⟩).state ∧
        Silent π (next i (m.run before ⟨s, some (p >>= fun _ => q)⟩).state)) :
    π (m.run ls ⟨s, some (p >>= fun _ => q)⟩).state = π (m.run ls ⟨s, some p⟩).state := by
  induction ls generalizing p s with
  | nil => rfl
  | cons l rest ih =>
    rw [List.mem_cons, not_or] at stays
    have shift : ∀ (p' : Co I σ ε PUnit) (s' : σ),
        m.step l ⟨s, some (p >>= fun _ => q)⟩ = ⟨s', some (p' >>= fun _ => q)⟩ →
        π (m.run rest ⟨s', some (p' >>= fun _ => q)⟩).state =
          π (m.run rest ⟨s', some p'⟩).state := by
      intro p' s' moved
      refine ih stays.2 p' s' fun before after i run next split => ?_
      rw [← moved]
      exact quiet (l :: before) after i run next (by rw [split, List.cons_append])
    cases l with
    | env e => exact shift p _ rfl
    | start task => exact shift p s rfl
    | leave => exact absurd rfl stays.1
    | advance i =>
      cases p with
      | act run next => exact shift (next i s) (run i s) rfl
      | done r =>
        cases r with
        | error e => exact shift (.done (.error e)) s rfl
        | ok a =>
          -- `p` has ended here, so the holder is `q` itself and `i` feeds its first block
          cases q with
          | done r => exact run_silent env stays.2 (p := .done r) trivial (.ok a) rfl
          | act run next =>
            obtain ⟨same, silent⟩ := quiet [] rest i run next rfl rfl rfl
            exact run_silent env stays.2 silent (.ok a) same

end Shadows

end Casa.Coroutine
