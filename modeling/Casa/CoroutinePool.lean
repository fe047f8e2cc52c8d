import Casa.Coroutine

/-! Any number of tasks of one process that interleave at their awaits. One of them at a time may
hold a token: it relies on less interference than the others, who therefore promise more. A
task's proof never mentions the other tasks. -/

namespace Casa.CoroutinePool
open StepRuns Coroutine

variable {I σ ε α β E K : Type}

/-- What every step keeps, what may happen to a state in time, and what may happen to it while
some task holds the token. -/
structure Contract (σ : Type) where
  inv : σ → Prop
  later : σ → σ → Prop
  calm : σ → σ → Prop
  taken : σ → Prop
  calm_refl : ∀ s, calm s s
  calm_trans : ∀ {s t u}, calm s t → calm t u → calm s u
  later_trans : ∀ {s t u}, later s t → later t u → later s u
  calm_later : ∀ {s t}, calm s t → later s t
  calm_taken : ∀ {s t}, calm s t → taken s → taken t

/-- Tasks that never take the token. -/
def Contract.tokenless (inv : σ → Prop) (later : σ → σ → Prop) (refl : ∀ s, later s s)
    (trans : ∀ {s t u}, later s t → later t u → later s u) : Contract σ where
  inv := inv
  later := later
  calm := later
  taken := fun _ => False
  calm_refl := refl
  calm_trans := trans
  later_trans := trans
  calm_later := id
  calm_taken := fun _ => False.elim

section Rules
variable (P : Contract σ)

/-- What a task finds changed when it resumes. -/
def Contract.rely : Bool → σ → σ → Prop
  | true => P.calm
  | false => P.later

/-- What one block of a task may do, by whether it holds the token before and after. -/
def Contract.moves : Bool → Bool → σ → σ → Prop
  | false, false, s, t => P.calm s t
  | false, true, s, t => ¬ P.taken s ∧ P.taken t ∧ P.later s t
  | true, true, s, t => P.taken t ∧ P.later s t
  | true, false, s, t => P.later s t

variable {P}

theorem Contract.later_refl (s : σ) : P.later s s := P.calm_later (P.calm_refl s)

theorem Contract.rely_refl (holds : Bool) (s : σ) : P.rely holds s s := by
  cases holds with
  | false => exact P.later_refl s
  | true => exact P.calm_refl s

theorem Contract.rely_trans {holds : Bool} {s t u : σ} (h : P.rely holds s t)
    (h' : P.rely holds t u) : P.rely holds s u := by
  cases holds with
  | false => exact P.later_trans h h'
  | true => exact P.calm_trans h h'

theorem Contract.moves_later {before after : Bool} {s t : σ} (h : P.moves before after s t) :
    P.later s t := by
  cases before <;> cases after
  · exact P.calm_later h
  · exact h.2.2
  · exact h
  · exact h.2

variable (P)

/-- Every block of the task keeps the invariant and moves as it may, and its result satisfies
`Q` from then on. -/
def Keeps : Bool → Co I σ ε α → σ → (Except ε α → Bool → σ → Prop) → Prop
  | holds, .done r, s, Q => ∀ t, P.rely holds s t → P.inv t → (holds → P.taken t) → Q r holds t
  | holds, .act run next, s, Q => ∀ t, P.rely holds s t → P.inv t → (holds → P.taken t) → ∀ i,
      P.inv (run i t) ∧ ∃ after, P.moves holds after t (run i t) ∧
        Keeps after (next i t) (run i t) Q

variable {P}
variable {Q : Except ε α → Bool → σ → Prop} {s t : σ} {holds : Bool}

theorem Keeps.later {p : Co I σ ε α} (h : Keeps P holds p s Q) (passed : P.rely holds s t) :
    Keeps P holds p t Q := by
  cases p with
  | done r => exact fun u first => h u (P.rely_trans passed first)
  | act run next => exact fun u first => h u (P.rely_trans passed first)

theorem Keeps.imp {R : Except ε α → Bool → σ → Prop} {p : Co I σ ε α} (h : Keeps P holds p s Q)
    (weaker : ∀ r holds t, P.inv t → Q r holds t → R r holds t) : Keeps P holds p s R := by
  induction p generalizing holds s with
  | done r => exact fun t passed inv token => weaker r holds t inv (h t passed inv token)
  | act run next ih =>
    intro t passed inv token i
    obtain ⟨keeps, after, moved, tail⟩ := h t passed inv token i
    exact ⟨keeps, after, moved, ih i t tail⟩

theorem keeps_pure {a : α}
    (h : ∀ t, P.rely holds s t → P.inv t → (holds → P.taken t) → Q (.ok a) holds t) :
    Keeps P holds (pure a : Co I σ ε α) s Q := h

theorem keeps_raise {e : ε}
    (h : ∀ t, P.rely holds s t → P.inv t → (holds → P.taken t) → Q (.error e) holds t) :
    Keeps P holds (Co.raise e : Co I σ ε α) s Q := h

/-- A block that passes the token, or keeps what it has of it. -/
theorem keeps_pass {f : I → σ → Except ε α × σ} (after : I → σ → Bool)
    (h : ∀ t, P.rely holds s t → P.inv t → (holds → P.taken t) → ∀ i,
      P.inv (f i t).2 ∧ P.moves holds (after i t) t (f i t).2 ∧
        ∀ u, P.rely (after i t) (f i t).2 u → P.inv u → Q (f i t).1 (after i t) u) :
    Keeps P holds (Co.block f) s Q := by
  intro t passed inv token i
  obtain ⟨keeps, moved, post⟩ := h t passed inv token i
  exact ⟨keeps, after i t, moved, fun u first invU _ => post u first invU⟩

theorem keeps_block {f : I → σ → Except ε α × σ}
    (h : ∀ t, P.rely holds s t → P.inv t → (holds → P.taken t) → ∀ i,
      P.inv (f i t).2 ∧ P.moves holds holds t (f i t).2 ∧
        ∀ u, P.rely holds (f i t).2 u → P.inv u → Q (f i t).1 holds u) :
    Keeps P holds (Co.block f) s Q :=
  keeps_pass (fun _ _ => holds) h

theorem keeps_step {f : I → σ → α × σ}
    (h : ∀ t, P.rely holds s t → P.inv t → (holds → P.taken t) → ∀ i,
      P.inv (f i t).2 ∧ P.moves holds holds t (f i t).2 ∧
        ∀ u, P.rely holds (f i t).2 u → P.inv u → Q (.ok (f i t).1) holds u) :
    Keeps P holds (Co.step f) s Q :=
  keeps_block h

theorem Keeps.bind {R : Except ε β → Bool → σ → Prop} {p : Co I σ ε α} {k : α → Co I σ ε β}
    (h : Keeps P holds p s Q) (inv : P.inv s) (token : holds → P.taken s)
    (next : ∀ a (holds : Bool) t, P.inv t → (holds → P.taken t) → Q (.ok a) holds t →
      Keeps P holds (k a) t R)
    (failed : ∀ e holds t, P.inv t → Q (.error e) holds t → R (.error e) holds t) :
    Keeps P holds (p >>= k) s R := by
  change Keeps P holds (p.bind k) s R
  induction p generalizing holds s with
  | done r =>
    cases r with
    | error e => exact fun t passed invT tokenT => failed e holds t invT (h t passed invT tokenT)
    | ok a => exact next a holds s inv token (h s (P.rely_refl holds s) inv token)
  | act run rest ih =>
    intro t passed invT tokenT i
    obtain ⟨keeps, after, moved, tail⟩ := h t passed invT tokenT i
    refine ⟨keeps, after, moved, ih i t tail keeps fun held => ?_⟩
    subst held
    cases holds with
    | false => exact moved.2.1
    | true => exact moved.1

theorem Keeps.rescue {R : Except ε α → Bool → σ → Prop} {p : Co I σ ε α}
    {handler : ε → Option (Co I σ ε α)} (h : Keeps P holds p s Q) (inv : P.inv s)
    (token : holds → P.taken s)
    (fine : ∀ a holds t, P.inv t → Q (.ok a) holds t → R (.ok a) holds t)
    (handled : ∀ e q, handler e = some q → ∀ (holds : Bool) t, P.inv t → (holds → P.taken t) →
      Q (.error e) holds t → Keeps P holds q t R)
    (passes : ∀ e, handler e = none → ∀ holds t, P.inv t → Q (.error e) holds t →
      R (.error e) holds t) :
    Keeps P holds (p.rescue handler) s R := by
  induction p generalizing holds s with
  | done r =>
    cases r with
    | ok a => exact fun t passed invT tokenT => fine a holds t invT (h t passed invT tokenT)
    | error e =>
      change Keeps P holds ((handler e).getD (.done (.error e))) s R
      cases found : handler e with
      | none =>
        exact fun t passed invT tokenT =>
          passes e found holds t invT (h t passed invT tokenT)
      | some q =>
        exact handled e q found holds s inv token (h s (P.rely_refl holds s) inv token)
  | act run rest ih =>
    intro t passed invT tokenT i
    obtain ⟨keeps, after, moved, tail⟩ := h t passed invT tokenT i
    refine ⟨keeps, after, moved, ih i t tail keeps fun held => ?_⟩
    subst held
    cases holds with
    | false => exact moved.2.1
    | true => exact moved.1

end Rules

section Tokenless
variable {P : Contract σ} (free : ∀ s, ¬ P.taken s) {s : σ}
include free

theorem Keeps.tokenless_bind {Q : Except ε α → Bool → σ → Prop} {p : Co I σ ε α}
    {k : α → Co I σ ε β} (h : Keeps P false p s Q) (inv : P.inv s)
    (next : ∀ a t, P.inv t → Q (.ok a) false t → Keeps P false (k a) t fun _ _ _ => True) :
    Keeps P false (p >>= k) s fun _ _ _ => True := by
  refine h.bind inv (by simp) (fun a holds t invT token post => ?_) fun _ _ _ _ _ => trivial
  cases holds with
  | true => exact absurd (token rfl) (free t)
  | false => exact next a t invT post

theorem Keeps.tokenless_rescue {p : Co I σ ε α} {handler : ε → Option (Co I σ ε α)}
    (h : Keeps P false p s fun _ _ _ => True) (inv : P.inv s)
    (handled : ∀ e q, handler e = some q → ∀ t, P.inv t →
      Keeps P false q t fun _ _ _ => True) :
    Keeps P false (p.rescue handler) s fun _ _ _ => True := by
  refine h.rescue inv (by simp) (fun _ _ _ _ _ => trivial) (fun e q found holds t invT token _ => ?_)
    fun _ _ _ _ _ _ => trivial
  cases holds with
  | true => exact absurd (token rfl) (free t)
  | false => exact handled e q found t invT

end Tokenless

section Pools

/-- The state and the tasks that are running. -/
structure Pool (I σ ε : Type) where
  state : σ
  running : List (Co I σ ε PUnit) := []

inductive Action (E K I : Type) where
  | env (e : E)
  | start (task : K)
  | advance (n : ℕ) (input : I)
  | crash

/-- What the environment does, the tasks, and what a new process makes of the state. -/
structure System (E K I σ ε : Type) where
  env : E → σ → σ
  program : K → Co I σ ε PUnit
  restart : σ → σ

def System.step (m : System E K I σ ε) : Action E K I → Pool I σ ε → Pool I σ ε
  | .env e, c => { c with state := m.env e c.state }
  | .start task, c => { c with running := c.running ++ [m.program task] }
  | .advance n i, c =>
      match c.running[n]? with
      | some (.act run next) => ⟨run i c.state, c.running.set n (next i c.state)⟩
      | _ => c
  | .crash, c => ⟨m.restart c.state, []⟩

variable {m : System E K I σ ε} {P : Contract σ}

/-- The invariant holds, and every running task is safe, one of them perhaps with the token. -/
structure Guarded (P : Contract σ) (c : Pool I σ ε) : Prop where
  inv : P.inv c.state
  tasks : ∃ holder : Option ℕ, (∀ n, holder = some n → n < c.running.length ∧ P.taken c.state) ∧
    ∀ n p, c.running[n]? = some p → Keeps P (holder = some n) p c.state fun _ _ _ => True

theorem Guarded.env {c : Pool I σ ε} (h : Guarded P c) {s : σ} (inv : P.inv s)
    (calm : P.calm c.state s) : Guarded P { c with state := s } := by
  obtain ⟨holder, token, tasks⟩ := h.tasks
  refine ⟨inv, holder, fun n held => ?_, fun n p here => (tasks n p here).later ?_⟩
  · exact ⟨(token n held).1, P.calm_taken calm (token n held).2⟩
  · cases decide (holder = some n) with
    | false => exact P.calm_later calm
    | true => exact calm

theorem Guarded.start {c : Pool I σ ε} (h : Guarded P c) {p : Co I σ ε PUnit}
    (safe : Keeps P false p c.state fun _ _ _ => True) :
    Guarded P { c with running := c.running ++ [p] } := by
  obtain ⟨holder, token, tasks⟩ := h.tasks
  refine ⟨h.inv, holder, fun n held => ?_, fun n q here => ?_⟩
  · exact ⟨by simpa using Nat.lt_succ_of_lt (token n held).1, (token n held).2⟩
  · by_cases old : n < c.running.length
    · exact tasks n q (by rwa [List.getElem?_append_left old] at here)
    · have free : holder ≠ some n := fun held => old (token n held).1
      rw [List.getElem?_append_right (by omega)] at here
      have same : p = q := by
        cases gap : n - c.running.length with
        | zero => simpa [gap] using here
        | succ k => simp [gap] at here
      simpa [free, ← same] using safe

theorem Guarded.advance {c : Pool I σ ε} (h : Guarded P c) {n : ℕ} {run : I → σ → σ}
    {next : I → σ → Co I σ ε PUnit} (here : c.running[n]? = some (.act run next)) (i : I) :
    Guarded P ⟨run i c.state, c.running.set n (next i c.state)⟩ := by
  obtain ⟨holder, token, tasks⟩ := h.tasks
  have inside := (List.getElem?_eq_some_iff.mp here).1
  obtain ⟨inv, after, moved, tail⟩ := tasks n _ here c.state (P.rely_refl _ _) h.inv
    (fun held => (token n (by simpa using held)).2) i
  -- the other tasks rely on the move, each by whether it holds the token
  have others {n' : ℕ} {q : Co I σ ε PUnit} (other : n' ≠ n)
      (there : (c.running.set n (next i c.state))[n']? = some q) {holds : Bool}
      (passed : P.rely (decide (holder = some n')) c.state (run i c.state))
      (same : decide (holder = some n') = holds) :
      Keeps P holds q (run i c.state) fun _ _ _ => True := by
    rw [List.getElem?_set_ne other.symm] at there
    exact same ▸ (tasks n' q there).later passed
  have own {q : Co I σ ε PUnit} (there : (c.running.set n (next i c.state))[n]? = some q) :
      next i c.state = q := by
    simpa [List.getElem?_set_self inside] using there
  cases mine : decide (holder = some n) with
  | true =>
    have held : holder = some n := by simpa using mine
    have alone {n' : ℕ} (other : n' ≠ n) : holder ≠ some n' := by simp [held, other.symm]
    rw [mine] at moved
    refine ⟨inv, if after then some n else none, fun n' has => ?_, fun n' q there => ?_⟩
    · cases after with
      | false => simp at has
      | true =>
        obtain rfl : n = n' := by simpa using has
        exact ⟨by simpa using inside, moved.1⟩
    · by_cases other : n' = n
      · subst other
        obtain rfl := own there
        cases after <;> simpa using tail
      · refine others other there ?_ ?_
        · have free : decide (holder = some n') = false := decide_eq_false (alone other)
          rw [free]
          exact P.moves_later moved
        · cases after <;> simp [alone other, Ne.symm other]
  | false =>
    have free : holder ≠ some n := by simpa using mine
    rw [mine] at moved
    cases after with
    | false =>
      refine ⟨inv, holder, fun n' has => ?_, fun n' q there => ?_⟩
      · exact ⟨by simpa using (token n' has).1, P.calm_taken moved (token n' has).2⟩
      · by_cases other : n' = n
        · subst other
          obtain rfl := own there
          simpa [free] using tail
        · refine others other there ?_ rfl
          cases decide (holder = some n') with
          | false => exact P.calm_later moved
          | true => exact moved
    | true =>
      have nobody : holder = none := by
        cases found : holder with
        | none => rfl
        | some k => exact absurd (token k found).2 moved.1
      refine ⟨inv, some n, fun n' has => ?_, fun n' q there => ?_⟩
      · obtain rfl := Option.some.inj has
        exact ⟨by simpa using inside, moved.2.1⟩
      · by_cases other : n' = n
        · subst other
          obtain rfl := own there
          simpa using tail
        · refine others other there ?_ ?_
          · have free : decide (holder = some n') = false := by simp [nobody]
            rw [free]
            exact moved.2.2
          · simp [nobody, Ne.symm other]

theorem Guarded.step {c : Pool I σ ε} (h : Guarded P c) (l : Action E K I)
    (env : ∀ e, l = .env e → P.inv (m.env e c.state) ∧ P.calm c.state (m.env e c.state))
    (start : ∀ task, l = .start task →
      Keeps P false (m.program task) c.state fun _ _ _ => True)
    (crash : l = .crash → P.inv (m.restart c.state)) : Guarded P (m.step l c) := by
  cases l with
  | env e => exact h.env (env e rfl).1 (env e rfl).2
  | start task => exact h.start (start task rfl)
  | crash => exact ⟨crash rfl, none, by simp, by simp [System.step]⟩
  | advance n i =>
    simp only [System.step]
    split
    case h_1 here => exact h.advance here i
    case h_2 => exact h

theorem guarded_of_runs {allowed : Action E K I → Pool I σ ε → Prop} {c d : Pool I σ ε}
    {ls : List (Action E K I)} (run : Runs m.step allowed c ls d) (h : Guarded P c)
    (env : ∀ e c, allowed (.env e) c → P.inv c.state →
      P.inv (m.env e c.state) ∧ P.calm c.state (m.env e c.state))
    (start : ∀ task c, allowed (.start task) c → P.inv c.state →
      Keeps P false (m.program task) c.state fun _ _ _ => True)
    (crash : ∀ c, allowed .crash c → P.inv c.state → P.inv (m.restart c.state)) :
    Guarded P d := by
  refine run.invariant (I := Guarded P) (fun l c ok held => held.step l ?_ ?_ ?_) h
  · rintro e rfl
    exact env e c ok held.inv
  · rintro task rfl
    exact start task c ok held.inv
  · rintro rfl
    exact crash c ok held.inv

end Pools

end Casa.CoroutinePool
