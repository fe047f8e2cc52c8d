import Mathlib.Logic.Basic

/-! Pre- and postconditions for code that mutates a state and may raise. A raise
does not undo earlier writes, exactly as an exception leaves an object behind,
so that "unchanged on failure" is a theorem to prove and never a convention. -/

namespace Casa.FaultState

variable {ε σ α β : Type}

/-- From `s`, `m` ends either normally with `Q` or by a raise with `E`. -/
def Ends (m : EStateM ε σ α) (s : σ) (Q : α → σ → Prop) (E : ε → σ → Prop) : Prop :=
  match m.run s with
  | .ok a t => Q a t
  | .error e t => E e t

/-- The state left behind, whichever way the run ended. -/
def after (m : EStateM ε σ α) (s : σ) : σ :=
  match m.run s with
  | .ok _ t => t
  | .error _ t => t

def raised (m : EStateM ε σ α) (s : σ) : Option ε :=
  match m.run s with
  | .ok _ _ => none
  | .error e _ => some e

/-- Stop with `e` unless `c` holds. -/
def require (c : Prop) [Decidable c] (e : ε) : EStateM ε σ PUnit :=
  if c then pure ⟨⟩ else throw e

/-- Lift a pure fallible computation. -/
def attempt : Except ε α → EStateM ε σ α
  | .ok a => pure a
  | .error e => throw e

@[simp] theorem ends_pure (a : α) (s : σ) (Q : α → σ → Prop) (E : ε → σ → Prop) :
    Ends (pure a) s Q E ↔ Q a s := Iff.rfl

@[simp] theorem ends_throw (e : ε) (s : σ) (Q : α → σ → Prop) (E : ε → σ → Prop) :
    Ends (throw e) s Q E ↔ E e s := Iff.rfl

@[simp] theorem ends_get (s : σ) (Q : σ → σ → Prop) (E : ε → σ → Prop) :
    Ends get s Q E ↔ Q s s := Iff.rfl

@[simp] theorem ends_modify (f : σ → σ) (s : σ) (Q : PUnit → σ → Prop) (E : ε → σ → Prop) :
    Ends (modify f) s Q E ↔ Q ⟨⟩ (f s) := Iff.rfl

@[simp] theorem ends_bind (m : EStateM ε σ α) (f : α → EStateM ε σ β) (s : σ)
    (Q : β → σ → Prop) (E : ε → σ → Prop) :
    Ends (m >>= f) s Q E ↔ Ends m s (fun a t => Ends (f a) t Q E) E := by
  change Ends (EStateM.bind m f) s Q E ↔ _
  simp only [Ends, EStateM.run, EStateM.bind]
  cases m s <;> rfl

@[simp] theorem ends_map (g : α → β) (m : EStateM ε σ α) (s : σ)
    (Q : β → σ → Prop) (E : ε → σ → Prop) :
    Ends (g <$> m) s Q E ↔ Ends m s (fun a t => Q (g a) t) E := by
  change Ends (EStateM.map g m) s Q E ↔ _
  simp only [Ends, EStateM.run, EStateM.map]
  cases m s <;> rfl

/-- A handler starts in the state that the raise has left. -/
@[simp] theorem ends_tryCatch (m : EStateM ε σ α) (h : ε → EStateM ε σ α) (s : σ)
    (Q : α → σ → Prop) (E : ε → σ → Prop) :
    Ends (tryCatch m h) s Q E ↔ Ends m s Q fun e t => Ends (h e) t Q E := by
  change Ends (EStateM.tryCatch m h) s Q E ↔ _
  delta EStateM.tryCatch
  simp only [Ends, EStateM.run]
  cases m s <;> rfl

@[simp] theorem ends_require (c : Prop) [Decidable c] (e : ε) (s : σ)
    (Q : PUnit → σ → Prop) (E : ε → σ → Prop) :
    Ends (require c e) s Q E ↔ (c → Q ⟨⟩ s) ∧ (¬ c → E e s) := by
  by_cases h : c <;> simp [require, h]

theorem ends_ite (c : Prop) [Decidable c] (m n : EStateM ε σ α) (s : σ)
    (Q : α → σ → Prop) (E : ε → σ → Prop) :
    Ends (if c then m else n) s Q E ↔ (c → Ends m s Q E) ∧ (¬ c → Ends n s Q E) := by
  by_cases h : c <;> simp [h]

theorem ends_attempt (x : Except ε α) (s : σ) (Q : α → σ → Prop) (E : ε → σ → Prop) :
    Ends (attempt x) s Q E ↔ (∀ a, x = .ok a → Q a s) ∧ (∀ e, x = .error e → E e s) := by
  cases x <;> simp [attempt]

/-- Consequence. -/
theorem Ends.mono {m : EStateM ε σ α} {s : σ} {Q Q' : α → σ → Prop} {E E' : ε → σ → Prop}
    (h : Ends m s Q E) (hQ : ∀ a t, Q a t → Q' a t) (hE : ∀ e t, E e t → E' e t) :
    Ends m s Q' E' := by
  unfold Ends at h ⊢
  split at h
  · exact hQ _ _ h
  · exact hE _ _ h

/-- A postcondition on both endings is a postcondition on the state left behind. -/
theorem Ends.after {m : EStateM ε σ α} {s : σ} {P : σ → Prop}
    (h : Ends m s (fun _ t => P t) (fun _ t => P t)) : P (after m s) := by
  unfold Ends at h
  unfold FaultState.after
  split at h <;> exact h

theorem Ends.ok {m : EStateM ε σ α} {s t : σ} {a : α} {Q : α → σ → Prop} {E : ε → σ → Prop}
    (h : Ends m s Q E) (run : m.run s = .ok a t) : Q a t := by
  unfold Ends at h
  rw [run] at h
  exact h

/-- Total correctness: a run that cannot raise returns. -/
theorem Ends.returns {m : EStateM ε σ α} {s : σ} {Q : α → σ → Prop}
    (h : Ends m s Q (fun _ _ => False)) : ∃ a t, m.run s = .ok a t ∧ Q a t := by
  unfold Ends at h
  split at h
  · rename_i a t run
    exact ⟨a, t, run, h⟩
  · exact h.elim

theorem Ends.error {m : EStateM ε σ α} {s : σ} {e : ε} {Q : α → σ → Prop} {E : ε → σ → Prop}
    (h : Ends m s Q E) (run : raised m s = some e) : E e (FaultState.after m s) := by
  unfold Ends at h
  unfold raised at run
  unfold FaultState.after
  split at h
  · simp_all
  · simp_all

theorem after_of_run {m : EStateM ε σ α} {s t : σ} {a : α} (h : m.run s = .ok a t) :
    FaultState.after m s = t := by
  simp [FaultState.after, h]

section Results
variable {P : α → Prop}

/-- Whatever a pure fallible computation returns has `P`. -/
def Yields (x : Except ε α) (P : α → Prop) : Prop := ∀ a, x = .ok a → P a

theorem yields_pure {a : α} (h : P a) : Yields (pure a : Except ε α) P := by
  intro b eq
  exact Except.ok.inj eq ▸ h

theorem Yields.bind {x : Except ε β} {f : β → Except ε α} {Q : β → Prop} (first : Yields x Q)
    (rest : ∀ b, Q b → Yields (f b) P) : Yields (x >>= f) P := by
  cases x with
  | error e => nofun
  | ok b => exact rest b (first b rfl)

/-- What a computation returned can be forgotten. -/
theorem yields_bind {x : Except ε β} {f : β → Except ε α} (rest : ∀ b, Yields (f b) P) :
    Yields (x >>= f) P :=
  Yields.bind (Q := fun _ => True) (fun _ _ => trivial) fun b _ => rest b

end Results

end Casa.FaultState
