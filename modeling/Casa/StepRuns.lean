import Mathlib.Data.List.Basic

/-! Runs of a labelled transition function. A label carries everything a step
reads from outside, so one function describes every behaviour; `allowed` is what
the caller promises about a label in the state where it is used. -/

namespace Casa.StepRuns

variable {L S : Type}

/-- `Runs step allowed s ls t`: the labels `ls`, each allowed where it is taken, lead from `s`
to `t`. -/
inductive Runs (step : L → S → S) (allowed : L → S → Prop) : S → List L → S → Prop
  | nil (s : S) : Runs step allowed s [] s
  | cons {s t : S} {l : L} {ls : List L} (ok : allowed l s)
      (rest : Runs step allowed (step l s) ls t) : Runs step allowed s (l :: ls) t

variable {step : L → S → S} {allowed : L → S → Prop}

theorem Runs.weaken {allowed' : L → S → Prop} (h : ∀ l s, allowed l s → allowed' l s)
    {s t : S} {ls : List L} (run : Runs step allowed s ls t) : Runs step allowed' s ls t := by
  induction run with
  | nil s => exact .nil s
  | cons ok _ ih => exact .cons (h _ _ ok) ih

theorem Runs.append {s t u : S} {ls ms : List L} (first : Runs step allowed s ls t)
    (second : Runs step allowed t ms u) : Runs step allowed s (ls ++ ms) u := by
  induction first with
  | nil s => exact second
  | cons ok _ ih => exact .cons ok (ih second)

/-- Labels that are always allowed can be taken from anywhere. -/
theorem Runs.foldl {ls : List L} (ok : ∀ l ∈ ls, ∀ s, allowed l s) (s : S) :
    Runs step allowed s ls (ls.foldl (fun s l => step l s) s) := by
  induction ls generalizing s with
  | nil => exact .nil s
  | cons l rest ih =>
    rw [List.forall_mem_cons] at ok
    exact .cons (ok.1 s) (ih ok.2 (step l s))

theorem Runs.eq_foldl {s t : S} {ls : List L} (run : Runs step allowed s ls t) :
    t = ls.foldl (fun s l => step l s) s := by
  induction run with
  | nil s => rfl
  | cons _ _ ih => exact ih

/-- Every label is allowed where it is taken. -/
def Legal (step : L → S → S) (allowed : L → S → Prop) : S → List L → Prop
  | _, [] => True
  | s, l :: ls => allowed l s ∧ Legal step allowed (step l s) ls

instance [∀ l s, Decidable (allowed l s)] : ∀ s ls, Decidable (Legal step allowed s ls)
  | _, [] => isTrue trivial
  | s, l :: ls =>
      have := instDecidableLegal (step l s) ls
      inferInstanceAs (Decidable (allowed l s ∧ Legal step allowed (step l s) ls))

theorem Legal.runs {s : S} {ls : List L} (legal : Legal step allowed s ls) :
    Runs step allowed s ls (ls.foldl (fun s l => step l s) s) := by
  induction ls generalizing s with
  | nil => exact .nil s
  | cons l rest ih => exact .cons legal.1 (ih legal.2)

/-- A run can be cut anywhere. -/
theorem Runs.split {s u : S} {ls ms : List L} (run : Runs step allowed s (ls ++ ms) u) :
    ∃ t, Runs step allowed s ls t ∧ Runs step allowed t ms u := by
  induction ls generalizing s with
  | nil => exact ⟨s, .nil s, run⟩
  | cons l rest ih =>
    cases run with
    | cons ok tail =>
      obtain ⟨t, first, second⟩ := ih tail
      exact ⟨t, .cons ok first, second⟩

/-- The invariant rule: what one allowed step keeps, a run keeps. -/
theorem Runs.invariant {I : S → Prop} (keep : ∀ l s, allowed l s → I s → I (step l s))
    {s t : S} {ls : List L} (run : Runs step allowed s ls t) (h : I s) : I t := by
  induction run with
  | nil s => exact h
  | cons ok _ ih => exact ih (keep _ _ ok h)

/-- What an invariant adds to a promise can be promised at every step. -/
theorem Runs.strengthen {I : S → Prop} {allowed' : L → S → Prop}
    (keep : ∀ l s, allowed l s → I s → I (step l s))
    (law : ∀ l s, allowed l s → I s → allowed' l s)
    {s t : S} {ls : List L} (run : Runs step allowed s ls t) (h : I s) :
    Runs step allowed' s ls t := by
  induction run with
  | nil s => exact .nil s
  | cons ok _ ih => exact .cons (law _ _ ok h) (ih (keep _ _ ok h))

/-- Two transition functions that agree on every allowed step have the same runs. -/
theorem Runs.congr {step' : L → S → S} (same : ∀ l s, allowed l s → step l s = step' l s)
    {s t : S} {ls : List L} (run : Runs step allowed s ls t) : Runs step' allowed s ls t := by
  induction run with
  | nil s => exact .nil s
  | cons ok _ ih => exact .cons ok (same _ _ ok ▸ ih)

/-- The two-state rule: a reflexive and transitive law of single steps is a law of runs. -/
theorem Runs.relation {I : S → Prop} {R : S → S → Prop}
    (keep : ∀ l s, allowed l s → I s → I (step l s)) (refl : ∀ s, R s s)
    (trans : ∀ s t u, R s t → R t u → R s u) (law : ∀ l s, allowed l s → I s → R s (step l s))
    {s t : S} {ls : List L} (run : Runs step allowed s ls t) (h : I s) : R s t := by
  induction run with
  | nil s => exact refl s
  | cons ok _ ih => exact trans _ _ _ (law _ _ ok h) (ih (keep _ _ ok h))

end Casa.StepRuns
