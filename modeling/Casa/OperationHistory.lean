import Casa.FallibleTree

/-! What a program without rivals asks for on its way from a state to its end. The licence of the
proof rule is a fact about each of these moments, and so about each place where a crash can fall. -/

namespace Casa.OperationTree
open FallibleTree

variable {S : Signature} {I σ α β γ : Type}

/-- An operation and the state in which it was asked for. -/
structure Event (S : Signature) (σ : Type) where
  op : S.Op
  before : σ

section Runs
variable (run : Device S I σ) (plan : ℕ → I)

def Prog.events : Prog S α → ℕ → σ → List (Event S σ)
  | .done _, _, _ => []
  | .call op next, n, s =>
      ⟨op, s⟩ :: (next (run op (plan n) s).1).events (n + 1) (run op (plan n) s).2

def Prog.outcome : Prog S α → ℕ → σ → α × σ
  | .done a, _, s => (a, s)
  | .call op next, n, s =>
      (next (run op (plan n) s).1).outcome (n + 1) (run op (plan n) s).2

variable {run plan} {inv : σ → Prop} {licence : S.Op → σ → Prop}
variable {kept : ∀ {op i s}, inv s → licence op s → inv (run op i s).2}

/-- A run asks for what its program may ask for. -/
theorem Prog.Within.events {p : Prog S α} {φ : S.Op → Prop} (within : p.Within φ) {n : ℕ} {s : σ}
    {e : Event S σ} (mem : e ∈ p.events run plan n s) : φ e.op := by
  induction p generalizing n s with
  | done a => cases mem
  | call op next ih =>
    rcases List.mem_cons.mp mem with rfl | later
    · exact within.1
    · exact ih _ (within.2 _) later

/-- Under a plan that never changes, what each operation of the run keeps holds at its end. -/
theorem outcome_keeps {P : σ → Prop} (i : I) (p : Prog S α) (n : ℕ) (s : σ) (held : P s)
    (keeps : ∀ e ∈ p.events run (fun _ => i) n s, P e.before → P (run e.op i e.before).2) :
    P (p.outcome run (fun _ => i) n s).2 := by
  induction p generalizing n s with
  | done a => exact held
  | call op next ih =>
    refine ih _ _ _ (keeps _ List.mem_cons_self held) fun e mem => ?_
    exact keeps e (List.mem_cons_of_mem _ mem)

/-- The state before the `k`-th operation, or at the end, has what the operations before it keep. -/
theorem before_keeps {P : σ → Prop} (i : I) (p : Prog S α) (n k : ℕ) (s : σ) (held : P s)
    (keeps : ∀ e ∈ (p.events run (fun _ => i) n s).take k, P e.before →
      P (run e.op i e.before).2) :
    P (((p.events run (fun _ => i) n s)[k]?.map (·.before)).getD
      (p.outcome run (fun _ => i) n s).2) := by
  induction p generalizing n k s with
  | done a => exact held
  | call op next ih =>
    cases k with
    | zero => exact held
    | succ k =>
      refine ih _ _ _ _ (keeps _ List.mem_cons_self held) fun e mem => ?_
      exact keeps e (List.mem_cons_of_mem _ mem)

theorem Meets.sound {p : Prog S α} {Q : α → σ → Prop} {s : σ}
    (meets : Meets (@sequential S I σ run inv licence kept) p s Q) (start : inv s) (n : ℕ) :
    (∀ e ∈ p.events run plan n s, inv e.before ∧ licence e.op e.before) ∧
      inv (p.outcome run plan n s).2 ∧
      Q (p.outcome run plan n s).1 (p.outcome run plan n s).2 := by
  induction p generalizing n s with
  | done a =>
    refine ⟨fun e mem => ?_, start, meets s rfl⟩
    cases mem
  | call op next ih =>
    obtain ⟨licensed, rest⟩ := meets s rfl
    obtain ⟨after, last⟩ := ih _ (rest (plan n)) (kept start licensed) (n + 1)
    refine ⟨fun e mem => ?_, last⟩
    cases List.mem_cons.mp mem with
    | inl head => exact head ▸ ⟨start, licensed⟩
    | inr later => exact after e later

theorem Spec.sound {p : Prog S α} {P : σ → Prop} {Q : α → σ → Prop} {s : σ}
    (spec : Spec (@sequential S I σ run inv licence kept) P p Q) (start : inv s) (held : P s)
    (n : ℕ) :
    (∀ e ∈ p.events run plan n s, inv e.before ∧ licence e.op e.before) ∧
      inv (p.outcome run plan n s).2 ∧
      Q (p.outcome run plan n s).1 (p.outcome run plan n s).2 :=
  (spec s start held).sound start n

end Runs

theorem Meets.and {run : Device S I σ} {C : Discipline run} {p : Prog S α} {Q Q' : α → σ → Prop}
    {s : σ} (h : Meets C p s Q) (h' : Meets C p s Q') :
    Meets C p s fun a t => Q a t ∧ Q' a t := by
  induction p generalizing s with
  | done a => exact fun t moved => ⟨h t moved, h' t moved⟩
  | call op next ih =>
    intro t moved
    exact ⟨(h t moved).1, fun i => ih _ ((h t moved).2 i) ((h' t moved).2 i)⟩

theorem Spec.and {run : Device S I σ} {C : Discipline run} {p : Prog S α} {P : σ → Prop}
    {Q Q' : α → σ → Prop} (h : Spec C P p Q) (h' : Spec C P p Q') :
    Spec C P p fun a t => Q a t ∧ Q' a t :=
  fun s inv held => (h s inv held).and (h' s inv held)

/-- What no operation falsifies holds at the end of every program. -/
theorem spec_any {run : Device S I σ} {C : Discipline run} {P : σ → Prop} (stable : Stable C P)
    (licensed : ∀ op s, C.inv s → P s → C.licence op s)
    (keeps : ∀ op i s, C.inv s → P s → P (run op i s).2) (p : Prog S α) :
    Spec C P p (fun _ => P) := by
  induction p with
  | done a => exact spec_pure stable fun _ _ held => held
  | call op next ih =>
    intro s inv held t moved
    have invT := C.drifted inv moved
    have heldT := stable s t inv moved held
    have allowed := licensed op t invT heldT
    exact ⟨allowed, fun i => ih _ _ (C.kept invT allowed) (keeps op i t invT heldT)⟩

section Loops
variable {run : Device S I σ} {C : Discipline run}

/-- A loop with an invariant about the items that are left and the results so far. -/
theorem spec_forEach_rest {f : β → Prog S γ} (J : List β → List γ → σ → Prop) (items : List β)
    (stable : ∀ rest results, Stable C (J rest results))
    (body : ∀ b rest results, b ∈ items →
      Spec C (J (b :: rest) results) (f b) (fun g => J rest (results ++ [g]))) :
    Spec C (J items []) (Prog.forEach f items) (J []) := by
  have loop : ∀ rest results, rest ⊆ items →
      Spec C (J rest results) (Prog.forEach f rest) (fun more => J [] (results ++ more)) := by
    intro rest
    induction rest with
    | nil =>
      intro results _
      refine spec_pure (stable _ _) fun s _ held => ?_
      rwa [List.append_nil]
    | cons b rest ih =>
      intro results sub
      obtain ⟨mem, subRest⟩ := List.cons_subset.mp sub
      refine (body b rest results mem).bind fun g => ?_
      refine (ih (results ++ [g]) subRest).bind fun more => ?_
      refine spec_pure (stable _ _) fun s _ held => ?_
      rwa [List.append_assoc, List.singleton_append] at held
  exact loop items [] (List.Subset.refl _)

end Loops

theorem spec_ite {run : Device S I σ} {C : Discipline run} {c : Prop} [Decidable c]
    {p q : Prog S α} {P : σ → Prop} {Q : α → σ → Prop} (yes : c → Spec C P p Q)
    (no : ¬c → Spec C P q Q) : Spec C P (if c then p else q) Q := by
  by_cases h : c
  · rw [if_pos h]
    exact yes h
  · rw [if_neg h]
    exact no h

/-- A triple may be proved for one starting state at a time. -/
theorem spec_each {run : Device S I σ} {C : Discipline run} {p : Prog S α} {P : σ → Prop}
    {Q : α → σ → Prop} (h : ∀ s, C.inv s → P s → Spec C (fun t => t = s) p Q) : Spec C P p Q :=
  fun s inv held => h s inv held s inv rfl

end Casa.OperationTree
