import Mathlib.Data.Nat.Notation

/-! Half-open intervals of numbers that never cross: two of them are apart, or one lies in the
other. What is left of such intervals when holes are cut out of them never crosses either. -/

namespace Casa.LaminarIntervals

abbrev Interval := ℕ × ℕ

/-- No number is in both. -/
def Apart (a b : Interval) : Prop := a.2 ≤ b.1 ∨ b.2 ≤ a.1

def Within (a b : Interval) : Prop := b.1 ≤ a.1 ∧ a.2 ≤ b.2

def Nested (a b : Interval) : Prop := Apart a b ∨ Within a b ∨ Within b a

theorem Apart.symm {a b : Interval} (apart : Apart a b) : Apart b a := Or.symm apart

theorem Nested.symm {a b : Interval} : Nested a b → Nested b a
  | .inl apart => .inl apart.symm
  | .inr inside => .inr inside.symm

theorem Within.refl (a : Interval) : Within a a := ⟨Nat.le_refl _, Nat.le_refl _⟩

theorem Nested.refl (a : Interval) : Nested a a := .inr (.inl (.refl a))

/-- Parts of what is apart are apart. -/
theorem Apart.within {a b c d : Interval} (apart : Apart b d) (left : Within a b)
    (right : Within c d) : Apart a c := by
  unfold Apart Within at *
  omega

/-- Moving the points in order keeps intervals from crossing. -/
theorem Nested.map {a b : Interval} (nested : Nested a b) {f : ℕ → ℕ}
    (mono : ∀ {i j}, i ≤ j → f i ≤ f j) :
    Nested (f a.1, f a.2) (f b.1, f b.2) := by
  rcases nested with (before | after) | inside | outside
  · exact .inl (.inl (mono before))
  · exact .inl (.inr (mono after))
  · exact .inr (.inl ⟨mono inside.1, mono inside.2⟩)
  · exact .inr (.inr ⟨mono outside.1, mono outside.2⟩)

/-- A longest part of an interval that holes leave. -/
structure Piece (holes : List Interval) (whole part : Interval) : Prop where
  within : Within part whole
  proper : part.1 < part.2
  clear : ∀ h ∈ holes, Apart part h
  left : part.1 = whole.1 ∨ ∃ h ∈ holes, h.1 < h.2 ∧ h.2 = part.1
  right : part.2 = whole.2 ∨ ∃ h ∈ holes, h.1 < h.2 ∧ h.1 = part.2

/-- A part meets a piece of an interval around it only inside the piece. -/
theorem Piece.inside {holes : List Interval} {a b x y : Interval} (first : Piece holes a x)
    (second : Piece holes b y) (inner : Within a b) : Apart x y ∨ Within x y := by
  by_cases apart : Apart x y
  · exact .inl apart
  simp only [Apart, not_or, Nat.not_le] at apart
  refine .inr ⟨?_, ?_⟩
  · rcases second.left with start | ⟨h, mem, proper, ends⟩
    · rw [start]
      exact Nat.le_trans inner.1 first.within.1
    · have clear := first.clear h mem
      unfold Apart at clear
      omega
  · rcases second.right with stop | ⟨h, mem, proper, starts⟩
    · rw [stop]
      exact Nat.le_trans first.within.2 inner.2
    · have clear := first.clear h mem
      unfold Apart at clear
      omega

theorem Piece.nested {holes : List Interval} {a b x y : Interval} (first : Piece holes a x)
    (second : Piece holes b y) (nested : Nested a b) : Nested x y := by
  rcases nested with apart | inner | outer
  · exact .inl (apart.within first.within second.within)
  · rcases first.inside second inner with apart | inside
    · exact .inl apart
    · exact .inr (.inl inside)
  · rcases second.inside first outer with apart | inside
    · exact .inl apart.symm
    · exact .inr (.inr inside)

end Casa.LaminarIntervals
