import Mathlib.Algebra.Order.Field.Rat
import Mathlib.Algebra.Order.Group.Unbundled.Abs
import Mathlib.Order.Lattice
import Mathlib.Tactic.Linarith

/-! Clock readings as floats compute with them: a reading is an exact number, and a sum is the
rounding of the exact sum. Nothing here is about one number format. -/

namespace Casa.RoundedClock

/-- Rounding keeps the order, and the whole numbers of a range come out as they are. -/
structure Rounding where
  round : ℚ → ℚ
  mono : Monotone round
  whole : ∀ n : ℤ, |n| ≤ 2 ^ 53 → round n = n

/-- No rounding at all. -/
def Rounding.exact : Rounding where
  round q := q
  mono := monotone_id
  whole _ _ := rfl

/-- A finite clock reading, in seconds. -/
@[ext] structure Seconds (R : Rounding) where
  value : ℚ
deriving DecidableEq

variable {R : Rounding}

namespace Seconds

instance : LinearOrder (Seconds R) := LinearOrder.lift' Seconds.value fun _ _ => Seconds.ext

instance : Add (Seconds R) := ⟨fun a b => ⟨R.round (a.value + b.value)⟩⟩

instance : NatCast (Seconds R) := ⟨fun n => ⟨n⟩⟩

theorem le_def {a b : Seconds R} : a ≤ b ↔ a.value ≤ b.value := Iff.rfl

@[simp] theorem value_add (a b : Seconds R) : (a + b).value = R.round (a.value + b.value) := rfl

@[simp] theorem value_natCast (n : ℕ) : (n : Seconds R).value = n := rfl

theorem add_natCast_mono (now : Seconds R) {m n : ℕ} (h : m ≤ n) :
    now + (m : Seconds R) ≤ now + (n : Seconds R) := by
  rw [le_def, value_add, value_add, value_natCast, value_natCast]
  apply R.mono
  have cast : (m : ℚ) ≤ n := by exact_mod_cast h
  linarith

theorem value_max (a b : Seconds R) : (max a b).value = max a.value b.value := by
  rcases le_total a b with h | h
  · rw [max_eq_right h, max_eq_right (le_def.mp h)]
  · rw [max_eq_left h, max_eq_left (le_def.mp h)]

/-- The reading lies within a whole bound. -/
def Within (bound : ℕ) (t : Seconds R) : Prop := |t.value| ≤ bound

instance (bound : ℕ) (t : Seconds R) : Decidable (t.Within bound) :=
  inferInstanceAs (Decidable (|t.value| ≤ bound))

theorem Within.mono {a b : ℕ} {t : Seconds R} (h : t.Within a) (le : a ≤ b) : t.Within b :=
  le_trans h (by exact_mod_cast le)

theorem Within.max {bound : ℕ} {a b : Seconds R} (ha : a.Within bound) (hb : b.Within bound) :
    (max a b).Within bound := by
  rcases max_choice a b with h | h <;> rw [h] <;> assumption

/-- A bound that the format holds exactly is not rounded past, from below. -/
theorem Within.add_low {bound offset : ℕ} {t : Seconds R} (h : t.Within bound)
    (small : bound ≤ 2 ^ 53) : -(bound : ℚ) ≤ (t + (offset : Seconds R)).value := by
  have bottom : R.round (-(bound : ℤ) : ℤ) = (-(bound : ℤ) : ℤ) :=
    R.whole (-(bound : ℤ)) (by rw [abs_neg, Nat.abs_cast]; exact_mod_cast small)
  have nonneg : (0 : ℚ) ≤ offset := Nat.cast_nonneg offset
  have low := (abs_le.mp h).1
  have le := R.mono (show ((-(bound : ℤ) : ℤ) : ℚ) ≤ t.value + offset by push_cast; linarith)
  rw [bottom] at le
  rw [value_add, value_natCast]
  simpa using le

/-- Nor from above, if the sum fits. -/
theorem Within.add {bound room offset : ℕ} {t : Seconds R} (h : t.Within room)
    (fits : room + offset ≤ bound) (small : bound ≤ 2 ^ 53) :
    (t + (offset : Seconds R)).Within bound := by
  have top : R.round (bound : ℤ) = (bound : ℤ) :=
    R.whole bound (by rw [Nat.abs_cast]; exact_mod_cast small)
  have sum : (room : ℚ) + offset ≤ bound := by exact_mod_cast fits
  have high := (abs_le.mp h).2
  have le := R.mono (show t.value + offset ≤ ((bound : ℤ) : ℚ) by push_cast; linarith)
  rw [top] at le
  refine abs_le.mpr ⟨(h.mono (le_trans (Nat.le_add_right ..) fits)).add_low small, ?_⟩
  rw [value_add, value_natCast]
  simpa using le

end Seconds

end Casa.RoundedClock
