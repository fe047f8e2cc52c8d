import Casa.SeparatedText
import Mathlib.Data.List.Basic

/-! Byte strings framed by their lengths: a sequence of them is read back from its frames, whatever
bytes they hold. -/

namespace Casa.Netstring
open SeparatedText (cut_first)

/-- The decimal digits of a number, in ASCII. -/
def digits (n : ℕ) : List UInt8 := (Nat.toDigits 10 n).map fun c => c.toNat.toUInt8

def colon : UInt8 := 58

/-- `str(len(body)) + ":" + body`. -/
def frame (body : List UInt8) : List UInt8 := digits body.length ++ colon :: body

def frames (bodies : List (List UInt8)) : List UInt8 := bodies.flatMap frame

theorem small_of_digit {c : Char} (digit : c.isDigit = true) : 48 ≤ c.toNat ∧ c.toNat ≤ 57 := by
  simp only [Char.isDigit, Bool.and_eq_true, decide_eq_true_eq, ge_iff_le, UInt32.le_iff_toNat_le]
    at digit
  exact digit

theorem isDigit_of_mem {n : ℕ} {c : Char} (inside : c ∈ Nat.toDigits 10 n) : c.isDigit = true :=
  Nat.isDigit_of_mem_toDigits (by omega) (by omega) inside

theorem toNat_byte {c : Char} (digit : c.isDigit = true) : (c.toNat.toUInt8).toNat = c.toNat := by
  have := small_of_digit digit
  rw [Nat.toUInt8_eq, UInt8.toNat_ofNat_of_lt' (by simp [UInt8.size]; omega)]

theorem colon_digits (n : ℕ) : colon ∉ digits n := by
  intro inside
  obtain ⟨c, mem, same⟩ := List.mem_map.1 inside
  have digit := isDigit_of_mem mem
  have value := congrArg UInt8.toNat same
  rw [toNat_byte digit] at value
  have := small_of_digit digit
  have ascii : colon.toNat = 58 := rfl
  omega

theorem digits_injective {n m : ℕ} (same : digits n = digits m) : n = m := by
  have chars : Nat.toDigits 10 n = Nat.toDigits 10 m := by
    have back (k : ℕ) : (digits k).map (fun b => Char.ofNat b.toNat) = Nat.toDigits 10 k := by
      rw [digits, List.map_map]
      refine (List.map_congr_left fun c mem => ?_).trans (List.map_id _)
      rw [Function.comp_apply, toNat_byte (isDigit_of_mem mem), Char.ofNat_toNat, id]
    rw [← back n, same, back m]
  have value (k : ℕ) : Nat.ofDigitChars 10 (Nat.toDigits 10 k) 0 = k :=
    Nat.ofDigitChars_toDigits (by omega) (by omega)
  rw [← value n, chars, value m]

/-- A frame is read off the front of a text. -/
theorem frame_append {b c x y : List UInt8} (same : frame b ++ x = frame c ++ y) :
    b = c ∧ x = y := by
  simp only [frame, List.append_assoc, List.cons_append] at same
  obtain ⟨size, rest⟩ := cut_first (colon_digits _) (colon_digits _) same
  exact List.append_inj rest (digits_injective size)

theorem frame_ne_nil (b : List UInt8) : frame b ≠ [] := by simp [frame]

/-- The framed sequence is determined by its text. -/
theorem frames_injective : Function.Injective frames := by
  intro bodies
  induction bodies with
  | nil =>
    intro other same
    cases other with
    | nil => rfl
    | cons c rest =>
      simp only [frames, List.flatMap_nil, List.flatMap_cons] at same
      exact absurd (List.append_eq_nil_iff.1 same.symm).1 (frame_ne_nil c)
  | cons b bodies ih =>
    intro other same
    cases other with
    | nil =>
      simp only [frames, List.flatMap_nil, List.flatMap_cons] at same
      exact absurd (List.append_eq_nil_iff.1 same).1 (frame_ne_nil b)
    | cons c rest =>
      simp only [frames, List.flatMap_cons] at same
      obtain ⟨rfl, tail⟩ := frame_append same
      rw [ih tail]

end Casa.Netstring
