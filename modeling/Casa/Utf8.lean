import Mathlib.Data.Nat.Notation

/-! UTF-8 over code points and bytes as numbers. What is not UTF-8 decodes with the replacement
character, one for each longest beginning of a character. -/

namespace Casa.Utf8

def isSurrogate (c : ℕ) : Bool := 0xD800 ≤ c && c ≤ 0xDFFF

/-- A code point that UTF-8 can spell. -/
def Scalar (c : ℕ) : Prop := c < 0x110000 ∧ isSurrogate c = false

def encodePoint (c : ℕ) : List ℕ :=
  if c < 0x80 then [c]
  else if c < 0x800 then [0xC0 + c / 0x40, 0x80 + c % 0x40]
  else if c < 0x10000 then [0xE0 + c / 0x1000, 0x80 + c / 0x40 % 0x40, 0x80 + c % 0x40]
  else [0xF0 + c / 0x40000, 0x80 + c / 0x1000 % 0x40, 0x80 + c / 0x40 % 0x40, 0x80 + c % 0x40]

/-- `encode("utf-8", "replace")` of one character. -/
def encodeReplace (c : ℕ) : List ℕ := if isSurrogate c then ['?'.toNat] else encodePoint c

/-- The bytes that a character still owes, the bounds of the next one, and its bits so far. -/
structure Owed where
  more : ℕ
  low : ℕ
  high : ℕ
  bits : ℕ

def replacement : ℕ := 0xFFFD

/-- A byte between characters: what it ends, and what it begins. -/
def begin (b : ℕ) : List ℕ × Option Owed :=
  if b < 0x80 then ([b], none)
  else if 0xC2 ≤ b ∧ b ≤ 0xDF then ([], some ⟨0, 0x80, 0xBF, b - 0xC0⟩)
  else if 0xE0 ≤ b ∧ b ≤ 0xEF then
    ([], some ⟨1, if b = 0xE0 then 0xA0 else 0x80, if b = 0xED then 0x9F else 0xBF, b - 0xE0⟩)
  else if 0xF0 ≤ b ∧ b ≤ 0xF4 then
    ([], some ⟨2, if b = 0xF0 then 0x90 else 0x80, if b = 0xF4 then 0x8F else 0xBF, b - 0xF0⟩)
  else ([replacement], none)

def accept (b : ℕ) : Option Owed → List ℕ × Option Owed
  | none => begin b
  | some owed =>
      if owed.low ≤ b ∧ b ≤ owed.high then
        let bits := owed.bits * 0x40 + (b - 0x80)
        match owed.more with
        | 0 => ([bits], none)
        | more + 1 => ([], some ⟨more, 0x80, 0xBF, bits⟩)
      else (replacement :: (begin b).1, (begin b).2)

def decodeFrom : Option Owed → List ℕ → List ℕ
  | none, [] => []
  | some _, [] => [replacement]
  | owed, b :: s => (accept b owed).1 ++ decodeFrom (accept b owed).2 s

/-- `decode("utf-8", "replace")`. -/
def decodeReplace (s : List ℕ) : List ℕ := decodeFrom none s

theorem decodeFrom_cons (owed : Option Owed) (b : ℕ) (s : List ℕ) :
    decodeFrom owed (b :: s) = (accept b owed).1 ++ decodeFrom (accept b owed).2 s := by
  cases owed <;> rfl

theorem accept_within {b : ℕ} {owed : Owed} (within : owed.low ≤ b ∧ b ≤ owed.high) :
    accept b (some owed) = match owed.more with
      | 0 => ([owed.bits * 0x40 + (b - 0x80)], none)
      | more + 1 => ([], some ⟨more, 0x80, 0xBF, owed.bits * 0x40 + (b - 0x80)⟩) := if_pos within

theorem decodeReplace_encodePoint {c : ℕ} (scalar : Scalar c) (s : List ℕ) :
    decodeReplace (encodePoint c ++ s) = c :: decodeReplace s := by
  obtain ⟨below, plain⟩ := scalar
  simp only [isSurrogate, Bool.and_eq_false_iff, decide_eq_false_iff_not] at plain
  unfold encodePoint decodeReplace
  split
  · next one => simp [decodeFrom_cons, accept, begin, one]
  · split
    · have first : begin (0xC0 + c / 0x40) = ([], some ⟨0, 0x80, 0xBF, c / 0x40⟩) := by
        rw [begin, if_neg (by omega), if_pos (by omega), Nat.add_sub_cancel_left]
      simp only [List.cons_append, List.nil_append, decodeFrom_cons, accept.eq_1, first]
      rw [accept_within ⟨by simp, by simp; omega⟩]
      simp only [List.cons_append, List.nil_append, List.cons.injEq, and_true]
      omega
    · split
      · have first : begin (0xE0 + c / 0x1000) = ([], some ⟨1,
            if 0xE0 + c / 0x1000 = 0xE0 then 0xA0 else 0x80,
            if 0xE0 + c / 0x1000 = 0xED then 0x9F else 0xBF, c / 0x1000⟩) := by
          rw [begin, if_neg (by omega), if_neg (by omega), if_pos (by omega),
            Nat.add_sub_cancel_left]
        simp only [List.cons_append, List.nil_append, decodeFrom_cons, accept.eq_1, first]
        rw [accept_within ⟨by dsimp only; split <;> omega, by dsimp only; split <;> omega⟩]
        dsimp only
        rw [accept_within ⟨by simp, by simp; omega⟩]
        simp only [List.cons_append, List.nil_append, List.cons.injEq, and_true]
        omega
      · have first : begin (0xF0 + c / 0x40000) = ([], some ⟨2,
            if 0xF0 + c / 0x40000 = 0xF0 then 0x90 else 0x80,
            if 0xF0 + c / 0x40000 = 0xF4 then 0x8F else 0xBF, c / 0x40000⟩) := by
          rw [begin, if_neg (by omega), if_neg (by omega), if_neg (by omega), if_pos (by omega),
            Nat.add_sub_cancel_left]
        simp only [List.cons_append, List.nil_append, decodeFrom_cons, accept.eq_1, first]
        rw [accept_within ⟨by dsimp only; split <;> omega, by dsimp only; split <;> omega⟩]
        dsimp only
        rw [accept_within ⟨by simp, by simp; omega⟩]
        dsimp only
        rw [accept_within ⟨by simp, by simp; omega⟩]
        simp only [List.cons_append, List.nil_append, List.cons.injEq, and_true]
        omega

theorem decodeReplace_flatMap {t : List ℕ} (scalar : ∀ c ∈ t, Scalar c) :
    decodeReplace (t.flatMap encodePoint) = t := by
  induction t with
  | nil => rfl
  | cons c rest ih =>
    obtain ⟨first, more⟩ := List.forall_mem_cons.mp scalar
    rw [List.flatMap_cons, decodeReplace_encodePoint first, ih more]

example : decodeReplace [0xE2, 0x82, 0x28, 0xFF] = [replacement, 0x28, replacement] := by decide

end Casa.Utf8
