import Mathlib.Data.List.DropRight

/-! Base64 with the alphabet for URLs, as Python's `base64` writes and reads it. The reader is
lenient: it passes over the characters it does not know. -/

namespace Casa.Base64Url

/-- The character of six bits, with `-` and `_` in place of `+` and `/`. -/
def letter (n : ℕ) : Char :=
  if n < 26 then Char.ofNat ('A'.toNat + n)
  else if n < 52 then Char.ofNat ('a'.toNat + (n - 26))
  else if n < 62 then Char.ofNat ('0'.toNat + (n - 52))
  else if n = 62 then '-' else '_'

/-- The six bits of a character. `-` and `_` are translated before the table of the plain
alphabet is asked, so that `+` and `/` are in it as well. -/
def sextet (c : Char) : Option ℕ :=
  if 'A' ≤ c ∧ c ≤ 'Z' then some (c.toNat - 'A'.toNat)
  else if 'a' ≤ c ∧ c ≤ 'z' then some (c.toNat - 'a'.toNat + 26)
  else if '0' ≤ c ∧ c ≤ '9' then some (c.toNat - '0'.toNat + 52)
  else if c = '-' ∨ c = '+' then some 62
  else if c = '_' ∨ c = '/' then some 63
  else none

def urlsafeB64encode : List UInt8 → List Char
  | [] => []
  | [a] => [letter (a.toNat / 4), letter (a.toNat % 4 * 16), '=', '=']
  | [a, b] => [letter (a.toNat / 4), letter (a.toNat % 4 * 16 + b.toNat / 16),
      letter (b.toNat % 16 * 4), '=']
  | a :: b :: c :: rest => letter (a.toNat / 4) :: letter (a.toNat % 4 * 16 + b.toNat / 16) ::
      letter (b.toNat % 16 * 4 + c.toNat / 64) :: letter (c.toNat % 64) :: urlsafeB64encode rest

/-- `rstrip("=")`. -/
def rstripPad (cs : List Char) : List Char := cs.rdropWhile (· = '=')

/-- `binascii.a2b_base64`, not strict: the position in a group of four, the bits left over, and the
padding seen. -/
def a2b : ℕ → ℕ → ℕ → List Char → Option (List UInt8)
  | quad, _, _, [] => if quad = 0 then some [] else none
  | quad, left, pads, c :: rest =>
      if c = '=' then
        if 2 ≤ quad then
          if 4 ≤ quad + (pads + 1) then some [] else a2b quad left (pads + 1) rest
        else a2b quad left pads rest
      else match sextet c with
        | none => a2b quad left pads rest
        | some n =>
            if quad = 0 then a2b 1 n 0 rest
            else if quad = 1 then
              (a2b 2 (n % 16) 0 rest).map (UInt8.ofNat (left * 4 + n / 16) :: ·)
            else if quad = 2 then
              (a2b 3 (n % 4) 0 rest).map (UInt8.ofNat (left * 16 + n / 4) :: ·)
            else (a2b 0 0 0 rest).map (UInt8.ofNat (left * 64 + n) :: ·)

def urlsafeB64decode (cs : List Char) : Option (List UInt8) := a2b 0 0 0 cs

/-- The padding that `-len(payload) % 4` asks for. -/
def padding (length : ℕ) : List Char := List.replicate ((4 - length % 4) % 4) '='

/-! ### Letters -/

theorem letter_spec {n : ℕ} (small : n < 64) :
    sextet (letter n) = some n ∧ letter n ≠ '=' ∧ (letter n).toNat < 128 := by
  have all : ∀ n, n < 64 →
      sextet (letter n) = some n ∧ letter n ≠ '=' ∧ (letter n).toNat < 128 := by decide +kernel
  exact all n small

theorem sextet_letter {n : ℕ} (small : n < 64) : sextet (letter n) = some n :=
  (letter_spec small).1

theorem letter_ne_pad {n : ℕ} (small : n < 64) : letter n ≠ '=' := (letter_spec small).2.1

theorem letter_ascii {n : ℕ} (small : n < 64) : (letter n).toNat < 128 := (letter_spec small).2.2

/-! ### The unpadded spelling -/

/-- The characters that carry bits. -/
def payload (wire : List UInt8) : List Char := rstripPad (urlsafeB64encode wire)

theorem encode_letters (wire : List UInt8) :
    ∃ digits, urlsafeB64encode wire = digits ++ padding digits.length ∧
      digits.length = (4 * wire.length + 2) / 3 ∧
      ∀ c ∈ digits, c ≠ '=' ∧ c.toNat < 128 := by
  have plain {n : ℕ} (small : n < 64) : letter n ≠ '=' ∧ (letter n).toNat < 128 :=
    ⟨letter_ne_pad small, letter_ascii small⟩
  fun_induction urlsafeB64encode wire with
  | case1 => exact ⟨[], rfl, rfl, by simp⟩
  | case2 a =>
    have ha := a.toNat_lt
    refine ⟨[letter (a.toNat / 4), letter (a.toNat % 4 * 16)], rfl, by simp, ?_⟩
    simp only [List.forall_mem_cons, List.not_mem_nil, false_implies, implies_true, and_true]
    exact ⟨plain (by omega), plain (by omega)⟩
  | case3 a b =>
    have ha := a.toNat_lt
    have hb := b.toNat_lt
    refine ⟨[letter (a.toNat / 4), letter (a.toNat % 4 * 16 + b.toNat / 16),
      letter (b.toNat % 16 * 4)], rfl, by simp, ?_⟩
    simp only [List.forall_mem_cons, List.not_mem_nil, false_implies, implies_true, and_true]
    exact ⟨plain (by omega), plain (by omega), plain (by omega)⟩
  | case4 a b c rest ih =>
    have ha := a.toNat_lt
    have hb := b.toNat_lt
    have hc := c.toNat_lt
    obtain ⟨digits, is, length, inside⟩ := ih
    refine ⟨letter (a.toNat / 4) :: letter (a.toNat % 4 * 16 + b.toNat / 16) ::
      letter (b.toNat % 16 * 4 + c.toNat / 64) :: letter (c.toNat % 64) :: digits, ?_, ?_, ?_⟩
    · have same : padding (digits.length + 1 + 1 + 1 + 1) = padding digits.length := by
        unfold padding
        congr 1
        omega
      simp only [List.length_cons, List.cons_append, same, is]
    · simp only [List.length_cons, length]
      omega
    · simp only [List.forall_mem_cons]
      exact ⟨plain (by omega), plain (by omega), plain (by omega), plain (by omega), inside⟩

theorem rstripPad_padding {digits : List Char} (inside : ∀ c ∈ digits, c ≠ '=') (length : ℕ) :
    rstripPad (digits ++ padding length) = digits := by
  unfold rstripPad padding
  induction (4 - length % 4) % 4 with
  | zero =>
    rw [List.replicate_zero, List.append_nil]
    rcases List.eq_nil_or_concat digits with rfl | ⟨front, c, rfl⟩
    · rfl
    · rw [List.concat_eq_append, List.rdropWhile_concat_neg]
      simpa using inside c (by simp)
  | succ n ih =>
    rw [List.replicate_succ', ← List.append_assoc, List.rdropWhile_concat_pos _ _ _ (by simp), ih]

theorem padded (wire : List UInt8) :
    urlsafeB64encode wire = payload wire ++ padding (payload wire).length := by
  obtain ⟨digits, is, -, inside⟩ := encode_letters wire
  rw [payload, is, rstripPad_padding fun c mem => (inside c mem).1]

/-- A payload is as long as its bytes need, and made of letters. -/
theorem payload_spec (wire : List UInt8) :
    (payload wire).length = (4 * wire.length + 2) / 3 ∧
      ∀ c ∈ payload wire, c ≠ '=' ∧ c.toNat < 128 := by
  obtain ⟨digits, is, length, inside⟩ := encode_letters wire
  rw [payload, is, rstripPad_padding fun c mem => (inside c mem).1]
  exact ⟨length, inside⟩

/-! ### Reading back -/

theorem a2b_letter {quad left pads n : ℕ} (small : n < 64) (rest : List Char) :
    a2b quad left pads (letter n :: rest) =
      if quad = 0 then a2b 1 n 0 rest
      else if quad = 1 then
        (a2b 2 (n % 16) 0 rest).map (UInt8.ofNat (left * 4 + n / 16) :: ·)
      else if quad = 2 then
        (a2b 3 (n % 4) 0 rest).map (UInt8.ofNat (left * 16 + n / 4) :: ·)
      else (a2b 0 0 0 rest).map (UInt8.ofNat (left * 64 + n) :: ·) := by
  rw [a2b, if_neg (letter_ne_pad small), sextet_letter small]

theorem ofNat_eq {n : ℕ} {a : UInt8} (same : n = a.toNat) : UInt8.ofNat n = a := by
  rw [same, UInt8.ofNat_toNat]

theorem decode_encode (wire : List UInt8) :
    urlsafeB64decode (urlsafeB64encode wire) = some wire := by
  unfold urlsafeB64decode
  fun_induction urlsafeB64encode wire with
  | case1 => rfl
  | case2 a =>
    have ha := a.toNat_lt
    rw [a2b_letter (by omega), if_pos rfl, a2b_letter (by omega), if_neg (by decide), if_pos rfl,
      ofNat_eq (a := a) (by omega)]
    rfl
  | case3 a b =>
    have ha := a.toNat_lt
    have hb := b.toNat_lt
    rw [a2b_letter (by omega), if_pos rfl, a2b_letter (by omega), if_neg (by decide), if_pos rfl,
      a2b_letter (by omega), if_neg (by decide), if_neg (by decide), if_pos rfl,
      ofNat_eq (a := a) (by omega), ofNat_eq (a := b) (by omega)]
    rfl
  | case4 a b c rest ih =>
    have ha := a.toNat_lt
    have hb := b.toNat_lt
    have hc := c.toNat_lt
    rw [a2b_letter (by omega), if_pos rfl, a2b_letter (by omega), if_neg (by decide), if_pos rfl,
      a2b_letter (by omega), if_neg (by decide), if_neg (by decide), if_pos rfl,
      a2b_letter (by omega), if_neg (by decide), if_neg (by decide), if_neg (by decide),
      ofNat_eq (a := a) (by omega), ofNat_eq (a := b) (by omega), ofNat_eq (a := c) (by omega), ih]
    rfl

end Casa.Base64Url
