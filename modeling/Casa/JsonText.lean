import Mathlib.Data.List.Basic
import Mathlib.Data.List.TakeWhile
import Mathlib.Data.Nat.Notation
import Mathlib.Tactic.Common

/-! JSON text as Python writes it with `ensure_ascii=False` and reads it back, and the lines of a
text file. A `str` is a list of code points; only its scalar values have an encoding. -/

namespace Casa.JsonText

/-- A code point of a Python `str`. -/
inductive Code
  | scalar (c : Char)
  | surrogate (n : ℕ)
  deriving DecidableEq

abbrev Text := List Code

def plain (cs : List Char) : Text := cs.map .scalar

/-- UTF-8, strict: a surrogate has no encoding. -/
def encode : Text → Option (List Char)
  | [] => some []
  | .scalar c :: rest => (encode rest).map (c :: ·)
  | .surrogate _ :: _ => none

@[simp] theorem plain_nil : plain [] = [] := rfl

@[simp] theorem plain_cons (c : Char) (cs : List Char) :
    plain (c :: cs) = .scalar c :: plain cs := rfl

@[simp] theorem plain_append (cs ds : List Char) : plain (cs ++ ds) = plain cs ++ plain ds :=
  List.map_append ..

theorem plain_injective {cs ds : List Char} (same : plain cs = plain ds) : cs = ds := by
  induction cs generalizing ds with
  | nil => cases ds <;> simp_all
  | cons c cs ih =>
    cases ds with
    | nil => simp at same
    | cons d ds =>
      simp only [plain_cons, List.cons.injEq, Code.scalar.injEq] at same
      rw [same.1, ih same.2]

theorem encode_eq_some {t : Text} {cs : List Char} : encode t = some cs ↔ t = plain cs := by
  induction t generalizing cs with
  | nil => cases cs <;> simp [encode]
  | cons c rest ih =>
    cases c with
    | surrogate n => cases cs <;> simp [encode]
    | scalar c =>
      cases cs with
      | nil => simp [encode]
      | cons d ds =>
        simp only [encode, Option.map_eq_some_iff, List.cons.injEq, plain_cons, Code.scalar.injEq]
        constructor
        · rintro ⟨_, found, rfl, rfl⟩
          exact ⟨rfl, ih.mp found⟩
        · rintro ⟨rfl, same⟩
          exact ⟨ds, ih.mpr same, rfl, rfl⟩

/-- What can be cut can be encoded piece by piece. -/
theorem plain_eq_append {cs : List Char} {a b : Text} (same : a ++ b = plain cs) :
    ∃ as bs, a = plain as ∧ b = plain bs ∧ cs = as ++ bs := by
  obtain ⟨as, bs, rfl, rfl, rfl⟩ := List.map_eq_append_iff.mp same.symm
  exact ⟨as, bs, rfl, rfl, rfl⟩

/-! ### Numbers -/

/-- The characters a number token is made of. -/
def isNumeric (c : Char) : Bool :=
  c.isDigit || c = '-' || c = '+' || c = '.' || c = 'e' || c = 'E'

/-- Decimal digits without a leading zero. -/
def isWhole (cs : List Char) : Bool := Nat.toDigits 10 (Nat.ofDigitChars 10 cs 0) = cs

def isExponent : List Char → Bool
  | [] => true
  | e :: cs =>
      let digits := match cs with
        | '+' :: rest => rest
        | '-' :: rest => rest
        | _ => cs
      (e = 'e' || e = 'E') && digits ≠ [] && digits.all Char.isDigit

/-- A number with a fraction or an exponent. -/
def isFloat (cs : List Char) : Bool :=
  let body := match cs with
    | '-' :: rest => rest
    | _ => cs
  let tail := body.dropWhile Char.isDigit
  isWhole (body.takeWhile Char.isDigit) && cs.all isNumeric &&
    match tail with
    | [] => false
    | '.' :: rest => rest.takeWhile Char.isDigit ≠ [] && isExponent (rest.dropWhile Char.isDigit)
    | _ => isExponent tail

/-- A `float`, as the text `repr` gives it. -/
structure FloatText where
  chars : List Char
  valid : isFloat chars = true

inductive Json
  | null
  | bool (b : Bool)
  | int (n : Int)
  | float (x : FloatText)
  | str (s : Text)
  | arr (items : List Json)
  | obj (fields : List (Text × Json))

def intChars : Int → List Char
  | .ofNat n => Nat.toDigits 10 n
  | .negSucc n => '-' :: Nat.toDigits 10 (n + 1)

def readInt : List Char → Option Json
  | '-' :: cs => if isWhole cs then some (.int (-(Nat.ofDigitChars 10 cs 0 : ℕ))) else none
  | cs => if isWhole cs then some (.int (Nat.ofDigitChars 10 cs 0 : ℕ)) else none

/-- The number a token names. -/
def readNumber (cs : List Char) : Option Json :=
  if float : isFloat cs = true then some (.float ⟨cs, float⟩) else readInt cs

/-! ### Strings -/

def hexChar (n : ℕ) : Char := Char.ofNat (if n < 10 then 48 + n else 87 + n)

def hexVal (c : Char) : Option ℕ :=
  if c.isDigit then some (c.toNat - 48)
  else if 'a' ≤ c && c ≤ 'f' then some (c.toNat - 87)
  else if 'A' ≤ c && c ≤ 'F' then some (c.toNat - 55)
  else none

/-- `ESCAPE_DCT` and `\u00xx` for the other control characters. -/
def escapeChar (c : Char) : List Char :=
  if c = '"' then ['\\', '"']
  else if c = '\\' then ['\\', '\\']
  else if c = '\n' then ['\\', 'n']
  else if c = '\r' then ['\\', 'r']
  else if c = '\t' then ['\\', 't']
  else if c.toNat = 12 then ['\\', 'f']
  else if c.toNat = 8 then ['\\', 'b']
  else if c.toNat < 32 then ['\\', 'u', '0', '0', hexChar (c.toNat / 16), hexChar (c.toNat % 16)]
  else [c]

def escape : Code → Text
  | .scalar c => plain (escapeChar c)
  | .surrogate n => [.surrogate n]

def dumpsText (s : Text) : Text := .scalar '"' :: (s.flatMap escape ++ [.scalar '"'])

def unescape : Char → Option Char
  | '"' => some '"'
  | '\\' => some '\\'
  | '/' => some '/'
  | 'b' => some (Char.ofNat 8)
  | 'f' => some (Char.ofNat 12)
  | 'n' => some '\n'
  | 'r' => some '\r'
  | 't' => some '\t'
  | _ => none

/-- The code point of a `\u` escape. -/
def codeOf (n : ℕ) : Code :=
  if 0xD800 ≤ n ∧ n < 0xE000 then .surrogate n else .scalar (Char.ofNat n)

/-- The rest of a string after its opening quote; control characters are refused. -/
def parseString : List Char → Option (Text × List Char)
  | '"' :: rest => some ([], rest)
  | '\\' :: 'u' :: a :: b :: c :: d :: rest =>
      match hexVal a, hexVal b, hexVal c, hexVal d with
      | some a, some b, some c, some d =>
          (parseString rest).map fun r => (codeOf (4096 * a + 256 * b + 16 * c + d) :: r.1, r.2)
      | _, _, _, _ => none
  | '\\' :: c :: rest =>
      match unescape c with
      | some c => (parseString rest).map fun r => (.scalar c :: r.1, r.2)
      | none => none
  | c :: rest =>
      if c.toNat < 32 || c = '\\' then none
      else (parseString rest).map fun r => (.scalar c :: r.1, r.2)
  | [] => none

/-- Two escapes of a surrogate pair are one code point. -/
def joinPairs : Text → Text
  | .surrogate h :: .surrogate l :: rest =>
      if h < 0xDC00 ∧ 0xDC00 ≤ l then
        .scalar (Char.ofNat (0x10000 + 0x400 * (h - 0xD800) + (l - 0xDC00))) :: joinPairs rest
      else .surrogate h :: joinPairs (.surrogate l :: rest)
  | c :: rest => c :: joinPairs rest
  | [] => []

/-! ### Documents -/

mutual
/-- `json.dumps` with the default separators. -/
def dumps : Json → Text
  | .null => plain ['n', 'u', 'l', 'l']
  | .bool true => plain ['t', 'r', 'u', 'e']
  | .bool false => plain ['f', 'a', 'l', 's', 'e']
  | .int n => plain (intChars n)
  | .float x => plain x.chars
  | .str s => dumpsText s
  | .arr items => .scalar '[' :: dumpsItems items
  | .obj fields => .scalar '{' :: dumpsMembers fields

def dumpsItems : List Json → Text
  | [] => [.scalar ']']
  | [v] => dumps v ++ [.scalar ']']
  | v :: w :: rest => dumps v ++ plain [',', ' '] ++ dumpsItems (w :: rest)

def dumpsMembers : List (Text × Json) → Text
  | [] => [.scalar '}']
  | [(k, v)] => dumpsText k ++ plain [':', ' '] ++ dumps v ++ [.scalar '}']
  | (k, v) :: m :: rest =>
      dumpsText k ++ plain [':', ' '] ++ dumps v ++ plain [',', ' '] ++ dumpsMembers (m :: rest)
end

/-- JSON whitespace. -/
def isBlank (c : Char) : Bool := c = ' ' || c = '\n' || c = '\r' || c = '\t'

def skip (cs : List Char) : List Char := cs.dropWhile isBlank

mutual
/-- One value and what follows it; the fuel is the length of the text. -/
def parseValue : ℕ → List Char → Option (Json × List Char)
  | 0, _ => none
  | n + 1, cs =>
      match cs with
      | 'n' :: 'u' :: 'l' :: 'l' :: rest => some (.null, rest)
      | 't' :: 'r' :: 'u' :: 'e' :: rest => some (.bool true, rest)
      | 'f' :: 'a' :: 'l' :: 's' :: 'e' :: rest => some (.bool false, rest)
      | '"' :: rest => (parseString rest).map fun r => (.str (joinPairs r.1), r.2)
      | '[' :: rest =>
          match skip rest with
          | ']' :: rest => some (.arr [], rest)
          | rest => (parseItems n rest).map fun r => (.arr r.1, r.2)
      | '{' :: rest =>
          match skip rest with
          | '}' :: rest => some (.obj [], rest)
          | rest => (parseMembers n rest).map fun r => (.obj r.1, r.2)
      | _ => (readNumber (cs.takeWhile isNumeric)).map fun v => (v, cs.dropWhile isNumeric)

def parseItems : ℕ → List Char → Option (List Json × List Char)
  | 0, _ => none
  | n + 1, cs =>
      match parseValue n cs with
      | none => none
      | some (v, rest) =>
          match skip rest with
          | ']' :: rest => some ([v], rest)
          | ',' :: rest => (parseItems n (skip rest)).map fun r => (v :: r.1, r.2)
          | _ => none

def parseMembers : ℕ → List Char → Option (List (Text × Json) × List Char)
  | 0, _ => none
  | n + 1, '"' :: cs =>
      match parseString cs with
      | none => none
      | some (k, rest) =>
          match skip rest with
          | ':' :: rest =>
              match parseValue n (skip rest) with
              | none => none
              | some (v, rest) =>
                  match skip rest with
                  | '}' :: rest => some ([(joinPairs k, v)], rest)
                  | ',' :: rest =>
                      (parseMembers n (skip rest)).map fun r => ((joinPairs k, v) :: r.1, r.2)
                  | _ => none
          | _ => none
  | _ + 1, _ => none
end

/-- `json.loads`, without the literals `NaN` and `Infinity`. -/
def loads (cs : List Char) : Option Json :=
  match parseValue (cs.length + 1) (skip cs) with
  | some (v, rest) => if skip rest = [] then some v else none
  | none => none

/-! ### Lines -/

/-- Where `str.splitlines` cuts. -/
def isLineBreak (c : Char) : Bool :=
  let n := c.toNat
  (0x0A ≤ n && n ≤ 0x0D) || (0x1C ≤ n && n ≤ 0x1E) || n == 0x85 || n == 0x2028 || n == 0x2029

def splitlines : List Char → List (List Char)
  | [] => []
  | '\r' :: '\n' :: rest => [] :: splitlines rest
  | c :: rest =>
      if isLineBreak c then [] :: splitlines rest
      else
        match splitlines rest with
        | [] => [[c]]
        | l :: ls => (c :: l) :: ls

/-! ### Reading back what was written -/

theorem isDigit_intDigits {n : ℕ} {c : Char} (mem : c ∈ Nat.toDigits 10 n) : c.isDigit = true :=
  Nat.isDigit_of_mem_toDigits (by omega) (by omega) mem

theorem takeWhile_digits (n : ℕ) :
    (Nat.toDigits 10 n).takeWhile Char.isDigit = Nat.toDigits 10 n ∧
      (Nat.toDigits 10 n).dropWhile Char.isDigit = [] := by
  constructor
  · exact List.takeWhile_eq_self_iff.mpr fun c mem => isDigit_intDigits mem
  · exact List.dropWhile_eq_nil_iff.mpr fun c mem => isDigit_intDigits mem

theorem isWhole_toDigits (n : ℕ) : isWhole (Nat.toDigits 10 n) = true := by
  rw [isWhole, Nat.ofDigitChars_ten_toDigits]
  simp

/-- No text of digits starts with a sign. -/
theorem toDigits_head (n : ℕ) (rest : List Char) : Nat.toDigits 10 n ≠ '-' :: rest := by
  intro same
  have digit := isDigit_intDigits (n := n) (c := '-') (by simp [same])
  simp at digit

theorem readNumber_intChars (n : Int) : readNumber (intChars n) = some (.int n) := by
  have whole (n : ℕ) : isFloat (Nat.toDigits 10 n) = false := by
    unfold isFloat
    split
    case h_1 same => exact absurd same (toDigits_head n _)
    case h_2 => simp [(takeWhile_digits n).2]
  have signed (n : ℕ) : isFloat ('-' :: Nat.toDigits 10 n) = false := by
    simp [isFloat, (takeWhile_digits n).2]
  cases n with
  | ofNat n =>
    rw [intChars, readNumber, dif_neg (by simp [whole]), readInt]
    · simp [isWhole_toDigits]
    · exact toDigits_head n
  | negSucc n =>
    rw [intChars, readNumber, dif_neg (by simp [signed]), readInt, if_pos (isWhole_toDigits _),
      Nat.ofDigitChars_ten_toDigits]
    rfl

theorem readNumber_float (x : FloatText) : readNumber x.chars = some (.float x) := by
  rw [readNumber, dif_pos x.valid]

/-- A control character escapes to the two low digits of its number. -/
theorem hex_control (n : ℕ) (control : n < 32) :
    hexVal (hexChar (n / 16)) = some (n / 16) ∧ hexVal (hexChar (n % 16)) = some (n % 16) := by
  have all : ∀ n, n < 16 → hexVal (hexChar n) = some n := by decide
  exact ⟨all _ (by omega), all _ (by omega)⟩

theorem parseString_escape (c : Char) (rest : List Char) :
    parseString (escapeChar c ++ rest) =
      (parseString rest).map fun r => (.scalar c :: r.1, r.2) := by
  have named {d : Char} (code : c.toNat = d.toNat) : c = d := Char.toNat_inj.mp code
  unfold escapeChar
  split_ifs with quote slash newline ret tab feed back control
  · simp [parseString, unescape, quote]
  · simp [parseString, unescape, slash]
  · simp [parseString, unescape, newline]
  · simp [parseString, unescape, ret]
  · simp [parseString, unescape, tab]
  · obtain rfl : c = Char.ofNat 12 := named feed
    simp [parseString, unescape]
  · obtain rfl : c = Char.ofNat 8 := named back
    simp [parseString, unescape]
  · obtain ⟨high, low⟩ := hex_control c.toNat control
    have zero : hexVal '0' = some 0 := by decide
    have same : codeOf (4096 * 0 + 256 * 0 + 16 * (c.toNat / 16) + c.toNat % 16) = .scalar c := by
      have sum : 4096 * 0 + 256 * 0 + 16 * (c.toNat / 16) + c.toNat % 16 = c.toNat := by omega
      rw [sum, codeOf, if_neg (by omega), Char.ofNat_toNat]
    simp only [List.cons_append, List.nil_append, parseString, zero, high, low, same]
  · simp [parseString, slash, control]

theorem parseString_plain (s rest : List Char) :
    parseString (s.flatMap escapeChar ++ '"' :: rest) = some (plain s, rest) := by
  induction s with
  | nil => simp [parseString]
  | cons c s ih =>
    rw [List.flatMap_cons, List.append_assoc, parseString_escape, ih]
    rfl

theorem joinPairs_plain (s : List Char) : joinPairs (plain s) = plain s := by
  induction s with
  | nil => rfl
  | cons c s ih => rw [plain_cons, joinPairs, ih]; simp

/-- A string that can be encoded has no surrogate. -/
theorem dumpsText_plain {s : Text} {cs : List Char} (same : dumpsText s = plain cs) :
    ∃ t, s = plain t ∧ cs = '"' :: (t.flatMap escapeChar ++ ['"']) := by
  have body (s : Text) {cs : List Char} (same : s.flatMap escape = plain cs) :
      ∃ t, s = plain t ∧ cs = t.flatMap escapeChar := by
    induction s generalizing cs with
    | nil => exact ⟨[], rfl, plain_injective same.symm⟩
    | cons c s ih =>
      rw [List.flatMap_cons] at same
      obtain ⟨as, bs, first, rest, rfl⟩ := plain_eq_append same
      obtain ⟨t, rfl, rfl⟩ := ih rest
      cases c with
      | surrogate n => cases as <;> simp [escape] at first
      | scalar c => exact ⟨c :: t, rfl, by rw [← plain_injective first, List.flatMap_cons]⟩
  cases cs with
  | nil => simp [dumpsText] at same
  | cons c cs =>
    simp only [dumpsText, plain_cons, List.cons.injEq, Code.scalar.injEq] at same
    obtain ⟨as, bs, inner, last, rfl⟩ := plain_eq_append same.2
    obtain ⟨t, rfl, rfl⟩ := body s inner
    obtain rfl : bs = ['"'] := plain_injective last.symm
    exact ⟨t, rfl, by rw [same.1]⟩

/-- No number goes on into what follows. -/
def Stops (rest : List Char) : Prop := ∀ c, rest.head? = some c → isNumeric c = false

theorem skip_cons {c : Char} (solid : isBlank c = false) (rest : List Char) :
    skip (c :: rest) = c :: rest := List.dropWhile_cons_of_neg (by simp [solid])

theorem skip_space {c : Char} (solid : isBlank c = false) (rest : List Char) :
    skip (' ' :: c :: rest) = c :: rest := by
  have blank : isBlank ' ' = true := by decide
  rw [skip, List.dropWhile_cons_of_pos blank]
  exact skip_cons solid rest

theorem parseValue_number {c : Char} (numeric : isNumeric c = true) (n : ℕ) (cs : List Char) :
    parseValue (n + 1) (c :: cs) =
      (readNumber ((c :: cs).takeWhile isNumeric)).map
        fun v => (v, (c :: cs).dropWhile isNumeric) := by
  rw [parseValue]
  all_goals
    intros
    rename_i same
    rw [(List.cons.inj same).1] at numeric
    revert numeric
    decide

/-- A number token ends where the numeric characters end. -/
theorem parseValue_token {cs rest : List Char} {v : Json} (some_ : cs ≠ [])
    (numeric : ∀ c ∈ cs, isNumeric c = true) (stops : Stops rest) (n : ℕ)
    (read : readNumber cs = some v) : parseValue (n + 1) (cs ++ rest) = some (v, rest) := by
  have taken : (cs ++ rest).takeWhile isNumeric = cs ∧
      (cs ++ rest).dropWhile isNumeric = rest := by
    cases rest with
    | nil =>
      rw [List.append_nil]
      exact ⟨List.takeWhile_eq_self_iff.mpr numeric, List.dropWhile_eq_nil_iff.mpr numeric⟩
    | cons d rest =>
      have stop : isNumeric d = false := stops d rfl
      rw [List.takeWhile_append_of_pos numeric, List.dropWhile_append_of_pos numeric]
      simp [stop]
  cases cs with
  | nil => exact absurd rfl some_
  | cons c cs =>
    rw [List.cons_append, parseValue_number (numeric c List.mem_cons_self), ← List.cons_append,
      taken.1, taken.2, read]
    rfl

theorem numeric_intChars (n : Int) : ∀ c ∈ intChars n, isNumeric c = true := by
  have digits (n : ℕ) (c : Char) (mem : c ∈ Nat.toDigits 10 n) : isNumeric c = true := by
    simp [isNumeric, isDigit_intDigits mem]
  cases n with
  | ofNat n => exact digits n
  | negSucc n =>
    intro c mem
    rcases List.mem_cons.mp mem with rfl | later
    · decide
    · exact digits _ c later

theorem intChars_ne_nil (n : Int) : intChars n ≠ [] := by
  cases n with
  | ofNat n => exact Nat.toDigits_ne_nil
  | negSucc n => simp [intChars]

theorem numeric_float (x : FloatText) : ∀ c ∈ x.chars, isNumeric c = true := by
  have valid := x.valid
  simp only [isFloat, Bool.and_eq_true] at valid
  exact List.all_eq_true.mp valid.1.2

theorem float_ne_nil (x : FloatText) : x.chars ≠ [] := by
  have valid := x.valid
  intro none
  rw [none] at valid
  revert valid
  decide

/-- A value starts with a character that is neither blank nor a closing bracket. -/
theorem dumps_head (j : Json) {cs : List Char} (same : dumps j = plain cs) :
    ∃ c rest, cs = c :: rest ∧ isBlank c = false ∧ c ≠ ']' := by
  have numeric {cs : List Char} (solid : cs ≠ []) (all : ∀ c ∈ cs, isNumeric c = true) :
      ∃ c rest, cs = c :: rest ∧ isBlank c = false ∧ c ≠ ']' := by
    obtain ⟨c, rest, rfl⟩ := List.exists_cons_of_ne_nil solid
    have head := all c List.mem_cons_self
    refine ⟨c, rest, rfl, ?_, ?_⟩
    · by_contra blank
      simp only [isBlank, Bool.not_eq_false, Bool.or_eq_true, decide_eq_true_eq] at blank
      rcases blank with ((rfl | rfl) | rfl) | rfl <;> revert head <;> decide
    · rintro rfl
      revert head
      decide
  cases j with
  | null =>
    obtain rfl := plain_injective (same.symm.trans (by rw [dumps]))
    exact ⟨_, _, rfl, rfl, by decide⟩
  | bool b =>
    cases b <;> obtain rfl := plain_injective (same.symm.trans (by rw [dumps])) <;>
      exact ⟨_, _, rfl, rfl, by decide⟩
  | int i =>
    obtain rfl := plain_injective (same.symm.trans (by rw [dumps]))
    exact numeric (intChars_ne_nil i) (numeric_intChars i)
  | float x =>
    obtain rfl := plain_injective (same.symm.trans (by rw [dumps]))
    exact numeric (float_ne_nil x) (numeric_float x)
  | str s =>
    obtain ⟨t, _, rfl⟩ := dumpsText_plain (same.symm.trans (by rw [dumps])).symm
    exact ⟨_, _, rfl, rfl, by decide⟩
  | arr items =>
    cases cs with
    | nil => simp [dumps] at same
    | cons c cs =>
      simp only [dumps, plain_cons, List.cons.injEq, Code.scalar.injEq] at same
      exact ⟨c, cs, rfl, same.1 ▸ rfl, by rw [← same.1]; decide⟩
  | obj fields =>
    cases cs with
    | nil => simp [dumps] at same
    | cons c cs =>
      simp only [dumps, plain_cons, List.cons.injEq, Code.scalar.injEq] at same
      exact ⟨c, cs, rfl, same.1 ▸ rfl, by rw [← same.1]; decide⟩

theorem stops_cons {c : Char} (stop : isNumeric c = false) (rest : List Char) :
    Stops (c :: rest) := by
  rintro d ⟨rfl⟩
  exact stop

theorem parseValue_bracket {c : Char} (solid : isBlank c = false) (inside : c ≠ ']') (n : ℕ)
    (cs : List Char) : parseValue (n + 1) ('[' :: c :: cs) =
      (parseItems n (c :: cs)).map fun r => (.arr r.1, r.2) := by
  rw [parseValue, skip_cons solid]
  split
  case h_1 same => exact absurd (List.cons.inj same).1 inside
  case h_2 => rfl

theorem parseValue_brace (n : ℕ) (cs : List Char) : parseValue (n + 1) ('{' :: '"' :: cs) =
    (parseMembers n ('"' :: cs)).map fun r => (.obj r.1, r.2) := by
  rw [parseValue, skip_cons (by decide)]
  rfl

/-- Where a value ends inside a list or an object. -/
theorem parseValue_then {j : Json} {as : List Char} {n : ℕ} {c : Char} (rest : List Char)
    (read : ∀ rest, Stops rest → parseValue n (as ++ rest) = some (j, rest))
    (stop : isNumeric c = false) : parseValue n (as ++ c :: rest) = some (j, c :: rest) :=
  read _ (stops_cons stop rest)

theorem dumpsMembers_head {k : Text} {v : Json} {fields : List (Text × Json)} {cs : List Char}
    (same : dumpsMembers ((k, v) :: fields) = plain cs) : ∃ rest, cs = '"' :: rest := by
  cases cs with
  | nil => cases fields <;> simp [dumpsMembers, dumpsText] at same
  | cons c cs =>
    have head : c = '"' := by
      cases fields <;> simp [dumpsMembers, dumpsText] at same <;> exact same.1.symm
    exact ⟨cs, by rw [head]⟩

/-- A key and its value, and what is then decided by the next character. -/
theorem parseMembers_first {t as rest : List Char} {c : Char} {v : Json} {n : ℕ}
    (solid : isBlank c = false) (read : parseValue n (c :: (as ++ rest)) = some (v, rest)) :
    parseMembers (n + 1) ('"' :: (t.flatMap escapeChar ++ '"' :: ':' :: ' ' :: c :: (as ++ rest))) =
      match skip rest with
      | '}' :: rest => some ([(plain t, v)], rest)
      | ',' :: rest => (parseMembers n (skip rest)).map fun r => ((plain t, v) :: r.1, r.2)
      | _ => none := by
  rw [parseMembers, parseString_plain]
  simp only [skip_cons (show isBlank ':' = false by decide), skip_space solid, read,
    joinPairs_plain]

theorem dumpsItems_head (v : Json) (items : List Json) {cs : List Char}
    (same : dumpsItems (v :: items) = plain cs) :
    ∃ c rest, cs = c :: rest ∧ isBlank c = false ∧ c ≠ ']' := by
  cases items with
  | nil =>
    obtain ⟨as, bs, first, _, rfl⟩ := plain_eq_append (same.symm.trans (by rw [dumpsItems])).symm
    obtain ⟨c, rest, rfl, solid, inside⟩ := dumps_head v first
    exact ⟨c, rest ++ bs, rfl, solid, inside⟩
  | cons w items =>
    obtain ⟨_, bs, left, _, rfl⟩ := plain_eq_append (same.symm.trans (by rw [dumpsItems])).symm
    obtain ⟨as, ds, first, _, rfl⟩ := plain_eq_append left
    obtain ⟨c, rest, rfl, solid, inside⟩ := dumps_head v first
    exact ⟨c, rest ++ ds ++ bs, rfl, solid, inside⟩

mutual
/-- The parser gives back a written value and what follows it. -/
theorem parseValue_dumps : (j : Json) → {cs : List Char} → dumps j = plain cs → (n : ℕ) →
    cs.length ≤ n → ∀ rest, Stops rest → parseValue n (cs ++ rest) = some (j, rest)
  | j, _, same, 0, enough, _, _ => by
    obtain ⟨c, rest, rfl, _⟩ := dumps_head j same
    simp at enough
  | .null, cs, same, n + 1, _, rest, _ => by
    obtain rfl := plain_injective (same.symm.trans (by rw [dumps]))
    rfl
  | .bool true, cs, same, n + 1, _, rest, _ => by
    obtain rfl := plain_injective (same.symm.trans (by rw [dumps]))
    rfl
  | .bool false, cs, same, n + 1, _, rest, _ => by
    obtain rfl := plain_injective (same.symm.trans (by rw [dumps]))
    rfl
  | .int i, cs, same, n + 1, _, rest, stops => by
    obtain rfl := plain_injective (same.symm.trans (by rw [dumps]))
    exact parseValue_token (intChars_ne_nil i) (numeric_intChars i) stops n (readNumber_intChars i)
  | .float x, cs, same, n + 1, _, rest, stops => by
    obtain rfl := plain_injective (same.symm.trans (by rw [dumps]))
    exact parseValue_token (float_ne_nil x) (numeric_float x) stops n (readNumber_float x)
  | .str s, cs, same, n + 1, _, rest, _ => by
    rw [dumps] at same
    obtain ⟨t, rfl, rfl⟩ := dumpsText_plain same
    rw [List.cons_append, List.append_assoc, List.cons_append, List.nil_append, parseValue,
      parseString_plain, Option.map_some, joinPairs_plain]
  | .arr [], cs, same, n + 1, _, rest, _ => by
    obtain rfl : cs = ['[', ']'] := plain_injective (same.symm.trans (by simp [dumps, dumpsItems]))
    rfl
  | .arr (v :: items), cs, same, n + 1, enough, rest, _ => by
    obtain ⟨as, bs, first, tail, rfl⟩ :=
      plain_eq_append (a := [.scalar '[']) (same.symm.trans (by rw [dumps]; rfl)).symm
    obtain rfl : as = ['['] := plain_injective first.symm
    obtain ⟨c, cs, rfl, solid, inside⟩ := dumpsItems_head v items tail
    rw [List.append_assoc, List.singleton_append, List.cons_append,
      parseValue_bracket solid inside, ← List.cons_append,
      parseItems_dumps (v :: items) (by simp) tail n (by simpa using enough) rest]
    rfl
  | .obj [], cs, same, n + 1, _, rest, _ => by
    obtain rfl : cs = ['{', '}'] :=
      plain_injective (same.symm.trans (by simp [dumps, dumpsMembers]))
    rfl
  | .obj ((k, v) :: fields), cs, same, n + 1, enough, rest, _ => by
    obtain ⟨as, bs, first, tail, rfl⟩ :=
      plain_eq_append (a := [.scalar '{']) (same.symm.trans (by rw [dumps]; rfl)).symm
    obtain rfl : as = ['{'] := plain_injective first.symm
    obtain ⟨cs, rfl⟩ := dumpsMembers_head tail
    rw [List.append_assoc, List.singleton_append, List.cons_append, parseValue_brace,
      ← List.cons_append,
      parseMembers_dumps ((k, v) :: fields) (by simp) tail n (by simpa using enough) rest]
    rfl

theorem parseItems_dumps : (items : List Json) → {cs : List Char} → items ≠ [] →
    dumpsItems items = plain cs → (n : ℕ) → cs.length ≤ n →
    ∀ rest, parseItems n (cs ++ rest) = some (items, rest)
  | [], _, some_, _, _, _, _ => absurd rfl some_
  | [v], cs, _, same, n, enough, rest => by
    obtain ⟨as, bs, first, last, rfl⟩ := plain_eq_append (same.symm.trans (by rw [dumpsItems])).symm
    obtain rfl : bs = [']'] := plain_injective last.symm
    cases n with
    | zero => simp at enough
    | succ n =>
      have read := parseValue_then rest (c := ']')
        (parseValue_dumps v first n (by simpa using enough)) (by decide)
      rw [List.append_assoc, List.singleton_append, parseItems, read]
      rfl
  | v :: w :: items, cs, _, same, n, enough, rest => by
    obtain ⟨_, bs, left, tail, rfl⟩ := plain_eq_append (same.symm.trans (by rw [dumpsItems])).symm
    obtain ⟨as, ds, first, comma, rfl⟩ := plain_eq_append left
    obtain rfl : ds = [',', ' '] := plain_injective comma.symm
    cases n with
    | zero => simp at enough
    | succ n =>
      obtain ⟨c, cs, rfl, solid, _⟩ := dumpsItems_head w items tail
      simp only [List.length_append, List.length_cons, List.length_nil] at enough
      have read := parseValue_then (' ' :: c :: (cs ++ rest)) (c := ',')
        (parseValue_dumps v first n (by omega)) (by decide)
      have more := parseItems_dumps (w :: items) (by simp) tail n
        (by simp only [List.length_cons]; omega) rest
      have shape : as ++ [',', ' '] ++ c :: cs ++ rest = as ++ ',' :: ' ' :: c :: (cs ++ rest) := by
        simp
      rw [shape, parseItems, read]
      change Option.map _ (parseItems n (skip (' ' :: c :: (cs ++ rest)))) = _
      rw [skip_space solid, ← List.cons_append, more]
      rfl

theorem parseMembers_dumps : (fields : List (Text × Json)) → {cs : List Char} → fields ≠ [] →
    dumpsMembers fields = plain cs → (n : ℕ) → cs.length ≤ n →
    ∀ rest, parseMembers n (cs ++ rest) = some (fields, rest)
  | [], _, some_, _, _, _, _ => absurd rfl some_
  | (k, v) :: fields, _, _, same, 0, enough, _ => by
    obtain ⟨cs, rfl⟩ := dumpsMembers_head same
    simp at enough
  | [(k, v)], cs, _, same, n + 1, enough, rest => by
    obtain ⟨_, bs, pair, last, rfl⟩ :=
      plain_eq_append (same.symm.trans (by rw [dumpsMembers])).symm
    obtain ⟨_, as, front, value, rfl⟩ := plain_eq_append pair
    obtain ⟨_, ds, key, colon, rfl⟩ := plain_eq_append front
    obtain ⟨t, rfl, rfl⟩ := dumpsText_plain key
    obtain rfl : bs = ['}'] := plain_injective last.symm
    obtain rfl : ds = [':', ' '] := plain_injective colon.symm
    obtain ⟨c, cs, rfl, solid, _⟩ := dumps_head v value
    simp only [List.length_append, List.length_cons, List.length_nil] at enough
    have read := parseValue_then rest (c := '}')
      (parseValue_dumps v value n (by simp only [List.length_cons]; omega)) (by decide)
    simpa [skip_cons (show isBlank '}' = false by decide)] using
      parseMembers_first (t := t) solid read
  | (k, v) :: (k', v') :: fields, cs, _, same, n + 1, enough, rest => by
    obtain ⟨_, bs, pair, tail, rfl⟩ :=
      plain_eq_append (same.symm.trans (by rw [dumpsMembers])).symm
    obtain ⟨_, es, entry, comma, rfl⟩ := plain_eq_append pair
    obtain ⟨_, as, front, value, rfl⟩ := plain_eq_append entry
    obtain ⟨_, ds, key, colon, rfl⟩ := plain_eq_append front
    obtain ⟨t, rfl, rfl⟩ := dumpsText_plain key
    obtain rfl : es = [',', ' '] := plain_injective comma.symm
    obtain rfl : ds = [':', ' '] := plain_injective colon.symm
    obtain ⟨c, cs, rfl, solid, _⟩ := dumps_head v value
    obtain ⟨more, rfl⟩ := dumpsMembers_head tail
    simp only [List.length_append, List.length_cons, List.length_nil] at enough
    have read := parseValue_then (' ' :: '"' :: (more ++ rest)) (c := ',')
      (parseValue_dumps v value n (by simp only [List.length_cons]; omega)) (by decide)
    have others := parseMembers_dumps ((k', v') :: fields) (by simp) tail n
      (by simp only [List.length_cons]; omega) rest
    have step := parseMembers_first (t := t) solid read
    rw [skip_cons (show isBlank ',' = false by decide)] at step
    simp only [skip_space (show isBlank '"' = false by decide)] at step
    rw [List.cons_append] at others
    rw [others] at step
    simpa using step
end

/-- What `json.dumps` writes, `json.loads` reads back. -/
theorem loads_dumps {j : Json} {cs : List Char} (written : encode (dumps j) = some cs) :
    loads cs = some j := by
  have same := encode_eq_some.mp written
  obtain ⟨c, rest, rfl, solid, _⟩ := dumps_head j same
  have read := parseValue_dumps j same ((c :: rest).length + 1) (by omega) [] (by simp [Stops])
  rw [List.append_nil] at read
  rw [loads, skip_cons solid, read]
  rfl

/-! ### Lines read back -/

theorem splitlines_line {l : List Char} (whole : ∀ c ∈ l, isLineBreak c = false)
    (rest : List Char) : splitlines (l ++ '\n' :: rest) = l :: splitlines rest := by
  induction l with
  | nil => rw [List.nil_append, splitlines, if_pos (by decide)]; simp
  | cons c l ih =>
    rw [List.forall_mem_cons] at whole
    rw [List.cons_append, splitlines, if_neg (by simp [whole.1]), ih whole.2]
    rintro rest rfl
    simp [isLineBreak] at whole

/-- A file of whole lines is read line by line. -/
theorem splitlines_lines {ls : List (List Char)}
    (whole : ∀ l ∈ ls, ∀ c ∈ l, isLineBreak c = false) :
    splitlines (ls.flatMap (· ++ ['\n'])) = ls := by
  induction ls with
  | nil => rfl
  | cons l ls ih =>
    rw [List.forall_mem_cons] at whole
    rw [List.flatMap_cons, List.append_assoc, List.singleton_append, splitlines_line whole.1,
      ih whole.2]

/-- The line breaks that JSON leaves as they are: U+0085, U+2028 and U+2029. -/
def isRawBreak (c : Char) : Bool :=
  let n := c.toNat
  n == 0x85 || n == 0x2028 || n == 0x2029

def Tame (t : Text) : Prop := ∀ c, Code.scalar c ∈ t → isRawBreak c = false

def OneLine (t : Text) : Prop := ∀ c, Code.scalar c ∈ t → isLineBreak c = false

def isTameCode : Code → Bool
  | .scalar c => !isRawBreak c
  | .surrogate _ => true

theorem all_isTameCode {t : Text} : t.all isTameCode = true ↔ Tame t := by
  rw [List.all_eq_true]
  constructor
  · intro all c mem
    simpa [isTameCode] using all _ mem
  · rintro tame (c | n) mem
    · simp [isTameCode, tame c mem]
    · rfl

instance (t : Text) : Decidable (Tame t) := decidable_of_iff _ all_isTameCode

mutual
/-- No text in the document holds such a break. -/
def Json.Tame : Json → Prop
  | .str s => JsonText.Tame s
  | .arr items => TameItems items
  | .obj fields => TameMembers fields
  | _ => True

def TameItems : List Json → Prop
  | [] => True
  | v :: rest => v.Tame ∧ TameItems rest

def TameMembers : List (Text × Json) → Prop
  | [] => True
  | (k, v) :: rest => JsonText.Tame k ∧ v.Tame ∧ TameMembers rest
end

theorem OneLine.append {t u : Text} (h : OneLine t) (h' : OneLine u) : OneLine (t ++ u) :=
  fun c mem => (List.mem_append.mp mem).elim (h c) (h' c)

theorem OneLine.cons {c : Char} {t : Text} (solid : isLineBreak c = false) (h : OneLine t) :
    OneLine (.scalar c :: t) := by
  intro d mem
  rcases List.mem_cons.mp mem with same | later
  · rw [Code.scalar.inj same]
    exact solid
  · exact h d later

theorem oneLine_nil : OneLine [] := fun _ mem => nomatch mem

theorem oneLine_plain {cs : List Char} (solid : cs.all (fun c => !isLineBreak c) = true) :
    OneLine (plain cs) := by
  intro c mem
  obtain ⟨d, inside, same⟩ := List.mem_map.mp mem
  rw [← Code.scalar.inj same]
  simpa using List.all_eq_true.mp solid d inside

/-- An escaped character is no line break, unless it is one that JSON does not escape. -/
theorem oneLine_escape (c : Char) (tame : isRawBreak c = false) :
    (escapeChar c).all (fun d => !isLineBreak d) = true := by
  have hex : ∀ n, n < 16 → isLineBreak (hexChar n) = false := by decide
  unfold escapeChar
  split_ifs with quote slash newline ret tab feed back control
  · decide
  · decide
  · decide
  · decide
  · decide
  · decide
  · decide
  · have high := hex (c.toNat / 16) (by omega)
    have low := hex (c.toNat % 16) (by omega)
    have fixed : (['\\', 'u', '0', '0'].all fun d => !isLineBreak d) = true := by decide
    rw [show ∀ x y : Char, ['\\', 'u', '0', '0', x, y] = ['\\', 'u', '0', '0'] ++ [x, y] from
      fun _ _ => rfl, List.all_append, fixed]
    simp [high, low]
  · rw [List.all_cons, List.all_nil, Bool.and_true, Bool.not_eq_true']
    by_contra breaks
    simp only [isRawBreak, Bool.or_eq_false_iff, beq_eq_false_iff_ne] at tame
    simp only [isLineBreak, Bool.not_eq_false, Bool.or_eq_true, Bool.and_eq_true,
      decide_eq_true_eq, beq_iff_eq] at breaks
    omega

theorem oneLine_dumpsText {s : Text} (tame : Tame s) : OneLine (dumpsText s) := by
  refine .cons (by decide) (.append ?_ (.cons (by decide) oneLine_nil))
  intro d mem
  obtain ⟨x, inside, escaped⟩ := List.mem_flatMap.mp mem
  cases x with
  | surrogate n => simp [escape] at escaped
  | scalar c => exact oneLine_plain (oneLine_escape c (tame c inside)) d escaped

theorem oneLine_numeric {cs : List Char} (numeric : ∀ c ∈ cs, isNumeric c = true) :
    OneLine (plain cs) := by
  refine oneLine_plain (List.all_eq_true.mpr fun c mem => ?_)
  have head := numeric c mem
  rw [Bool.not_eq_true']
  by_contra breaks
  have low : c.toNat < 43 ∨ 101 < c.toNat := by
    simp only [isLineBreak, Bool.not_eq_false, Bool.or_eq_true, Bool.and_eq_true,
      decide_eq_true_eq, beq_iff_eq] at breaks
    omega
  have high : 43 ≤ c.toNat ∧ c.toNat ≤ 101 := by
    simp only [isNumeric, Char.isDigit, Bool.or_eq_true, Bool.and_eq_true,
      decide_eq_true_eq] at head
    rcases head with ((((⟨low, high⟩ | rfl) | rfl) | rfl) | rfl) | rfl
    · exact ⟨Nat.le_trans (by decide) low, Nat.le_trans high (by decide)⟩
    all_goals decide +kernel
  omega

mutual
/-- A tame document is written on one line. -/
theorem oneLine_dumps : (j : Json) → j.Tame → OneLine (dumps j)
  | .null, _ => by rw [dumps]; exact oneLine_plain (by decide)
  | .bool true, _ => by rw [dumps]; exact oneLine_plain (by decide)
  | .bool false, _ => by rw [dumps]; exact oneLine_plain (by decide)
  | .int i, _ => by rw [dumps]; exact oneLine_numeric (numeric_intChars i)
  | .float x, _ => by rw [dumps]; exact oneLine_numeric (numeric_float x)
  | .str s, tame => by rw [dumps]; exact oneLine_dumpsText tame
  | .arr items, tame => by rw [dumps]; exact .cons (by decide) (oneLine_dumpsItems items tame)
  | .obj fields, tame => by rw [dumps]; exact .cons (by decide) (oneLine_dumpsMembers fields tame)

theorem oneLine_dumpsItems : (items : List Json) → TameItems items → OneLine (dumpsItems items)
  | [], _ => by rw [dumpsItems]; exact .cons (by decide) oneLine_nil
  | [v], tame => by
    rw [dumpsItems]
    exact (oneLine_dumps v tame.1).append (.cons (by decide) oneLine_nil)
  | v :: w :: items, tame => by
    rw [dumpsItems]
    exact ((oneLine_dumps v tame.1).append (oneLine_plain (by decide))).append
      (oneLine_dumpsItems (w :: items) tame.2)

theorem oneLine_dumpsMembers : (fields : List (Text × Json)) → TameMembers fields →
    OneLine (dumpsMembers fields)
  | [], _ => by rw [dumpsMembers]; exact .cons (by decide) oneLine_nil
  | [(k, v)], tame => by
    rw [dumpsMembers]
    exact (((oneLine_dumpsText tame.1).append (oneLine_plain (by decide))).append
      (oneLine_dumps v tame.2.1)).append (.cons (by decide) oneLine_nil)
  | (k, v) :: m :: fields, tame => by
    rw [dumpsMembers]
    exact ((((oneLine_dumpsText tame.1).append (oneLine_plain (by decide))).append
      (oneLine_dumps v tame.2.1)).append (oneLine_plain (by decide))).append
      (oneLine_dumpsMembers (m :: fields) tame.2.2)
end

end Casa.JsonText
