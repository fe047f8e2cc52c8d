import Casa.JsonText
import Mathlib.Data.List.Lex
import Mathlib.Data.List.Sort

/-! The canonical JSON of a tool's arguments, what the operator is shown of it, and `json.loads`,
all on the code points of a Python `str`, surrogates among them. -/

namespace Casa.CanonicalJson
open JsonText (FloatText intChars isNumeric readNumber)

/-- A `str`, as its code points. -/
abbrev Points := List ℕ

def points (cs : List Char) : Points := cs.map Char.toNat

inductive Value where
  | null
  | bool (b : Bool)
  | int (n : ℤ)
  | float (x : FloatText)
  | str (s : Points)
  | arr (items : List Value)
  | obj (members : List (Points × Value))

/-! ### Writing -/

def hexDigit (n : ℕ) : ℕ := if n < 10 then 48 + n else 87 + n

/-- `"\\u%04x"`. -/
def unicodeEscape (c : ℕ) : Points :=
  points ['\\', 'u'] ++ [hexDigit (c / 4096 % 16), hexDigit (c / 256 % 16),
    hexDigit (c / 16 % 16), hexDigit (c % 16)]

/-- `ESCAPE_DCT`, and `\u00xx` for the other control characters. -/
def escapePoint (c : ℕ) : Points :=
  if c = '"'.toNat then points ['\\', '"']
  else if c = '\\'.toNat then points ['\\', '\\']
  else if c = 10 then points ['\\', 'n']
  else if c = 13 then points ['\\', 'r']
  else if c = 9 then points ['\\', 't']
  else if c = 12 then points ['\\', 'f']
  else if c = 8 then points ['\\', 'b']
  else if c < 32 then unicodeEscape c
  else [c]

section Dumps
variable (escape : ℕ → Points)

def dumpsString (s : Points) : Points := '"'.toNat :: (s.flatMap escape ++ ['"'.toNat])

mutual
def dumps : Value → Points
  | .null => points ['n', 'u', 'l', 'l']
  | .bool true => points ['t', 'r', 'u', 'e']
  | .bool false => points ['f', 'a', 'l', 's', 'e']
  | .int n => points (intChars n)
  | .float x => points x.chars
  | .str s => dumpsString escape s
  | .arr items => '['.toNat :: dumpsItems items
  | .obj members => '{'.toNat :: dumpsMembers members

def dumpsItems : List Value → Points
  | [] => [']'.toNat]
  | [v] => dumps v ++ [']'.toNat]
  | v :: w :: rest => dumps v ++ ','.toNat :: dumpsItems (w :: rest)

def dumpsMembers : List (Points × Value) → Points
  | [] => ['}'.toNat]
  | [(k, v)] => dumpsString escape k ++ ':'.toNat :: (dumps v ++ ['}'.toNat])
  | (k, v) :: m :: rest =>
      dumpsString escape k ++ ':'.toNat :: (dumps v ++ ','.toNat :: dumpsMembers (m :: rest))
end

end Dumps

def sortMembers (members : List (Points × Value)) : List (Points × Value) :=
  members.mergeSort fun m n => m.1 ≤ n.1

mutual
/-- `sort_keys`, at every level. -/
def sortKeys : Value → Value
  | .arr items => .arr (sortItems items)
  | .obj members => .obj (sortMembers (sortValues members))
  | v => v

def sortItems : List Value → List Value
  | [] => []
  | v :: rest => sortKeys v :: sortItems rest

def sortValues : List (Points × Value) → List (Points × Value)
  | [] => []
  | (k, v) :: rest => (k, sortKeys v) :: sortValues rest
end

def canonicalArgsJson (args : Value) : Points := dumps escapePoint (sortKeys args)

/-! ### What the operator is shown -/

def unsafeTextRanges : List (ℕ × ℕ) :=
  [(0x0000, 0x001F), (0x007F, 0x009F), (0x2028, 0x2028), (0x2029, 0x2029), (0x061C, 0x061C),
    (0x200E, 0x200F), (0x202A, 0x202E), (0x2066, 0x2069)]

def isUnsafePoint (c : ℕ) : Bool := unsafeTextRanges.any fun r => r.1 ≤ c && c ≤ r.2

def isUnsafeText (s : Points) : Bool := s.any isUnsafePoint

def showPoint (c : ℕ) : Points := if isUnsafePoint c then unicodeEscape c else [c]

def escapeUnsafeText (s : Points) : Points := s.flatMap showPoint

/-! ### Reading -/

def hexVal (c : ℕ) : Option ℕ :=
  if 48 ≤ c ∧ c ≤ 57 then some (c - 48)
  else if 97 ≤ c ∧ c ≤ 102 then some (c - 87)
  else if 65 ≤ c ∧ c ≤ 70 then some (c - 55)
  else none

/-- The number of a `\u` escape. -/
def hex4 (a b c d : ℕ) : Option ℕ := do
  let a ← hexVal a
  let b ← hexVal b
  let c ← hexVal c
  let d ← hexVal d
  some (4096 * a + 256 * b + 16 * c + d)

def isHigh (n : ℕ) : Bool := 0xD800 ≤ n && n ≤ 0xDBFF

def isLow (n : ℕ) : Bool := 0xDC00 ≤ n && n ≤ 0xDFFF

def unescape (c : ℕ) : Option ℕ :=
  if c = '"'.toNat then some '"'.toNat
  else if c = '\\'.toNat then some '\\'.toNat
  else if c = '/'.toNat then some '/'.toNat
  else if c = 'b'.toNat then some 8
  else if c = 'f'.toNat then some 12
  else if c = 'n'.toNat then some 10
  else if c = 'r'.toNat then some 13
  else if c = 't'.toNat then some 9
  else none

/-- The rest of a `\u` escape: its code point and what follows. An escaped pair of surrogates is
one code point. -/
def readUnicode : Points → Option (ℕ × Points)
  | a :: b :: c :: d :: rest => (hex4 a b c d).map fun high =>
      if isHigh high && (points ['\\', 'u']).isPrefixOf rest then
        match rest.drop 2 with
        | a :: b :: c :: d :: more =>
            match hex4 a b c d with
            | some low =>
                if isLow low then (0x10000 + 0x400 * (high - 0xD800) + (low - 0xDC00), more)
                else (high, rest)
            | none => (high, rest)
        | _ => (high, rest)
      else (high, rest)
  | _ => none

def readEscape : Points → Option (ℕ × Points)
  | [] => none
  | e :: rest =>
      if e = 'u'.toNat then readUnicode rest else (unescape e).map fun c => (c, rest)

def parseString : ℕ → Points → Option (Points × Points)
  | 0, _ => none
  | _ + 1, [] => none
  | n + 1, c :: rest =>
      if c = '"'.toNat then some ([], rest)
      else if c = '\\'.toNat then
        (readEscape rest).bind fun e => (parseString n e.2).map fun r => (e.1 :: r.1, r.2)
      else if c < 32 then none
      else (parseString n rest).map fun r => (c :: r.1, r.2)

def isBlank (c : ℕ) : Bool := c = 32 || c = 10 || c = 13 || c = 9

def skip (cs : Points) : Points := cs.dropWhile isBlank

def after (word cs : Points) : Option Points :=
  if word.isPrefixOf cs then some (cs.drop word.length) else none

def isNumericPoint (c : ℕ) : Bool := isNumeric (Char.ofNat c)

def ofNumber : JsonText.Json → Option Value
  | .int n => some (.int n)
  | .float x => some (.float x)
  | _ => none

def parseNumber (cs : Points) : Option (Value × Points) :=
  ((readNumber ((cs.takeWhile isNumericPoint).map Char.ofNat)).bind ofNumber).map
    fun v => (v, cs.dropWhile isNumericPoint)

def parseAtom (cs : Points) : Option (Value × Points) :=
  match after (points ['n', 'u', 'l', 'l']) cs with
  | some rest => some (.null, rest)
  | none =>
      match after (points ['t', 'r', 'u', 'e']) cs with
      | some rest => some (.bool true, rest)
      | none =>
          match after (points ['f', 'a', 'l', 's', 'e']) cs with
          | some rest => some (.bool false, rest)
          | none => parseNumber cs

mutual
def parseValue : ℕ → Points → Option (Value × Points)
  | 0, _ => none
  | n + 1, cs =>
      match cs with
      | [] => none
      | c :: rest =>
          if c = '"'.toNat then (parseString n rest).map fun r => (.str r.1, r.2)
          else if c = '['.toNat then
            if (skip rest).head? = some ']'.toNat then some (.arr [], (skip rest).tail)
            else (parseItems n (skip rest)).map fun r => (.arr r.1, r.2)
          else if c = '{'.toNat then
            if (skip rest).head? = some '}'.toNat then some (.obj [], (skip rest).tail)
            else (parseMembers n (skip rest)).map fun r => (.obj r.1, r.2)
          else parseAtom cs

def parseItems : ℕ → Points → Option (List Value × Points)
  | 0, _ => none
  | n + 1, cs =>
      match parseValue n cs with
      | none => none
      | some (v, rest) =>
          match skip rest with
          | [] => none
          | c :: rest =>
              if c = ']'.toNat then some ([v], rest)
              else if c = ','.toNat then
                (parseItems n (skip rest)).map fun r => (v :: r.1, r.2)
              else none

/-- The members of an object, in their order; the keys of a `dict` are distinct. -/
def parseMembers : ℕ → Points → Option (List (Points × Value) × Points)
  | 0, _ => none
  | n + 1, cs =>
      if cs.head? = some '"'.toNat then
        match parseString n cs.tail with
        | none => none
        | some (k, rest) =>
            if (skip rest).head? = some ':'.toNat then
              match parseValue n (skip (skip rest).tail) with
              | none => none
              | some (v, rest) =>
                  match skip rest with
                  | [] => none
                  | c :: rest =>
                      if c = '}'.toNat then some ([(k, v)], rest)
                      else if c = ','.toNat then
                        (parseMembers n (skip rest)).map fun r => ((k, v) :: r.1, r.2)
                      else none
            else none
      else none
end

/-- `json.loads`, without the literals `NaN` and `Infinity`. -/
def loads (cs : Points) : Option Value :=
  match parseValue (cs.length + 1) (skip cs) with
  | some (v, rest) => if skip rest = [] then some v else none
  | none => none

/-! ### Escapes -/

theorem unsafe_bounds {c : ℕ} (h : isUnsafePoint c = true) : c < 32 ∨ 127 ≤ c ∧ c < 0x206A := by
  simp [isUnsafePoint, unsafeTextRanges] at h
  omega

theorem numeric_bounds {c : Char} (h : isNumeric c = true) : 43 ≤ c.toNat ∧ c.toNat ≤ 101 := by
  simp only [isNumeric, Char.isDigit, Bool.or_eq_true, Bool.and_eq_true, decide_eq_true_eq] at h
  rcases h with ((((⟨low, high⟩ | rfl) | rfl) | rfl) | rfl) | rfl
  · exact ⟨Nat.le_trans (by decide) low, Nat.le_trans high (by decide)⟩
  all_goals decide +kernel

theorem hexDigit_bounds (n : ℕ) (small : n < 16) : 48 ≤ hexDigit n ∧ hexDigit n ≤ 102 := by
  unfold hexDigit
  split <;> omega

theorem hexVal_hexDigit (n : ℕ) (small : n < 16) : hexVal (hexDigit n) = some n := by
  have all : ∀ n, n < 16 → hexVal (hexDigit n) = some n := by decide
  exact all n small

theorem safe_unicodeEscape (c : ℕ) : ∀ d ∈ unicodeEscape c, isUnsafePoint d = false := by
  intro d mem
  by_contra bad
  have bounds := unsafe_bounds (Bool.eq_true_of_not_eq_false bad)
  have h1 := hexDigit_bounds (c / 4096 % 16) (by omega)
  have h2 := hexDigit_bounds (c / 256 % 16) (by omega)
  have h3 := hexDigit_bounds (c / 16 % 16) (by omega)
  have h4 := hexDigit_bounds (c % 16) (by omega)
  have word : points ['\\', 'u'] = [92, 117] := rfl
  simp only [unicodeEscape, word, List.cons_append, List.nil_append, List.mem_cons,
    List.not_mem_nil, or_false] at mem
  omega

theorem escapeUnsafeText_append (s t : Points) :
    escapeUnsafeText (s ++ t) = escapeUnsafeText s ++ escapeUnsafeText t :=
  List.flatMap_append ..

theorem escapeUnsafeText_safe {s : Points} (safe : ∀ c ∈ s, isUnsafePoint c = false) :
    escapeUnsafeText s = s := by
  induction s with
  | nil => rfl
  | cons c s ih =>
    obtain ⟨first, rest⟩ := List.forall_mem_cons.mp safe
    rw [escapeUnsafeText, List.flatMap_cons, ← escapeUnsafeText, ih rest, showPoint, first]
    rfl

theorem safe_escapeUnsafeText (s : Points) : ∀ c ∈ escapeUnsafeText s, isUnsafePoint c = false := by
  intro c mem
  obtain ⟨d, -, mem⟩ := List.mem_flatMap.mp mem
  unfold showPoint at mem
  split at mem
  · exact safe_unicodeEscape d c mem
  · next safe =>
    obtain rfl := List.mem_singleton.mp mem
    simpa using safe

def shownEscape (c : ℕ) : Points := escapeUnsafeText (escapePoint c)

/-- An escape that the reader takes back as the character it stands for. -/
structure Readable (escape : ℕ → Points) : Prop where
  nonempty : ∀ c, escape c ≠ []
  reads : ∀ c n rest, parseString (n + 1) (escape c ++ rest) =
    (parseString n rest).map fun r => (c :: r.1, r.2)

theorem parseString_unicodeEscape {c : ℕ} (low : c < 0x2100) (n : ℕ) (rest : Points) :
    parseString (n + 1) (unicodeEscape c ++ rest) =
      (parseString n rest).map fun r => (c :: r.1, r.2) := by
  have digits : hex4 (hexDigit (c / 4096 % 16)) (hexDigit (c / 256 % 16))
      (hexDigit (c / 16 % 16)) (hexDigit (c % 16)) = some c := by
    rw [hex4, hexVal_hexDigit _ (by omega), hexVal_hexDigit _ (by omega),
      hexVal_hexDigit _ (by omega), hexVal_hexDigit _ (by omega)]
    exact congrArg some (by omega)
  have single : isHigh c = false := by
    simp only [isHigh, Bool.and_eq_false_iff, decide_eq_false_iff_not]
    omega
  have read : readEscape (117 :: hexDigit (c / 4096 % 16) :: hexDigit (c / 256 % 16) ::
      hexDigit (c / 16 % 16) :: hexDigit (c % 16) :: rest) = some (c, rest) := by
    rw [readEscape, if_pos (by rfl), readUnicode, digits]
    simp [single]
  change parseString (n + 1) (92 :: 117 :: hexDigit (c / 4096 % 16) :: hexDigit (c / 256 % 16) ::
    hexDigit (c / 16 % 16) :: hexDigit (c % 16) :: rest) = _
  rw [parseString, if_neg (by decide), if_pos (by rfl), read]
  rfl

theorem parseString_letter {e c : ℕ} (plain : e ≠ 'u'.toNat) (is : unescape e = some c) (n : ℕ)
    (rest : Points) : parseString (n + 1) (92 :: e :: rest) =
      (parseString n rest).map fun r => (c :: r.1, r.2) := by
  rw [parseString, if_neg (by decide), if_pos (by rfl), readEscape, if_neg plain, is]
  rfl

theorem escapePoint_cases (c : ℕ) :
    (∃ e, escapePoint c = [92, e] ∧ e ≠ 'u'.toNat ∧ unescape e = some c ∧
      isUnsafePoint e = false) ∨
    (escapePoint c = unicodeEscape c ∧ c < 32) ∨
    (escapePoint c = [c] ∧ c ≠ '"'.toNat ∧ c ≠ '\\'.toNat ∧ 32 ≤ c) := by
  unfold escapePoint
  split_ifs with quote slash newline ret tab feed back control
  · exact .inl ⟨_, rfl, by decide, by rw [quote]; rfl, by decide⟩
  · exact .inl ⟨_, rfl, by decide, by rw [slash]; rfl, by decide⟩
  · exact .inl ⟨_, rfl, by decide, by rw [newline]; rfl, by decide⟩
  · exact .inl ⟨_, rfl, by decide, by rw [ret]; rfl, by decide⟩
  · exact .inl ⟨_, rfl, by decide, by rw [tab]; rfl, by decide⟩
  · exact .inl ⟨_, rfl, by decide, by rw [feed]; rfl, by decide⟩
  · exact .inl ⟨_, rfl, by decide, by rw [back]; rfl, by decide⟩
  · exact .inr (.inl ⟨rfl, control⟩)
  · exact .inr (.inr ⟨rfl, quote, slash, by omega⟩)

theorem parseString_plain {c : ℕ} (quote : c ≠ '"'.toNat) (slash : c ≠ '\\'.toNat)
    (printable : 32 ≤ c) (n : ℕ) (rest : Points) : parseString (n + 1) (c :: rest) =
      (parseString n rest).map fun r => (c :: r.1, r.2) := by
  rw [parseString, if_neg quote, if_neg slash, if_neg (by omega)]

theorem readable_escapePoint : Readable escapePoint := by
  constructor
  · intro c
    rcases escapePoint_cases c with ⟨e, is, -⟩ | ⟨is, -⟩ | ⟨is, -⟩ <;> simp [is, unicodeEscape]
  · intro c n rest
    rcases escapePoint_cases c with ⟨e, is, plain, named, -⟩ | ⟨is, control⟩ |
      ⟨is, quote, slash, printable⟩
    · rw [is]
      exact parseString_letter plain named n rest
    · rw [is]
      exact parseString_unicodeEscape (by omega) n rest
    · rw [is]
      exact parseString_plain quote slash printable n rest

/-- An unsafe character stands for itself in a string, so that its escape can take its place. -/
theorem readable_shownEscape : Readable shownEscape := by
  have same : ∀ c, shownEscape c = escapePoint c ∨
      shownEscape c = unicodeEscape c ∧ c < 0x2100 := by
    intro c
    unfold shownEscape
    rcases escapePoint_cases c with ⟨e, is, -, -, safe⟩ | ⟨is, control⟩ | ⟨is, -⟩
    · rw [is]
      have slash : isUnsafePoint 92 = false := by decide
      exact .inl (escapeUnsafeText_safe (by simp [safe, slash]))
    · rw [is]
      exact .inl (escapeUnsafeText_safe (safe_unicodeEscape c))
    · rw [is, escapeUnsafeText, List.flatMap_singleton, showPoint]
      split
      · next bad =>
        have bounds := unsafe_bounds bad
        exact .inr ⟨rfl, by omega⟩
      · exact .inl rfl
  constructor
  · intro c
    rcases same c with is | ⟨is, -⟩
    · rw [is]
      exact readable_escapePoint.nonempty c
    · simp [is, unicodeEscape]
  · intro c n rest
    rcases same c with is | ⟨is, low⟩
    · rw [is]
      exact readable_escapePoint.reads c n rest
    · rw [is]
      exact parseString_unicodeEscape low n rest

/-! ### What is shown of a document -/

theorem show_cons {c : ℕ} (safe : isUnsafePoint c = false) (s : Points) :
    escapeUnsafeText (c :: s) = c :: escapeUnsafeText s := by
  rw [escapeUnsafeText, List.flatMap_cons, showPoint, safe]
  rfl

theorem show_points {cs : List Char} (numeric : ∀ c ∈ cs, isNumeric c = true) :
    escapeUnsafeText (points cs) = points cs := by
  refine escapeUnsafeText_safe fun c mem => ?_
  obtain ⟨d, inside, rfl⟩ := List.mem_map.mp mem
  have digit := numeric_bounds (numeric d inside)
  by_contra bad
  have bounds := unsafe_bounds (Bool.eq_true_of_not_eq_false bad)
  omega

theorem show_string (s : Points) :
    escapeUnsafeText (dumpsString escapePoint s) = dumpsString shownEscape s := by
  have body : escapeUnsafeText (s.flatMap escapePoint) = s.flatMap shownEscape :=
    List.flatMap_assoc
  rw [dumpsString, show_cons (by decide), escapeUnsafeText_append, body,
    escapeUnsafeText_safe (by decide)]
  rfl

mutual
theorem show_dumps : (v : Value) →
    escapeUnsafeText (dumps escapePoint v) = dumps shownEscape v
  | .null => by
    rw [dumps, dumps]
    exact escapeUnsafeText_safe (by decide)
  | .bool true => by
    rw [dumps, dumps]
    exact escapeUnsafeText_safe (by decide)
  | .bool false => by
    rw [dumps, dumps]
    exact escapeUnsafeText_safe (by decide)
  | .int n => by
    rw [dumps, dumps]
    exact show_points (JsonText.numeric_intChars n)
  | .float x => by
    rw [dumps, dumps]
    exact show_points (JsonText.numeric_float x)
  | .str s => by
    rw [dumps, dumps]
    exact show_string s
  | .arr items => by rw [dumps, dumps, show_cons (by decide), show_items items]
  | .obj members => by rw [dumps, dumps, show_cons (by decide), show_members members]

theorem show_items : (items : List Value) →
    escapeUnsafeText (dumpsItems escapePoint items) = dumpsItems shownEscape items
  | [] => by
    rw [dumpsItems, dumpsItems]
    exact escapeUnsafeText_safe (by decide)
  | [v] => by
    rw [dumpsItems, dumpsItems, escapeUnsafeText_append, show_dumps v,
      escapeUnsafeText_safe (by decide)]
  | v :: w :: rest => by
    rw [dumpsItems, dumpsItems, escapeUnsafeText_append, show_dumps v, show_cons (by decide),
      show_items (w :: rest)]

theorem show_members : (members : List (Points × Value)) →
    escapeUnsafeText (dumpsMembers escapePoint members) = dumpsMembers shownEscape members
  | [] => by
    rw [dumpsMembers, dumpsMembers]
    exact escapeUnsafeText_safe (by decide)
  | [(k, v)] => by
    rw [dumpsMembers, dumpsMembers, escapeUnsafeText_append, show_string, show_cons (by decide),
      escapeUnsafeText_append, show_dumps v, escapeUnsafeText_safe (by decide)]
  | (k, v) :: m :: rest => by
    rw [dumpsMembers, dumpsMembers, escapeUnsafeText_append, show_string, show_cons (by decide),
      escapeUnsafeText_append, show_dumps v, show_cons (by decide), show_members (m :: rest)]
end

/-! ### Reading back what was written -/

section Reading
variable {escape : ℕ → Points}

theorem Readable.length_le (h : Readable escape) (s : Points) :
    s.length ≤ (s.flatMap escape).length := by
  induction s with
  | nil => exact Nat.le_refl 0
  | cons c s ih =>
    have some_ := List.length_pos_of_ne_nil (h.nonempty c)
    rw [List.flatMap_cons, List.length_append, List.length_cons]
    omega

theorem Readable.string (h : Readable escape) {s : Points} {n : ℕ} (enough : s.length < n)
    (rest : Points) : parseString n (s.flatMap escape ++ '"'.toNat :: rest) = some (s, rest) := by
  induction s generalizing n with
  | nil =>
    cases n with
    | zero => simp at enough
    | succ n => rfl
  | cons c s ih =>
    cases n with
    | zero => simp at enough
    | succ n =>
      rw [List.length_cons] at enough
      rw [List.flatMap_cons, List.append_assoc, h.reads, ih (by omega)]
      rfl

def Stops (rest : Points) : Prop := ∀ c, rest.head? = some c → isNumericPoint c = false

theorem stops_cons {c : ℕ} (stop : isNumericPoint c = false) (rest : Points) :
    Stops (c :: rest) := by
  rintro d ⟨rfl⟩
  exact stop

theorem skip_cons {c : ℕ} (solid : isBlank c = false) (rest : Points) :
    skip (c :: rest) = c :: rest := List.dropWhile_cons_of_neg (by simp [solid])

theorem after_of_ne {c d : ℕ} (apart : c ≠ d) (word rest : Points) :
    after (c :: word) (d :: rest) = none := by
  simp [after, apart]

theorem chars_points (cs : List Char) : (points cs).map Char.ofNat = cs := by
  simp [points, Function.comp_def]

theorem isNumericPoint_toNat (c : Char) : isNumericPoint c.toNat = isNumeric c := by
  rw [isNumericPoint, Char.ofNat_toNat]

theorem token_points {cs : List Char} {rest : Points} (numeric : ∀ c ∈ cs, isNumeric c = true)
    (stops : Stops rest) : (points cs ++ rest).takeWhile isNumericPoint = points cs ∧
      (points cs ++ rest).dropWhile isNumericPoint = rest := by
  have all : ∀ c ∈ points cs, isNumericPoint c = true := by
    intro c mem
    obtain ⟨d, inside, rfl⟩ := List.mem_map.mp mem
    rw [isNumericPoint_toNat]
    exact numeric d inside
  rw [List.takeWhile_append_of_pos all, List.dropWhile_append_of_pos all]
  cases rest with
  | nil => simp
  | cons d rest =>
    have stop := stops d rfl
    simp [stop]

theorem ne_of_numeric {c d : Char} (numeric : isNumeric c = true) (other : isNumeric d = false) :
    c.toNat ≠ d.toNat := by
  intro same
  rw [Char.toNat_inj.mp same, other] at numeric
  cases numeric

theorem parseValue_number {cs : List Char} {rest : Points} {j : JsonText.Json} {v : Value}
    (some_ : cs ≠ []) (numeric : ∀ c ∈ cs, isNumeric c = true) (stops : Stops rest)
    (read : readNumber cs = some j) (is : ofNumber j = some v) (n : ℕ) :
    parseValue (n + 1) (points cs ++ rest) = some (v, rest) := by
  have number : parseNumber (points cs ++ rest) = some (v, rest) := by
    obtain ⟨taken, dropped⟩ := token_points numeric stops
    rw [parseNumber, taken, dropped, chars_points, read, Option.bind_some, is, Option.map_some]
  obtain ⟨c, cs, rfl⟩ := List.exists_cons_of_ne_nil some_
  have head := numeric c List.mem_cons_self
  have atom : parseAtom (points (c :: cs) ++ rest) = some (v, rest) := by
    have off (d : Char) (other : isNumeric d = false) (word : List Char) :
        after (points (d :: word)) (points (c :: cs) ++ rest) = none :=
      after_of_ne (ne_of_numeric head other).symm _ _
    rw [parseAtom, off 'n' (by decide), off 't' (by decide), off 'f' (by decide)]
    exact number
  change parseValue (n + 1) (c.toNat :: (points cs ++ rest)) = _
  rw [parseValue, if_neg (ne_of_numeric head (by decide)),
    if_neg (ne_of_numeric head (by decide)), if_neg (ne_of_numeric head (by decide))]
  exact atom

theorem dumps_head (escape : ℕ → Points) (v : Value) :
    ∃ c rest, dumps escape v = c :: rest ∧ isBlank c = false ∧ c ≠ ']'.toNat := by
  have number {cs : List Char} (some_ : cs ≠ []) (numeric : ∀ c ∈ cs, isNumeric c = true) :
      ∃ c rest, points cs = c :: rest ∧ isBlank c = false ∧ c ≠ ']'.toNat := by
    obtain ⟨c, cs, rfl⟩ := List.exists_cons_of_ne_nil some_
    have head := numeric c List.mem_cons_self
    have bounds := numeric_bounds head
    refine ⟨c.toNat, points cs, rfl, ?_, ne_of_numeric head (by decide)⟩
    simp only [isBlank, Bool.or_eq_false_iff, decide_eq_false_iff_not]
    omega
  cases v with
  | null => exact ⟨_, _, by rw [dumps]; rfl, by decide, by decide⟩
  | bool b => cases b <;> exact ⟨_, _, by rw [dumps]; rfl, by decide, by decide⟩
  | int n =>
    rw [dumps]
    exact number (JsonText.intChars_ne_nil n) (JsonText.numeric_intChars n)
  | float x =>
    rw [dumps]
    exact number (JsonText.float_ne_nil x) (JsonText.numeric_float x)
  | str s => exact ⟨_, _, by rw [dumps]; rfl, by decide, by decide⟩
  | arr items => exact ⟨_, _, by rw [dumps], by decide, by decide⟩
  | obj members => exact ⟨_, _, by rw [dumps], by decide, by decide⟩

theorem dumpsItems_head (escape : ℕ → Points) (v : Value) (items : List Value) :
    ∃ c rest, dumpsItems escape (v :: items) = c :: rest ∧ isBlank c = false ∧ c ≠ ']'.toNat := by
  obtain ⟨c, rest, is, solid, inside⟩ := dumps_head escape v
  cases items with
  | nil => exact ⟨c, _, by rw [dumpsItems, is]; rfl, solid, inside⟩
  | cons w items => exact ⟨c, _, by rw [dumpsItems, is]; rfl, solid, inside⟩

theorem dumpsMembers_head (escape : ℕ → Points) (m : Points × Value)
    (members : List (Points × Value)) :
    ∃ rest, dumpsMembers escape (m :: members) = '"'.toNat :: rest := by
  obtain ⟨k, v⟩ := m
  cases members with
  | nil => exact ⟨_, by rw [dumpsMembers]; rfl⟩
  | cons w members => exact ⟨_, by rw [dumpsMembers]; rfl⟩

theorem parseValue_string (n : ℕ) (rest : Points) : parseValue (n + 1) ('"'.toNat :: rest) =
    (parseString n rest).map fun r => (.str r.1, r.2) := by
  rw [parseValue, if_pos rfl]

theorem parseValue_bracket {c : ℕ} (solid : isBlank c = false) (inside : c ≠ ']'.toNat) (n : ℕ)
    (rest : Points) : parseValue (n + 1) ('['.toNat :: c :: rest) =
      (parseItems n (c :: rest)).map fun r => (.arr r.1, r.2) := by
  rw [parseValue, if_neg (by decide), if_pos rfl, skip_cons solid, if_neg (by simpa using inside)]

theorem parseValue_brace (n : ℕ) (rest : Points) :
    parseValue (n + 1) ('{'.toNat :: '"'.toNat :: rest) =
      (parseMembers n ('"'.toNat :: rest)).map fun r => (.obj r.1, r.2) := by
  rw [parseValue, if_neg (by decide), if_neg (by decide), if_pos rfl, skip_cons (by decide),
    List.head?_cons, if_neg (by decide)]

theorem parseItems_last {n : ℕ} {s rest : Points} {v : Value}
    (read : parseValue n s = some (v, ']'.toNat :: rest)) :
    parseItems (n + 1) s = some ([v], rest) := by
  rw [parseItems, read]
  rfl

theorem parseItems_more {n c : ℕ} {s rest : Points} {v : Value}
    (read : parseValue n s = some (v, ','.toNat :: c :: rest)) (solid : isBlank c = false) :
    parseItems (n + 1) s = (parseItems n (c :: rest)).map fun r => (v :: r.1, r.2) := by
  rw [parseItems, read]
  change (parseItems n (skip (c :: rest))).map _ = _
  rw [skip_cons solid]

/-- A member is a key, a colon, a value, and the character that decides how the object goes on. -/
theorem parseMembers_first (readable : Readable escape) (k : Points) {n c d : ℕ}
    {s rest : Points} {v : Value} (enough : k.length < n) (solid : isBlank c = false)
    (end_ : isBlank d = false) (read : parseValue n (c :: s) = some (v, d :: rest)) :
    parseMembers (n + 1) (dumpsString escape k ++ ':'.toNat :: c :: s) =
      if d = '}'.toNat then some ([(k, v)], rest)
      else if d = ','.toNat then
        (parseMembers n (skip rest)).map fun r => ((k, v) :: r.1, r.2)
      else none := by
  have key : parseString n (k.flatMap escape ++ ['"'.toNat] ++ ':'.toNat :: c :: s) =
      some (k, ':'.toNat :: c :: s) := by
    rw [List.append_assoc, List.singleton_append]
    exact readable.string enough _
  rw [dumpsString, List.cons_append, parseMembers, if_pos (by rfl), List.tail_cons, key]
  simp only [skip_cons (show isBlank ':'.toNat = false by decide), List.head?_cons, if_true,
    List.tail_cons, skip_cons solid, read, skip_cons end_]

mutual
theorem parseValue_dumps (readable : Readable escape) : (v : Value) → (n : ℕ) →
    (dumps escape v).length ≤ n → ∀ rest, Stops rest →
      parseValue n (dumps escape v ++ rest) = some (v, rest)
  | v, 0, enough, _, _ => by
    obtain ⟨c, rest, is, -⟩ := dumps_head escape v
    rw [is] at enough
    simp at enough
  | .null, n + 1, _, rest, _ => by
    rw [dumps]
    rfl
  | .bool true, n + 1, _, rest, _ => by
    rw [dumps]
    rfl
  | .bool false, n + 1, _, rest, _ => by
    rw [dumps]
    rfl
  | .int i, n + 1, _, rest, stops => by
    rw [dumps]
    exact parseValue_number (JsonText.intChars_ne_nil i) (JsonText.numeric_intChars i) stops
      (JsonText.readNumber_intChars i) rfl n
  | .float x, n + 1, _, rest, stops => by
    rw [dumps]
    exact parseValue_number (JsonText.float_ne_nil x) (JsonText.numeric_float x) stops
      (JsonText.readNumber_float x) rfl n
  | .str s, n + 1, enough, rest, _ => by
    have short := readable.length_le s
    rw [dumps, dumpsString] at enough ⊢
    simp only [List.length_cons, List.length_append, List.length_nil] at enough
    rw [List.cons_append, List.append_assoc, List.singleton_append, parseValue_string,
      readable.string (by omega)]
    rfl
  | .arr [], n + 1, _, rest, _ => by
    rw [dumps, dumpsItems]
    rfl
  | .arr (v :: items), n + 1, enough, rest, _ => by
    obtain ⟨c, more, is, solid, inside⟩ := dumpsItems_head escape v items
    rw [dumps] at enough ⊢
    have read := parseItems_dumps readable v items n (by simpa using enough) rest
    rw [is] at read ⊢
    rw [List.cons_append, List.cons_append, parseValue_bracket solid inside, ← List.cons_append,
      read]
    rfl
  | .obj [], n + 1, _, rest, _ => by
    rw [dumps, dumpsMembers]
    rfl
  | .obj (m :: members), n + 1, enough, rest, _ => by
    obtain ⟨more, is⟩ := dumpsMembers_head escape m members
    rw [dumps] at enough ⊢
    have read := parseMembers_dumps readable m members n (by simpa using enough) rest
    rw [is] at read ⊢
    rw [List.cons_append, List.cons_append, parseValue_brace, ← List.cons_append, read]
    rfl

theorem parseItems_dumps (readable : Readable escape) : (v : Value) → (items : List Value) →
    (n : ℕ) → (dumpsItems escape (v :: items)).length ≤ n → ∀ rest,
      parseItems n (dumpsItems escape (v :: items) ++ rest) = some (v :: items, rest)
  | v, items, 0, enough, _ => by
    obtain ⟨c, rest, is, -⟩ := dumpsItems_head escape v items
    rw [is] at enough
    simp at enough
  | v, [], n + 1, enough, rest => by
    rw [dumpsItems] at enough ⊢
    rw [List.length_append, List.length_singleton] at enough
    rw [List.append_assoc]
    exact parseItems_last (parseValue_dumps readable v n (by omega) _
      (stops_cons (by decide +kernel) _))
  | v, w :: items, n + 1, enough, rest => by
    obtain ⟨c, more, is, solid, -⟩ := dumpsItems_head escape w items
    rw [dumpsItems] at enough ⊢
    rw [List.length_append, List.length_cons] at enough
    have others := parseItems_dumps readable w items n (by omega) rest
    have read := parseValue_dumps readable v n (by omega)
      (','.toNat :: (dumpsItems escape (w :: items) ++ rest)) (stops_cons (by decide +kernel) _)
    rw [is, List.cons_append] at read others
    rw [is, List.append_assoc, List.cons_append, List.cons_append, parseItems_more read solid,
      others]
    rfl

theorem parseMembers_dumps (readable : Readable escape) : (m : Points × Value) →
    (members : List (Points × Value)) → (n : ℕ) →
      (dumpsMembers escape (m :: members)).length ≤ n → ∀ rest,
        parseMembers n (dumpsMembers escape (m :: members) ++ rest) = some (m :: members, rest)
  | m, members, 0, enough, _ => by
    obtain ⟨rest, is⟩ := dumpsMembers_head escape m members
    rw [is] at enough
    simp at enough
  | (k, v), [], n + 1, enough, rest => by
    obtain ⟨c, more, is, solid, -⟩ := dumps_head escape v
    have short := readable.length_le k
    rw [dumpsMembers, dumpsString] at enough
    simp only [List.length_append, List.length_cons, List.length_nil] at enough
    have read := parseValue_dumps readable v n (by omega) ('}'.toNat :: rest)
      (stops_cons (by decide +kernel) _)
    rw [is, List.cons_append] at read
    have first := parseMembers_first readable k (by omega) solid (by decide) read
    rw [dumpsMembers, is, List.append_assoc, List.cons_append, List.append_assoc,
      List.singleton_append, List.cons_append, first, if_pos rfl]
  | (k, v), m :: members, n + 1, enough, rest => by
    obtain ⟨c, more, is, solid, -⟩ := dumps_head escape v
    obtain ⟨text, head⟩ := dumpsMembers_head escape m members
    have short := readable.length_le k
    rw [dumpsMembers, dumpsString] at enough
    simp only [List.length_append, List.length_cons, List.length_nil] at enough
    have others := parseMembers_dumps readable m members n (by omega) rest
    have read := parseValue_dumps readable v n (by omega)
      (','.toNat :: (dumpsMembers escape (m :: members) ++ rest)) (stops_cons (by decide +kernel) _)
    rw [is, List.cons_append] at read
    have first := parseMembers_first readable k (by omega) solid (by decide) read
    have ahead : skip (dumpsMembers escape (m :: members) ++ rest) =
        dumpsMembers escape (m :: members) ++ rest := by
      rw [head, List.cons_append, skip_cons (by decide)]
    rw [ahead, others] at first
    rw [dumpsMembers, is, List.append_assoc, List.cons_append, List.append_assoc,
      List.cons_append, List.cons_append, first]
    rfl
end

theorem loads_dumps (readable : Readable escape) (v : Value) :
    loads (dumps escape v) = some v := by
  obtain ⟨c, rest, is, solid, -⟩ := dumps_head escape v
  have read := parseValue_dumps readable v ((dumps escape v).length + 1) (by omega) []
    (by simp [Stops])
  rw [List.append_nil] at read
  have whole : skip (dumps escape v) = dumps escape v := by
    rw [is, skip_cons solid]
  rw [loads, whole, read]
  rfl

end Reading

/-! ### Equality up to the order of members -/

mutual
/-- Two values that differ in the order of the members of their objects only. -/
inductive Same : Value → Value → Prop
  | refl (v : Value) : Same v v
  | arr {items others : List Value} (each : SameItems items others) :
      Same (.arr items) (.arr others)
  | obj {members others : List (Points × Value)} (each : SameMembers members others) :
      Same (.obj members) (.obj others)

inductive SameItems : List Value → List Value → Prop
  | nil : SameItems [] []
  | cons {v w : Value} {items others : List Value} (first : Same v w)
      (rest : SameItems items others) : SameItems (v :: items) (w :: others)

inductive SameMembers : List (Points × Value) → List (Points × Value) → Prop
  | nil : SameMembers [] []
  | cons (k : Points) {v w : Value} {members others : List (Points × Value)} (first : Same v w)
      (rest : SameMembers members others) : SameMembers ((k, v) :: members) ((k, w) :: others)
  | swap (m n : Points × Value) (members : List (Points × Value)) :
      SameMembers (m :: n :: members) (n :: m :: members)
  | trans {members others more : List (Points × Value)} (left : SameMembers members others)
      (right : SameMembers others more) : SameMembers members more
end

theorem SameMembers.refl (members : List (Points × Value)) : SameMembers members members := by
  induction members with
  | nil => exact .nil
  | cons m members ih => exact .cons m.1 (.refl m.2) ih

theorem SameMembers.of_perm {members others : List (Points × Value)}
    (perm : members.Perm others) : SameMembers members others := by
  induction perm with
  | nil => exact .nil
  | cons m _ ih => exact .cons m.1 (.refl m.2) ih
  | swap m n members => exact .swap n m members
  | trans _ _ left right => exact left.trans right

mutual
theorem Same.symm : {v w : Value} → Same v w → Same w v
  | _, _, .refl v => .refl v
  | _, _, .arr each => .arr each.symm
  | _, _, .obj each => .obj each.symm

theorem SameItems.symm : {items others : List Value} → SameItems items others →
    SameItems others items
  | _, _, .nil => .nil
  | _, _, .cons first rest => .cons first.symm rest.symm

theorem SameMembers.symm : {members others : List (Points × Value)} →
    SameMembers members others → SameMembers others members
  | _, _, .nil => .nil
  | _, _, .cons k first rest => .cons k first.symm rest.symm
  | _, _, .swap m n members => .swap n m members
  | _, _, .trans left right => .trans right.symm left.symm
end

mutual
theorem Same.trans : {v w x : Value} → Same v w → Same w x → Same v x
  | _, _, _, .refl _, right => right
  | _, _, _, .arr each, .refl _ => .arr each
  | _, _, _, .arr each, .arr other => .arr (each.trans other)
  | _, _, _, .obj each, .refl _ => .obj each
  | _, _, _, .obj each, .obj other => .obj (.trans each other)

theorem SameItems.trans : {items others more : List Value} → SameItems items others →
    SameItems others more → SameItems items more
  | _, _, _, .nil, .nil => .nil
  | _, _, _, .cons first rest, .cons other more => .cons (first.trans other) (rest.trans more)
end

mutual
theorem same_sortKeys : (v : Value) → Same (sortKeys v) v
  | .null | .bool _ | .int _ | .float _ | .str _ => by
    rw [sortKeys]
    · exact .refl _
    all_goals simp
  | .arr items => by
    rw [sortKeys]
    exact .arr (same_sortItems items)
  | .obj members => by
    rw [sortKeys]
    have perm : (sortMembers (sortValues members)).Perm (sortValues members) :=
      List.mergeSort_perm _ _
    exact .obj ((SameMembers.of_perm perm).trans (same_sortValues members))

theorem same_sortItems : (items : List Value) → SameItems (sortItems items) items
  | [] => by
    rw [sortItems]
    exact .nil
  | v :: items => by
    rw [sortItems]
    exact .cons (same_sortKeys v) (same_sortItems items)

theorem same_sortValues : (members : List (Points × Value)) →
    SameMembers (sortValues members) members
  | [] => by
    rw [sortValues]
    exact .nil
  | (k, v) :: members => by
    rw [sortValues]
    exact .cons k (same_sortKeys v) (same_sortValues members)
end

/-! ### What is shown is what is bound -/

/-- What the operator reads of the arguments of a call has no unsafe character, reads back as
these arguments, and is the text the grant binds when that is safe; and no other arguments have
this text. -/
theorem shown_binds (members : List (Points × Value)) :
    isUnsafeText (escapeUnsafeText (canonicalArgsJson (.obj members))) = false ∧
    (∃ v, loads (escapeUnsafeText (canonicalArgsJson (.obj members))) = some v ∧
      Same v (.obj members)) ∧
    (isUnsafeText (canonicalArgsJson (.obj members)) = false →
      escapeUnsafeText (canonicalArgsJson (.obj members)) = canonicalArgsJson (.obj members)) ∧
    ∀ others, canonicalArgsJson (.obj members) = canonicalArgsJson (.obj others) →
      Same (.obj members) (.obj others) := by
  have points_safe {s : Points} : isUnsafeText s = false ↔ ∀ c ∈ s, isUnsafePoint c = false := by
    simp [isUnsafeText]
  refine ⟨points_safe.mpr (safe_escapeUnsafeText _), ⟨_, ?_, same_sortKeys _⟩, fun safe => ?_,
    fun others equal => ?_⟩
  · rw [canonicalArgsJson, show_dumps]
    exact loads_dumps readable_shownEscape _
  · exact escapeUnsafeText_safe (points_safe.mp safe)
  · have read (v : Value) : loads (canonicalArgsJson v) = some (sortKeys v) :=
      loads_dumps readable_escapePoint _
    have sorted : sortKeys (.obj members) = sortKeys (.obj others) :=
      Option.some.inj ((read _).symm.trans (equal ▸ read _))
    have left := (same_sortKeys (.obj members)).symm
    rw [sorted] at left
    exact left.trans (same_sortKeys (.obj others))

example : escapeUnsafeText (dumps escapePoint
    (.obj [(points ['a'], .int 7), (points ['b'], .str [92, 0x202E, 34])])) =
      points "\x7b\"a\":7,\"b\":\"\\\\\\u202e\\\"\"\x7d".toList := by decide +kernel

end Casa.CanonicalJson
