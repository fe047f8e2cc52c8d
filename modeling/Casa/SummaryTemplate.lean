import Casa.CanonicalJson
import Casa.PythonDict

/-! The summary sentence of an approval: a template of a plugin, filled with the scalars of the
arguments the operator is asked about. -/

namespace Casa.SummaryTemplate
open CanonicalJson PythonDict
open JsonText (intChars)

abbrev Args := Dict Points Value

/-! ### The source's scanner -/

def summaryValueMax : ℕ := 80
def summaryEllipsisBody : ℕ := 77
def summaryEllipsis : Points := [0x2026]

def openBrace : ℕ := '{'.toNat
def closeBrace : ℕ := '}'.toNat

def hasBrace (s : Points) : Bool := s.contains openBrace || s.contains closeBrace

/-- `[A-Za-z_]`. -/
def isIdentStart (c : ℕ) : Bool :=
  ('A'.toNat ≤ c && c ≤ 'Z'.toNat) || ('a'.toNat ≤ c && c ≤ 'z'.toNat) || c == '_'.toNat

/-- `[A-Za-z0-9_]`. -/
def isIdentPart (c : ℕ) : Bool := isIdentStart c || ('0'.toNat ≤ c && c ≤ '9'.toNat)

/-- `_SUMMARY_IDENT_RE.fullmatch`. -/
def isIdentifier : Points → Bool
  | [] => false
  | c :: rest => isIdentStart c && rest.all isIdentPart

def renderSummaryValue : Value → Option Points
  | .bool b => some (if b then points ['t', 'r', 'u', 'e'] else points ['f', 'a', 'l', 's', 'e'])
  | .int n => some (points (intChars n))
  | .float x => some (points x.chars)
  | .str s =>
      if isUnsafeText s || hasBrace s then none
      else if summaryValueMax < s.length then some (s.take summaryEllipsisBody ++ summaryEllipsis)
      else some s
  | _ => none

/-- The scan from one position of the template on: what it appends to `out`. -/
def scan (args : Args) : Points → Option Points
  | [] => some []
  | c :: rest =>
      if c = closeBrace then none
      else if c = openBrace then
        -- `template.find("}", i + 1)`
        match _ : rest.dropWhile (· ≠ closeBrace) with
        | [] => none
        | _ :: more =>
            let inner := rest.takeWhile (· ≠ closeBrace)
            if isIdentifier inner then
              match args.lookup inner with
              | none => none
              | some v =>
                  match renderSummaryValue v with
                  | none => none
                  | some rendered => (scan args more).map (rendered ++ ·)
            else none
      else (scan args rest).map (c :: ·)
termination_by template => template.length
decreasing_by
  · rename_i found _
    have shorter := (List.dropWhile_suffix (· ≠ closeBrace) (l := rest)).length_le
    rw [found] at shorter
    simp only [List.length_cons] at shorter ⊢
    omega
  · simp

def interpolateSummary (template : Points) (args : Args) : Option Points :=
  match scan args template with
  | none => none
  | some result =>
      if hasBrace result then none else if isUnsafeText result then none else some result

/-- `dict(pairs)`. -/
def dictOf (members : List (Points × Value)) : Args :=
  members.foldl (fun d m => d.set m.1 m.2) KeyedTable.Table.empty

def interpolatedSummaryOrNone (summary : Option Points) (canonicalJson : Points) :
    Option Points :=
  match summary with
  | none => none
  | some template =>
      if template = [] then none
      else match loads canonicalJson with
        | some (.obj members) => interpolateSummary template (dictOf members)
        | _ => none

/-! ### The grammar -/

/-- A value that may stand in a summary, and what stands there for it. -/
inductive Scalar : Value → Points → Prop
  | true_ : Scalar (.bool true) (points ['t', 'r', 'u', 'e'])
  | false_ : Scalar (.bool false) (points ['f', 'a', 'l', 's', 'e'])
  | int (n : ℤ) : Scalar (.int n) (points (intChars n))
  | float (x : JsonText.FloatText) : Scalar (.float x) (points x.chars)
  | short {s : Points} (safe : isUnsafeText s = false) (plain : hasBrace s = false)
      (fits : s.length ≤ 80) : Scalar (.str s) s
  | long {s : Points} (safe : isUnsafeText s = false) (plain : hasBrace s = false)
      (over_ : 80 < s.length) : Scalar (.str s) (s.take 77 ++ [0x2026])

/-- A template of characters that are no braces and of tokens `{identifier}`, and the sentence
that has the argument of each token in its place. -/
inductive Fills (args : Args) : Points → Points → Prop
  | done : Fills args [] []
  | char {c : ℕ} {template result : Points} (plain : c ≠ openBrace ∧ c ≠ closeBrace)
      (rest : Fills args template result) : Fills args (c :: template) (c :: result)
  | token {ident text template result : Points} {v : Value} (named : isIdentifier ident = true)
      (bound : args.lookup ident = some v) (scalar : Scalar v text)
      (rest : Fills args template result) :
      Fills args (openBrace :: (ident ++ closeBrace :: template)) (text ++ result)

/-- `{ident}` stands in the template. -/
def Names (template ident : Points) : Prop :=
  isIdentifier ident = true ∧
    ∃ front back, template = front ++ openBrace :: (ident ++ closeBrace :: back)

/-! ### Values -/

theorem renderSummaryValue_iff {v : Value} {text : Points} :
    renderSummaryValue v = some text ↔ Scalar v text := by
  constructor
  · intro rendered
    cases v with
    | null => cases rendered
    | bool b =>
      cases b <;> cases rendered
      · exact .false_
      · exact .true_
    | int n =>
      cases rendered
      exact .int n
    | float x =>
      cases rendered
      exact .float x
    | str s =>
      rw [renderSummaryValue] at rendered
      split_ifs at rendered with bad large
      all_goals
        cases rendered
        obtain ⟨safe, plain⟩ := Bool.or_eq_false_iff.mp (Bool.eq_false_iff.mpr bad)
      · exact .long safe plain large
      · exact .short safe plain (Nat.le_of_not_lt large)
    | arr items => cases rendered
    | obj members => cases rendered
  · intro scalar
    cases scalar with
    | true_ => rfl
    | false_ => rfl
    | int n => rfl
    | float x => rfl
    | short safe plain fits =>
      rw [renderSummaryValue, safe, plain, if_neg (by decide)]
      exact if_neg (Nat.not_lt.mpr fits)
    | long safe plain large =>
      rw [renderSummaryValue, safe, plain, if_neg (by decide)]
      exact if_pos large

theorem hasBrace_eq_false {s : Points} :
    hasBrace s = false ↔ ∀ c ∈ s, c ≠ openBrace ∧ c ≠ closeBrace := by
  simp only [hasBrace, Bool.or_eq_false_iff, List.contains_eq_mem, decide_eq_false_iff_not]
  constructor
  · rintro ⟨left, right⟩ c mem
    exact ⟨fun is => left (is ▸ mem), fun is => right (is ▸ mem)⟩
  · exact fun plain => ⟨fun mem => (plain _ mem).1 rfl, fun mem => (plain _ mem).2 rfl⟩

theorem hasBrace_append {s t : Points} :
    hasBrace (s ++ t) = false ↔ hasBrace s = false ∧ hasBrace t = false := by
  simp only [hasBrace_eq_false, List.forall_mem_append]

theorem hasBrace_number {cs : List Char} (numeric : ∀ c ∈ cs, JsonText.isNumeric c = true) :
    hasBrace (points cs) = false := by
  refine hasBrace_eq_false.mpr fun c mem => ?_
  obtain ⟨d, inside, rfl⟩ := List.mem_map.mp mem
  exact ⟨ne_of_numeric (numeric d inside) (by decide), ne_of_numeric (numeric d inside) (by decide)⟩

theorem Scalar.plain {v : Value} {text : Points} (scalar : Scalar v text) :
    hasBrace text = false := by
  cases scalar with
  | true_ => decide
  | false_ => decide
  | int n => exact hasBrace_number (JsonText.numeric_intChars n)
  | float x => exact hasBrace_number (JsonText.numeric_float x)
  | short _ plain _ => exact plain
  | long _ plain _ =>
    have cut : hasBrace (List.take 77 _) = false :=
      hasBrace_eq_false.mpr fun c mem => hasBrace_eq_false.mp plain c (List.mem_of_mem_take mem)
    exact hasBrace_append.mpr ⟨cut, by decide⟩

theorem Fills.plain {args : Args} {template result : Points} (fills : Fills args template result) :
    hasBrace result = false := by
  induction fills with
  | done => rfl
  | char plain rest ih =>
    exact hasBrace_eq_false.mpr (List.forall_mem_cons.mpr ⟨plain, hasBrace_eq_false.mp ih⟩)
  | token named bound scalar rest ih => exact hasBrace_append.mpr ⟨scalar.plain, ih⟩

/-! ### The scanner accepts the grammar -/

theorem identifier_closed {ident : Points} (named : isIdentifier ident = true) :
    ∀ c ∈ ident, c ≠ closeBrace := by
  have part {c : ℕ} (is : isIdentPart c = true) : c ≠ closeBrace := by
    rintro rfl
    exact absurd is (by decide)
  cases ident with
  | nil => cases named
  | cons c rest =>
    obtain ⟨first, others⟩ := Bool.and_eq_true_iff.mp named
    refine List.forall_mem_cons.mpr ⟨part ?_, fun d mem => part (List.all_eq_true.mp others d mem)⟩
    rw [isIdentPart, first, Bool.true_or]

theorem scan_char (args : Args) {c : ℕ} (plain : c ≠ openBrace ∧ c ≠ closeBrace) (rest : Points) :
    scan args (c :: rest) = (scan args rest).map (c :: ·) := by
  rw [scan, if_neg plain.2, if_neg plain.1]

theorem scan_token (args : Args) {inner : Points} (closed : ∀ c ∈ inner, c ≠ closeBrace)
    (more : Points) : scan args (openBrace :: (inner ++ closeBrace :: more)) =
      if isIdentifier inner then
        ((args.lookup inner).bind renderSummaryValue).bind fun t => (scan args more).map (t ++ ·)
      else none := by
  have taken : (inner ++ closeBrace :: more).takeWhile (· ≠ closeBrace) = inner := by
    rw [List.takeWhile_append_of_pos (by simpa using closed)]
    simp
  have dropped : (inner ++ closeBrace :: more).dropWhile (· ≠ closeBrace) =
      closeBrace :: more := by
    rw [List.dropWhile_append_of_pos (by simpa using closed)]
    simp
  rw [scan, if_neg (by decide), if_pos rfl]
  split
  · next found =>
    rw [dropped] at found
    cases found
  · next found =>
    rw [dropped] at found
    obtain ⟨-, rfl⟩ := List.cons.inj found
    simp only [taken]
    split
    · cases args.lookup inner with
      | none => rfl
      | some v =>
        simp only [Option.bind_some]
        cases renderSummaryValue v with
        | none => rfl
        | some t => rfl
    · rfl

theorem scan_of_fills {args : Args} {template result : Points}
    (fills : Fills args template result) : scan args template = some result := by
  induction fills with
  | done => rw [scan]
  | char plain rest ih => rw [scan_char args plain, ih, Option.map_some]
  | token named bound scalar rest ih =>
    rw [scan_token args (identifier_closed named), if_pos named, bound, Option.bind_some,
      renderSummaryValue_iff.mpr scalar, Option.bind_some, ih, Option.map_some]

theorem scan_unclosed (args : Args) {rest : Points} (none_ : closeBrace ∉ rest) :
    scan args (openBrace :: rest) = none := by
  have dropped : rest.dropWhile (· ≠ closeBrace) = [] := by
    refine List.dropWhile_eq_nil_iff.mpr fun c mem => ?_
    simpa using fun is : c = closeBrace => none_ (is ▸ mem)
  rw [scan, if_neg (by decide), if_pos rfl]
  split
  · rfl
  · next found =>
    rw [dropped] at found
    cases found

theorem fills_of_scan {args : Args} {template result : Points}
    (scanned : scan args template = some result) : Fills args template result := by
  induction size : template.length using Nat.strong_induction_on generalizing template result with
  | _ n ih =>
  subst size
  cases template with
  | nil =>
    rw [scan] at scanned
    cases scanned
    exact .done
  | cons c rest =>
    by_cases close : c = closeBrace
    · rw [scan, if_pos close] at scanned
      cases scanned
    by_cases brace : c = openBrace
    · subst brace
      by_cases closed : closeBrace ∈ rest
      · obtain ⟨inner, more, rfl, first⟩ := List.eq_append_cons_of_mem closed
        rw [scan_token args fun d mem is => first (is ▸ mem)] at scanned
        split at scanned
        · next named =>
          obtain ⟨text, rendered, scanned⟩ := Option.bind_eq_some_iff.mp scanned
          obtain ⟨v, bound, rendered⟩ := Option.bind_eq_some_iff.mp rendered
          obtain ⟨tail, read, rfl⟩ := Option.map_eq_some_iff.mp scanned
          have rest := ih more.length (by simp; omega) read rfl
          exact .token named bound (renderSummaryValue_iff.mp rendered) rest
        · cases scanned
      · rw [scan_unclosed args closed] at scanned
        cases scanned
    · rw [scan_char args ⟨brace, close⟩] at scanned
      obtain ⟨tail, read, rfl⟩ := Option.map_eq_some_iff.mp scanned
      exact .char ⟨brace, close⟩ (ih rest.length (by simp) read rfl)

/-! ### Only named arguments matter -/

theorem Fills.names {args others : Args} {template result : Points}
    (fills : Fills args template result)
    (agree : ∀ ident, Names template ident → args.lookup ident = others.lookup ident) :
    Fills others template result := by
  induction fills with
  | done => exact .done
  | @char c template result plain rest ih =>
    refine .char plain (ih fun ident names => agree ident ?_)
    obtain ⟨named, front, back, rfl⟩ := names
    exact ⟨named, c :: front, back, rfl⟩
  | @token ident text template result v named bound scalar rest ih =>
    have same := agree ident ⟨named, [], template, rfl⟩
    refine .token named (same ▸ bound) scalar (ih fun other names => agree other ?_)
    obtain ⟨named, front, back, rfl⟩ := names
    exact ⟨named, openBrace :: (ident ++ closeBrace :: front), back, by simp⟩

theorem interpolateSummary_iff {template result : Points} {args : Args} :
    interpolateSummary template args = some result ↔
      Fills args template result ∧ isUnsafeText result = false := by
  unfold interpolateSummary
  constructor
  · intro is
    split at is
    · cases is
    · next scanned =>
      split_ifs at is with brace bad
      cases is
      exact ⟨fills_of_scan scanned, Bool.eq_false_iff.mpr bad⟩
  · rintro ⟨fills, safe⟩
    simp only [scan_of_fills fills, fills.plain, safe]
    rfl

/-- The summary is written exactly for the templates of the grammar whose tokens name scalars,
when the sentence is safe: the template with the scalars in it. It has no brace, and arguments
that the template does not name have no part in it. -/
theorem summary_exact (template : Points) (args : Args) :
    (∀ result, interpolateSummary template args = some result ↔
      Fills args template result ∧ isUnsafeText result = false) ∧
    (∀ result, interpolateSummary template args = some result → hasBrace result = false) ∧
    ∀ others : Args, (∀ ident, Names template ident → args.lookup ident = others.lookup ident) →
      interpolateSummary template others = interpolateSummary template args := by
  refine ⟨fun result => interpolateSummary_iff, fun result is => ?_, fun others agree => ?_⟩
  · exact (interpolateSummary_iff.mp is).1.plain
  · refine Option.ext fun result => ?_
    rw [interpolateSummary_iff, interpolateSummary_iff]
    have back (ident : Points) (names : Names template ident) := (agree ident names).symm
    exact and_congr_left fun _ => ⟨fun fills => fills.names back, fun fills => fills.names agree⟩

end Casa.SummaryTemplate
