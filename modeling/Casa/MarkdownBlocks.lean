import Mathlib.Data.List.DropRight
import Mathlib.Data.Nat.Notation

/-! The blocks of a message in Markdown: fenced code, tables that are recognised with confidence,
and the text between them. A `str` is the list of its code points. -/

namespace Casa.MarkdownBlocks

abbrev Text := List ℕ

instance : LawfulBEq Text := inferInstance

/-! ### Texts -/

/-- `str.isspace` of one character. -/
def isSpace (c : ℕ) : Bool :=
  (0x09 ≤ c && c ≤ 0x0D) || (0x1C ≤ c && c ≤ 0x20) || c == 0x85 || c == 0xA0 || c == 0x1680 ||
    (0x2000 ≤ c && c ≤ 0x200A) || c == 0x2028 || c == 0x2029 || c == 0x202F || c == 0x205F ||
    c == 0x3000

def strip (s : Text) : Text := (s.dropWhile isSpace).rdropWhile isSpace

/-- The characters at which `splitlines` ends a line. -/
def isLineBreak (c : ℕ) : Bool :=
  (0x0A ≤ c && c ≤ 0x0D) || (0x1C ≤ c && c ≤ 0x1E) || c == 0x85 || c == 0x2028 || c == 0x2029

/-- `splitlines(keepends=True)`, with the line that has begun. -/
def splitlinesFrom (line : Text) : Text → List Text
  | [] => if line = [] then [] else [line]
  | 13 :: 10 :: rest => (line ++ [13, 10]) :: splitlinesFrom [] rest
  | c :: rest =>
      if isLineBreak c then (line ++ [c]) :: splitlinesFrom [] rest
      else splitlinesFrom (line ++ [c]) rest

def splitlines (s : Text) : List Text := splitlinesFrom [] s

/-- `line.rstrip("\r\n")`. -/
def body (line : Text) : Text := line.rdropWhile fun c => c == 13 || c == 10

def eol (line : Text) : Text := line.drop (body line).length

theorem body_eol (line : Text) : body line ++ eol line = line :=
   List.prefix_iff_eq_append.mp (List.rdropWhile_prefix _ line)

theorem splitlinesFrom_flatten (line s : Text) : (splitlinesFrom line s).flatten = line ++ s := by
  fun_induction splitlinesFrom line s with
  | case1 => simp
  | case2 => simp
  | case3 => simp [*]
  | case4 => simp [*]
  | case5 => simp [*]

theorem splitlines_flatten (s : Text) : (splitlines s).flatten = s := splitlinesFrom_flatten [] s

/-! ### Fences -/

inductive BlockKind where
  | pre | text
deriving DecidableEq

abbrev Block := BlockKind × Text

def backtick : ℕ := 96
def fence : Text := [backtick, backtick, backtick]

def stripOneEol (text : Text) : Text :=
  if [13, 10].isSuffixOf text then text.dropLast.dropLast
  else if text.getLast? = some 10 ∨ text.getLast? = some 13 then text.dropLast
  else text

def isOpener (line : Text) : Bool :=
  let stripped := strip (body line)
  let tail := stripped.drop 3
  fence.isPrefixOf stripped && !tail.contains backtick && !tail.any isSpace

def isCloser (line : Text) : Bool := strip (body line) == fence

def flushText (textBuf : List Text) : List Block :=
  if textBuf = [] then [] else [(.text, textBuf.flatten)]

def findClose : List Text → Option (List Text × Text × List Text)
  | [] => none
  | line :: rest =>
      if isCloser line then some ([], line, rest)
      else (findClose rest).map fun found => (line :: found.1, found.2)

theorem findClose_eq {lines inner after : List Text} {close : Text}
    (found : findClose lines = some (inner, close, after)) :
    lines = inner ++ close :: after ∧ (∀ l ∈ inner, isCloser l = false) ∧
      isCloser close = true := by
  induction lines generalizing inner with
  | nil => cases found
  | cons line rest ih =>
    rw [findClose] at found
    split at found
    · next closes =>
      cases found
      exact ⟨rfl, by simp, closes⟩
    · next stays =>
      obtain ⟨⟨front, rest'⟩, more, same⟩ := Option.map_eq_some_iff.mp found
      cases same
      obtain ⟨rfl, before, closes⟩ := ih more
      refine ⟨rfl, List.forall_mem_cons.mpr ⟨Bool.eq_false_iff.mpr stays, before⟩, closes⟩

theorem findClose_append {inner : List Text} (before : ∀ l ∈ inner, isCloser l = false)
    {close : Text} (closes : isCloser close = true) (after : List Text) :
    findClose (inner ++ close :: after) = some (inner, close, after) := by
  induction inner with
  | nil => rw [List.nil_append, findClose, if_pos closes]
  | cons l inner ih =>
    obtain ⟨first, rest⟩ := List.forall_mem_cons.mp before
    rw [List.cons_append, findClose, first, if_neg Bool.false_ne_true, ih rest]
    rfl

def closingEol (close : Text) (after : List Text) : List Text :=
  if after = [] then [] else [eol close]

/-- `_split_fenced` from a line on. -/
def splitFenced (lines : List Text) (textBuf : List Text) : List Block :=
  match lines with
  | [] => flushText textBuf
  | line :: rest =>
      if isOpener line then
        match _ : findClose rest with
        | none => flushText (textBuf ++ line :: rest)
        | some (inner, close, after) =>
            flushText textBuf ++ (.pre, stripOneEol inner.flatten) ::
              splitFenced after (closingEol close after)
      else splitFenced rest (textBuf ++ [line])
termination_by lines.length
decreasing_by
  · rename_i found
    obtain ⟨rfl, -⟩ := findClose_eq found
    simp
    omega
  · simp

/-! ### Tables -/

def bar : ℕ := 124

/-- `_TABLE_SEP_CELL_RE.fullmatch`. -/
def isSepCell (cell : Text) : Bool :=
  let colon (s : Text) : Text := if s.head? = some 58 then s.tail else s
  let dashes := colon (cell.dropWhile isSpace)
  3 ≤ (dashes.takeWhile (· == 45)).length && (colon (dashes.dropWhile (· == 45))).all isSpace

/-- `row[1:-1].split("|")`. -/
def cells (row : Text) : List Text := (row.drop 1).dropLast.splitOn bar

def isTableBlock (strippedRows : List Text) : Bool :=
  match strippedRows with
  | header :: separator :: _ =>
      if strippedRows.any fun row =>
          (row.zip row.tail).contains (92, bar) || row.contains backtick || row.contains 42 then
        false
      else
        let ncols := (cells header).length
        let sep := cells separator
        if sep.all isSepCell then
          sep.length == ncols && strippedRows.all fun row => (cells row).length == ncols
        else if strippedRows.length < 3 || ncols < 2 then false
        else strippedRows.all fun row =>
          (cells row).length == ncols && (cells row).any fun c => strip c ≠ []
  | _ => false

def isRow (line : Text) : Bool :=
  let stripped := strip (body line)
  2 ≤ stripped.length && stripped.head? == some bar && stripped.getLast? == some bar

def tableText (run : List Text) : Text × Text :=
  match run.getLast? with
  | none => ([], [])
  | some last => (run.dropLast.flatten ++ body last, eol last)

def someText (ending : Text) : List Text := if ending = [] then [] else [ending]

/-- `_split_tables` from a line on. -/
def splitTablesFrom (lines : List Text) (textBuf : List Text) : List Block :=
  match lines with
  | [] => flushText textBuf
  | line :: rest =>
      let run := (line :: rest).takeWhile isRow
      if 2 ≤ run.length ∧ isTableBlock (run.map fun l => strip (body l)) then
        flushText textBuf ++ (.pre, (tableText run).1) ::
          splitTablesFrom ((line :: rest).drop run.length) (someText (tableText run).2)
      else splitTablesFrom rest (textBuf ++ [line])
termination_by lines.length
decreasing_by
  · rename_i long
    have two : 2 ≤ ((line :: rest).takeWhile isRow).length := long.1
    simp only [List.length_drop, List.length_cons]
    omega
  · simp

def splitTables (text : Text) : List Block := splitTablesFrom (splitlines text) []

def splitBlocks (src : Text) : List Block :=
  (splitFenced (splitlines src) []).flatMap fun block =>
    match block.1 with
    | .pre => [block]
    | .text => splitTables block.2

/-! ### Fences lose line ends and markers only -/

def textOf (blocks : List Block) : Text := (blocks.map Prod.snd).flatten

theorem textOf_append (left right : List Block) :
    textOf (left ++ right) = textOf left ++ textOf right := by
  simp [textOf]

theorem textOf_cons (block : Block) (blocks : List Block) :
    textOf (block :: blocks) = block.2 ++ textOf blocks := rfl

theorem textOf_flushText (textBuf : List Text) : textOf (flushText textBuf) = textBuf.flatten := by
  unfold flushText
  split
  · next empty => simp [empty, textOf]
  · simp [textOf]

theorem stripOneEol_sublist (text : Text) : (stripOneEol text).Sublist text := by
  unfold stripOneEol
  split_ifs
  · exact (List.dropLast_sublist _).trans (List.dropLast_sublist _)
  · exact List.dropLast_sublist _
  · exact .refl _

theorem eol_sublist (line : Text) : (eol line).Sublist line := List.drop_sublist ..

theorem splitFenced_sublist (lines textBuf : List Text) :
    (textOf (splitFenced lines textBuf)).Sublist (textBuf.flatten ++ lines.flatten) := by
  fun_induction splitFenced lines textBuf with
  | case1 textBuf =>
    rw [textOf_flushText]
    simp
  | case2 textBuf line rest opens unclosed =>
    rw [textOf_flushText]
    simp
  | case3 textBuf line rest opens inner close after found ih =>
    obtain ⟨rfl, -⟩ := findClose_eq found
    have ending : (closingEol close after).flatten.Sublist close := by
      unfold closingEol
      split
      · simp
      · simpa using eol_sublist close
    have block := stripOneEol_sublist inner.flatten
    have later := ih.trans (ending.append_right after.flatten)
    rw [textOf_append, textOf_flushText, textOf_cons]
    refine (List.Sublist.refl _).append ?_
    have shape : (line :: (inner ++ close :: after)).flatten =
        line ++ (inner.flatten ++ (close ++ after.flatten)) := by simp
    rw [shape]
    exact (block.append later).trans (List.sublist_append_right ..)
  | case4 textBuf line rest plain ih => simpa using ih

/-! ### Empty fences -/

def IsOneEol (text : Text) : Prop := text = [] ∨ text = [10] ∨ text = [13] ∨ text = [13, 10]

/-- Somewhere an opening line has its closing line with nothing but one line end between them. -/
inductive EmptyFence : List Text → Prop
  | here {opener close : Text} {inner rest : List Text} (opens : isOpener opener = true)
      (before : ∀ l ∈ inner, isCloser l = false) (closes : isCloser close = true)
      (empty : IsOneEol inner.flatten) : EmptyFence (opener :: (inner ++ close :: rest))
  | past {opener close : Text} {inner rest : List Text} (opens : isOpener opener = true)
      (before : ∀ l ∈ inner, isCloser l = false) (closes : isCloser close = true)
      (later : EmptyFence rest) : EmptyFence (opener :: (inner ++ close :: rest))
  | skip {line : Text} {rest : List Text} (plain : isOpener line = false)
      (later : EmptyFence rest) : EmptyFence (line :: rest)

theorem stripOneEol_eq_nil {text : Text} : stripOneEol text = [] ↔ IsOneEol text := by
  constructor
  · intro is
    unfold stripOneEol at is
    split_ifs at is with pair single
    · obtain ⟨front, rfl⟩ := List.isSuffixOf_iff_suffix.mp pair
      have last : front ++ [13, 10] = (front ++ [13]) ++ [10] := by simp
      rw [last, List.dropLast_concat, List.dropLast_concat] at is
      subst is
      exact .inr (.inr (.inr rfl))
    · rcases List.eq_nil_or_concat text with rfl | ⟨front, c, rfl⟩
      · exact .inl rfl
      · rw [List.concat_eq_append] at is single ⊢
        rw [List.dropLast_concat] at is
        subst is
        simp only [List.nil_append, List.getLast?_singleton, Option.some.injEq] at single
        rcases single with rfl | rfl
        · exact .inr (.inl rfl)
        · exact .inr (.inr (.inl rfl))
    · exact .inl is
  · rintro (rfl | rfl | rfl | rfl) <;> rfl

theorem not_mem_flushText (textBuf : List Text) (content : Text) :
    (BlockKind.pre, content) ∉ flushText textBuf := by
  unfold flushText
  split <;> simp

theorem splitFenced_empty (lines textBuf : List Text) :
    (BlockKind.pre, []) ∈ splitFenced lines textBuf ↔ EmptyFence lines := by
  fun_induction splitFenced lines textBuf with
  | case1 textBuf =>
    exact ⟨fun mem => absurd mem (not_mem_flushText _ _), fun no => by cases no⟩
  | case2 textBuf line rest opens unclosed =>
    refine ⟨fun mem => absurd mem (not_mem_flushText _ _), fun empty => ?_⟩
    cases empty with
    | here _ before closes _ =>
      rw [findClose_append before closes] at unclosed
      cases unclosed
    | past _ before closes _ =>
      rw [findClose_append before closes] at unclosed
      cases unclosed
    | skip plain _ =>
      rw [opens] at plain
      cases plain
  | case3 textBuf line rest opens inner close after found ih =>
    obtain ⟨rfl, before, closes⟩ := findClose_eq found
    have here : (BlockKind.pre, ([] : Text)) = (.pre, stripOneEol inner.flatten) ↔
        IsOneEol inner.flatten := by
      rw [← stripOneEol_eq_nil, Prod.mk.injEq]
      exact ⟨fun same => same.2.symm, fun same => ⟨rfl, same.symm⟩⟩
    rw [List.mem_append, List.mem_cons, ih, here]
    constructor
    · rintro (flushed | empty | later)
      · exact absurd flushed (not_mem_flushText _ _)
      · exact .here opens before closes empty
      · exact .past opens before closes later
    · intro fence
      generalize shape : inner ++ close :: after = rest at fence
      cases fence with
      | here _ before' closes' empty =>
        have same := (findClose_append before closes after).symm.trans
          (shape ▸ findClose_append before' closes' _)
        simp only [Option.some.injEq, Prod.mk.injEq] at same
        obtain ⟨rfl, -, -⟩ := same
        exact .inr (.inl empty)
      | past _ before' closes' later =>
        have same := (findClose_append before closes after).symm.trans
          (shape ▸ findClose_append before' closes' _)
        simp only [Option.some.injEq, Prod.mk.injEq] at same
        obtain ⟨-, -, rfl⟩ := same
        exact .inr (.inr later)
      | skip plain _ =>
        rw [opens] at plain
        cases plain
  | case4 textBuf line rest plain ih =>
    rw [ih]
    have outside := Bool.eq_false_iff.mpr plain
    refine ⟨fun later => .skip outside later, fun empty => ?_⟩
    cases empty with
    | here opens => exact absurd opens plain
    | past opens => exact absurd opens plain
    | skip _ later => exact later

/-! ### Tables lose nothing -/

theorem tableText_spec {run : List Text} (rows : ∀ l ∈ run, isRow l = true) (some_ : run ≠ []) :
    (tableText run).1 ++ (tableText run).2 = run.flatten ∧ (tableText run).1 ≠ [] := by
  rcases List.eq_nil_or_concat run with rfl | ⟨front, last, rfl⟩
  · exact absurd rfl some_
  · rw [List.concat_eq_append] at rows ⊢
    have row := rows last (by simp)
    simp only [tableText, List.getLast?_append, List.getLast?_singleton, Option.some_or,
      List.dropLast_concat]
    refine ⟨?_, fun empty => ?_⟩
    · rw [List.append_assoc, body_eol]
      simp
    · have nothing := (List.append_eq_nil_iff.mp empty).2
      simp [isRow, nothing, strip] at row

theorem splitTablesFrom_spec (lines textBuf : List Text) :
    textOf (splitTablesFrom lines textBuf) = textBuf.flatten ++ lines.flatten ∧
      (BlockKind.pre, []) ∉ splitTablesFrom lines textBuf := by
  fun_induction splitTablesFrom lines textBuf with
  | case1 textBuf => exact ⟨by simp [textOf_flushText], not_mem_flushText _ _⟩
  | case2 textBuf line rest run table ih =>
    have two : 2 ≤ run.length := table.1
    have rows : ∀ l ∈ run, isRow l = true := fun l mem => List.mem_takeWhile_imp mem
    obtain ⟨whole, some_⟩ := tableText_spec rows (List.ne_nil_of_length_pos (by omega))
    have ending : (someText (tableText run).2).flatten = (tableText run).2 := by
      unfold someText
      split
      · next empty => simp [empty]
      · simp
    have halves : run.flatten ++ ((line :: rest).drop run.length).flatten =
        (line :: rest).flatten := by
      rw [← List.flatten_append]
      congr 1
      exact List.prefix_iff_eq_append.mp (List.takeWhile_prefix _)
    constructor
    · rw [textOf_append, textOf_flushText, textOf_cons, ih.1, ending, ← halves, ← whole]
      simp
    · rw [List.mem_append, List.mem_cons]
      rintro (flushed | here | later)
      · exact not_mem_flushText _ _ flushed
      · exact some_ (Prod.mk.inj here).2.symm
      · exact ih.2 later
  | case3 textBuf line rest run plain ih => exact ⟨by simpa using ih.1, ih.2⟩

theorem splitTables_spec (text : Text) :
    textOf (splitTables text) = text ∧ (BlockKind.pre, []) ∉ splitTables text := by
  have spec := splitTablesFrom_spec (splitlines text) []
  rw [splitlines_flatten] at spec
  exact spec

/-! ### All blocks -/

theorem splitBlocks_sublist (src : Text) : (textOf (splitBlocks src)).Sublist src := by
  have same : textOf (splitBlocks src) = textOf (splitFenced (splitlines src) []) := by
    unfold splitBlocks
    induction splitFenced (splitlines src) [] with
    | nil => rfl
    | cons block blocks ih =>
      obtain ⟨kind, content⟩ := block
      rw [List.flatMap_cons, textOf_append, ih, textOf_cons]
      cases kind with
      | pre => simp [textOf]
      | text => rw [(splitTables_spec content).1]
  rw [same]
  simpa [splitlines_flatten] using splitFenced_sublist (splitlines src) []

theorem splitBlocks_empty (src : Text) :
    (BlockKind.pre, []) ∈ splitBlocks src ↔ EmptyFence (splitlines src) := by
  rw [← splitFenced_empty _ [], splitBlocks, List.mem_flatMap]
  constructor
  · rintro ⟨⟨kind, content⟩, mem, inside⟩
    cases kind with
    | pre => exact List.mem_singleton.mp inside ▸ mem
    | text => exact absurd inside (splitTables_spec content).2
  · exact fun mem => ⟨_, mem, List.mem_singleton.mpr rfl⟩

end Casa.MarkdownBlocks
