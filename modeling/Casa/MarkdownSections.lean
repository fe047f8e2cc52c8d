import Casa.MarkdownBlocks
import Mathlib.Data.List.Infix

/-! The sections of a text in Markdown, and the selection of some of them without the subtrees of
others. -/

namespace Casa.MarkdownSections
open MarkdownBlocks (Text strip)

def newline : ℕ := '\n'.toNat
def hash : ℕ := '#'.toNat
def isBlank (c : ℕ) : Bool := c = ' '.toNat || c = '\t'.toNat

/-! ### Headings -/

/-- A match of `_HEADING`. -/
structure Heading where
  level : ℕ
  name : Text
  start : ℕ
  stop : ℕ

def headingOf (line : Text) : Option (ℕ × Text) :=
  let level := (line.takeWhile (· = hash)).length
  let rest := line.dropWhile (· = hash)
  if 1 ≤ level ∧ level ≤ 6 ∧ rest.head?.any isBlank ∧ 2 ≤ rest.length then
    some (level, strip rest)
  else none

def findHeadings (start : ℕ) : List Text → List Heading
  | [] => []
  | line :: rest =>
      (headingOf line).toList.map (fun h => ⟨h.1, h.2, start, start + line.length⟩) ++
        findHeadings (start + line.length + 1) rest

def headings (canonical : Text) : List Heading := findHeadings 0 (canonical.splitOn newline)

/-! ### Sections -/

structure Span where
  level : ℕ
  name : Text
  headingStart : ℕ
  bodyStart : ℕ
  stop : ℕ

/-- Where the next heading of this level or a shallower one begins, else the end of the text. -/
def sectionEnd (length level : ℕ) (later : List Heading) : ℕ :=
  ((later.find? (·.level ≤ level)).map (·.start)).getD length

def sectionSpans (length : ℕ) : List Heading → List Span
  | [] => []
  | h :: later =>
      ⟨h.level, h.name, h.start, h.stop, sectionEnd length h.level later⟩ ::
        sectionSpans length later

section Selection
variable (canonical : Text)

/-- `canonical[a:b]`. -/
def slice (a b : ℕ) : Text := (canonical.drop a).take (b - a)

def bodyParts (bodyStart stop : ℕ) (pos : ℕ) : List (ℕ × ℕ) → List Text
  | [] => [slice canonical pos stop]
  | cut :: cuts =>
      if cut.1 < bodyStart ∨ stop < cut.2 ∨ cut.2 ≤ pos then bodyParts bodyStart stop pos cuts
      else slice canonical pos (max pos cut.1) :: bodyParts bodyStart stop (max pos cut.2) cuts

def trimStart (s : Text) : Text := s.dropWhile (· = newline)
def trimEnd (s : Text) : Text := s.rdropWhile (· = newline)

def before (a b : ℕ × ℕ) : Bool := a.1 < b.1 || (a.1 = b.1 && a.2 ≤ b.2)

def spansOf : List Span := sectionSpans canonical.length (headings canonical)

def cutRanges (exclude : List Text) : List (ℕ × ℕ) :=
  ((spansOf canonical).filter fun s => exclude.contains s.name).map fun s =>
    (s.headingStart, s.stop)

def select (names exclude : List Text) : Text :=
  let selected := ((spansOf canonical).filter fun s => names.contains s.name).map fun s =>
    trimEnd (trimStart (bodyParts canonical s.bodyStart s.stop s.bodyStart
      ((cutRanges canonical exclude).mergeSort before)).flatten) ++ [newline]
  [newline].intercalate (selected.map trimEnd) ++ [newline]

/-- `select_markdown_sections`, where `validate` gives the canonical text of a source. -/
def selectMarkdownSections {E : Type} (validate : Text → Except E Text) (source : Text)
    (names exclude : List Text) : Except E Text :=
  (validate source).map fun canonical => select canonical names exclude

end Selection

/-! ### The order of headings and sections -/

theorem findHeadings_spec (start : ℕ) (lines : List Text) :
    (∀ h ∈ findHeadings start lines, start ≤ h.start ∧ h.start < h.stop ∧
      h.stop ≤ start + ([newline].intercalate lines).length) ∧
    (findHeadings start lines).Pairwise fun a b => a.stop < b.start := by
  induction lines generalizing start with
  | nil => exact ⟨nofun, .nil⟩
  | cons line rest ih =>
    obtain ⟨bounds, order⟩ := ih (start + line.length + 1)
    have inside : ∀ h ∈ findHeadings (start + line.length + 1) rest,
        start + line.length < h.start ∧ h.start < h.stop ∧
          h.stop ≤ start + ([newline].intercalate (line :: rest)).length := by
      intro h mem
      obtain ⟨next, more, rfl⟩ : ∃ next more, rest = next :: more :=
        List.exists_cons_of_ne_nil (by rintro rfl; cases mem)
      have found := bounds h mem
      simp only [List.intercalate_cons_cons, List.length_append, List.length_singleton]
      omega
    rw [findHeadings]
    cases read : headingOf line with
    | none => exact ⟨fun h mem => by have := inside h mem; omega, order⟩
    | some h =>
      have long : 0 < line.length := by
        cases line with
        | nil => cases read
        | cons => exact Nat.succ_pos _
      have fits : line.length ≤ ([newline].intercalate (line :: rest)).length := by
        cases rest <;> simp [List.intercalate_cons_cons]
      refine ⟨List.forall_mem_cons.mpr ⟨⟨le_rfl, by simpa using long, by simpa using fits⟩,
        fun h mem => ?_⟩, List.pairwise_cons.mpr ⟨fun h mem => (inside h mem).1, order⟩⟩
      have := inside h mem
      omega

theorem sectionEnd_mono {length level deeper : ℕ} {later : List Heading} (le : level ≤ deeper)
    (order : later.Pairwise fun a b => a.start < b.start)
    (within : ∀ h ∈ later, h.start < length) :
    sectionEnd length deeper later ≤ sectionEnd length level later := by
  induction later with
  | nil => exact le_rfl
  | cons h rest ih =>
    obtain ⟨first, more⟩ := List.pairwise_cons.mp order
    obtain ⟨here, others⟩ := List.forall_mem_cons.mp within
    unfold sectionEnd at ih ⊢
    by_cases stops : h.level ≤ level
    · simp [stops, stops.trans le]
    · by_cases deep : h.level ≤ deeper
      · rw [List.find?_cons_of_pos (by simpa using deep),
          List.find?_cons_of_neg (by simpa using stops)]
        cases found : rest.find? (·.level ≤ level) with
        | none => exact here.le
        | some k => exact (first k (List.mem_of_find?_eq_some found)).le
      · rw [List.find?_cons_of_neg (by simpa using deep),
          List.find?_cons_of_neg (by simpa using stops)]
        exact ih more others

theorem sectionEnd_cases (length level : ℕ) (later : List Heading) :
    sectionEnd length level later = length ∨
      ∃ h ∈ later, sectionEnd length level later = h.start := by
  unfold sectionEnd
  cases found : later.find? (·.level ≤ level) with
  | none => exact .inl rfl
  | some h => exact .inr ⟨h, List.mem_of_find?_eq_some found, rfl⟩

/-- One section after the other, and the second ends inside the first where it begins there. -/
def Nested (a b : Span) : Prop :=
  a.headingStart < b.headingStart ∧ (b.headingStart < a.stop → b.stop ≤ a.stop)

structure Ordered (length : ℕ) (hs : List Heading) : Prop where
  begins : ∀ s ∈ sectionSpans length hs, ∃ h ∈ hs, s.headingStart = h.start
  proper : ∀ s ∈ sectionSpans length hs, s.headingStart < s.bodyStart ∧ s.bodyStart ≤ s.stop
  closed : ∀ level, ∀ s ∈ sectionSpans length hs, s.headingStart < sectionEnd length level hs →
    s.stop ≤ sectionEnd length level hs
  nested : (sectionSpans length hs).Pairwise Nested

theorem ordered_sectionSpans {length : ℕ} {hs : List Heading}
    (bounds : ∀ h ∈ hs, h.start < h.stop ∧ h.stop ≤ length)
    (order : hs.Pairwise fun a b => a.stop < b.start) : Ordered length hs := by
  induction hs with
  | nil => exact ⟨nofun, nofun, nofun, .nil⟩
  | cons h later ih =>
    obtain ⟨here, others⟩ := List.forall_mem_cons.mp bounds
    obtain ⟨apart, more⟩ := List.pairwise_cons.mp order
    have rest := ih others more
    have starts : later.Pairwise fun a b => a.start < b.start :=
      more.imp_of_mem fun memA _ lt => (others _ memA).1.trans lt
    have within : ∀ k ∈ later, k.start < length := fun k mem =>
      (others k mem).1.trans_le (others k mem).2
    have after : ∀ s ∈ sectionSpans length later, h.start < s.headingStart := by
      intro s mem
      obtain ⟨k, inside, same⟩ := rest.begins s mem
      exact same ▸ here.1.trans (apart k inside)
    refine ⟨?_, ?_, ?_, ?_⟩
    · refine List.forall_mem_cons.mpr ⟨⟨h, List.mem_cons_self, rfl⟩, fun s mem => ?_⟩
      obtain ⟨k, inside, same⟩ := rest.begins s mem
      exact ⟨k, List.mem_cons_of_mem _ inside, same⟩
    · refine List.forall_mem_cons.mpr ⟨⟨here.1, ?_⟩, rest.proper⟩
      rcases sectionEnd_cases length h.level later with same | ⟨k, inside, same⟩
      · exact here.2.trans same.ge
      · exact (apart k inside).le.trans same.ge
    · intro level
      by_cases stops : h.level ≤ level
      · have ends : sectionEnd length level (h :: later) = h.start := by simp [sectionEnd, stops]
        rw [ends]
        exact List.forall_mem_cons.mpr ⟨fun lt => absurd lt (lt_irrefl _),
          fun s mem lt => absurd lt (after s mem).asymm⟩
      · have ends : sectionEnd length level (h :: later) = sectionEnd length level later := by
          simp [sectionEnd, stops]
        rw [ends]
        exact List.forall_mem_cons.mpr
          ⟨fun _ => sectionEnd_mono (not_le.mp stops).le starts within, rest.closed level⟩
    · exact List.pairwise_cons.mpr
        ⟨fun s mem => ⟨after s mem, rest.closed h.level s mem⟩, rest.nested⟩

theorem ordered_headings (canonical : Text) : Ordered canonical.length (headings canonical) := by
  obtain ⟨bounds, order⟩ := findHeadings_spec 0 (canonical.splitOn newline)
  refine ordered_sectionSpans (fun h mem => ⟨(bounds h mem).2.1, ?_⟩) order
  simpa using (bounds h mem).2.2

/-! ### What is left of a body -/

section Kept
variable (canonical : Text)

def charsAt (positions : List ℕ) : Text := positions.filterMap (canonical[·]?)

theorem slice_eq (a b : ℕ) : slice canonical a b = charsAt canonical (List.range' a (b - a)) := by
  rw [slice, charsAt]
  generalize b - a = n
  induction n generalizing a with
  | zero => simp
  | succ n ih =>
    rw [List.drop_eq_getElem?_toList_append, List.range'_succ, List.filterMap_cons]
    cases at_a : canonical[a]? with
    | none =>
      have past := List.getElem?_eq_none_iff.mp at_a
      rw [Option.toList_none, List.nil_append, List.drop_eq_nil_of_le (by omega)]
      exact (List.filterMap_eq_nil_iff.mpr fun p mem =>
        List.getElem?_eq_none (by have := List.mem_range'_1.mp mem; omega)).symm
    | some c => simp [ih]

def Inside (bodyStart stop : ℕ) (cut : ℕ × ℕ) : Prop := bodyStart ≤ cut.1 ∧ cut.1 < stop

theorem range'_split {a b c : ℕ} (ab : a ≤ b) (bc : b ≤ c) :
    List.range' a (c - a) = List.range' a (b - a) ++ List.range' b (c - b) := by
  have whole : c - a = b - a + (c - b) := by omega
  rw [whole, ← List.range'_append_1, Nat.add_sub_cancel' ab]

theorem bodyParts_flatten {bodyStart stop pos : ℕ} (keep : ℕ → Bool) {cuts : List (ℕ × ℕ)}
    (from_ : bodyStart ≤ pos) (upto : pos ≤ stop)
    (proper : ∀ c ∈ cuts, c.1 < c.2 ∧ (Inside bodyStart stop c → c.2 ≤ stop))
    (nested : cuts.Pairwise fun c d => c.1 < d.1 ∧ (d.1 < c.2 → d.2 ≤ c.2))
    (passed : ∀ c ∈ cuts, Inside bodyStart stop c → c.1 < pos → c.2 ≤ pos)
    (kept : ∀ p, pos ≤ p → (keep p = true ↔
      ∀ c ∈ cuts, Inside bodyStart stop c → ¬(c.1 ≤ p ∧ p < c.2))) :
    (bodyParts canonical bodyStart stop pos cuts).flatten =
      charsAt canonical ((List.range' pos (stop - pos)).filter keep) := by
  induction cuts generalizing pos with
  | nil =>
    have all : ∀ p ∈ List.range' pos (stop - pos), keep p = true := fun p mem =>
      (kept p (List.mem_range'_1.mp mem).1).mpr nofun
    rw [bodyParts, List.flatten_singleton, slice_eq, List.filter_eq_self.mpr all]
  | cons cut cuts ih =>
    obtain ⟨⟨grows, fits⟩, properRest⟩ := List.forall_mem_cons.mp proper
    obtain ⟨around, nestedRest⟩ := List.pairwise_cons.mp nested
    obtain ⟨passedCut, passedRest⟩ := List.forall_mem_cons.mp passed
    rw [bodyParts]
    split
    · next skipped =>
      refine ih from_ upto properRest nestedRest passedRest fun p past => ?_
      rw [kept p past, List.forall_mem_cons, and_iff_right]
      intro inside
      have := fits inside
      unfold Inside at inside
      omega
    · next taken =>
      have inside : Inside bodyStart stop cut := ⟨by omega, by omega⟩
      have ahead : pos ≤ cut.1 := by
        by_contra behind
        exact taken (.inr (.inr (passedCut ⟨by omega, by omega⟩ (not_le.mp behind))))
      have ends := fits inside
      have between : ∀ p ∈ List.range' pos (cut.1 - pos), keep p = true := by
        intro p mem
        have range := List.mem_range'_1.mp mem
        refine (kept p range.1).mpr (List.forall_mem_cons.mpr ⟨fun _ => by omega, ?_⟩)
        intro c inside_ _
        have := (around c inside_).1
        omega
      have within : ∀ p ∈ List.range' cut.1 (cut.2 - cut.1), ¬keep p = true := by
        intro p mem keeps
        have range := List.mem_range'_1.mp mem
        exact (kept p (by omega)).mp keeps cut List.mem_cons_self inside (by omega)
      have rest := @ih cut.2 (by omega) ends properRest nestedRest
        (fun c mem _ => (around c mem).2) fun p past => by
          rw [kept p (by omega), List.forall_mem_cons, and_iff_right]
          exact fun _ => by omega
      rw [max_eq_right ahead, max_eq_right (by omega), List.flatten_cons, rest, slice_eq,
        range'_split (c := stop) ahead (by omega), range'_split grows.le ends, List.filter_append,
        List.filter_append, List.filter_eq_self.mpr between, List.filter_eq_nil_iff.mpr within,
        List.nil_append, charsAt, charsAt, charsAt, List.filterMap_append]

/-- A position of the text under an excluded heading that lies in the body of a section. -/
def Excluded (exclude : List Text) (s : Span) (p : ℕ) : Prop :=
  ∃ cut ∈ spansOf canonical, cut.name ∈ exclude ∧ s.bodyStart ≤ cut.headingStart ∧
    cut.headingStart < s.stop ∧ cut.headingStart ≤ p ∧ p < cut.stop

open Classical in
noncomputable def remaining (exclude : List Text) (s : Span) : Text :=
  charsAt canonical ((List.range' s.bodyStart (s.stop - s.bodyStart)).filter fun p =>
    ¬Excluded canonical exclude s p)

theorem sorted_cutRanges (exclude : List Text) :
    (cutRanges canonical exclude).mergeSort before = cutRanges canonical exclude := by
  refine List.mergeSort_of_pairwise (List.pairwise_map.mpr ?_)
  refine ((ordered_headings canonical).nested.sublist List.filter_sublist).imp fun both => ?_
  simp [before, both.1]

theorem stop_le {s cut : Span} (mem : s ∈ spansOf canonical) (other : cut ∈ spansOf canonical)
    (later : s.headingStart < cut.headingStart) (begins : cut.headingStart < s.stop) :
    cut.stop ≤ s.stop := by
  have order := (ordered_headings canonical).nested
  exact List.Pairwise.forall_of_forall_of_flip
    (R := fun a b => a.headingStart < b.headingStart → b.headingStart < a.stop → b.stop ≤ a.stop)
    (fun _ _ lt => absurd lt (lt_irrefl _)) (order.imp fun both _ => both.2)
    (order.imp fun both lt => absurd lt both.1.asymm) mem other later begins

theorem bodyParts_remaining (exclude : List Text) {s : Span} (mem : s ∈ spansOf canonical) :
    (bodyParts canonical s.bodyStart s.stop s.bodyStart
      ((cutRanges canonical exclude).mergeSort before)).flatten =
        remaining canonical exclude s := by
  have ordered := ordered_headings canonical
  obtain ⟨heading, body⟩ := ordered.proper s mem
  rw [sorted_cutRanges]
  refine bodyParts_flatten canonical _ le_rfl body ?_ ?_ ?_ fun p past => ?_
  · intro c isCut
    obtain ⟨cut, inside, rfl⟩ := List.mem_map.mp isCut
    have of := List.mem_of_mem_filter inside
    have proper := ordered.proper cut of
    exact ⟨proper.1.trans_le proper.2, fun both =>
      stop_le canonical mem of (heading.trans_le both.1) both.2⟩
  · exact List.pairwise_map.mpr (ordered.nested.sublist List.filter_sublist)
  · exact fun c _ inside early => absurd inside.1 early.not_ge
  · simp only [decide_eq_true_eq, Excluded, not_exists, not_and, cutRanges, List.forall_mem_map,
      List.mem_filter, List.contains_iff_mem, Inside, and_imp]

theorem trimEnd_concat (t : Text) : trimEnd (trimEnd t ++ [newline]) = trimEnd t := by
  rw [trimEnd, List.rdropWhile_concat_pos _ _ _ (by simp), trimEnd, List.rdropWhile_idempotent]

end Kept

end Casa.MarkdownSections
