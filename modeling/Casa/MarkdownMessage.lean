import Mathlib.Algebra.GroupWithZero.Nat
import Casa.MarkdownInline

/-! A message in Markdown as the text that is displayed and the spans over it, and its rendering as
one message. -/

namespace Casa.MarkdownMessage
open LaminarIntervals MarkdownBlocks MarkdownInline

def Span.place (pos : ℕ) (s : Span) : Span := ⟨pos + s.start, pos + s.stop, s.kind⟩

def parseBlock (block : Block) : Text × List Span :=
  match block.1 with
  | .pre => (block.2, [⟨0, block.2.length, .pre⟩])
  | .text => parseInline block.2

def placeBlocks (pos : ℕ) : List Block → Text × List Span
  | [] => ([], [])
  | block :: rest =>
      let here := parseBlock block
      let later := placeBlocks (pos + here.1.length) rest
      (here.1 ++ later.1, here.2.map (Span.place pos) ++ later.2)

def Kind.rank : Kind → ℕ
  | .bold => 0
  | .code => 1
  | .italic => 2
  | .pre => 3

/-- `key=lambda x: (x[0], -x[1], x[2])`. -/
def spanLe (s t : Span) : Bool :=
  s.start < t.start || (s.start == t.start && (t.stop < s.stop ||
    (s.stop == t.stop && Kind.rank s.kind ≤ Kind.rank t.kind)))

def parseMarkdown (src : Text) : Text × List Span :=
  let blocks := placeBlocks 0 (splitBlocks src)
  (blocks.1, blocks.2.mergeSort spanLe)

/-! ### One message -/

def maxLen : ℕ := 4096
def maxEntities : ℕ := 100

def utf16Len (s : Text) : ℕ := (s.map fun c => if 0x10000 ≤ c then 2 else 1).sum

section Render
variable {E : Type} (adjust : Text → List Span → Option E)

/-- `_spans_to_entities`; `adjust` is the conversion to UTF-16 offsets, `none` what it raises. -/
def spansToEntities (display : Text) (spans : List Span) : Option E :=
  if spans.any fun s => s.stop ≤ s.start || display.length < s.stop then none
  else adjust display spans

def render (text : Text) : Text × Option E :=
  let (display, spans) := parseMarkdown text
  if spans = [] ∨ maxLen < display.length ∨ maxLen < utf16Len display ∨
      maxEntities < spans.length then (display, none)
  else (display, spansToEntities adjust display spans)

end Render

/-! ### Blocks one after the other -/

/-- What holds of every message; the empty spans are those of empty blocks of code. -/
structure Laid (low high : ℕ) (spans : List Span) : Prop where
  bounds : ∀ s ∈ spans, low ≤ s.start ∧ s.start ≤ s.stop ∧ s.stop ≤ high
  compatible : spans.Pairwise Compatible

theorem apart_of_bounds {s t : Span} {middle : ℕ} (left : s.stop ≤ middle)
    (right : middle ≤ t.start) : Apart s.range t.range := .inl (left.trans right)

theorem Laid.append {low middle high : ℕ} {left right : List Span} (first : Laid low middle left)
    (second : Laid middle high right) (begins : low ≤ middle) (ends : middle ≤ high) :
    Laid low high (left ++ right) where
  bounds := List.forall_mem_append.mpr
    ⟨fun s mem => ⟨(first.bounds s mem).1, (first.bounds s mem).2.1,
      (first.bounds s mem).2.2.trans ends⟩,
    fun s mem => ⟨begins.trans (second.bounds s mem).1, (second.bounds s mem).2⟩⟩
  compatible := List.pairwise_append.mpr ⟨first.compatible, second.compatible,
    fun s here t there => compatible_of_apart
      (apart_of_bounds (first.bounds s here).2.2 (second.bounds t there).1)⟩

theorem parseBlock_spec (block : Block) :
    (parseBlock block).1.Sublist block.2 ∧ Laid 0 (parseBlock block).1.length (parseBlock block).2 ∧
      ((∃ s ∈ (parseBlock block).2, s.start = s.stop) ↔ block = (.pre, [])) := by
  obtain ⟨kind, content⟩ := block
  cases kind with
  | pre =>
    refine ⟨.refl _, ⟨by simp [parseBlock], List.pairwise_singleton ..⟩, ?_⟩
    simp [parseBlock, eq_comm]
  | text =>
    obtain ⟨sub, bounds, compatible⟩ := parseInline_spec content
    refine ⟨sub, ⟨fun s mem => ⟨Nat.zero_le _, (bounds s mem).1.le, (bounds s mem).2⟩, compatible⟩,
      fun ⟨s, mem, empty⟩ => ?_, fun no => ?_⟩
    · exact absurd empty (bounds s mem).1.ne
    · cases no

theorem compatible_place {s t : Span} (h : Compatible s t) (pos : ℕ) :
    Compatible (Span.place pos s) (Span.place pos t) := by
  have shifted : Apart s.range t.range →
      Apart (Span.place pos s).range (Span.place pos t).range := by
    simp only [Apart, Span.range, Span.place]
    omega
  exact ⟨nested_shift h.nested pos, fun same => shifted (h.same same),
    fun other => shifted (h.code other)⟩

theorem Laid.place {high : ℕ} {spans : List Span} (laid : Laid 0 high spans) (pos : ℕ) :
    Laid pos (pos + high) (spans.map (Span.place pos)) where
  bounds s mem := by
    obtain ⟨t, inside, rfl⟩ := List.mem_map.mp mem
    have h := laid.bounds t inside
    simp only [Span.place]
    omega
  compatible := List.pairwise_map.mpr (laid.compatible.imp fun h => compatible_place h pos)

theorem placeBlocks_spec (pos : ℕ) (blocks : List Block) :
    (placeBlocks pos blocks).1.Sublist (textOf blocks) ∧
      Laid pos (pos + (placeBlocks pos blocks).1.length) (placeBlocks pos blocks).2 ∧
        ((∃ s ∈ (placeBlocks pos blocks).2, s.start = s.stop) ↔ (.pre, []) ∈ blocks) := by
  induction blocks generalizing pos with
  | nil => exact ⟨.refl _, ⟨by simp [placeBlocks], .nil⟩, by simp [placeBlocks]⟩
  | cons block blocks ih =>
    obtain ⟨sub, laid, empty⟩ := parseBlock_spec block
    obtain ⟨subs, laids, empties⟩ := ih (pos + (parseBlock block).1.length)
    rw [placeBlocks]
    refine ⟨sub.append subs, ?_, ?_⟩
    · rw [List.length_append, ← Nat.add_assoc]
      exact (laid.place pos).append laids (Nat.le_add_right ..) (Nat.le_add_right ..)
    · rw [List.mem_cons, ← empties, eq_comm (a := (BlockKind.pre, [])), ← empty]
      constructor
      · rintro ⟨s, mem, same⟩
        rcases List.mem_append.mp mem with mem | mem
        · obtain ⟨t, inside, rfl⟩ := List.mem_map.mp mem
          exact .inl ⟨t, inside, by simpa [Span.place] using same⟩
        · exact .inr ⟨s, mem, same⟩
      · rintro (⟨t, inside, same⟩ | ⟨s, mem, same⟩)
        · exact ⟨_, List.mem_append_left _ (List.mem_map_of_mem inside), by simp [Span.place, same]⟩
        · exact ⟨s, List.mem_append_right _ mem, same⟩

/-- What is displayed is what is left of the source, the spans lie in it and never cross, and an
empty one is that of an empty fence. -/
theorem parseMarkdown_spec (src : Text) :
    (parseMarkdown src).1.Sublist src ∧
      Laid 0 (parseMarkdown src).1.length (parseMarkdown src).2 ∧
        ((∃ s ∈ (parseMarkdown src).2, s.start = s.stop) ↔ EmptyFence (splitlines src)) := by
  obtain ⟨sub, laid, empty⟩ := placeBlocks_spec 0 (splitBlocks src)
  rw [Nat.zero_add] at laid
  have perm := List.mergeSort_perm (placeBlocks 0 (splitBlocks src)).2 spanLe
  refine ⟨sub.trans (splitBlocks_sublist src), ⟨fun s mem => ?_, ?_⟩, ?_⟩
  · exact laid.bounds s (perm.mem_iff.mp mem)
  · exact (perm.pairwise_iff fun h => h.symm).mpr laid.compatible
  · rw [← splitBlocks_empty, ← empty]
    simp only [parseMarkdown, perm.mem_iff]

/-! ### Usable messages -/

/-- The spans of a message can be sent, and its rendering hands them on. -/
structure Usable (src : Text) : Prop where
  displayed : (parseMarkdown src).1.Sublist src
  bounds : ∀ s ∈ (parseMarkdown src).2,
    s.start < s.stop ∧ s.stop ≤ (parseMarkdown src).1.length
  nested : (parseMarkdown src).2.Pairwise fun s t => Nested s.range t.range
  same : (parseMarkdown src).2.Pairwise fun s t => s.kind = t.kind → Apart s.range t.range
  code : (parseMarkdown src).2.Pairwise fun s t =>
    s.kind.emphasis ≠ t.kind.emphasis → Apart s.range t.range
  rendered : ∀ (E : Type) (adjust : Text → List Span → Option E), (parseMarkdown src).2 ≠ [] →
    (parseMarkdown src).1.length ≤ maxLen → utf16Len (parseMarkdown src).1 ≤ maxLen →
      (parseMarkdown src).2.length ≤ maxEntities →
        render adjust src =
          ((parseMarkdown src).1, adjust (parseMarkdown src).1 (parseMarkdown src).2)

theorem render_discards {E : Type} (adjust : Text → List Span → Option E) {src : Text}
    (empty : ∃ s ∈ (parseMarkdown src).2, s.start = s.stop) : (render adjust src).2 = none := by
  obtain ⟨s, mem, same⟩ := empty
  have invalid : ((parseMarkdown src).2.any fun s =>
      s.stop ≤ s.start || (parseMarkdown src).1.length < s.stop) = true :=
    List.any_eq_true.mpr ⟨s, mem, by simp [same]⟩
  unfold render
  dsimp only
  split_ifs
  · rfl
  · rw [spansToEntities, if_pos invalid]

/-- A message is usable exactly when no fence in it is empty. -/
theorem usable_iff (src : Text) : Usable src ↔ ¬EmptyFence (splitlines src) := by
  obtain ⟨sub, laid, empty⟩ := parseMarkdown_spec src
  rw [← empty]
  constructor
  · rintro usable ⟨s, mem, same⟩
    exact absurd same (usable.bounds s mem).1.ne
  · intro proper
    have bounds : ∀ s ∈ (parseMarkdown src).2,
        s.start < s.stop ∧ s.stop ≤ (parseMarkdown src).1.length := by
      intro s mem
      have h := laid.bounds s mem
      exact ⟨h.2.1.lt_of_ne fun same => proper ⟨s, mem, same⟩, h.2.2⟩
    refine ⟨sub, bounds, laid.compatible.imp fun h => h.nested, laid.compatible.imp fun h => h.same,
      laid.compatible.imp fun h => h.code, fun E adjust some_ short units few => ?_⟩
    have valid : ((parseMarkdown src).2.any fun s =>
        s.stop ≤ s.start || (parseMarkdown src).1.length < s.stop) = false := by
      refine List.any_eq_false.mpr fun s mem => ?_
      have h := bounds s mem
      simp only [Bool.or_eq_true, decide_eq_true_eq]
      omega
    have fits : ¬((parseMarkdown src).2 = [] ∨ maxLen < (parseMarkdown src).1.length ∨
        maxLen < utf16Len (parseMarkdown src).1 ∨
          maxEntities < (parseMarkdown src).2.length) := by
      simp only [some_, false_or]
      omega
    simp only [render, if_neg fits, spansToEntities, valid, Bool.false_eq_true, if_false]

def emptyFenceMessage : Text := [42, 42, 97, 42, 42, 10, 96, 96, 96, 10, 96, 96, 96]

/-- The span of the empty block costs the message the formatting of the word. -/
theorem empty_fence_discards : ¬Usable emptyFenceMessage ∧
    ∀ (E : Type) (adjust : Text → List Span → Option E),
      (render adjust emptyFenceMessage).2 = none := by
  have lines : splitlines emptyFenceMessage =
      [[42, 42, 97, 42, 42, 10], [96, 96, 96, 10], [96, 96, 96]] := by decide +kernel
  have fence : EmptyFence (splitlines emptyFenceMessage) := by
    rw [lines]
    have here : EmptyFence ([96, 96, 96, 10] :: ([] ++ [96, 96, 96] :: [])) :=
      .here (by decide +kernel) (by simp) (by decide +kernel) (.inl rfl)
    exact .skip (by decide +kernel) here
  have empty := (parseMarkdown_spec emptyFenceMessage).2.2.mpr fence
  refine ⟨fun usable => ?_, fun E adjust => render_discards adjust empty⟩
  obtain ⟨s, mem, same⟩ := empty
  exact absurd same (usable.bounds s mem).1.ne

end Casa.MarkdownMessage
