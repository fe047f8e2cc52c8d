import Casa.LaminarIntervals
import Casa.MarkdownBlocks

/-! The inline pass over a text block: headings, inline code and emphasis are found line by line in
the source, their markers are removed, and the spans are moved to what is displayed. -/

namespace Casa.MarkdownInline
open LaminarIntervals MarkdownBlocks

inductive Kind where
  | bold | code | italic | pre
deriving DecidableEq

def Kind.emphasis : Kind → Bool
  | .bold | .italic => true
  | .code | .pre => false

structure Span where
  start : ℕ
  stop : ℕ
  kind : Kind
deriving DecidableEq

def Span.range (s : Span) : Interval := (s.start, s.stop)

def star : ℕ := 42

/-! ### Inline code -/

/-- `_isolated_backticks` from a position on. -/
def isolatedFrom (i : ℕ) : Text → List ℕ
  | [] => []
  | c :: rest =>
      if c ≠ backtick then isolatedFrom (i + 1) rest
      else
        let run := rest.takeWhile (· == backtick)
        let later := isolatedFrom (i + 1 + run.length) (rest.drop run.length)
        if run = [] then i :: later else later
termination_by text => text.length
decreasing_by
  · simp
  · simp only [List.length_drop, List.length_cons]
    omega

def isolatedBackticks (chars : Text) : List ℕ := isolatedFrom 0 chars

/-- `[(isolated[k], isolated[k + 1]) for k in range(0, len(isolated), 2)]`. -/
def pairUp : List ℕ → List Interval
  | o :: c :: rest => (o, c) :: pairUp rest
  | _ => []

/-! ### Emphasis -/

/-- The opening and the closing delimiter of a pair, and their length. -/
structure Pair where
  opening : ℕ
  closing : ℕ
  delim : ℕ

def Pair.content (p : Pair) : Interval := (p.opening + p.delim, p.closing)

/-- The state of `_scan_emphasis_line`; the stack holds lengths and positions, its top first. -/
structure Scan where
  i : ℕ
  regions : List Interval
  stack : List (ℕ × ℕ)
  pairs : List Pair

def scanDelimiter (chars : Text) (delim : ℕ) (s : Scan) : Scan :=
  let canOpen := (chars[s.i + delim]?).any fun c => !isSpace c
  let canClose := s.i ≠ 0 && (chars[s.i - 1]?).any fun c => !isSpace c
  match s.stack with
  | (top, opening) :: below =>
      if canClose && top == delim then
        { s with stack := below, pairs := s.pairs ++ [⟨opening, s.i, delim⟩] }
      else if canOpen then { s with stack := (delim, s.i) :: s.stack } else s
  | [] => if canOpen then { s with stack := (delim, s.i) :: s.stack } else s

def scanChar (chars : Text) (s : Scan) : Scan :=
  let delim := ((chars.drop s.i).takeWhile (· == star)).length
  if delim = 0 then { s with i := s.i + 1 }
  else if delim = 1 ∨ delim = 2 then { scanDelimiter chars delim s with i := s.i + delim }
  else { s with i := s.i + delim }

def scanStep (chars : Text) (s : Scan) : Scan :=
  let regions := s.regions.dropWhile fun r => r.2 < s.i
  match regions with
  | r :: _ =>
      if r.1 ≤ s.i ∧ s.i ≤ r.2 then { s with i := r.2 + 1, regions }
      else scanChar chars { s with regions }
  | [] => scanChar chars { s with regions }

theorem scanStep_lt (chars : Text) (s : Scan) : s.i < (scanStep chars s).i := by
  have chars (t : Scan) (same : t.i = s.i) : s.i < (scanChar chars t).i := by
    unfold scanChar
    dsimp only
    split_ifs <;> dsimp only <;> omega
  unfold scanStep
  dsimp only
  split
  · split
    · next inside =>
      dsimp only
      omega
    · exact chars _ rfl
  · exact chars _ rfl

def scanLoop (chars : Text) (s : Scan) : Scan :=
  if s.i < chars.length then scanLoop chars (scanStep chars s) else s
termination_by chars.length - s.i
decreasing_by
  have forward := scanStep_lt chars s
  omega

def scanEmphasisLine (chars : Text) (codeRegions : List Interval) : List Pair :=
  let s := scanLoop chars ⟨0, codeRegions, [], []⟩
  match (s.stack.map Prod.snd).min? with
  | none => s.pairs
  | some cutoff => s.pairs.filter fun p => p.opening < cutoff && p.closing < cutoff

/-! ### Headings -/

def isBlank (c : ℕ) : Bool := c == 32 || c == 9

def hash : ℕ := 35

/-- `_HEADING_RE`: where the rest of a heading begins. -/
def headingPrefix (chars : Text) : Option ℕ :=
  let indent := (chars.takeWhile (· == 32)).length
  let hashes := ((chars.drop indent).takeWhile (· == hash)).length
  let gap := ((chars.drop (indent + hashes)).takeWhile isBlank).length
  if indent ≤ 3 ∧ 1 ≤ hashes ∧ hashes ≤ 6 ∧ 1 ≤ gap then some (indent + hashes + gap) else none

/-- `_TRAILING_HASH_RE`: where the trailing hashes begin, with the blanks before them. -/
def trailingHash (rest : Text) : Option ℕ :=
  let unblanked := rest.rdropWhile isBlank
  let unhashed := unblanked.rdropWhile (· == hash)
  let front := unhashed.rdropWhile isBlank
  if unhashed.length < unblanked.length ∧ front.length < unhashed.length then some front.length
  else none

def headingContent (chars : Text) : Option Interval :=
  match headingPrefix chars with
  | none => none
  | some start =>
      let rest := chars.drop start
      if strip rest = [] then none
      else match trailingHash rest with
        | none => some (start, start + rest.length)
        | some cut =>
            if strip (rest.take cut) = [] then some (start, start + rest.length)
            else some (start, start + cut)

/-! ### Spans around code -/

/-- `_subtract_intervals` from a hole on. -/
def subtractFrom (stop cur : ℕ) : List Interval → List Interval
  | [] => if cur < stop then [(cur, stop)] else []
  | h :: holes =>
      if stop ≤ h.1 then if cur < stop then [(cur, stop)] else []
      else if h.2 ≤ cur then subtractFrom stop cur holes
      else if cur < h.1 then (cur, h.1) :: subtractFrom stop (max cur h.2) holes
      else subtractFrom stop (max cur h.2) holes

/-- The holes are sorted, so that `bisect_left` counts those that start before. -/
def subtractIntervals (start stop : ℕ) (holes : List Interval) : List Interval :=
  let idx := (holes.takeWhile fun h => h.1 < start).length
  subtractFrom stop start (holes.drop (idx - 1))

def pairLe (a b : Interval) : Bool := a.1 < b.1 || (a.1 == b.1 && a.2 ≤ b.2)

def mergeFrom (last : Interval) : List Interval → List Interval
  | [] => [last]
  | r :: rest =>
      if r.1 < last.2 then mergeFrom (last.1, max last.2 r.2) rest else last :: mergeFrom r rest

def mergeRanges : List Interval → List Interval
  | [] => []
  | r :: rest => mergeFrom r rest

def mergeSameKind (spans : List Span) : List Span :=
  let merged (kind : Kind) : List Span :=
    (mergeRanges (((spans.filter (·.kind = kind)).map Span.range).mergeSort pairLe)).map
      fun r => ⟨r.1, r.2, kind⟩
  merged .bold ++ merged .italic ++ spans.filter fun s => s.kind ≠ .bold ∧ s.kind ≠ .italic

/-! ### The pass -/

structure Marks where
  removed : List ℕ
  code : List Interval
  emph : List (Interval × Kind)
  heading : List Interval

def Marks.none : Marks := ⟨[], [], [], []⟩

def Marks.append (m n : Marks) : Marks :=
  ⟨m.removed ++ n.removed, m.code ++ n.code, m.emph ++ n.emph, m.heading ++ n.heading⟩

def shift (pos : ℕ) (r : Interval) : Interval := (pos + r.1, pos + r.2)

def lineMarks (pos : ℕ) (fullLine : Text) : Marks :=
  let chars := body fullLine
  let isolated := isolatedBackticks chars
  if isolated.length % 2 = 1 then Marks.none
  else
    let codeRegions := pairUp isolated
    let pairs := scanEmphasisLine chars codeRegions
    let heading := (headingContent chars).toList
    { removed :=
        (codeRegions.flatMap fun r => [pos + r.1, pos + r.2]) ++
        (heading.flatMap fun r =>
          List.range' pos r.1 ++ List.range' (pos + r.2) (chars.length - r.2)) ++
        pairs.flatMap fun p =>
          List.range' (pos + p.opening) p.delim ++ List.range' (pos + p.closing) p.delim
      code := codeRegions.map fun r => (pos + r.1 + 1, pos + r.2)
      emph := pairs.map fun p => (shift pos p.content, if p.delim = 2 then .bold else .italic)
      heading := heading.map (shift pos) }

def linesMarks (pos : ℕ) : List Text → Marks
  | [] => Marks.none
  | chars :: rest => (lineMarks pos chars).append (linesMarks (pos + chars.length) rest)

/-- `prefix[i]`: the positions before `i` that are kept. -/
def keptBefore (removed : List ℕ) (i : ℕ) : ℕ := (List.range i).countP fun k => k ∉ removed

def keep (removed : List ℕ) (i : ℕ) : Text → Text
  | [] => []
  | c :: rest => if i ∈ removed then keep removed (i + 1) rest else c :: keep removed (i + 1) rest

def toDisplay (removed : List ℕ) (r : Interval) : Interval :=
  (keptBefore removed r.1, keptBefore removed r.2)

def parseInline (text : Text) : Text × List Span :=
  let marks := linesMarks 0 (splitlines text)
  if marks.removed = [] then (text, [])
  else
    let place := toDisplay marks.removed
    let codeDisp := ((marks.code.map place).filter fun r => r.1 < r.2).mergeSort pairLe
    let emphDisp := (marks.emph.map fun e => (place e.1, e.2)) ++
      marks.heading.map fun r => (place r, .bold)
    let split := emphDisp.flatMap fun e =>
      (subtractIntervals e.1.1 e.1.2 codeDisp).map fun r => (⟨r.1, r.2, e.2⟩ : Span)
    (keep marks.removed 0 text,
      (codeDisp.map fun r => (⟨r.1, r.2, .code⟩ : Span)) ++ mergeSameKind split)

/-! ### Pairs of delimiters -/

/-- What the scan keeps: the pairs and the open delimiters never cross. -/
structure Scan.Sound (chars : Text) (s : Scan) : Prop where
  ordered : s.stack.Pairwise fun upper lower => lower.2 + lower.1 ≤ upper.2
  opened : ∀ a ∈ s.stack, a.2 + a.1 ≤ s.i ∧ chars[a.2]? = some star
  closed : ∀ p ∈ s.pairs, p.opening + p.delim ≤ p.closing ∧ p.closing + p.delim ≤ s.i ∧
    chars[p.opening]? = some star ∧ chars[p.closing]? = some star
  apart : ∀ p ∈ s.pairs, ∀ a ∈ s.stack, p.closing + p.delim ≤ a.2 ∨ a.2 + a.1 ≤ p.opening
  nested : s.pairs.Pairwise fun p q => Nested p.content q.content

theorem Scan.Sound.later {chars : Text} {s : Scan} (sound : s.Sound chars) {i : ℕ} (le : s.i ≤ i)
    (regions : List Interval) : Scan.Sound chars { s with i, regions } where
  ordered := sound.ordered
  opened a mem := ⟨(sound.opened a mem).1.trans le, (sound.opened a mem).2⟩
  closed p mem :=
    have h := sound.closed p mem
    ⟨h.1, h.2.1.trans le, h.2.2⟩
  apart := sound.apart
  nested := sound.nested

theorem Scan.Sound.push {chars : Text} {s : Scan} (sound : s.Sound chars) {delim : ℕ}
    (here : chars[s.i]? = some star) :
    Scan.Sound chars { s with i := s.i + delim, stack := (delim, s.i) :: s.stack } where
  ordered := List.pairwise_cons.mpr ⟨fun a mem => (sound.opened a mem).1, sound.ordered⟩
  opened := List.forall_mem_cons.mpr ⟨⟨Nat.le_refl _, here⟩, fun a mem =>
    ⟨(sound.opened a mem).1.trans (Nat.le_add_right ..), (sound.opened a mem).2⟩⟩
  closed p mem :=
    have h := sound.closed p mem
    ⟨h.1, h.2.1.trans (Nat.le_add_right ..), h.2.2⟩
  apart p mem := List.forall_mem_cons.mpr ⟨.inl (sound.closed p mem).2.1, sound.apart p mem⟩
  nested := sound.nested

theorem Scan.Sound.pop {chars : Text} {s : Scan} (sound : s.Sound chars) {delim opening : ℕ}
    {below : List (ℕ × ℕ)} (top : s.stack = (delim, opening) :: below)
    (here : chars[s.i]? = some star) :
    Scan.Sound chars { s with
      i := s.i + delim, stack := below, pairs := s.pairs ++ [⟨opening, s.i, delim⟩] } where
  ordered := by
    have ordered := sound.ordered
    rw [top] at ordered
    exact (List.pairwise_cons.mp ordered).2
  opened a mem := by
    have h := sound.opened a (top ▸ List.mem_cons_of_mem _ mem)
    exact ⟨h.1.trans (Nat.le_add_right ..), h.2⟩
  closed := by
    have open_ := sound.opened (delim, opening) (top ▸ List.mem_cons_self)
    refine List.forall_mem_append.mpr ⟨fun p mem => ?_, ?_⟩
    · have h := sound.closed p mem
      exact ⟨h.1, h.2.1.trans (Nat.le_add_right ..), h.2.2⟩
    · simpa using ⟨open_.1, open_.2, here⟩
  apart := by
    refine List.forall_mem_append.mpr ⟨fun p mem a inside => ?_, ?_⟩
    · exact sound.apart p mem a (top ▸ List.mem_cons_of_mem _ inside)
    · have ordered := sound.ordered
      rw [top] at ordered
      intro p mem a inside
      obtain rfl := List.mem_singleton.mp mem
      exact .inr ((List.pairwise_cons.mp ordered).1 a inside)
  nested := by
    refine List.pairwise_append.mpr
      ⟨sound.nested, List.pairwise_singleton .., fun p mem q last => ?_⟩
    obtain rfl := List.mem_singleton.mp last
    -- an older pair ends before the popped delimiter or starts after it
    have h := sound.closed p mem
    rcases sound.apart p mem (delim, opening) (top ▸ List.mem_cons_self) with before | after
    · exact .inl (.inl (by simp only [Pair.content]; omega))
    · exact .inr (.inl (by simp only [Within, Pair.content]; omega))

theorem Scan.Sound.delimiter {chars : Text} {s : Scan} (sound : s.Sound chars) {delim : ℕ}
    (here : chars[s.i]? = some star) :
    Scan.Sound chars { scanDelimiter chars delim s with i := s.i + delim } := by
  have stay := sound.later (Nat.le_add_right s.i delim) s.regions
  unfold scanDelimiter
  dsimp only
  split
  · next top opening below stack =>
    split_ifs with closes opens
    · obtain rfl : top = delim := by
        simp only [Bool.and_eq_true, beq_iff_eq] at closes
        exact closes.2
      exact sound.pop stack here
    · exact sound.push here
    · exact stay
  · split_ifs
    · exact sound.push here
    · exact stay

theorem Scan.Sound.char {chars : Text} {s : Scan} (sound : s.Sound chars) :
    Scan.Sound chars (scanChar chars s) := by
  unfold scanChar
  dsimp only
  split_ifs with none_ some_
  · exact sound.later (Nat.le_succ _) s.regions
  · refine sound.delimiter ?_
    cases text : chars.drop s.i with
    | nil =>
      rw [text] at none_
      exact absurd rfl none_
    | cons c rest =>
      have first : c = star := by
        by_contra other
        rw [text, List.takeWhile_cons_of_neg (by simpa using other)] at none_
        exact none_ rfl
      rw [← Nat.add_zero s.i, ← List.getElem?_drop, text, first]
      rfl
  · exact sound.later (Nat.le_add_right ..) s.regions

theorem Scan.Sound.step {chars : Text} {s : Scan} (sound : s.Sound chars) :
    Scan.Sound chars (scanStep chars s) := by
  unfold scanStep
  dsimp only
  split
  · split_ifs with inside
    · exact sound.later (by omega) _
    · exact (sound.later (Nat.le_refl _) _).char
  · exact (sound.later (Nat.le_refl _) _).char

theorem Scan.Sound.loop {chars : Text} {s : Scan} (sound : s.Sound chars) :
    Scan.Sound chars (scanLoop chars s) := by
  fun_induction scanLoop chars s with
  | case1 s more ih => exact ih sound.step
  | case2 s done => exact sound

theorem scanEmphasisLine_spec (chars : Text) (codeRegions : List Interval) :
    (∀ p ∈ scanEmphasisLine chars codeRegions, p.opening + p.delim ≤ p.closing ∧
      chars[p.opening]? = some star ∧ chars[p.closing]? = some star) ∧
    (scanEmphasisLine chars codeRegions).Pairwise fun p q => Nested p.content q.content := by
  have sound : Scan.Sound chars (scanLoop chars ⟨0, codeRegions, [], []⟩) :=
    Scan.Sound.loop ⟨.nil, by simp, by simp, by simp, .nil⟩
  have each : ∀ p ∈ (scanLoop chars ⟨0, codeRegions, [], []⟩).pairs,
      p.opening + p.delim ≤ p.closing ∧ chars[p.opening]? = some star ∧
        chars[p.closing]? = some star :=
    fun p mem => ⟨(sound.closed p mem).1, (sound.closed p mem).2.2⟩
  unfold scanEmphasisLine
  dsimp only
  split
  · exact ⟨each, sound.nested⟩
  · exact ⟨fun p mem => each p (List.mem_of_mem_filter mem), sound.nested.filter _⟩

/-! ### Headings and code of a line -/

theorem drop_rdropWhile {p : ℕ → Bool} {text : Text} {k : ℕ} (low : (text.rdropWhile p).length ≤ k)
    {c : ℕ} (there : text[k]? = some c) : p c = true := by
  have split : (text.reverse.takeWhile p).reverse.length + (text.rdropWhile p).length =
      text.length := by
    have whole := congrArg List.length
      (List.takeWhile_append_dropWhile (p := p) (l := text.reverse))
    simp only [List.rdropWhile, List.length_append, List.length_reverse] at whole ⊢
    exact whole
  have mem : c ∈ text.reverse.takeWhile p := by
    have parts : text.rdropWhile p ++ (text.reverse.takeWhile p).reverse = text := by
      rw [List.rdropWhile, ← List.reverse_append, List.takeWhile_append_dropWhile,
        List.reverse_reverse]
    rw [← parts, List.getElem?_append_right low] at there
    exact List.mem_reverse.mp (List.mem_of_getElem? there)
  exact List.mem_takeWhile_imp mem

theorem trailingHash_spec {rest : Text} {cut : ℕ} (found : trailingHash rest = some cut) :
    cut ≤ rest.length ∧ ∀ k c, cut ≤ k → rest[k]? = some c → isBlank c = true ∨ c = hash := by
  dsimp only [trailingHash] at found
  split_ifs at found with runs
  obtain rfl := Option.some.inj found
  set unblanked := rest.rdropWhile isBlank with first
  set unhashed := unblanked.rdropWhile (· == hash) with second
  have one : unblanked <+: rest := List.rdropWhile_prefix ..
  have two : unhashed <+: unblanked := List.rdropWhile_prefix ..
  have three : unhashed.rdropWhile isBlank <+: unhashed := List.rdropWhile_prefix ..
  refine ⟨three.length_le.trans (two.length_le.trans one.length_le), fun k c low there => ?_⟩
  by_cases outer : unblanked.length ≤ k
  · exact .inl (drop_rdropWhile outer there)
  rw [← List.prefix_iff_eq_append.mp one, List.getElem?_append_left (by omega)] at there
  by_cases middle : unhashed.length ≤ k
  · exact .inr (by simpa using drop_rdropWhile middle there)
  rw [← List.prefix_iff_eq_append.mp two, List.getElem?_append_left (by omega)] at there
  exact .inl (drop_rdropWhile low there)

theorem takeWhile_get {p : ℕ → Bool} {text : Text} {k : ℕ} (low : k < (text.takeWhile p).length)
    {c : ℕ} (there : text[k]? = some c) : p c = true := by
  have prefix_ : text.takeWhile p <+: text := List.takeWhile_prefix _
  rw [← List.prefix_iff_eq_append.mp prefix_, List.getElem?_append_left low] at there
  exact List.mem_takeWhile_imp (List.mem_of_getElem? there)

theorem headingPrefix_spec {chars : Text} {start : ℕ} (found : headingPrefix chars = some start) :
    start ≤ chars.length ∧ ∀ k c, k < start → chars[k]? = some c → isBlank c = true ∨ c = hash := by
  dsimp only [headingPrefix] at found
  split_ifs at found
  obtain rfl := Option.some.inj found
  set indent := (chars.takeWhile (· == 32)).length with first
  set hashes := ((chars.drop indent).takeWhile (· == hash)).length with second
  have one := (List.takeWhile_prefix (p := (· == 32)) (l := chars)).length_le
  have two := (List.takeWhile_prefix (p := (· == hash)) (l := chars.drop indent)).length_le
  have three := (List.takeWhile_prefix (p := isBlank) (l := chars.drop (indent + hashes))).length_le
  rw [List.length_drop] at two three
  refine ⟨by omega, fun k c low there => ?_⟩
  by_cases inner : k < indent
  · have space : c = 32 := by simpa using takeWhile_get inner there
    exact .inl (by rw [space]; rfl)
  by_cases middle : k < indent + hashes
  · have there' : (chars.drop indent)[k - indent]? = some c := by
      rw [List.getElem?_drop, Nat.add_sub_cancel' (by omega)]
      exact there
    have mark := takeWhile_get (p := (· == hash)) (by omega) there'
    exact .inr (by simpa using mark)
  · have there' : (chars.drop (indent + hashes))[k - (indent + hashes)]? = some c := by
      rw [List.getElem?_drop, Nat.add_sub_cancel' (by omega)]
      exact there
    exact .inl (takeWhile_get (by omega) there')

theorem headingContent_spec {chars : Text} {r : Interval} (found : headingContent chars = some r) :
    r.1 ≤ r.2 ∧ r.2 ≤ chars.length ∧ ∀ k, chars[k]? = some star → r.1 ≤ k ∧ k < r.2 := by
  have plain : isBlank star = true ∨ star = hash → False := by decide
  unfold headingContent at found
  split at found
  · cases found
  · next start begins =>
    obtain ⟨low, before⟩ := headingPrefix_spec begins
    have after_start {k : ℕ} (there : chars[k]? = some star) : start ≤ k := by
      by_contra early
      exact plain (before k star (by omega) there)
    have whole : start + (chars.drop start).length = chars.length := by
      rw [List.length_drop]
      omega
    have in_line {k : ℕ} (there : chars[k]? = some star) : k < chars.length :=
      (List.getElem?_eq_some_iff.mp there).1
    dsimp only at found
    split_ifs at found with blank
    split at found
    · obtain rfl := Option.some.inj found
      exact ⟨by simp, by simp only; omega, fun k there =>
        ⟨after_start there, by have := in_line there; simp only; omega⟩⟩
    · next cut trailing =>
      obtain ⟨short, after⟩ := trailingHash_spec trailing
      split_ifs at found
      · obtain rfl := Option.some.inj found
        exact ⟨by simp, by simp only; omega, fun k there =>
          ⟨after_start there, by have := in_line there; simp only; omega⟩⟩
      · obtain rfl := Option.some.inj found
        refine ⟨by simp, by simp only; omega, fun k there => ⟨after_start there, ?_⟩⟩
        by_contra late
        have from_start : (chars.drop start)[k - start]? = some star := by
          rw [List.getElem?_drop, Nat.add_sub_cancel' (after_start there)]
          exact there
        exact plain (after (k - start) star (by simp only at late; omega) from_start)

theorem isolatedFrom_spec (i : ℕ) (text : Text) :
    (isolatedFrom i text).Pairwise (· < ·) ∧
      ∀ k ∈ isolatedFrom i text, i ≤ k ∧ k < i + text.length := by
  fun_induction isolatedFrom i text with
  | case1 i => exact ⟨.nil, by simp⟩
  | case2 i c rest other ih =>
    refine ⟨ih.1, fun k mem => ?_⟩
    have bounds := ih.2 k mem
    rw [List.length_cons]
    omega
  | case3 i c rest tick run later single ih =>
    have shape : later = isolatedFrom (i + 1 + run.length) (rest.drop run.length) := rfl
    rw [← shape] at ih
    refine ⟨List.pairwise_cons.mpr ⟨fun k mem => ?_, ih.1⟩, List.forall_mem_cons.mpr ⟨?_, ?_⟩⟩
    · have bounds := ih.2 k mem
      omega
    · rw [List.length_cons]
      omega
    · intro k mem
      have bounds := ih.2 k mem
      rw [List.length_drop] at bounds
      rw [List.length_cons]
      omega
  | case4 i c rest tick run later several ih =>
    have shape : later = isolatedFrom (i + 1 + run.length) (rest.drop run.length) := rfl
    rw [← shape] at ih
    refine ⟨ih.1, fun k mem => ?_⟩
    have bounds := ih.2 k mem
    rw [List.length_drop] at bounds
    rw [List.length_cons]
    omega

theorem pairUp_spec {positions : List ℕ} (increasing : positions.Pairwise (· < ·)) :
    (pairUp positions).Pairwise (fun r t => r.2 < t.1) ∧
      ∀ r ∈ pairUp positions, r.1 < r.2 ∧ r.1 ∈ positions ∧ r.2 ∈ positions := by
  fun_induction pairUp positions with
  | case1 o c rest ih =>
    obtain ⟨first, tail⟩ := List.pairwise_cons.mp increasing
    obtain ⟨second, tail⟩ := List.pairwise_cons.mp tail
    obtain ⟨ordered, each⟩ := ih tail
    refine ⟨List.pairwise_cons.mpr ⟨fun r mem => second r.1 (each r mem).2.1, ordered⟩,
      List.forall_mem_cons.mpr ⟨⟨first c List.mem_cons_self, by simp, by simp⟩, fun r mem => ?_⟩⟩
    obtain ⟨proper, left, right⟩ := each r mem
    exact ⟨proper, by simp [left], by simp [right]⟩
  | case2 positions short => exact ⟨.nil, by simp⟩

/-! ### Cutting and merging -/

structure Holes (holes : List Interval) : Prop where
  sorted : holes.Pairwise fun a b => a.2 ≤ b.1
  proper : ∀ h ∈ holes, h.1 < h.2

section Subtract
variable {all holes : List Interval} {start stop cur : ℕ}

theorem last_piece (done : ∀ h ∈ all, stop ≤ h.1 ∨ h.2 ≤ cur) (low : start ≤ cur)
    (left : cur = start ∨ ∃ h ∈ all, h.1 < h.2 ∧ h.2 = cur) :
    ∀ p ∈ (if cur < stop then [(cur, stop)] else []), Piece all (start, stop) p := by
  intro p mem
  split at mem
  · next room =>
    obtain rfl := List.mem_singleton.mp mem
    refine ⟨⟨low, Nat.le_refl _⟩, room, fun h inside => ?_, left, .inl rfl⟩
    rcases done h inside with after | before
    · exact .inl after
    · exact .inr before
  · cases mem

/-- The invariant of the loop: every hole is still to come or ends before `cur`, which is the start
or the end of a hole. -/
theorem subtractFrom_piece (known : ∀ h ∈ holes, h ∈ all)
    (done : ∀ h ∈ all, h ∈ holes ∨ h.2 ≤ cur) (ordered : Holes holes) (low : start ≤ cur)
    (left : cur = start ∨ ∃ h ∈ all, h.1 < h.2 ∧ h.2 = cur) :
    ∀ p ∈ subtractFrom stop cur holes, Piece all (start, stop) p := by
  induction holes generalizing cur with
  | nil =>
    exact last_piece (fun h mem => .inr ((done h mem).resolve_left List.not_mem_nil)) low left
  | cons h holes ih =>
    obtain ⟨later, sorted⟩ := List.pairwise_cons.mp ordered.sorted
    obtain ⟨proper, propers⟩ := List.forall_mem_cons.mp ordered.proper
    have rest : Holes holes := ⟨sorted, propers⟩
    have here := known h List.mem_cons_self
    have tail : ∀ g ∈ holes, g ∈ all := fun g mem => known g (List.mem_cons_of_mem _ mem)
    have passed {next : ℕ} (ends : h.2 ≤ next) (forth : cur ≤ next) :
        ∀ g ∈ all, g ∈ holes ∨ g.2 ≤ next := by
      intro g mem
      rcases done g mem with inside | before
      · rcases List.mem_cons.mp inside with rfl | inside
        · exact .inr ends
        · exact .inl inside
      · exact .inr (before.trans forth)
    rw [subtractFrom]
    by_cases beyond : stop ≤ h.1
    · rw [if_pos beyond]
      refine last_piece (fun g mem => ?_) low left
      rcases done g mem with inside | before
      · rcases List.mem_cons.mp inside with rfl | inside
        · exact .inl beyond
        · exact .inl (by have := later g inside; omega)
      · exact .inr before
    rw [if_neg beyond]
    split_ifs with old gap
    · exact ih tail (passed old (Nat.le_refl _)) rest low left
    · have jump : max cur h.2 = h.2 := by omega
      rw [jump]
      refine List.forall_mem_cons.mpr ⟨⟨⟨low, by simp only; omega⟩, gap, fun g mem => ?_, left,
        .inr ⟨h, here, proper, rfl⟩⟩, ih tail (passed (Nat.le_refl _) (by omega)) rest (by omega)
          (.inr ⟨h, here, proper, rfl⟩)⟩
      rcases done g mem with inside | before
      · rcases List.mem_cons.mp inside with rfl | inside
        · exact .inl (Nat.le_refl _)
        · exact .inl (by have := later g inside; simp only; omega)
      · exact .inr before
    · have jump : max cur h.2 = h.2 := by omega
      rw [jump]
      exact ih tail (passed (Nat.le_refl _) (by omega)) rest (by omega)
        (.inr ⟨h, here, proper, rfl⟩)

end Subtract

theorem subtractIntervals_piece {holes : List Interval} (ordered : Holes holes) (start stop : ℕ) :
    ∀ p ∈ subtractIntervals start stop holes, Piece holes (start, stop) p := by
  set front := holes.takeWhile fun h => h.1 < start with shape
  have whole : holes = front.dropLast ++ holes.drop (front.length - 1) := by
    have cut : front.dropLast = holes.take (front.length - 1) := by
      have prefix_ : front <+: holes := List.takeWhile_prefix _
      rw [List.dropLast_eq_take, List.prefix_iff_eq_take.mp prefix_, List.take_take,
        List.length_take]
      congr 1
      have short := prefix_.length_le
      omega
    rw [cut, List.take_append_drop]
  have sorted := ordered.sorted
  rw [whole] at sorted
  obtain ⟨frontSorted, restSorted, -⟩ := List.pairwise_append.mp sorted
  have rest : Holes (holes.drop (front.length - 1)) :=
    ⟨restSorted, fun h mem => ordered.proper h (List.mem_of_mem_drop mem)⟩
  refine subtractFrom_piece (fun h mem => List.mem_of_mem_drop mem) (fun h mem => ?_) rest
    (Nat.le_refl _) (.inl rfl)
  rw [whole] at mem
  rcases List.mem_append.mp mem with early | late
  · -- a skipped hole ends before the last hole that starts early
    have some_ : front ≠ [] := by
      intro empty
      rw [empty] at early
      cases early
    have pair : (front.dropLast ++ [front.getLast some_]).Pairwise fun a b => a.2 ≤ b.1 := by
      rw [List.dropLast_append_getLast]
      exact ordered.sorted.sublist (List.takeWhile_sublist _)
    have ends := (List.pairwise_append.mp pair).2.2 h early _ List.mem_cons_self
    have starts : (front.getLast some_).1 < start := by
      simpa using List.mem_takeWhile_imp (List.getLast_mem some_)
    exact .inr (by omega)
  · exact .inl late

section Merge
variable {family : List Interval}

theorem mergeFrom_spec (nested : ∀ a ∈ family, ∀ b ∈ family, Nested a b)
    (proper : ∀ a ∈ family, a.1 < a.2) {last : Interval} {ranges : List Interval}
    (known : last ∈ family) (others : ∀ r ∈ ranges, r ∈ family)
    (sorted : (last :: ranges).Pairwise fun a b => a.1 ≤ b.1) :
    (∀ r ∈ mergeFrom last ranges, r ∈ family ∧ last.1 ≤ r.1) ∧
      (mergeFrom last ranges).Pairwise fun a b => a.2 ≤ b.1 := by
  induction ranges generalizing last with
  | nil => simpa [mergeFrom] using known
  | cons r ranges ih =>
    obtain ⟨first, tail⟩ := List.forall_mem_cons.mp others
    obtain ⟨low, sortedTail⟩ := List.pairwise_cons.mp sorted
    have start := low r List.mem_cons_self
    have here := proper last known
    have there := proper r first
    rw [mergeFrom]
    split_ifs with meets
    · have outer : (last.1, max last.2 r.2) ∈ family := by
        rcases nested last known r first with (before | after) | ⟨starts, stops⟩ | ⟨_, stops⟩
        · omega
        · omega
        · have same : (last.1, max last.2 r.2) = r :=
            Prod.ext (by simp only; omega) (by simp; omega)
          rwa [same]
        · have same : (last.1, max last.2 r.2) = last := Prod.ext rfl (by simp; omega)
          rwa [same]
      refine ih outer tail (List.pairwise_cons.mpr ⟨fun t mem => ?_, ?_⟩)
      · exact low t (List.mem_cons_of_mem _ mem)
      · exact (List.pairwise_cons.mp sortedTail).2
    · obtain ⟨each, apart⟩ := ih first tail sortedTail
      refine ⟨List.forall_mem_cons.mpr ⟨⟨known, Nat.le_refl _⟩, fun t mem => ?_⟩,
        List.pairwise_cons.mpr ⟨fun t mem => ?_, apart⟩⟩
      · exact ⟨(each t mem).1, start.trans (each t mem).2⟩
      · have bound := (each t mem).2
        omega

theorem mergeRanges_spec (nested : ∀ a ∈ family, ∀ b ∈ family, Nested a b)
    (proper : ∀ a ∈ family, a.1 < a.2) {ranges : List Interval} (known : ∀ r ∈ ranges, r ∈ family)
    (sorted : ranges.Pairwise fun a b => a.1 ≤ b.1) :
    (∀ r ∈ mergeRanges ranges, r ∈ family) ∧
      (mergeRanges ranges).Pairwise fun a b => a.2 ≤ b.1 := by
  cases ranges with
  | nil => exact ⟨by simp [mergeRanges], .nil⟩
  | cons r ranges =>
    obtain ⟨first, tail⟩ := List.forall_mem_cons.mp known
    obtain ⟨each, apart⟩ := mergeFrom_spec nested proper first tail sorted
    exact ⟨fun t mem => (each t mem).1, apart⟩

end Merge

theorem sorted_pairLe (ranges : List Interval) :
    (ranges.mergeSort pairLe).Pairwise fun a b => a.1 ≤ b.1 := by
  have pairs : (ranges.mergeSort pairLe).Pairwise fun a b => pairLe a b = true := by
    refine List.pairwise_mergeSort (fun a b c => ?_) (fun a b => ?_) ranges
    · simp only [pairLe, Bool.or_eq_true, Bool.and_eq_true, decide_eq_true_eq, beq_iff_eq]
      omega
    · simp only [pairLe, Bool.or_eq_true, Bool.and_eq_true, decide_eq_true_eq, beq_iff_eq]
      omega
  refine pairs.imp fun le => ?_
  simp only [pairLe, Bool.or_eq_true, Bool.and_eq_true, decide_eq_true_eq, beq_iff_eq] at le
  omega

/-! ### The marks of a text -/

def Marks.wholes (m : Marks) : List Interval := m.emph.map Prod.fst ++ m.heading

/-- The marks lie between two positions; code is in order and the other intervals never cross. -/
structure Marks.Sound (low high : ℕ) (m : Marks) : Prop where
  code : m.code.Pairwise fun a b => a.2 ≤ b.1
  codeBounds : ∀ r ∈ m.code, low ≤ r.1 ∧ r.1 ≤ r.2 ∧ r.2 ≤ high
  nested : ∀ a ∈ m.wholes, ∀ b ∈ m.wholes, Nested a b
  bounds : ∀ r ∈ m.wholes, low ≤ r.1 ∧ r.1 ≤ r.2 ∧ r.2 ≤ high
  kinds : ∀ e ∈ m.emph, e.2.emphasis = true

theorem Marks.sound_none (low high : ℕ) : Marks.Sound low high Marks.none :=
  ⟨.nil, by simp [Marks.none], by simp [Marks.none, Marks.wholes],
    by simp [Marks.none, Marks.wholes], by simp [Marks.none]⟩

theorem Marks.mem_append {m n : Marks} {r : Interval} :
    r ∈ (m.append n).wholes ↔ r ∈ m.wholes ∨ r ∈ n.wholes := by
  simp only [Marks.wholes, Marks.append, List.map_append, List.mem_append]
  exact or_or_or_comm

theorem Marks.Sound.append {low middle high : ℕ} {m n : Marks} (left : m.Sound low middle)
    (right : n.Sound middle high) (begins : low ≤ middle) (ends : middle ≤ high) :
    (m.append n).Sound low high where
  code := List.pairwise_append.mpr ⟨left.code, right.code, fun a first b second =>
    (left.codeBounds a first).2.2.trans (right.codeBounds b second).1⟩
  codeBounds := List.forall_mem_append.mpr
    ⟨fun r mem => ⟨(left.codeBounds r mem).1, (left.codeBounds r mem).2.1,
      (left.codeBounds r mem).2.2.trans ends⟩,
    fun r mem => ⟨begins.trans (right.codeBounds r mem).1, (right.codeBounds r mem).2⟩⟩
  nested a first b second := by
    rcases Marks.mem_append.mp first with first | first <;>
      rcases Marks.mem_append.mp second with second | second
    · exact left.nested a first b second
    · exact .inl (.inl ((left.bounds a first).2.2.trans (right.bounds b second).1))
    · exact .inl (.inr ((left.bounds b second).2.2.trans (right.bounds a first).1))
    · exact right.nested a first b second
  bounds r mem := by
    rcases Marks.mem_append.mp mem with mem | mem
    · exact ⟨(left.bounds r mem).1, (left.bounds r mem).2.1, (left.bounds r mem).2.2.trans ends⟩
    · exact ⟨begins.trans (right.bounds r mem).1, (right.bounds r mem).2⟩
  kinds := List.forall_mem_append.mpr ⟨left.kinds, right.kinds⟩

theorem nested_shift {a b : Interval} (nested : Nested a b) (pos : ℕ) :
    Nested (shift pos a) (shift pos b) := nested.map fun le => Nat.add_le_add_left le pos

theorem lineMarks_sound (pos : ℕ) (fullLine : Text) :
    (lineMarks pos fullLine).Sound pos (pos + fullLine.length) := by
  have short : (body fullLine).length ≤ fullLine.length :=
    (List.rdropWhile_prefix _ fullLine).length_le
  unfold lineMarks
  dsimp only
  split_ifs
  · exact Marks.sound_none _ _
  set chars := body fullLine
  obtain ⟨increasing, inLine⟩ := isolatedFrom_spec 0 chars
  obtain ⟨follow, regions⟩ := pairUp_spec increasing
  obtain ⟨pairs, never⟩ := scanEmphasisLine_spec chars (pairUp (isolatedBackticks chars))
  have heading {r : Interval} (mem : r ∈ (headingContent chars).toList) :
      headingContent chars = some r := by simpa using mem
  have content {p : Pair} (mem : p ∈ scanEmphasisLine chars (pairUp (isolatedBackticks chars))) :
      p.content.1 ≤ p.content.2 ∧ p.content.2 < chars.length :=
    ⟨(pairs p mem).1, (List.getElem?_eq_some_iff.mp (pairs p mem).2.2).1⟩
  have inner {p : Pair} (mem : p ∈ scanEmphasisLine chars (pairUp (isolatedBackticks chars)))
      {r : Interval} (is : headingContent chars = some r) : Within p.content r := by
    obtain ⟨-, -, stars⟩ := headingContent_spec is
    have opens := stars p.opening (pairs p mem).2.1
    have closes := stars p.closing (pairs p mem).2.2
    exact ⟨by simp only [Pair.content]; omega, by simp only [Pair.content]; omega⟩
  have among : ∀ p ∈ scanEmphasisLine chars (pairUp (isolatedBackticks chars)),
      ∀ q ∈ scanEmphasisLine chars (pairUp (isolatedBackticks chars)),
        Nested p.content q.content := fun p first q second =>
    List.Pairwise.forall_of_forall_of_flip (fun p _ => .refl p.content) never
      (never.imp fun nested => nested.symm) first second
  have wholes {r : Interval} (mem : r ∈ ((scanEmphasisLine chars
      (pairUp (isolatedBackticks chars))).map fun p =>
        (shift pos p.content, if p.delim = 2 then Kind.bold else Kind.italic)).map Prod.fst ++
          (headingContent chars).toList.map (shift pos)) :
      (∃ p ∈ scanEmphasisLine chars (pairUp (isolatedBackticks chars)), shift pos p.content = r) ∨
        ∃ t, headingContent chars = some t ∧ shift pos t = r := by
    rcases List.mem_append.mp mem with mem | mem
    · simp only [List.map_map, List.mem_map, Function.comp_apply] at mem
      exact .inl mem
    · obtain ⟨t, is, same⟩ := List.mem_map.mp mem
      exact .inr ⟨t, heading is, same⟩
  refine ⟨?_, ?_, fun a first b second => ?_, fun r mem => ?_, fun e mem => ?_⟩
  · refine List.pairwise_map.mpr (follow.imp fun before => ?_)
    omega
  · intro r mem
    obtain ⟨t, inside, rfl⟩ := List.mem_map.mp mem
    obtain ⟨proper, left, right⟩ := regions t inside
    have bound := inLine t.2 right
    simp only
    omega
  · rcases wholes first with ⟨p, here, rfl⟩ | ⟨t, is, rfl⟩ <;>
      rcases wholes second with ⟨q, there, rfl⟩ | ⟨u, is', rfl⟩
    · exact nested_shift (among p here q there) pos
    · exact nested_shift (.inr (.inl (inner here is'))) pos
    · exact nested_shift (.inr (.inr (inner there is))) pos
    · rw [is] at is'
      obtain rfl := Option.some.inj is'
      exact .refl _
  · rcases wholes mem with ⟨p, here, rfl⟩ | ⟨t, is, rfl⟩
    · have bounds := content here
      simp only [shift]
      omega
    · obtain ⟨proper, bound, -⟩ := headingContent_spec is
      simp only [shift]
      omega
  · obtain ⟨p, -, rfl⟩ := List.mem_map.mp mem
    dsimp only
    split <;> rfl

theorem linesMarks_sound (pos : ℕ) (lines : List Text) :
    (linesMarks pos lines).Sound pos (pos + lines.flatten.length) := by
  induction lines generalizing pos with
  | nil => exact Marks.sound_none _ _
  | cons chars lines ih =>
    have later := ih (pos + chars.length)
    rw [Nat.add_assoc, ← List.length_append, ← List.flatten_cons] at later
    refine (lineMarks_sound pos chars).append later (by omega) ?_
    rw [List.flatten_cons, List.length_append]
    omega

/-! ### What is kept -/

theorem keptBefore_succ (removed : List ℕ) (i : ℕ) :
    keptBefore removed (i + 1) = keptBefore removed i + if i ∈ removed then 0 else 1 := by
  rw [keptBefore, List.range_succ, List.countP_append, keptBefore]
  by_cases gone : i ∈ removed <;> simp [gone]

theorem keptBefore_mono (removed : List ℕ) {i j : ℕ} (le : i ≤ j) :
    keptBefore removed i ≤ keptBefore removed j := by
  induction le with
  | refl => exact Nat.le_refl _
  | step _ ih =>
    rw [keptBefore_succ]
    omega

theorem keep_spec (removed : List ℕ) (i : ℕ) (text : Text) :
    (keep removed i text).Sublist text ∧
      keptBefore removed i + (keep removed i text).length =
        keptBefore removed (i + text.length) := by
  induction text generalizing i with
  | nil => exact ⟨.refl _, rfl⟩
  | cons c rest ih =>
    obtain ⟨sub, length⟩ := ih (i + 1)
    have next := keptBefore_succ removed i
    rw [keep, List.length_cons, ← Nat.add_assoc, Nat.add_right_comm]
    split_ifs with gone
    · rw [if_pos gone] at next
      exact ⟨.cons _ sub, by omega⟩
    · rw [if_neg gone] at next
      exact ⟨.cons_cons _ sub, by rw [List.length_cons]; omega⟩

/-! ### The spans of a text -/

structure Compatible (s t : Span) : Prop where
  nested : Nested s.range t.range
  same : s.kind = t.kind → Apart s.range t.range
  code : s.kind.emphasis ≠ t.kind.emphasis → Apart s.range t.range

theorem Compatible.symm {s t : Span} (h : Compatible s t) : Compatible t s :=
  ⟨h.nested.symm, fun same => (h.same same.symm).symm, fun other => (h.code (Ne.symm other)).symm⟩

theorem compatible_of_apart {s t : Span} (apart : Apart s.range t.range) : Compatible s t :=
  ⟨.inl apart, fun _ => apart, fun _ => apart⟩

theorem merged_spec {spans : List Span} (nested : ∀ s ∈ spans, ∀ t ∈ spans, Nested s.range t.range)
    (proper : ∀ s ∈ spans, s.start < s.stop) (kind : Kind) :
    let ranges := ((spans.filter (·.kind = kind)).map Span.range).mergeSort pairLe
    (∀ r ∈ mergeRanges ranges, (⟨r.1, r.2, kind⟩ : Span) ∈ spans) ∧
      (mergeRanges ranges).Pairwise fun a b => a.2 ≤ b.1 := by
  have family {r : Interval} (mem : r ∈ (spans.filter (·.kind = kind)).map Span.range) :
      ∃ s ∈ spans, s.kind = kind ∧ s.range = r := by
    obtain ⟨s, inside, rfl⟩ := List.mem_map.mp mem
    obtain ⟨here, is⟩ := List.mem_filter.mp inside
    exact ⟨s, here, by simpa using is, rfl⟩
  have perm := List.mergeSort_perm ((spans.filter (·.kind = kind)).map Span.range) pairLe
  obtain ⟨known, apart⟩ := mergeRanges_spec (fun a first b second => by
      obtain ⟨s, here, -, rfl⟩ := family first
      obtain ⟨t, there, -, rfl⟩ := family second
      exact nested s here t there)
    (fun a mem => by
      obtain ⟨s, here, -, rfl⟩ := family mem
      exact proper s here)
    (fun r mem => perm.mem_iff.mp mem) (sorted_pairLe _)
  refine ⟨fun r mem => ?_, apart⟩
  obtain ⟨s, here, rfl, rfl⟩ := family (known r mem)
  exact here

theorem mergeSameKind_spec {spans : List Span}
    (nested : ∀ s ∈ spans, ∀ t ∈ spans, Nested s.range t.range)
    (proper : ∀ s ∈ spans, s.start < s.stop) (emphasis : ∀ s ∈ spans, s.kind.emphasis = true) :
    (∀ s ∈ mergeSameKind spans, s ∈ spans) ∧ (mergeSameKind spans).Pairwise Compatible := by
  have others : (spans.filter fun s => s.kind ≠ .bold ∧ s.kind ≠ .italic) = [] := by
    refine List.filter_eq_nil_iff.mpr fun s mem => ?_
    have known := emphasis s mem
    cases is : s.kind <;> simp_all [Kind.emphasis]
  obtain ⟨bold, boldApart⟩ := merged_spec nested proper .bold
  obtain ⟨italic, italicApart⟩ := merged_spec nested proper .italic
  have alone {ranges : List Interval} (apart : ranges.Pairwise fun a b => a.2 ≤ b.1)
      (kind : Kind) : (ranges.map fun r => (⟨r.1, r.2, kind⟩ : Span)).Pairwise Compatible :=
    List.pairwise_map.mpr (apart.imp fun before => compatible_of_apart (.inl before))
  rw [mergeSameKind, others, List.append_nil]
  constructor
  · refine List.forall_mem_append.mpr ⟨fun s mem => ?_, fun s mem => ?_⟩
    · obtain ⟨r, inside, rfl⟩ := List.mem_map.mp mem
      exact bold r inside
    · obtain ⟨r, inside, rfl⟩ := List.mem_map.mp mem
      exact italic r inside
  · refine List.pairwise_append.mpr ⟨alone boldApart .bold, alone italicApart .italic,
      fun s first t second => ?_⟩
    obtain ⟨r, inside, rfl⟩ := List.mem_map.mp first
    obtain ⟨u, inside', rfl⟩ := List.mem_map.mp second
    exact ⟨nested _ (bold r inside) _ (italic u inside'), fun no => (by cases no),
      fun no => absurd rfl no⟩

theorem parseInline_spec (text : Text) :
    (parseInline text).1.Sublist text ∧
      (∀ s ∈ (parseInline text).2, s.start < s.stop ∧ s.stop ≤ (parseInline text).1.length) ∧
        (parseInline text).2.Pairwise Compatible := by
  have sound := linesMarks_sound 0 (splitlines text)
  rw [splitlines_flatten, Nat.zero_add] at sound
  unfold parseInline
  dsimp only
  split_ifs
  · exact ⟨.refl _, by simp, .nil⟩
  generalize linesMarks 0 (splitlines text) = marks at sound
  obtain ⟨sub, length⟩ := keep_spec marks.removed 0 text
  rw [Nat.zero_add] at length
  set place := toDisplay marks.removed with placed
  have high {i : ℕ} (le : i ≤ text.length) :
      keptBefore marks.removed i ≤ (keep marks.removed 0 text).length := by
    have none_ : keptBefore marks.removed 0 = 0 := rfl
    have bound := keptBefore_mono marks.removed le
    omega
  have moved {a b : Interval} (nested : Nested a b) : Nested (place a) (place b) :=
    nested.map fun le => keptBefore_mono marks.removed le
  -- the code that is left is in order already
  set code := (marks.code.map place).filter fun r => r.1 < r.2 with codeIs
  have codeProper : ∀ r ∈ code, r.1 < r.2 := fun r mem => by simpa using (List.mem_filter.mp mem).2
  have codeSorted : code.Pairwise fun a b => a.2 ≤ b.1 :=
    (List.pairwise_map.mpr (sound.code.imp fun before =>
      keptBefore_mono marks.removed before)).filter _
  have inOrder : code.mergeSort pairLe = code := by
    refine List.mergeSort_of_pairwise ?_
    refine (List.pairwise_iff_forall_sublist.mpr fun {a b} pair => ?_)
    have before := List.pairwise_iff_forall_sublist.mp codeSorted pair
    have first := codeProper a (pair.subset List.mem_cons_self)
    simp only [pairLe, Bool.or_eq_true, Bool.and_eq_true, decide_eq_true_eq, beq_iff_eq]
    omega
  rw [inOrder]
  have holes : Holes code := ⟨codeSorted, codeProper⟩
  have codeBound : ∀ r ∈ code, r.2 ≤ (keep marks.removed 0 text).length := by
    intro r mem
    obtain ⟨t, inside, rfl⟩ := List.mem_map.mp (List.mem_filter.mp mem).1
    exact high (sound.codeBounds t inside).2.2
  -- each piece comes from an interval of the source
  set split := ((marks.emph.map fun e => (place e.1, e.2)) ++
    marks.heading.map fun r => (place r, Kind.bold)).flatMap fun e =>
      (subtractIntervals e.1.1 e.1.2 code).map fun r => (⟨r.1, r.2, e.2⟩ : Span)
  have piece : ∀ s ∈ split, ∃ r ∈ marks.wholes, Piece code (place r) s.range := by
    intro s mem
    obtain ⟨e, inside, mem⟩ := List.mem_flatMap.mp mem
    obtain ⟨t, part, rfl⟩ := List.mem_map.mp mem
    have cut := subtractIntervals_piece holes e.1.1 e.1.2 t part
    rcases List.mem_append.mp inside with inside | inside
    · obtain ⟨f, there, rfl⟩ := List.mem_map.mp inside
      exact ⟨f.1, List.mem_append_left _ (List.mem_map_of_mem there), cut⟩
    · obtain ⟨f, there, rfl⟩ := List.mem_map.mp inside
      exact ⟨f, List.mem_append_right _ there, cut⟩
  have emphasis : ∀ s ∈ split, s.kind.emphasis = true := by
    intro s mem
    obtain ⟨e, inside, mem⟩ := List.mem_flatMap.mp mem
    obtain ⟨t, -, rfl⟩ := List.mem_map.mp mem
    rcases List.mem_append.mp inside with inside | inside
    · obtain ⟨f, there, rfl⟩ := List.mem_map.mp inside
      exact sound.kinds f there
    · obtain ⟨f, -, rfl⟩ := List.mem_map.mp inside
      rfl
  obtain ⟨from_, compatible⟩ := mergeSameKind_spec
    (fun s first t second => by
      obtain ⟨r, here, cut⟩ := piece s first
      obtain ⟨u, there, cut'⟩ := piece t second
      exact cut.nested cut' (moved (sound.nested r here u there)))
    (fun s mem => by
      obtain ⟨r, -, cut⟩ := piece s mem
      exact cut.proper) emphasis
  refine ⟨sub, List.forall_mem_append.mpr ⟨fun s mem => ?_, fun s mem => ?_⟩,
    List.pairwise_append.mpr ⟨?_, compatible, fun s first t second => ?_⟩⟩
  · obtain ⟨r, inside, rfl⟩ := List.mem_map.mp mem
    exact ⟨codeProper r inside, codeBound r inside⟩
  · obtain ⟨r, here, cut⟩ := piece s (from_ s mem)
    exact ⟨cut.proper, cut.within.2.trans (high (sound.bounds r here).2.2)⟩
  · exact List.pairwise_map.mpr (codeSorted.imp fun before => compatible_of_apart (.inl before))
  · obtain ⟨r, inside, rfl⟩ := List.mem_map.mp first
    obtain ⟨u, -, cut⟩ := piece t (from_ t second)
    exact compatible_of_apart (cut.clear r inside).symm

end Casa.MarkdownInline
