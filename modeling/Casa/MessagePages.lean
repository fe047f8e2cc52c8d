import Casa.MarkdownMessage
import Mathlib.Data.List.Perm.Subperm

/-! A message cut into pages, each within a budget of UTF-16 units and of spans. -/

namespace Casa.MessagePages
open LaminarIntervals MarkdownBlocks MarkdownInline MarkdownMessage

def width (c : ℕ) : ℕ := if 0x10000 ≤ c then 2 else 1

/-- `utf16_prefix_end` from a position on. -/
def prefixEndFrom (budget units i : ℕ) : Text → ℕ
  | [] => i
  | c :: rest =>
      if budget < units + width c then i else prefixEndFrom budget (units + width c) (i + 1) rest

def utf16PrefixEnd (s : Text) (start budget : ℕ) : ℕ :=
  prefixEndFrom budget 0 start (s.drop start)

/-- `s.rfind(sub, low, high)`. -/
def rfind (s sub : Text) (low high : ℕ) : Option ℕ :=
  (List.range' low (high + 1 - sub.length - low)).reverse.find? fun i =>
    (s.drop i).take sub.length == sub

def preferredCut (display : Text) (start stop : ℕ) : ℕ :=
  let found (sub : Text) := (rfind display sub (start + 1) stop).filter (start < ·)
  match found [10, 10] with
  | some para => para
  | none =>
      match found [10] with
      | some line => line
      | none =>
          match found [32] with
          | some space => space
          | none => stop

structure Page where
  text : Text
  spans : List Span

def meeting (spans : List Span) (start cut : ℕ) : List Span :=
  spans.filter fun s => s.start < cut && start < s.stop

def boundCut (spans : List Span) (maxEntities start cut : ℕ) : ℕ × List Span :=
  let inter := meeting spans start cut
  match inter[maxEntities]? with
  | none => (cut, inter)
  | some bound =>
      if start < bound.start then
        (min cut bound.start, (meeting spans start (min cut bound.start)).take maxEntities)
      else (cut, inter.take maxEntities)

def clip (start cut : ℕ) (s : Span) : Span :=
  ⟨max s.start start - start, min s.stop cut - start, s.kind⟩

def swallow (display : Text) (preIntervals : List Interval) : ℕ → ℕ → ℕ
  | 0, cut => cut
  | left + 1, cut =>
      if display[cut]? = some 10 ∧ ¬preIntervals.any fun r => r.1 ≤ cut && cut < r.2 then
        swallow display preIntervals left (cut + 1)
      else cut

section Paginate
variable (display : Text) (spans : List Span) (limit maxEntities : ℕ)

def preIntervals : List Interval := (spans.filter (·.kind = .pre)).map Span.range

def pageCut (start : ℕ) : ℕ × List Span :=
  let stop := utf16PrefixEnd display start limit
  boundCut spans maxEntities start
    (if display.length ≤ stop then display.length else preferredCut display start stop)

def pageAt (start : ℕ) : Page :=
  let cut := pageCut display spans limit maxEntities start
  ⟨(display.drop start).take (cut.1 - start),
    (cut.2.map (clip start cut.1)).filter fun s => s.start < s.stop⟩

def nextStart (start : ℕ) : ℕ :=
  let page := pageCut display spans limit maxEntities start
  let cut := swallow display (preIntervals spans) 2 page.1
  if cut ≤ start then start + 1 else cut

def pagesFrom (start : ℕ) : List Page :=
  if start < display.length then
    pageAt display spans limit maxEntities start ::
      pagesFrom (nextStart display spans limit maxEntities start)
  else []
termination_by display.length - start
decreasing_by
  unfold nextStart
  dsimp only
  split <;> omega

def paginate : List Page :=
  if utf16Len display ≤ limit ∧ spans.length ≤ maxEntities then [⟨display, spans⟩]
  else pagesFrom display (spans.mergeSort spanLe) limit maxEntities 0

end Paginate

/-! ### What pages are to be -/

/-- The UTF-16 units of a text: a surrogate pair for a character beyond the first plane. -/
def utf16 (s : Text) : List ℕ := s.flatMap fun c =>
  if 0x10000 ≤ c then [0xD800 + (c - 0x10000) / 0x400, 0xDC00 + (c - 0x10000) % 0x400] else [c]

def Covers (spans : List Span) (kind : Kind) (i : ℕ) : Prop :=
  ∃ s ∈ spans, s.kind = kind ∧ s.start ≤ i ∧ i < s.stop

/-- Pages that tell a text from a position on: each is a run of whole characters within the
budgets, so that no pair of units is split, and covered as it is in the text; between two of them
stand at most two newlines, none of them in a block of code. -/
inductive Pages (display : Text) (spans : List Span) (limit maxEntities : ℕ) :
    ℕ → List Page → Prop
  | done {start : ℕ} (whole : display.length ≤ start) :
      Pages display spans limit maxEntities start []
  | page {start cut next : ℕ} {page : Page} {rest : List Page}
      (forth : start ≤ cut ∧ cut ≤ display.length)
      (text : page.text = (display.drop start).take (cut - start))
      (units : utf16 display =
        utf16 (display.take start) ++ (utf16 page.text ++ utf16 (display.drop cut)))
      (budget : utf16Len page.text ≤ limit ∧ page.spans.length ≤ maxEntities)
      (inside : ∀ s ∈ page.spans, s.start ≤ s.stop ∧ s.stop ≤ page.text.length)
      (covers : ∀ kind i, i < page.text.length →
        (Covers page.spans kind i ↔ Covers spans kind (start + i)))
      (short : cut ≤ next ∧ next ≤ cut + 2)
      (gap : ∀ k, cut ≤ k → k < next → display[k]? = some 10 ∧ ¬Covers spans .pre k)
      (later : Pages display spans limit maxEntities next rest) :
      Pages display spans limit maxEntities start (page :: rest)

/-! ### The cut -/

theorem utf16_slice (display : Text) {start cut : ℕ} (forth : start ≤ cut) :
    utf16 display = utf16 (display.take start) ++
      (utf16 ((display.drop start).take (cut - start)) ++ utf16 (display.drop cut)) := by
  have back : display.drop cut = (display.drop start).drop (cut - start) := by
    rw [List.drop_drop, Nat.add_sub_cancel' forth]
  simp only [utf16]
  rw [back, ← List.flatMap_append, List.take_append_drop, ← List.flatMap_append,
    List.take_append_drop]

theorem utf16Len_cons (c : ℕ) (s : Text) : utf16Len (c :: s) = width c + utf16Len s := rfl

theorem width_le (c : ℕ) : width c ≤ 2 := by
  unfold width
  split <;> omega

theorem prefixEndFrom_spec {budget units : ℕ} (i : ℕ) (text : Text) (fits : units ≤ budget) :
    i ≤ prefixEndFrom budget units i text ∧ prefixEndFrom budget units i text ≤ i + text.length ∧
      units + utf16Len (text.take (prefixEndFrom budget units i text - i)) ≤ budget := by
  induction text generalizing i units with
  | nil => simpa [prefixEndFrom, utf16Len] using fits
  | cons c rest ih =>
    rw [prefixEndFrom]
    split_ifs with full
    · simpa [utf16Len] using fits
    · obtain ⟨low, high, room⟩ := ih (i + 1) (Nat.le_of_not_lt full)
      refine ⟨by omega, by rw [List.length_cons]; omega, ?_⟩
      obtain ⟨k, is⟩ := Nat.exists_eq_add_of_le low
      rw [is] at room ⊢
      have first : i + 1 + k - i = k + 1 := by omega
      have second : i + 1 + k - (i + 1) = k := by omega
      rw [second] at room
      rw [first, List.take_succ_cons, utf16Len_cons]
      omega

theorem utf16PrefixEnd_spec {display : Text} {start limit : ℕ} (two : 2 ≤ limit)
    (more : start < display.length) :
    start < utf16PrefixEnd display start limit ∧
      utf16PrefixEnd display start limit ≤ display.length ∧
        utf16Len ((display.drop start).take (utf16PrefixEnd display start limit - start)) ≤
          limit := by
  obtain ⟨-, high, room⟩ := prefixEndFrom_spec start (display.drop start) (Nat.zero_le limit)
  rw [Nat.zero_add] at room
  rw [List.length_drop] at high
  refine ⟨?_, by unfold utf16PrefixEnd; omega, room⟩
  unfold utf16PrefixEnd
  rw [List.drop_eq_getElem_cons more, prefixEndFrom, if_neg]
  · exact (prefixEndFrom_spec (start + 1) _ (by have := width_le display[start]; omega)).1
  · have := width_le display[start]
    omega

theorem utf16Len_take_le (s : Text) {m n : ℕ} (le : m ≤ n) :
    utf16Len (s.take m) ≤ utf16Len (s.take n) := by
  have front : s.take m = (s.take n).take m := by rw [List.take_take, Nat.min_eq_left le]
  have parts := congrArg utf16Len (List.take_append_drop m (s.take n))
  rw [← front] at parts
  simp only [utf16Len, List.map_append, List.sum_append] at parts ⊢
  omega

theorem rfind_spec {s sub : Text} {low high p : ℕ} (found : rfind s sub low high = some p) :
    low ≤ p ∧ p + sub.length ≤ high := by
  have mem := List.mem_reverse.mp (List.mem_of_find?_eq_some found)
  rw [List.mem_range'_1] at mem
  omega

theorem preferredCut_spec (display : Text) {start stop : ℕ} (room : start < stop) :
    start < preferredCut display start stop ∧ preferredCut display start stop ≤ stop := by
  have within {sub : Text} {p : ℕ}
      (found : (rfind display sub (start + 1) stop).filter (start < ·) = some p) :
      start < p ∧ p ≤ stop := by
    have bounds := rfind_spec (Option.eq_some_of_filter_eq_some found)
    omega
  unfold preferredCut
  dsimp only
  split
  · next found => exact within found
  · split
    · next found => exact within found
    · split
      · next found => exact within found
      · exact ⟨room, Nat.le_refl _⟩

/-! ### The number of spans -/

theorem mem_meeting {spans : List Span} {start cut : ℕ} {s : Span} :
    s ∈ meeting spans start cut ↔ s ∈ spans ∧ s.start < cut ∧ start < s.stop := by
  simp [meeting]

theorem length_le_of_common {spans : List Span} (compatible : spans.Pairwise Compatible) {p : ℕ}
    (common : ∀ s ∈ spans, s.start ≤ p ∧ p < s.stop) : spans.length ≤ 4 := by
  have kinds : (spans.map Span.kind).Nodup := by
    refine List.pairwise_map.mpr (List.Pairwise.imp_of_mem (fun first second h same => ?_)
      compatible)
    have apart := h.same same
    have left := common _ first
    have right := common _ second
    simp only [Apart, Span.range] at apart
    omega
  have all : spans.map Span.kind ⊆ [Kind.bold, .code, .italic, .pre] := by
    intro kind _
    cases kind <;> decide
  simpa using (List.subperm_of_subset kinds all).length_le

theorem length_filter_below {spans : List Span}
    (sorted : spans.Pairwise fun s t => s.start ≤ t.start) {m : ℕ} {bound : Span}
    (there : spans[m]? = some bound) {cut : ℕ} (low : cut ≤ bound.start) :
    (spans.filter fun s => s.start < cut).length ≤ m := by
  obtain ⟨inside, rfl⟩ := List.getElem?_eq_some_iff.mp there
  have later : ∀ s ∈ spans.drop m, cut ≤ s.start := by
    rw [List.drop_eq_getElem_cons inside]
    have tail := sorted.sublist (List.drop_sublist m spans)
    rw [List.drop_eq_getElem_cons inside] at tail
    exact List.forall_mem_cons.mpr
      ⟨low, fun s mem => low.trans ((List.pairwise_cons.mp tail).1 s mem)⟩
  have none_ : (spans.drop m).filter (fun s => s.start < cut) = [] := by
    refine List.filter_eq_nil_iff.mpr fun s mem => ?_
    simpa using later s mem
  rw [← List.take_append_drop m spans, List.filter_append, none_, List.append_nil]
  exact (List.length_filter_le ..).trans (List.length_take_le ..)

section Bound
variable {spans : List Span} {maxEntities start cut : ℕ}

/-- The bound on the spans leaves a page of at least one character, with all the spans that meet
it: more than four spans cannot share the start of the page. -/
theorem boundCut_spec (compatible : spans.Pairwise Compatible)
    (sorted : spans.Pairwise fun s t => s.start ≤ t.start) (four : 4 ≤ maxEntities)
    (room : start < cut) :
    start < (boundCut spans maxEntities start cut).1 ∧
      (boundCut spans maxEntities start cut).1 ≤ cut ∧
      (boundCut spans maxEntities start cut).2 =
        meeting spans start (boundCut spans maxEntities start cut).1 ∧
      (boundCut spans maxEntities start cut).2.length ≤ maxEntities := by
  have sortedMeeting : (meeting spans start cut).Pairwise fun s t => s.start ≤ t.start :=
    sorted.filter _
  unfold boundCut
  dsimp only
  split
  · next fits => exact ⟨room, Nat.le_refl _, rfl, List.getElem?_eq_none_iff.mp fits⟩
  · next bound there =>
    have forth : start < bound.start := by
      by_contra back
      -- all the spans up to the bound cover the start of the page
      obtain ⟨inside, is⟩ := List.getElem?_eq_some_iff.mp there
      have front := (meeting spans start cut).take_sublist (maxEntities + 1)
      have common : ∀ s ∈ (meeting spans start cut).take (maxEntities + 1),
          s.start ≤ start ∧ start < s.stop := by
        intro s mem
        have meets := (mem_meeting.mp (List.mem_of_mem_take mem)).2
        refine ⟨?_, meets.2⟩
        obtain ⟨k, low, at_⟩ := List.mem_take_iff_getElem.mp mem
        have order : s.start ≤ bound.start := by
          rcases Nat.lt_or_ge k maxEntities with before | after
          · have pair := List.pairwise_iff_getElem.mp sortedMeeting k maxEntities (by omega) inside
              before
            rwa [at_, is] at pair
          · obtain rfl : k = maxEntities := by omega
            rw [← at_, ← is]
        omega
      have few := length_le_of_common ((compatible.filter _).sublist front) common
      rw [List.length_take] at few
      omega
    rw [if_pos forth]
    have again : meeting spans start (min cut bound.start) =
        (meeting spans start cut).filter fun s => s.start < min cut bound.start := by
      unfold meeting
      rw [List.filter_filter]
      refine List.filter_congr fun s _ => ?_
      rw [Bool.eq_iff_iff]
      simp only [Bool.and_eq_true, decide_eq_true_eq]
      omega
    have few : (meeting spans start (min cut bound.start)).length ≤ maxEntities := by
      rw [again]
      exact length_filter_below sortedMeeting there (Nat.min_le_right ..)
    rw [List.take_of_length_le few]
    exact ⟨by omega, Nat.min_le_left .., rfl, few⟩

end Bound

theorem swallow_spec (display : Text) (pre : List Interval) (left cut : ℕ) :
    cut ≤ swallow display pre left cut ∧ swallow display pre left cut ≤ cut + left ∧
      ∀ k, cut ≤ k → k < swallow display pre left cut →
        display[k]? = some 10 ∧ ∀ r ∈ pre, ¬(r.1 ≤ k ∧ k < r.2) := by
  induction left generalizing cut with
  | zero => exact ⟨Nat.le_refl _, Nat.le_refl _, fun k low high => absurd high (Nat.not_lt.mpr low)⟩
  | succ left ih =>
    rw [swallow]
    split_ifs with newline
    · obtain ⟨low, high, each⟩ := ih (cut + 1)
      refine ⟨by omega, by omega, fun k from_ upto => ?_⟩
      rcases Nat.eq_or_lt_of_le from_ with rfl | after
      · refine ⟨newline.1, fun r mem covers => newline.2 ?_⟩
        exact List.any_eq_true.mpr ⟨r, mem, by simpa using covers⟩
      · exact each k after upto
    · exact ⟨Nat.le_refl _, Nat.le_add_right .., fun k low high => absurd high (Nat.not_lt.mpr low)⟩

theorem covers_clip {spans : List Span} {start cut i : ℕ} (inside : start + i < cut) (kind : Kind) :
    Covers (((meeting spans start cut).map (clip start cut)).filter fun s => s.start < s.stop)
      kind i ↔ Covers spans kind (start + i) := by
  constructor
  · rintro ⟨s, mem, is, low, high⟩
    obtain ⟨t, there, rfl⟩ := List.mem_map.mp (List.mem_of_mem_filter mem)
    have meets := mem_meeting.mp there
    simp only [clip] at low high
    exact ⟨t, meets.1, is, by omega, by omega⟩
  · rintro ⟨s, mem, is, low, high⟩
    refine ⟨clip start cut s, List.mem_filter.mpr ⟨List.mem_map_of_mem
      (mem_meeting.mpr ⟨mem, by omega, by omega⟩), ?_⟩, is, ?_, ?_⟩
    · refine decide_eq_true ?_
      simp only [clip]
      omega
    · simp only [clip]
      omega
    · simp only [clip]
      omega

section Run
variable {display : Text} {spans : List Span} {limit maxEntities : ℕ}

theorem pageCut_spec (compatible : spans.Pairwise Compatible)
    (sorted : spans.Pairwise fun s t => s.start ≤ t.start) (two : 2 ≤ limit)
    (four : 4 ≤ maxEntities) {start : ℕ} (more : start < display.length) :
    let cut := pageCut display spans limit maxEntities start
    start < cut.1 ∧ cut.1 ≤ display.length ∧
      utf16Len ((display.drop start).take (cut.1 - start)) ≤ limit ∧
        cut.2 = meeting spans start cut.1 ∧ cut.2.length ≤ maxEntities := by
  obtain ⟨forth, high, fits⟩ := utf16PrefixEnd_spec two more
  unfold pageCut
  dsimp only
  set stop := utf16PrefixEnd display start limit
  have first : start < (if display.length ≤ stop then display.length
      else preferredCut display start stop) ∧ (if display.length ≤ stop then display.length
        else preferredCut display start stop) ≤ stop := by
    split
    · next all => exact ⟨more, all⟩
    · exact preferredCut_spec display forth
  obtain ⟨low, bound, same, few⟩ := boundCut_spec compatible sorted four first.1
  refine ⟨low, bound.trans (first.2.trans high), ?_, same, few⟩
  exact (utf16Len_take_le _ (Nat.sub_le_sub_right (bound.trans first.2) start)).trans fits

theorem pagesFrom_spec (compatible : spans.Pairwise Compatible)
    (sorted : spans.Pairwise fun s t => s.start ≤ t.start) (two : 2 ≤ limit)
    (four : 4 ≤ maxEntities) (start : ℕ) :
    Pages display spans limit maxEntities start
      (pagesFrom display spans limit maxEntities start) := by
  fun_induction pagesFrom display spans limit maxEntities start with
  | case1 start more ih =>
    obtain ⟨forth, high, fits, same, few⟩ :=
      pageCut_spec compatible sorted two four more
    set cut := pageCut display spans limit maxEntities start with cutIs
    obtain ⟨low, short, newlines⟩ := swallow_spec display (preIntervals spans) 2 cut.1
    have next : nextStart display spans limit maxEntities start =
        swallow display (preIntervals spans) 2 cut.1 := by
      have forward : ¬swallow display (preIntervals spans) 2 cut.1 ≤ start := by omega
      simp only [nextStart, ← cutIs]
      exact if_neg forward
    rw [next] at ih ⊢
    have length : (pageAt display spans limit maxEntities start).text.length = cut.1 - start := by
      simp only [pageAt, ← cutIs, List.length_take, List.length_drop]
      omega
    have held : (pageAt display spans limit maxEntities start).spans =
        ((meeting spans start cut.1).map (clip start cut.1)).filter fun s => s.start < s.stop := by
      simp only [pageAt, ← cutIs, same]
    refine .page ⟨forth.le, high⟩ rfl (utf16_slice display forth.le) ⟨fits, ?_⟩ ?_ ?_
      ⟨low, short⟩ ?_ ih
    · rw [held]
      refine (List.length_filter_le ..).trans ?_
      rw [List.length_map, ← same]
      exact few
    · intro s mem
      rw [held] at mem
      obtain ⟨inside, proper⟩ := List.mem_filter.mp mem
      obtain ⟨t, -, rfl⟩ := List.mem_map.mp inside
      refine ⟨(of_decide_eq_true proper).le, ?_⟩
      rw [length]
      simp only [clip]
      omega
    · intro kind i short
      rw [length] at short
      rw [held]
      exact covers_clip (by omega) kind
    · intro k from_ upto
      obtain ⟨newline, outside⟩ := newlines k from_ upto
      refine ⟨newline, ?_⟩
      rintro ⟨s, mem, is, covers⟩
      refine outside s.range ?_ covers
      exact List.mem_map_of_mem (List.mem_filter.mpr ⟨mem, by simpa using is⟩)
  | case2 start done => exact .done (Nat.le_of_not_lt done)

end Run

theorem sorted_spanLe (spans : List Span) :
    (spans.mergeSort spanLe).Pairwise fun s t => s.start ≤ t.start := by
  have pairs : (spans.mergeSort spanLe).Pairwise fun s t => spanLe s t = true := by
    refine List.pairwise_mergeSort (fun a b c => ?_) (fun a b => ?_) spans
    · simp only [spanLe, Bool.or_eq_true, Bool.and_eq_true, decide_eq_true_eq, beq_iff_eq]
      omega
    · simp only [spanLe, Bool.or_eq_true, Bool.and_eq_true, decide_eq_true_eq, beq_iff_eq]
      omega
  refine pairs.imp fun le => ?_
  simp only [spanLe, Bool.or_eq_true, Bool.and_eq_true, decide_eq_true_eq, beq_iff_eq] at le
  omega

theorem Pages.congr {display : Text} {spans others : List Span} {limit maxEntities start : ℕ}
    {pages : List Page} (told : Pages display spans limit maxEntities start pages)
    (same : ∀ s, s ∈ spans ↔ s ∈ others) : Pages display others limit maxEntities start pages := by
  have covers (kind : Kind) (i : ℕ) : Covers spans kind i ↔ Covers others kind i := by
    simp only [Covers, same]
  induction told with
  | done whole => exact .done whole
  | page forth text units budget inside held short gap _ ih =>
    exact .page forth text units budget inside
      (fun kind i low => (held kind i low).trans (covers kind _)) short
      (fun k low high =>
        ⟨(gap k low high).1, fun no => (gap k low high).2 ((covers _ _).mpr no)⟩) ih

/-- The pages of a parsed message tell all of it, within the budgets. -/
theorem paginate_pages (src : Text) {limit maxEntities : ℕ} (two : 2 ≤ limit)
    (four : 4 ≤ maxEntities) :
    Pages (parseMarkdown src).1 (parseMarkdown src).2 limit maxEntities 0
      (paginate (parseMarkdown src).1 (parseMarkdown src).2 limit maxEntities) := by
  obtain ⟨-, laid, -⟩ := parseMarkdown_spec src
  unfold paginate
  split_ifs with fits
  · exact .page ⟨Nat.zero_le (parseMarkdown src).1.length, Nat.le_refl _⟩ (by simp)
      (by simp [utf16]) fits (fun s mem => (laid.bounds s mem).2)
      (fun kind i _ => by rw [Nat.zero_add])
      ⟨Nat.le_refl (parseMarkdown src).1.length, Nat.le_add_right ..⟩
      (fun k low high => absurd high (Nat.not_lt.mpr low)) (.done (Nat.le_refl _))
  · have perm := List.mergeSort_perm (parseMarkdown src).2 spanLe
    exact (pagesFrom_spec ((perm.pairwise_iff fun h => h.symm).mpr laid.compatible)
      (sorted_spanLe _) two four 0).congr fun s => perm.mem_iff

/-- Two bold words with an empty line between them, on pages of four units. -/
theorem two_words_paged : Pages
    (parseMarkdown [42, 42, 97, 98, 99, 42, 42, 10, 10, 42, 42, 100, 101, 42, 42]).1
    (parseMarkdown [42, 42, 97, 98, 99, 42, 42, 10, 10, 42, 42, 100, 101, 42, 42]).2 4 4 0
    (paginate (parseMarkdown [42, 42, 97, 98, 99, 42, 42, 10, 10, 42, 42, 100, 101, 42, 42]).1
      (parseMarkdown [42, 42, 97, 98, 99, 42, 42, 10, 10, 42, 42, 100, 101, 42, 42]).2 4 4) :=
  paginate_pages _ (by decide) (by decide)

end Casa.MessagePages
