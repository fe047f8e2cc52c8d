import Casa.SummaryTemplate
import Mathlib.Data.List.Induction

/-! The checklist that a summary shows of a `TodoWrite` call: a window around the item in progress
and the numbers of the items hidden before and behind it, taken in one pass over the list. -/

namespace Casa.PlanExtraction
open CanonicalJson (Points Value isUnsafeText points)

def planSubjectCap : ℕ := 60
def windowBefore : ℕ := 1
def windowAfter : ℕ := 6

inductive Status where
  | done
  | active
  | pending
deriving DecidableEq

abbrev Buckets := Status → ℤ

def zeroBuckets : Buckets := fun _ => 0

/-- `bucket[s] += n`. -/
def Buckets.add (b : Buckets) (s : Status) (n : ℤ) : Buckets := Function.update b s (b s + n)

structure Item where
  ordinal : ℕ
  status : Status
  label : Option Points

/-- `todo.get(key)` of a dict, and none of anything else. -/
def field (todo : Value) (key : List Char) : Value :=
  match todo with
  | .obj members => ((SummaryTemplate.dictOf members).lookup (points key)).getD .null
  | _ => .null

def isDict : Value → Bool
  | .obj _ => true
  | _ => false

/-- A float is written as `repr` writes it, so zero has no other digit before the exponent. -/
def truthy : Value → Bool
  | .null => false
  | .bool b => b
  | .int n => n ≠ 0
  | .float x => (x.chars.takeWhile (· ≠ 'e')).any fun c => c.isDigit && c ≠ '0'
  | .str s => s ≠ []
  | .arr items => !items.isEmpty
  | .obj members => !members.isEmpty

def sanitizePlanSubject : Value → Points
  | .str subject =>
      if isUnsafeText subject then []
      else (subject.filter fun c => c ≠ '*'.toNat && c ≠ '`'.toNat).take planSubjectCap
  | _ => []

def todoStatus (todo : Value) : Status :=
  match field todo ['s', 't', 'a', 't', 'u', 's'] with
  | .str s =>
      if s = points ['c', 'o', 'm', 'p', 'l', 'e', 't', 'e', 'd'] then .done
      else if s = points ['i', 'n', '_', 'p', 'r', 'o', 'g', 'r', 'e', 's', 's'] then .active
      else .pending
  | _ => .pending

def todoLabel (todo : Value) : Option Points :=
  if isDict todo then
    let content := field todo ['c', 'o', 'n', 't', 'e', 'n', 't']
    let activeForm := field todo ['a', 'c', 't', 'i', 'v', 'e', 'F', 'o', 'r', 'm']
    let text := sanitizePlanSubject
      (if truthy content then content else if truthy activeForm then activeForm else .str [])
    if text = [] then none else some text
  else none

def todoItem (idx : ℕ) (status : Status) (todo : Value) : Item := ⟨idx + 1, status, todoLabel todo⟩

/-- An item with its index and status, as the lookback keeps it. -/
structure Seen where
  idx : ℕ
  status : Status
  todo : Value

def Seen.item (s : Seen) : Item := todoItem s.idx s.status s.todo

structure Scan where
  total : ℕ := 0
  done : ℕ := 0
  before : Buckets := zeroBuckets
  after : Buckets := zeroBuckets
  items : List Item := []
  anchor : Option ℕ := none
  anchorFinal : Bool := false
  hold : List Seen := []
  prev : Option Seen := none

def Scan.place (c : Scan) (start : ℕ) : Scan :=
  c.hold.foldl (fun c h =>
    if h.idx < start then { c with before := c.before.add h.status 1 }
    else { c with items := c.items ++ [h.item] }) c

def Scan.show (c : Scan) (s : Seen) : Scan := { c with items := c.items ++ [s.item] }

def Scan.collect (c : Scan) (anchor : ℕ) (s : Seen) : Scan :=
  if s.idx ≤ anchor + windowAfter then c.show s
  else { c with after := c.after.add s.status 1 }

def Scan.search (c : Scan) (s : Seen) : Scan :=
  let c := if c.hold.length = windowBefore + 1 then
      match c.hold with
      | oldest :: rest => { c with before := c.before.add oldest.status 1, hold := rest }
      | [] => c
    else c
  { c with hold := c.hold ++ [s] }

/-- A first item in progress takes the window over: all that was shown or counted behind lies
before it, but the item right before it is shown. -/
def Scan.promote (c : Scan) (s : Seen) : Scan :=
  let before := c.items.foldl (fun b it => b.add it.status 1) c.before
  let before : Buckets := fun k => before k + c.after k
  let c := { c with after := zeroBuckets, anchor := some s.idx, anchorFinal := true }
  match c.prev with
  | some p => { c with before := before.add p.status (-1), items := [p.item, s.item] }
  | none => { c with before := before, items := [s.item] }

def Scan.tally (c : Scan) (s : Seen) : Scan :=
  { c with
    total := s.idx + 1
    done := if s.status = .done then c.done + 1 else c.done }

def Scan.move (c : Scan) (s : Seen) : Scan :=
  match c.anchor with
  | none =>
      if s.status = .done then c.search s
      else ({ c with anchor := some s.idx, anchorFinal := s.status = Status.active }.place
        (s.idx - windowBefore)).show s
  | some a =>
      if c.anchorFinal then c.collect a s
      else if s.status = .active then c.promote s
      else c.collect a s

def Scan.step (c : Scan) (todo : Value) : Scan :=
  let s : Seen := ⟨c.total, todoStatus todo, todo⟩
  { (c.tally s).move s with prev := some s }

def Scan.finish (c : Scan) : Scan :=
  if c.anchor = none ∧ c.total ≠ 0 then
    { c with anchor := some (c.total - 1) }.place (c.total - 1 - windowBefore)
  else c

structure Plan where
  done : ℕ
  total : ℕ
  subject : Points
  items : List Item
  hiddenBefore : Buckets
  hiddenAfter : Buckets

def subjectOf (items : List Item) : Option ℕ → Points
  | none => []
  | some a => match items.find? fun it => it.ordinal = a + 1 with
      | some it => it.label.getD []
      | none => []

def extractTodoPlan (todos : List Value) : Plan :=
  let c := (todos.foldl Scan.step {}).finish
  ⟨c.done, c.total, subjectOf c.items c.anchor, c.items, c.before, c.after⟩

/-! ### What the plan shows -/

def seen (todos : List Value) : List Seen := todos.mapIdx fun i todo => ⟨i, todoStatus todo, todo⟩

def count (l : List Seen) : Buckets := fun s => (l.countP fun x => x.status = s : ℕ)

def isActive (x : Seen) : Bool := x.status = .active

def isOpen (x : Seen) : Bool := x.status ≠ .done

def anchorOf (l : List Seen) : ℕ :=
  if l.any isActive then l.findIdx isActive
  else if l.any isOpen then l.findIdx isOpen
  else l.length - 1

/-- The items from the one before the anchor to the sixth behind it, as far as there are any. -/
def shown (l : List Seen) (a : ℕ) : List Item :=
  ((l.take (a + windowAfter + 1)).drop (a - windowBefore)).map Seen.item

def planOf (todos : List Value) : Plan :=
  let l := seen todos
  let a := anchorOf l
  { done := l.countP fun x => x.status = .done
    total := todos.length
    subject := (todos[a]?.bind todoLabel).getD []
    items := shown l a
    hiddenBefore := count (l.take (a - windowBefore))
    hiddenAfter := count (l.drop (a + windowAfter + 1)) }

theorem seen_concat (todos : List Value) (todo : Value) :
    seen (todos ++ [todo]) = seen todos ++ [⟨todos.length, todoStatus todo, todo⟩] := by
  simp [seen, List.mapIdx_append]

@[simp] theorem length_seen (todos : List Value) : (seen todos).length = todos.length := by
  simp [seen]

def Indexed (l : List Seen) : Prop := ∀ (i : ℕ) (x : Seen), l[i]? = some x → x.idx = i

theorem indexed_seen (todos : List Value) : Indexed (seen todos) := by
  intro i x found
  simp only [seen, List.getElem?_mapIdx, Option.map_eq_some_iff] at found
  obtain ⟨todo, _, rfl⟩ := found
  rfl

/-! ### Buckets -/

@[simp] theorem count_nil : count [] = zeroBuckets := rfl

theorem count_append (l m : List Seen) (s : Status) : count (l ++ m) s = count l s + count m s := by
  simp [count]

theorem count_concat (l : List Seen) (x : Seen) : count (l ++ [x]) = (count l).add x.status 1 := by
  funext s
  rw [count_append, Buckets.add]
  by_cases same : s = x.status
  · subst same
    simp [count]
  · rw [Function.update_of_ne same]
    simp [count, Ne.symm same]

theorem add_cancel (b : Buckets) (s : Status) : (b.add s 1).add s (-1) = b := by
  funext k
  by_cases same : k = s
  · subst same
    simp only [Buckets.add, Function.update_self]
    omega
  · simp [Buckets.add, Function.update_of_ne same]

theorem add_one_apply (b : Buckets) (x : Seen) (s : Status) :
    b.add x.status 1 s = b s + count [x] s := by
  by_cases same : s = x.status
  · subst same
    simp [Buckets.add, count]
  · simp [Buckets.add, count, Function.update_of_ne same, Ne.symm same]

theorem foldl_items (l : List Seen) (b : Buckets) (s : Status) :
    (l.map Seen.item).foldl (fun b it => b.add it.status 1) b s = b s + count l s := by
  induction l generalizing b with
  | nil => simp [zeroBuckets]
  | cons x rest ih =>
    have head : count (x :: rest) s = count [x] s + count rest s := count_append [x] rest s
    rw [List.map_cons, List.foldl_cons, ih, head]
    change b.add x.status 1 s + _ = _
    rw [add_one_apply]
    omega

/-! ### One step -/

structure Opened (l : List Seen) (c : Scan) (a : ℕ) : Prop where
  inside : a < l.length
  items : c.items = shown l a
  before : c.before = count (l.take (a - windowBefore))
  after : c.after = count (l.drop (a + windowAfter + 1))
  final : c.anchorFinal = true → l.any isActive = true ∧ l.findIdx isActive = a
  provisional : c.anchorFinal = false →
    l.any isActive = false ∧ l.any isOpen = true ∧ l.findIdx isOpen = a

structure Searching (l : List Seen) (c : Scan) : Prop where
  completed : l.any isOpen = false
  items : c.items = []
  before : c.before = count (l.take (l.length - 2))
  after : c.after = zeroBuckets
  hold : c.hold = l.drop (l.length - 2)

def Windowed (l : List Seen) (c : Scan) : Prop :=
  match c.anchor with
  | none => Searching l c
  | some a => Opened l c a

structure Scanned (l : List Seen) (c : Scan) : Prop where
  total : c.total = l.length
  done : c.done = l.countP fun x => x.status = .done
  prev : c.prev = l.getLast?
  windowed : Windowed l c

section Steps
variable {l : List Seen} {c : Scan} {s : Seen} {a : ℕ}

theorem shown_concat_of_le (inside : a < l.length) (room : l.length ≤ a + windowAfter) :
    shown (l ++ [s]) a = shown l a ++ [s.item] := by
  unfold shown windowAfter windowBefore at *
  rw [List.take_of_length_le (by simp; omega), List.take_of_length_le (by omega),
    List.drop_append_of_le_length (by omega), List.map_append]
  rfl

theorem shown_concat_of_lt (full : a + windowAfter < l.length) :
    shown (l ++ [s]) a = shown l a := by
  unfold shown
  rw [List.take_append_of_le_length (by omega)]

theorem count_drop_of_le (room : l.length ≤ a + windowAfter) :
    count ((l ++ [s]).drop (a + windowAfter + 1)) = count (l.drop (a + windowAfter + 1)) := by
  rw [List.drop_of_length_le (by simp; omega), List.drop_of_length_le (by omega)]

theorem count_drop_of_lt (full : a + windowAfter < l.length) :
    count ((l ++ [s]).drop (a + windowAfter + 1)) =
      (count (l.drop (a + windowAfter + 1))).add s.status 1 := by
  rw [List.drop_append_of_le_length (by omega), count_concat]

theorem findIdx_concat {p : Seen → Bool} (some_ : l.any p = true) :
    (l ++ [s]).findIdx p = l.findIdx p := by
  have inside : l.findIdx p < l.length := List.findIdx_lt_length.mpr (List.any_eq_true.mp some_)
  rw [List.findIdx_append, if_pos inside]

theorem findIdx_first {p : Seen → Bool} (none_ : l.any p = false) (now : p s = true) :
    (l ++ [s]).findIdx p = l.length := by
  have absent : l.findIdx p = l.length :=
    List.findIdx_eq_length_of_false fun x mem => by
      simpa using List.any_eq_false.mp none_ x mem
  rw [List.findIdx_append, absent, if_neg (Nat.lt_irrefl _)]
  simp [now]

theorem Opened.collect (h : Opened l c a) (here : s.idx = l.length)
    (stays : c.anchorFinal = false → s.status ≠ .active) :
    Opened (l ++ [s]) (c.collect a s) a := by
  have inside := h.inside
  have before : (l ++ [s]).take (a - windowBefore) = l.take (a - windowBefore) :=
    List.take_append_of_le_length (by omega)
  have final : c.anchorFinal = true →
      (l ++ [s]).any isActive = true ∧ (l ++ [s]).findIdx isActive = a := by
    intro final
    obtain ⟨some_, first⟩ := h.final final
    exact ⟨by simp [List.any_append, some_], (findIdx_concat some_).trans first⟩
  have provisional : c.anchorFinal = false → (l ++ [s]).any isActive = false ∧
      (l ++ [s]).any isOpen = true ∧ (l ++ [s]).findIdx isOpen = a := by
    intro waits
    obtain ⟨none_, some_, first⟩ := h.provisional waits
    have idle : isActive s = false := by simpa [isActive] using stays waits
    exact ⟨by simp [List.any_append, none_, idle], by simp [List.any_append, some_],
      (findIdx_concat some_).trans first⟩
  unfold Scan.collect
  split
  · next room =>
    rw [here] at room
    exact ⟨by simp; omega, by rw [shown_concat_of_le inside room, ← h.items]; rfl,
      by rw [before]; exact h.before, by rw [count_drop_of_le room]; exact h.after,
      final, provisional⟩
  · next full =>
    rw [here, Nat.not_le] at full
    exact ⟨by simp; omega, by rw [shown_concat_of_lt full]; exact h.items,
      by rw [before]; exact h.before,
      by rw [count_drop_of_lt full, ← h.after], final, provisional⟩

theorem count_parts (l : List Seen) (a : ℕ) (s : Status) :
    count (l.take (a - windowBefore)) s +
        count ((l.take (a + windowAfter + 1)).drop (a - windowBefore)) s +
      count (l.drop (a + windowAfter + 1)) s = count l s := by
  have front :
      (l.take (a + windowAfter + 1)).take (a - windowBefore) = l.take (a - windowBefore) := by
    rw [List.take_take, Nat.min_eq_left (by omega)]
  rw [← front, ← count_append, List.take_append_drop, ← count_append, List.take_append_drop]

theorem Opened.promote (h : Opened l c a) (waits : c.anchorFinal = false)
    (prev : c.prev = l.getLast?) (here : s.idx = l.length) (active : s.status = .active) :
    Opened (l ++ [s]) (c.promote s) l.length := by
  obtain ⟨none_, -, -⟩ := h.provisional waits
  have busy : isActive s = true := by simp [isActive, active]
  have first := findIdx_first none_ busy
  have some_ : l ≠ [] := List.ne_nil_of_length_pos (Nat.zero_lt_of_lt h.inside)
  obtain ⟨init, p, rfl⟩ := List.eq_nil_or_concat l |>.resolve_left some_
  rw [List.concat_eq_append] at *
  have last : c.prev = some p := by rw [prev, List.getLast?_concat]
  have all : (fun k => c.items.foldl (fun b it => b.add it.status 1) c.before k + c.after k) =
      count (init ++ [p]) := by
    funext k
    rw [h.items, h.before, h.after, shown, foldl_items]
    exact count_parts _ a k
  unfold Scan.promote
  simp only [last, all]
  have window : init.length + 1 - windowBefore = init.length := Nat.add_sub_cancel ..
  refine ⟨by simp, ?_, ?_, ?_, ?_, ?_⟩
  · simp only [shown, List.length_append, List.length_singleton, window]
    rw [List.take_of_length_le (by simp [windowAfter]), List.append_assoc,
      List.drop_left' rfl]
    rfl
  · simp only [List.length_append, List.length_singleton, window]
    rw [count_concat, add_cancel, List.append_assoc, List.take_left' rfl]
  · rw [List.drop_of_length_le (by simp [windowAfter]), count_nil]
  · exact fun _ => ⟨by simp [List.any_append, busy], by simpa [here] using first⟩
  · exact fun final => by cases final

theorem Searching.search (h : Searching l c) (completed : s.status = .done) :
    Searching (l ++ [s]) (c.search s) := by
  have shut : (l ++ [s]).any isOpen = false := by
    simp [List.any_append, h.completed, isOpen, completed]
  unfold Scan.search
  by_cases short : l.length ≤ 1
  · have hold : c.hold = l := by rw [h.hold, Nat.sub_eq_zero_of_le (by omega), List.drop_zero]
    rw [if_neg (by rw [hold, windowBefore]; omega)]
    refine ⟨shut, h.items, ?_, h.after, ?_⟩
    · rw [List.length_append, List.length_singleton, Nat.sub_eq_zero_of_le (by omega)]
      simpa [Nat.sub_eq_zero_of_le (show l.length ≤ 2 by omega)] using h.before
    · rw [List.length_append, List.length_singleton, Nat.sub_eq_zero_of_le (by omega),
        List.drop_zero]
      exact congrArg (· ++ [s]) hold
  · obtain ⟨init, y, rfl⟩ := List.eq_nil_or_concat l |>.resolve_left (by rintro rfl; simp at short)
    rw [List.concat_eq_append] at *
    obtain ⟨init, x, rfl⟩ := List.eq_nil_or_concat init |>.resolve_left
      (by rintro rfl; simp at short)
    rw [List.concat_eq_append] at *
    have two : (init ++ [x] ++ [y]).length - 2 = init.length := by simp
    have hold : c.hold = [x, y] := by
      rw [h.hold, two, List.append_assoc, List.drop_left' rfl]
      rfl
    have before : c.before = count init := by
      rw [h.before, two, List.append_assoc, List.take_left' rfl]
    have next : (init ++ [x] ++ [y] ++ [s]).length - 2 = (init ++ [x]).length := by simp
    rw [if_pos (by rw [hold]; rfl), hold]
    refine ⟨shut, h.items, ?_, h.after, ?_⟩
    · rw [next, List.append_assoc (init ++ [x]), List.take_left' rfl, count_concat, ← before]
    · rw [next, List.append_assoc (init ++ [x]), List.drop_left' rfl]

/-! ### The lookback joins the window -/

theorem Indexed.lt_of_mem_take (indexed : Indexed l) {n : ℕ} (mem : s ∈ l.take n) : s.idx < n := by
  obtain ⟨i, found⟩ := List.getElem?_of_mem mem
  rw [List.getElem?_take] at found
  split at found
  · next inside => exact indexed i s found ▸ inside
  · cases found

theorem Indexed.le_of_mem_drop (indexed : Indexed l) {n : ℕ} (mem : s ∈ l.drop n) : n ≤ s.idx := by
  obtain ⟨i, found⟩ := List.getElem?_of_mem mem
  rw [List.getElem?_drop] at found
  have here := indexed _ s found
  omega

theorem place_before {held : List Seen} {start : ℕ} (early : ∀ x ∈ held, x.idx < start)
    (c : Scan) :
    held.foldl (fun c h =>
      if h.idx < start then { c with before := c.before.add h.status 1 }
      else { c with items := c.items ++ [h.item] }) c =
        { c with before := fun k => c.before k + count held k } := by
  induction held generalizing c with
  | nil => simp [zeroBuckets]
  | cons x rest ih =>
    rw [List.foldl_cons, if_pos (early x List.mem_cons_self),
      ih fun y mem => early y (List.mem_cons_of_mem _ mem)]
    congr 1
    funext k
    have parts : count (x :: rest) k = count [x] k + count rest k := count_append [x] rest k
    change c.before.add x.status 1 k + _ = _
    rw [add_one_apply, parts]
    omega

theorem place_items {held : List Seen} {start : ℕ} (late : ∀ x ∈ held, start ≤ x.idx) (c : Scan) :
    held.foldl (fun c h =>
      if h.idx < start then { c with before := c.before.add h.status 1 }
      else { c with items := c.items ++ [h.item] }) c =
        { c with items := c.items ++ held.map Seen.item } := by
  induction held generalizing c with
  | nil => simp
  | cons x rest ih =>
    rw [List.foldl_cons, if_neg (Nat.not_lt.mpr (late x List.mem_cons_self)),
      ih fun y mem => late y (List.mem_cons_of_mem _ mem)]
    simp

theorem Searching.place (h : Searching l c) (indexed : Indexed l) {start : ℕ}
    (near : l.length - 2 ≤ start) :
    c.place start =
      { c with before := count (l.take start), items := (l.drop start).map Seen.item } := by
  have parts : c.hold = (l.take start).drop (l.length - 2) ++ l.drop start := by
    rw [h.hold, ← List.drop_append_of_le_length (by simp; omega), List.take_append_drop]
  have front : (l.take start).take (l.length - 2) = l.take (l.length - 2) := by
    rw [List.take_take, Nat.min_eq_left near]
  unfold Scan.place
  rw [parts, List.foldl_append, place_before fun x mem =>
      indexed.lt_of_mem_take (List.mem_of_mem_drop mem),
    place_items fun x mem => indexed.le_of_mem_drop mem]
  congr 1
  · funext k
    change c.before k + _ = _
    rw [h.before, ← front, ← count_append, List.take_append_drop]
  · simp [h.items]

theorem Searching.open_ (h : Searching l c) (indexed : Indexed l) (here : s.idx = l.length)
    (open_ : s.status ≠ .done)
    (final : c.anchorFinal = decide (s.status = .active)) :
    Opened (l ++ [s]) ((c.place (s.idx - windowBefore)).show s) l.length := by
  rw [h.place indexed (by rw [here, windowBefore]; omega), here]
  have now : isOpen s = true := by simp [isOpen, open_]
  have take : (l ++ [s]).take (l.length - windowBefore) = l.take (l.length - windowBefore) :=
    List.take_append_of_le_length (Nat.sub_le ..)
  have quiet : l.any isActive = false := by
    refine List.any_eq_false.mpr fun x mem => ?_
    have shut : ¬isOpen x = true := List.any_eq_false.mp h.completed x mem
    simp only [isOpen, decide_eq_true_eq, not_not] at shut
    simp [isActive, shut]
  refine ⟨by simp, ?_, by rw [take]; rfl, ?_, ?_, ?_⟩
  · unfold shown
    have all : (l ++ [s]).take (l.length + windowAfter + 1) = l ++ [s] :=
      List.take_of_length_le (by simp [windowAfter])
    rw [all, List.drop_append_of_le_length (Nat.sub_le ..), List.map_append]
    rfl
  · have none_ : (l ++ [s]).drop (l.length + windowAfter + 1) = [] :=
      List.drop_of_length_le (by simp [windowAfter])
    rw [none_]
    exact h.after
  · intro now_
    have active : isActive s = true := by
      change c.anchorFinal = true at now_
      simpa [isActive, final] using now_
    exact ⟨by simp [List.any_append, active], findIdx_first quiet active⟩
  · intro waits
    have idle : isActive s = false := by
      change c.anchorFinal = false at waits
      simpa [isActive, final] using waits
    exact ⟨by simp [List.any_append, quiet, idle], by simp [List.any_append, now],
      findIdx_first h.completed now⟩

theorem Windowed.congr {d : Scan} (h : Windowed l c) (anchor : d.anchor = c.anchor)
    (items : d.items = c.items) (before : d.before = c.before) (after : d.after = c.after)
    (hold : d.hold = c.hold) (final : d.anchorFinal = c.anchorFinal) : Windowed l d := by
  unfold Windowed at h ⊢
  rw [anchor]
  split
  · next none_ =>
    rw [none_] at h
    exact ⟨h.completed, items.trans h.items, before.trans h.before, after.trans h.after,
      hold.trans h.hold⟩
  · next a some_ =>
    rw [some_] at h
    exact ⟨h.inside, items.trans h.items, before.trans h.before, after.trans h.after,
      fun now => h.final (final.symm.trans now), fun now => h.provisional (final.symm.trans now)⟩

theorem Windowed.move (h : Windowed l c) (indexed : Indexed l) (prev : c.prev = l.getLast?)
    (here : s.idx = l.length) : Windowed (l ++ [s]) (c.move s) := by
  unfold Scan.move
  unfold Windowed at h
  cases anchor : c.anchor with
  | none =>
    rw [anchor] at h
    simp only
    split
    · next ends =>
      have same : (c.search s).anchor = none := by
        unfold Scan.search
        split
        · cases c.hold <;> exact anchor
        · exact anchor
      unfold Windowed
      rw [same]
      exact h.search ends
    · next open_ =>
      have searching : Searching l
          { c with anchor := some s.idx, anchorFinal := decide (s.status = Status.active) } :=
        ⟨h.completed, h.items, h.before, h.after, h.hold⟩
      have opened := searching.open_ indexed here open_ rfl
      rw [searching.place indexed (by rw [here, windowBefore]; omega)] at opened ⊢
      exact here ▸ opened
  | some a =>
    rw [anchor] at h
    have collected (stays : c.anchorFinal = false → s.status ≠ .active) :
        Windowed (l ++ [s]) (c.collect a s) := by
      have same : (c.collect a s).anchor = some a := by
        unfold Scan.collect
        split <;> exact anchor
      unfold Windowed
      rw [same]
      exact h.collect here stays
    simp only
    split
    · next final => exact collected fun waits => by rw [final] at waits; cases waits
    · next waits =>
      rw [Bool.not_eq_true] at waits
      split
      · next active =>
        have same : (c.promote s).anchor = some l.length := by
          unfold Scan.promote
          simp only [← here]
          split <;> rfl
        unfold Windowed
        rw [same]
        exact h.promote waits prev here active
      · next idle => exact collected fun _ => idle

theorem move_frame (c : Scan) (s : Seen) :
    (c.move s).total = c.total ∧ (c.move s).done = c.done := by
  have place (c : Scan) (start : ℕ) :
      (c.place start).total = c.total ∧ (c.place start).done = c.done := by
    unfold Scan.place
    generalize c.hold = held
    induction held generalizing c with
    | nil => exact ⟨rfl, rfl⟩
    | cons x rest ih =>
      rw [List.foldl_cons]
      obtain ⟨total, done⟩ := ih (if x.idx < start then
        { c with before := c.before.add x.status 1 } else { c with items := c.items ++ [x.item] })
      refine ⟨total.trans ?_, done.trans ?_⟩ <;> split <;> rfl
  unfold Scan.move
  split
  · split
    · unfold Scan.search
      split
      · cases c.hold <;> exact ⟨rfl, rfl⟩
      · exact ⟨rfl, rfl⟩
    · exact place _ _
  · unfold Scan.collect Scan.promote
    split
    · split <;> exact ⟨rfl, rfl⟩
    · split
      · simp only
        split <;> exact ⟨rfl, rfl⟩
      · split <;> exact ⟨rfl, rfl⟩

theorem Scanned.step (h : Scanned l c) (indexed : Indexed l) (todo : Value) :
    Scanned (l ++ [⟨l.length, todoStatus todo, todo⟩]) (c.step todo) := by
  obtain ⟨total, done, prev, windowed⟩ := h
  unfold Scan.step
  rw [total]
  generalize is : (⟨l.length, todoStatus todo, todo⟩ : Seen) = s
  have here : s.idx = l.length := by rw [← is]
  obtain ⟨total', done'⟩ := move_frame (c.tally s) s
  refine ⟨total'.trans ?_, done'.trans ?_, List.getLast?_concat.symm, ?_⟩
  · simp [Scan.tally, here]
  · rw [List.countP_append, ← done]
    by_cases ends : s.status = .done <;> simp [Scan.tally, ends]
  · have moved := (windowed.congr rfl rfl rfl rfl rfl rfl : Windowed l (c.tally s)).move indexed
      prev here
    exact moved.congr rfl rfl rfl rfl rfl rfl

theorem scanned_todos (todos : List Value) : Scanned (seen todos) (todos.foldl Scan.step {}) := by
  induction todos using List.reverseRecOn with
  | nil => exact ⟨rfl, rfl, rfl, ⟨rfl, rfl, rfl, rfl, rfl⟩⟩
  | append_singleton todos todo ih =>
    rw [List.foldl_concat, seen_concat, ← length_seen todos]
    exact ih.step (indexed_seen todos) todo

theorem Opened.anchorOf (h : Opened l c a) : anchorOf l = a := by
  unfold PlanExtraction.anchorOf
  cases final : c.anchorFinal with
  | true =>
    obtain ⟨some_, first⟩ := h.final final
    rw [if_pos some_, first]
  | false =>
    obtain ⟨none_, some_, first⟩ := h.provisional final
    rw [if_neg (by simp [none_]), if_pos some_, first]

theorem Searching.anchorOf (h : Searching l c) : anchorOf l = l.length - 1 := by
  have quiet : l.any isActive = false := by
    refine List.any_eq_false.mpr fun x mem => ?_
    have shut : ¬isOpen x = true := List.any_eq_false.mp h.completed x mem
    simp only [isOpen, decide_eq_true_eq, not_not] at shut
    simp [isActive, shut]
  unfold PlanExtraction.anchorOf
  rw [if_neg (by simp [quiet]), if_neg (by simp [h.completed])]

structure Shows (l : List Seen) (c : Scan) : Prop where
  total : c.total = l.length
  done : c.done = l.countP fun x => x.status = .done
  anchor : c.anchor = if l = [] then none else some (PlanExtraction.anchorOf l)
  items : c.items = shown l (PlanExtraction.anchorOf l)
  before : c.before = count (l.take (PlanExtraction.anchorOf l - windowBefore))
  after : c.after = count (l.drop (PlanExtraction.anchorOf l + windowAfter + 1))

theorem Scanned.finish (h : Scanned l c) (indexed : Indexed l) : Shows l c.finish := by
  obtain ⟨total, done, -, windowed⟩ := h
  unfold Windowed at windowed
  cases anchor : c.anchor with
  | some a =>
    rw [anchor] at windowed
    have some_ : l ≠ [] := List.ne_nil_of_length_pos (Nat.zero_lt_of_lt windowed.inside)
    have same : c.finish = c := if_neg (by simp [anchor])
    rw [same]
    have here := windowed.anchorOf
    exact ⟨total, done, by rw [anchor, if_neg some_, here], by rw [here]; exact windowed.items,
      by rw [here]; exact windowed.before, by rw [here]; exact windowed.after⟩
  | none =>
    rw [anchor] at windowed
    have here := windowed.anchorOf
    by_cases empty : l = []
    · subst empty
      have same : c.finish = c := if_neg (by simp [total])
      rw [same]
      exact ⟨total, done, anchor, windowed.items, windowed.before, windowed.after⟩
    · have some_ : 0 < l.length := List.length_pos_of_ne_nil empty
      have moved : c.finish =
          { c with anchor := some (c.total - 1) }.place (c.total - 1 - windowBefore) :=
        if_pos ⟨anchor, by omega⟩
      have searching : Searching l { c with anchor := some (c.total - 1) } :=
        ⟨windowed.completed, windowed.items, windowed.before, windowed.after, windowed.hold⟩
      rw [moved, searching.place indexed (by rw [total, windowBefore]; omega)]
      have all : l.take (l.length - 1 + windowAfter + 1) = l :=
        List.take_of_length_le (by rw [windowAfter]; omega)
      have none_ : l.drop (l.length - 1 + windowAfter + 1) = [] :=
        List.drop_of_length_le (by rw [windowAfter]; omega)
      refine ⟨total, done, ?_, ?_, ?_, ?_⟩
      · rw [if_neg empty, here, ← total]
      · rw [here, shown, all, ← total]
      · rw [here, ← total]
      · rw [here, none_]
        exact windowed.after

theorem anchorOf_lt (some_ : l ≠ []) : anchorOf l < l.length := by
  have long : 0 < l.length := List.length_pos_of_ne_nil some_
  unfold anchorOf
  split
  · next busy => exact List.findIdx_lt_length.mpr (List.any_eq_true.mp busy)
  · split
    · next open_ => exact List.findIdx_lt_length.mpr (List.any_eq_true.mp open_)
    · omega

theorem subjectOf_shown (indexed : Indexed l) (found : l[a]? = some s) :
    subjectOf (shown l a) (some a) = s.item.label.getD [] := by
  have inside : s ∈ (l.take (a + windowAfter + 1)).drop (a - windowBefore) := by
    refine List.mem_of_getElem? (i := min a windowBefore) ?_
    have place : a - windowBefore + min a windowBefore = a := by omega
    rw [List.getElem?_drop, place, List.getElem?_take_of_lt (by omega), found]
  have some_ : ((shown l a).find? fun it => it.ordinal = a + 1).isSome = true := by
    refine List.find?_isSome.mpr ⟨s.item, List.mem_map.mpr ⟨s, inside, rfl⟩, ?_⟩
    simp [Seen.item, todoItem, indexed a s found]
  obtain ⟨it, first⟩ := Option.isSome_iff_exists.mp some_
  have ordinal : it.ordinal = a + 1 := by simpa using List.find?_some first
  obtain ⟨x, mem, rfl⟩ := List.mem_map.mp (List.mem_of_find?_eq_some first)
  obtain ⟨i, there⟩ := List.getElem?_of_mem (List.mem_of_mem_take (List.mem_of_mem_drop mem))
  have same : i = a := by
    have place := indexed i x there
    simp only [Seen.item, todoItem] at ordinal
    omega
  subst same
  rw [found, Option.some.injEq] at there
  subst there
  rw [subjectOf, first]

end Steps

/-! ### The result -/

theorem seen_getElem? (todos : List Value) (i : ℕ) :
    (seen todos)[i]? = todos[i]?.map fun todo => ⟨i, todoStatus todo, todo⟩ := by
  simp [seen]

theorem count_seen (todos : List Value) (s : Status) :
    count (seen todos) s = (todos.countP fun todo => todoStatus todo = s : ℕ) := by
  induction todos using List.reverseRecOn with
  | nil => rfl
  | append_singleton todos todo ih =>
    rw [seen_concat, count_append, ih, List.countP_append]
    simp [count, List.countP_cons]

theorem extractTodoPlan_eq (todos : List Value) : extractTodoPlan todos = planOf todos := by
  have shows := (scanned_todos todos).finish (indexed_seen todos)
  unfold extractTodoPlan planOf
  simp only [shows.total, shows.done, shows.items, shows.before, shows.after, length_seen,
    Plan.mk.injEq, true_and, and_true]
  rw [shows.anchor]
  by_cases empty : todos = []
  · subst empty
    rfl
  · have some_ : seen todos ≠ [] := fun none_ => empty (by
      have long := length_seen todos
      rw [none_] at long
      exact List.length_eq_zero_iff.mp long.symm)
    have inside := anchorOf_lt some_
    rw [length_seen] at inside
    have found : (seen todos)[anchorOf (seen todos)]? =
        some ⟨anchorOf (seen todos), todoStatus todos[anchorOf (seen todos)],
          todos[anchorOf (seen todos)]⟩ := by
      rw [seen_getElem?, List.getElem?_eq_getElem inside]
      rfl
    rw [if_neg some_, subjectOf_shown (indexed_seen todos) found, List.getElem?_eq_getElem inside]
    rfl

theorem planOf_parts (todos : List Value) (s : Status) :
    (planOf todos).hiddenBefore s + ((planOf todos).items.countP fun it => it.status = s : ℕ) +
      (planOf todos).hiddenAfter s = count (seen todos) s := by
  rw [← count_parts (seen todos) (anchorOf (seen todos)) s]
  simp only [planOf, shown, List.countP_map, count]
  rfl

end Casa.PlanExtraction
