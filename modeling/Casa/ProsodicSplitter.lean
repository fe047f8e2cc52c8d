import Casa.MarkdownBlocks

/-! The delta-fed splitter of spoken text (`channels/voice/prosodic.py`): sentences, paragraphs and
the safety caps cut the buffer, and the white space around a cut goes to the block behind it. -/

namespace Casa.ProsodicSplitter
open MarkdownBlocks (Text isSpace strip)

def lstrip (s : Text) : Text := s.dropWhile isSpace

def rstrip (s : Text) : Text := s.rdropWhile isSpace

def newline : ℕ := '\n'.toNat
def sentenceMarks : Text := ['.', '!', '?', '…'].map Char.toNat
def clauseMarks : Text := [',', ';', '—'].map Char.toNat

/-- `_OPEN`. -/
def closers : List (ℕ × ℕ) :=
  [('[', ']'), ('(', ')'), ('{', '}'), ('<', '>')].map fun b => (b.1.toNat, b.2.toNat)

def charCap : ℕ := 200

structure Block where
  sep : Text
  text : Text
deriving DecidableEq, Repr

/-- `reads` counts the readings of the clock so far. -/
structure Splitter (T : Type) where
  buf : Text
  pendingSep : Text
  lastFlush : T
  reads : ℕ

/-! ### Where a block ends -/

/-- `_match_close` behind an opening bracket, as an offset; brackets of one kind nest. -/
def matchClose (opener closer : ℕ) : ℕ → Text → Option ℕ
  | _, [] => none
  | depth, c :: rest =>
      if c = opener then (matchClose opener closer (depth + 1) rest).map (· + 1)
      else if c = closer then
        if depth = 1 then some 0 else (matchClose opener closer (depth - 1) rest).map (· + 1)
      else (matchClose opener closer depth rest).map (· + 1)

/-- `_find_cut` from the index `i` on, of which the rest of the text is given. -/
def findCutFrom (i : ℕ) : Text → Option ℕ
  | [] => none
  | ch :: rest =>
      match closers.lookup ch with
      | some closer =>
          match matchClose ch closer 1 rest with
          | none => none
          | some offset => findCutFrom (i + offset + 2) (rest.drop (offset + 1))
      | none =>
          if ch = newline ∧ rest.head? = some newline then some i
          else if ch ∈ sentenceMarks then some (i + 1)
          else findCutFrom (i + 1) rest
termination_by s => s.length
decreasing_by
  · simp only [List.length_drop, List.length_cons]
    omega
  · simp

def findCut (s : Text) : Option ℕ := findCutFrom 0 s

/-- `_rightmost_clause_mark` with the brackets that are open and the mark found so far. -/
def clauseMarkFrom (stack : List ℕ) (last : Option ℕ) (i : ℕ) : Text → Option ℕ
  | [] => last
  | c :: rest =>
      match closers.lookup c with
      | some closer => clauseMarkFrom (closer :: stack) last (i + 1) rest
      | none =>
          if stack.head? = some c then clauseMarkFrom stack.tail last (i + 1) rest
          else if stack = [] ∧ c ∈ clauseMarks then clauseMarkFrom stack (some (i + 1)) (i + 1) rest
          else clauseMarkFrom stack last (i + 1) rest

def rightmostClauseMark (s : Text) : Option ℕ := clauseMarkFrom [] none 0 s

/-! ### The splitter -/

/-- The slice that one pass of the loop takes off the buffer, and what stays. A break at the head
of the buffer takes all its white space along. -/
def slice (cut : ℕ) (buf : Text) : Text × Text :=
  let raw := buf.take cut
  let rest := buf.drop cut
  if strip raw = [] then
    let ws := rest.length - (lstrip rest).length
    (raw ++ rest.take ws, rest.drop ws)
  else (raw, rest)

namespace Splitter
variable {T : Type} (clock : ℕ → T) (s : Splitter T)

def new : Splitter T := ⟨[], [], clock 0, 1⟩

/-- `self._last_flush = time.monotonic()`. -/
def flushed : Splitter T := { s with lastFlush := clock s.reads, reads := s.reads + 1 }

/-- `_attribute`; the white space on either side of a slice goes to a separator. -/
def attribute_ (raw : Text) : Option Block × Splitter T :=
  let body := s.pendingSep ++ raw
  let core := rstrip body
  let text := lstrip core
  if text = [] then (none, { s with pendingSep := body })
  else (some ⟨core.take (core.length - text.length), text⟩,
    { s with pendingSep := body.drop core.length })

/-- One pass of the loop of `_drain`. -/
def drainStep : Option (Option Block × Splitter T) :=
  (findCut s.buf).map fun cut =>
    let (raw, rest) := slice cut s.buf
    let (block, s) := { s with buf := rest }.attribute_ raw
    (block, s.flushed clock)

def safetyCap [Sub T] [LE T] [DecidableLE T] (timeCap : T) : Option Block × Splitter T :=
  let now := clock s.reads
  let s := { s with reads := s.reads + 1 }
  let tooLong := decide (charCap ≤ s.buf.length)
  let tooSlow := decide (timeCap ≤ now - s.lastFlush) && s.buf ≠ []
  if tooLong || tooSlow then
    let window := if tooLong then s.buf.take charCap else s.buf
    let cut := (rightmostClauseMark window).getD window.length
    { s with buf := s.buf.drop cut, lastFlush := now }.attribute_ (s.buf.take cut)
  else (none, s)

def appendDelta (delta : Text) : Splitter T :=
  let s := if delta ≠ [] ∧ s.buf = [] then s.flushed clock else s
  { s with buf := s.buf ++ delta }

/-- `flush_tail`, at the end of the stream. -/
def flushTail : Option Block × Splitter T :=
  let body := s.pendingSep ++ s.buf
  let text := strip body
  let s := { s with buf := [], pendingSep := [] }
  if text = [] then (none, s)
  else (some ⟨body.take (body.length - (lstrip body).length), text⟩, s.flushed clock)

end Splitter

/-! ### White space at the ends of a text -/

theorem rstrip_of_spaces {t : Text} (h : ∀ c ∈ t, isSpace c = true) (s : Text) :
    rstrip (s ++ t) = rstrip s := by
  have back : ∀ c ∈ t.reverse, isSpace c = true := fun c inside => h c (List.mem_reverse.mp inside)
  simp only [rstrip, List.rdropWhile, List.reverse_append, List.dropWhile_append_of_pos back]

theorem take_leading (s : Text) :
    s.take (s.length - (lstrip s).length) = s.takeWhile isSpace := by
  have parts := List.takeWhile_append_dropWhile (p := isSpace) (l := s)
  have sizes := congrArg List.length parts
  rw [List.length_append] at sizes
  conv => lhs; rw [← parts]
  rw [List.take_left' (by rw [lstrip, parts]; omega)]

theorem drop_leading (s : Text) : s.drop (s.length - (lstrip s).length) = lstrip s := by
  have parts := List.takeWhile_append_dropWhile (p := isSpace) (l := s)
  have sizes := congrArg List.length parts
  rw [List.length_append] at sizes
  conv => lhs; rw [← parts]
  rw [List.drop_left' (by rw [lstrip, parts]; omega), lstrip]

theorem drop_rstrip (s : Text) : s.drop (rstrip s).length = s.rtakeWhile isSpace := by
  have parts : rstrip s ++ s.rtakeWhile isSpace = s := List.rdropWhile_append_rtakeWhile
  calc s.drop (rstrip s).length
      = (rstrip s ++ s.rtakeWhile isSpace).drop (rstrip s).length := by rw [parts]
    _ = s.rtakeWhile isSpace := List.drop_left

theorem spaces_of_strip {s : Text} (h : strip s = []) : ∀ c ∈ s, isSpace c = true := by
  intro c inside
  rw [← List.takeWhile_append_dropWhile (p := isSpace) (l := s), List.mem_append] at inside
  rcases inside with front | back
  · exact List.mem_takeWhile_imp front
  · exact List.rdropWhile_eq_nil_iff.mp h c back

theorem rstrip_append_word {word : Text} (some_ : word ≠ []) (trimmed : rstrip word = word)
    (s : Text) : rstrip (s ++ word) = s ++ word := by
  rw [rstrip, List.rdropWhile_eq_self_iff] at *
  intro nonempty
  rw [List.getLast_append_of_ne_nil _ some_]
  exact trimmed some_

theorem rstrip_append {t : Text} (speaks : rstrip t ≠ []) (s : Text) :
    rstrip (s ++ t) = s ++ rstrip t := by
  have parts : rstrip t ++ t.rtakeWhile isSpace = t := List.rdropWhile_append_rtakeWhile
  conv => lhs; rw [← parts, ← List.append_assoc]
  rw [rstrip_of_spaces fun _ => List.mem_rtakeWhile_imp]
  exact rstrip_append_word speaks (List.rdropWhile_idempotent ..) s

theorem rstrip_suffix {s t : Text} (trimmed : rstrip (s ++ t) = s ++ t) : rstrip t = t := by
  rw [rstrip, List.rdropWhile_eq_self_iff] at *
  intro nonempty
  have whole : s ++ t ≠ [] := List.append_ne_nil_of_right_ne_nil s nonempty
  rw [← List.getLast_append_of_ne_nil whole nonempty]
  exact trimmed whole

theorem lstrip_prefix {s t : Text} (part : s <+: t) (trimmed : lstrip t = t) : lstrip s = s := by
  cases s with
  | nil => rfl
  | cons c rest =>
    obtain ⟨more, rfl⟩ := part
    rw [lstrip, List.dropWhile_eq_self_iff] at *
    exact fun _ => trimmed (Nat.succ_pos _)

/-! ### Blocks -/

def joined (blocks : List Block) : Text := blocks.flatMap fun b => b.sep ++ b.text

@[simp] theorem joined_append (a b : List Block) : joined (a ++ b) = joined a ++ joined b := by
  simp [joined]

@[simp] theorem joined_singleton (b : Block) : joined [b] = b.sep ++ b.text := by
  simp [joined]

/-- A block speaks, and all white space around it is in separators. -/
structure Block.Proper (b : Block) : Prop where
  speaks : b.text ≠ []
  head : lstrip b.text = b.text
  last : rstrip b.text = b.text
  sep : ∀ c ∈ b.sep, isSpace c = true

theorem rstrip_joined {blocks : List Block} (proper : ∀ b ∈ blocks, b.Proper) :
    rstrip (joined blocks) = joined blocks := by
  cases blocks using List.reverseRecOn with
  | nil => rfl
  | append_singleton init b =>
    have last := proper b (by simp)
    rw [joined_append, joined_singleton, ← List.append_assoc]
    exact rstrip_append_word last.speaks last.last _

theorem core_proper {core : Text} (trimmed : rstrip core = core) (speaks : lstrip core ≠ []) :
    Block.Proper ⟨core.take (core.length - (lstrip core).length), lstrip core⟩ := by
  have parts : core.takeWhile isSpace ++ lstrip core = core := List.takeWhile_append_dropWhile
  refine ⟨speaks, List.dropWhile_idempotent .., ?_, ?_⟩
  · exact rstrip_suffix (parts.symm ▸ trimmed)
  · intro c inside
    rw [take_leading] at inside
    exact List.mem_takeWhile_imp inside

theorem strip_proper {body : Text} (speaks : strip body ≠ []) :
    Block.Proper ⟨body.takeWhile isSpace, strip body⟩ := by
  refine ⟨speaks, ?_, List.rdropWhile_idempotent .., fun c => List.mem_takeWhile_imp⟩
  exact lstrip_prefix (List.rdropWhile_prefix _ _) (List.dropWhile_idempotent ..)

theorem core_joined (core : Text) :
    core.take (core.length - (lstrip core).length) ++ lstrip core = core := by
  rw [take_leading]
  exact List.takeWhile_append_dropWhile

/-! ### Progress of the loop -/

theorem findCutFrom_spec {i : ℕ} {s : Text} {cut : ℕ} (found : findCutFrom i s = some cut) :
    i ≤ cut ∧ (cut = i → s.head? = some newline) := by
  fun_induction findCutFrom i s with
  | case1 => cases found
  | case2 => cases found
  | case3 i ch rest closer known offset matched ih =>
    have later := ih found
    omega
  | case4 i ch rest plain break_ =>
    cases found
    exact ⟨le_rfl, fun _ => by rw [List.head?_cons, break_.1]⟩
  | case5 i ch rest plain other mark =>
    cases found
    omega
  | case6 i ch rest plain other unmarked ih =>
    have later := ih found
    omega

theorem slice_blank {cut : ℕ} {buf : Text} (blank : strip (buf.take cut) = []) :
    slice cut buf =
      (buf.take cut ++ (buf.drop cut).takeWhile isSpace, lstrip (buf.drop cut)) := by
  simp only [slice, if_pos blank, take_leading, drop_leading]

theorem slice_word {cut : ℕ} {buf : Text} (speaks : strip (buf.take cut) ≠ []) :
    slice cut buf = (buf.take cut, buf.drop cut) := by
  simp only [slice, if_neg speaks]

theorem slice_joined (cut : ℕ) (buf : Text) : (slice cut buf).1 ++ (slice cut buf).2 = buf := by
  by_cases blank : strip (buf.take cut) = []
  · rw [slice_blank blank, List.append_assoc, lstrip, List.takeWhile_append_dropWhile,
      List.take_append_drop]
  · rw [slice_word blank, List.take_append_drop]

theorem slice_le (cut : ℕ) (buf : Text) : (slice cut buf).2.length ≤ (buf.drop cut).length := by
  by_cases blank : strip (buf.take cut) = []
  · rw [slice_blank blank]
    exact (List.dropWhile_sublist _).length_le
  · rw [slice_word blank]

theorem slice_shorter {buf : Text} {cut : ℕ} (found : findCut buf = some cut) :
    (slice cut buf).2.length < buf.length := by
  obtain ⟨-, head⟩ := findCutFrom_spec found
  cases buf with
  | nil => simp [findCut, findCutFrom] at found
  | cons c rest =>
    cases cut with
    | zero =>
      have space : c = newline := by simpa using head rfl
      subst space
      rw [slice_blank rfl, List.drop_zero, List.length_cons]
      have shorter : lstrip (newline :: rest) = lstrip rest := rfl
      rw [shorter]
      exact Nat.lt_succ_of_le (List.dropWhile_sublist _).length_le
    | succ k =>
      have tail := slice_le (k + 1) (c :: rest)
      rw [List.drop_succ_cons, List.length_drop] at tail
      rw [List.length_cons]
      omega

namespace Splitter
variable {T : Type} (clock : ℕ → T) {s t : Splitter T}

@[simp] theorem flushed_buf (s : Splitter T) : (s.flushed clock).buf = s.buf := rfl
@[simp] theorem flushed_pendingSep (s : Splitter T) :
    (s.flushed clock).pendingSep = s.pendingSep := rfl

theorem attribute_blank {raw : Text} (blank : lstrip (rstrip (s.pendingSep ++ raw)) = []) :
    s.attribute_ raw = (none, { s with pendingSep := s.pendingSep ++ raw }) := by
  simp only [attribute_, if_pos blank]

theorem attribute_word {raw core : Text} (is_core : rstrip (s.pendingSep ++ raw) = core)
    (speaks : lstrip core ≠ []) :
    s.attribute_ raw = (some ⟨core.take (core.length - (lstrip core).length), lstrip core⟩,
      { s with pendingSep := (s.pendingSep ++ raw).rtakeWhile isSpace }) := by
  subst is_core
  simp only [attribute_, if_neg speaks, drop_rstrip]

/-- A slice goes to a block and the separator behind it, and nothing is lost. -/
structure Attributed (s : Splitter T) (raw : Text) (made : Option Block × Splitter T) : Prop where
  kept : joined made.1.toList ++ made.2.pendingSep = s.pendingSep ++ raw
  buf : made.2.buf = s.buf
  proper : ∀ b ∈ made.1.toList, b.Proper

theorem attribute_spec (s : Splitter T) (raw : Text) : s.Attributed raw (s.attribute_ raw) := by
  by_cases blank : lstrip (rstrip (s.pendingSep ++ raw)) = []
  · rw [attribute_blank blank]
    exact ⟨rfl, rfl, by simp⟩
  · rw [attribute_word rfl blank]
    have trimmed : rstrip (rstrip (s.pendingSep ++ raw)) = rstrip (s.pendingSep ++ raw) :=
      List.rdropWhile_idempotent ..
    refine ⟨?_, rfl, by simpa using core_proper trimmed blank⟩
    change joined [_] ++ _ = _
    rw [joined_singleton, core_joined]
    exact List.rdropWhile_append_rtakeWhile

theorem drainStep_cases {block : Option Block} (pass : s.drainStep clock = some (block, t)) :
    ∃ (cut : ℕ) (u : Splitter T) (made : Option Block × Splitter T), findCut s.buf = some cut ∧
      u.pendingSep = s.pendingSep ∧ u.buf = (slice cut s.buf).2 ∧
      u.Attributed (slice cut s.buf).1 made ∧ block = made.1 ∧ t = made.2.flushed clock := by
  obtain ⟨cut, found, same⟩ := Option.map_eq_some_iff.mp pass
  cases same
  exact ⟨cut, { s with buf := (slice cut s.buf).2 }, _, found, rfl, rfl, attribute_spec _ _, rfl,
    rfl⟩

theorem drainStep_shorter {block : Option Block} (pass : s.drainStep clock = some (block, t)) :
    t.buf.length < s.buf.length := by
  obtain ⟨cut, u, made, found, -, left, spec, -, rfl⟩ := drainStep_cases clock pass
  rw [flushed_buf, spec.buf, left]
  exact slice_shorter found

/-- The loop of `_drain`. -/
def drainLoop (s : Splitter T) : List Block × Splitter T :=
  match _pass : s.drainStep clock with
  | none => ([], s)
  | some (block, t) =>
      let (blocks, u) := drainLoop t
      (block.toList ++ blocks, u)
termination_by s.buf.length
decreasing_by exact drainStep_shorter clock _pass

variable [Sub T] [LE T] [DecidableLE T] (timeCap : T)

def feed (s : Splitter T) (delta : Text) : List Block × Splitter T :=
  let (blocks, t) := (s.appendDelta clock delta).drainLoop clock
  let (capped, u) := t.safetyCap clock timeCap
  (blocks ++ capped.toList, u)

def feeds (s : Splitter T) : List Text → List Block × Splitter T
  | [] => ([], s)
  | delta :: deltas =>
      let (blocks, t) := s.feed clock timeCap delta
      let (more, u) := feeds t deltas
      (blocks ++ more, u)

/-! ### What a moment holds -/

/-- What has been fed and emitted at a moment of the stream, also between the passes of a feed. -/
inductive Moment : Text → List Block → Splitter T → Prop
  | new : Moment [] [] (new clock)
  | delta {fed : Text} {out : List Block} {s : Splitter T} (delta : Text) (h : Moment fed out s) :
      Moment (fed ++ delta) out (s.appendDelta clock delta)
  | pass {fed : Text} {out : List Block} {s t : Splitter T} {block : Option Block}
      (h : Moment fed out s) (pass : s.drainStep clock = some (block, t)) :
      Moment fed (out ++ block.toList) t
  | cap {fed : Text} {out : List Block} {s : Splitter T} (h : Moment fed out s) :
      Moment fed (out ++ (s.safetyCap clock timeCap).1.toList) (s.safetyCap clock timeCap).2

/-- The blocks, the pending separator and the buffer are what was fed. -/
structure Kept (fed : Text) (out : List Block) (s : Splitter T) : Prop where
  text : joined out ++ (s.pendingSep ++ s.buf) = fed
  proper : ∀ b ∈ out, b.Proper

variable {fed : Text} {out : List Block}

omit [Sub T] [LE T] [DecidableLE T] in
theorem Kept.attributed {raw rest : Text} {u : Splitter T} {made : Option Block × Splitter T}
    (h : Kept fed out s) (cut : raw ++ rest = s.buf) (pending : u.pendingSep = s.pendingSep)
    (left : u.buf = rest) (spec : u.Attributed raw made) :
    Kept fed (out ++ made.1.toList) made.2 := by
  constructor
  · calc joined (out ++ made.1.toList) ++ (made.2.pendingSep ++ made.2.buf)
        = joined out ++ (joined made.1.toList ++ made.2.pendingSep ++ made.2.buf) := by
          simp only [joined_append, List.append_assoc]
      _ = joined out ++ (s.pendingSep ++ raw ++ rest) := by
          rw [spec.kept, spec.buf, pending, left]
      _ = fed := by rw [List.append_assoc, cut, h.text]
  · intro b inside
    rcases List.mem_append.mp inside with old | new
    · exact h.proper b old
    · exact spec.proper b new

theorem safetyCap_cases (s : Splitter T) :
    (∃ reads, s.safetyCap clock timeCap = (none, { s with reads := reads })) ∨
      ∃ (cut : ℕ) (u : Splitter T), u.pendingSep = s.pendingSep ∧ u.buf = s.buf.drop cut ∧
        u.Attributed (s.buf.take cut) (s.safetyCap clock timeCap) := by
  unfold safetyCap
  simp only
  split
  · exact .inr ⟨_, { s with buf := s.buf.drop _, lastFlush := _, reads := _ }, rfl, rfl,
      attribute_spec _ _⟩
  · exact .inl ⟨_, rfl⟩

section
variable (h : Moment clock timeCap fed out s)
include h

theorem Moment.kept : Kept fed out s := by
  induction h with
  | new => exact ⟨rfl, by simp⟩
  | delta delta _ ih =>
    refine ⟨?_, ih.proper⟩
    rw [← ih.text, appendDelta]
    split <;> simp
  | @pass _ _ s _ _ _ pass ih =>
    obtain ⟨cut, u, made, -, pending, left, spec, rfl, rfl⟩ := drainStep_cases clock pass
    have kept := ih.attributed (slice_joined cut s.buf) pending left spec
    exact ⟨kept.text, kept.proper⟩
  | cap _ ih =>
    rcases safetyCap_cases clock timeCap _ with ⟨reads, same⟩ | ⟨cut, u, pending, left, spec⟩
    · rw [same]
      exact ⟨by simpa using ih.text, by simpa using ih.proper⟩
    · exact ih.attributed (List.take_append_drop cut _) pending left spec

theorem Moment.drained :
    Moment clock timeCap fed (out ++ (s.drainLoop clock).1) (s.drainLoop clock).2 := by
  fun_induction drainLoop clock s generalizing out with
  | case1 s done => simpa using h
  | case2 s block t pass blocks u looped ih =>
    have later := ih (h.pass pass)
    rw [looped, List.append_assoc] at later
    exact later

theorem Moment.feed (delta : Text) :
    Moment clock timeCap (fed ++ delta) (out ++ (s.feed clock timeCap delta).1)
      (s.feed clock timeCap delta).2 := by
  have capped := (h.delta delta).drained.cap
  rw [List.append_assoc] at capped
  exact capped

theorem Moment.feeds (deltas : List Text) :
    Moment clock timeCap (fed ++ deltas.flatten) (out ++ (s.feeds clock timeCap deltas).1)
      (s.feeds clock timeCap deltas).2 := by
  induction deltas generalizing fed out s with
  | nil => simpa [Splitter.feeds] using h
  | cons delta deltas ih =>
    have later := ih (h.feed clock timeCap delta)
    rw [List.append_assoc, List.append_assoc] at later
    exact later

end

omit [Sub T] [LE T] [DecidableLE T] in
theorem Kept.flushed (h : Kept fed out s) :
    joined (out ++ (s.flushTail clock).1.toList) = rstrip fed ∧
      ∀ b ∈ out ++ (s.flushTail clock).1.toList, b.Proper := by
  rw [← h.text]
  generalize is_body : s.pendingSep ++ s.buf = body
  by_cases blank : strip body = []
  · have made : (s.flushTail clock).1 = none := by simp only [flushTail, is_body, if_pos blank]
    rw [made, rstrip_of_spaces (spaces_of_strip blank), Option.toList_none, List.append_nil,
      rstrip_joined h.proper]
    exact ⟨rfl, h.proper⟩
  · have made : (s.flushTail clock).1 = some ⟨body.takeWhile isSpace, strip body⟩ := by
      simp only [flushTail, is_body, if_neg blank, take_leading]
    rw [made, Option.toList_some, joined_append, joined_singleton]
    have whole : body = body.takeWhile isSpace ++ lstrip body :=
      List.takeWhile_append_dropWhile.symm
    constructor
    · conv => rhs; rw [whole, ← List.append_assoc]
      have ends : rstrip (joined out ++ body.takeWhile isSpace ++ lstrip body) =
          joined out ++ body.takeWhile isSpace ++ strip body := rstrip_append blank _
      rw [ends, List.append_assoc]
    · intro b inside
      rcases List.mem_append.mp inside with old | new
      · exact h.proper b old
      · rw [List.mem_singleton.mp new]
        exact strip_proper blank

/-- Whatever the deltas and the clock: the blocks say the stream, and nothing is lost on the way. -/
theorem splitter_lossless (deltas : List Text) :
    let (blocks, s) := (new clock).feeds clock timeCap deltas
    let all := blocks ++ (s.flushTail clock).1.toList
    joined all = rstrip deltas.flatten ∧
      (∀ b ∈ all, b.Proper) ∧
      Moment clock timeCap deltas.flatten blocks s ∧
      (∀ fed out (t : Splitter T), Moment clock timeCap fed out t →
        joined out ++ (t.pendingSep ++ t.buf) = fed) ∧
      ∀ (t u : Splitter T) block, t.drainStep clock = some (block, u) →
        u.buf.length < t.buf.length := by
  have start : Moment clock timeCap [] [] (new clock) := .new
  have reached := start.feeds clock timeCap deltas
  have said := reached.kept.flushed clock
  exact ⟨said.1, said.2, reached, fun _ _ _ moment => moment.kept.text,
    fun _ _ _ pass => drainStep_shorter clock pass⟩

end Splitter

end Casa.ProsodicSplitter
