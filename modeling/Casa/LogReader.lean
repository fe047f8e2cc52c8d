import Casa.LogSegments

/-! What the reader yields. The end of a segment and the scan for its successor are two looks at a
moving log, and the successor is opened by its path: a line appended in between is passed over with
the rest of its segment. Where every open leads to the place in the log behind the last line
yielded, the lines yielded are the next ones. -/

namespace Casa.LogReader
open StepRuns LineStream LogSegments

def lands : Label → World → Bool
  | .advance, w =>
    match w.reader with
    | .opening path offset =>
      (w.log.segIdent path).all fun seg =>
        w.last.all fun c => decide (w.log.position ⟨seg, offset⟩ = w.log.position c)
    | _ => true
  | _, _ => true

section Logs
variable {l : Log} {c : Coord}

theorem content_eq (valid : l.Valid c) :
    l.segments = l.segments.take c.segment ++ l.content c.segment ::
      l.segments.drop (c.segment + 1) := by
  have inside := valid.1
  have here : l.content c.segment = l.segments[c.segment] := by
    rw [Log.content, List.getElem?_eq_getElem inside, Option.getD_some]
  rw [here, List.getElem_cons_drop, List.take_append_drop]

theorem drop_position (valid : l.Valid c) :
    l.stream.drop (l.position c) = (l.content c.segment).drop c.offset ++
      (l.segments.drop (c.segment + 1)).flatten := by
  have split : l.stream = (l.segments.take c.segment).flatten ++
      (l.content c.segment ++ (l.segments.drop (c.segment + 1)).flatten) := by
    rw [Log.stream]
    conv_lhs => rw [content_eq valid]
    rw [List.flatten_append, List.flatten_cons]
  rw [split, Log.position, List.drop_length_add_append, List.drop_append_of_le_length valid.2]

theorem position_le (valid : l.Valid c) : l.position c ≤ l.stream.length := by
  have split : l.stream.length = (l.segments.take c.segment).flatten.length +
      ((l.content c.segment).length + (l.segments.drop (c.segment + 1)).flatten.length) := by
    rw [Log.stream]
    conv_lhs => rw [content_eq valid]
    simp only [List.flatten_append, List.flatten_cons, List.length_append]
  have within := valid.2
  rw [Log.position]
  omega

structure Grown (l l' : Log) : Prop where
  stream : ∃ bytes, l'.stream = l.stream ++ bytes
  valid : ∀ c, l.Valid c → l'.Valid c
  position : ∀ c, l.Valid c → l'.position c = l.position c
  archives : l.archives <+: l'.archives

theorem grown_of_segments {l' : Log} (same : l'.segments = l.segments)
    (archives : l.archives <+: l'.archives) : Grown l l' := by
  refine ⟨⟨[], by rw [Log.stream, Log.stream, same, List.append_nil]⟩, fun c valid => ?_,
    fun c _ => by rw [Log.position, Log.position, same], archives⟩
  rw [Log.Valid, Log.content, same]
  exact valid

theorem grown_append (bytes : Bytes) : Grown l (l.append bytes) := by
  obtain ⟨archives, current⟩ := l
  cases current with
  | none => exact grown_of_segments rfl List.prefix_rfl
  | some cur =>
    have before : (Log.mk archives (some cur)).segments = archives ++ [cur] := rfl
    have after : ((Log.mk archives (some cur)).append bytes).segments =
        archives ++ [cur ++ bytes] := rfl
    have bound (c : Coord) (valid : (Log.mk archives (some cur)).Valid c) :
        c.segment ≤ archives.length := by
      have inside := valid.1
      rw [before, List.length_append, List.length_singleton] at inside
      omega
    refine ⟨⟨bytes, ?_⟩, fun c valid => ?_, fun c valid => ?_, List.prefix_rfl⟩
    · simp only [Log.stream, before, after, List.flatten_append, List.flatten_cons,
        List.flatten_nil, List.append_nil, List.append_assoc]
    · refine ⟨?_, Nat.le_trans valid.2 ?_⟩
      · rw [after, List.length_append, List.length_singleton]
        exact Nat.lt_succ_of_le (bound c valid)
      · rw [Log.content, Log.content, before, after]
        rcases Nat.lt_or_eq_of_le (bound c valid) with earlier | last
        · rw [List.getElem?_append_left earlier, List.getElem?_append_left earlier]
        · rw [last, List.getElem?_concat_length, List.getElem?_concat_length, Option.getD_some,
            Option.getD_some, List.length_append]
          exact Nat.le_add_right _ _
    · rw [Log.position, Log.position, before, after,
        List.take_append_of_le_length (bound c valid),
        List.take_append_of_le_length (bound c valid)]

theorem grown_rename : Grown l l.rename := by
  obtain ⟨archives, current⟩ := l
  cases current with
  | none => exact grown_of_segments rfl List.prefix_rfl
  | some cur =>
    refine grown_of_segments ?_ (List.prefix_append _ _)
    exact List.append_nil _

theorem grown_create : Grown l l.create := by
  obtain ⟨archives, current⟩ := l
  cases current with
  | some cur => exact grown_of_segments rfl List.prefix_rfl
  | none =>
    have before : (Log.mk archives none).segments = archives := List.append_nil _
    have after : (Log.mk archives none).create.segments = archives ++ [[]] := rfl
    refine ⟨⟨[], ?_⟩, fun c valid => ?_, fun c valid => ?_, List.prefix_rfl⟩
    · simp only [Log.stream, before, after, List.flatten_append, List.flatten_cons,
        List.flatten_nil, List.append_nil]
    · obtain ⟨inside, within⟩ := valid
      rw [Log.content, before] at within
      rw [before] at inside
      refine ⟨?_, ?_⟩
      · rw [after, List.length_append]
        exact Nat.lt_of_lt_of_le inside (Nat.le_add_right _ _)
      · rw [Log.content, after, List.getElem?_append_left inside]
        exact within
    · have inside := valid.1
      rw [before] at inside
      rw [Log.position, Log.position, before, after,
        List.take_append_of_le_length (Nat.le_of_lt inside)]

theorem length_segments (l : Log) : l.segments.length = l.archives.length + l.current.toList.length :=
  List.length_append

theorem archive_content {i : ℕ} (inside : i < l.archives.length) :
    l.content i ∈ l.archives := by
  rw [Log.content, Log.segments, List.getElem?_append_left inside,
    List.getElem?_eq_getElem inside, Option.getD_some]
  exact List.getElem_mem inside

theorem valid_read {line : Bytes} (valid : l.Valid c)
    (found : nextLine newline ((l.content c.segment).drop c.offset) = some line) :
    l.Valid ⟨c.segment, c.offset + line.length⟩ ∧
      l.stream.drop (l.position c) =
        line ++ l.stream.drop (l.position ⟨c.segment, c.offset + line.length⟩) := by
  obtain ⟨-, rest, split⟩ := nextLine_eq_some found
  have within : c.offset + line.length ≤ (l.content c.segment).length := by
    have length := congrArg List.length split
    rw [List.length_drop, List.length_append] at length
    have ok := valid.2
    omega
  have after : l.Valid ⟨c.segment, c.offset + line.length⟩ := ⟨valid.1, within⟩
  refine ⟨after, ?_⟩
  rw [drop_position valid, drop_position after]
  simp only
  rw [← List.append_assoc]
  congr 1
  rw [← List.drop_drop, split, List.drop_left]

end Logs

section Entries

theorem mem_orderedSegments {archives : ℕ} {current : Option ℕ} {path : Path} {seg : ℕ}
    (mem : (path, seg) ∈ orderedSegments archives current) :
    path = .archive seg ∧ seg < archives ∨ path = .current ∧ current = some seg := by
  simp only [orderedSegments, List.mem_append, List.mem_map, List.mem_range, Option.mem_toList,
    Prod.mk.injEq] at mem
  rcases mem with ⟨i, lt, rfl, rfl⟩ | ⟨i, here, rfl, rfl⟩
  · exact .inl ⟨rfl, lt⟩
  · exact .inr ⟨rfl, here⟩

theorem findSegment_mem {entries : List (Path × ℕ)} {seg : ℕ} {path : Path}
    (found : findSegment entries seg = some path) : (path, seg) ∈ entries := by
  obtain ⟨⟨path', ident⟩, here, rfl⟩ := Option.map_eq_some_iff.mp found
  have same : ident = seg := by simpa using List.find?_some here
  subst same
  exact List.mem_of_find?_eq_some here

theorem successor_mem {entries : List (Path × ℕ)} {seg : ℕ} {path : Path}
    (found : successor seg entries = some (some path)) : ∃ ident, (path, ident) ∈ entries := by
  induction entries with
  | nil => cases found
  | cons e rest ih =>
    obtain ⟨first, ident⟩ := e
    by_cases same : ident = seg
    · rw [successor, if_pos same] at found
      cases rest with
      | nil => cases found
      | cons next rest =>
        cases found
        exact ⟨next.2, List.mem_cons_of_mem _ List.mem_cons_self⟩
    · rw [successor, if_neg same] at found
      obtain ⟨ident', mem⟩ := ih found
      exact ⟨ident', List.mem_cons_of_mem _ mem⟩

end Entries

section Invariant

/-- What is known where the reader stands, `p` being the last coordinate. -/
def Placed (l : Log) (p : Coord) : Reader → Prop
  | .finding start => start = p
  | .found start archives => start = p ∧ archives ≤ l.archives.length
  | .opening (.archive i) offset => l.Valid ⟨i, offset⟩
  | .reading c => l.Valid c ∧ l.position c = l.position p
  | .scanned _ archives => archives ≤ l.archives.length
  | _ => True

/-- The lines yielded lead from the origin to the last coordinate. -/
structure Following (origin : ℕ) (w : World) (p : Coord) : Prop where
  last : w.last = some p
  valid : w.log.Valid p
  start : origin ≤ w.log.stream.length
  read : w.log.stream.drop origin = w.lines.flatten ++ w.log.stream.drop (w.log.position p)
  lines : ∀ l ∈ w.lines, IsLine newline l
  placed : Placed w.log p w.reader
  finished : ∀ a ∈ w.log.archives, Terminated newline a

variable {origin : ℕ} {w : World} {p : Coord}

theorem Placed.grown {l l' : Log} {r : Reader} (h : Placed l p r) (grown : Grown l l')
    (valid : l.Valid p) : Placed l' p r := by
  cases r with
  | found start archives => exact ⟨h.1, Nat.le_trans h.2 grown.archives.length_le⟩
  | opening path offset =>
    cases path with
    | archive i => exact grown.valid _ h
    | current => trivial
  | reading c =>
    refine ⟨grown.valid c h.1, ?_⟩
    rw [grown.position c h.1, grown.position p valid]
    exact h.2
  | scanned seg archives => exact Nat.le_trans h grown.archives.length_le
  | _ => exact h

theorem Following.grown {l' : Log} (h : Following origin w p) (grown : Grown w.log l')
    (finished : ∀ a ∈ l'.archives, Terminated newline a) :
    Following origin { w with log := l' } p := by
  obtain ⟨bytes, stream⟩ := grown.stream
  refine ⟨h.last, grown.valid p h.valid, ?_, ?_, h.lines, h.placed.grown grown h.valid, finished⟩
  · change origin ≤ l'.stream.length
    rw [stream, List.length_append]
    exact Nat.le_trans h.start (Nat.le_add_right _ _)
  · change l'.stream.drop origin = w.lines.flatten ++ l'.stream.drop (l'.position p)
    rw [grown.position p h.valid, stream, List.drop_append_of_le_length h.start,
      List.drop_append_of_le_length (position_le h.valid), h.read, List.append_assoc]

theorem Following.moved {r : Reader} (h : Following origin w p) (placed : Placed w.log p r) :
    Following origin { w with reader := r } p :=
  ⟨h.last, h.valid, h.start, h.read, h.lines, placed, h.finished⟩

theorem Following.gap {r : Reader} (h : Following origin w p) (placed : Placed w.log p r) :
    Following origin { w with reader := r, gaps := w.gaps + 1 } p :=
  ⟨h.last, h.valid, h.start, h.read, h.lines, placed, h.finished⟩

theorem Following.yielded {c : Coord} {line : Bytes} (h : Following origin w p)
    (valid : w.log.Valid c) (same : w.log.position c = w.log.position p)
    (found : nextLine newline ((w.log.content c.segment).drop c.offset) = some line) :
    Following origin
      { w with
        reader := .reading ⟨c.segment, c.offset + line.length⟩
        last := some ⟨c.segment, c.offset + line.length⟩
        lines := w.lines ++ [line] } ⟨c.segment, c.offset + line.length⟩ := by
  obtain ⟨after, split⟩ := valid_read valid found
  refine ⟨rfl, after, h.start, ?_, ?_, ⟨after, rfl⟩, h.finished⟩
  · change w.log.stream.drop origin = (w.lines ++ [line]).flatten ++ _
    rw [h.read, ← same, split, List.flatten_append, List.flatten_cons, List.flatten_nil,
      List.append_nil, List.append_assoc]
  · intro l mem
    rcases List.mem_append.mp mem with old | new
    · exact h.lines l old
    · rw [List.mem_singleton.mp new]
      exact (nextLine_eq_some found).1

theorem segIdent_current {l : Log} {seg : ℕ} (here : l.segIdent .current = some seg) :
    seg = l.archives.length ∧ l.segments.length = seg + 1 := by
  obtain ⟨bytes, current, rfl⟩ := Option.map_eq_some_iff.mp here
  refine ⟨rfl, ?_⟩
  rw [length_segments, current]
  rfl

theorem segIdent_archive {l : Log} {i seg : ℕ} (here : l.segIdent (.archive i) = some seg) :
    seg = i := by
  simp only [Log.segIdent] at here
  split at here
  · exact (Option.some.inj here).symm
  · cases here

theorem valid_current {l : Log} {seg offset : ℕ} (here : l.segIdent .current = some seg)
    (valid : l.Valid p) (same : l.position ⟨seg, offset⟩ = l.position p) :
    l.Valid ⟨seg, offset⟩ := by
  have length := (segIdent_current here).2
  have inside : l.Valid ⟨seg, 0⟩ := ⟨by rw [length]; exact Nat.lt_succ_self _, Nat.zero_le _⟩
  have rest := drop_position inside
  rw [List.drop_of_length_le (Nat.le_of_eq length), List.flatten_nil, List.append_nil,
    List.drop_zero] at rest
  have total : l.stream.length - l.position ⟨seg, 0⟩ = (l.content seg).length := by
    rw [← List.length_drop, rest]
  have bound := position_le valid
  have base : l.position ⟨seg, offset⟩ = l.position ⟨seg, 0⟩ + offset := rfl
  rw [← same, base] at bound
  have start := position_le inside
  refine ⟨inside.1, ?_⟩
  change offset ≤ (l.content seg).length
  omega

theorem following_advance (h : Following origin w p) (careful : lands .advance w = true) :
    ∃ p', Following origin w.advance p' := by
  cases at_ : w.reader with
  | idle =>
    have same : w.advance = w := by simp only [World.advance, at_]
    rw [same]
    exact ⟨p, h⟩
  | finding start =>
    have placed := h.placed
    rw [at_] at placed
    have moved : w.advance = { w with reader := .found start w.log.archives.length } := by
      simp only [World.advance, at_]
    rw [moved]
    exact ⟨p, h.moved ⟨placed, Nat.le_refl _⟩⟩
  | found start archives =>
    have placed := h.placed
    rw [at_] at placed
    obtain ⟨rfl, le⟩ := placed
    cases found : findSegment (orderedSegments archives (w.log.segIdent .current))
        start.segment with
    | none =>
      have moved : w.advance =
          { w with reader := .opening .current 0, gaps := w.gaps + 1 } := by
        simp only [World.advance, at_, found]
      rw [moved]
      exact ⟨start, h.gap trivial⟩
    | some path =>
      have moved : w.advance = { w with reader := .opening path start.offset } := by
        simp only [World.advance, at_, found]
      rw [moved]
      refine ⟨start, h.moved ?_⟩
      rcases mem_orderedSegments (findSegment_mem found) with ⟨rfl, -⟩ | ⟨rfl, -⟩
      · exact h.valid
      · trivial
  | opening path offset =>
    have placed := h.placed
    rw [at_] at placed
    cases ident : w.log.segIdent path with
    | none =>
      have moved : w.advance = { w with reader := .idle } := by
        simp only [World.advance, at_, ident]
      rw [moved]
      exact ⟨p, h.moved trivial⟩
    | some seg =>
      have moved : w.advance = { w with reader := .reading ⟨seg, offset⟩ } := by
        simp only [World.advance, at_, ident]
      rw [moved]
      have same : w.log.position ⟨seg, offset⟩ = w.log.position p := by
        simpa [lands, at_, ident, h.last] using careful
      refine ⟨p, h.moved ⟨?_, same⟩⟩
      cases path with
      | archive i =>
        rw [segIdent_archive ident]
        exact placed
      | current => exact valid_current ident h.valid same
  | reading c =>
    have placed := h.placed
    rw [at_] at placed
    cases found : nextLine newline ((w.log.content c.segment).drop c.offset) with
    | none =>
      have moved : w.advance = { w with reader := .ended c.segment } := by
        simp only [World.advance, at_, found]
      rw [moved]
      exact ⟨p, h.moved trivial⟩
    | some line =>
      have moved := h.yielded placed.1 placed.2 found
      have same : w.advance =
          { w with
            reader := .reading ⟨c.segment, c.offset + line.length⟩
            last := some ⟨c.segment, c.offset + line.length⟩
            lines := w.lines ++ [line] } := by
        simp only [World.advance, at_, found]
      rw [same]
      exact ⟨_, moved⟩
  | ended seg =>
    have moved : w.advance = { w with reader := .scanned seg w.log.archives.length } := by
      simp only [World.advance, at_]
    rw [moved]
    exact ⟨p, h.moved (Nat.le_refl _)⟩
  | scanned seg archives =>
    have placed := h.placed
    rw [at_] at placed
    cases found : successor seg (orderedSegments archives (w.log.segIdent .current)) with
    | none =>
      have moved : w.advance = { w with reader := .unnamed seg } := by
        simp only [World.advance, at_, found]
      rw [moved]
      exact ⟨p, h.moved trivial⟩
    | some next =>
      cases next with
      | none =>
        have moved : w.advance = { w with reader := .idle } := by
          simp only [World.advance, at_, found]
        rw [moved]
        exact ⟨p, h.moved trivial⟩
      | some path =>
        have moved : w.advance = { w with reader := .opening path 0 } := by
          simp only [World.advance, at_, found]
        rw [moved]
        refine ⟨p, h.moved ?_⟩
        obtain ⟨ident, mem⟩ := successor_mem found
        rcases mem_orderedSegments mem with ⟨rfl, lt⟩ | ⟨rfl, -⟩
        · refine ⟨?_, Nat.zero_le _⟩
          rw [length_segments]
          exact Nat.lt_of_lt_of_le (Nat.lt_of_lt_of_le lt placed) (Nat.le_add_right _ _)
        · trivial
  | unnamed seg =>
    have reader (r : Reader) (placed : Placed w.log p r) : ∃ p', Following origin
        { w with reader := r } p' := ⟨p, h.moved placed⟩
    simp only [World.advance, at_]
    split
    · exact reader _ trivial
    · split <;> exact reader _ trivial

theorem following_step {l : Label} (h : Following origin w p) (ok : legal l w = true)
    (careful : lands l w = true) : ∃ p', Following origin (step l w) p' := by
  cases l with
  | append bytes => exact ⟨p, h.grown (grown_append bytes) h.finished⟩
  | rename =>
    refine ⟨p, h.grown grown_rename ?_⟩
    cases current : w.log.current with
    | none =>
      have same : w.log.rename = w.log := by simp only [Log.rename, current]
      rw [same]
      exact h.finished
    | some bytes =>
      have renamed : w.log.rename = ⟨w.log.archives ++ [bytes], none⟩ := by
        simp only [Log.rename, current]
      rw [renamed]
      intro a mem
      rcases List.mem_append.mp mem with old | new
      · exact h.finished a old
      · rw [List.mem_singleton.mp new]
        simpa [legal, current] using ok
  | create =>
    refine ⟨p, h.grown grown_create ?_⟩
    have same : w.log.create.archives = w.log.archives := by
      unfold Log.create
      split <;> rfl
    rw [same]
    exact h.finished
  | call =>
    cases at_ : w.reader with
    | idle =>
      have called : step .call w = { w with reader := .finding p } := by
        simp only [step, World.call, at_, h.last]
      rw [called]
      exact ⟨p, h.moved rfl⟩
    | _ =>
      have same : step .call w = w := by simp only [step, World.call, at_]
      rw [same]
      exact ⟨p, h⟩
  | advance => exact following_advance h careful
  | abandon => exact ⟨p, h.moved trivial⟩

theorem Following.lines_eq (h : Following origin w p) :
    completeLines newline (w.log.stream.drop origin) =
      w.lines ++ completeLines newline (w.log.stream.drop (w.log.position p)) := by
  rw [h.read, completeLines_flatten h.lines]

end Invariant

section Alone

def pathOf (archives i : ℕ) : Path := if i < archives then .archive i else .current

theorem orderedSegments_eq (l : Log) :
    orderedSegments l.archives.length (l.segIdent .current) =
      (List.range l.segments.length).map fun i => (pathOf l.archives.length i, i) := by
  have archives : (List.range l.archives.length).map (fun i => (Path.archive i, i)) =
      (List.range l.archives.length).map fun i => (pathOf l.archives.length i, i) := by
    refine List.map_congr_left fun i mem => ?_
    rw [pathOf, if_pos (List.mem_range.mp mem)]
  rw [orderedSegments, archives, length_segments, Log.segIdent]
  cases l.current with
  | none => exact List.append_nil _
  | some bytes =>
    have last : pathOf l.archives.length l.archives.length = .current :=
      if_neg (Nat.lt_irrefl _)
    simp only [Option.map_some, Option.toList_some, List.map_cons, List.map_nil,
      List.length_singleton, List.range_succ, List.map_append, last]

theorem segIdent_pathOf {l : Log} {i : ℕ} (inside : i < l.segments.length) :
    l.segIdent (pathOf l.archives.length i) = some i := by
  by_cases archived : i < l.archives.length
  · rw [pathOf, if_pos archived, Log.segIdent, if_pos archived]
  · rw [pathOf, if_neg archived]
    rw [length_segments] at inside
    cases current : l.current with
    | none =>
      rw [current] at inside
      exact absurd inside archived
    | some bytes =>
      rw [current] at inside
      have last : i = l.archives.length := by
        change i < l.archives.length + 1 at inside
        omega
      rw [Log.segIdent, current, last, Option.map_some]

variable {g : ℕ → Path}

theorem findSegment_range {n seg : ℕ} (inside : seg < n) :
    findSegment ((List.range n).map fun i => (g i, i)) seg = some (g seg) := by
  have mem : (g seg, seg) ∈ (List.range n).map fun i => (g i, i) :=
    List.mem_map_of_mem (f := fun i => (g i, i)) (List.mem_range.mpr inside)
  have some_ : ((List.range n).map fun i => (g i, i)).find? (fun e => decide (e.2 = seg)) ≠
      none := by
    intro none_
    exact absurd rfl (of_decide_eq_false (Bool.eq_false_iff.mpr
      (List.find?_eq_none.mp none_ _ mem)))
  obtain ⟨e, found⟩ := Option.ne_none_iff_exists'.mp some_
  have same : e.2 = seg := by simpa using List.find?_some found
  obtain ⟨i, -, rfl⟩ := List.mem_map.mp (List.mem_of_find?_eq_some found)
  rw [findSegment, found]
  exact congrArg (fun i => some (g i)) same

theorem successor_append (seg : ℕ) (first second : List (Path × ℕ))
    (absent : ∀ e ∈ first, e.2 ≠ seg) :
    successor seg (first ++ second) = successor seg second := by
  induction first with
  | nil => rfl
  | cons e rest ih =>
    rw [List.forall_mem_cons] at absent
    obtain ⟨path, ident⟩ := e
    rw [List.cons_append, successor, if_neg absent.1, ih absent.2]

theorem successor_range {n seg : ℕ} (inside : seg < n) :
    successor seg ((List.range n).map fun i => (g i, i)) =
      some (if seg + 1 < n then some (g (seg + 1)) else none) := by
  obtain ⟨k, rfl⟩ := Nat.exists_eq_add_of_lt inside
  have split : List.range (seg + k + 1) =
      List.range seg ++ seg :: (List.range k).map (fun i => seg + 1 + i) := by
    rw [Nat.add_assoc, List.range_add, Nat.add_comm k 1, List.range_add, List.map_append,
      List.map_map]
    congr 1
    refine congrArg _ (List.map_congr_left fun i _ => ?_)
    exact (Nat.add_assoc _ _ _).symm
  rw [split, List.map_append, successor_append]
  · rw [List.map_cons, successor, if_pos rfl]
    cases k with
    | zero => rw [if_neg (Nat.lt_irrefl _)]; rfl
    | succ k =>
      rw [if_pos (by omega)]
      rw [List.range_succ_eq_map]
      rfl
  · rintro e mem rfl
    obtain ⟨i, lt, same⟩ := List.mem_map.mp mem
    rw [← same, List.mem_range] at lt
    exact Nat.lt_irrefl _ lt

theorem iterate_advance {w v : World} {m : ℕ} {P : World → Prop} (moved : World.advance^[m] w = v)
    (rest : ∃ n, P (World.advance^[n] v)) : ∃ n, P (World.advance^[n] w) := by
  obtain ⟨n, done⟩ := rest
  refine ⟨n + m, ?_⟩
  rw [Function.iterate_add_apply, moved]
  exact done

theorem next_segment {w : World} {c : Coord} (at_ : w.reader = .reading c)
    (read : nextLine newline ((w.log.content c.segment).drop c.offset) = none)
    (more : c.segment + 1 < w.log.segments.length) :
    World.advance^[4] w = { w with reader := .reading ⟨c.segment + 1, 0⟩ } := by
  have first : w.advance = { w with reader := .ended c.segment } := by
    simp only [World.advance, at_, read]
  have next : successor c.segment
      (orderedSegments w.log.archives.length (w.log.segIdent .current)) =
      some (some (pathOf w.log.archives.length (c.segment + 1))) := by
    rw [orderedSegments_eq, successor_range (Nat.lt_of_succ_lt more), if_pos more]
  rw [Function.iterate_succ_apply, first]
  simp only [Function.iterate_succ_apply, Function.iterate_zero_apply, World.advance, next,
    segIdent_pathOf more]

theorem last_segment {w : World} {c : Coord} (at_ : w.reader = .reading c)
    (read : nextLine newline ((w.log.content c.segment).drop c.offset) = none)
    (last : c.segment + 1 = w.log.segments.length) :
    World.advance^[3] w = { w with reader := .idle } := by
  have first : w.advance = { w with reader := .ended c.segment } := by
    simp only [World.advance, at_, read]
  have next : successor c.segment
      (orderedSegments w.log.archives.length (w.log.segIdent .current)) = some none := by
    rw [orderedSegments_eq, successor_range (by omega), if_neg (by omega)]
  rw [Function.iterate_succ_apply, first]
  simp only [Function.iterate_succ_apply, Function.iterate_zero_apply, World.advance, next]

theorem position_next {l : Log} {c : Coord} (valid : l.Valid c)
    (finished : ∀ a ∈ l.archives, Terminated newline a)
    (read : completeLines newline ((l.content c.segment).drop c.offset) = [])
    (more : c.segment + 1 < l.segments.length) :
    l.Valid ⟨c.segment + 1, 0⟩ ∧ l.position ⟨c.segment + 1, 0⟩ = l.position c := by
  have archived : c.segment < l.archives.length := by
    have short : l.current.toList.length ≤ 1 := by cases l.current <;> simp
    rw [length_segments] at more
    omega
  have nothing := (finished _ (archive_content archived)).drop_eq_nil read
  have whole : c.offset = (l.content c.segment).length :=
    Nat.le_antisymm valid.2 (List.drop_eq_nil_iff.mp nothing)
  refine ⟨⟨more, Nat.zero_le _⟩, ?_⟩
  have inside := valid.1
  have here : l.content c.segment = l.segments[c.segment] := by
    rw [Log.content, List.getElem?_eq_getElem inside, Option.getD_some]
  rw [Log.position, Log.position, List.take_succ_eq_append_getElem inside, List.flatten_append,
    List.length_append, List.flatten_cons, List.flatten_nil, List.append_nil, whole, here]
  rfl

theorem reads_alone (m : ℕ) {w : World} {c : Coord} (at_ : w.reader = .reading c)
    (valid : w.log.Valid c) (finished : ∀ a ∈ w.log.archives, Terminated newline a)
    (measure : w.log.stream.length - w.log.position c +
      (w.log.segments.length - c.segment) ≤ m) :
    ∃ n, (World.advance^[n] w).reader = .idle ∧ (World.advance^[n] w).log = w.log ∧
      (World.advance^[n] w).lines = w.lines ++
        completeLines newline (w.log.stream.drop (w.log.position c)) := by
  induction m generalizing w c with
  | zero =>
    have inside := valid.1
    omega
  | succ m ih =>
    cases found : nextLine newline ((w.log.content c.segment).drop c.offset) with
    | some line =>
      obtain ⟨line_, -⟩ := nextLine_eq_some found
      obtain ⟨after, split⟩ := valid_read valid found
      have moved : World.advance^[1] w =
          { w with
            reader := .reading ⟨c.segment, c.offset + line.length⟩
            last := some ⟨c.segment, c.offset + line.length⟩
            lines := w.lines ++ [line] } := by
        simp only [Function.iterate_one, World.advance, at_, found]
      have further : w.log.position ⟨c.segment, c.offset + line.length⟩ =
          w.log.position c + line.length := (Nat.add_assoc _ _ _).symm
      have some_ : 0 < line.length := List.length_pos_iff.mpr line_.ne_nil
      have bound := position_le after
      obtain ⟨n, idle, log, lines⟩ := iterate_advance
        (P := fun d => d.reader = .idle ∧ d.log = w.log ∧ d.lines = (w.lines ++ [line]) ++
          completeLines newline
            (w.log.stream.drop (w.log.position ⟨c.segment, c.offset + line.length⟩)))
        moved (ih rfl after finished (by simp only; omega))
      refine ⟨n, idle, log, ?_⟩
      rw [lines, split, completeLines_append line_, List.append_assoc]
      rfl
    | none =>
      have read := nextLine_eq_none.mp found
      by_cases more : c.segment + 1 < w.log.segments.length
      · obtain ⟨after, same⟩ := position_next valid finished read more
        obtain ⟨n, idle, log, lines⟩ := iterate_advance
          (P := fun d => d.reader = .idle ∧ d.log = w.log ∧ d.lines = w.lines ++
            completeLines newline (w.log.stream.drop (w.log.position ⟨c.segment + 1, 0⟩)))
          (next_segment at_ found more) (ih rfl after finished (by
            simp only
            rw [same]
            omega))
        refine ⟨n, idle, log, ?_⟩
        rw [lines, same]
      · have last : c.segment + 1 = w.log.segments.length :=
          Nat.le_antisymm valid.1 (Nat.le_of_not_lt more)
        refine ⟨3, ?_⟩
        rw [last_segment at_ found last]
        refine ⟨rfl, rfl, ?_⟩
        rw [drop_position valid, List.drop_of_length_le (Nat.le_of_eq last.symm),
          List.flatten_nil, List.append_nil, read, List.append_nil]

theorem call_alone {origin : ℕ} {w : World} {p : Coord} (h : Following origin w p)
    (idle : w.reader = .idle) :
    ∃ n, (World.advance^[n] w.call).reader = .idle ∧ (World.advance^[n] w.call).log = w.log ∧
      (World.advance^[n] w.call).lines =
        completeLines newline (w.log.stream.drop origin) := by
  have found : findSegment (orderedSegments w.log.archives.length (w.log.segIdent .current))
      p.segment = some (pathOf w.log.archives.length p.segment) := by
    rw [orderedSegments_eq, findSegment_range h.valid.1]
  have called : w.call = { w with reader := .finding p } := by
    simp only [World.call, idle, h.last]
  have opened : World.advance^[3] w.call = { w with reader := .reading p } := by
    simp only [Function.iterate_succ_apply, Function.iterate_zero_apply, called, World.advance,
      found, segIdent_pathOf h.valid.1]
  obtain ⟨n, done, log, lines⟩ := iterate_advance
    (P := fun d => d.reader = .idle ∧ d.log = w.log ∧ d.lines = w.lines ++
      completeLines newline (w.log.stream.drop (w.log.position p)))
    opened (reads_alone _ rfl h.valid h.finished (Nat.le_refl _))
  refine ⟨n, done, log, ?_⟩
  rw [lines, h.lines_eq]

end Alone

section Schedules

def World.start (log : Log) (c : Coord) : World := ⟨log, .idle, some c, [], 0⟩

/-- The lines yielded, by calls that go on from the last coordinate, are the complete lines behind
the start, each once and in order; and a call that is alone with the log yields all that are left:
in every run in which every open leads behind the last line yielded. -/
theorem lines_yielded {log : Log} {c : Coord} (valid : log.Valid c)
    (finished : ∀ a ∈ log.archives, Terminated newline a) {ls : List Label} {w : World}
    (run : Runs step (fun l w => legal l w = true ∧ lands l w = true) (World.start log c) ls w) :
    w.lines <+: completeLines newline (w.log.stream.drop (log.position c)) ∧
      (w.reader = .idle → ∃ n, (World.advance^[n] (step .call w)).reader = .idle ∧
        (World.advance^[n] (step .call w)).log = w.log ∧
        (World.advance^[n] (step .call w)).lines =
          completeLines newline (w.log.stream.drop (log.position c))) := by
  have first : Following (log.position c) (World.start log c) c :=
    ⟨rfl, valid, position_le valid, rfl, fun l mem => absurd mem List.not_mem_nil, trivial,
      finished⟩
  obtain ⟨p, h⟩ := run.invariant (I := fun w => ∃ p, Following (log.position c) w p)
    (fun l w ok ⟨p, h⟩ => following_step h ok.1 ok.2) ⟨c, first⟩
  refine ⟨?_, fun idle => call_alone h idle⟩
  rw [h.lines_eq]
  exact List.prefix_append _ _

/-- One archive and a line in `current`. -/
def twoSegments : Log := ⟨[[97, newline]], some [98, newline]⟩

def rotated : List Label :=
  [.call, .advance, .advance, .advance, .advance, .append [99], .append [newline], .advance,
    .advance, .advance, .advance, .advance, .advance, .advance, .rename, .create,
    .append [100, newline], .advance, .abandon]

theorem rotated_lines :
    ∃ w, Runs step (fun l w => legal l w = true ∧ lands l w = true)
        (World.start twoSegments ⟨0, 0⟩) rotated w ∧
      w.lines = [[97, newline], [98, newline], [99, newline]] ∧
      ∃ n, (World.advance^[n] (step .call w)).lines =
        [[97, newline], [98, newline], [99, newline], [100, newline]] := by
  have legal_ : Legal step (fun l w => legal l w = true ∧ lands l w = true)
      (World.start twoSegments ⟨0, 0⟩) rotated := by
    decide +kernel
  have idle : (rotated.foldl (fun w l => step l w) (World.start twoSegments ⟨0, 0⟩)).reader =
      .idle := by
    decide +kernel
  refine ⟨_, legal_.runs, by decide +kernel, ?_⟩
  obtain ⟨n, -, -, lines⟩ :=
    (lines_yielded (by decide +kernel) (by decide +kernel) legal_.runs).2 idle
  refine ⟨n, lines.trans ?_⟩
  decide +kernel

/-- A line is appended behind the end that the reader has seen, and the segment is rotated before
it looks for the successor. -/
def appendedAtEnd : List Label :=
  [.call, .advance, .advance, .advance, .advance, .advance, .append [98, newline], .rename,
    .create, .append [99, newline], .advance, .advance, .advance, .advance, .advance]

theorem line_skipped :
    ∃ w, Runs step (fun l w => legal l w = true) (World.start ⟨[], some [97, newline]⟩ ⟨0, 0⟩)
        appendedAtEnd w ∧
      w.last = some ⟨1, 2⟩ ∧ w.lines = [[97, newline], [99, newline]] ∧
      completeLines newline w.log.stream = [[97, newline], [98, newline], [99, newline]] := by
  have legal_ : Legal step (fun l w => legal l w = true)
      (World.start ⟨[], some [97, newline]⟩ ⟨0, 0⟩) appendedAtEnd := by
    decide +kernel
  refine ⟨_, legal_.runs, ?_, ?_, ?_⟩
  · decide +kernel
  · decide +kernel
  · decide +kernel

end Schedules

end Casa.LogReader
