import Casa.EngagementTermination

/-! What a strict call has committed stays in the tombstone file, as long as no caller unwinds
while its own write is in flight: memory only moves on to later versions of a row, every write
is a snapshot of memory taken under the lock, and the worker that replaces the file is the one
of the call that holds it. A worker left behind breaks the last of these. -/

namespace Casa.EngagementDurability
open EngagementRecord KeyedTable StepRuns EngagementRegistry EngagementTermination

def scheduled : Label → World → Bool
  | .start op _, w => freshId w op
  | _, _ => true

def anchored : Label → World → Bool
  | .start op _, w => freshId w op
  | .cancel, w => w.holder.all fun c => !(c.exposed && !c.replaced)
  | _, _ => true

def Carries (edits : List Version) (c : Version) (t : Records) : Prop :=
  ∃ r e, t.get? c.row.id = some r ∧ e ∈ edits ∧ e.row = r.toRow ∧ c.number ≤ e.number ∧
    Later c.row r.toRow

section Carries
variable {edits : List Version} {c : Version} {t : Records}

theorem Carries.mono {more : List Version} (sub : edits ⊆ more) (h : Carries edits c t) :
    Carries more c t := by
  obtain ⟨r, e, found, mem, same, order, later⟩ := h
  exact ⟨r, e, found, sub mem, same, order, later⟩

theorem Carries.put_same {r s : Record} (h : Carries edits c t) (found : t.get? s.id = some r)
    (same : s.toRow = r.toRow) : Carries edits c (t.put s) := by
  obtain ⟨q, e, inside, mem, row, order, later⟩ := h
  by_cases here : s.id = c.row.id
  · rw [here, inside] at found
    cases found
    exact ⟨s, e, by rw [Table.get?_put, if_pos here], mem, row.trans same.symm, order, same ▸ later⟩
  · exact ⟨q, e, by rw [Table.get?_put, if_neg here]; exact inside, mem, row, order, later⟩

theorem Carries.put_next {id : String} {e : Edit} {n : Nat} (h : Carries edits c t)
    (mutates : Mutates id (t.get? id) e) (before : c.number ≤ n) :
    Carries (edits ++ [⟨n, e.next.toRow⟩]) c (t.put e.next) := by
  obtain ⟨r, v, found, mem, row, order, later⟩ := h
  by_cases here : e.next.id = c.row.id
  · refine ⟨e.next, ⟨n, e.next.toRow⟩, by rw [Table.get?_put, if_pos here],
      List.mem_append_right _ List.mem_cons_self, rfl, before, later.trans ?_⟩
    generalize looked : t.get? id = known at mutates
    have named : ∀ q, known = some q → q.id = id := fun q some_ => id_of_get? (looked.trans some_)
    have same : ∀ q, known = some q → q.id = c.row.id → q = r := by
      intro q some_ name
      rw [← named q some_, name, found, some_] at looked
      exact (Option.some.inj looked).symm
    cases mutates with
    | insert name live unreleased =>
      rw [← name, here, found] at looked
      cases looked
    | adjust next => exact same _ rfl (next.id.symm.trans here) ▸ next
    | finish live ended next => exact same _ rfl (next.id.symm.trans here) ▸ next
    | finishStrict live ended next => exact same _ rfl (next.id.symm.trans here) ▸ next
  · exact ⟨r, v, by rw [Table.get?_put, if_neg here]; exact found, List.mem_append_left _ mem, row,
      order, later⟩

end Carries

theorem failed_records {w : World} {c : Call} (h : Held w c) (going : c.undoing = false) :
    World.assign c.id w.records c.edit.failed = c.before ∨
    World.assign c.id w.records c.edit.failed = w.records := by
  have memory := records_held h going
  have present := get?_held h going
  have named := next_id h.mutates
  have mutates := h.mutates
  generalize looked : c.before.get? c.id = found at mutates
  have back : ∀ r : Record, found = some r → w.records.put r = c.before := by
    intro r some_
    have name : r.id = c.id := id_of_get? (looked.trans some_)
    rw [memory, put_put (named.trans name.symm)]
    exact Table.put_self (name ▸ looked.trans some_)
  generalize c.edit = e at mutates present named memory
  cases mutates with
  | @insert r name live unreleased =>
    left
    rw [World.assign, memory, ← name]
    exact Table.remove_put (name ▸ looked)
  | adjust later same permit restored =>
    rcases restored with rfl | rfl
    · exact .inl (back _ rfl)
    · exact .inr (Table.put_self (named ▸ present))
  | finish live ended later permit => exact .inr (Table.put_self (named ▸ present))
  | finishStrict live ended later permit => exact .inl (back _ rfl)

/-- The invariant: memory, the table a call may go back to and the file all carry every
commit, and what the worker in flight writes is memory. -/
structure Kept (w : World) : Prop where
  sane : Sane w
  alone : w.strays = []
  numbered : ∀ e ∈ w.edits, e.number < w.calls
  logged : ∀ c ∈ w.commits, c ∈ w.edits
  memory : ∀ c ∈ w.commits, Carries w.edits c w.records
  back : ∀ d, w.holder = some d → ∀ c ∈ w.commits, Carries w.edits c d.before
  version : ∀ d, w.holder = some d → d.version ∈ w.edits
  file : ∀ d, w.holder = some d → ∃ now, d.file = snapshot now w.records
  landed : ∀ d, w.holder = some d → d.replaced = true → w.disk = d.file
  disk : ∀ c ∈ w.commits, ∃ now t, w.disk = snapshot now t ∧ Carries w.edits c t

section Step
variable {w : World} {c : Call}

theorem Kept.free (free : w.holder = none) (alone : w.strays = [])
    (numbered : ∀ e ∈ w.edits, e.number < w.calls) (logged : ∀ c ∈ w.commits, c ∈ w.edits)
    (memory : ∀ c ∈ w.commits, Carries w.edits c w.records)
    (disk : ∀ c ∈ w.commits, ∃ now t, w.disk = snapshot now t ∧ Carries w.edits c t) :
    Kept w := by
  have none : ∀ d, w.holder ≠ some d := fun d held => by
    rw [free] at held
    cases held
  exact ⟨sane_free free, alone, numbered, logged, memory, fun d held => absurd held (none d),
    fun d held => absurd held (none d), fun d held => absurd held (none d),
    fun d held => absurd held (none d), disk⟩

theorem kept_hold {op : Op} {now : Int} {e : Edit} (kept : Kept w) (sane : Sane (w.hold op now e))
    (mutates : Mutates op.id (w.records.get? op.id) e) : Kept (w.hold op now e) := by
  have grow : w.edits ⊆ w.edits ++ [⟨w.calls, e.next.toRow⟩] := List.subset_append_left _ _
  refine ⟨sane, kept.alone, fun v mem => ?_, fun c mem => grow (kept.logged c mem), fun c mem => ?_,
    ?_, ?_, ?_, ?_, fun c mem => ?_⟩
  · rcases List.mem_append.mp mem with old | new
    · exact Nat.lt_succ_of_lt (kept.numbered v old)
    · cases List.mem_singleton.mp new
      exact Nat.lt_succ_self _
  · have before := Nat.le_of_lt (kept.numbered c (kept.logged c mem))
    exact (kept.memory c mem).put_next mutates before
  · rintro d ⟨⟩ c mem
    exact (kept.memory c mem).mono grow
  · rintro d ⟨⟩
    exact List.mem_append_right _ List.mem_cons_self
  · rintro d ⟨⟩
    exact ⟨now, rfl⟩
  · rintro d ⟨⟩ no
    cases no
  · obtain ⟨now', t, disk, carries⟩ := kept.disk c mem
    exact ⟨now', t, disk, carries.mono grow⟩

theorem kept_replace (kept : Kept w) (held : w.holder = some c)
    (sane : Sane { w with disk := c.file, holder := some { c with replaced := true } }) :
    Kept { w with disk := c.file, holder := some { c with replaced := true } } := by
  refine ⟨sane, kept.alone, kept.numbered, kept.logged, kept.memory, ?_, ?_, ?_, ?_, fun v mem => ?_⟩
  · rintro d ⟨⟩
    exact kept.back c held
  · rintro d ⟨⟩
    exact kept.version c held
  · rintro d ⟨⟩
    exact kept.file c held
  · rintro d ⟨⟩ _
    rfl
  · obtain ⟨now, file⟩ := kept.file c held
    exact ⟨now, w.records, file, kept.memory v mem⟩

theorem records_compensate (now : Int) (h : Held w c) (going : c.undoing = false)
    (shield : c.edit.shield = .compensating) : (w.compensate c now).records = c.before := by
  have absent : c.before.get? c.edit.next.id = none := by
    rw [next_id h.mutates]
    exact h.inserts shield
  simp only [World.compensate, records_held h going, ← next_id h.mutates]
  exact Table.remove_put absent

section
variable (kept : Kept w) (held : w.holder = some c) (going : c.undoing = false)
include kept held going

theorem kept_compensate {now : Int} (shield : c.edit.shield = .compensating)
    (sane : Sane (w.compensate c now)) : Kept (w.compensate c now) := by
  have memory := records_compensate now (kept.sane c held) going shield
  refine ⟨sane, kept.alone, kept.numbered, kept.logged, fun v mem => ?_, ?_, ?_, ?_, ?_, kept.disk⟩
  · rw [memory]
    exact kept.back c held v mem
  · rintro d ⟨⟩
    exact kept.back c held
  · rintro d ⟨⟩
    exact kept.version c held
  · rintro d ⟨⟩
    exact ⟨now, rfl⟩
  · rintro d ⟨⟩ no
    cases no

theorem kept_commit (landed : c.replaced = true) : Kept (w.commit c) := by
  have h := kept.sane c held
  have present := get?_held h going
  have named := next_id h.mutates
  have row : c.edit.written.toRow = c.edit.next.toRow := by
    have mutates := h.mutates
    generalize looked : c.before.get? c.id = found at mutates
    generalize c.edit = e at mutates
    cases mutates <;> rfl
  have found : w.records.get? c.edit.written.id = some c.edit.next := by
    rw [row, named]
    exact present
  have own : Carries w.edits c.version w.records :=
    ⟨c.edit.next, c.version, (congrArg w.records.get? named).trans present, kept.version c held, rfl,
      Nat.le_refl _, .refl _⟩
  obtain ⟨now, file⟩ := kept.file c held
  have disk : w.disk = snapshot now w.records := (kept.landed c held landed).trans file
  obtain ⟨trues, eq⟩ := commit_eq w c
  rw [eq]
  have committed : ∀ v ∈ (if c.edit.strict ∧ c.cancels = 0 then w.commits ++ [c.version]
      else w.commits), v ∈ w.edits ∧ Carries w.edits v w.records ∧
      ∃ now t, w.disk = snapshot now t ∧ Carries w.edits v t := by
    intro v mem
    split at mem
    · rcases List.mem_append.mp mem with old | new
      · exact ⟨kept.logged v old, kept.memory v old, kept.disk v old⟩
      · cases List.mem_singleton.mp new
        exact ⟨kept.version c held, own, now, w.records, disk, own⟩
    · exact ⟨kept.logged v mem, kept.memory v mem, kept.disk v mem⟩
  exact .free rfl kept.alone kept.numbered (fun v mem => (committed v mem).1)
    (fun v mem => (committed v mem).2.1.put_same found row) (fun v mem => (committed v mem).2.2)

theorem kept_fail : Kept (w.fail c) := by
  obtain ⟨trues, eq⟩ := fail_eq w c
  rw [eq]
  refine .free rfl kept.alone kept.numbered kept.logged (fun v mem => ?_) kept.disk
  rcases failed_records (kept.sane c held) going with back | stands
  · simp only [back]
    exact kept.back c held v mem
  · simp only [stands]
    exact kept.memory v mem

end

theorem kept_step {l : Label} (ok : anchored l w = true) (kept : Kept w) : Kept (step l w) := by
  have fresh : ∀ op now, l = .start op now → freshId w op = true := by
    rintro op now rfl
    exact ok
  have sane := sane_step fresh kept.sane
  have moves := moves_step l w
  generalize step l w = v at moves sane
  cases moves with
  | stay => exact kept
  | hold free edit => exact kept_hold kept sane (Op.mutates (absent_of_fresh ok) edit)
  | replace held waiting => exact kept_replace kept held sane
  | undone held undoing =>
    exact .free rfl kept.alone kept.numbered kept.logged kept.memory kept.disk
  | fail held undoing lost => exact kept_fail kept held undoing
  | compensate held undoing landed shield => exact kept_compensate kept held undoing shield sane
  | commit held undoing landed unharmed => exact kept_commit kept held undoing landed
  | @absorb _ c held =>
    refine ⟨sane, kept.alone, kept.numbered, kept.logged, kept.memory, ?_, ?_, ?_, ?_, kept.disk⟩
    · rintro d ⟨⟩
      exact kept.back c held
    · rintro d ⟨⟩
      exact kept.version c held
    · rintro d ⟨⟩
      exact kept.file c held
    · rintro d ⟨⟩
      exact kept.landed c held
  | @abandon _ c held exposed =>
    have landed : c.replaced = true := by
      simpa [anchored, held, exposed] using ok
    refine .free rfl ?_ kept.numbered kept.logged kept.memory kept.disk
    simpa [World.abandon, landed] using kept.alone
  | @stray _ k file left =>
    rw [kept.alone] at left
    cases left

end Step

theorem kept_boot (rows : List Row) (written : Option Int) : Kept (boot rows written) :=
  .free rfl rfl (fun _ mem => absurd mem List.not_mem_nil) (fun _ mem => absurd mem List.not_mem_nil)
    (fun _ mem => absurd mem List.not_mem_nil) fun _ mem => absurd mem List.not_mem_nil

theorem later_loadRow (row : Row) : Later row (loadRow row).toRow := by
  refine ⟨rfl, fun ended => ⟨?_, rfl, rfl, rfl⟩, Int.le_refl _, Nat.le_refl _⟩
  have passed : row.status ≠ .active := fun active => by
    rw [active] at ended
    cases ended
  exact if_neg passed

/-- What the file says of an engagement is what memory said when the snapshot was taken,
unless the tombstone had aged. -/
theorem row_of_snapshot (now : Int) {t : Records} {r : Record} {id : String}
    (found : t.get? id = some r) :
    (∀ row ∈ (snapshot now t).rows, row.id = id → row = r.toRow) ∧
    (r.toRow ∈ (snapshot now t).rows ∨ aged (snapshot now t).cutoff r.toRow = true) := by
  constructor
  · intro row mem same
    obtain ⟨q, inside, rfl⟩ := List.mem_map.mp (List.mem_filter.mp mem).1
    have key : t.get? q.id = some q := Table.get?_key inside
    rw [same, found] at key
    cases key
    rfl
  · cases old : aged (now - retention) r.toRow with
    | true => exact .inr old
    | false =>
      refine .inl (List.mem_filter.mpr ⟨List.mem_map_of_mem (Table.mem_of_get? found), ?_⟩)
      simp [old]

/-- Once a strict call has returned, the file holds the row it made or a version made after it,
or has dropped that version as an aged tombstone; and a restart reads a row that keeps the
ending, the question numbers handed out and the authorization. This is so in every run in which
no cancellation unwinds a caller whose write is in flight. -/
theorem strict_commit_stays {rows : List Row} {written : Option Int} {ls : List Label} {w : World}
    (run : Runs step (fun l w => anchored l w = true) (boot rows written) ls w) {c : Version}
    (committed : c ∈ w.commits) :
    ∃ e ∈ w.edits, e.row.id = c.row.id ∧ c.number ≤ e.number ∧ Later c.row e.row ∧
      (∀ row ∈ w.disk.rows, row.id = c.row.id → row = e.row) ∧
      (e.row ∈ w.disk.rows ∨ aged w.disk.cutoff e.row = true) ∧
      ∀ r, (load w.disk.rows).get? c.row.id = some r → Later c.row r.toRow := by
  have kept : Kept w := run.invariant (fun l s ok h => kept_step ok h) (kept_boot rows written)
  obtain ⟨now, t, disk, r, e, found, mem, row, order, later⟩ := kept.disk c committed
  obtain ⟨only, there⟩ := row_of_snapshot now found
  rw [← disk, ← row] at only there
  rw [← row] at later
  refine ⟨e, mem, later.id, order, later, only, there, fun q reloaded => ?_⟩
  obtain ⟨x, inside, same, rfl⟩ := exists_row_of_load reloaded
  rw [only x inside same]
  exact later.trans (later_loadRow e.row)

def orderlyCalls : List Label :=
  [.start (.create "e" {} .firstContactRequired false) 0, .replace, .settle 0,
    .start (.updateUserTurn "e" 3) 3, .replace, .cancel,
    .start (.allocateQuestionNumber "e") 4, .cancel, .replace, .settle 4,
    .start (.tryTransitionTerminal "e" { outcome := .completed, strict := true }) 5, .replace,
    .settle 5]

theorem ending_on_disk :
    Runs step (fun l w => anchored l w = true) (boot [] none) orderlyCalls
      (orderlyCalls.foldl (fun w l => step l w) (boot [] none)) ∧
    ∃ c ∈ (orderlyCalls.foldl (fun w l => step l w) (boot [] none)).commits,
      c.row.status = .completed ∧
      ∀ r, (load (orderlyCalls.foldl (fun w l => step l w) (boot [] none)).disk.rows).get? c.row.id =
        some r → Later c.row r.toRow := by
  have legal : Legal step (fun l w => anchored l w = true) (boot [] none) orderlyCalls := by
    decide +kernel
  have listed : ∃ c ∈ (orderlyCalls.foldl (fun w l => step l w) (boot [] none)).commits,
      c.row.status = .completed := by
    decide +kernel
  obtain ⟨c, mem, done⟩ := listed
  obtain ⟨_, _, _, _, _, _, _, reloads⟩ := strict_commit_stays legal.runs mem
  exact ⟨legal.runs, c, mem, done, reloads⟩

theorem allocated_above {t : Records} {row : Row} {now : Int} {e : Edit}
    (later : ∀ r, t.get? row.id = some r → Later row r.toRow)
    (asked : (Op.allocateQuestionNumber row.id).edit now (t.get? row.id) = .ok e) :
    ∃ n, e.answer = .number (some n) ∧ e.next.nextQuestionNumber = n + 1 ∧
      row.nextQuestionNumber ≤ n := by
  cases found : t.get? row.id with
  | none =>
    rw [found] at asked
    cases asked
  | some r =>
    rw [found] at asked
    obtain rfl := Except.ok.inj asked
    exact ⟨r.nextQuestionNumber, rfl, rfl, (later r found).numbered⟩

/-- A question number that is handed out is above every one that a returned call was given, by
this process or, of a row that is still in the file, by one that reads the file later. -/
theorem question_numbers_fresh {rows : List Row} {written : Option Int} {ls : List Label}
    {w : World} (run : Runs step (fun l w => anchored l w = true) (boot rows written) ls w)
    {c : Version} (committed : c ∈ w.commits) {t : Records}
    (source : t = w.records ∨ t = load w.disk.rows) {now : Int} {e : Edit}
    (asked : (Op.allocateQuestionNumber c.row.id).edit now (t.get? c.row.id) = .ok e) :
    ∃ n, e.answer = .number (some n) ∧ e.next.nextQuestionNumber = n + 1 ∧
      c.row.nextQuestionNumber ≤ n := by
  have kept : Kept w := run.invariant (fun l s ok h => kept_step ok h) (kept_boot rows written)
  refine allocated_above (fun q found => ?_) asked
  rcases source with rfl | rfl
  · obtain ⟨r, _, here, _, _, _, later⟩ := kept.memory c committed
    obtain rfl := Option.some.inj (here.symm.trans found)
    exact later
  · obtain ⟨now, t, disk, r, _, here, _, _, _, later⟩ := kept.disk c committed
    obtain ⟨x, inside, same, rfl⟩ := exists_row_of_load found
    rw [(row_of_snapshot now here).1 x (disk ▸ inside) same]
    exact later.trans (later_loadRow r.toRow)

theorem second_number : ∃ (w : World) (c : Version) (n : Int), c ∈ w.commits ∧ 2 ≤ n ∧
    ∃ e, (Op.allocateQuestionNumber c.row.id).edit 9 ((load w.disk.rows).get? c.row.id) = .ok e ∧
      e.answer = .number (some n) := by
  have legal : Legal step (fun l w => anchored l w = true) (boot [] none) orderlyCalls := by
    decide +kernel
  let w := orderlyCalls.foldl (fun w l => step l w) (boot [] none)
  have listed : ∃ c ∈ w.commits, c.row.nextQuestionNumber = 2 ∧ ((Op.allocateQuestionNumber
      c.row.id).edit 9 ((load w.disk.rows).get? c.row.id)).toBool = true := by
    decide +kernel
  obtain ⟨c, mem, two, ok⟩ := listed
  cases asked : (Op.allocateQuestionNumber c.row.id).edit 9 ((load w.disk.rows).get? c.row.id) with
  | error => simp [asked, Except.toBool] at ok
  | ok e =>
    obtain ⟨n, answer, -, above⟩ := question_numbers_fresh legal.runs mem (.inr rfl) asked
    exact ⟨w, c, n, mem, two ▸ above, e, asked, answer⟩

/-- A user turn is cancelled while its write is in flight, the engagement ends strictly, and
the worker left behind then replaces the file: after a restart the engagement is idle again. -/
def lateRename : List Label :=
  [.start (.create "e" {} .notRequired false) 0, .replace, .settle 0,
    .start (.updateUserTurn "e" 3) 3, .cancel,
    .start (.tryTransitionTerminal "e" { outcome := .completed, strict := true }) 5, .replace,
    .settle 5, .stray 0]

theorem revived_by_late_rename :
    ∃ w, Runs step (fun l w => scheduled l w = true) (boot [] none) lateRename w ∧
      (∃ c ∈ w.commits, c.row.id = "e" ∧ c.row.status = .completed) ∧
      ∃ r, (load w.disk.rows).get? "e" = some r ∧ r.status = .idle := by
  have legal : Legal step (fun l w => scheduled l w = true) (boot [] none) lateRename := by
    decide +kernel
  exact ⟨_, legal.runs, by decide +kernel, _, rfl, by decide +kernel⟩

end Casa.EngagementDurability
