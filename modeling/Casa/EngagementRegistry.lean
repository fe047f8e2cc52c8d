import Casa.EngagementRecord
import Casa.KeyedTable
import Casa.StepRuns

/-! The engagement registry as a machine. A mutator holds the lock from its edit until its
tombstone write has been accounted for, so a call is one start under a free lock, the steps of
its write, and its settling; what interleaves is the worker that replaces the file and the
cancellation of the caller. A caller that unwinds before its write has landed frees the lock and
leaves the worker behind, which may still replace the file at any later time. -/

namespace Casa.EngagementRegistry
open EngagementRecord KeyedTable StepRuns

abbrev Records := Table (fun r : Record => r.id)

/-- The tombstone file. The bound is the retention cutoff its snapshot was taken with; it is
not stored. -/
structure File where
  rows : List Row
  cutoff : Int
deriving DecidableEq

/-- `_TERMINAL_RETENTION_DAYS`, in seconds. -/
def retention : Int := 30 * 86400

def aged (cutoff : Int) (row : Row) : Bool :=
  row.status.terminal && row.completedAt.any (fun at_ => decide (at_ < cutoff))

/-- The snapshot of `_write_tombstone_locked`. -/
def snapshot (now : Int) (records : Records) : File :=
  let cutoff := now - retention
  ⟨(records.rows.map Record.toRow).filter (fun row => !aged cutoff row), cutoff⟩

/-- The boot reconcile of `load`: no driver survives a restart. -/
def loadRow (row : Row) : Record :=
  { toRow := { row with status := if row.status = .active then .idle else row.status } }

def load (rows : List Row) : Records := rows.foldl (fun t row => t.put (loadRow row)) .empty

theorem exists_row_of_load {rows : List Row} {id : String} {r : Record}
    (found : (load rows).get? id = some r) : ∃ row ∈ rows, row.id = id ∧ r = loadRow row := by
  have general : ∀ (rest : List Row) (t : Records),
      (rest.foldl (fun t row => t.put (loadRow row)) t).get? id = some r →
      t.get? id = some r ∨ ∃ row ∈ rest, row.id = id ∧ r = loadRow row := by
    intro rest
    induction rest with
    | nil => exact fun t found => .inl found
    | cons row rest ih =>
      intro t found
      rcases ih _ found with here | ⟨x, mem, same, read⟩
      · rw [Table.get?_put] at here
        split at here
        · rename_i same
          cases here
          exact .inr ⟨row, List.mem_cons_self, same, rfl⟩
        · exact .inl here
      · exact .inr ⟨x, List.mem_cons_of_mem _ mem, same, read⟩
  rcases general rows .empty found with none | some_
  · cases none
  · exact some_

/-- The call that holds the lock: its edit, the table it found, and the write it awaits. -/
structure Call where
  number : Nat
  op : Op
  edit : Edit
  before : Records
  file : File
  replaced : Bool := false
  cancels : Nat := 0
  undoing : Bool := false

/-- A row as call `number` left it. -/
structure Version where
  number : Nat
  row : Row
deriving DecidableEq

structure Mark where
  id : String
  number : Nat
deriving DecidableEq

/-- The registry with the file and the workers left behind, and what is kept of the run: the
version each call made, the strict calls that returned, the calls that ended an engagement and
those that said so. -/
structure World where
  records : Records
  holder : Option Call := none
  disk : File
  strays : List File := []
  calls : Nat := 0
  edits : List Version := []
  commits : List Version := []
  flips : List Mark := []
  trues : List Mark := []

namespace Call

def id (c : Call) : String := c.op.id

def mark (c : Call) : Mark := ⟨c.id, c.number⟩

def version (c : Call) : Version := ⟨c.number, c.edit.next.toRow⟩

def exposed (c : Call) : Bool :=
  match c.edit.shield with
  | .bare => true
  | .once => c.cancels ≠ 0
  | .always => false
  | .compensating => false

end Call

namespace World

def assign (id : String) (records : Records) : Option Record → Records
  | some r => records.put r
  | none => records.remove id

def hold (w : World) (op : Op) (now : Int) (e : Edit) : World :=
  let records := w.records.put e.next
  let call : Call := {
    number := w.calls, op, edit := e, before := w.records, file := snapshot now records }
  { w with
    records, holder := some call, calls := w.calls + 1, edits := w.edits ++ [call.version]
    flips := if flipped (w.records.get? op.id) e.next && !e.pending then w.flips ++ [call.mark]
      else w.flips }

def start (w : World) (op : Op) (now : Int) : World :=
  match w.holder with
  | some _ => w
  | none =>
    match op.edit now (w.records.get? op.id) with
    | .error _ => w
    | .ok e => w.hold op now e

def replace (w : World) : World :=
  match w.holder with
  | none => w
  | some c =>
    if c.replaced then w else { w with disk := c.file, holder := some { c with replaced := true } }

def return_ (w : World) (c : Call) : World :=
  if c.cancels = 0 ∧ c.op.claims = true ∧ c.edit.answer = .flag true then
    { w with holder := none, trues := w.trues ++ [c.mark] }
  else { w with holder := none }

def commit (w : World) (c : Call) : World :=
  let w := { w with
    records := w.records.put c.edit.written
    flips := if c.edit.pending then w.flips ++ [c.mark] else w.flips
    commits := if c.edit.strict ∧ c.cancels = 0 then w.commits ++ [c.version] else w.commits }
  w.return_ c

def fail (w : World) (c : Call) : World :=
  let w := { w with records := assign c.id w.records c.edit.failed }
  if c.edit.strict then { w with holder := none } else w.return_ c

/-- `create`, cancelled while its insert went through, takes the insert back and writes again. -/
def compensate (w : World) (c : Call) (now : Int) : World :=
  let records := w.records.remove c.id
  { w with
    records, holder := some { c with undoing := true, replaced := false, file := snapshot now records } }

def settle (w : World) (now : Int) : World :=
  match w.holder with
  | none => w
  | some c =>
    if c.undoing then { w with holder := none }
    else if c.replaced = false then w.fail c
    else if c.edit.shield = .compensating ∧ c.cancels ≠ 0 then w.compensate c now
    else w.commit c

/-- The caller unwinds: the edit stands as it is, and a worker that is not done is left. -/
def abandon (w : World) (c : Call) : World :=
  { w with
    holder := none
    strays := if c.replaced then w.strays else w.strays ++ [c.file]
    flips := if c.edit.pending then w.flips ++ [c.mark] else w.flips }

def cancel (w : World) : World :=
  match w.holder with
  | none => w
  | some c =>
    if c.exposed then w.abandon c else { w with holder := some { c with cancels := c.cancels + 1 } }

def stray (w : World) (k : Nat) : World :=
  match w.strays[k]? with
  | none => w
  | some file => { w with disk := file, strays := w.strays.eraseIdx k }

end World

inductive Label where
  | start (op : Op) (now : Int)
  | replace
  | settle (now : Int)
  | cancel
  | stray (k : Nat)
deriving DecidableEq

def step : Label → World → World
  | .start op now, w => w.start op now
  | .replace, w => w.replace
  | .settle now, w => w.settle now
  | .cancel, w => w.cancel
  | .stray k, w => w.stray k

/-- After `load`: whatever the file held, and the snapshot written back if that was written. -/
def boot (rows : List Row) (written : Option Int) : World where
  records := load rows
  disk := match written with
    | none => ⟨rows, 0⟩
    | some now => snapshot now (load rows)

/-- `uuid4` never returns an id of an engagement there is or was. -/
def freshId (w : World) : Op → Bool
  | .create id .. => (w.records.get? id).isNone && w.edits.all (fun v => v.row.id ≠ id)
  | _ => true

inductive Moves : Label → World → World → Prop
  | stay (l : Label) (w : World) : Moves l w w
  | hold {w : World} {op : Op} {now : Int} {e : Edit} (free : w.holder = none)
      (edit : op.edit now (w.records.get? op.id) = .ok e) :
      Moves (.start op now) w (w.hold op now e)
  | replace {w : World} {c : Call} (held : w.holder = some c) (waiting : c.replaced = false) :
      Moves .replace w { w with disk := c.file, holder := some { c with replaced := true } }
  | undone {w : World} {c : Call} {now : Int} (held : w.holder = some c)
      (undoing : c.undoing = true) : Moves (.settle now) w { w with holder := none }
  | fail {w : World} {c : Call} {now : Int} (held : w.holder = some c)
      (undoing : c.undoing = false) (lost : c.replaced = false) : Moves (.settle now) w (w.fail c)
  | compensate {w : World} {c : Call} {now : Int} (held : w.holder = some c)
      (undoing : c.undoing = false) (landed : c.replaced = true)
      (shield : c.edit.shield = .compensating) : Moves (.settle now) w (w.compensate c now)
  | commit {w : World} {c : Call} {now : Int} (held : w.holder = some c)
      (undoing : c.undoing = false) (landed : c.replaced = true)
      (kept : ¬ (c.edit.shield = .compensating ∧ c.cancels ≠ 0)) :
      Moves (.settle now) w (w.commit c)
  | absorb {w : World} {c : Call} (held : w.holder = some c) :
      Moves .cancel w { w with holder := some { c with cancels := c.cancels + 1 } }
  | abandon {w : World} {c : Call} (held : w.holder = some c) (exposed : c.exposed = true) :
      Moves .cancel w (w.abandon c)
  | stray {w : World} {k : Nat} {file : File} (left : w.strays[k]? = some file) :
      Moves (.stray k) w { w with disk := file, strays := w.strays.eraseIdx k }

theorem moves_step (l : Label) (w : World) : Moves l w (step l w) := by
  cases l with
  | start op now =>
    simp only [step, World.start]
    split
    · exact .stay _ w
    · rename_i free
      split
      · exact .stay _ w
      · rename_i e edit
        exact .hold free edit
  | replace =>
    simp only [step, World.replace]
    split
    · exact .stay _ w
    · rename_i c held
      split
      · exact .stay _ w
      · rename_i waiting
        exact .replace held (Bool.eq_false_iff.mpr waiting)
  | settle now =>
    simp only [step, World.settle]
    split
    · exact .stay _ w
    rename_i c held
    split
    · rename_i undoing
      exact .undone held undoing
    rename_i undoing
    split
    · rename_i lost
      exact .fail held (Bool.eq_false_iff.mpr undoing) lost
    rename_i landed
    split
    · rename_i taken
      exact .compensate held (Bool.eq_false_iff.mpr undoing) (Bool.not_eq_false _ ▸ landed) taken.1
    · rename_i kept
      exact .commit held (Bool.eq_false_iff.mpr undoing) (Bool.not_eq_false _ ▸ landed) kept
  | cancel =>
    simp only [step, World.cancel]
    split
    · exact .stay _ w
    rename_i c held
    split
    · rename_i exposed
      exact .abandon held exposed
    · exact .absorb held
  | stray k =>
    simp only [step, World.stray]
    split
    · exact .stay _ w
    · rename_i file left
      exact .stray left

/-- What is true of every call that holds the lock: it found its record in the table it started
from, an insert found none, and memory is that table with the edit in it, or without it again
once a cancelled insert has been taken back. -/
structure Held (w : World) (c : Call) : Prop where
  mutates : Mutates c.id (c.before.get? c.id) c.edit
  inserts : c.edit.shield = .compensating → c.before.get? c.id = none
  undoes : c.undoing = true → c.edit.shield = .compensating
  memory : w.records = if c.undoing then c.before else c.before.put c.edit.next
  number : c.number < w.calls

theorem id_of_get? {t : Records} {id : String} {r : Record} (h : t.get? id = some r) :
    r.id = id := by
  have named := Table.key_of_get? h
  exact named

theorem put_put {t : Records} {r s : Record} (h : r.id = s.id) : (t.put r).put s = t.put s :=
  Table.put_put h

theorem next_id {c : Call} (mutates : Mutates c.id (c.before.get? c.id) c.edit) :
    c.edit.next.id = c.id := by
  generalize looked : c.before.get? c.id = found at mutates
  have named : ∀ r, found = some r → r.id = c.id := fun r some_ => id_of_get? (looked.trans some_)
  generalize c.edit = e at mutates
  cases mutates with
  | insert name => exact name
  | adjust later => exact later.id.trans (named _ rfl)
  | finish live ended later => exact later.id.trans (named _ rfl)
  | finishStrict live ended later => exact later.id.trans (named _ rfl)

theorem absent_of_fresh {w : World} {op : Op} (fresh : freshId w op = true)
    (insert : op.inserts = true) : w.records.get? op.id = none := by
  cases op with
  | create => exact Option.isNone_iff_eq_none.mp (Bool.and_eq_true_iff.mp fresh).1
  | _ => cases insert

theorem found_of_compensating {id : String} {found : Option Record} {e : Edit}
    (mutates : Mutates id found e) (shield : e.shield = .compensating) : found = none := by
  cases mutates with
  | insert => rfl
  | adjust later same permit back shielded => exact absurd shield shielded
  | finish => cases shield
  | finishStrict => cases shield

def Sane (w : World) : Prop := ∀ c, w.holder = some c → Held w c

theorem sane_free {w : World} (free : w.holder = none) : Sane w := fun c held => by
  rw [free] at held
  cases held

theorem Held.congr {w v : World} {c d : Call} (h : Held w c) (op : d.op = c.op)
    (edit : d.edit = c.edit) (before : d.before = c.before) (undoing : d.undoing = c.undoing)
    (number : d.number = c.number) (records : v.records = w.records) (calls : v.calls = w.calls) :
    Held v d := by
  obtain ⟨mutates, inserts, undoes, memory, bound⟩ := h
  have same : d.id = c.id := congrArg Op.id op
  exact ⟨by rw [same, before, edit]; exact mutates, by rw [same, before, edit]; exact inserts,
    by rw [undoing, edit]; exact undoes, by rw [records, undoing, before, edit]; exact memory,
    by rw [number, calls]; exact bound⟩

theorem return_eq (w : World) (c : Call) :
    ∃ trues, w.return_ c = { w with holder := none, trues } := by
  unfold World.return_
  split <;> exact ⟨_, rfl⟩

theorem fail_eq (w : World) (c : Call) :
    ∃ trues, w.fail c =
      { w with holder := none, records := World.assign c.id w.records c.edit.failed, trues } := by
  unfold World.fail
  simp only
  split
  · exact ⟨_, rfl⟩
  · exact return_eq _ c

theorem commit_eq (w : World) (c : Call) :
    ∃ trues, w.commit c = { w with
      holder := none, records := w.records.put c.edit.written, trues
      flips := if c.edit.pending then w.flips ++ [c.mark] else w.flips
      commits := if c.edit.strict ∧ c.cancels = 0 then w.commits ++ [c.version] else w.commits } :=
  return_eq _ c

theorem fail_holder (w : World) (c : Call) : (w.fail c).holder = none := by
  obtain ⟨trues, eq⟩ := fail_eq w c
  rw [eq]

theorem commit_holder (w : World) (c : Call) : (w.commit c).holder = none := by
  obtain ⟨trues, eq⟩ := commit_eq w c
  rw [eq]

theorem sane_step {l : Label} {w : World}
    (fresh : ∀ op now, l = .start op now → freshId w op = true) (sane : Sane w) :
    Sane (step l w) := by
  have moves := moves_step l w
  generalize step l w = v at moves
  cases moves with
  | stay => exact sane
  | @hold _ op now e free edit =>
    rintro c ⟨⟩
    have mutates : Mutates op.id (w.records.get? op.id) e :=
      Op.mutates (absent_of_fresh (fresh op now rfl)) edit
    exact ⟨mutates, found_of_compensating mutates, nofun, rfl, Nat.lt_succ_self _⟩
  | @replace _ c held waiting =>
    rintro d ⟨⟩
    exact (sane c held).congr rfl rfl rfl rfl rfl rfl rfl
  | undone held undoing => exact sane_free rfl
  | @fail _ c now held undoing lost =>
    exact sane_free (fail_holder w c)
  | @compensate _ c now held undoing landed shield =>
    rintro d ⟨⟩
    have h := sane c held
    refine ⟨h.mutates, h.inserts, fun _ => shield, ?_, h.number⟩
    have memory : w.records = c.before.put c.edit.next := by
      rw [h.memory, undoing]
      rfl
    have absent : c.before.get? c.edit.next.id = none := by
      rw [next_id h.mutates]
      exact h.inserts shield
    simp only [World.compensate, memory, ← next_id h.mutates, if_true]
    exact Table.remove_put absent
  | commit held undoing landed kept => exact sane_free (commit_holder _ _)
  | @absorb _ c held =>
    rintro d ⟨⟩
    exact (sane c held).congr rfl rfl rfl rfl rfl rfl rfl
  | abandon held exposed => exact sane_free rfl
  | stray left =>
    intro c held
    exact (sane c held).congr rfl rfl rfl rfl rfl rfl rfl

end Casa.EngagementRegistry
