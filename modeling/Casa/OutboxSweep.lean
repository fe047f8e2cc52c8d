import Casa.OperationTree

/-! The outbox that plugins publish media in: the sweep, the claims and the producers, in single
file operations. A producer writes a temporary file, which is not told of, and renames it over a
name; the file system gives it any inode number. The lock serializes what Casa does, not what
producers do. Only regular files are published, `.reap` holds what sweeps have put there, and no
operation fails but for the state of the files. -/

namespace Casa.OutboxSweep
open OperationTree

/-- `<epoch_ms>-<uuid4>`. -/
structure ClaimName where
  epochMs : ℕ
  uuid : ℕ
deriving DecidableEq

/-- A publication: the file that a producer renamed over a name. -/
structure File where
  serial : ℕ
  name : String
  ino : ℕ
  mtimeMs : ℕ
  publishedMs : ℕ
deriving DecidableEq

structure Stat where
  ino : ℕ
  mtimeMs : ℕ
deriving DecidableEq

def File.stat (f : File) : Stat := ⟨f.ino, f.mtimeMs⟩

/-- A name in the outbox or in `.claims`. -/
inductive Place where
  | root (name : String)
  | claims (claimName : ClaimName)
deriving DecidableEq

inductive Origin where
  | root
  | claims
deriving DecidableEq

def Place.origin : Place → Origin
  | root _ => .root
  | claims _ => .claims

def claimsSubdir : String := ".claims"
def reapSubdir : String := ".reap"
def maxAgeMs : ℕ := 2 * 3600 * 1000

def safeBasename (name : String) : Bool :=
  !(name == "" || name == "." || name == "..") &&
    name.toList.all fun c => c ≠ '/' && 0x20 ≤ c.toNat

/-- `_safe_basename` of the name an entry of `.reap` has kept; claim names are safe. -/
def Place.safe : Place → Bool
  | root name => safeBasename name
  | claims _ => true

def Place.ageRef (st : Stat) : Place → ℕ
  | root _ => st.mtimeMs
  | claims claimName => claimName.epochMs

/-- `now_ms - age_ref > cutoff_ms`. -/
def expired (nowMs ageRef : ℕ) : Bool := decide (maxAgeMs < nowMs - ageRef)

/-- The files, the directories of `.reap` with the entry each holds, and whether `.reap` has been
renamed to a claim or removed as one. The rest is history: what has been published, which files
went with their claims, the time of the sweep under way and the latest of all, and the file that
the sweep last looked at. -/
structure Disk where
  files : Place → Option File
  dirs : List ℕ
  held : ℕ → Option (Place × File)
  reapClaim : Option ClaimName
  reapGone : Bool
  uuid : ℕ
  published : List File
  removed : ℕ → Bool
  nowMs : ℕ
  dueMs : ℕ
  looked : Option File

def Disk.empty : Disk where
  files _ := none
  dirs := []
  held _ := none
  reapClaim := none
  reapGone := false
  uuid := 0
  published := []
  removed _ := false
  nowMs := 0
  dueMs := 0
  looked := none

structure Publication where
  name : String
  ino : ℕ
  mtimeMs : ℕ
  publishedMs : ℕ
deriving DecidableEq

def Publication.file (p : Publication) (serial : ℕ) : File :=
  ⟨serial, p.name, p.ino, p.mtimeMs, p.publishedMs⟩

namespace Disk
variable (s : Disk)

def put (k : Place) (f : Option File) : Disk := { s with files := Function.update s.files k f }

def hold (d : ℕ) (e : Option (Place × File)) : Disk :=
  { s with held := Function.update s.held d e }

def publish (p : Publication) : Disk :=
  if p.name = claimsSubdir ∨ p.name = reapSubdir then s
  else
    { s.put (.root p.name) (some (p.file s.published.length)) with
      published := s.published ++ [p.file s.published.length] }

def mkdir : Disk := { s with dirs := s.dirs ++ [s.uuid], uuid := s.uuid + 1 }

def renameIn (d : ℕ) (k : Place) : Disk :=
  match s.files k with
  | none => s
  | some f => (s.put k none).hold d (some (k, f))

/-- `os.link` replaces nothing. -/
def link (d : ℕ) : Disk :=
  match s.held d with
  | none => s
  | some (k, f) =>
    match s.files k with
    | none => s.put k (some f)
    | some _ => s

def rmdir (d : ℕ) : Disk :=
  match s.held d with
  | none => { s with dirs := s.dirs.erase d }
  | some _ => s

/-- The rename of a claim; `.reap` can be claimed as well. -/
def claim (name : String) (epochMs : ℕ) : Disk :=
  let t : Disk := { s with uuid := s.uuid + 1 }
  if name = reapSubdir ∧ s.reapClaim = none ∧ s.reapGone = false then
    { t with reapClaim := some ⟨epochMs, s.uuid⟩ }
  else
    match s.files (.root name) with
    | none => t
    | some f => (t.put (.root name) none).put (.claims ⟨epochMs, s.uuid⟩) (some f)

def removeClaim (claimName : ClaimName) : Disk :=
  if s.reapClaim = some claimName then
    { s with dirs := [], held := fun _ => none, reapClaim := none, reapGone := true }
  else
    match s.files (.claims claimName) with
    | none => s
    | some f =>
      { s.put (.claims claimName) none with removed := Function.update s.removed f.serial true }

/-- A new process makes a new `.reap` where there is none. -/
def restart : Disk :=
  if s.reapClaim = none ∧ s.reapGone = false then s
  else { s with dirs := [], held := fun _ => none, reapClaim := none, reapGone := false }

/-- Under its name, in `.claims`, or in `.reap`. -/
def Reachable (f : File) : Prop :=
  s.files (.root f.name) = some f ∨ (∃ claimName, s.files (.claims claimName) = some f) ∨
    ∃ d ∈ s.dirs, ∃ k, s.held d = some (k, f)

def Superseded (f : File) : Prop :=
  ∃ g ∈ s.published, g.name = f.name ∧ f.serial < g.serial

end Disk

inductive FileOp where
  /-- A sweep begins. -/
  | begin_ (nowMs : ℕ)
  | listReap
  | list (origin : Origin)
  | lstat (k : Place)
  /-- `lstat` of a claim that is to be removed. -/
  | exists_ (claimName : ClaimName)
  /-- A fresh directory in `.reap`, open. -/
  | mkdir
  | renameIn (d : ℕ) (k : Place)
  /-- `lstat` of the entry that the sweep has made its own. -/
  | current (d : ℕ)
  | lstatHeld (d : ℕ)
  | listHeld (d : ℕ)
  | link (d : ℕ)
  | unlinkHeld (d : ℕ)
  | rmdir (d : ℕ)
  | claim (name : String) (epochMs : ℕ)
  | unlinkClaim (claimName : ClaimName)
deriving DecidableEq

abbrev FileOp.Answer : FileOp → Type
  | listReap => List ℕ
  | list _ => List Place
  | lstat _ | current _ | lstatHeld _ => Option Stat
  | exists_ _ | renameIn _ _ => Bool
  | mkdir => Option ℕ
  | listHeld _ => Option Place
  | _ => PUnit

def fileSig : Signature where
  Op := FileOp
  Answer := FileOp.Answer

/-- The operations. The input is an order of names: a directory that producers write is listed
while it changes. -/
def perform : Device fileSig (List Place) Disk
  | .begin_ nowMs, _, s => (⟨⟩, { s with nowMs := nowMs, dueMs := max s.dueMs nowMs })
  | .listReap, _, s => (s.dirs, s)
  | .list origin, names, s =>
    (names.filter fun k => decide (k.origin = origin) && (s.files k).isSome, s)
  | .lstat k, _, s => ((s.files k).map File.stat, { s with looked := s.files k })
  | .exists_ claimName, _, s =>
    ((s.files (.claims claimName)).isSome || decide (s.reapClaim = some claimName), s)
  | .mkdir, _, s => if s.reapGone then (none, s) else (some s.uuid, s.mkdir)
  | .renameIn d k, _, s => ((s.files k).isSome, s.renameIn d k)
  | .current d, _, s => ((s.held d).map fun e => e.2.stat, s)
  | .lstatHeld d, _, s => ((s.held d).map fun e => e.2.stat, s)
  | .listHeld d, _, s => ((s.held d).map Prod.fst, s)
  | .link d, _, s => (⟨⟩, s.link d)
  | .unlinkHeld d, _, s => (⟨⟩, s.hold d none)
  | .rmdir d, _, s => (⟨⟩, s.rmdir d)
  | .claim name epochMs, _, s => (⟨⟩, s.claim name epochMs)
  | .unlinkClaim claimName, _, s => (⟨⟩, s.removeClaim claimName)

abbrev FileScript := Prog fileSig

section Scripts

def call (op : FileOp) : FileScript op.Answer := @Prog.ask fileSig op

def restoreEntry (d : ℕ) : FileScript PUnit := do
  match ← call (.lstatHeld d) with
  | none => pure ⟨⟩
  | some _ =>
    -- linked, or superseded: either way the held entry goes
    call (.link d)
    call (.unlinkHeld d)

/-- The loop over what a directory of `.reap` holds, an entry at most. -/
def recoverEntry (d : ℕ) : Option Place → FileScript PUnit
  | none => pure ⟨⟩
  | some k => if k.safe then restoreEntry d else call (.unlinkHeld d)

def recoverReapDir (d : ℕ) : FileScript PUnit := do
  let entry ← call (.listHeld d)
  recoverEntry d entry
  call (.rmdir d)

def settle (d : ℕ) (st : Stat) : FileScript ℕ := do
  match ← call (.current d) with
  | none => pure 0
  | some current =>
    if current.ino ≠ st.ino then do
      restoreEntry d
      pure 0
    else do
      call (.unlinkHeld d)
      pure 1

def settleMoved (d : ℕ) (st : Stat) : Bool → FileScript ℕ
  | true => settle d st
  | false => pure 0

def reap (k : Place) (st : Stat) : FileScript ℕ := do
  match ← call .mkdir with
  | none => pure 0
  | some d =>
    let moved ← call (.renameIn d k)
    let reaped ← settleMoved d st moved
    call (.rmdir d)
    pure reaped

def expire (nowMs : ℕ) (k : Place) : FileScript ℕ := do
  match ← call (.lstat k) with
  | none => pure 0
  | some st => if expired nowMs (k.ageRef st) then reap k st else pure 0

def sweepOnce (nowMs : ℕ) : FileScript ℕ := do
  call (.begin_ nowMs)
  let dirs ← call .listReap
  let _ ← Prog.forEach recoverReapDir dirs
  let names ← call (.list .root)
  let reaped ← Prog.forEach (expire nowMs) names
  let claimNames ← call (.list .claims)
  let more ← Prog.forEach (expire nowMs) claimNames
  pure ((reaped ++ more).foldl (· + ·) 0)

/-- The claim of a path directly under the outbox; the claim name was made before the lock was
taken. -/
def claim (name : String) (epochMs : ℕ) : FileScript PUnit :=
  if safeBasename name then call (.claim name epochMs) else pure ⟨⟩

def removeClaim (claimName : ClaimName) : FileScript PUnit := do
  if ← call (.exists_ claimName) then call (.unlinkClaim claimName) else pure ⟨⟩

end Scripts

inductive Task where
  | sweep (nowMs : ℕ)
  | claim (name : String) (epochMs : ℕ)
  | removeClaim (claimName : ClaimName)
deriving DecidableEq

def Task.script : Task → FileScript PUnit
  | sweep nowMs => do
    let _ ← sweepOnce nowMs
    pure ⟨⟩
  | claim name epochMs => OutboxSweep.claim name epochMs
  | removeClaim claimName => OutboxSweep.removeClaim claimName

def process : Host fileSig (List Place) Disk Publication Task where
  run := perform
  env := fun p s => s.publish p
  program := Task.script
  crash := Disk.restart

end Casa.OutboxSweep
