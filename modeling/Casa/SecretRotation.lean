import Casa.FallibleTree

/-! The rotation of one webhook secret: the live secret, the staged `.next` and the state file, as
bytes that may or may not be valid for the owner, and the four rotation functions in the file
operations they perform. Nothing fails but a rename of what is not there and what the code raises
itself; a call may die between any two operations. Files are regular, and staging files that nobody
reads back are left out. -/

namespace Casa.SecretRotation
open OperationTree FallibleTree

abbrev Bytes := List UInt8

inductive Owner where
  | casa
  | provider
deriving DecidableEq

inductive Phase where
  | awaitingNext
  | staged
  | promote
deriving DecidableEq

def casaTokenLen : ℕ := 43
def providerMax : ℕ := 4096

def validValue : Owner → Bytes → Bool
  | .casa, raw => raw.length = casaTokenLen && raw.all fun b => b < 0x80
  | .provider, raw =>
    !raw.isEmpty && raw.length ≤ providerMax && raw.all fun b => 0x20 ≤ b && b < 0x7f

/-- `_read_final` of a file that holds these bytes, or of none. -/
def readFinal (owner : Owner) (file : Option Bytes) : Option Bytes :=
  file.bind fun raw =>
    if validValue owner (raw.take (providerMax + 1)) then some (raw.take (providerMax + 1)) else none

/-- `secrets.token_urlsafe`. -/
structure Token where
  raw : Bytes
  valid : validValue .casa raw = true

/-- The state file; `secret_owner` may be missing, and any owner but Casa counts as a provider. -/
inductive StateFile where
  | malformed
  | record (phase : Phase) (owner : Option Owner)
deriving DecidableEq

inductive Failure where
  | invalidSecretValue
  | secretConflict
  | fileNotFound
deriving DecidableEq

inductive Task where
  | begin_
  | importNext (value : Bytes)
  | promote
  | recover
deriving DecidableEq

/-- The files, and what they were when the call under way began. -/
structure Store where
  live : Option Bytes
  next : Option Bytes
  state : Option StateFile
  before : Option Bytes × Option Bytes × Option Phase

def Store.phase (s : Store) : Option Phase :=
  match s.state with
  | some (.record phase _) => some phase
  | _ => none

def Store.kept (s : Store) : Option Bytes × Option Bytes × Option Phase := (s.live, s.next, s.phase)

inductive FileOp where
  /-- A call begins. -/
  | enter
  | readNext
  | readState
  | unlinkState
  /-- `_publish` of a fresh token, up to the link. -/
  | mintNext
  | publishNext (value : Bytes)
  /-- The rename of `_write_state`. -/
  | setState (phase : Phase) (owner : Owner)
  | existsNext
  /-- `.next` over the live secret. -/
  | rename
  | fsync
  /-- The call has returned a phase, or raised. -/
  | ended (task : Task) (result : Except Failure (Option Phase))

abbrev FileOp.Answer : FileOp → Type
  | readNext => Option Bytes
  | readState => Option StateFile
  | existsNext => Bool
  | _ => PUnit

abbrev fileSig : Signature := fallible FileOp Failure FileOp.Answer

def Store.publish (s : Store) (value : Bytes) : Store :=
  match s.next with
  | none => { s with next := some value }
  | some _ => s

def perform : Device fileSig Token Store
  | .enter, _, s => (.ok ⟨⟩, { s with before := s.kept })
  | .readNext, _, s => (.ok s.next, s)
  | .readState, _, s => (.ok s.state, s)
  | .unlinkState, _, s => (.ok ⟨⟩, { s with state := none })
  | .mintNext, token, s => (.ok ⟨⟩, s.publish token.raw)
  | .publishNext value, _, s => (.ok ⟨⟩, s.publish value)
  | .setState phase owner, _, s => (.ok ⟨⟩, { s with state := some (.record phase (some owner)) })
  | .existsNext, _, s => (.ok s.next.isSome, s)
  | .rename, _, s =>
    match s.next with
    | none => (.error .fileNotFound, s)
    | some value => (.ok ⟨⟩, { s with live := some value, next := none })
  | .fsync, _, s => (.ok ⟨⟩, s)
  | .ended _ _, _, s => (.ok ⟨⟩, s)

abbrev FileScript := Script fileSig Failure

section Scripts

def call (op : FileOp) : FileScript op.Answer := Script.ask op

def readState : FileScript (Option (Phase × Option Owner)) := do
  match ← call .readState with
  | none => pure none
  | some (.record phase owner) => pure (some (phase, owner))
  | some .malformed =>
    call .unlinkState
    pure none

def writeState (phase : Phase) (owner : Owner) : FileScript PUnit := do
  call (.setState phase owner)
  call .fsync

def clearState : FileScript PUnit := do
  call .unlinkState
  call .fsync

def rotationBegin : Owner → FileScript (Option Phase)
  | .casa => do
    match readFinal .casa (← call .readNext) with
    | none =>
      call .mintNext
      call .fsync
      writeState .staged .casa
      pure (some .staged)
    | some _ =>
      writeState .staged .casa
      pure (some .staged)
  | .provider => do
    writeState .awaitingNext .provider
    pure (some .awaitingNext)

def rotationImportNext (value : Bytes) (owner : Owner) : FileScript (Option Phase) :=
  if validValue owner value then do
    match readFinal owner (← call .readNext) with
    | some existing =>
      if existing = value then do
        writeState .staged owner
        pure (some .staged)
      else Script.raise .secretConflict
    | none =>
      call (.publishNext value)
      call .fsync
      writeState .staged owner
      pure (some .staged)
  else Script.raise .invalidSecretValue

def rotationPromote : FileScript (Option Phase) := do
  let st ← readState
  writeState .promote ((st.bind Prod.snd).getD .casa)
  call .rename
  call .fsync
  clearState
  pure none

def rotationRecover (owner : Owner) : FileScript (Option Phase) := do
  match ← readState with
  | none => pure none
  | some (.awaitingNext, _) => pure (some .awaitingNext)
  | some (.staged, stOwner) =>
    match readFinal (stOwner.getD owner) (← call .readNext) with
    | some _ => pure (some .staged)
    | none =>
      clearState
      pure none
  | some (.promote, _) =>
    if ← call .existsNext then do
      call .rename
      call .fsync
      clearState
      pure none
    else do
      clearState
      pure none

end Scripts

def Task.script (owner : Owner) : Task → FileScript (Option Phase)
  | begin_ => rotationBegin owner
  | importNext value => rotationImportNext value owner
  | promote => rotationPromote
  | recover => rotationRecover owner

def Task.body (owner : Owner) (task : Task) : FileScript (Option Phase) := do
  call .enter
  task.script owner

def Task.program (owner : Owner) (task : Task) : Prog fileSig PUnit :=
  Prog.bind (task.body owner) fun result =>
    Prog.call (S := fileSig) (.ended task result) fun _ => Prog.done ⟨⟩

def process (owner : Owner) : Host fileSig Token Store PEmpty Task where
  run := perform
  env := fun e => e.elim
  program := Task.program owner
  crash := id

end Casa.SecretRotation
