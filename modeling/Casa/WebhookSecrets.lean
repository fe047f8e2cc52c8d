import Casa.FallibleTree

/-! The secret of one webhook trigger: the live one, the staged one, the state of a rotation and the
consent identity it is bound to, each a file of its own, and the functions of `webhook_auth` in the
file operations they perform. Secrets are numbered as they are minted, always well formed, and no
other process writes the files. An identity is a digest with the number of an approval, so that
`strip` changes nothing. Staging files that nobody reads back are left out. -/

namespace Casa.WebhookSecrets
open OperationTree FallibleTree

/-- `ack_identity` and the generation of the approval. -/
abbrev Identity := String

inductive Phase where
  | awaitingNext
  | staged
  | promote
deriving DecidableEq

inductive Owner where
  | casa
  | provider
deriving DecidableEq

inductive Slot where
  | live
  | next
deriving DecidableEq

inductive File where
  | slot (s : Slot)
  | state
  | ident
deriving DecidableEq

/-- The files, and the history of the secrets: the identity that the trigger was bound to when a
secret was minted, the activation that minted it, the number of secrets minted before the
activation in progress, and the secrets that an activation has left behind. -/
structure Store where
  live : Option ℕ
  next : Option ℕ
  state : Option Phase
  ident : Option Identity
  minted : ℕ
  boundAt : ℕ → Option Identity
  mintedBy : ℕ → Option Identity
  mark : ℕ
  dead : ℕ → Bool

def Store.empty : Store where
  live := none
  next := none
  state := none
  ident := none
  minted := 0
  boundAt _ := none
  mintedBy _ := none
  mark := 0
  dead _ := false

namespace Store
variable (s : Store)

def get : Slot → Option ℕ
  | .live => s.live
  | .next => s.next

def put (slot : Slot) (v : Option ℕ) : Store :=
  match slot with
  | .live => { s with live := v }
  | .next => { s with next := v }

def remove : File → Store
  | .slot slot => s.put slot none
  | .state => { s with state := none }
  | .ident => { s with ident := none }

/-- Minted while the trigger was bound to another identity, and not by an activation of this
one. -/
def foreign (b : Identity) (v : ℕ) : Bool :=
  (s.boundAt v).any (fun a => decide (a ≠ b)) && decide (s.mintedBy v ≠ some b)

def publish (slot : Slot) (activation : Option Identity) : Store :=
  let t : Store :=
    { s with
      minted := s.minted + 1
      boundAt := Function.update s.boundAt s.minted s.ident
      mintedBy := Function.update s.mintedBy s.minted activation }
  match s.get slot with
  | none => t.put slot (some s.minted)
  | some _ => t

def activated (b : Identity) : Store :=
  { s with dead := fun v => s.dead v || (decide (v < s.mark) && s.foreign b v) }

end Store

inductive FileOp where
  /-- `ensure_secret_for_identity` begins. -/
  | enter
  /-- `_read_final`. -/
  | read (slot : Slot)
  | readIdent
  /-- `_read_state`. -/
  | readState
  | exists_ (slot : Slot)
  | unlink (file : File)
  | fsync
  /-- `_publish`, up to the link; for an activation, or for none. -/
  | publish (slot : Slot) (activation : Option Identity)
  /-- The rename of `_write_ident`. -/
  | bind (identity : Identity)
  /-- The rename of `_write_state`. -/
  | setState (phase : Phase)
  /-- The rename of the staged secret. -/
  | rename
  /-- `ensure_secret_for_identity` returns a secret. -/
  | activated (identity : Identity)
deriving DecidableEq

abbrev FileOp.Answer : FileOp → Type
  | read _ => Option ℕ
  | readIdent => Option Identity
  | readState => Option Phase
  | exists_ _ => Bool
  | _ => PUnit

/-- Every exception is an `OSError`. -/
abbrev fileSig : Signature := fallible FileOp PUnit FileOp.Answer

/-- The operations; the input says whether an unlink, a write or an `fsync` fails. -/
def perform : Device fileSig Bool Store
  | .enter, _, s => (.ok ⟨⟩, { s with mark := s.minted })
  | .read slot, _, s => (.ok (s.get slot), s)
  | .readIdent, _, s => (.ok s.ident, s)
  | .readState, _, s => (.ok s.state, s)
  | .exists_ slot, _, s => (.ok (s.get slot).isSome, s)
  | .unlink _, true, s => (.error ⟨⟩, s)
  | .unlink file, false, s => (.ok ⟨⟩, s.remove file)
  | .fsync, fails, s => (if fails then .error ⟨⟩ else .ok ⟨⟩, s)
  | .publish _ _, true, s => (.error ⟨⟩, s)
  | .publish slot activation, false, s => (.ok ⟨⟩, s.publish slot activation)
  | .bind _, true, s => (.error ⟨⟩, s)
  | .bind identity, false, s => (.ok ⟨⟩, { s with ident := some identity })
  | .setState _, true, s => (.error ⟨⟩, s)
  | .setState phase, false, s => (.ok ⟨⟩, { s with state := some phase })
  | .rename, true, s => (.error ⟨⟩, s)
  | .rename, false, s =>
    match s.next with
    | none => (.error ⟨⟩, s)
    | some v => (.ok ⟨⟩, { s with live := some v, next := none })
  | .activated identity, _, s => (.ok ⟨⟩, s.activated identity)

abbrev FileScript := Script fileSig PUnit

section Scripts

def call (op : FileOp) : FileScript op.Answer := Script.ask op

def read (slot : Slot) : FileScript (Option ℕ) := call (.read slot)
def readIdent : FileScript (Option Identity) := call .readIdent
def readState : FileScript (Option Phase) := call .readState
def exists_ (slot : Slot) : FileScript Bool := call (.exists_ slot)
def fsync : FileScript PUnit := call .fsync
def publish (slot : Slot) (activation : Option Identity) : FileScript PUnit := do
  call (.publish slot activation)
  fsync

/-- `except OSError: pass`. -/
def tolerant (p : FileScript PUnit) : FileScript PUnit := p.rescue fun _ => pure ⟨⟩

def unlink (file : File) : FileScript PUnit := tolerant (call (.unlink file))

def retireSecret : FileScript PUnit := do
  unlink (.slot .live)
  unlink (.slot .next)
  unlink .state
  unlink .ident
  tolerant fsync

/-- `ensure_secret`, for a secret of Casa; an activation says which it is. -/
def ensureSecret (activation : Option Identity) : FileScript (Option ℕ) := do
  match ← read .live with
  | some v => pure (some v)
  | none =>
    publish .live activation
    read .live

def writeIdent (identity : Identity) : FileScript Bool :=
  Script.rescue
    (do
      call (.bind identity)
      fsync
      pure true)
    fun _ => pure false

def secretBoundToIdentity (identity : Identity) : FileScript Bool := do
  match ← read .live with
  | none => pure false
  | some _ =>
    let bound ← readIdent
    pure (decide (bound = some identity))

def rekey (identity : Identity) : FileScript (Option ℕ) := do
  match ← ensureSecret (some identity) with
  | none => pure none
  | some v =>
    let bound ← writeIdent identity
    if bound then do
      call (.activated identity)
      pure (some v)
    else do
      retireSecret
      pure none

def ensureSecretForIdentity (identity : Identity) : FileScript (Option ℕ) := do
  call .enter
  match ← read .live with
  | none => rekey identity
  | some v =>
    let bound ← readIdent
    if bound = some identity then do
      call (.activated identity)
      pure (some v)
    else do
      retireSecret
      match ← read .live with
      | some _ => pure none
      | none => rekey identity

def writeState (phase : Phase) : FileScript PUnit := do
  call (.setState phase)
  fsync

def clearState : FileScript PUnit := do
  unlink .state
  fsync

def rotationBegin (owner : Owner) : FileScript Phase :=
  match owner with
  | .casa => do
    match ← read .next with
    | some _ => pure ⟨⟩
    | none => publish .next none
    writeState .staged
    pure .staged
  | .provider => do
    writeState .awaitingNext
    pure .awaitingNext

def rotationPromote : FileScript PUnit := do
  let _ ← readState
  writeState .promote
  call .rename
  fsync
  clearState

def rotationRecover : FileScript (Option Phase) := do
  match ← readState with
  | none => pure none
  | some .awaitingNext => pure (some .awaitingNext)
  | some .staged =>
    match ← read .next with
    | some _ => pure (some .staged)
    | none =>
      clearState
      pure none
  | some .promote =>
    let there ← exists_ .next
    if there then do
      call .rename
      fsync
      clearState
      pure none
    else do
      clearState
      pure none

end Scripts

inductive Task where
  | activate (identity : Identity)
  | bound (identity : Identity)
  | retire
  | ensure
  | begin_ (owner : Owner)
  | promote
  | recover
deriving DecidableEq

def Task.script : Task → FileScript PUnit
  | activate identity => do
    let _ ← ensureSecretForIdentity identity
    pure ⟨⟩
  | bound identity => do
    let _ ← secretBoundToIdentity identity
    pure ⟨⟩
  | retire => retireSecret
  | ensure => do
    let _ ← ensureSecret none
    pure ⟨⟩
  | begin_ owner => do
    let _ ← rotationBegin owner
    pure ⟨⟩
  | promote => rotationPromote
  | recover => do
    let _ ← rotationRecover
    pure ⟨⟩

def process : Host fileSig Bool Store PEmpty Task where
  run := perform
  env := fun e => e.elim
  program := fun task => Prog.bind task.script fun _ => Prog.done ⟨⟩
  crash := id

end Casa.WebhookSecrets
