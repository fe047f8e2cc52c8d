import Casa.FallibleTree
import Mathlib.Data.List.Sort

/-! The active, desired and prior tuple of one agent instance: the files of its directory, the
file operations the code performs on them, and `stage_desired`, `commit_desired_to_active`,
`discard_desired` and `reconcile_resident_binding` written in these operations. A temporary file
that nobody reads back is left out, so an atomic write is its preparation and its rename; the
copy of the old active tuple is kept, since a later commit looks at it. -/

namespace Casa.InstanceDir
open OperationTree FallibleTree

inductive Mode where
  | imageDefault
  | componentDefault
  | override_
deriving DecidableEq

inductive Fault where
  | value
  | os
  | yaml
  | schema
  | other
deriving DecidableEq

structure DigestInputs where
  stableAgentId : String
  roleChecksum : String
  personaId : String
  personaVersion : String
  personaChecksum : String
  compilerSchemaVersion : String
  dependencyDigests : List String
  effectiveConfigDigest : String
deriving DecidableEq

structure BindingRecord extends DigestInputs where
  mode : Mode
  bindingDigest : String
  imageDefaultRoot : Option String := none
  componentRoot : Option String := none
  overrideSource : Option String := none
deriving DecidableEq

structure InstanceTuple where
  root : Option String
  binding : BindingRecord
  configSnapshot : List (String × String)
  configDigest : String
deriving DecidableEq

/-- The digest function, the two constants of the image, and its two schemas. -/
structure Image where
  checksumJson : DigestInputs → String
  rendererVersion : String
  emptyConfigDigest : String
  tupleSchema : InstanceTuple → Bool
  bindingSchema : BindingRecord → Bool

structure RoleSlot where
  roleId : String
  slot : String
  checksum : String
  resident : Bool
deriving DecidableEq

structure PersonaPack where
  personaId : String
  version : String
  checksum : String
deriving DecidableEq

namespace Image
variable (image : Image)

def computeBindingDigest (inputs : DigestInputs) : String :=
  image.checksumJson
    { inputs with dependencyDigests := inputs.dependencyDigests.insertionSort (· ≤ ·) }

/-- `_build`, for the bindings of residents. -/
def build (role : RoleSlot) (persona : PersonaPack) (mode : Mode)
    (imageDefaultRoot overrideSource : Option String) : BindingRecord :=
  let inputs : DigestInputs := {
    stableAgentId := role.roleId
    roleChecksum := role.checksum
    personaId := persona.personaId
    personaVersion := persona.version
    personaChecksum := persona.checksum
    compilerSchemaVersion := image.rendererVersion
    dependencyDigests := []
    effectiveConfigDigest := image.emptyConfigDigest }
  { toDigestInputs := inputs, mode, bindingDigest := image.computeBindingDigest inputs,
    imageDefaultRoot, overrideSource }

def materializeImageDefaultBinding (role : RoleSlot) (persona : PersonaPack) (root : String) :
    Except Fault BindingRecord :=
  if role.resident then .ok (image.build role persona .imageDefault (some root) none)
  else .error .value

def materializeOverrideBinding (role : RoleSlot) (persona : PersonaPack)
    (source : Option String) : Except Fault BindingRecord :=
  if role.resident then .ok (image.build role persona .override_ none source) else .error .value

def verifyBindingRecord (binding : BindingRecord) : Except Fault PUnit :=
  if image.bindingSchema binding = false then .error .value
  else if binding.bindingDigest = image.computeBindingDigest binding.toDigestInputs then .ok ⟨⟩
  else .error .value

/-- What `load_instance_tuple` makes of a document. -/
def verifyInstanceTuple (t : InstanceTuple) : Except Fault InstanceTuple := do
  if image.tupleSchema t = false then throw .schema
  image.verifyBindingRecord t.binding
  if t.configDigest = t.binding.effectiveConfigDigest then pure t else throw .value

end Image

theorem verifyInstanceTuple_eq {image : Image} {t u : InstanceTuple} (h : image.verifyInstanceTuple t = .ok u) :
    u = t := by
  unfold Image.verifyInstanceTuple at h
  by_cases schema : image.tupleSchema t = false
  · rw [if_pos schema] at h
    cases h
  · rw [if_neg schema] at h
    cases verified : image.verifyBindingRecord t.binding with
    | error e =>
      rw [verified] at h
      cases h
    | ok verified_ =>
      rw [verified] at h
      by_cases same : t.configDigest = t.binding.effectiveConfigDigest
      · rw [if_pos same] at h
        cases h
        rfl
      · rw [if_neg same] at h
        cases h

/-- A document, or bytes that raise when they are read as one. -/
inductive Content where
  | garbage (e : Fault)
  | tuple (t : InstanceTuple)
deriving DecidableEq

/-- The files of the directory; `pending` is `active.yaml.rollback-tmp`. The rest is history:
the tuple that the last change of the active one replaced, whether the rename that hands it to
`active.prior.yaml` is due, and whether a fault has struck there. -/
structure Dir where
  active : Option Content
  desired : Option Content
  prior : Option Content
  pending : Option Content
  before : Option InstanceTuple := none
  due : Bool := false
  torn : Bool := false
deriving DecidableEq

inductive File where
  | active
  | desired
  | pending
deriving DecidableEq

def Dir.get (s : Dir) : File → Option Content
  | .active => s.active
  | .desired => s.desired
  | .pending => s.pending

inductive FileOp where
  /-- `Path.exists`. -/
  | exists_ (f : File)
  /-- `load_instance_tuple`. -/
  | load (f : File)
  /-- Work on no file of the directory: a read, a `mkdir`, a temporary, a `chmod`, the error
  file. -/
  | aside
  | installDesired (t : InstanceTuple)
  | installActive (t : InstanceTuple)
  | truncatePending
  | fillPending
  /-- `os.replace(pending, prior)`. -/
  | rotate
  | unlinkDesired
  | unlinkPending
deriving DecidableEq

abbrev FileOp.Answer : FileOp → Type
  | exists_ _ => Bool
  | load _ => Option InstanceTuple
  | _ => PUnit

abbrev fileSig : Signature := fallible FileOp Fault FileOp.Answer

def Dir.installActive (s : Dir) (t : InstanceTuple) : Dir :=
  match s.active with
  | some (.tuple b) => { s with active := some (.tuple t), before := some b, due := true }
  | _ => { s with active := some (.tuple t) }

def Dir.rotate (s : Dir) : Dir := { s with prior := s.pending, pending := none, due := false }

def Dir.tear (s : Dir) : Dir := { s with torn := s.torn || s.due, due := false }

/-- The operations; an input is the fault that strikes, if one does. A write that is cut short
has truncated the copy already, the other operations fail without effect. -/
def perform (image : Image) : Device fileSig (Option Fault) Dir
  | .rotate, some e, s => (.error e, s.tear)
  | .exists_ _, some e, s => (.error e, s)
  | .load _, some e, s => (.error e, s)
  | .aside, some e, s => (.error e, s)
  | .installDesired _, some e, s => (.error e, s)
  | .installActive _, some e, s => (.error e, s)
  | .truncatePending, some e, s => (.error e, s)
  | .fillPending, some e, s => (.error e, s)
  | .unlinkDesired, some e, s => (.error e, s)
  | .unlinkPending, some e, s => (.error e, s)
  | .exists_ f, none, s => (.ok (s.get f).isSome, s)
  | .load f, none, s =>
    match s.get f with
    | none => (.ok none, s)
    | some (.garbage e) => (.error e, s)
    | some (.tuple t) => ((image.verifyInstanceTuple t).map some, s)
  | .aside, none, s => (.ok ⟨⟩, s)
  | .installDesired t, none, s => (.ok ⟨⟩, { s with desired := some (.tuple t) })
  | .installActive t, none, s => (.ok ⟨⟩, s.installActive t)
  | .truncatePending, none, s => (.ok ⟨⟩, { s with pending := some (.garbage .value) })
  | .fillPending, none, s => (.ok ⟨⟩, { s with pending := s.active })
  | .rotate, none, s => (.ok ⟨⟩, s.rotate)
  | .unlinkDesired, none, s => (.ok ⟨⟩, { s with desired := none })
  | .unlinkPending, none, s => (.ok ⟨⟩, { s with pending := none })

abbrev DirScript := Script fileSig Fault

section Scripts

def call (op : FileOp) : DirScript op.Answer := Script.ask op

def exists_ (f : File) : DirScript Bool := call (.exists_ f)
def load (f : File) : DirScript (Option InstanceTuple) := call (.load f)
def aside : DirScript PUnit := call .aside
def rotate : DirScript PUnit := call .rotate
def unlinkDesired : DirScript PUnit := call .unlinkDesired
def unlinkPending : DirScript PUnit := call .unlinkPending

def when_ (c : Bool) (p : DirScript PUnit) : DirScript PUnit := if c then p else pure ⟨⟩

/-- `except OSError`, with a warning. -/
def tolerant (p : DirScript PUnit) : DirScript PUnit :=
  p.rescue fun e => if e = .os then pure ⟨⟩ else Script.raise e

/-- `atomic_write_instance_tuple` up to the rename. -/
def prepare : DirScript PUnit := do
  aside
  aside
  aside

def stageDesired (t : InstanceTuple) : DirScript PUnit := do
  prepare
  call (.installDesired t)

def copyToTemp : DirScript PUnit := do
  aside
  call .truncatePending
  call .fillPending
  aside

def writeActive (t : InstanceTuple) : DirScript PUnit := do
  prepare
  call (.installActive t)

/-- The crash-retry branch: a copy that is not the active tuple is a rotation that was cut
short. -/
def finishRotation (candidate : InstanceTuple) : DirScript PUnit := do
  let there ← exists_ .pending
  when_ there do
    let pending ← (load .pending).rescue fun e =>
      if e = .other then Script.raise e else pure none
    if pending.isSome && pending ≠ some candidate then rotate else unlinkPending
  unlinkDesired

/-- The rotation of a new candidate into `active.yaml`. -/
def replaceActive (candidate : InstanceTuple) : DirScript PUnit := do
  let there ← exists_ .active
  when_ there copyToTemp
  (writeActive candidate).rescue fun e => do
    when_ there unlinkPending
    Script.raise e
  when_ there (tolerant rotate)
  tolerant unlinkDesired

def promote (current : Option InstanceTuple) (candidate : InstanceTuple) : DirScript PUnit :=
  if current = some candidate then tolerant (finishRotation candidate) else replaceActive candidate

def commitDesiredToActive : DirScript InstanceTuple := do
  match ← load .desired with
  | none => Script.raise .value
  | some candidate =>
    let current ← load .active
    promote current candidate
    pure candidate

def discardDesired : DirScript PUnit := do
  let there ← exists_ .desired
  when_ there do
    aside
    aside
    unlinkDesired

end Scripts

/-- The arguments of `reconcile_resident_binding`. The loaders, the check of the role's persona
requirements and the caller's validator are code of the caller. -/
structure Reconcile where
  role : RoleSlot
  imageDefaultRef : Option String
  imageDefaultPersonaLoader : String → Except Fault PersonaPack
  overridePersonaLoader : String → Except Fault PersonaPack
  checkPersonaRequirements : PersonaPack → Except Fault PUnit
  candidateValidator : PersonaPack → BindingRecord → Except Fault PUnit
  commit : Bool

namespace Reconcile
variable (r : Reconcile)

def source (active staged : Option InstanceTuple) : Option BindingRecord :=
  match staged with
  | some t => some t.binding
  | none => (active.map InstanceTuple.binding).filter fun b => b.mode = .override_

def propose (image : Image) (source : Option BindingRecord) :
    Except Fault (PersonaPack × BindingRecord × Option String) :=
  match source.filter fun b => b.mode = .override_ with
  | some b => do
    let persona ← r.overridePersonaLoader (b.personaId ++ "@" ++ b.personaVersion)
    if persona.checksum ≠ b.personaChecksum then throw .value
    let candidate ← image.materializeOverrideBinding r.role persona b.overrideSource
    pure (persona, candidate, candidate.overrideSource)
  | none => do
    match r.imageDefaultRef with
    | none => throw .other
    | some ref =>
      let persona ← r.imageDefaultPersonaLoader ref
      let candidate ← image.materializeImageDefaultBinding r.role persona ref
      pure (persona, candidate, candidate.imageDefaultRoot)

def attempt (image : Image) (active staged : Option InstanceTuple) : DirScript InstanceTuple := do
  let (persona, candidate, root) ← Script.lift (r.propose image (source active staged))
  match active.filter fun t => t.binding.bindingDigest = candidate.bindingDigest with
  | some t =>
    when_ (staged.isSome && r.commit) discardDesired
    pure t
  | none =>
    let t : InstanceTuple := {
      root, binding := candidate, configSnapshot := []
      configDigest := candidate.effectiveConfigDigest }
    Script.lift (r.checkPersonaRequirements persona)
    Script.lift (r.candidateValidator persona candidate)
    if r.commit then do
      stageDesired t
      commitDesiredToActive
    else pure t

end Reconcile

def reconcileResidentBinding (image : Image) (r : Reconcile) : DirScript InstanceTuple := do
  let active ← load .active
  let staged ← load .desired
  (r.attempt image active staged).rescue fun e =>
    if e = .value ∨ e = .os then do
      when_ r.commit discardDesired
      match active with
      | none => Script.raise .value
      | some t => pure t
    else Script.raise e

inductive Task where
  | stage (t : InstanceTuple)
  | commit
  | discard
  | reconcile (r : Reconcile)

def Task.script (image : Image) : Task → DirScript PUnit
  | stage t => stageDesired t
  | commit => do
    let _ ← commitDesiredToActive
    pure ⟨⟩
  | discard => discardDesired
  | reconcile r => do
    let _ ← reconcileResidentBinding image r
    pure ⟨⟩

/-- The process: one task at a time under the mutation lock, no other writer, and a crash
between any two file operations. -/
def process (image : Image) : Host fileSig (Option Fault) Dir PEmpty Task where
  run := perform image
  env := fun e => e.elim
  program := fun task => Prog.bind (task.script image) fun _ => Prog.done ⟨⟩
  crash := Dir.tear

end Casa.InstanceDir
