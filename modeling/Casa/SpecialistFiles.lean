import Casa.FallibleTree
import Casa.OperationHistory
import Casa.PythonValue
import Mathlib.Data.List.Sort
import Mathlib.Logic.Function.Basic

/-! The operational files of the installed specialists and the overlay of their role files, in the
file operations that write them: materialization, the reconciliation of every load and reload, and
uninstallation. All of them hold `MATERIALIZE_LOCK`, so one runs at a time; it may die anywhere.
A link in the directory of the agents leads to a directory beside it or nowhere. -/

namespace Casa.SpecialistFiles
open OperationTree FallibleTree PythonValue

abbrev Bytes := List UInt8

abbrev Dict := List (String × String)

structure PersonaPack where
  displayName : Option String
  archetype : String
deriving DecidableEq

structure TextResponse where
  maxConfirmationSentences : Option ℕ := none
  maxStatusSentences : Option ℕ := none
  register : Option String := none
deriving DecidableEq

structure Session where
  strategy : Option String := none
  idleTimeoutSeconds : Option ℕ := none
  idleTimeout : Option ℕ := none
deriving DecidableEq

structure Tts where
  tagDialect : Option String := none
  errorPhrases : Dict := []
deriving DecidableEq

/-- A materialized role: its slot, mission, doctrine, and `normalized`. -/
structure RoleSlot where
  slot : String
  mission : String
  doctrine : String
  text : TextResponse := {}
  tts : Tts := {}
  session : Session := {}
  model : Dict := []
  tools : Dict := []
  mcpServers : List String := []
  memory : Dict := []
  requires : Dict := []
deriving DecidableEq

structure Marker where
  bindingDigest : String
  root : String
deriving DecidableEq

structure Runtime where
  model : Dict
  tools : Dict
  mcpServerNames : List String
  memory : Dict
  strategy : Option String
  idleTimeout : Option ℕ
  tagDialect : String
  voiceErrors : Dict
  requires : Dict
deriving DecidableEq

/-- The text of a file; every document has its constant fields besides. -/
inductive Text where
  | character (name role card prompt : String)
  | voice (tone : List String)
  | responseShape (confirmation status : ℕ) (register : String)
  | runtime (r : Runtime)
  | marker (m : Marker)
  | other (raw : String)
deriving DecidableEq

section Documents
variable (slug : String) (role : RoleSlot) (persona : PersonaPack)

def voiceFromPersona : Text :=
  .voice (if persona.archetype = "" then [] else [persona.archetype])

def mapSession (session : Session) : Option String × Option ℕ :=
  (session.strategy, session.idleTimeoutSeconds.or session.idleTimeout)

def mapTts (tts : Tts) : String × Dict :=
  (tts.tagDialect.getD "square_brackets", tts.errorPhrases)

def mapResponseRegister (register : String) : String :=
  if register = "spoken" then "spoken" else "written"

def characterCard (displayName : String) : String :=
  strip (displayName ++ " — the " ++ role.slot ++ " specialist. " ++ role.mission)

def character : Text :=
  let displayName := persona.displayName.getD slug
  .character displayName slug (characterCard role displayName) role.doctrine

def responseShape : Text :=
  .responseShape (role.text.maxConfirmationSentences.getD 2) (role.text.maxStatusSentences.getD 3)
    (mapResponseRegister (role.text.register.getD "written"))

def runtime : Text :=
  .runtime {
    model := role.model
    tools := role.tools
    mcpServerNames := role.mcpServers
    memory := role.memory
    strategy := (mapSession role.session).1
    idleTimeout := (mapSession role.session).2
    tagDialect := (mapTts role.tts).1
    voiceErrors := (mapTts role.tts).2
    requires := role.requires }

end Documents

def bindingMarkerName : String := ".binding-digest"

abbrev OpDir := List (String × Text)

def OpDir.put (d : OpDir) (name : String) (text : Text) : OpDir :=
  (name, text) :: d.filter (·.1 ≠ name)

def OpDir.marker (d : OpDir) : Option Marker :=
  match d.find? (·.1 = bindingMarkerName) with
  | some (_, .marker m) => some m
  | _ => none

def fileSet (slug : String) (role : RoleSlot) (persona : PersonaPack) (m : Marker) : OpDir :=
  [(bindingMarkerName, .marker m), ("runtime.yaml", runtime role),
    ("response_shape.yaml", responseShape role), ("voice.yaml", voiceFromPersona persona),
    ("character.yaml", character slug role persona)]

inductive Node where
  | dir (files : OpDir)
  | link (target : String)
deriving DecidableEq

inductive RoleFile where
  | roleYaml
  | doctrine
deriving DecidableEq

abbrev RoleDir := RoleFile → Option Bytes

/-- The directory of the agents, `<overlay>/specialist`, the number of uuids drawn, and whether
an operation of the present call has failed on its own. -/
structure State where
  agents : String → Option Node := fun _ => none
  overlay : Option (String → Option RoleDir) := none
  drawn : ℕ := 0
  failed : Bool := false

def State.reach (s : State) (name : String) : Option OpDir :=
  match s.agents name with
  | some (.dir d) => some d
  | some (.link t) =>
    match s.agents t with
    | some (.dir d) => some d
    | _ => none
  | none => none

section Names

def isHex (n : ℕ) (cs : List Char) : Bool :=
  cs.length = n && cs.all fun c => "0123456789abcdef".toList.contains c

/-- `uuid4().hex`. -/
structure Hex where
  text : String
  shaped : isHex 32 text.toList = true
deriving DecidableEq

variable (slug : String)

def material (h : Hex) : String := "." ++ slug ++ ".material-" ++ h.text
def linkName (h : Hex) : String := "." ++ slug ++ ".link-" ++ h.text
def priorName (h : Hex) : String := "." ++ slug ++ ".prior-" ++ h.text

/-- `rest` when the text begins with `start`. -/
def afterStart (start text : List Char) : Option (List Char) :=
  if start.isPrefixOf text then some (text.drop start.length) else none

/-- `re.fullmatch(rf"\.{slug}\.material-[0-9a-f]{32}", target)`. -/
def isMaterial (target : String) : Bool :=
  match afterStart ("." ++ slug ++ ".material-").toList target.toList with
  | some rest => isHex 32 rest
  | none => false

abbrev Material := { target : String // isMaterial slug target = true }

/-- `_SLUG_RE`. -/
def isValidSlug : Bool :=
  let plain (c : Char) : Bool := ('a' ≤ c && c ≤ 'z') || ('0' ≤ c && c ≤ '9')
  match slug.toList with
  | c :: rest => plain c && rest.length ≤ 31 && rest.all fun d => plain d || d = '-'
  | [] => false

end Names

/-- The exceptions that `InstalledSpecialistIndex.load` tells apart. -/
inductive Fault where
  | value
  | os
  | yaml
  | schema
  | other
deriving DecidableEq

def Fault.isolated : Fault → Bool
  | other => false
  | _ => true

/-- `str.rpartition(c)`, when the separator is there. -/
def rpartition (c : Char) (cs : List Char) : Option (List Char × List Char) :=
  match cs.reverse.span (· ≠ c) with
  | (last, _ :: first) => some (first.reverse, last.reverse)
  | _ => none

/-- `_COMPONENT_CHECKSUM_RE.match` behind its `sha256:`; the `$` lets a last newline pass. -/
def isChecksum (cs : List Char) : Bool :=
  isHex 64 cs || (cs.getLast? = some '\n' && isHex 64 cs.dropLast)

/-- `parse_component_root` and `cas_store_dir`: the name of the component in the store. -/
def parseComponentRoot (root : String) : Except Fault String :=
  match rpartition '#' root.toList with
  | none => .error .value
  | some (head, checksum) =>
    match afterStart "sha256:".toList checksum with
    | none => .error .value
    | some rest =>
      if isChecksum rest && (rpartition '@' head).isSome then .ok (String.ofList rest)
      else .error .value

structure InstanceTuple where
  root : String
  bindingDigest : String
  overridden : Bool
  personaId : String
  personaVersion : String
deriving DecidableEq

def InstanceTuple.marker (t : InstanceTuple) : Marker := ⟨t.bindingDigest, t.root⟩

inductive TupleFile where
  | active
  | desired
deriving DecidableEq

inductive PersonaSource where
  | component (checksum : String)
  | installed (personaId version : String)
deriving DecidableEq

inductive RoleSource where
  | image (name : String)
  | component (checksum : String)
deriving DecidableEq

/-- What a call finds: the entries of the specialists directory, and what the files of the
tuples, the components, the personas and the image are loaded as. -/
structure World where
  entries : List (String × Bool)
  tuple : String → TupleFile → Except Fault (Option InstanceTuple)
  role : String → Except Fault RoleSlot
  persona : PersonaSource → Except Fault PersonaPack
  imageRoles : List String := []
  roleFiles : RoleSource → RoleFile → Option Bytes
  hex : ℕ → Hex
  /-- A directory with a tuple file in it is a slug's. -/
  named : ∀ slug file, tuple slug file ≠ .ok none → isValidSlug slug = true

inductive Op where
  | listSpecialists
  | loadTuple (slug : String) (file : TupleFile)
  | loadRole (checksum : String)
  | loadPersona (source : PersonaSource)
  | uuid
  | mkdirAgents
  | mkdir (name : String)
  /-- The two halves of `write_text`. -/
  | create (dir file : String)
  | fill (dir file : String) (text : Text)
  /-- `shutil.rmtree(…, ignore_errors=True)`. -/
  | rmtree (name : String)
  | isSymlink (name : String)
  | exists_ (name : String)
  | readlink (name : String)
  | symlink (target name : String)
  | replace (src dst : String)
  | readMarker (slug : String)
  | unlink (name : String)
  | overlayExists
  | rmtreeOverlay
  | mkdirOverlay
  | listImage
  | mkdirRole (dest : String)
  | isRoleFile (source : RoleSource) (file : RoleFile)
  | readRoleFile (source : RoleSource) (file : RoleFile)
  | createRoleFile (dest : String) (file : RoleFile)
  | fillRoleFile (dest : String) (file : RoleFile) (bytes : Bytes)
deriving DecidableEq

abbrev Op.Answer : Op → Type
  | listSpecialists => List (String × Bool)
  | loadTuple .. => Option InstanceTuple
  | loadRole _ => RoleSlot
  | loadPersona _ => PersonaPack
  | uuid => Hex
  | isSymlink _ => Bool
  | exists_ _ => Bool
  | readlink _ => String
  | readMarker _ => Option Marker
  | overlayExists => Bool
  | listImage => List String
  | isRoleFile .. => Bool
  | readRoleFile .. => Bytes
  | _ => PUnit

abbrev sig : Signature := fallible Op Fault Op.Answer

abbrev Code (α : Type) : Type := Script sig Fault α

/-- Whether an operation fails, and what a removal that fails leaves behind. -/
structure Input where
  fails : Bool := false
  keep : String → Bool := fun _ => false

section Device
variable {α : Type}

namespace State
variable (s : State)

def set (name : String) (n : Option Node) : State :=
  { s with agents := Function.update s.agents name n }

def hurt : State := { s with failed := true }

def look (i : Input) (a : Except Fault α) : Except Fault α × State :=
  if i.fails then (.error .os, s.hurt) else (a, s)

/-- An operation that succeeds when `t` says what becomes of the state. -/
def become (i : Input) (t : Option State) : Except Fault PUnit × State :=
  match i.fails, t with
  | false, some t => (.ok ⟨⟩, t)
  | _, _ => (.error .os, s.hurt)

/-- `os.replace`, where it succeeds. -/
def replaced (src dst : String) : Option State :=
  match s.agents src, s.agents dst with
  | some (.link _), some (.dir _) => none
  | some (.dir _), some (.link _) => none
  | some (.dir _), some (.dir (_ :: _)) => none
  | some n, _ => some ((s.set src none).set dst (some n))
  | none, _ => none

def written (dir file : String) (text : Text) : Option State :=
  match s.agents dir with
  | some (.dir d) => some (s.set dir (some (.dir (d.put file text))))
  | _ => none

def removed (i : Input) (name : String) : State :=
  match s.agents name with
  | some (.dir d) =>
    if i.fails then (s.set name (some (.dir (d.filter fun f => i.keep f.1)))).hurt
    else s.set name none
  | _ => if i.fails then s.hurt else s

def setRole (dest : String) (r : RoleDir) : Option State :=
  s.overlay.map fun o => { s with overlay := some (Function.update o dest (some r)) }

def role (dest : String) : Option RoleDir := s.overlay.bind (· dest)

def cleared (keep : String → Bool) : State :=
  { s with overlay := s.overlay.map fun o dest => if keep dest then o dest else none }

end State

def device (w : World) : Device sig Input State
  | .listSpecialists, i, s => s.look i (.ok w.entries)
  | .loadTuple slug file, i, s => s.look i (w.tuple slug file)
  | .loadRole checksum, i, s => s.look i (w.role checksum)
  | .loadPersona source, i, s => s.look i (w.persona source)
  | .uuid, _, s => (.ok (w.hex s.drawn), { s with drawn := s.drawn + 1 })
  | .mkdirAgents, i, s => s.become i (some s)
  | .mkdir name, i, s =>
    s.become i (if (s.agents name).isSome then none else some (s.set name (some (.dir []))))
  | .create dir file, i, s => s.become i (s.written dir file (.other ""))
  | .fill dir file text, i, s => s.become i (s.written dir file text)
  | .rmtree name, i, s => (.ok ⟨⟩, s.removed i name)
  | .isSymlink name, i, s =>
    s.look i (.ok (match s.agents name with
      | some (.link _) => true
      | _ => false))
  | .exists_ name, i, s => s.look i (.ok (s.reach name).isSome)
  | .readlink name, i, s =>
    s.look i (match s.agents name with
      | some (.link t) => .ok t
      | _ => .error .os)
  | .symlink target name, i, s =>
    s.become i (if (s.agents name).isSome then none else some (s.set name (some (.link target))))
  | .replace src dst, i, s => s.become i (s.replaced src dst)
  | .readMarker slug, i, s =>
    if i.fails then (.ok none, s.hurt) else (.ok ((s.reach slug).bind OpDir.marker), s)
  | .unlink name, i, s =>
    s.become i (match s.agents name with
      | some (.link _) => some (s.set name none)
      | _ => none)
  | .overlayExists, i, s => s.look i (.ok s.overlay.isSome)
  | .rmtreeOverlay, i, s =>
    if i.fails then (.error .os, (s.cleared i.keep).hurt)
    else (.ok ⟨⟩, { s with overlay := none })
  | .mkdirOverlay, i, s =>
    s.become i (if s.overlay.isSome then none else some { s with overlay := some fun _ => none })
  | .listImage, i, s => s.look i (.ok w.imageRoles)
  | .mkdirRole dest, i, s =>
    s.become i (s.setRole dest ((s.role dest).getD fun _ => none))
  | .isRoleFile source file, i, s => s.look i (.ok (w.roleFiles source file).isSome)
  | .readRoleFile source file, i, s =>
    s.look i (match w.roleFiles source file with
      | some bytes => .ok bytes
      | none => .error .os)
  | .createRoleFile dest file, i, s =>
    s.become i ((s.role dest).bind fun r => s.setRole dest (Function.update r file (some [])))
  | .fillRoleFile dest file bytes, i, s =>
    s.become i ((s.role dest).bind fun r => s.setRole dest (Function.update r file (some bytes)))

end Device

section Program

def ask (op : Op) : Code op.Answer := Script.ask op

def writeText (dir file : String) (text : Text) : Code PUnit := do
  ask (.create dir file)
  ask (.fill dir file text)

section Slug
variable (slug : String)

/-- Of a target that another slug owns, or that has a separator in it, nothing is returned; the
name of a directory of this kind does not lead out of the directory it is in. -/
def resolveMaterialContentDir : Code (Option (Material slug)) :=
  (do
    let target ← ask (.readlink slug)
    pure (if h : isMaterial slug target = true then some (⟨target, h⟩ : Material slug) else none)
    ).rescue fun _ => pure none

def writeSpecialistOperationalFiles (dir : String) (role : RoleSlot) (persona : PersonaPack) :
    Code PUnit := do
  writeText dir "character.yaml" (character slug role persona)
  writeText dir "voice.yaml" (voiceFromPersona persona)
  writeText dir "response_shape.yaml" (responseShape role)
  writeText dir "runtime.yaml" (runtime role)

def retarget (content : String) : Code PUnit := do
  let newLink := linkName slug (← ask .uuid)
  ask (.symlink content newLink)
  ask (.replace newLink slug)

def writeContent (content : String) (role : RoleSlot) (persona : PersonaPack) (m : Marker) :
    Code PUnit :=
  (do
    writeSpecialistOperationalFiles slug content role persona
    writeText content bindingMarkerName (.marker m)).rescue fun e => do
      ask (.rmtree content)
      Script.raise e

def migrate (content : String) : Code PUnit := do
  let backup := priorName slug (← ask .uuid)
  ask (.replace slug backup)
  (retarget slug content).rescue fun e => do
    ask (.replace backup slug)
    Script.raise e
  ask (.rmtree backup)

/-- The part of `materialize_specialist_operational_files` that changes the path. -/
def land (content : String) : Code PUnit := do
  if ← ask (.isSymlink slug) then
    let priorContentDir ← resolveMaterialContentDir slug
    retarget slug content
    match priorContentDir with
    | some p => ask (.rmtree p.1)
    | none => pure ⟨⟩
  else if ← ask (.exists_ slug) then
    migrate slug content
  else retarget slug content

def materialize (role : RoleSlot) (persona : PersonaPack) (m : Marker) : Code PUnit := do
  ask .mkdirAgents
  let content := material slug (← ask .uuid)
  ask (.mkdir content)
  writeContent slug content role persona m
  land slug content

/-- The removal of the operational path in `_uninstall_core`. -/
def uninstall : Code PUnit := do
  if ← ask (.isSymlink slug) then
    let contentDir ← resolveMaterialContentDir slug
    ask (.unlink slug)
    match contentDir with
    | some p => ask (.rmtree p.1)
    | none => pure ⟨⟩
  else ask (.rmtree slug)

end Slug

inductive InstanceState where
  | active
  | pendingConfiguration
  | error
deriving DecidableEq

structure SpecialistInstance where
  slug : String
  state : InstanceState
  active : Option InstanceTuple
  desired : Option InstanceTuple
deriving DecidableEq

def instanceOf (slug : String) : Option InstanceTuple → Option InstanceTuple →
    Option SpecialistInstance
  | none, none => none
  | some a, d => some ⟨slug, .active, some a, d⟩
  | none, d => some ⟨slug, .pendingConfiguration, none, d⟩

def loadInstance (slug : String) : Code (Option SpecialistInstance) :=
  (do
    let active ← ask (.loadTuple slug .active)
    let desired ← ask (.loadTuple slug .desired)
    pure (instanceOf slug active desired)).rescue fun e =>
      if e.isolated then pure (some ⟨slug, .error, none, none⟩) else Script.raise e

def loadInstances : List String → Code (List SpecialistInstance)
  | [] => pure []
  | slug :: rest => do
    let found ← loadInstance slug
    let more ← loadInstances rest
    pure (found.toList ++ more)

def scanned (entries : List (String × Bool)) : List String :=
  (entries.filterMap fun e =>
    if e.2 && e.1 ≠ "store" && e.1 ≠ ".staging" then some e.1 else none).insertionSort (· ≤ ·)

def load : Code (List SpecialistInstance) := do
  loadInstances (scanned (← ask .listSpecialists))

def personaSource (t : InstanceTuple) (checksum : String) : PersonaSource :=
  if t.overridden then .installed t.personaId t.personaVersion else .component checksum

def rematerialize (slug : String) (active : InstanceTuple) : Code PUnit := do
  let checksum ← Script.lift (parseComponentRoot active.root)
  let persona ← ask (.loadPersona (personaSource active checksum))
  let role ← ask (.loadRole checksum)
  materialize slug role persona active.marker

def onDiskMarker (slug : String) : Code (Option Marker) := do
  if ← ask (.exists_ slug) then ask (.readMarker slug) else pure none

def dropPath (slug : String) : Code PUnit := do
  if ← ask (.isSymlink slug) then ask (.unlink slug)
  else if ← ask (.exists_ slug) then ask (.rmtree slug)
  else pure ⟨⟩

def failClosed (slug : String) (active : InstanceTuple) : Code PUnit := do
  let marker ← onDiskMarker slug
  if marker = some active.marker then pure ⟨⟩
  else (dropPath slug).rescue fun e => if e = .os then pure ⟨⟩ else Script.raise e

def healSlug (slug : String) : Code PUnit := do
  match ← ask (.loadTuple slug .active) with
  | none => pure ⟨⟩
  | some active => (rematerialize slug active).rescue fun _ => failClosed slug active

def bySlug (instances : List SpecialistInstance) : List SpecialistInstance :=
  instances.insertionSort fun a b => a.slug ≤ b.slug

/-- `_reconcile_specialist_operational_files_locked`. -/
def reconcileOperationalFiles (instances : List SpecialistInstance) : Code PUnit :=
  Script.forEach (fun installed =>
    if installed.active.isSome then healSlug installed.slug else pure ⟨⟩) (bySlug instances)

def copyRoleFile (source : RoleSource) (dest : String) (file : RoleFile) : Code PUnit := do
  if ← ask (.isRoleFile source file) then
    let bytes ← ask (.readRoleFile source file)
    ask (.createRoleFile dest file)
    ask (.fillRoleFile dest file bytes)
  else Script.raise .value

def copyRoleDir (source : RoleSource) (dest : String) : Code PUnit := do
  ask (.mkdirRole dest)
  Script.forEach (copyRoleFile source dest) [.roleYaml, .doctrine]

/-- The entry of an instance in `installed_component_role_dirs`. -/
def componentRoleDir (installed : SpecialistInstance) : Option (String × String) :=
  (installed.active.or installed.desired).bind fun t =>
    match parseComponentRoot t.root with
    | .ok checksum => some (installed.slug, checksum)
    | .error _ => none

def clearOverlay : Code PUnit := do
  if ← ask .overlayExists then ask .rmtreeOverlay else pure ⟨⟩

/-- `_reconcile_specialist_roles_overlay_locked`. -/
def reconcileRolesOverlay (instances : List SpecialistInstance) : Code PUnit := do
  clearOverlay
  ask .mkdirOverlay
  let image ← ask .listImage
  Script.forEach (fun name => copyRoleDir (.image name) name) (image.insertionSort (· ≤ ·))
  Script.forEach (fun e => copyRoleDir (.component e.2) e.1)
    ((bySlug instances).filterMap componentRoleDir)

def currentSpecialistRolesDir : Code PUnit := do
  let instances ← load
  reconcileOperationalFiles instances
  reconcileRolesOverlay instances

end Program

structure Slug where
  text : String
  valid : isValidSlug text = true

inductive Task where
  | reconcile
  | materialize (slug : Slug) (role : RoleSlot) (persona : PersonaPack) (m : Marker)
  | uninstall (slug : Slug)

def Task.program : Task → Code PUnit
  | reconcile => currentSpecialistRolesDir
  | materialize slug role persona m => SpecialistFiles.materialize slug.text role persona m
  | uninstall slug => SpecialistFiles.uninstall slug.text

/-- One call; any of its operations may fail, and it may die before any of them. -/
structure Call where
  task : Task
  world : World
  plan : ℕ → Input := fun _ => {}
  dies : Option ℕ := none

namespace Call
variable (c : Call) (s : State)

def start : State := { s with failed := false }

def outcome : Except Fault PUnit × State :=
  Prog.outcome (device c.world) c.plan c.task.program 0 (start s)

def events : List (Event sig State) :=
  Prog.events (device c.world) c.plan c.task.program 0 (start s)

def after : State :=
  match c.dies with
  | none => (c.outcome s).2
  | some k => (((c.events s)[k]?).map (·.before)).getD (c.outcome s).2

end Call

def afterAll (calls : List Call) (s : State) : State := calls.foldl (fun s c => c.after s) s

end Casa.SpecialistFiles
