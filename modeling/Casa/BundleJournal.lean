import Casa.Coroutine
import Casa.KeyedTable
import Casa.PythonValue
import Mathlib.Data.String.Basic
import Mathlib.Data.List.Dedup
import Mathlib.Data.List.Sort

/-! The bundle-operation journal (`specialist_bundle_journal.py`) with the parts of
`plugin_registry.py` it reads and writes. Every file operation of a journal write is a
block of its own, at which the process may die; boot reconciliation runs undisturbed. -/

namespace Casa.BundleJournal
open KeyedTable PythonValue Coroutine

variable {T A : Type}

section Names

def isSlugStart (c : Char) : Bool := ('a' ≤ c && c ≤ 'z') || ('0' ≤ c && c ≤ '9')

/-- `[a-z0-9][a-z0-9-]{0,31}`. -/
def isSlug : List Char → Bool
  | [] => false
  | c :: rest => isSlugStart c && rest.length ≤ 31 && rest.all fun c => isSlugStart c || c = '-'

def isHex (c : Char) : Bool := ('0' ≤ c && c ≤ '9') || ('a' ≤ c && c ≤ 'f')

/-- `$` also matches before a final newline. -/
def chomp (cs : List Char) : List Char := if cs.getLast? = some '\n' then cs.dropLast else cs

/-- `JOURNAL_NAME_RE`: the slug group of a name that matches. -/
def journalSlug (name : String) : Option String :=
  let cs := chomp name.toList
  let slug := cs.takeWhile (· ≠ '.')
  let rest := (cs.dropWhile (· ≠ '.')).drop 1
  if isSlug slug ∧ '.' ∈ cs ∧ (rest.take 32).all isHex ∧ rest.drop 32 = ".json".toList ∧
      rest.length = 37 then
    some (String.ofList slug)
  else none

def journalName (slug opid : String) : String := slug ++ "." ++ opid ++ ".json"

def tempName (name hex : String) : String := name ++ ".tmp-" ++ hex

/-- `name.endswith(".quarantined")`. -/
def isQuarantined (name : String) : Bool := ".quarantined".toList.isSuffixOf name.toList

def quarantinedName (name : String) : String := name ++ ".quarantined"

end Names

inductive JournalState where
  | inProgress | complete
deriving DecidableEq, Repr

structure Journal (T : Type) where
  op : String
  slug : String
  state : JournalState := .inProgress
  registryEntries : List (Json T)
  tupleFiles : List (String × Option String)
  ackRecords : List (Json T)
  receiptDigest : String := ""
  consentIdentity : String := ""
  targetRoot : String := ""
  stepsDone : List String := []

/-- A file of the operations directory: a whole journal, or text that is none. -/
inductive Content (T : Type) where
  | torn
  | whole (j : Journal T)

structure RegistryDoc (T : Type) where
  plugins : List (Json T)
  quarantinedBundles : Option (List String)

/-- The files the journal code reads and writes. An unreadable or invalid registry is `none`:
no code here writes over it. The consent-ack ledger is the ack store's own. -/
structure Disk (T A : Type) where
  ops : Table (Prod.fst : String × Content T → String)
  registry : Option (RegistryDoc T)
  tuples : Table (Prod.fst : (String × String) × String → String × String)
  acks : A

section Registry

/-- `OWNER_RE`. -/
def isOwner (o : String) : Bool :=
  "specialist:".toList.isPrefixOf o.toList && isSlug (chomp (o.toList.drop 11))

def entryOwner : Json T → Option String
  | .obj fields =>
      match Json.get fields "owner" with
      | .str o => if isOwner o then some o else none
      | _ => none
  | _ => none

def ownedBy (slug : String) (entry : Json T) : Bool := entryOwner entry = some ("specialist:" ++ slug)

/-- `owner.split(":", 1)[1]`. -/
def ownerSlug (owner : String) : String := String.ofList (owner.toList.drop 11)

/-- `setdefault("quarantined_bundles", [])`, then an append for each slug that is not listed. -/
def flag (bundles : Option (List String)) (slugs : List String) : List String :=
  slugs.foldl (fun listed s => if s ∈ listed then listed else listed ++ [s]) (bundles.getD [])

def RegistryDoc.quarantine (doc : RegistryDoc T) (slug : String) : RegistryDoc T where
  plugins := doc.plugins.filter fun e => !ownedBy slug e
  quarantinedBundles := some (flag doc.quarantinedBundles [slug])

/-- The slugs that own an entry, as `sorted(slugs)` of a set. -/
def RegistryDoc.owners (doc : RegistryDoc T) : List String :=
  ((doc.plugins.filterMap entryOwner).map ownerSlug).dedup.insertionSort (· ≤ ·)

def RegistryDoc.quarantineAll (doc : RegistryDoc T) : RegistryDoc T where
  plugins := doc.plugins.filter fun e => (entryOwner e).isNone
  quarantinedBundles := some (flag doc.quarantinedBundles doc.owners)

def Disk.quarantine (d : Disk T A) (slug : String) : Disk T A :=
  { d with registry := d.registry.map fun doc => doc.quarantine slug }

def Disk.quarantineAll (d : Disk T A) : Disk T A :=
  { d with registry := d.registry.map RegistryDoc.quarantineAll }

end Registry

section Writing

abbrev Script (T A α : Type) := Co Bool (Disk T A) String α

/-- A system call; a false input is an `OSError`. -/
def syscall {α : Type} (f : Disk T A → Except String α × Disk T A) : Script T A α :=
  .block fun ok d => if ok then f d else (.error "OSError", d)

def put (name : String) (content : Content T) : Script T A PUnit :=
  syscall fun d => (.ok ⟨⟩, { d with ops := d.ops.put (name, content) })

def fsync : Script T A PUnit := syscall fun d => (.ok ⟨⟩, d)

def unlink (name : String) : Script T A PUnit :=
  syscall fun d =>
    match d.ops.get? name with
    | some _ => (.ok ⟨⟩, { d with ops := d.ops.remove name })
    | none => (.error "FileNotFoundError", d)

def replace (source target : String) : Script T A PUnit :=
  syscall fun d =>
    match d.ops.get? source with
    | some (_, content) =>
        (.ok ⟨⟩, { d with ops := (d.ops.put (target, content)).remove source })
    | none => (.error "FileNotFoundError", d)

/-- The temporary file is created and filled by any number of short writes before the last one. -/
def writeTemp (temp name : String) (j : Journal T) (short : Nat) : Script T A PUnit := do
  put temp .torn
  Co.forEach (put temp) (List.replicate short .torn ++ [.whole j])
  fsync
  replace temp name

/-- `except BaseException`: the temporary file is unlinked if it can be, and the error goes on. -/
def dropTemp (temp : String) (e : String) : Script T A PUnit := do
  (unlink temp).rescue fun _ => some (pure ⟨⟩)
  Co.raise e

def fsyncWrite (temp name : String) (j : Journal T) (short : Nat) : Script T A PUnit := do
  (writeTemp temp name j short).rescue fun e => some (dropTemp temp e)
  fsync

/-- `json.loads` of the journal's text. -/
def readJournal (name : String) : Script T A (Journal T) :=
  syscall fun d =>
    match d.ops.get? name with
    | some (_, .whole j) => (.ok j, d)
    | some (_, .torn) => (.error "ValueError", d)
    | none => (.error "FileNotFoundError", d)

inductive JournalCall (T : Type) where
  | begin (op : String) (beforeEntries : List (Json T))
      (beforeTupleFiles : List (String × Option String)) (ackRecords : List (Json T))
      (receiptDigest consentIdentity targetRoot : String)
  | markStep (step : String)
  | complete

/-- `opid` and `hex` are the two `uuid4` of the call; `short` counts its short writes. -/
def JournalCall.script (call : JournalCall T) (slug opid hex : String) (short : Nat) :
    Script T A PUnit :=
  let name := journalName slug opid
  let temp := tempName name hex
  match call with
  | .begin op entries tupleFiles ackRecords receiptDigest consentIdentity targetRoot =>
      fsyncWrite temp name
        { op := op, slug := slug, registryEntries := entries, tupleFiles := tupleFiles,
          ackRecords := ackRecords, receiptDigest := receiptDigest,
          consentIdentity := consentIdentity, targetRoot := targetRoot } short
  | .markStep step => do
      let j ← readJournal name
      fsyncWrite temp name { j with stepsDone := j.stepsDone ++ [step] } short
  | .complete => do
      let j ← readJournal name
      fsyncWrite temp name { j with state := .complete } short
      unlink name

end Writing

section Reconciling

def tupleFilenames : List String :=
  ["active.yaml", "desired.yaml", "active.prior.yaml", "owned-plugins.yaml",
    "owned-plugins.desired.yaml", "owned-plugins.prior.yaml", "active.yaml.rollback-tmp",
    "pending-receipt.json"]

def isObject : Json T → Bool
  | .obj _ => true
  | _ => false

def validPayload (content : Content T) (slug : String) : Option (Journal T) :=
  match content with
  | .torn => none
  | .whole j =>
      if j.op ≠ "" ∧ j.slug = slug ∧ j.registryEntries.all isObject ∧
          (j.tupleFiles.all fun f => tupleFilenames.contains f.1) ∧ j.ackRecords.all isObject then
        some j
      else none

def restoreTuple (slug : String)
    (tuples : Table (Prod.fst : (String × String) × String → String × String))
    (file : String × Option String) :
    Table (Prod.fst : (String × String) × String → String × String) :=
  match file.2 with
  | some content => tuples.put ((slug, file.1), content)
  | none => tuples.remove (slug, file.1)

/-- `BundleTxn.rollback_disk`: what was written before a raise stays written. -/
def Disk.rollback (restoreRecords : List (Json T) → A → Except String A) (d : Disk T A)
    (slug : String) (j : Journal T) : Except String Unit × Disk T A :=
  match d.registry with
  | none => (.error "registry_invalid", d)
  | some doc =>
      let plugins := (doc.plugins.filter fun e => !ownedBy slug e) ++ j.registryEntries
      let d :=
        { d with
          registry := some { doc with plugins := plugins }
          tuples := j.tupleFiles.foldl (restoreTuple slug) d.tuples }
      match restoreRecords j.ackRecords d.acks with
      | .ok acks => (.ok (), { d with acks := acks })
      | .error e => (.error e, d)

/-- `_quarantine_rename`. -/
def Disk.setAside (d : Disk T A) (name : String) : Disk T A :=
  match d.ops.get? name with
  | some (_, content) =>
      { d with ops := (d.ops.put (quarantinedName name, content)).remove name }
  | none => d

inductive BootAction where
  | quarantineAll
  | quarantine (slug : String)
  | prunedComplete (slug : String)
  | rolledBack (slug : String)
deriving DecidableEq, Repr

/-- One turn of the journal loop of `reconcile_boot`. -/
def Disk.reconcileFile (restoreRecords : List (Json T) → A → Except String A) (d : Disk T A)
    (name : String) : Option BootAction × Disk T A :=
  match d.ops.get? name with
  | none => (none, d)
  | some (_, content) =>
      if isQuarantined name then (none, d)
      else
        match journalSlug name with
        | none => (some .quarantineAll, d.quarantineAll.setAside name)
        | some slug =>
            match validPayload content slug with
            | none => (some (.quarantine slug), (d.quarantine slug).setAside name)
            | some j =>
                if j.state = .complete then
                  (some (.prunedComplete slug), { d with ops := d.ops.remove name })
                else
                  match d.rollback restoreRecords slug j with
                  | (.ok _, d) => (some (.rolledBack slug), { d with ops := d.ops.remove name })
                  | (.error _, d) =>
                      (some (.quarantine slug), (d.quarantine slug).setAside name)

/-- The names of the directory, as `sorted(ops_dir.iterdir())`. -/
def Disk.opsNames (d : Disk T A) : List String :=
  (d.ops.rows.map Prod.fst).insertionSort (· ≤ ·)

def Disk.reconcileBoot (restoreRecords : List (Json T) → A → Except String A) (d : Disk T A) :
    List BootAction × Disk T A :=
  d.opsNames.foldl (fun (actions, d) name =>
    let (action, d) := d.reconcileFile restoreRecords name
    (actions ++ action.toList, d)) ([], d)

end Reconciling

end Casa.BundleJournal
