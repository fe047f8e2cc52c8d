import Casa.FallibleTree
import Casa.OperationHistory
import Casa.LinkTree

/-! `install_tarball` in the file operations it performs below `tools_root`. The archive and the
install command fill the staging tree with anything, links included. Work in the temporary
directory and the fsyncs touch nothing that is told of here. -/

namespace Casa.ToolInstall
open OperationTree FallibleTree LinkTree

def Plain (c : String) : Prop := c ≠ "." ∧ c ≠ ".."

instance (c : String) : Decidable (Plain c) := inferInstanceAs (Decidable (_ ∧ _))

/-- `tools_root`. -/
structure Root where
  path : Path
  plain : ∀ c ∈ path, Plain c

namespace Root
variable (root : Root)

def bin : Path := root.path ++ ["bin"]

def launcher (name : String) : Path := root.path ++ ["bin", name]

def gensDir (plugin : String) : Path := root.path ++ ["tarball", plugin]

end Root

/-- The names that the callers have checked: one path component. -/
structure Name where
  text : String
  plain : Plain text

structure Version where
  absolute : Bool := false
  dirs : List String := []
  last : String

def Version.generation (v : Version) (nonce : String) : String := v.last ++ ".g-" ++ nonce

def Version.installDir (v : Version) (gens : Path) (nonce : String) : Path :=
  (if v.absolute then [] else gens) ++ v.dirs ++ [v.generation nonce]

def Version.place (v : Version) (gens : Path) (nonce : String) : Path :=
  v.dirs.foldl (fun p c => if c = ".." then p.dropLast else p ++ [c])
    (if v.absolute then [] else gens) ++ [v.generation nonce]

structure Row where
  name : String
  verifyBin : Option String
deriving DecidableEq

/-- The parameters of `install_tarball`, and the names it draws. -/
structure Request where
  plugin : Name
  urlAllowed : Bool := true
  cmdWellFormed : Bool := true
  hasCmd : Bool := false
  verifyBin : Option Name
  version : Version
  nonce : String
  tmp : String

inductive Fault where
  | unsafeArchive
  | ownership
  | os
deriving DecidableEq

inductive Op where
  | readManifest (sweep : Bool)
  | lstat (p : Path)
  | readlink (p : Path)
  | listBin
  | listGens
  | globFlat
  | isDir (p : Path)
  | mkdir (p : Path)
  | rmtree (p : Path)
  /-- The download, its check and its extraction. -/
  | fetch
  | mkdtemp (dir : Path)
  | copytree (dst : Path)
  | installCmd (cwd : Path)
  | isFile (p : Path)
  | rglob (root : Path) (name : String)
  | rename (src dst : Path)
  | symlink (target p : Path)
  | replace (src dst : Path)
  | unlink (p : Path)
  | resolves (p : Path)
deriving DecidableEq

abbrev Op.Answer : Op → Type
  | readManifest _ => List Row
  | lstat _ => Bool
  | readlink _ => Option Target
  | listBin => List String
  | listGens => List String
  | globFlat => List String
  | isDir _ => Bool
  | mkdtemp _ => Path
  | isFile _ => Bool
  | rglob .. => List Path
  | resolves _ => Bool
  | _ => PUnit

abbrev sig : Signature := fallible Op Fault Op.Answer

abbrev Code (α : Type) : Type := Script sig Fault α

/-- What the world decides in one call: which operations fail, what the manifest and the
directories are read as, what a removal gets rid of, and what ends up in the staging tree. -/
structure World (C : Type) where
  fails : Op → Bool := fun _ => false
  claimRows : List Row := []
  sweepRows : List Row := []
  names : List String := []
  gens : List String := []
  flats : List String := []
  gone : Path → Path → Bool := fun _ _ => true
  staging : String
  copied : Files C
  built : Files C := fun _ => none
  found : List Path := []

section Device
variable {C : Type}

def isDirNode : Option (Node C) → Bool
  | some .dir => true
  | _ => false

def isLinkNode : Option (Node C) → Bool
  | some (.link _) => true
  | _ => false

/-- The tree `t` in the directory `p`. -/
def fill (s : Files C) (p : Path) (t : Files C) : Files C := fun q =>
  if q = p then some .dir else if p <+: q then t (q.drop p.length) else s q

def moved (s : Files C) (src dst : Path) : Files C := fun q =>
  if dst <+: q then s (src ++ q.drop dst.length) else if src <+: q then none else s q

def swept (s : Files C) (p : Path) (gone : Path → Bool) : Files C := fun q =>
  if p <+: q ∧ gone q then none else s q

abbrev maxLinks : ℕ := 40

abbrev read (s : Files C) (p : Path) : Option (Found C) := walk s maxLinks [] p

def device (w : World C) : Device sig PUnit (Files C)
  | .readManifest sweep, _, s => (.ok (if sweep then w.sweepRows else w.claimRows), s)
  | .lstat p, _, s => (.ok (!w.fails (.lstat p) && (s p).isSome), s)
  | .readlink p, _, s =>
    (.ok (match w.fails (.readlink p), s p with
      | false, some (.link dest) => some dest
      | _, _ => none), s)
  | .listBin, _, s => (.ok (if w.fails .listBin then [] else w.names), s)
  | .listGens, _, s => (.ok (if w.fails .listGens then [] else w.gens), s)
  | .globFlat, _, s => (if w.fails .globFlat then .error .os else .ok w.flats, s)
  | .isDir p, _, s => (if w.fails (.isDir p) then .error .os else .ok (isDirNode (s p)), s)
  | .mkdir p, _, s =>
    match w.fails (.mkdir p), s p with
    | false, none => (.ok ⟨⟩, Function.update s p (some .dir))
    | false, some .dir => (.ok ⟨⟩, s)
    | _, _ => (.error .os, s)
  | .rmtree p, _, s => (.ok ⟨⟩, if isDirNode (s p) then swept s p (w.gone p) else s)
  | .fetch, _, s => (if w.fails .fetch then .error .os else .ok ⟨⟩, s)
  | .mkdtemp dir, _, s =>
    let p := dir ++ [".staging-" ++ w.staging]
    if w.fails (.mkdtemp dir) || (s p).isSome then (.error .os, s)
    else (.ok p, Function.update s p (some .dir))
  | .copytree dst, _, s =>
    (if w.fails (.copytree dst) then .error .os else .ok ⟨⟩, fill s dst w.copied)
  | .installCmd cwd, _, s =>
    (if w.fails (.installCmd cwd) then .error .os else .ok ⟨⟩, fill s cwd w.built)
  | .isFile p, _, s => (if w.fails (.isFile p) then .error .os else .ok (read s p).isSome, s)
  | .rglob root name, _, s =>
    (if w.fails (.rglob root name) then .error .os
      else .ok (w.found.filter fun rel => rel.getLast? = some name && rel.all fun c => Plain c), s)
  | .rename src dst, _, s =>
    if w.fails (.rename src dst) || !isDirNode (s src) || !isDirNode (s dst.dropLast)
        || (s dst).isSome then (.error .os, s)
    else (.ok ⟨⟩, moved s src dst)
  | .symlink target p, _, s =>
    if w.fails (.symlink target p) || (s p).isSome then (.error .os, s)
    else (.ok ⟨⟩, Function.update s p (some (.link ⟨true, target⟩)))
  | .replace src dst, _, s =>
    if w.fails (.replace src dst) || isDirNode (s dst) then (.error .os, s)
    else (.ok ⟨⟩, Function.update (Function.update s dst (s src)) src none)
  | .unlink p, _, s =>
    (.ok ⟨⟩, if w.fails (.unlink p) || isDirNode (s p) then s else Function.update s p none)
  | .resolves p, _, s =>
    (if w.fails (.resolves p) then .error .os
      else .ok (isLinkNode (s p) && (read s p).isSome), s)

end Device

section Program
variable (root : Root) (r : Request)

def ask (op : Op) : Code op.Answer := Script.ask op

/-- The trees of one plugin in the layout of today; `rel` is a path below `tools_root`. -/
def modernOwn (plugin : String) : List String → Bool
  | head :: rest => head = "venv-" ++ plugin
    || (head = "npm" || head = "tarball") && rest.head? = some plugin
  | [] => false

/-- The target of a launcher below `tools_root`. -/
def Root.relative (dest : Target) : Option (List String) :=
  if dest.absolute && root.path.isPrefixOf dest.parts then
    some (dest.parts.drop root.path.length)
  else none

def ensureBinClaim (verifyBin : String) : Code PUnit := do
  let rows ← ask (.readManifest false)
  match rows.find? fun row => row.verifyBin = some verifyBin with
  | some row => if row.name = r.plugin.text then pure ⟨⟩ else Script.raise .ownership
  | none =>
    let occupied ← ask (.lstat (root.launcher verifyBin))
    if occupied then
      match ← ask (.readlink (root.launcher verifyBin)) with
      | none => Script.raise .ownership
      | some raw =>
        match root.relative raw with
        | none => Script.raise .ownership
        | some rel =>
          if rel.all (fun c => Plain c) && modernOwn r.plugin.text rel then pure ⟨⟩
          else Script.raise .ownership
    else pure ⟨⟩

def serving (targets : List Target) (candidate : Path) : Bool :=
  targets.any fun dest => dest.absolute && candidate.isPrefixOf dest.parts

def readlinks : List String → Code (List Target)
  | [] => pure []
  | name :: rest => do
    let raw ← ask (.readlink (root.launcher name))
    let more ← readlinks rest
    pure (raw.toList ++ more)

/-- `plugin_name-` begins the name of the directory. -/
def flatOf (plugin name : String) : Bool := (plugin.toList ++ ['-']).isPrefixOf name.toList

def ownedByLonger (rows : List Row) (plugin candidate : String) : Bool :=
  rows.any fun row => row.name ≠ plugin && (candidate = row.name || flatOf row.name candidate)
    && row.name.length > plugin.length

def reclaim : Code PUnit := do
  let rows ← ask (.readManifest true)
  let targets ← readlinks root (← ask .listBin)
  let entries ← ask .listGens
  Script.forEach (fun entry =>
    let candidate := root.gensDir r.plugin.text ++ [entry]
    if serving targets candidate then pure ⟨⟩ else ask (.rmtree candidate)) entries
  let flats ← ask .globFlat
  Script.forEach (fun name => do
    let candidate := root.path ++ [name]
    if flatOf r.plugin.text name then
      if ← ask (.isDir candidate) then
        if serving targets candidate then pure ⟨⟩
        else if "venv-".toList.isPrefixOf name.toList then pure ⟨⟩
        else if ownedByLonger rows r.plugin.text name then pure ⟨⟩
        else ask (.rmtree candidate)
      else pure ⟨⟩
    else pure ⟨⟩) flats

def firstFile (tree : Path) : List Path → Code (Option Path)
  | [] => pure none
  | rel :: rest => do
    if ← ask (.isFile (tree ++ rel)) then pure (some rel) else firstFile tree rest

/-- `_locate_verify_bin`, relative to the tree. -/
def locateVerifyBin (tree : Path) (verifyBin : String) : Code (Option Path) := do
  match ← firstFile tree [["bin", verifyBin], [verifyBin]] with
  | some rel => pure (some rel)
  | none => firstFile tree (← ask (.rglob tree verifyBin))

/-- `try: … finally: …`. -/
def cleaning {α : Type} (p : Code α) (cleanup : Code PUnit) : Code α :=
  Prog.bind p fun x => Prog.bind cleanup fun
    | .ok _ => Prog.done x
    | .error e => Prog.done (.error e)

def runInstallCmd (tree : Path) : Code PUnit :=
  if r.hasCmd then ask (.installCmd tree) else pure ⟨⟩

def stage (verifyBin : String) : Code (Option Path) := do
  let gens := root.gensDir r.plugin.text
  let staging ← ask (.mkdtemp gens)
  cleaning (do
    let tree := staging ++ ["tree"]
    ask (.copytree tree)
    runInstallCmd r tree
    match ← locateVerifyBin tree verifyBin with
    | none => pure none
    | some rel =>
      ask (.rename tree (r.version.place gens r.nonce))
      pure (some rel)) (ask (.rmtree staging))

def atomicSymlink (target link tmp : Path) : Code PUnit := do
  ask (.symlink target tmp)
  (ask (.replace tmp link)).rescue fun e => do
    ask (.unlink tmp)
    Script.raise e

structure InstallResult where
  ok : Bool
  verifyBinResolves : Bool
  installDir : Path
deriving DecidableEq

def installTarball : Code InstallResult := do
  let gens := root.gensDir r.plugin.text
  let installDir := r.version.installDir gens r.nonce
  if !r.urlAllowed || !r.cmdWellFormed then Script.raise .unsafeArchive
  else match r.verifyBin with
  | none => pure ⟨false, false, gens⟩
  | some verifyBin =>
    ensureBinClaim root r verifyBin.text
    Script.forEach (fun p => ask (.mkdir p))
      (root.path.inits.tail ++
        [root.bin, root.path ++ ["tarball"], root.gensDir r.plugin.text])
    reclaim root r
    ask .fetch
    match ← stage root r verifyBin.text with
    | none => pure ⟨true, false, installDir⟩
    | some rel =>
      let link := root.launcher verifyBin.text
      atomicSymlink (installDir ++ rel) link
        (root.launcher ("." ++ verifyBin.text ++ ".lnk-" ++ r.tmp))
      let resolves ← ask (.resolves link)
      pure ⟨true, resolves, installDir⟩

end Program

structure Call (C : Type) where
  request : Request
  world : World C
  dies : Option ℕ := none

section Calls
variable {C : Type} (root : Root)

def Call.outcome (c : Call C) (s : Files C) : Except Fault InstallResult × Files C :=
  Prog.outcome (device c.world) (fun _ => ⟨⟩) (installTarball root c.request) 0 s

def Call.events (c : Call C) (s : Files C) : List (Event sig (Files C)) :=
  Prog.events (device c.world) (fun _ => ⟨⟩) (installTarball root c.request) 0 s

def Call.after (c : Call C) (s : Files C) : Files C :=
  match c.dies with
  | none => (c.outcome root s).2
  | some k => (((c.events root s)[k]?).map (·.before)).getD (c.outcome root s).2

def Call.returns (c : Call C) (s : Files C) (v : InstallResult) : Prop :=
  c.dies = none ∧ (c.outcome root s).1 = .ok v

end Calls

end Casa.ToolInstall
