import Casa.OperationTree

/-! The source directories of the engagement services, in single file operations: an engagement's
pair is written and removed file by file, and the prune puts a torn half right. An engagement id is
a hex UUID, so the names of its two directories are told apart; the bytes of the scripts play no
part, nor does the mode of `run`. One caller at a time works on the tree. -/

namespace Casa.ServiceSources
open OperationTree

variable {Id : Type}

/-- `engagement-<id>` and `engagement-<id>-log`. -/
inductive Service (Id : Type) where
  | main (e : Id)
  | log (e : Id)
deriving DecidableEq

def Service.engagement : Service Id → Id
  | main e => e
  | log e => e

inductive Entry where
  | type
  | run
  | dependencies
  | producerFor
  | consumerFor
deriving DecidableEq

/-- What a source directory holds; a reference that is created and not yet written names nothing,
and `dependencies.d` holds names. -/
structure Dir (Id : Type) where
  type : Option String
  run : Option String
  dependencies : Option (List String)
  producerFor : Option (Option (Service Id))
  consumerFor : Option (Option (Service Id))
deriving DecidableEq

namespace Dir

def empty : Dir Id := ⟨none, none, none, none, none⟩

def has (d : Dir Id) : Entry → Bool
  | .type => d.type.isSome
  | .run => d.run.isSome
  | .dependencies => d.dependencies.isSome
  | .producerFor => d.producerFor.isSome
  | .consumerFor => d.consumerFor.isSome

def create (d : Dir Id) : Entry → Dir Id
  | .type => { d with type := some "" }
  | .run => { d with run := some "" }
  | .dependencies => { d with dependencies := some [] }
  | .producerFor => { d with producerFor := some none }
  | .consumerFor => { d with consumerFor := some none }

def without (d : Dir Id) : Entry → Dir Id
  | .type => { d with type := none }
  | .run => { d with run := none }
  | .dependencies => { d with dependencies := none }
  | .producerFor => { d with producerFor := none }
  | .consumerFor => { d with consumerFor := none }

def entries (d : Dir Id) : List Entry :=
  [Entry.type, .run, .dependencies, .producerFor, .consumerFor].filter d.has

def standalone (d : Dir Id) : Bool := d.type.isSome && d.run.isSome && d.dependencies.isSome

end Dir

inductive Content (Id : Type) where
  | type (text : String)
  | run (text : String)
  | producerFor (s : Service Id)
  | consumerFor (s : Service Id)

def Content.entry : Content Id → Entry
  | type _ => .type
  | run _ => .run
  | producerFor _ => .producerFor
  | consumerFor _ => .consumerFor

def Dir.write (d : Dir Id) : Content Id → Dir Id
  | .type text => { d with type := some text }
  | .run text => { d with run := some text }
  | .producerFor s => { d with producerFor := some (some s) }
  | .consumerFor s => { d with consumerFor := some (some s) }

def Dir.touch (d : Dir Id) (dep : String) : Dir Id :=
  { d with dependencies := d.dependencies.map fun deps =>
      if dep ∈ deps then deps else deps ++ [dep] }

def Dir.rmdirDependencies (d : Dir Id) : Dir Id :=
  if d.dependencies = some [] then { d with dependencies := none } else d

def Dir.unlinkDependency (d : Dir Id) (dep : String) : Dir Id :=
  { d with dependencies := d.dependencies.map (·.filter (· ≠ dep)) }

abbrev SourceTree (Id : Type) := Service Id → Option (Dir Id)

variable [DecidableEq Id]

def SourceTree.set (t : SourceTree Id) (s : Service Id) (d : Option (Dir Id)) : SourceTree Id := Function.update t s d

def SourceTree.revise (t : SourceTree Id) (s : Service Id) (f : Dir Id → Dir Id) : SourceTree Id :=
  t.set s ((t s).map f)

@[simp]
theorem set_self (t : SourceTree Id) (s : Service Id) (d : Option (Dir Id)) : t.set s d s = d := by
  unfold SourceTree.set
  rw [Function.update_self]

theorem set_other {t : SourceTree Id} {s s' : Service Id} (apart : s' ≠ s) (d : Option (Dir Id)) :
    t.set s d s' = t s' := by
  unfold SourceTree.set
  rw [Function.update_of_ne apart]

/-! ### The prune -/

def pruneEntry (t : SourceTree Id) (s : Service Id) : SourceTree Id :=
  match t s with
  | none => t
  | some d =>
      match s with
      | .log e =>
          if ((t (.main e)).bind Dir.producerFor).isSome then t else t.set (.log e) none
      | .main e =>
          match d.producerFor with
          | some (some target) =>
              if (t target).isSome then t else t.revise (.main e) (·.without .producerFor)
          | _ => t

/-- `_prune_broken_pairs`, in the order in which the directories are listed. -/
def prune (order : List (Service Id)) (t : SourceTree Id) : SourceTree Id := order.foldl pruneEntry t

/-! ### The file operations -/

inductive FsOp (Id : Type) where
  | mkdir (s : Service Id)
  | create (s : Service Id) (entry : Entry)
  | write (s : Service Id) (content : Content Id)
  | touch (s : Service Id) (dep : String)
  | exists_ (s : Service Id)
  | scandir (s : Service Id)
  | unlink (s : Service Id) (entry : Entry)
  | scanDependencies (s : Service Id)
  | unlinkDependency (s : Service Id) (dep : String)
  | rmdirDependencies (s : Service Id)
  | rmdir (s : Service Id)
  | prune (order : List (Service Id))

def FsOp.Answer : FsOp Id → Type
  | mkdir _ | exists_ _ => Bool
  | scandir _ => List Entry
  | scanDependencies _ => List String
  | _ => PUnit

def fsSig (Id : Type) : Signature := ⟨FsOp Id, FsOp.Answer⟩

/-- The order in which a directory lists what it holds is the outside world's. -/
structure Listing where
  entries : List Entry
  names : List String

def arrange {α : Type} [DecidableEq α] (order items : List α) : List α :=
  order.filter (· ∈ items) ++ items.filter (· ∉ order)

def SourceTree.mkdir (t : SourceTree Id) (s : Service Id) : Bool × SourceTree Id :=
  if (t s).isSome then (false, t) else (true, t.set s (some .empty))

def SourceTree.rmdir (t : SourceTree Id) (s : Service Id) : SourceTree Id :=
  if ((t s).map Dir.entries).getD [] = [] then t.set s none else t

def perform : Device (fsSig Id) Listing (SourceTree Id)
  | .mkdir s, _, t => t.mkdir s
  | .create s entry, _, t => (⟨⟩, t.revise s (·.create entry))
  | .write s content, _, t => (⟨⟩, t.revise s (·.write content))
  | .touch s dep, _, t => (⟨⟩, t.revise s (·.touch dep))
  | .exists_ s, _, t => ((t s).isSome, t)
  | .scandir s, i, t => (arrange i.entries (((t s).map Dir.entries).getD []), t)
  | .unlink s entry, _, t => (⟨⟩, t.revise s (·.without entry))
  | .scanDependencies s, i, t => (arrange i.names (((t s).bind Dir.dependencies).getD []), t)
  | .unlinkDependency s dep, _, t => (⟨⟩, t.revise s (·.unlinkDependency dep))
  | .rmdirDependencies s, _, t => (⟨⟩, t.revise s Dir.rmdirDependencies)
  | .rmdir s, _, t => (⟨⟩, t.rmdir s)
  | .prune order, _, t => (⟨⟩, ServiceSources.prune order t)

/-! ### The calls -/

abbrev Script (Id α : Type) := Prog (fsSig Id) α

def call (op : FsOp Id) : Script Id op.Answer := Prog.ask (S := fsSig Id) op

def writeText (s : Service Id) (content : Content Id) : Script Id PUnit := do
  call (.create s content.entry)
  call (.write s content)

def fillLongrun (s : Service Id) (runScript : String) (dependsOn : List String) :
    Script Id PUnit := do
  writeText s (.type "longrun\n")
  writeText s (.run runScript)
  call (.create s .dependencies)
  let _ ← Prog.forEach (fun dep => call (.touch s dep)) dependsOn
  pure ⟨⟩

/-- `_emit_longrun`; a directory that exists raises. -/
def emitLongrun (s : Service Id) (runScript : String) (dependsOn : List String)
    (next : Script Id PUnit) : Script Id PUnit := do
  let fresh : Bool ← call (.mkdir s)
  if fresh then do
    fillLongrun s runScript dependsOn
    next
  else pure ⟨⟩

def writeLogger (e : Id) (dependsOn : List String) : Option String → Script Id PUnit
  | none => pure ⟨⟩
  | some logRunScript =>
      emitLongrun (.log e) logRunScript dependsOn do
        writeText (.log e) (.consumerFor (.main e))
        writeText (.main e) (.producerFor (.log e))

def writeServiceDir (e : Id) (runScript : String) (dependsOn : List String)
    (logRunScript : Option String) : Script Id PUnit :=
  emitLongrun (.main e) runScript dependsOn (writeLogger e dependsOn logRunScript)

def removeEntry (s : Service Id) : Entry → Script Id PUnit
  | .dependencies => do
      let deps ← call (.scanDependencies s)
      let _ ← Prog.forEach (fun dep => call (.unlinkDependency s dep)) deps
      call (.rmdirDependencies s)
  | entry => call (.unlink s entry)

def rmtree (s : Service Id) : Script Id PUnit := do
  let entries ← call (.scandir s)
  let _ ← Prog.forEach (removeEntry s) entries
  call (.rmdir s)

def removeDir (s : Service Id) : Script Id PUnit := do
  let found : Bool ← call (.exists_ s)
  if found then rmtree s else pure ⟨⟩

def removeServiceDir (e : Id) : Script Id PUnit := do
  removeDir (.log e)
  removeDir (.main e)

inductive Call (Id : Type) where
  | write (e : Id) (runScript : String) (dependsOn : List String) (logRunScript : Option String)
  | remove (e : Id)
  | prune (order : List (Service Id))

def Call.script : Call Id → Script Id PUnit
  | write e runScript dependsOn logRunScript => writeServiceDir e runScript dependsOn logRunScript
  | remove e => removeServiceDir e
  | prune order => ServiceSources.call (.prune order)

def sources (Id : Type) [DecidableEq Id] : Host (fsSig Id) Listing (SourceTree Id) PEmpty (Call Id) where
  run := perform
  env e _ := e.elim
  program := Call.script
  crash t := t

def start : Config (fsSig Id) (SourceTree Id) (Call Id) := ⟨fun _ => none, none⟩

end Casa.ServiceSources
