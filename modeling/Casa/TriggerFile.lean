import Casa.PythonValue
import Casa.YamlDocument

/-! The writers of a role's `triggers.yaml`: the reminder tools, which may touch the entries an
agent owns, and the configurator's mutators, which may touch the others. -/

namespace Casa.TriggerFile
open KeyedTable PythonDict PythonValue YamlDocument

inductive Refusal where
  | unreadable
  | unnamed
  | ownership
  | placeholder
  | duplicate
  | emission
  | invalid
  | disk

abbrev File := Option String

abbrev Code := ExceptT Refusal (StateM File)

/-! ### Placeholders -/

def isNameStart (c : Char) : Bool := c.isAlpha || c = '_'

def afterPlaceholder : List Char → Option (List Char)
  | '$' :: '{' :: c :: rest =>
      if isNameStart c then
        match rest.dropWhile fun c => isNameStart c || c.isDigit with
        | '}' :: more => some more
        | _ => none
      else none
  | _ => none

/-- `_ENV_RE.search`. -/
def hasPlaceholder (s : String) : Bool :=
  s.toList.tails.any fun tail => (afterPlaceholder tail).isSome

/-- `_ENV_RE.fullmatch(value.strip())`. -/
def isPlaceholder (s : String) : Bool := afterPlaceholder (strip s).toList = some []

section Writers
variable {S W : Type} [DecidableEq S]

/-- What the library reads and writes, and the number of a fresh file's `schema_version`. -/
structure Store (S W : Type) where
  yaml : Yaml S W
  two : W

/-- What a call meets: the disk, the test of a text for a placeholder that stands alone, and the
loader's judgement of an entry in a candidate text. -/
structure Circumstances where
  lonePlaceholder : String → Bool
  accepts : String → String → Bool
  reads : Bool
  writes : Bool

def textField (key : String) (entry : Entry S W) : Option String :=
  match entry.lookup (.str key) with
  | some (.str s) => some s
  | _ => none

def itemName : Item S W → Option String
  | .dict entry => textField "name" entry
  | .other _ => none

def agentOwned : Item S W → Bool
  | .dict entry => textField "managed_by" entry = some "agent"
  | .other _ => false

/-- `isinstance(e, dict) and e.get("name") == name`. -/
def isNamed (name : String) (item : Item S W) : Bool := itemName item = some name

def entriesOf (doc : Document S W) : List (Item S W) :=
  match doc.lookup (.str "triggers") with
  | some (.list items) => items
  | _ => []

def withEntries (doc : Document S W) (items : List (Item S W)) : Document S W :=
  doc.set (.str "triggers") (.list items)

def Store.fresh (store : Store S W) : Document S W :=
  (Dict.set Table.empty (.str "schema_version") (.other (.other (.other store.two)))).set
    (.str "triggers") (.list [])

def Store.content (store : Store S W) : File → Option (Document S W)
  | none => some store.fresh
  | some text =>
      match store.yaml.load text with
      | some (.mapping doc) =>
          match doc.lookup (.str "triggers") with
          | some (.list _) => some doc
          | _ => none
      | _ => none

variable (store : Store S W) (met : Circumstances)

def readDoc : Code (File × Document S W) := do
  let file ← get
  match store.content file with
  | some doc => if met.reads || file = none then pure (file, doc) else throw .unreadable
  | none => throw .unreadable

def emit (doc : Document S W) : Code String :=
  match store.yaml.dump doc with
  | some text => pure text
  | none => throw .emission

def validateCandidate (candidate name : String) : Code PUnit :=
  if met.accepts candidate name then pure ⟨⟩ else throw .invalid

/-- `atomic_write_text`, which raises only before it replaces the file. -/
def atomicWriteText (text : String) : Code PUnit :=
  if met.writes then set (some text) else throw .disk

def require (ok : Bool) (refusal : Refusal) : Code PUnit :=
  if ok then pure ⟨⟩ else throw refusal

def nameOf (entry : Entry S W) : Code String :=
  match textField "name" entry with
  | some name => if name = "" then throw .unnamed else pure name
  | none => throw .unnamed

def isText (bad : String → Bool) : Value W → Bool
  | .str s => bad s
  | .other _ => false

def noneOf (bad : String → Bool) (entry : Entry S W) : Bool :=
  !entry.rows.any fun row => isText bad row.2

def addEntry (entry : Entry S W) : Code PUnit := do
  let name ← nameOf entry
  require (agentOwned (.dict entry)) .ownership
  require (noneOf hasPlaceholder entry) .placeholder
  let (text, doc) ← readDoc store met
  require (!text.any met.lonePlaceholder) .placeholder
  require (!(entriesOf doc).any (isNamed name)) .duplicate
  let textOut ← emit store (withEntries doc (entriesOf doc ++ [.dict entry]))
  validateCandidate met textOut name
  atomicWriteText met textOut

inductive Removal where
  | removed
  | notFound
  | notOwned

def removeEntry (name : String) : Code Removal := do
  let (_, doc) ← readDoc store met
  let named := (entriesOf doc).filter (isNamed name)
  if named.isEmpty then pure .notFound
  else if !named.any agentOwned then pure .notOwned
  else
    let text ← emit store (withEntries doc
      ((entriesOf doc).filter fun e => !(agentOwned e && isNamed name e)))
    atomicWriteText met text
    pure .removed

inductive Upsertion where
  | added
  | replaced

def upsertEntry (entry : Entry S W) : Code Upsertion := do
  let name ← nameOf entry
  require (!agentOwned (.dict entry)) .ownership
  require (noneOf isPlaceholder entry) .placeholder
  let (text, doc) ← readDoc store met
  require (!text.any met.lonePlaceholder) .placeholder
  let entries := entriesOf doc
  let named := entries.filter (isNamed name)
  require (named.length ≤ 1) .duplicate
  require (!named.any agentOwned) .ownership
  let entries := match entries.findIdx? (isNamed name) with
    | some i => entries.set i (.dict entry)
    | none => entries ++ [.dict entry]
  let textOut ← emit store (withEntries doc entries)
  validateCandidate met textOut name
  atomicWriteText met textOut
  pure (if named.isEmpty then .added else .replaced)

def deleteEntry (name : String) : Code Removal := do
  let (text, doc) ← readDoc store met
  let named := (entriesOf doc).filter (isNamed name)
  if named.isEmpty then pure .notFound
  else if named.any agentOwned then pure .notOwned
  else
    require (!text.any met.lonePlaceholder) .placeholder
    let text ← emit store (withEntries doc
      ((entriesOf doc).filter fun e => !(isNamed name e && !agentOwned e)))
    atomicWriteText met text
    pure .removed

end Writers

/-! ### What a call leaves -/

section Outcomes
variable {α β : Type}

def Code.after (x : Code α) (file : File) : Except Refusal α × File := x.run.run file

/-- An exception leaves the file alone, and a result comes with what `post` says. -/
def Settles (x : Code α) (file : File) (post : α → File → Prop) : Prop :=
  match x.after file with
  | (.error _, after) => after = file
  | (.ok a, after) => post a after

variable {x : Code α} {file : File} {post : α → File → Prop}

theorem settles_pure {a : α} (holds : post a file) : Settles (pure a) file post := holds

theorem settles_throw {e : Refusal} : Settles (throw e : Code α) file post := rfl

theorem Settles.mono {post' : α → File → Prop} (h : Settles x file post)
    (weaker : ∀ a after, post a after → post' a after) : Settles x file post' := by
  unfold Settles at h ⊢
  split
  · simp_all
  · next a after is =>
    rw [is] at h
    exact weaker a after h

theorem settles_look {p : α → Prop} {f : α → Code β} {post : β → File → Prop}
    (look : Settles x file fun a after => after = file ∧ p a)
    (then_ : ∀ a, p a → Settles (f a) file post) : Settles (x >>= f) file post := by
  unfold Settles at look
  cases is : x.after file with
  | mk result after =>
    rw [is] at look
    cases result with
    | error e =>
      have same : (x >>= f).after file = (.error e, after) := by
        unfold Code.after at is ⊢
        simp only [ExceptT.run_bind, StateT.run_bind, is]
        rfl
      rw [Settles, same]
      exact look
    | ok a =>
      obtain ⟨rfl, holds⟩ := look
      have same : (x >>= f).after after = (f a).after after := by
        unfold Code.after at is ⊢
        simp only [ExceptT.run_bind, StateT.run_bind, is]
        rfl
      rw [Settles, same]
      exact then_ a holds

theorem settles_return {b : β} {post : β → File → Prop}
    (h : Settles x file fun _ after => post b after) :
    Settles (x >>= fun _ => pure b) file post := by
  unfold Settles at h
  cases is : x.after file with
  | mk result after =>
    rw [is] at h
    have same : (x >>= fun _ => (pure b : Code β)).after file =
        (result.map fun _ => b, after) := by
      unfold Code.after at is ⊢
      simp only [ExceptT.run_bind, StateT.run_bind, is]
      cases result <;> rfl
    rw [Settles, same]
    cases result <;> exact h

theorem settles_get : Settles (get : Code File) file fun read after => after = file ∧ read = file :=
  ⟨rfl, rfl⟩

theorem settles_require {ok : Bool} {refusal : Refusal} :
    Settles (require ok refusal) file fun _ after => after = file ∧ ok = true := by
  unfold require
  cases ok with
  | true => exact settles_pure ⟨rfl, rfl⟩
  | false => exact settles_throw

section Parts
variable {S W : Type} [DecidableEq S] {store : Store S W} {met : Circumstances}

theorem readDoc_spec : Settles (readDoc store met) file fun read after =>
    after = file ∧ store.content file = some read.2 := by
  unfold readDoc
  refine settles_look settles_get ?_
  rintro _ rfl
  split
  · next doc is =>
    split
    · exact settles_pure ⟨rfl, is⟩
    · exact settles_throw
  · exact settles_throw

theorem nameOf_spec {entry : Entry S W} : Settles (nameOf entry) file fun name after =>
    after = file ∧ textField "name" entry = some name := by
  unfold nameOf
  split
  · next name is =>
    split
    · exact settles_throw
    · exact settles_pure ⟨rfl, is⟩
  · exact settles_throw

omit [DecidableEq S] in
theorem emit_spec {doc : Document S W} : Settles (emit store doc) file fun text after =>
    after = file ∧ store.yaml.load text = some (.mapping doc) := by
  unfold emit
  split
  · next text dumped => exact settles_pure ⟨rfl, store.yaml.load_dump _ _ dumped⟩
  · exact settles_throw

theorem validateCandidate_spec {candidate name : String} :
    Settles (validateCandidate met candidate name) file fun _ after =>
      after = file ∧ met.accepts candidate name = true := by
  unfold validateCandidate
  split
  · next ok => exact settles_pure ⟨rfl, ok⟩
  · exact settles_throw

theorem atomicWriteText_spec {text : String} :
    Settles (atomicWriteText met text) file fun _ after => after = some text := by
  unfold atomicWriteText
  split
  · exact rfl
  · exact settles_throw

end Parts

end Outcomes

/-! ### What a call may touch -/

section Ownership
variable {S W : Type} [DecidableEq S]

inductive Call (S W : Type) where
  | add (entry : Entry S W)
  | remove (name : String)
  | upsert (entry : Entry S W)
  | delete (name : String)

def Call.forAgents : Call S W → Bool
  | .add _ | .remove _ => true
  | .upsert _ | .delete _ => false

def Call.name : Call S W → Option String
  | .add entry | .upsert entry => textField "name" entry
  | .remove name | .delete name => some name

def Call.touches (call : Call S W) (item : Item S W) : Bool :=
  agentOwned item = call.forAgents && (itemName item).isSome && itemName item = call.name

def namesOf (items : List (Item S W)) : List String := items.filterMap itemName

structure Respects (call : Call S W) (items items' : List (Item S W)) : Prop where
  frame : items'.filter (fun i => !call.touches i) = items.filter fun i => !call.touches i
  fresh : ∀ i ∈ items', i ∉ items →
    ∃ entry, i = .dict entry ∧ (call = .add entry ∨ call = .upsert entry)
  grows : ∀ entry, call = .add entry → items.Sublist items'
  distinct : (namesOf items).Nodup → (namesOf items').Nodup

theorem touches_iff {call : Call S W} {item : Item S W} : call.touches item = true ↔
    agentOwned item = call.forAgents ∧
      ∃ name, itemName item = some name ∧ call.name = some name := by
  simp only [Call.touches, Bool.and_eq_true, decide_eq_true_eq, Option.isSome_iff_exists]
  constructor
  · rintro ⟨⟨side, name, is⟩, same⟩
    exact ⟨side, name, is, same ▸ is⟩
  · rintro ⟨side, name, is, same⟩
    exact ⟨⟨side, name, is⟩, is.trans same.symm⟩

theorem respects_append {call : Call S W} {items : List (Item S W)} {entry : Entry S W}
    {name : String} (is : call = .add entry ∨ call = .upsert entry)
    (side : agentOwned (.dict entry) = call.forAgents) (named : textField "name" entry = some name)
    (absent : ∀ i ∈ items, isNamed name i = false) :
    Respects call items (items ++ [.dict entry]) := by
  have own : call.touches (.dict entry) = true := by
    refine touches_iff.mpr ⟨side, name, named, ?_⟩
    rcases is with rfl | rfl <;> exact named
  have nowhere : name ∉ namesOf items := by
    intro mem
    obtain ⟨i, inside, found⟩ := List.mem_filterMap.mp mem
    have here := absent i inside
    simp [isNamed, found] at here
  refine ⟨by simp [own], ?_, fun _ _ => List.sublist_append_left _ _, fun nodup => ?_⟩
  · intro i mem out
    rcases List.mem_append.mp mem with old | new
    · exact absurd old out
    · exact ⟨entry, List.mem_singleton.mp new, is⟩
  · have last : namesOf [Item.dict entry] = [name] := by simp [namesOf, itemName, named]
    rw [namesOf, List.filterMap_append, ← namesOf, ← namesOf, last]
    exact nodup.append (List.nodup_singleton _) (by simpa using nowhere)

theorem respects_replace {before after : List (Item S W)} {old : Item S W} {entry : Entry S W}
    {name : String} (side : agentOwned (.dict entry) = false)
    (named : textField "name" entry = some name) (oldSide : agentOwned old = false)
    (oldNamed : isNamed name old = true) :
    Respects (.upsert entry) (before ++ old :: after) (before ++ .dict entry :: after) := by
  have oldName : itemName old = some name := of_decide_eq_true oldNamed
  have touched : (Call.upsert entry).touches (.dict entry) = true :=
    touches_iff.mpr ⟨side, name, named, named⟩
  have touchedOld : (Call.upsert entry).touches old = true :=
    touches_iff.mpr ⟨oldSide, name, oldName, named⟩
  refine ⟨by simp [touched, touchedOld], ?_, ?_, ?_⟩
  · intro i mem out
    simp only [List.mem_append, List.mem_cons, not_or] at mem out
    obtain rfl : i = .dict entry := by tauto
    exact ⟨entry, rfl, .inr rfl⟩
  · intro _ is
    cases is
  · intro nodup
    have same : namesOf (before ++ .dict entry :: after) = namesOf (before ++ old :: after) := by
      have entryName : itemName (.dict entry : Item S W) = some name := named
      simp [namesOf, List.filterMap_append, oldName, entryName]
    rwa [same]

theorem respects_filter {call : Call S W} {items : List (Item S W)} {keep : Item S W → Bool}
    (removal : ∀ entry, call ≠ .add entry) (kept : ∀ i, call.touches i = false → keep i = true) :
    Respects call items (items.filter keep) := by
  refine ⟨?_, ?_, fun entry is => absurd is (removal entry), fun nodup => ?_⟩
  · rw [List.filter_filter]
    refine List.filter_congr fun i _ => ?_
    cases touched : call.touches i with
    | true => simp
    | false => simp [kept i touched]
  · intro i mem out
    exact absurd (List.mem_of_mem_filter mem) out
  · exact nodup.sublist (List.filter_sublist.filterMap _)

theorem split_of_findIdx? {α : Type} {p : α → Bool} {xs : List α} {i : ℕ}
    (found : xs.findIdx? p = some i) : ∃ before x after, xs = before ++ x :: after ∧
      p x = true ∧ ∀ y, xs.set i y = before ++ y :: after := by
  obtain ⟨lt, holds, -⟩ := List.findIdx?_eq_some_iff_getElem.mp found
  refine ⟨xs.take i, xs[i], xs.drop (i + 1), ?_, holds, fun y => ?_⟩
  · rw [← List.drop_eq_getElem_cons lt, List.take_append_drop]
  · rw [List.set_eq_take_append_cons_drop, if_pos lt]

end Ownership

section Calls
variable {S W : Type} [DecidableEq S] {store : Store S W} {met : Circumstances} {file : File}

/-- The file is as it was, or its document has the entries changed as the call may change them. -/
def Keeps (store : Store S W) (call : Call S W) (file after : File) : Prop :=
  after = file ∨ ∃ doc items, store.content file = some doc ∧
    store.content after = some (withEntries doc items) ∧ Respects call (entriesOf doc) items

theorem content_written {text : String} {doc : Document S W} {items : List (Item S W)}
    (loads : store.yaml.load text = some (.mapping (withEntries doc items))) :
    store.content (some text) = some (withEntries doc items) := by
  simp [Store.content, loads, withEntries, Dict.lookup_set]

theorem add_keeps (entry : Entry S W) : Settles (addEntry store met entry) file fun _ after =>
    Keeps store (.add entry) file after := by
  unfold addEntry
  refine settles_look nameOf_spec fun name named => ?_
  refine settles_look settles_require fun _ owned => ?_
  refine settles_look settles_require fun _ _ => ?_
  refine settles_look readDoc_spec fun read content => ?_
  refine settles_look settles_require fun _ _ => ?_
  refine settles_look settles_require fun _ unique_ => ?_
  refine settles_look emit_spec fun text loads => ?_
  refine settles_look validateCandidate_spec fun _ _ => ?_
  refine atomicWriteText_spec.mono fun _ after is => ?_
  subst is
  refine .inr ⟨read.2, _, content, content_written loads, ?_⟩
  exact respects_append (.inl rfl) owned named (by simpa using unique_)

theorem remove_keeps (name : String) : Settles (removeEntry store met name) file fun _ after =>
    Keeps store (.remove name) file after := by
  unfold removeEntry
  refine settles_look readDoc_spec fun read content => ?_
  dsimp only
  split
  · exact settles_pure (.inl rfl)
  · split
    · exact settles_pure (.inl rfl)
    · refine settles_look emit_spec fun text loads => ?_
      refine settles_return (atomicWriteText_spec.mono fun _ after is => ?_)
      subst is
      refine .inr ⟨read.2, _, content, content_written loads, respects_filter (by simp) ?_⟩
      intro i untouched
      by_contra dropped
      have both : agentOwned i = true ∧ isNamed name i = true := by simpa using dropped
      have touched : (Call.remove name : Call S W).touches i = true :=
        touches_iff.mpr ⟨both.1, name, of_decide_eq_true both.2, rfl⟩
      rw [untouched] at touched
      cases touched

theorem delete_keeps (name : String) : Settles (deleteEntry store met name) file fun _ after =>
    Keeps store (.delete name) file after := by
  unfold deleteEntry
  refine settles_look readDoc_spec fun read content => ?_
  dsimp only
  split
  · exact settles_pure (.inl rfl)
  · split
    · exact settles_pure (.inl rfl)
    · refine settles_look settles_require fun _ _ => ?_
      refine settles_look emit_spec fun text loads => ?_
      refine settles_return (atomicWriteText_spec.mono fun _ after is => ?_)
      subst is
      refine .inr ⟨read.2, _, content, content_written loads, respects_filter (by simp) ?_⟩
      intro i untouched
      by_contra dropped
      have both : isNamed name i = true ∧ agentOwned i = false := by simpa using dropped
      have touched : (Call.delete name : Call S W).touches i = true :=
        touches_iff.mpr ⟨both.2, name, of_decide_eq_true both.1, rfl⟩
      rw [untouched] at touched
      cases touched

theorem upsert_keeps (entry : Entry S W) : Settles (upsertEntry store met entry) file
    fun _ after => Keeps store (.upsert entry) file after := by
  unfold upsertEntry
  refine settles_look nameOf_spec fun name named => ?_
  refine settles_look settles_require fun _ side => ?_
  refine settles_look settles_require fun _ _ => ?_
  refine settles_look readDoc_spec fun read content => ?_
  refine settles_look settles_require fun _ _ => ?_
  refine settles_look settles_require fun _ _ => ?_
  refine settles_look settles_require fun _ others => ?_
  refine settles_look emit_spec fun text loads => ?_
  refine settles_look validateCandidate_spec fun _ _ => ?_
  refine settles_return (atomicWriteText_spec.mono fun _ after is => ?_)
  subst is
  have side : agentOwned (.dict entry) = false := by simpa using side
  refine .inr ⟨read.2, _, content, content_written loads, ?_⟩
  cases found : (entriesOf read.2).findIdx? (isNamed name) with
  | none =>
    exact respects_append (.inr rfl) side named (by simpa using List.findIdx?_eq_none_iff.mp found)
  | some i =>
    obtain ⟨before, old, after, parts, oldNamed, set_⟩ := split_of_findIdx? found
    simp only [set_]
    rw [parts]
    refine respects_replace side named ?_ oldNamed
    have mem : old ∈ (entriesOf read.2).filter (isNamed name) := by simp [parts, oldNamed]
    simp only [Bool.not_eq_true', List.any_eq_false] at others
    simpa using others old mem

end Calls

/-! ### Runs -/

section Runs
variable {S W : Type} [DecidableEq S]

def Call.code (store : Store S W) (met : Circumstances) : Call S W → Code PUnit
  | .add entry => addEntry store met entry
  | .remove name => removeEntry store met name >>= fun _ => pure ⟨⟩
  | .upsert entry => upsertEntry store met entry >>= fun _ => pure ⟨⟩
  | .delete name => deleteEntry store met name >>= fun _ => pure ⟨⟩

def runCalls (store : Store S W) (calls : List (Circumstances × Call S W)) (file : File) : File :=
  calls.foldl (fun file call => ((call.2.code store call.1).after file).2) file

def changes (store : Store S W) : List (Circumstances × Call S W) → File → List (Call S W)
  | [], _ => []
  | call :: rest, file =>
      let after := ((call.2.code store call.1).after file).2
      if after = file then changes store rest after
      else call.2 :: changes store rest after

def AddedBy (calls : List (Call S W)) (entry : Entry S W) : Prop :=
  if agentOwned (.dict entry) then .add entry ∈ calls else .upsert entry ∈ calls

/-- A call of the sequence takes the item of that name out or puts another in its place. -/
def RemovedBy (calls : List (Call S W)) (item : Item S W) (name : String) : Prop :=
  if agentOwned item then .remove name ∈ calls
  else .delete name ∈ calls ∨ ∃ entry, textField "name" entry = some name ∧ .upsert entry ∈ calls

structure Preserved (calls : List (Call S W)) (doc doc' : Document S W) : Prop where
  keys : doc'.keys = doc.keys
  fields : ∀ key, key ≠ .str "triggers" → doc'.lookup key = doc.lookup key
  order : (entriesOf doc').filter (fun i => calls.all fun call => !call.touches i) =
    (entriesOf doc).filter fun i => calls.all fun call => !call.touches i
  added : ∀ i ∈ entriesOf doc', i ∉ entriesOf doc → ∃ entry, i = .dict entry ∧ AddedBy calls entry
  removed : ∀ i ∈ entriesOf doc, i ∉ entriesOf doc' →
    ∃ name, itemName i = some name ∧ RemovedBy calls i name
  distinct : (namesOf (entriesOf doc)).Nodup → (namesOf (entriesOf doc')).Nodup

theorem AddedBy.mono {calls calls' : List (Call S W)} {entry : Entry S W}
    (more : calls ⊆ calls') (h : AddedBy calls entry) : AddedBy calls' entry := by
  unfold AddedBy at h ⊢
  split <;> simp_all only [if_true, if_false, Bool.false_eq_true] <;> exact more h

theorem RemovedBy.mono {calls calls' : List (Call S W)} {item : Item S W} {name : String}
    (more : calls ⊆ calls') (h : RemovedBy calls item name) : RemovedBy calls' item name := by
  unfold RemovedBy at h ⊢
  split
  · next owned => exact more (by simpa [owned] using h)
  · next owned =>
    rw [if_neg owned] at h
    exact h.imp (fun mem => more mem) fun ⟨entry, named, mem⟩ => ⟨entry, named, more mem⟩

variable {store : Store S W} {met : Circumstances} {file : File} {call : Call S W}

theorem code_keeps : Settles (call.code store met) file fun _ after =>
    Keeps store call file after := by
  cases call with
  | add entry => exact add_keeps entry
  | remove name => exact settles_return (remove_keeps name)
  | upsert entry => exact settles_return (upsert_keeps entry)
  | delete name => exact settles_return (delete_keeps name)

theorem keeps_after : Keeps store call file ((call.code store met).after file).2 := by
  have settled : Settles (call.code store met) file _ := code_keeps
  unfold Settles at settled
  split at settled
  · next is => exact .inl (by rw [is, settled])
  · next is => rwa [is]

theorem content_list {doc : Document S W} (is : store.content file = some doc) :
    ∃ items, doc.lookup (.str "triggers") = some (.list items) := by
  unfold Store.content at is
  split at is
  · obtain rfl := Option.some.inj is
    exact ⟨[], by simp [Store.fresh, Dict.lookup_set]⟩
  · split at is
    · split at is
      · next items found =>
        obtain rfl := Option.some.inj is
        exact ⟨items, found⟩
      · cases is
    · cases is

theorem entriesOf_withEntries (doc : Document S W) (items : List (Item S W)) :
    entriesOf (withEntries doc items) = items := by
  simp [entriesOf, withEntries, Dict.lookup_set]

theorem preserved_step {doc : Document S W} {items old : List (Item S W)}
    (list : doc.lookup (.str "triggers") = some (.list old))
    (respects : Respects call (entriesOf doc) items) :
    Preserved [call] doc (withEntries doc items) := by
  have lost : ∀ i ∈ entriesOf doc, i ∉ items → call.touches i = true := by
    intro i mem out
    by_contra untouched
    have kept : i ∈ (entriesOf doc).filter fun i => !call.touches i := by
      simpa [mem] using untouched
    rw [← respects.frame] at kept
    exact out (List.mem_of_mem_filter kept)
  have new : ∀ i ∈ items, i ∉ entriesOf doc → call.touches i = true := by
    intro i mem out
    by_contra untouched
    have kept : i ∈ items.filter fun i => !call.touches i := by simpa [mem] using untouched
    rw [respects.frame] at kept
    exact out (List.mem_of_mem_filter kept)
  refine ⟨?_, ?_, ?_, ?_, ?_, ?_⟩
  · have there : (Key.str "triggers" : Key S) ∈ doc.keys := by
      rw [← Dict.lookup_isSome, list]
      rfl
    exact insertRow_of_mem there
  · intro key apart
    rw [withEntries, Dict.lookup_set, if_neg (Ne.symm apart)]
  · simpa [entriesOf_withEntries] using respects.frame
  · rw [entriesOf_withEntries]
    intro i mem out
    obtain ⟨entry, is, by_⟩ := respects.fresh i mem out
    have side := (touches_iff.mp (new i mem out)).1
    refine ⟨entry, is, ?_⟩
    rw [is] at side
    rcases by_ with rfl | rfl <;> simp [AddedBy, side, Call.forAgents]
  · rw [entriesOf_withEntries]
    intro i mem out
    obtain ⟨side, name, is, named⟩ := touches_iff.mp (lost i mem out)
    refine ⟨name, is, ?_⟩
    unfold RemovedBy
    cases call with
    | add entry => exact absurd ((respects.grows entry rfl).subset mem) out
    | remove other =>
      obtain rfl : other = name := Option.some.inj named
      simp [side, Call.forAgents]
    | upsert entry =>
      rw [side]
      exact .inr ⟨entry, named, List.mem_singleton_self _⟩
    | delete other =>
      obtain rfl : other = name := Option.some.inj named
      rw [side]
      exact .inl (List.mem_singleton_self _)
  · rw [entriesOf_withEntries]
    exact respects.distinct

theorem Preserved.refl (calls : List (Call S W)) (doc : Document S W) : Preserved calls doc doc :=
  ⟨rfl, fun _ _ => rfl, rfl, fun _ mem out => absurd mem out, fun _ mem out => absurd mem out, id⟩

theorem Preserved.trans {calls calls' : List (Call S W)} {a b c : Document S W}
    (first : Preserved calls a b) (second : Preserved calls' b c) :
    Preserved (calls ++ calls') a c := by
  refine ⟨second.keys.trans first.keys,
    fun key apart => (second.fields key apart).trans (first.fields key apart), ?_, ?_, ?_,
    second.distinct ∘ first.distinct⟩
  · simp only [List.all_append, ← List.filter_filter]
    rw [second.order, List.filter_comm, first.order, List.filter_comm]
  · intro i mem out
    by_cases between : i ∈ entriesOf b
    · obtain ⟨entry, is, by_⟩ := first.added i between out
      exact ⟨entry, is, by_.mono (List.subset_append_left _ _)⟩
    · obtain ⟨entry, is, by_⟩ := second.added i mem between
      exact ⟨entry, is, by_.mono (List.subset_append_right _ _)⟩
  · intro i mem out
    by_cases between : i ∈ entriesOf b
    · obtain ⟨name, is, by_⟩ := second.removed i between out
      exact ⟨name, is, by_.mono (List.subset_append_right _ _)⟩
    · obtain ⟨name, is, by_⟩ := first.removed i mem between
      exact ⟨name, is, by_.mono (List.subset_append_left _ _)⟩

theorem run_preserves {calls : List (Circumstances × Call S W)} {doc : Document S W}
    (content : store.content file = some doc) :
    ∃ doc', store.content (runCalls store calls file) = some doc' ∧
      Preserved (changes store calls file) doc doc' := by
  induction calls generalizing file doc with
  | nil => exact ⟨doc, content, .refl [] doc⟩
  | cons call rest ih =>
    have kept : Keeps store call.2 file ((call.2.code store call.1).after file).2 := keeps_after
    rw [runCalls, List.foldl_cons, ← runCalls, changes]
    split
    · next same =>
      rw [same]
      exact ih content
    · next changed =>
      obtain ⟨before, items, is, after, respects⟩ := kept.resolve_left changed
      obtain rfl := Option.some.inj (content.symm.trans is)
      obtain ⟨old, list⟩ := content_list content
      obtain ⟨doc', is, preserved⟩ := ih after
      exact ⟨doc', is, (preserved_step list respects).trans preserved⟩

theorem run_unreadable {calls : List (Circumstances × Call S W)}
    (unreadable : store.content file = none) : runCalls store calls file = file := by
  induction calls with
  | nil => rfl
  | cons call rest ih =>
    rcases (keeps_after : Keeps store call.2 file ((call.2.code store call.1).after file).2) with
      same | ⟨before, items, is, -⟩
    · rw [runCalls, List.foldl_cons, same]
      exact ih
    · rw [unreadable] at is
      cases is

/-- Over any sequence of calls each entry of the file is touched by its owner's calls for its name
only, the rest keeps its values and its order, names stay distinct, and a call that raises leaves
the file as it was. Only the calls that change the file count. -/
theorem writers_respect_owners (store : Store S W) :
    (∀ (met : Circumstances) (call : Call S W) (file : File) (e : Refusal) (after : File),
      (call.code store met).after file = (.error e, after) → after = file) ∧
    ∀ (calls : List (Circumstances × Call S W)) (file : File),
      match store.content file with
      | none => runCalls store calls file = file
      | some doc => ∃ doc', store.content (runCalls store calls file) = some doc' ∧
          Preserved (changes store calls file) doc doc' := by
  constructor
  · intro met call file e after raised
    have settled : Settles (call.code store met) file _ := code_keeps
    rwa [Settles, raised] at settled
  · intro calls file
    split
    · next unreadable => exact run_unreadable unreadable
    · next doc content => exact run_preserves content

end Runs

section Reminder

def reminder : Entry Empty ℕ :=
  ⟨[(.str "name", .str "r"), (.str "managed_by", .str "agent")], by decide⟩

def freshText : String := "schema_version: 2\ntriggers: []\n"

def reminderText : String :=
  "schema_version: 2\ntriggers:\n- name: r\n  managed_by: agent\n"

def freshDoc : Document Empty ℕ :=
  ⟨[(.str "schema_version", .other (.other (.other 2))), (.str "triggers", .list [])], by decide⟩

def reminderStore : Store Empty ℕ where
  yaml := {
    load := fun text =>
      if text = freshText then some (.mapping freshDoc)
      else if text = reminderText then some (.mapping (withEntries freshDoc [.dict reminder]))
      else none
    dump := fun doc =>
      if doc = freshDoc then some freshText
      else if doc = withEntries freshDoc [.dict reminder] then some reminderText
      else none
    load_dump := by
      intro doc text dumped
      have apart : reminderText ≠ freshText := by decide
      split at dumped
      · next is =>
        obtain rfl := Option.some.inj dumped
        rw [if_pos rfl, is]
      · split at dumped
        · next is =>
          obtain rfl := Option.some.inj dumped
          rw [if_neg apart, if_pos rfl, is]
        · cases dumped }
  two := 2

def calm : Circumstances := ⟨fun _ => false, fun _ _ => true, true, true⟩

/-- The configurator's delete is no way to a reminder, and an entry without a name is refused. -/
theorem reminder_stays :
    (∃ doc', reminderStore.content (runCalls reminderStore
        [(calm, .add reminder), (calm, .delete "r")] none) = some doc' ∧
      Preserved [.add reminder] freshDoc doc') ∧
    ((Call.code reminderStore calm (.upsert Table.empty)).after (some freshText)).2 =
      some freshText := by
  constructor
  · exact (writers_respect_owners reminderStore).2 [(calm, .add reminder), (calm, .delete "r")] none
  · exact (writers_respect_owners reminderStore).1 calm (.upsert Table.empty) _ .unnamed _ rfl

end Reminder

end Casa.TriggerFile
