import Casa.PluginRegistry
import Mathlib.Data.List.Perm.Basic

/-! The plugin registry as a document: which of its entries hold, and the swap of the entries that
one specialist owns. -/

namespace Casa.OwnedSwap
open CanonicalJson (Points Value)
open PluginRegistry

/-! ### The document -/

def has (members : Members) (key : String) : Bool := members.any (·.1 = text key)

/-- `d[key] = value`. -/
def set (members : Members) (key : String) (value : Value) : Members :=
  if has members key then members.map fun m => if m.1 = text key then (m.1, value) else m
  else members ++ [(text key, value)]

def setdefault (members : Members) (key : String) (value : Value) : Members :=
  if has members key then members else members ++ [(text key, value)]

/-- `value == 1`. -/
def isOne : Value → Bool
  | .int n => n = 1
  | .bool b => b
  | .float x => x.chars = ['1', '.', '0']
  | _ => false

/-- `bool(value)`. -/
def truthy : Value → Bool
  | .null => false
  | .bool b => b
  | .int n => n ≠ 0
  | .float x => x.chars ≠ ['0', '.', '0'] && x.chars ≠ ['-', '0', '.', '0']
  | .str s => s ≠ []
  | .arr items => !items.isEmpty
  | .obj members => !members.isEmpty

def isNull : Value → Bool
  | .null => true
  | _ => false

def items? : Value → Option (List Value)
  | .arr items => some items
  | _ => none

def membersOf : Value → Members
  | .obj members => members
  | _ => []

/-! ### What holds of one entry -/

def nameOf (entry : Value) : Points := (str? (get (membersOf entry) "name")).getD []

def isOwned (entry : Value) : Bool := !isNull (get (membersOf entry) "owner")

/-- `entry_owner(entry)`. -/
def entryOwner (entry : Value) : Option Points :=
  (str? (get (membersOf entry) "owner")).filter ownerRe

def isOwnedBy (slug : Points) (entry : Value) : Bool := entryOwner entry = some (specialist slug)

def mine (slug : Points) (plugins : List Value) : List Value := plugins.filter (isOwnedBy slug)

def foreign (slug : Points) (plugins : List Value) : List Value :=
  plugins.filter (!isOwnedBy slug ·)

/-- `e.get("manifest_name") or e["name"]`. -/
def effective (entry : Value) : Value :=
  let manifest := get (membersOf entry) "manifest_name"
  if truthy manifest then manifest else get (membersOf entry) "name"

def targets (entry : Value) : List Points := (targetsOf (membersOf entry)).getD []

/-- The pairs of a target and a runtime name. One whose name is no text is shared by no owned
entry. -/
def keys (entry : Value) : List (Points × Points) :=
  (str? (effective entry)).toList.flatMap fun name => (targets entry).map (·, name)

def ownTargets (entry : Value) : List Points :=
  ((items? (get (membersOf entry) "targets")).getD []).filterMap fun t =>
    (str? t).filter targetRe

structure PluginIssue where
  name : Points
  target : Option Points
  reasonCode : String
  artifactId : Value
  scopedTargets : List Points

structure RegistryData where
  raw : Members
  entries : List Value
  entryIssues : List PluginIssue
  valid : Bool

/-- The registry file: its text is read as a document, or it is not. -/
inductive File where
  | missing
  | unreadable
  | doc (raw : Value)

inductive SwapError where
  | raised (e : Raised)
  | ownedSwapInvalid (reasons : List Points)
  | writeFailed

section Validation
variable (sha256 : List UInt8 → Points) (repr : Value → Points)

def accepted (entry : Value) : Bool := entryError sha256 entry = .ok none

def sameName (plugins : List Value) (entry : Value) : ℕ :=
  (plugins.filter (accepted sha256)).countP fun e => nameOf e = nameOf entry

def isUnique (plugins : List Value) (entry : Value) : Bool :=
  accepted sha256 entry && sameName sha256 plugins entry ≤ 1

def ordered (plugins : List Value) : List Value := plugins.filter (isUnique sha256 plugins)

def collides (plugins : List Value) (entry : Value) : Bool :=
  isOwned entry &&
    (keys entry).any fun key => 1 < ((ordered sha256 plugins).flatMap keys).count key

def validated (plugins : List Value) (entry : Value) : Bool :=
  isUnique sha256 plugins entry && !collides sha256 plugins entry

def view (plugins : List Value) : List Value := plugins.filter (validated sha256 plugins)

/-- `str(entry.get("name"))`. -/
def issueName (entry : Value) : Points :=
  match entry with
  | .obj members => match get members "name" with
      | .str s => s
      | v => repr v
  | _ => text "?"

def artifactIdOf (entry : Value) : Value := get (membersOf entry) "artifact_id"

def invalidIssues (plugins : List Value) : List PluginIssue :=
  (plugins.filter fun e => !accepted sha256 e).map fun e =>
    ⟨issueName repr e, none, "entry_invalid", artifactIdOf e, ownTargets e⟩

def duplicateIssues (plugins : List Value) : List PluginIssue :=
  let entries := plugins.filter (accepted sha256)
  ((entries.map nameOf).eraseDups).flatMap fun name =>
    let group := entries.filter fun e => nameOf e = name
    if 1 < group.length then
      group.map fun e => ⟨name, none, "duplicate_name", artifactIdOf e, ownTargets e⟩
    else []

def collisionIssues (plugins : List Value) : List PluginIssue :=
  let all := ordered sha256 plugins
  ((all.flatMap keys).eraseDups).flatMap fun key =>
    if 1 < (all.flatMap keys).count key then
      (all.filter fun e => isOwned e && (keys e).contains key).map fun e =>
        ⟨nameOf e, some key.1, "manifest_name_collision", artifactIdOf e, ownTargets e⟩
    else []

def issues (plugins : List Value) : List PluginIssue :=
  invalidIssues sha256 repr plugins ++ duplicateIssues sha256 plugins ++
    collisionIssues sha256 plugins

def unhashable (entry : Value) : Bool :=
  !(targets entry).isEmpty && isUnhashable (effective entry)

def validatePlugins (plugins : List Value) : Except Raised (List Value × List PluginIssue) := do
  let _ ← plugins.mapM (entryError sha256)
  if (ordered sha256 plugins).any unhashable then throw .typeError
  pure (view sha256 plugins, issues sha256 repr plugins)

def seededOk (seeded : Value) : Bool :=
  match (items? seeded).bind fun items => items.mapM fun x => (str? x).filter nameRe with
  | some names => names.Nodup
  | none => false

/-- `_validate_doc`, with the document it leaves behind. -/
def validateDoc (raw : Value) : Except Raised RegistryData :=
  match raw with
  | .obj members =>
      if !isOne (get members "schema_version") then .ok ⟨members, [], [], false⟩
      else
        let members := setdefault members "seeded_defaults" (.arr [])
        if !seededOk (get members "seeded_defaults") then .ok ⟨members, [], [], false⟩
        else match items? (get members "plugins") with
          | none => .ok ⟨members, [], [], false⟩
          | some plugins => do
              let (entries, found) ← validatePlugins sha256 repr plugins
              pure ⟨members, entries, found, true⟩
  | _ => .ok ⟨[], [], [], false⟩

def emptyRaw : Members :=
  [(text "schema_version", .int 1), (text "seeded_defaults", .arr []), (text "plugins", .arr [])]

def loadRegistry : File → Except Raised RegistryData
  | .missing => .ok ⟨emptyRaw, [], [], true⟩
  | .unreadable => .ok ⟨[], [], [], false⟩
  | .doc raw => validateDoc sha256 repr raw

/-! ### The swap -/

def unquarantine (raw : Members) (slug : Points) : Members :=
  match get raw "quarantined_bundles" with
  | .arr flags =>
      if flags.any fun s => str? s = some slug then
        set raw "quarantined_bundles" (.arr (flags.filter fun s => str? s ≠ some slug))
      else raw
  | _ => raw

def refusals (newEntries : List Members) (data : RegistryData) : List Points :=
  let newNames := newEntries.map fun e => get e "name"
  let flagged := (data.entryIssues.filter fun issue =>
    newNames.any fun v => str? v = some issue.name).map fun issue =>
      issue.name ++ text ":" ++ text issue.reasonCode
  let dropped := (newNames.filter fun v =>
    (str? v).all fun name => !data.entries.any fun e => nameOf e = name).map fun v =>
      (match v with | .str s => s | v => repr v) ++ text ":dropped"
  let invalid := if data.valid then [] else [text "registry_invalid"]
  ((flagged ++ dropped ++ invalid).eraseDups).mergeSort fun a b => a ≤ b

def swapped (slug : Points) (members : Members) (plugins : List Value) : Members :=
  setdefault (setdefault (unquarantine (set members "plugins" (.arr plugins)) slug)
    "schema_version" (.int 1)) "seeded_defaults" (.arr [])

/-- The document is checked with its new entries, and saved where nothing refuses them. Whether the
write succeeds is the disk's affair. -/
def publish (writes : Bool) (newEntries before : List Members) (raw : Members) (file : File) :
    Except SwapError (List Members × RegistryData) × File :=
  match validateDoc sha256 repr (.obj raw) with
  | .error e => (.error (.raised e), file)
  | .ok data =>
      if newEntries.any fun e => isUnhashable (get e "name") then
        (.error (.raised .typeError), file)
      else if refusals repr newEntries data ≠ [] then
        (.error (.ownedSwapInvalid (refusals repr newEntries data)), file)
      else if writes then (.ok (before, data), .doc (.obj data.raw))
      else (.error .writeFailed, file)

/-- The entries to come back to, and the data as swapped; the second value is the file
afterwards. -/
def applyOwnedSwap (writes : Bool) (slug : Points) (newEntries : List Members) (file : File) :
    Except SwapError (List Members × RegistryData) × File :=
  match loadRegistry sha256 repr file with
  | .error e => (.error (.raised e), file)
  | .ok loaded =>
      if !loaded.valid then (.error (.ownedSwapInvalid [text "registry_invalid"]), file)
      else
        let plugins := (items? (get loaded.raw "plugins")).getD []
        let before := (mine slug plugins).map membersOf
        publish sha256 repr writes newEntries before
          (swapped slug loaded.raw (foreign slug plugins ++ newEntries.map .obj)) file

end Validation

section Facts
variable {sha256 : List UInt8 → Points} {repr : Value → Points}

/-! ### Names and owners of accepted entries -/

/-- An accepted owned entry is named after its owner, and has one key, of the owner. -/
structure Owned (entry : Value) (slug manifest : Points) : Prop where
  name : nameOf entry = slug ++ dot :: manifest
  plain : dot ∉ slug
  owner : entryOwner entry = some (specialist slug)
  key : keys entry = [(specialist slug, manifest)]

theorem nameError_of_accepted {entry : Value} (h : accepted sha256 entry = true) :
    nameError (membersOf entry) = none := by
  rw [accepted, decide_eq_true_eq] at h
  cases entry with
  | obj members =>
    unfold entryError at h
    cases named : nameError members with
    | some reason => simp [named] at h
    | none => exact named
  | _ => simp [entryError] at h

theorem plain_word_dot {most : Option ℕ} {s : Points} (h : isWord isDash most s = true) :
    dot ∉ s := by
  cases s with
  | nil => simp [isWord] at h
  | cons c rest =>
    simp only [isWord, Bool.and_eq_true, List.all_eq_true] at h
    rintro (_ | ⟨_, inside⟩)
    · exact absurd h.1.1 (by decide)
    · exact absurd (h.1.2 _ inside) (by decide)

theorem plain_dollar {body : Points → Bool} {s : Points} (h : dollar body s = true)
    (plain : ∀ b, body b = true → dot ∉ b) : dot ∉ s := by
  obtain ⟨b, holds, rfl | rfl⟩ := dollar_cases h
  · exact plain _ holds
  · simp [plain _ holds, show dot ≠ newline by decide]

theorem unowned_of_accepted {entry : Value} (h : accepted sha256 entry = true)
    (free : isOwned entry = false) : dot ∉ nameOf entry ∧ entryOwner entry = none := by
  have named := nameError_of_accepted h
  have owner : get (membersOf entry) "owner" = .null := by
    cases v : get (membersOf entry) "owner" with
    | null => rfl
    | _ => simp [isOwned, v, isNull] at free
  refine ⟨?_, by simp [entryOwner, owner, str?]⟩
  unfold nameError at named
  rw [owner] at named
  unfold nameOf
  cases name : str? (get (membersOf entry) "name") with
  | none => simp
  | some s =>
    simp only [name] at named
    split at named
    · next match_ => exact plain_dollar match_ fun b body => plain_word_dot body
    · cases named

theorem isSingleton_iff {v : Value} {s : Points} : isSingleton v s = true ↔ v = .arr [.str s] := by
  unfold isSingleton
  split
  · simp
  · next other =>
    simp only [Bool.false_eq_true, false_iff]
    rintro rfl
    exact other s rfl

theorem str?_eq_some {v : Value} {s : Points} : str? v = some s ↔ v = .str s := by
  cases v <;> simp [str?]

theorem isWord_mono {more more' : ℕ → Bool} {most : Option ℕ} {s : Points}
    (wider : ∀ c, more c = true → more' c = true) (h : isWord more most s = true) :
    isWord more' none s = true := by
  cases s with
  | nil => simp [isWord] at h
  | cons c rest =>
    simp only [isWord, Bool.and_eq_true, List.all_eq_true, Bool.or_eq_true, Option.all_none,
      and_true] at h ⊢
    exact ⟨h.1.1, fun d inside => (h.1.2 d inside).imp_right (wider d)⟩

theorem targetRe_of_ownerRe {s : Points} (h : ownerRe s = true) : targetRe s = true := by
  have body {b : Points} (h : ownerBody b = true) : targetBody b = true := by
    unfold ownerBody at h
    unfold targetBody
    rcases SeparatedText.partition_cases colon b with ⟨kind, slug, rfl, -, cut⟩ | ⟨-, cut⟩
    · simp only [cut, Bool.and_eq_true, decide_eq_true_eq] at h ⊢
      obtain ⟨rfl, word⟩ := h
      exact ⟨by decide, isWord_mono (fun c dash => by simp [dash]) word⟩
    · simp [cut] at h
  simp only [targetRe, ownerRe, dollar, Bool.or_eq_true, Bool.and_eq_true] at h ⊢
  exact h.imp body (And.imp_right body)

theorem owned_of_accepted {entry : Value} (h : accepted sha256 entry = true)
    (owned : isOwned entry = true) : ∃ slug manifest, Owned entry slug manifest := by
  have named := nameError_of_accepted h
  unfold nameError at named
  cases name : str? (get (membersOf entry) "name") with
  | none =>
    rw [name] at named
    split at named <;> simp_all
  | some s =>
    rw [name] at named
    cases v : get (membersOf entry) "owner" with
    | null => simp [isOwned, v, isNull] at owned
    | str o =>
      simp only [v] at named
      split at named
      · next invariant_ =>
        simp only [ownedInvariant, Bool.and_eq_true, decide_eq_true_eq, isSingleton_iff]
          at invariant_
        obtain ⟨⟨⟨⟨⟨nameMatch, -⟩, ownerMatch⟩, same⟩, manifest⟩, target⟩ := invariant_
        obtain ⟨b, body, ends⟩ := dollar_cases nameMatch
        unfold ownedNameBody at body
        rcases SeparatedText.partition_cases dot b with ⟨slug, man, rfl, plain, cut⟩ | ⟨-, cut⟩
        · simp only [cut, Bool.and_eq_true] at body
          obtain ⟨tail, whole, full⟩ : ∃ tail, s = slug ++ dot :: tail ∧ tail ≠ [] := by
            obtain ⟨-, some_⟩ := plain_word body.2 rfl
            rcases ends with rfl | rfl
            · exact ⟨man, rfl, some_⟩
            · exact ⟨man ++ [newline], by simp, by simp⟩
          rw [whole, SeparatedText.partition_append _ plain] at same manifest
          simp only [Option.getD_some] at same manifest
          subst same
          refine ⟨slug, tail, by simp [nameOf, name, whole], plain, ?_, ?_⟩
          · simp [entryOwner, v, str?, ownerMatch]
          · have text_ := str?_eq_some.1 manifest
            have run : truthy (.str tail) = true := by simp [truthy, full]
            have listed : targetsOf (membersOf entry) = some [specialist slug] := by
              simp only [targetsOf, target, List.mapM_cons, List.mapM_nil, str?,
                Option.filter_some_pos (targetRe_of_ownerRe ownerMatch)]
              rfl
            simp only [keys, effective, text_, run, if_true, targets, listed]
            rfl
        · simp [cut] at body
      · cases named
    | _ => simp [v] at named

theorem entryOwner_congr {e f : Value} (left : accepted sha256 e = true)
    (right : accepted sha256 f = true) (same : nameOf e = nameOf f) :
    entryOwner e = entryOwner f := by
  cases owned : isOwned e with
  | false =>
    obtain ⟨plain, free⟩ := unowned_of_accepted left owned
    cases owned' : isOwned f with
    | false => rw [free, (unowned_of_accepted right owned').2]
    | true =>
      obtain ⟨slug, manifest, h⟩ := owned_of_accepted right owned'
      rw [same, h.name] at plain
      simp at plain
  | true =>
    obtain ⟨slug, manifest, h⟩ := owned_of_accepted left owned
    cases owned' : isOwned f with
    | false =>
      obtain ⟨plain, -⟩ := unowned_of_accepted right owned'
      rw [← same, h.name] at plain
      simp at plain
    | true =>
      obtain ⟨slug', manifest', h'⟩ := owned_of_accepted right owned'
      rw [h.name, h'.name] at same
      obtain ⟨rfl, -⟩ := SeparatedText.cut_first h.plain h'.plain same
      rw [h.owner, h'.owner]

theorem specialist_injective {a b : Points} (h : specialist a = specialist b) : a = b :=
  List.append_cancel_left h

theorem nameOf_congr {e f : Value} (left : accepted sha256 e = true)
    (right : accepted sha256 f = true) (ownedE : isOwned e = true) (ownedF : isOwned f = true)
    {key : Points × Points} (mine : key ∈ keys e) (other : key ∈ keys f) :
    nameOf e = nameOf f := by
  obtain ⟨slug, manifest, h⟩ := owned_of_accepted left ownedE
  obtain ⟨slug', manifest', h'⟩ := owned_of_accepted right ownedF
  rw [h.key, List.mem_singleton] at mine
  rw [h'.key, List.mem_singleton, mine, Prod.mk.injEq] at other
  rw [h.name, h'.name, specialist_injective other.1, other.2]

/-! ### The validated view -/

variable {plugins : List Value} {e f : Value}

theorem isUnique_iff : isUnique sha256 plugins e = true ↔
    accepted sha256 e = true ∧ sameName sha256 plugins e ≤ 1 := by
  simp [isUnique]

/-- Of two accepted entries of one name only one place can hold both, where names are not shared. -/
theorem eq_of_nameOf {l : List Value} (single : l.countP (fun d => nameOf d = nameOf e) ≤ 1)
    (left : e ∈ l) (right : f ∈ l) (same : nameOf f = nameOf e) : e = f := by
  induction l with
  | nil => cases left
  | cons d l ih =>
    have absent (x : Value) (name : nameOf d = nameOf e) (inside : x ∈ l)
        (called : nameOf x = nameOf e) : False := by
      have some_ : 0 < l.countP fun d => nameOf d = nameOf e :=
        List.countP_pos_iff.2 ⟨x, inside, by simpa using called⟩
      rw [List.countP_cons_of_pos (by simpa using name)] at single
      omega
    rcases List.mem_cons.1 left with rfl | inE <;> rcases List.mem_cons.1 right with rfl | inF
    · rfl
    · exact (absent f rfl inF same).elim
    · exact (absent e same inE rfl).elim
    · exact ih (le_trans (List.Sublist.countP_le (List.sublist_cons_self d l)) single) inE inF

theorem count_key {key : Points × Points} (holds : accepted sha256 e = true)
    (owned : isOwned e = true) (mine : key ∈ keys e) : keys e = [key] := by
  obtain ⟨slug, manifest, h⟩ := owned_of_accepted holds owned
  rw [h.key, List.mem_singleton] at mine
  rw [h.key, mine]

theorem collides_iff (inside : e ∈ plugins) (unique : isUnique sha256 plugins e = true)
    (owned : isOwned e = true) :
    collides sha256 plugins e = true ↔ ∃ n ∈ plugins, isUnique sha256 plugins n = true ∧
      isOwned n = false ∧ ∃ key ∈ keys e, key ∈ keys n := by
  have holds := (isUnique_iff.1 unique).1
  have listed : e ∈ ordered sha256 plugins := List.mem_filter.2 ⟨inside, unique⟩
  have once : (ordered sha256 plugins).countP (fun d => nameOf d = nameOf e) ≤ 1 := by
    refine le_trans (List.Sublist.countP_le ?_) (isUnique_iff.1 unique).2
    have narrow : ordered sha256 plugins =
        (plugins.filter (accepted sha256)).filter fun d => sameName sha256 plugins d ≤ 1 := by
      rw [List.filter_filter]
      exact List.filter_congr fun d _ => by simp [isUnique, Bool.and_comm]
    rw [narrow]
    exact List.filter_sublist
  have of_ordered {n : Value} (h : n ∈ ordered sha256 plugins) :
      n ∈ plugins ∧ isUnique sha256 plugins n = true := List.mem_filter.1 h
  obtain ⟨before, after, split⟩ := List.append_of_mem listed
  simp only [collides, owned, Bool.true_and, List.any_eq_true, decide_eq_true_eq, split,
    List.flatMap_append, List.flatMap_cons, List.count_append]
  constructor
  · rintro ⟨key, mine, more⟩
    rw [count_key holds owned mine, List.count_singleton_self] at more
    have other : ∃ n ∈ before ++ after, key ∈ keys n := by
      by_contra none_
      push Not at none_
      have free (part : List Value) (sub : part ⊆ before ++ after) :
          (part.flatMap keys).count key = 0 := by
        rw [List.count_eq_zero, List.mem_flatMap]
        rintro ⟨n, within, shares⟩
        exact none_ n (sub within) shares
      rw [free before (by simp), free after (by simp)] at more
      omega
    obtain ⟨n, beside, shares⟩ := other
    have within : n ∈ ordered sha256 plugins := by
      rw [split]
      simp only [List.mem_append, List.mem_cons] at beside ⊢
      tauto
    obtain ⟨inN, uniqueN⟩ := of_ordered within
    refine ⟨n, inN, uniqueN, ?_, key, mine, shares⟩
    by_contra ownedN
    have named := nameOf_congr (isUnique_iff.1 uniqueN).1 holds (by simpa using ownedN) owned
      shares mine
    have some_ : 0 < (before ++ after).countP fun d => nameOf d = nameOf e :=
      List.countP_pos_iff.2 ⟨n, beside, by simpa using named⟩
    rw [split, List.countP_append, List.countP_cons_of_pos (by simp)] at once
    rw [List.countP_append] at some_
    omega
  · rintro ⟨n, inN, uniqueN, free, key, mine, shares⟩
    refine ⟨key, mine, ?_⟩
    have within : n ∈ before ++ e :: after := by
      rw [← split]
      exact List.mem_filter.2 ⟨inN, uniqueN⟩
    rw [count_key holds owned mine, List.count_singleton_self]
    have counted {part : List Value} (here : n ∈ part) : 0 < (part.flatMap keys).count key :=
      List.count_pos_iff.2 (List.mem_flatMap.2 ⟨n, here, shares⟩)
    rcases List.mem_append.1 within with here | (_ | ⟨_, here⟩)
    · have := counted here
      omega
    · rw [owned] at free
      cases free
    · have := counted here
      omega

theorem validated_iff (inside : e ∈ plugins) : validated sha256 plugins e = true ↔
    isUnique sha256 plugins e = true ∧ (isOwned e = true → ∀ n ∈ plugins,
      isUnique sha256 plugins n = true → isOwned n = false → ∀ key ∈ keys e, key ∉ keys n) := by
  rw [validated, Bool.and_eq_true, Bool.not_eq_true']
  refine and_congr_right fun unique => ?_
  cases owned : isOwned e with
  | false => simp [collides, owned]
  | true =>
    rw [← Bool.not_eq_true, collides_iff inside unique owned]
    simp only [forall_true_left]
    push Not
    rfl

/-! ### Counting names -/

theorem sameName_append (l k : List Value) (e : Value) :
    sameName sha256 (l ++ k) e = sameName sha256 l e + sameName sha256 k e := by
  simp [sameName, List.filter_append, List.countP_append]

theorem sameName_split (sha256 : List UInt8 → Points) (p : Value → Bool) (l : List Value)
    (e : Value) :
    sameName sha256 l e = sameName sha256 (l.filter p) e + sameName sha256 (l.filter (!p ·)) e := by
  simp only [sameName, List.countP_filter]
  induction l with
  | nil => rfl
  | cons d l ih =>
    by_cases here : p d = true
    · simp [here, List.countP_cons, ih]
      omega
    · simp [here, List.countP_cons, ih]
      omega

theorem sameName_pos {l : List Value} (inside : f ∈ l) (holds : accepted sha256 f = true)
    (same : nameOf f = nameOf e) : 0 < sameName sha256 l e :=
  List.countP_pos_iff.2 ⟨f, List.mem_filter.2 ⟨inside, holds⟩, by simpa using same⟩

theorem sameName_eq_zero {l : List Value} (holds : accepted sha256 e = true)
    (apart : ∀ d ∈ l, entryOwner d ≠ entryOwner e) : sameName sha256 l e = 0 := by
  rw [sameName, List.countP_eq_zero]
  intro d inside named
  obtain ⟨listed, holdsD⟩ := List.mem_filter.1 inside
  exact apart d listed (entryOwner_congr holdsD holds (by simpa using named))

/-! ### A swap and its way back -/

def Apart (e n : Value) : Prop := isOwned n = false → ∀ key ∈ keys e, key ∉ keys n

variable {slug : Points} {added : List Value}

theorem isOwned_of_entryOwner {owner : Points} (h : entryOwner e = some owner) :
    isOwned e = true := by
  obtain ⟨is, -⟩ := Option.filter_eq_some_iff.1 h
  rw [isOwned, str?_eq_some.1 is]
  rfl

theorem owner_of_mine (h : e ∈ mine slug plugins) : entryOwner e = some (specialist slug) := by
  simpa [isOwnedBy] using (List.mem_filter.1 h).2

theorem owner_of_foreign (h : e ∈ foreign slug plugins) :
    entryOwner e ≠ some (specialist slug) := by
  simpa [isOwnedBy] using (List.mem_filter.1 h).2

theorem mem_mine_or_foreign (slug : Points) (h : e ∈ plugins) :
    e ∈ mine slug plugins ∨ e ∈ foreign slug plugins := by
  cases owned : isOwnedBy slug e with
  | true => exact .inl (List.mem_filter.2 ⟨h, owned⟩)
  | false => exact .inr (List.mem_filter.2 ⟨h, by simp [owned]⟩)

theorem sameName_mine_foreign (sha256 : List UInt8 → Points) (slug : Points)
    (plugins : List Value) (e : Value) :
    sameName sha256 plugins e =
      sameName sha256 (mine slug plugins) e + sameName sha256 (foreign slug plugins) e :=
  sameName_split sha256 (isOwnedBy slug) plugins e

theorem sameName_mine_eq_zero (holds : accepted sha256 e = true)
    (other : entryOwner e ≠ some (specialist slug)) (plugins : List Value) :
    sameName sha256 (mine slug plugins) e = 0 :=
  sameName_eq_zero holds fun d inside => by
    rw [owner_of_mine inside]
    exact other.symm

theorem sameName_foreign_eq_zero (holds : accepted sha256 e = true)
    (own : entryOwner e = some (specialist slug)) (plugins : List Value) :
    sameName sha256 (foreign slug plugins) e = 0 :=
  sameName_eq_zero holds fun d inside => by
    rw [own]
    exact owner_of_foreign inside

theorem isUnique_of_back (away : e ∈ foreign slug plugins)
    (again : isUnique sha256
      (foreign slug (foreign slug plugins ++ added) ++ mine slug plugins) e = true) :
    isUnique sha256 plugins e = true := by
  obtain ⟨holds, single⟩ := isUnique_iff.1 again
  refine isUnique_iff.2 ⟨holds, ?_⟩
  have none_ := sameName_mine_eq_zero holds (owner_of_foreign away) plugins
  have none_' := sameName_mine_eq_zero holds (owner_of_foreign away) (foreign slug plugins ++ added)
  have whole := sameName_mine_foreign sha256 slug plugins e
  have part := sameName_mine_foreign sha256 slug (foreign slug plugins ++ added) e
  rw [sameName_append] at single part
  omega

section Swapped
variable (fits : ∀ n ∈ added, validated sha256 (foreign slug plugins ++ added) n = true)
include fits

theorem accepted_added (inside : e ∈ added) : accepted sha256 e = true := by
  have unique := fits e inside
  rw [validated, Bool.and_eq_true] at unique
  exact (isUnique_iff.1 unique.1).1

theorem sameName_added_le (inside : e ∈ added) :
    sameName sha256 (foreign slug plugins) e + sameName sha256 added e ≤ 1 := by
  have unique := fits e inside
  rw [validated, Bool.and_eq_true] at unique
  rw [← sameName_append]
  exact (isUnique_iff.1 unique.1).2

theorem sameName_added_eq_zero (inside : e ∈ foreign slug plugins)
    (holds : accepted sha256 e = true) : sameName sha256 added e = 0 := by
  by_contra some_
  obtain ⟨n, listed, named⟩ := List.countP_pos_iff.1 (Nat.pos_of_ne_zero some_)
  obtain ⟨inN, holdsN⟩ := List.mem_filter.1 listed
  have same : nameOf n = nameOf e := by simpa using named
  have front : 0 < sameName sha256 (foreign slug plugins) n := sameName_pos inside holds same.symm
  have back : 0 < sameName sha256 added n := sameName_pos inN holdsN rfl
  have bound := sameName_added_le fits inN
  omega

theorem isUnique_foreign (inside : e ∈ foreign slug plugins) :
    isUnique sha256 (foreign slug plugins ++ added) e = isUnique sha256 plugins e := by
  cases holds : accepted sha256 e with
  | false => simp [isUnique, holds]
  | true =>
    rw [isUnique, isUnique, sameName_append, sameName_added_eq_zero fits inside holds,
      sameName_mine_foreign sha256 slug plugins,
      sameName_mine_eq_zero holds (owner_of_foreign inside)]
    simp

theorem validated_foreign_iff (inside : e ∈ foreign slug plugins) :
    (validated sha256 (foreign slug plugins ++ added) e = validated sha256 plugins e) ↔
      (validated sha256 plugins e = true → isOwned e = true → ∀ n ∈ added, Apart e n) := by
  have listed : e ∈ plugins := (List.mem_filter.1 inside).1
  have before : validated sha256 plugins e = true ↔ _ := validated_iff listed
  have after : validated sha256 (foreign slug plugins ++ added) e = true ↔ _ :=
    validated_iff (List.mem_append_left added inside)
  rw [isUnique_foreign fits inside] at after
  have split : validated sha256 (foreign slug plugins ++ added) e = true ↔
      validated sha256 plugins e = true ∧ (isOwned e = true → ∀ n ∈ added, Apart e n) := by
    rw [before, after]
    constructor
    · rintro ⟨unique, free⟩
      refine ⟨⟨unique, fun owned n inN uniqueN unowned => ?_⟩, fun owned n inN unowned => ?_⟩
      · have away : n ∈ foreign slug plugins := by
          rcases mem_mine_or_foreign slug inN with own | away
          · rw [isOwned_of_entryOwner (owner_of_mine own)] at unowned
            cases unowned
          · exact away
        exact free owned n (List.mem_append_left _ away)
          (by rw [isUnique_foreign fits away]; exact uniqueN) unowned
      · have uniqueN := fits n inN
        rw [validated, Bool.and_eq_true] at uniqueN
        exact free owned n (List.mem_append_right _ inN) uniqueN.1 unowned
    · rintro ⟨⟨unique, free⟩, apart⟩
      refine ⟨unique, fun owned n inN uniqueN unowned => ?_⟩
      rcases List.mem_append.1 inN with away | new
      · rw [isUnique_foreign fits away] at uniqueN
        exact free owned n (List.mem_filter.1 away).1 uniqueN unowned
      · exact apart owned n new unowned
  cases was : validated sha256 plugins e with
  | false =>
    rw [was] at split
    have still : validated sha256 (foreign slug plugins ++ added) e = false := by
      rw [← Bool.not_eq_true, split]
      simp
    simp [still]
  | true =>
    rw [was] at split
    simp [split]

/-- The swap back puts an owned entry into the view again just where no new one without an owner
took its key. -/
theorem validated_back_iff (inside : e ∈ mine slug plugins)
    (was : validated sha256 plugins e = true) :
    validated sha256 (foreign slug (foreign slug plugins ++ added) ++ mine slug plugins) e = true ↔
      ∀ n ∈ added, Apart e n := by
  have listed : e ∈ plugins := (List.mem_filter.1 inside).1
  obtain ⟨unique, free⟩ := (validated_iff listed).1 was
  obtain ⟨holds, single⟩ := isUnique_iff.1 unique
  have own := owner_of_mine inside
  have owned := isOwned_of_entryOwner own
  have uniqueBack : isUnique sha256
      (foreign slug (foreign slug plugins ++ added) ++ mine slug plugins) e = true := by
    refine isUnique_iff.2 ⟨holds, ?_⟩
    rw [sameName_append, sameName_foreign_eq_zero holds own]
    have := sameName_mine_foreign sha256 slug plugins e
    omega
  rw [validated_iff (List.mem_append_right _ inside)]
  constructor
  · rintro ⟨-, apart⟩ n inN unowned
    have new : n ∈ foreign slug (foreign slug plugins ++ added) := by
      rcases mem_mine_or_foreign slug (List.mem_append_right (foreign slug plugins) inN)
        with own' | away
      · rw [isOwned_of_entryOwner (owner_of_mine own')] at unowned
        cases unowned
      · exact away
    refine apart owned n (List.mem_append_left _ new) (isUnique_iff.2 ?_) unowned
    refine ⟨accepted_added fits inN, ?_⟩
    have none_ := sameName_mine_eq_zero (accepted_added fits inN) (owner_of_foreign new) plugins
    have none_' := sameName_mine_eq_zero (accepted_added fits inN) (owner_of_foreign new)
      (foreign slug plugins ++ added)
    have part := sameName_mine_foreign sha256 slug (foreign slug plugins ++ added) n
    have bound := sameName_added_le fits inN
    rw [sameName_append] at part ⊢
    omega
  · intro apart
    refine ⟨uniqueBack, fun _ n inN again unowned => ?_⟩
    rcases List.mem_append.1 inN with away | back
    · rcases List.mem_append.1 (List.mem_filter.1 away).1 with old | new
      · exact free owned n (List.mem_filter.1 old).1 (isUnique_of_back old again) unowned
      · exact apart n new unowned
    · rw [isOwned_of_entryOwner (owner_of_mine back)] at unowned
      cases unowned

end Swapped

/-! ### What refuses a swap -/

theorem str?_name (holds : accepted sha256 e = true) :
    str? (get (membersOf e) "name") = some (nameOf e) := by
  obtain ⟨name, is, -⟩ := nameError_none (nameError_of_accepted holds)
  rw [is, nameOf, is, Option.getD_some]

theorem mem_view : e ∈ view sha256 plugins ↔ e ∈ plugins ∧ validated sha256 plugins e = true :=
  List.mem_filter

theorem issue_of_invalid (repr : Value → Points) (inside : e ∈ plugins)
    (bad : accepted sha256 e = false) :
    ∃ issue ∈ issues sha256 repr plugins, issue.name = issueName repr e :=
  ⟨_, List.mem_append_left _ (List.mem_append_left _
    (List.mem_map_of_mem (List.mem_filter.2 ⟨inside, by simp [bad]⟩))), rfl⟩

theorem issue_of_dropped (repr : Value → Points) (inside : e ∈ plugins)
    (holds : accepted sha256 e = true) (out : validated sha256 plugins e = false) :
    ∃ issue ∈ issues sha256 repr plugins, issue.name = nameOf e := by
  have listed : e ∈ plugins.filter (accepted sha256) := List.mem_filter.2 ⟨inside, holds⟩
  cases unique : isUnique sha256 plugins e with
  | false =>
    have more : 1 < sameName sha256 plugins e := by
      simpa [isUnique, holds] using unique
    refine ⟨⟨nameOf e, none, "duplicate_name", artifactIdOf e, ownTargets e⟩,
      List.mem_append_left _ (List.mem_append_right _ ?_), rfl⟩
    refine List.mem_flatMap.2 ⟨nameOf e, List.mem_eraseDups.2 (List.mem_map_of_mem listed), ?_⟩
    rw [if_pos (by rwa [← List.countP_eq_length_filter])]
    exact List.mem_map.2 ⟨e, List.mem_filter.2 ⟨listed, by simp⟩, rfl⟩
  | true =>
    have shared : collides sha256 plugins e = true := by
      simpa [validated, unique] using out
    have ranked : e ∈ ordered sha256 plugins := List.mem_filter.2 ⟨inside, unique⟩
    simp only [collides, Bool.and_eq_true, List.any_eq_true, decide_eq_true_eq] at shared
    obtain ⟨owned, key, has_, more⟩ := shared
    refine ⟨⟨nameOf e, some key.1, "manifest_name_collision", artifactIdOf e, ownTargets e⟩,
      List.mem_append_right _ ?_, rfl⟩
    refine List.mem_flatMap.2 ⟨key, List.mem_eraseDups.2 (List.mem_flatMap.2 ⟨e, ranked, has_⟩), ?_⟩
    rw [if_pos more]
    exact List.mem_map.2 ⟨e, List.mem_filter.2 ⟨ranked, by simp [owned, has_]⟩, rfl⟩

/-- Every issue tells of an entry that is not accepted, or of an accepted one out of the view. -/
theorem of_issue {issue : PluginIssue} (h : issue ∈ issues sha256 repr plugins) :
    ∃ f ∈ plugins, (accepted sha256 f = false ∧ issue.name = issueName repr f) ∨
      (accepted sha256 f = true ∧ validated sha256 plugins f = false ∧ issue.name = nameOf f) := by
  rcases List.mem_append.1 h with h | collision
  · rcases List.mem_append.1 h with invalid | duplicate
    · obtain ⟨f, inside, rfl⟩ := List.mem_map.1 invalid
      obtain ⟨listed, bad⟩ := List.mem_filter.1 inside
      exact ⟨f, listed, .inl ⟨by simpa using bad, rfl⟩⟩
    · obtain ⟨name, -, inside⟩ := List.mem_flatMap.1 duplicate
      dsimp only at inside
      split at inside
      · next more =>
        obtain ⟨f, grouped, rfl⟩ := List.mem_map.1 inside
        obtain ⟨holds, called⟩ := List.mem_filter.1 grouped
        have same : nameOf f = name := by simpa using called
        obtain ⟨listed, holds⟩ := List.mem_filter.1 holds
        refine ⟨f, listed, .inr ⟨holds, ?_, same.symm⟩⟩
        have many : 1 < sameName sha256 plugins f := by
          rw [sameName, List.countP_eq_length_filter, same]
          exact more
        simp [validated, isUnique, many]
      · cases inside
  · obtain ⟨key, -, inside⟩ := List.mem_flatMap.1 collision
    split at inside
    · next more =>
      obtain ⟨f, grouped, rfl⟩ := List.mem_map.1 inside
      obtain ⟨ranked, shares⟩ := List.mem_filter.1 grouped
      obtain ⟨listed, unique⟩ := List.mem_filter.1 ranked
      simp only [Bool.and_eq_true, List.contains_iff_mem] at shares
      refine ⟨f, listed, .inr ⟨(isUnique_iff.1 unique).1, ?_, rfl⟩⟩
      have shared : collides sha256 plugins f = true := by
        simp only [collides, shares.1, Bool.true_and, List.any_eq_true, decide_eq_true_eq]
        exact ⟨key, shares.2, more⟩
      simp [validated, shared]
    · cases inside

/-- Nothing refuses new entries that are all in the view and whose names no refused entry has. -/
theorem refusals_eq_nil (repr : Value → Points) {newEntries : List Members} (raw : Members)
    (listed : ∀ n ∈ newEntries, .obj n ∈ plugins) :
    refusals repr newEntries ⟨raw, view sha256 plugins, issues sha256 repr plugins, true⟩ = [] ↔
      (∀ n ∈ newEntries, validated sha256 plugins (.obj n) = true) ∧
        ∀ f ∈ plugins, accepted sha256 f = false → ∀ n ∈ newEntries,
          issueName repr f ≠ nameOf (.obj n) := by
  -- The reasons are sorted and told once; there is none where neither list has one.
  have nil_ : refusals repr newEntries
      ⟨raw, view sha256 plugins, issues sha256 repr plugins, true⟩ = [] ↔
        (∀ issue ∈ issues sha256 repr plugins, ∀ n ∈ newEntries,
          str? (get n "name") ≠ some issue.name) ∧
        ∀ n ∈ newEntries, ∃ name, str? (get n "name") = some name ∧
          ∃ e ∈ view sha256 plugins, nameOf e = name := by
    have empty : refusals repr newEntries
        ⟨raw, view sha256 plugins, issues sha256 repr plugins, true⟩ = [] ↔
          (issues sha256 repr plugins).filter (fun issue =>
              (newEntries.map fun e => get e "name").any fun v => str? v = some issue.name) = [] ∧
            (newEntries.map fun e => get e "name").filter (fun v => (str? v).all fun name =>
              !(view sha256 plugins).any fun e => nameOf e = name) = [] := by
      simp only [refusals, List.eq_nil_iff_forall_not_mem, List.mem_mergeSort, List.mem_eraseDups]
      simp only [← List.eq_nil_iff_forall_not_mem, if_true, List.append_nil,
        List.append_eq_nil_iff, List.map_eq_nil_iff]
    rw [empty]
    refine and_congr ?_ ?_
    · simp [List.filter_eq_nil_iff]
    · rw [List.filter_eq_nil_iff]
      simp only [List.mem_map, forall_exists_index, and_imp, forall_apply_eq_imp_iff₂]
      refine forall₂_congr fun n _ => ?_
      cases str? (get n "name") with
      | none => simp
      | some s =>
        simp only [Option.all_some, Bool.not_eq_true', Bool.not_eq_false, List.any_eq_true,
          decide_eq_true_eq, Option.some.injEq, exists_eq_left']
  rw [nil_]
  constructor
  · rintro ⟨unflagged, found⟩
    have holds {n : Members} (inside : n ∈ newEntries) : accepted sha256 (.obj n) = true := by
      by_contra bad
      obtain ⟨issue, told, name⟩ := issue_of_invalid repr (listed n inside)
        (by simpa using bad)
      obtain ⟨s, is, -⟩ := found n inside
      refine unflagged issue told n inside ?_
      rw [name, is, issueName, str?_eq_some.1 is]
    refine ⟨fun n inside => ?_, fun f inF bad n inside same => ?_⟩
    · by_contra out
      obtain ⟨issue, told, name⟩ := issue_of_dropped repr (listed n inside)
        (holds inside) (by simpa using out)
      exact unflagged issue told n inside (by rw [name]; exact str?_name (holds inside))
    · obtain ⟨issue, told, name⟩ := issue_of_invalid repr inF bad
      exact unflagged issue told n inside (by rw [name, same]; exact str?_name (holds inside))
  · rintro ⟨fits, clear⟩
    have unique {n : Members} (inside : n ∈ newEntries) :
        isUnique sha256 plugins (.obj n) = true := by
      have := fits n inside
      rw [validated, Bool.and_eq_true] at this
      exact this.1
    have named {n : Members} (inside : n ∈ newEntries) :
        str? (get n "name") = some (nameOf (.obj n)) :=
      str?_name (isUnique_iff.1 (unique inside)).1
    refine ⟨fun issue told n inside same => ?_, fun n inside =>
      ⟨_, named inside, .obj n, mem_view.2 ⟨listed n inside, fits n inside⟩, rfl⟩⟩
    rw [named inside, Option.some.injEq] at same
    obtain ⟨f, inF, ⟨bad, name⟩ | ⟨holds, out, name⟩⟩ := of_issue told
    · exact clear f inF bad n inside (by rw [← name, same])
    · obtain ⟨holdsN, single⟩ := isUnique_iff.1 (unique inside)
      have one : (.obj n : Value) = f := eq_of_nameOf single
        (List.mem_filter.2 ⟨listed n inside, holdsN⟩) (List.mem_filter.2 ⟨inF, holds⟩)
        (by rw [← name, same])
      rw [← one, fits n inside] at out
      cases out

/-! ### The file -/

theorem text_ne : text "plugins" ≠ text "seeded_defaults" ∧ text "plugins" ≠ text "schema_version" ∧
    text "plugins" ≠ text "quarantined_bundles" ∧
    text "seeded_defaults" ≠ text "quarantined_bundles" ∧
    text "schema_version" ≠ text "quarantined_bundles" := by decide +kernel

theorem get_of_absent {members : Members} {key : String}
    (absent : members.any (·.1 = text key) = false) : PluginRegistry.get members key = .null := by
  induction members with
  | nil => rfl
  | cons m members ih =>
    rw [List.any_cons, Bool.or_eq_false_iff, decide_eq_false_iff_not] at absent
    rw [get_cons, if_neg absent.1, ih absent.2]

theorem get_append (members rest : Members) (key : String) :
    PluginRegistry.get (members ++ rest) key =
      if members.any (·.1 = text key) then PluginRegistry.get members key
      else PluginRegistry.get rest key := by
  induction members with
  | nil => rfl
  | cons m members ih =>
    by_cases here : m.1 = text key
    · simp [get_cons, here]
    · rw [List.cons_append, get_cons, if_neg here, get_cons, if_neg here, ih, List.any_cons,
        decide_eq_false here, Bool.false_or]

theorem get_replace (members : Members) (key other : String) (value : Value) :
    PluginRegistry.get
        (members.map fun m => if m.1 = text key then (m.1, value) else m) other =
      if text other = text key ∧ members.any (·.1 = text key) then value
      else PluginRegistry.get members other := by
  induction members with
  | nil => simp [PluginRegistry.get]
  | cons m members ih =>
    rw [List.map_cons, get_cons, get_cons, ih, List.any_cons]
    by_cases here : m.1 = text key
    · rw [if_pos here, decide_eq_true here, Bool.true_or]
      by_cases same : text other = text key
      · simp [here, same]
      · simp [here, same, Ne.symm same]
    · rw [if_neg here, decide_eq_false here, Bool.false_or]
      by_cases same : text other = text key
      · rw [same, if_neg here, if_neg here]
      · simp [same]

theorem get_set (members : Members) (key other : String) (value : Value) :
    PluginRegistry.get (set members key value) other =
      if text other = text key then value else PluginRegistry.get members other := by
  unfold set has
  split
  · next there =>
    rw [get_replace]
    simp [there]
  · next absent =>
    rw [get_append]
    by_cases same : text other = text key
    · simp_all [get_cons]
    · cases found : members.any (·.1 = text other) with
      | true => simp [same]
      | false =>
        rw [get_of_absent found]
        simp [same, get_cons, Ne.symm same]
        rfl

theorem setdefault_of_get {members : Members} {key : String} (value : Value)
    (some_ : isNull (PluginRegistry.get members key) = false) :
    setdefault members key value = members := by
  unfold setdefault has
  cases found : members.any (·.1 = text key) with
  | true => rfl
  | false =>
    rw [get_of_absent found] at some_
    cases some_

/-- A document of the right version, with its list of entries. -/
structure Registry (members : Members) (plugins : List Value) : Prop where
  version : isOne (PluginRegistry.get members "schema_version") = true
  seeded : seededOk (PluginRegistry.get members "seeded_defaults") = true
  listed : PluginRegistry.get members "plugins" = .arr plugins

def Runs (sha256 : List UInt8 → Points) (plugins : List Value) : Prop :=
  (∀ e ∈ plugins, ∃ reason, entryError sha256 e = .ok reason) ∧
    ∀ e ∈ ordered sha256 plugins, unhashable e = false

theorem mapM_ok {α β ε : Type} {f : α → Except ε β} {l : List α} :
    (∃ out, l.mapM f = .ok out) ↔ ∀ a ∈ l, ∃ b, f a = .ok b := by
  induction l with
  | nil => simp [pure, Except.pure]
  | cons a l ih =>
    rw [List.mapM_cons, List.forall_mem_cons, ← ih]
    cases f a with
    | error e => simp [bind, Except.bind]
    | ok b => cases l.mapM f <;> simp [bind, Except.bind, pure, Except.pure]

theorem validatePlugins_of_runs (runs : Runs sha256 plugins) :
    validatePlugins sha256 repr plugins =
      .ok (view sha256 plugins, issues sha256 repr plugins) := by
  obtain ⟨out, ends⟩ := mapM_ok.2 runs.1
  have hashed : (ordered sha256 plugins).any unhashable = false := by
    simpa using runs.2
  simp [validatePlugins, ends, hashed, bind, Except.bind, pure, Except.pure]

theorem runs_of_validatePlugins {r : List Value × List PluginIssue}
    (h : validatePlugins sha256 repr plugins = .ok r) :
    Runs sha256 plugins ∧ r = (view sha256 plugins, issues sha256 repr plugins) := by
  unfold validatePlugins at h
  cases ends : plugins.mapM (entryError sha256) with
  | error e => simp [ends, bind, Except.bind] at h
  | ok out =>
    cases hashed : (ordered sha256 plugins).any unhashable with
    | true => simp [ends, hashed, bind, Except.bind, throw, throwThe, MonadExceptOf.throw] at h
    | false =>
      simp only [ends, hashed, bind, Except.bind, pure, Except.pure, Bool.false_eq_true, if_false,
        Except.ok.injEq] at h
      exact ⟨⟨mapM_ok.1 ⟨out, ends⟩, by simpa using hashed⟩, h.symm⟩

theorem isNull_of_isOne {v : Value} (h : isOne v = true) : isNull v = false := by
  cases v <;> simp_all [isOne, isNull]

theorem isNull_of_seededOk {v : Value} (h : seededOk v = true) : isNull v = false := by
  cases v <;> simp_all [seededOk, items?, isNull]

theorem validateDoc_registry {members : Members} (doc : Registry members plugins) :
    validateDoc sha256 repr (.obj members) =
      (validatePlugins sha256 repr plugins).map fun r => ⟨members, r.1, r.2, true⟩ := by
  simp only [validateDoc, doc.version, doc.seeded, doc.listed, items?,
    setdefault_of_get _ (isNull_of_seededOk doc.seeded)]
  cases validatePlugins sha256 repr plugins <;> rfl

def pluginsOf : File → List Value
  | .doc (.obj members) => (items? (PluginRegistry.get members "plugins")).getD []
  | _ => []

theorem get_setdefault (members : Members) (key other : String) (value : Value)
    (ne : text other ≠ text key) :
    PluginRegistry.get (setdefault members key value) other = PluginRegistry.get members other := by
  unfold setdefault
  split
  · rfl
  · rw [get_append]
    cases found : members.any (·.1 = text other) with
    | true => rfl
    | false =>
      rw [get_of_absent found]
      simp [get_cons, Ne.symm ne]
      rfl

theorem loaded_registry {file : File} {data : RegistryData}
    (h : loadRegistry sha256 repr file = .ok data) (valid : data.valid = true) :
    Registry data.raw (pluginsOf file) ∧ Runs sha256 (pluginsOf file) ∧
      data.entries = view sha256 (pluginsOf file) := by
  cases file with
  | missing =>
    simp only [loadRegistry, Except.ok.injEq] at h
    subst h
    refine ⟨⟨by decide +kernel, by decide +kernel, by rfl⟩, ⟨by simp [pluginsOf], ?_⟩, rfl⟩
    simp [pluginsOf, ordered]
  | unreadable =>
    simp only [loadRegistry, Except.ok.injEq] at h
    subst h
    cases valid
  | doc raw =>
    cases raw with
    | obj members =>
      simp only [loadRegistry, validateDoc] at h
      split at h
      · simp only [Except.ok.injEq] at h
        subst h
        cases valid
      next version =>
      split at h
      · simp only [Except.ok.injEq] at h
        subst h
        cases valid
      next seeded =>
      have same := get_setdefault members "seeded_defaults" "plugins" (.arr []) text_ne.1
      have versionSame := get_setdefault members "seeded_defaults" "schema_version" (.arr [])
        (by decide +kernel)
      cases listed : PluginRegistry.get members "plugins" with
      | arr plugins =>
        simp only [same, listed, items?] at h
        cases checked : validatePlugins sha256 repr plugins with
        | error e => simp [checked, bind, Except.bind] at h
        | ok r =>
          obtain ⟨runs, rfl⟩ := runs_of_validatePlugins checked
          simp only [checked, bind, Except.bind, pure, Except.pure, Except.ok.injEq] at h
          subst h
          have is : pluginsOf (.doc (.obj members)) = plugins := by simp [pluginsOf, listed, items?]
          rw [is]
          refine ⟨⟨by simpa [versionSame] using version, by simpa using seeded, ?_⟩, runs, rfl⟩
          rw [same, listed]
      | _ =>
        simp only [same, listed, items?, Except.ok.injEq] at h
        subst h
        cases valid
    | _ =>
      simp only [loadRegistry, validateDoc, Except.ok.injEq] at h
      subst h
      cases valid

theorem get_unquarantine (members : Members) (slug : Points) {key : String}
    (ne : text key ≠ text "quarantined_bundles") :
    PluginRegistry.get (unquarantine members slug) key = PluginRegistry.get members key := by
  unfold unquarantine
  split
  · split
    · rw [get_set, if_neg ne]
    · rfl
  · rfl

theorem Registry.swapped {members : Members} (doc : Registry members plugins) (slug : Points)
    (later : List Value) : Registry (swapped slug members later) later := by
  obtain ⟨seededNe, versionNe, pluginsQ, seededQ, versionQ⟩ := text_ne
  generalize edit : unquarantine (set members "plugins" (.arr later)) slug = edited
  have version : PluginRegistry.get edited "schema_version" =
      PluginRegistry.get members "schema_version" := by
    rw [← edit, get_unquarantine _ _ versionQ, get_set, if_neg versionNe.symm]
  have seeded : PluginRegistry.get edited "seeded_defaults" =
      PluginRegistry.get members "seeded_defaults" := by
    rw [← edit, get_unquarantine _ _ seededQ, get_set, if_neg seededNe.symm]
  have first : setdefault edited "schema_version" (.int 1) = edited :=
    setdefault_of_get _ (by rw [version]; exact isNull_of_isOne doc.version)
  have same : OwnedSwap.swapped slug members later = edited := by
    rw [OwnedSwap.swapped, edit, first]
    exact setdefault_of_get _ (by rw [seeded]; exact isNull_of_seededOk doc.seeded)
  rw [same]
  exact ⟨by rw [version]; exact doc.version, by rw [seeded]; exact doc.seeded,
    by rw [← edit, get_unquarantine _ _ pluginsQ, get_set, if_pos rfl]⟩

variable {writes : Bool} {newEntries before : List Members} {file file' : File}
variable {data : RegistryData}

theorem publish_error {raw : Members} {error : SwapError}
    (h : publish sha256 repr writes newEntries before raw file = (.error error, file')) :
    file' = file := by
  unfold publish at h
  cases checked : validateDoc sha256 repr (.obj raw) with
  | error e =>
    rw [checked] at h
    exact (Prod.mk.inj h).2.symm
  | ok data =>
    simp only [checked] at h
    split at h
    · exact (Prod.mk.inj h).2.symm
    split at h
    · exact (Prod.mk.inj h).2.symm
    split at h
    · cases (Prod.mk.inj h).1
    · exact (Prod.mk.inj h).2.symm

theorem applyOwnedSwap_error {error : SwapError}
    (h : applyOwnedSwap sha256 repr writes slug newEntries file = (.error error, file')) :
    file' = file := by
  unfold applyOwnedSwap at h
  cases loaded : loadRegistry sha256 repr file with
  | error e =>
    rw [loaded] at h
    exact (Prod.mk.inj h).2.symm
  | ok start =>
    simp only [loaded] at h
    split at h
    · exact (Prod.mk.inj h).2.symm
    · exact publish_error h

structure Done (sha256 : List UInt8 → Points) (repr : Value → Points) (slug : Points)
    (newEntries before : List Members) (plugins : List Value) (file' : File) : Prop where
  runs : Runs sha256 plugins
  before : before = (mine slug plugins).map membersOf
  after : ∃ members, file' = .doc (.obj members) ∧
    Registry members (foreign slug plugins ++ newEntries.map .obj)
  runsAfter : Runs sha256 (foreign slug plugins ++ newEntries.map .obj)
  fits : ∀ n ∈ newEntries.map .obj,
    validated sha256 (foreign slug plugins ++ newEntries.map .obj) n = true
  clear : ∀ f ∈ foreign slug plugins ++ newEntries.map .obj, accepted sha256 f = false →
    ∀ n ∈ newEntries.map .obj, issueName repr f ≠ nameOf n

theorem mem_later {n : Members} (inside : n ∈ newEntries) :
    (.obj n : Value) ∈ foreign slug plugins ++ newEntries.map .obj :=
  List.mem_append_right _ (List.mem_map_of_mem inside)

theorem applyOwnedSwap_ok
    (h : applyOwnedSwap sha256 repr writes slug newEntries file = (.ok (before, data), file')) :
    Done sha256 repr slug newEntries before (pluginsOf file) file' := by
  unfold applyOwnedSwap at h
  cases loaded : loadRegistry sha256 repr file with
  | error e => simp [loaded] at h
  | ok start =>
    cases valid : start.valid with
    | false => simp [loaded, valid] at h
    | true =>
      obtain ⟨doc, runs, -⟩ := loaded_registry loaded valid
      have later := doc.swapped slug (foreign slug (pluginsOf file) ++ newEntries.map .obj)
      simp only [loaded, valid, Bool.not_true, Bool.false_eq_true, if_false, doc.listed, items?,
        Option.getD_some, publish] at h
      rw [validateDoc_registry later] at h
      cases checked : validatePlugins sha256 repr
          (foreign slug (pluginsOf file) ++ newEntries.map .obj) with
      | error e => simp [checked, Except.map] at h
      | ok r =>
        obtain ⟨runsAfter, rfl⟩ := runs_of_validatePlugins checked
        simp only [checked, Except.map] at h
        split at h
        · cases (Prod.mk.inj h).1
        split at h
        · cases (Prod.mk.inj h).1
        next fine =>
        split at h
        · obtain ⟨result, file_⟩ := Prod.mk.inj h
          have same := Prod.mk.inj (Except.ok.inj result)
          rw [ne_eq, not_not, refusals_eq_nil repr _ fun n inside => mem_later inside] at fine
          refine ⟨runs, same.1.symm, ⟨_, file_.symm, later⟩, runsAfter, ?_, ?_⟩
          · rintro n inside
            obtain ⟨m, inM, rfl⟩ := List.mem_map.1 inside
            exact fine.1 m inM
          · intro f inF bad n inside
            obtain ⟨m, inM, rfl⟩ := List.mem_map.1 inside
            exact fine.2 f inF bad m inM
        · cases (Prod.mk.inj h).1

theorem applyOwnedSwap_of_done (repr : Value → Points) (slug : Points) (newEntries : List Members)
    {members : Members} (doc : Registry members plugins)
    (runs : Runs sha256 plugins)
    (runsAfter : Runs sha256 (foreign slug plugins ++ newEntries.map .obj))
    (fits : ∀ n ∈ newEntries,
      validated sha256 (foreign slug plugins ++ newEntries.map .obj) (.obj n) = true)
    (clear : ∀ f ∈ foreign slug plugins ++ newEntries.map .obj, accepted sha256 f = false →
      ∀ n ∈ newEntries, issueName repr f ≠ nameOf (.obj n)) :
    ∃ data, applyOwnedSwap sha256 repr true slug newEntries (.doc (.obj members)) =
      (.ok ((mine slug plugins).map membersOf, data), .doc (.obj data.raw)) ∧
      Registry data.raw (foreign slug plugins ++ newEntries.map .obj) := by
  have later := doc.swapped slug (foreign slug plugins ++ newEntries.map .obj)
  have hashed : (newEntries.any fun e => isUnhashable (PluginRegistry.get e "name")) = false := by
    rw [List.any_eq_false]
    intro n inside
    have holds := fits n inside
    rw [validated, Bool.and_eq_true] at holds
    have name := str?_name (isUnique_iff.1 holds.1).1
    rw [membersOf, str?_eq_some] at name
    simp [name, isUnhashable]
  have fine := fun raw => (refusals_eq_nil repr raw fun n inside => mem_later inside).2
    ⟨fits, clear⟩
  simp only [applyOwnedSwap, loadRegistry, validateDoc_registry doc, validatePlugins_of_runs runs,
    Except.map, Bool.not_true, Bool.false_eq_true, if_false, doc.listed, items?, Option.getD_some,
    publish, validateDoc_registry later, validatePlugins_of_runs runsAfter, hashed, fine, ne_eq,
    not_true_eq_false, if_true]
  exact ⟨⟨_, _, _, true⟩, rfl, later⟩

/-! ### The swap touches only its owner -/

def viewOf (sha256 : List UInt8 → Points) (repr : Value → Points) (file : File) : List Value :=
  match loadRegistry sha256 repr file with
  | .ok data => data.entries
  | .error _ => []

def AllValid (sha256 : List UInt8 → Points) (slug : Points) (plugins : List Value) : Prop :=
  ∀ e ∈ mine slug plugins, validated sha256 plugins e = true

structure Framed (sha256 : List UInt8 → Points) (repr : Value → Points) (slug : Points)
    (newEntries before : List Members) (file file' : File) : Prop where
  /-- The entries of others are where they were, in their order, before the new ones. -/
  kept : foreign slug (pluginsOf file) <+: pluginsOf file'
  /-- The view of the entries of others is what it was. -/
  viewed : (foreign slug (pluginsOf file)).filter (validated sha256 (pluginsOf file')) =
    (foreign slug (pluginsOf file)).filter (validated sha256 (pluginsOf file))
  entered : ∀ n ∈ newEntries, .obj n ∈ viewOf sha256 repr file'
  back : AllValid sha256 slug (pluginsOf file) → ∃ replaced data file'',
    applyOwnedSwap sha256 repr true slug before file' = (.ok (replaced, data), file'') ∧
      mine slug (pluginsOf file'') = mine slug (pluginsOf file)

/-- No new entry without an owner takes the key of an owned entry, and no entry that the checks
refuse bears the name of one that the swap replaces. -/
structure Clear (sha256 : List UInt8 → Points) (repr : Value → Points) (slug : Points)
    (newEntries : List Members) (file : File) : Prop where
  apart : ∀ e ∈ pluginsOf file, validated sha256 (pluginsOf file) e = true → isOwned e = true →
    (isOwnedBy slug e = false ∨ AllValid sha256 slug (pluginsOf file)) →
    ∀ n ∈ newEntries, Apart e (.obj n)
  unnamed : AllValid sha256 slug (pluginsOf file) →
    ∀ f ∈ foreign slug (pluginsOf file), accepted sha256 f = false →
    ∀ e ∈ mine slug (pluginsOf file), issueName repr f ≠ nameOf e

theorem pluginsOf_registry {members : Members} (doc : Registry members plugins) :
    pluginsOf (.doc (.obj members)) = plugins := by
  rw [pluginsOf, doc.listed, items?, Option.getD_some]

theorem viewOf_registry {members : Members} (doc : Registry members plugins)
    (runs : Runs sha256 plugins) :
    viewOf sha256 repr (.doc (.obj members)) = view sha256 plugins := by
  rw [viewOf, loadRegistry, validateDoc_registry doc, validatePlugins_of_runs runs]
  rfl

theorem obj_membersOf (h : e ∈ mine slug plugins) : .obj (membersOf e) = e := by
  have owner := owner_of_mine h
  cases e with
  | obj members => rfl
  | _ => simp [entryOwner, membersOf, PluginRegistry.get, str?] at owner

theorem map_obj_mine (slug : Points) (plugins : List Value) :
    ((mine slug plugins).map membersOf).map .obj = mine slug plugins := by
  rw [List.map_map]
  exact (List.map_congr_left fun e inside => obj_membersOf inside).trans (List.map_id _)

theorem mine_append (l k : List Value) : mine slug (l ++ k) = mine slug l ++ mine slug k :=
  List.filter_append ..

theorem mine_foreign (l : List Value) : mine slug (foreign slug l) = [] := by
  rw [mine, foreign, List.filter_filter]
  simp

theorem mine_mine (l : List Value) : mine slug (mine slug l) = mine slug l := by
  simp [mine]

theorem runs_back (before : Runs sha256 plugins)
    (later : Runs sha256 (foreign slug plugins ++ added))
    (fits : ∀ n ∈ added, validated sha256 (foreign slug plugins ++ added) n = true)
    (all : AllValid sha256 slug plugins) :
    Runs sha256 (foreign slug (foreign slug plugins ++ added) ++ mine slug plugins) := by
  constructor
  · intro e inside
    rcases List.mem_append.1 inside with away | own
    · exact later.1 e (List.mem_filter.1 away).1
    · exact before.1 e (List.mem_filter.1 own).1
  · intro e inside
    obtain ⟨listed, again⟩ := List.mem_filter.1 inside
    rcases List.mem_append.1 listed with away | own
    · rcases List.mem_append.1 (List.mem_filter.1 away).1 with old | new
      · exact before.2 e (List.mem_filter.2 ⟨(List.mem_filter.1 old).1, isUnique_of_back old again⟩)
      · have here := fits e new
        rw [validated, Bool.and_eq_true] at here
        exact later.2 e (List.mem_filter.2 ⟨List.mem_append_right _ new, here.1⟩)
    · have here := all e own
      rw [validated, Bool.and_eq_true] at here
      exact before.2 e (List.mem_filter.2 ⟨(List.mem_filter.1 own).1, here.1⟩)

/-- The way back is open just where the new entries left the keys of the old ones free, and no
refused entry bears one of their names. -/
theorem back_iff {members : Members} (doc : Registry members (foreign slug plugins ++ added))
    (before : Runs sha256 plugins) (later : Runs sha256 (foreign slug plugins ++ added))
    (fits : ∀ n ∈ added, validated sha256 (foreign slug plugins ++ added) n = true)
    (all : AllValid sha256 slug plugins) :
    (∃ replaced data file'', applyOwnedSwap sha256 repr true slug
        ((mine slug plugins).map membersOf) (.doc (.obj members)) =
          (.ok (replaced, data), file'') ∧
      mine slug (pluginsOf file'') = mine slug plugins) ↔
      (∀ e ∈ mine slug plugins, ∀ n ∈ added, Apart e n) ∧
        ∀ f ∈ foreign slug plugins, accepted sha256 f = false →
          ∀ e ∈ mine slug plugins, issueName repr f ≠ nameOf e := by
  constructor
  · rintro ⟨replaced, data, file'', ends, -⟩
    have done := applyOwnedSwap_ok ends
    have fitsBack := done.fits
    have clear := done.clear
    rw [pluginsOf_registry doc, map_obj_mine] at fitsBack clear
    refine ⟨fun e own => (validated_back_iff fits own (all e own)).1 (fitsBack e own),
      fun f away bad e own => clear f (List.mem_append_left _ ?_) bad e own⟩
    exact List.mem_filter.2 ⟨List.mem_append_left _ away, (List.mem_filter.1 away).2⟩
  · rintro ⟨apart, unnamed⟩
    obtain ⟨data, ends, docBack⟩ := applyOwnedSwap_of_done repr slug
      ((mine slug plugins).map membersOf) doc later
      (by rw [map_obj_mine]; exact runs_back before later fits all)
      (by
        intro n inside
        obtain ⟨e, own, rfl⟩ := List.mem_map.1 inside
        rw [map_obj_mine, obj_membersOf own]
        exact (validated_back_iff fits own (all e own)).2 (apart e own))
      (by
        intro f inF bad n inside
        obtain ⟨e, own, rfl⟩ := List.mem_map.1 inside
        rw [map_obj_mine] at inF
        rw [obj_membersOf own]
        rcases List.mem_append.1 inF with away | own'
        · rcases List.mem_append.1 (List.mem_filter.1 away).1 with old | new
          · exact unnamed f old bad e own
          · rw [accepted_added fits new] at bad
            cases bad
        · have here := all f own'
          rw [validated, Bool.and_eq_true, isUnique_iff] at here
          rw [here.1.1] at bad
          cases bad)
    refine ⟨_, _, _, ends, ?_⟩
    rw [pluginsOf_registry docBack, map_obj_mine, mine_append, mine_foreign, mine_mine,
      List.nil_append]

theorem filter_eq_filter {p q : Value → Bool} {l : List Value} :
    l.filter p = l.filter q ↔ ∀ e ∈ l, p e = q e := by
  refine ⟨fun same e inside => ?_, List.filter_congr⟩
  have left : e ∈ l.filter p ↔ p e = true := by simp [inside]
  rw [same, List.mem_filter, and_iff_right inside] at left
  exact (Bool.eq_iff_iff.2 left).symm

/-- A swap that fails leaves the file as it was; one that succeeds touches only its owner, and is
its own way back, exactly where no new entry without an owner takes the key of an owned entry and no
refused entry bears the name of a replaced one. -/
theorem applyOwnedSwap_framed_iff (sha256 : List UInt8 → Points) (repr : Value → Points)
    (writes : Bool) (slug : Points) (newEntries : List Members) (file file' : File) :
    (∀ error, applyOwnedSwap sha256 repr writes slug newEntries file = (.error error, file') →
      file' = file) ∧
    ∀ before data, applyOwnedSwap sha256 repr writes slug newEntries file =
        (.ok (before, data), file') →
      (Framed sha256 repr slug newEntries before file file' ↔
        Clear sha256 repr slug newEntries file) := by
  refine ⟨fun error => applyOwnedSwap_error, fun before data ends => ?_⟩
  obtain ⟨runs, rfl, ⟨members, rfl, doc⟩, later, fits, clear⟩ := applyOwnedSwap_ok ends
  have listed := pluginsOf_registry doc
  have viewedIff : (foreign slug (pluginsOf file)).filter
        (validated sha256 (foreign slug (pluginsOf file) ++ newEntries.map .obj)) =
      (foreign slug (pluginsOf file)).filter (validated sha256 (pluginsOf file)) ↔
      ∀ e ∈ foreign slug (pluginsOf file), validated sha256 (pluginsOf file) e = true →
        isOwned e = true → ∀ n ∈ newEntries.map .obj, Apart e n := by
    rw [filter_eq_filter]
    exact forall₂_congr fun e away => validated_foreign_iff fits away
  have newIff (e : Value) : (∀ n ∈ newEntries.map Value.obj, Apart e n) ↔
      ∀ n ∈ newEntries, Apart e (.obj n) := by simp
  constructor
  · rintro ⟨-, viewed, -, back⟩
    rw [listed] at viewed
    refine ⟨fun e inside was owned whose => ?_, fun all => ((back_iff doc runs later fits all).1
      (back all)).2⟩
    rw [← newIff]
    rcases mem_mine_or_foreign slug inside with own | away
    · rcases whose with other | all
      · rw [(List.mem_filter.1 own).2] at other
        cases other
      · exact ((back_iff doc runs later fits all).1 (back all)).1 e own
    · exact viewedIff.1 viewed e away was owned
  · rintro ⟨apart, unnamed⟩
    refine ⟨?_, ?_, fun n inside => ?_, fun all => (back_iff doc runs later fits all).2
      ⟨fun e own => ?_, unnamed all⟩⟩
    · rw [listed]
      exact List.prefix_append _ _
    · rw [listed, viewedIff]
      intro e away was owned
      rw [newIff]
      exact apart e (List.mem_filter.1 away).1 was owned (.inl (by simpa using
        (List.mem_filter.1 away).2))
    · rw [viewOf_registry doc later]
      exact mem_view.2 ⟨mem_later inside, fits _ (List.mem_map_of_mem inside)⟩
    · rw [newIff]
      exact apart e (List.mem_filter.1 own).1 (all e own)
        (isOwned_of_entryOwner (owner_of_mine own)) (.inr all)

end Facts

/-! ### An entry that bars the way back -/

def digest (_ : List UInt8) : Points :=
  text "1aaed1635b30883fd71aa3ed353eb18ee534ddd945c79e60d4ae1c307c4d5f2b"

/-- The entry of specialist `a`. -/
def ownedEntry : Value :=
  .obj [(text "name", .str (text "a.tool")), (text "owner", .str (text "specialist:a")),
    (text "manifest_name", .str (text "tool")),
    (text "targets", .arr [.str (text "specialist:a")]),
    (text "source", .obj [(text "type", .str (text "github")), (text "repo", .str (text "o/r")),
      (text "ref", .str (text "main")), (text "revision", .str (commit))]),
    (text "version", .str (text "1")), (text "artifact_id", .str (digest []))]

def namesake : Value := .obj [(text "name", .str (text "a.tool"))]

def shared : File :=
  .doc (.obj [(text "schema_version", .int 1), (text "seeded_defaults", .arr []),
    (text "plugins", .arr [ownedEntry, namesake])])

def noRepr (_ : Value) : Points := []

def succeeds : Except SwapError (List Members × RegistryData) → Bool
  | .ok _ => true
  | .error _ => false

theorem shared_facts :
    succeeds (applyOwnedSwap digest noRepr true (text "a") [] shared).1 = true ∧
    (mine (text "a") (pluginsOf shared)).all (validated digest (pluginsOf shared)) = true ∧
    (foreign (text "a") (pluginsOf shared)).any (fun f => !accepted digest f &&
      (mine (text "a") (pluginsOf shared)).any fun e => issueName noRepr f = nameOf e) = true := by
  decide +kernel

/-- The entries of `a` go, and the swap does not take them back: its list of issues names a refused
entry of nobody's that is called like one of them. -/
theorem uninstall_without_return : ∃ before data file',
    applyOwnedSwap digest noRepr true (text "a") [] shared = (.ok (before, data), file') ∧
      ¬ Framed digest noRepr (text "a") [] before shared file' := by
  obtain ⟨succeeds, all, named⟩ := shared_facts
  cases result : applyOwnedSwap digest noRepr true (text "a") [] shared with
  | mk outcome file' =>
    rw [result] at succeeds
    cases outcome with
    | error error => cases succeeds
    | ok r =>
      refine ⟨r.1, r.2, file', rfl, fun framed => ?_⟩
      have valid : AllValid digest (text "a") (pluginsOf shared) := List.all_eq_true.1 all
      obtain ⟨runs, before, ⟨members, rfl, doc⟩, later, fits, -⟩ := applyOwnedSwap_ok result
      have back := framed.back valid
      rw [before] at back
      obtain ⟨-, unnamed⟩ := (back_iff doc runs later fits valid).1 back
      obtain ⟨f, away, bad⟩ := List.any_eq_true.1 named
      rw [Bool.and_eq_true, List.any_eq_true] at bad
      obtain ⟨refused, e, own, same⟩ := bad
      exact unnamed f away (by simpa using refused) e own (by simpa using same)

end Casa.OwnedSwap
