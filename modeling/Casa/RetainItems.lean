import Casa.ProvenanceTag
import Casa.SeparatedText
import Mathlib.Logic.Equiv.List

/-! Retained turns as memory documents: the id that a turn is kept under, by the kind of its
speaker, and the items of a batch. -/

namespace Casa.RetainItems
open PythonValue ProvenanceCodec ProvenanceTag FlatJson

def separator : Char := Char.ofNat 0
def reservedSourceNamespace : List Char := "casa-source-".toList
def tiers : List (List Char) := ["public", "friends", "family", "private"].map String.toList

structure RetainedTurn where
  provenance : SpeakerProvenance
  text : String

section Ids

/- The digest of a text is the `sha256(…).hexdigest()[:24]` of its UTF-8. -/
variable {T : Type} (py : Builtins T) (digest : List Char → List Char)

def joined (fields : List String) (text : String) : List Char :=
  fields.foldr (fun field rest => field.toList ++ separator :: rest) text.toList

def contentDocumentId (speaker text : String) : List Char :=
  "m-".toList ++ digest (joined [speaker] text)

def automationDocumentId (userPeer text : String) : Except String (List Char) := do
  check (userPeer ≠ "") "automation_document_id requires a user_peer"
  pure ("m-x-".toList ++ digest (joined ["automation", userPeer] text))

def agentDocumentId (provenance : SpeakerProvenance) (text : String) :
    Except String (List Char) := do
  validateSpeakerProvenance py provenance
  check (provenance.speakerKind ≠ .user)
    "agent_document_id cannot be used for a user provenance"
  check (provenance.speakerKind ≠ .automation)
    "agent_document_id cannot be used for an automation provenance"
  pure ("m-a-".toList ++ digest (joined ["agent", provenance.speakerKind.value,
    provenance.roleId.getD "", provenance.personaId.getD ""] text))

def documentId (provenance : SpeakerProvenance) (text : String) : Except String (List Char) :=
  match provenance.speakerKind with
  | .user => .ok (contentDocumentId digest (provenance.userPeer.getD "") text)
  | .automation => automationDocumentId digest (provenance.userPeer.getD "") text
  | _ => agentDocumentId py digest provenance text

end Ids

section Batch
variable {T : Type} (py : Builtins T) (codec : JsonCodec T) (digest : List Char → List Char)

structure Pending where
  turn : RetainedTurn
  text : String
  documentId : List Char

/-- One round of the loop; `seen` has the ids and texts of `pending`. -/
def admitTurn (pending : List Pending) (turn : RetainedTurn) : Except String (List Pending) := do
  validateSpeakerProvenance py turn.provenance
  let text := strip turn.text
  if text = "" then pure pending
  else do
    let id ← documentId py digest turn.provenance text
    match pending.find? (·.documentId = id) with
    | none => pure (pending ++ [⟨turn, text, id⟩])
    | some prior => do
        check (prior.text = text) "document-id collision maps to different text"
        pure pending

def checkTag (tag : List Char) : Except String Unit := do
  check (!reservedSourceNamespace.isPrefixOf tag) "caller-supplied reserved provenance tag"
  check (!tiers.contains tag) "caller-supplied sensitivity application tag"

/-- `casaSourceV1` is the member of the metadata. -/
structure Item where
  content : String
  tags : List (List Char)
  casaSourceV1 : List UInt8
  documentId : List Char

def itemOf (applicationTags : List (List Char)) (p : Pending) (tier : List Char) :
    Except String Item := do
  check (tiers.contains tier) "invalid sensitivity tier returned by classifier"
  let provenanceJson ← codec.dumps (← provenanceMapping py p.turn.provenance)
  let tag ← encodeProvenanceTag py codec p.turn.provenance
  pure ⟨p.text, tier :: tag :: applicationTags, provenanceJson, p.documentId⟩

/-- What the classifier answers or raises for a text stands for all of its concurrency. -/
def buildRetainItems (turns : List RetainedTurn) (classify : String → Except String (List Char))
    (applicationTags : List (List Char)) (classifyConcurrency : Int) :
    Except String (List Item) := do
  check (1 ≤ classifyConcurrency) "classify_concurrency must be positive"
  applicationTags.forM checkTag
  let pending ← turns.foldlM (admitTurn py digest) []
  let answers ← pending.mapM fun p => classify p.text
  (pending.zip answers).mapM fun (p, tier) => itemOf py codec applicationTags p tier

end Batch

/-! ### The authors of a document -/

inductive IdSpace where
  | user | automation | agent
deriving DecidableEq

def idSpace : SpeakerKind → IdSpace
  | .user => .user
  | .automation => .automation
  | _ => .agent

def SameAuthor (v w : SpeakerProvenance) : Prop :=
  idSpace v.speakerKind = idSpace w.speakerKind ∧
    if idSpace v.speakerKind = .agent then
      v.speakerKind = w.speakerKind ∧ v.roleId = w.roleId ∧ v.personaId = w.personaId
    else v.userPeer = w.userPeer

/-- The first peer goes on with a separator where the second text begins. -/
def Spills (peer : String) (text : String) (peer' text' : String) : Prop :=
  ∃ u, peer.toList = peer'.toList ++ separator :: u ∧
    text'.toList = u ++ separator :: text.toList

/-- What tells two authors apart is lost when the fields are joined. -/
def Blurred (v : SpeakerProvenance) (text : String) (w : SpeakerProvenance) (text' : String) :
    Prop :=
  idSpace v.speakerKind = idSpace w.speakerKind ∧
    if idSpace v.speakerKind = .agent then
      v.speakerKind = w.speakerKind ∧ v.roleId = w.roleId ∧ text = text' ∧
        v.personaId ≠ w.personaId ∧ v.personaId.getD "" = w.personaId.getD ""
    else Spills (v.userPeer.getD "") text (w.userPeer.getD "") text' ∨
      Spills (w.userPeer.getD "") text' (v.userPeer.getD "") text

theorem matchesSlug_plain {limit : Option ℕ} {cs : List Char} (slug : matchesSlug limit cs = true) :
    separator ∉ cs := by
  cases cs with
  | nil => exact List.not_mem_nil
  | cons c rest =>
    simp only [matchesSlug, Bool.and_eq_true, List.all_eq_true] at slug
    refine List.not_mem_cons_of_ne_of_not_mem ?_ fun inside => absurd (slug.1.2 _ inside) (by decide)
    rintro rfl
    exact absurd slug.1.1 (by decide)

theorem role_plain {role : Option String} (valid : role.all matchesRole = true) :
    separator ∉ (role.getD "").toList := by
  cases role with
  | none => decide
  | some s =>
    obtain ⟨kind, listed, is⟩ := List.any_eq_true.mp (show matchesRole s = true from valid)
    obtain ⟨start, slug⟩ := Bool.and_eq_true_iff.mp is
    obtain ⟨rest, same⟩ := List.isPrefixOf_iff_prefix.mp start
    have plain : ∀ kind ∈ ["resident:", "specialist:", "executor:"], separator ∉ kind.toList := by
      decide
    change separator ∉ s.toList
    rw [← same, ← String.length_toList, List.drop_left] at slug
    rw [← same]
    exact fun inside => (List.mem_append.mp inside).elim (plain kind listed) (matchesSlug_plain slug)

theorem persona_plain {s : String} (valid : matchesPersona s = true) : separator ∉ s.toList := by
  obtain ⟨both, slug⟩ := Bool.and_eq_true_iff.mp valid
  obtain ⟨publisher, -⟩ := Bool.and_eq_true_iff.mp both
  have whole := List.takeWhile_append_dropWhile (p := (· ≠ '/')) (l := s.toList)
  have slash := List.head?_dropWhile_not (· ≠ '/') s.toList
  generalize s.toList.takeWhile (· ≠ '/') = front at publisher slug whole
  generalize s.toList.dropWhile (· ≠ '/') = back at whole slash
  rw [← whole, ← List.drop_drop, List.drop_left] at slug
  rw [← whole, List.mem_append]
  rintro (inside | inside)
  · unfold matchesPublisher at publisher
    split at publisher
    · simp only [Bool.and_eq_true, List.all_eq_true] at publisher
      exact absurd (publisher.2 _ inside) (by decide)
    · cases publisher
  · cases back with
    | nil => cases inside
    | cons c more =>
      have is : c = '/' := by simpa using slash
      rcases List.mem_cons.mp inside with same | later
      · exact absurd (same.trans is) (by decide)
      · exact matchesSlug_plain slug later

/-! ### What is hashed -/

def idPrefix : IdSpace → List Char
  | .user => "m-".toList
  | .automation => "m-x-".toList
  | .agent => "m-a-".toList

def idFields (v : SpeakerProvenance) : List String :=
  match idSpace v.speakerKind with
  | .user => [v.userPeer.getD ""]
  | .automation => ["automation", v.userPeer.getD ""]
  | .agent => ["agent", v.speakerKind.value, v.roleId.getD "", v.personaId.getD ""]

theorem of_truthy {s : Option String} (h : truthy s = true) : ∃ t, s = some t ∧ t ≠ "" := by
  cases s with
  | none => cases h
  | some t => exact ⟨t, rfl, by simpa [truthy] using h⟩

section Identity
variable {T : Type} {py : Builtins T} {digest : List Char → List Char}
  {v w : SpeakerProvenance} {text text' : String}

/-- What a validated identity says of the fields that are hashed. -/
theorem fields_of_valid (valid : validateSpeakerProvenance py v = .ok ()) :
    v.roleId.all matchesRole = true ∧
      (idSpace v.speakerKind = .agent → separator ∉ (v.personaId.getD "").toList) ∧
      (idSpace v.speakerKind ≠ .agent → ∃ peer, v.userPeer = some peer ∧ peer ≠ "") := by
  simp only [validateSpeakerProvenance, bind_eq_ok, check_eq_ok] at valid
  obtain ⟨_, kind, _, role, -⟩ := valid
  have none_ {l : List (Option String)} (absent : (!l.any truthy) = true)
      (inside : v.personaId ∈ l) : separator ∉ (v.personaId.getD "").toList := by
    simp only [Bool.not_eq_true', List.any_eq_false] at absent
    cases persona : v.personaId with
    | none => decide
    | some s =>
      have empty : s = "" := by simpa [persona, truthy] using absent _ inside
      rw [empty]
      decide
  have named (persona : (truthy v.personaId && v.personaId.any matchesPersona) = true) :
      separator ∉ (v.personaId.getD "").toList := by
    cases is : v.personaId with
    | none => decide
    | some s => exact persona_plain (by simpa [is] using (Bool.and_eq_true_iff.mp persona).2)
  cases is : v.speakerKind with
  | user | automation =>
    simp only [validateKind, is, bind_eq_ok, check_eq_ok] at kind
    exact ⟨role, nofun, fun _ => of_truthy kind.choose_spec.1⟩
  | resident | specialist =>
    simp only [validateKind, is, bind_eq_ok, check_eq_ok] at kind
    obtain ⟨_, _, _, persona, -⟩ := kind
    exact ⟨role, fun _ => named persona, fun other => absurd rfl other⟩
  | executor =>
    simp only [validateKind, is, bind_eq_ok, check_eq_ok] at kind
    obtain ⟨_, _, absent⟩ := kind
    exact ⟨role, fun _ => none_ absent (by simp), fun other => absurd rfl other⟩
  | system =>
    simp only [validateKind, is, check_eq_ok] at kind
    exact ⟨role, fun _ => none_ kind (by simp), fun other => absurd rfl other⟩

theorem documentId_eq (valid : validateSpeakerProvenance py v = .ok ()) :
    documentId py digest v text =
      .ok (idPrefix (idSpace v.speakerKind) ++ digest (joined (idFields v) text)) := by
  obtain ⟨-, -, peer⟩ := fields_of_valid valid
  cases is : v.speakerKind with
  | user => simp [documentId, contentDocumentId, idFields, idSpace, idPrefix, is]
  | automation =>
    obtain ⟨p, some_, nonempty⟩ := peer (by rw [is]; decide)
    simp [documentId, automationDocumentId, check, idFields, idSpace, idPrefix, is, some_,
      nonempty]
  | resident | specialist | executor | system =>
    simp [documentId, agentDocumentId, valid, check, idFields, idSpace, idPrefix, is]
    rfl

/-- Two texts are cut at the same separator, or one cut lies in front of the other. -/
theorem cut_cases {p q s t : List Char} : p ++ separator :: s = q ++ separator :: t ↔
    (p = q ∧ s = t) ∨ (∃ u, p = q ++ separator :: u ∧ t = u ++ separator :: s) ∨
      ∃ u, q = p ++ separator :: u ∧ s = u ++ separator :: t := by
  constructor
  · intro same
    rcases List.append_eq_append_iff.mp same with ⟨u, rfl, rest⟩ | ⟨u, rfl, rest⟩
    · cases u with
      | nil => exact .inl ⟨by simp, (List.cons.inj rest).2⟩
      | cons c u =>
        obtain ⟨rfl, rfl⟩ := List.cons.inj rest
        exact .inr (.inr ⟨u, rfl, rfl⟩)
    · cases u with
      | nil => exact .inl ⟨by simp, (List.cons.inj rest).2.symm⟩
      | cons c u =>
        obtain ⟨rfl, rfl⟩ := List.cons.inj rest
        exact .inr (.inl ⟨u, rfl, rfl⟩)
  · rintro (⟨rfl, rfl⟩ | ⟨u, rfl, rfl⟩ | ⟨u, rfl, rfl⟩)
    · rfl
    · simp
    · simp

theorem getD_role_inj {r r' : Option String} (valid : r.all matchesRole = true)
    (valid' : r'.all matchesRole = true) : r.getD "" = r'.getD "" ↔ r = r' := by
  have none_ : matchesRole "" = false := by decide
  cases r <;> cases r' <;> grind

theorem joined_agent_iff {k l : SpeakerKind} {role role' persona persona' : String}
    (plain : separator ∉ role.toList) (plain' : separator ∉ role'.toList)
    (clean : separator ∉ persona.toList) (clean' : separator ∉ persona'.toList) :
    joined ["agent", k.value, role, persona] text = joined ["agent", l.value, role', persona'] text' ↔
      k = l ∧ role = role' ∧ persona = persona' ∧ text = text' := by
  have kind (k : SpeakerKind) : separator ∉ k.value.toList := by cases k <;> decide
  refine ⟨fun same => ?_, by rintro ⟨rfl, rfl, rfl, rfl⟩; rfl⟩
  obtain ⟨-, same⟩ := SeparatedText.cut_first (by decide) (by decide) same
  obtain ⟨kinds, same⟩ := SeparatedText.cut_first (kind k) (kind l) same
  obtain ⟨roles, same⟩ := SeparatedText.cut_first plain plain' same
  obtain ⟨personas, texts⟩ := SeparatedText.cut_first clean clean' same
  refine ⟨?_, String.toList_inj.mp roles, String.toList_inj.mp personas, String.toList_inj.mp texts⟩
  have read := congrArg SpeakerKind.ofValue? (String.toList_inj.mp kinds)
  rw [SpeakerKind.ofValue?_value, SpeakerKind.ofValue?_value] at read
  exact Option.some.inj read

theorem not_both (same : SameAuthor v w ∧ text = text') : ¬ Blurred v text w text' := by
  obtain ⟨⟨space, author⟩, rfl⟩ := same
  rintro ⟨-, blurred⟩
  by_cases agent : idSpace v.speakerKind = .agent
  · rw [if_pos agent] at author blurred
    exact blurred.2.2.2.1 author.2.2
  · rw [if_neg agent] at author blurred
    rw [author, or_self] at blurred
    obtain ⟨u, same, -⟩ := blurred
    simpa using congrArg List.length same

section Injective
variable (injective : Function.Injective digest) (hex : ∀ s, '-' ∉ digest s)
include injective hex

theorem id_eq_iff {a b : IdSpace} {s t : List Char} :
    idPrefix a ++ digest s = idPrefix b ++ digest t ↔ a = b ∧ s = t := by
  have apart (c : Char) (s t : List Char) : digest s ≠ c :: '-' :: digest t := fun same =>
    hex s (by rw [same]; simp)
  refine ⟨fun same => ?_, fun both => by rw [both.1, both.2]⟩
  by_cases ab : a = b
  · subst ab
    exact ⟨rfl, injective (List.append_cancel_left same)⟩
  · cases a <;> cases b <;> simp [idPrefix, apart, (apart _ _ _).symm] at same ab

/-- Two turns are one document just where they have the same author and text, or blur. -/
theorem same_document_iff (valid : validateSpeakerProvenance py v = .ok ())
    (valid' : validateSpeakerProvenance py w = .ok ()) :
    documentId py digest v text = documentId py digest w text' ↔
      (SameAuthor v w ∧ text = text') ∨ Blurred v text w text' := by
  rw [documentId_eq valid, documentId_eq valid', Except.ok.injEq, id_eq_iff injective hex]
  obtain ⟨role, persona, peer⟩ := fields_of_valid valid
  obtain ⟨role', persona', peer'⟩ := fields_of_valid valid'
  unfold SameAuthor Blurred
  by_cases space : idSpace v.speakerKind = idSpace w.speakerKind
  swap
  · simp [space]
  simp only [space, true_and]
  by_cases agent : idSpace w.speakerKind = .agent
  · have left : idFields v = ["agent", v.speakerKind.value, v.roleId.getD "", v.personaId.getD ""] := by
      simp only [idFields, space, agent]
    have right : idFields w = ["agent", w.speakerKind.value, w.roleId.getD "", w.personaId.getD ""] := by
      simp only [idFields, agent]
    rw [left, right, if_pos agent, if_pos agent, joined_agent_iff (role_plain role) (role_plain role')
      (persona (space.trans agent)) (persona' agent), getD_role_inj role role']
    by_cases same : v.personaId = w.personaId
    · simp [same]
      tauto
    · simp [same]
      tauto
  · simp only [if_neg agent]
    obtain ⟨p, some_, -⟩ := peer (space ▸ agent)
    obtain ⟨q, some', -⟩ := peer' agent
    have cut : joined (idFields v) text = joined (idFields w) text' ↔
        p.toList ++ separator :: text.toList = q.toList ++ separator :: text'.toList := by
      cases is : idSpace w.speakerKind with
      | agent => exact absurd is agent
      | user | automation => simp [idFields, space, is, some_, some', joined]
    rw [cut, cut_cases, some_, some', String.toList_inj, String.toList_inj]
    simp [Spills]

end Injective

end Identity

/-! ### A batch -/

section Batch
variable {T : Type} (py : Builtins T) (codec : JsonCodec T) (digest : List Char → List Char)

/-- The ids of the turns that are not blank. -/
def idsOf (turns : List RetainedTurn) : List (List Char) :=
  turns.filterMap fun turn =>
    if strip turn.text = "" then none
    else (documentId py digest turn.provenance (strip turn.text)).toOption

/-- The turn, not blank, is the first one with this id. -/
def First (turns : List RetainedTurn) (turn : RetainedTurn) (text : String) (id : List Char) :
    Prop :=
  ∃ before after, turns = before ++ turn :: after ∧ text = strip turn.text ∧ text ≠ "" ∧
    documentId py digest turn.provenance text = .ok id ∧ id ∉ idsOf py digest before

/-- Its tags have one tier, and one provenance, which is the one that is given. -/
def Tagged (provenance : SpeakerProvenance) (tags : List (List Char)) : Prop :=
  (∃ tier, tags.filter tiers.contains = [tier]) ∧
    ∃ tag, tags.filter reservedSourceNamespace.isPrefixOf = [tag] ∧
      decodeProvenanceTag py codec tag = .ok provenance

variable {py codec digest}

theorem admitTurn_keeps {done : List RetainedTurn} {turn : RetainedTurn} {pending after : List Pending}
    (admitted : admitTurn py digest pending turn = .ok after)
    (ids : pending.map Pending.documentId = (idsOf py digest done).eraseDups)
    (first : ∀ p ∈ pending, First py digest done p.turn p.text p.documentId) :
    after.map Pending.documentId = (idsOf py digest (done ++ [turn])).eraseDups ∧
      ∀ p ∈ after, First py digest (done ++ [turn]) p.turn p.text p.documentId := by
  have later : ∀ p ∈ pending, First py digest (done ++ [turn]) p.turn p.text p.documentId := by
    intro p inside
    obtain ⟨before, after, rfl, rest⟩ := first p inside
    exact ⟨before, after ++ [turn], by simp, rest⟩
  simp only [admitTurn, bind_eq_ok] at admitted
  obtain ⟨_, -, admitted⟩ := admitted
  by_cases blank : strip turn.text = ""
  · rw [if_pos blank, pure_eq_ok] at admitted
    subst admitted
    exact ⟨by simpa [idsOf, blank] using ids, later⟩
  rw [if_neg blank, bind_eq_ok] at admitted
  obtain ⟨id, is, admitted⟩ := admitted
  have more : idsOf py digest (done ++ [turn]) = idsOf py digest done ++ [id] := by
    simp [idsOf, blank, is, Except.toOption]
  have seen : id ∈ idsOf py digest done ↔ ∃ p ∈ pending, p.documentId = id := by
    rw [← List.mem_eraseDups, ← ids, List.mem_map]
  rw [more, List.eraseDups_append]
  split at admitted
  · next fresh =>
    rw [pure_eq_ok] at admitted
    subst admitted
    have new : id ∉ idsOf py digest done := fun old => by
      obtain ⟨p, inside, same⟩ := seen.mp old
      simpa [same] using List.find?_eq_none.mp fresh p inside
    refine ⟨by simp [ids, List.removeAll, new, List.eraseDups_cons], List.forall_mem_append.mpr ⟨later, ?_⟩⟩
    rw [List.forall_mem_singleton]
    exact ⟨done, [], rfl, rfl, blank, is, new⟩
  · next prior found =>
    simp only [bind_eq_ok, pure_eq_ok] at admitted
    obtain ⟨_, -, rfl⟩ := admitted
    have old := seen.mpr ⟨prior, List.mem_of_find?_eq_some found, by
      simpa using List.find?_some found⟩
    exact ⟨by simp [ids, List.removeAll, old], later⟩

theorem admitAll_keeps {turns done : List RetainedTurn} {pending after : List Pending}
    (admitted : turns.foldlM (admitTurn py digest) pending = .ok after)
    (ids : pending.map Pending.documentId = (idsOf py digest done).eraseDups)
    (first : ∀ p ∈ pending, First py digest done p.turn p.text p.documentId) :
    after.map Pending.documentId = (idsOf py digest (done ++ turns)).eraseDups ∧
      ∀ p ∈ after, First py digest (done ++ turns) p.turn p.text p.documentId := by
  induction turns generalizing done pending with
  | nil =>
    obtain rfl := Except.ok.inj admitted
    rw [List.append_nil]
    exact ⟨ids, first⟩
  | cons turn rest ih =>
    rw [List.foldlM_cons, bind_eq_ok] at admitted
    obtain ⟨next, one, admitted⟩ := admitted
    obtain ⟨ids', first'⟩ := admitTurn_keeps one ids first
    rw [List.append_cons]
    exact ih admitted ids' first'

theorem item_tagged {tags : List (List Char)} {p : Pending} {tier : List Char} {item : Item}
    (lawful : codec.Lawful) (apart : ∀ t ∈ tags, checkTag t = .ok ())
    (made : itemOf py codec tags p tier = .ok item) :
    item.documentId = p.documentId ∧ item.content = p.text ∧
      Tagged py codec p.turn.provenance item.tags := by
  simp only [itemOf, bind_eq_ok, check_eq_ok, List.contains_iff_mem, pure_eq_ok] at made
  obtain ⟨_, known, _, -, _, -, tag, encoded, rfl⟩ := made
  obtain ⟨-, wire, -, -, is⟩ := (encodeProvenanceTag_iff py codec).mp encoded
  have reserved : reservedSourceNamespace.isPrefixOf tag = true := by
    rw [is, List.isPrefixOf_iff_prefix]
    exact ⟨"v1.".toList ++ Base64Url.payload wire, rfl⟩
  have foreign : ∀ t ∈ tiers, reservedSourceNamespace.isPrefixOf t = false := by decide
  have other : ∀ t ∈ tags, t ∉ tiers ∧ reservedSourceNamespace.isPrefixOf t = false := by
    intro t inside
    obtain ⟨_, plain, tier⟩ := bind_eq_ok.mp (apart t inside)
    exact ⟨by simpa using check_eq_ok.mp tier, by simpa using check_eq_ok.mp plain⟩
  have noTier : tags.filter tiers.contains = [] := by simpa using fun t inside => (other t inside).1
  have noSource : tags.filter reservedSourceNamespace.isPrefixOf = [] :=
    List.filter_eq_nil_iff.mpr fun t inside => by simp [(other t inside).2]
  have tagged : tag ∉ tiers := fun inside => by cases reserved.symm.trans (foreign tag inside)
  refine ⟨rfl, rfl, ⟨tier, ?_⟩, tag, ?_, decode_of_encode py codec lawful encoded⟩
  · simp [known, tagged, noTier]
  · simp [foreign tier known, reserved, noSource]

theorem of_mapM {α β γ ε : Type} {f : α → Except ε β} {l : List α} {r : List β}
    (done : l.mapM f = .ok r) (g : α → γ) (h : β → γ) (same : ∀ a b, f a = .ok b → h b = g a) :
    r.map h = l.map g ∧ ∀ b ∈ r, ∃ a ∈ l, f a = .ok b := by
  induction l generalizing r with
  | nil =>
    obtain rfl := Except.ok.inj done
    exact ⟨rfl, nofun⟩
  | cons a l ih =>
    simp only [List.mapM_cons, bind_eq_ok, pure_eq_ok] at done
    obtain ⟨b, here, rest, there, rfl⟩ := done
    obtain ⟨maps, each⟩ := ih there
    refine ⟨by rw [List.map_cons, List.map_cons, same a b here, maps], ?_⟩
    refine List.forall_mem_cons.mpr ⟨⟨a, List.mem_cons_self, here⟩, fun c inside => ?_⟩
    obtain ⟨d, inside', made⟩ := each c inside
    exact ⟨d, List.mem_cons_of_mem a inside', made⟩

theorem of_forM {α ε : Type} {f : α → Except ε Unit} {l : List α} (done : l.forM f = .ok ()) :
    ∀ a ∈ l, f a = .ok () := by
  induction l with
  | nil => exact nofun
  | cons a l ih =>
    rw [show (a :: l).forM f = (f a >>= fun _ => l.forM f) from rfl, bind_eq_ok] at done
    obtain ⟨_, here, there⟩ := done
    exact List.forall_mem_cons.mpr ⟨here, ih there⟩

/-- One item for each id, in order, tagged as its first turn is. -/
theorem batch_exact {turns : List RetainedTurn} {classify : String → Except String (List Char)}
    {tags : List (List Char)} {n : Int} {items : List Item} (lawful : codec.Lawful)
    (built : buildRetainItems py codec digest turns classify tags n = .ok items) :
    items.map Item.documentId = (idsOf py digest turns).eraseDups ∧
      ∀ item ∈ items, ∃ turn, First py digest turns turn item.content item.documentId ∧
        Tagged py codec turn.provenance item.tags := by
  simp only [buildRetainItems, bind_eq_ok] at built
  obtain ⟨_, -, _, apart, pending, admitted, answers, classified, made⟩ := built
  obtain ⟨ids, first⟩ := @admitAll_keeps T py digest turns [] _ _ admitted rfl (List.forall_mem_nil _)
  rw [List.nil_append] at ids first
  have tagged {a : Pending × List Char} {item : Item}
      (made : itemOf py codec tags a.1 a.2 = .ok item) := item_tagged lawful (of_forM apart) made
  have count := congrArg List.length (of_mapM classified (fun _ => ()) (fun _ => ()) fun _ _ _ => rfl).1
  rw [List.length_map, List.length_map] at count
  obtain ⟨order, from_⟩ := of_mapM made (fun a => a.1.documentId) Item.documentId
    fun a item made => (tagged made).1
  refine ⟨?_, fun item inside => ?_⟩
  · rw [order, ← ids]
    conv => rhs; rw [← List.map_fst_zip count.ge, List.map_map]
    rfl
  · obtain ⟨a, inside', made⟩ := from_ item inside
    obtain ⟨id, text, tags⟩ := tagged made
    refine ⟨a.1.turn, ?_, tags⟩
    rw [id, text]
    exact first a.1 (List.of_mem_zip inside').1

/-- Two turns are one document only with one author and one text, exactly unless what tells the
authors apart is lost; and a batch has one item for each id. -/
theorem documents_keep_authors (lawful : codec.Lawful) (injective : Function.Injective digest)
    (hex : ∀ s, '-' ∉ digest s) :
    (∀ v w text text', validateSpeakerProvenance py v = .ok () →
      validateSpeakerProvenance py w = .ok () →
        ((documentId py digest v (strip text) = documentId py digest w (strip text') →
          SameAuthor v w ∧ strip text = strip text') ↔
            ¬ Blurred v (strip text) w (strip text'))) ∧
    ∀ turns classify tags n items,
      buildRetainItems py codec digest turns classify tags n = .ok items →
        items.map Item.documentId = (idsOf py digest turns).eraseDups ∧
          ∀ item ∈ items, ∃ turn, First py digest turns turn item.content item.documentId ∧
            Tagged py codec turn.provenance item.tags := by
  refine ⟨fun v w text text' valid valid' => ?_, fun _ _ _ _ _ => batch_exact lawful⟩
  rw [same_document_iff injective hex valid valid']
  refine ⟨fun only blurred => not_both (only (.inr blurred)) blurred, fun clear both => ?_⟩
  exact both.resolve_right clear

end Batch

/-- A stand-in for the hash: no two texts have one. -/
def sampleDigest (s : List Char) : List Char :=
  List.replicate (Encodable.encode (s.map Char.toNat)) 'a'

theorem sampleDigest_injective : Function.Injective sampleDigest := by
  intro s t same
  have sizes := congrArg List.length same
  simp only [sampleDigest, List.length_replicate] at sizes
  exact List.map_injective_iff.mpr (fun _ _ h => Char.toNat_inj.mp h)
    (Encodable.encode_injective sizes)

def userOf (peer : String) : SpeakerProvenance :=
  ⟨.user, none, none, none, none, none, some peer, none⟩

theorem peers_apart :
    documentId JobDurability.plainBuiltins sampleDigest (userOf "a") (strip "hi") ≠
      documentId JobDurability.plainBuiltins sampleDigest (userOf "b") (strip "hi") := by
  intro same
  have clear : ¬ Blurred (userOf "a") (strip "hi") (userOf "b") (strip "hi") := by
    rintro ⟨-, ⟨u, same, -⟩ | ⟨u, same, -⟩⟩
    · simpa [userOf] using congrArg List.length same
    · simpa [userOf] using congrArg List.length same
  have one := ((documents_keep_authors (T := ℤ) canonicalCodec_lawful sampleDigest_injective
    (fun s inside => absurd (List.eq_of_mem_replicate inside) (by decide))).1 _ _ _ _ (by rfl)
    (by rfl)).mpr clear same
  exact absurd one.1.2 (by decide)

/-- A peer and a text share a separator with another peer and another text. -/
theorem separator_merges_peers :
    let v := userOf (String.ofList ['p', separator, 'x'])
    let w := userOf "p"
    let text := String.ofList ['x', separator, 't']
    validateSpeakerProvenance JobDurability.plainBuiltins v = .ok () ∧
      validateSpeakerProvenance JobDurability.plainBuiltins w = .ok () ∧
      (∀ digest, documentId JobDurability.plainBuiltins digest v (strip "t") =
        documentId JobDurability.plainBuiltins digest w (strip text)) ∧
      v.userPeer ≠ w.userPeer ∧ strip "t" ≠ strip text := by
  refine ⟨by rfl, by rfl, fun digest => ?_, by decide, by decide⟩
  rfl

end Casa.RetainItems
