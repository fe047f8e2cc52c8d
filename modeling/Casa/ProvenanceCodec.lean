import Casa.PythonValue

/-! Typed speaker identities (`speaker_provenance.py`): the validator with its
messages in source order, and the mapping codec used inside job snapshots. -/

namespace Casa.ProvenanceCodec
open PythonValue

inductive SpeakerKind where
  | user | resident | specialist | executor | system | automation
deriving DecidableEq, Repr

def SpeakerKind.value : SpeakerKind → String
  | .user => "user"
  | .resident => "resident"
  | .specialist => "specialist"
  | .executor => "executor"
  | .system => "system"
  | .automation => "automation"

def SpeakerKind.ofValue? (s : String) : Option SpeakerKind :=
  [SpeakerKind.user, .resident, .specialist, .executor, .system, .automation].find?
    (fun k => k.value = s)

theorem SpeakerKind.ofValue?_value (k : SpeakerKind) : ofValue? k.value = some k := by
  cases k <;> decide

structure SpeakerProvenance where
  speakerKind : SpeakerKind
  roleId : Option String
  personaId : Option String
  personaVersion : Option String
  displayName : Option String
  bindingDigest : Option String
  userPeer : Option String
  userId : Option String
deriving DecidableEq, Repr

/-- `SpeakerProvenance(speaker_kind="system")`. -/
def systemSpeaker : SpeakerProvenance :=
  ⟨.system, none, none, none, none, none, none, none⟩

def isSlugStart (c : Char) : Bool := ('a' ≤ c && c ≤ 'z') || ('0' ≤ c && c ≤ '9')

def isSlug (c : Char) : Bool := isSlugStart c || c == '-'

/-- `[a-z0-9][a-z0-9-]*`, the tail bounded by `limit` when one is given. -/
def matchesSlug (limit : Option Nat) : List Char → Bool
  | [] => false
  | c :: rest => isSlugStart c && rest.all isSlug && limit.all (fun n => rest.length ≤ n)

/-- `_ROLE_RE`. -/
def matchesRole (s : String) : Bool :=
  ["resident:", "specialist:", "executor:"].any fun kind =>
    kind.toList.isPrefixOf s.toList && matchesSlug (some 31) (s.toList.drop kind.length)

/-- `[a-z0-9](?:[a-z0-9.-]*[a-z0-9])?`. -/
def matchesPublisher (cs : List Char) : Bool :=
  match cs, cs.getLast? with
  | c :: _, some last =>
      isSlugStart c && isSlugStart last && cs.all (fun d => isSlug d || d == '.')
  | _, _ => false

/-- `_PERSONA_RE`; neither side of the slash can contain one. -/
def matchesPersona (s : String) : Bool :=
  let publisher := s.toList.takeWhile (· ≠ '/')
  matchesPublisher publisher && publisher.length < s.toList.length &&
    matchesSlug none (s.toList.drop (publisher.length + 1))

/-- `_CHECKSUM_RE`. -/
def matchesChecksum (s : String) : Bool :=
  let digits := s.toList.drop "sha256:".length
  "sha256:".toList.isPrefixOf s.toList && digits.length == 64 &&
    digits.all (fun c => ('0' ≤ c && c ≤ '9') || ('a' ≤ c && c ≤ 'f'))

variable {T : Type} (py : Builtins T)

/-- `0|[1-9]\d*`; `\d` is any Unicode decimal digit. -/
def matchesNumber : List Char → Bool
  | ['0'] => true
  | c :: rest => '1' ≤ c && c ≤ '9' && rest.all py.isDigit
  | [] => false

/-- `_SEMVER_RE`. -/
def matchesSemver (s : String) : Bool :=
  let parts := s.toList.splitOn '.'
  parts.length == 3 && parts.all (matchesNumber py)

/-- `_FIELD_LIMITS`: scalar and UTF-8 byte bounds. -/
def fieldLimits (v : SpeakerProvenance) : List (String × Nat × Nat × Option String) :=
  [("role_id", 128, 128, v.roleId), ("persona_id", 192, 192, v.personaId),
   ("persona_version", 64, 64, v.personaVersion), ("display_name", 80, 320, v.displayName),
   ("user_peer", 256, 512, v.userPeer), ("user_id", 256, 512, v.userId)]

def check (c : Bool) (message : String) : Except String Unit :=
  if c then .ok () else .error message

def validateStringBound (name : String) (scalarLimit byteLimit : Nat) :
    Option String → Except String Unit
  | none => .ok ()
  | some value => do
      check (py.nfc value = value) (name ++ " must already be NFC")
      check (value.length ≤ scalarLimit && value.utf8ByteSize ≤ byteLimit)
        (name ++ " exceeds provenance length limit")

def startsWith (s : Option String) (start : String) : Bool :=
  s.any (fun t => start.toList.isPrefixOf t.toList)

/-- The branch of `validate_speaker_provenance` chosen by the speaker kind. -/
def validateKind (v : SpeakerProvenance) : Except String Unit :=
  match v.speakerKind with
  | .resident | .specialist => do
      check (truthy v.roleId && startsWith v.roleId (v.speakerKind.value ++ ":"))
        "agent role_id must match speaker_kind"
      check (truthy v.personaId && v.personaId.any matchesPersona)
        "resident/specialist persona_id is required"
      check (truthy v.personaVersion && v.personaVersion.any (matchesSemver py))
        "resident/specialist persona_version is required"
      check (truthy v.bindingDigest && v.bindingDigest.any matchesChecksum)
        "resident/specialist binding_digest is required"
      check (v.userPeer.isNone && v.userId.isNone)
        "agent provenance cannot contain user identity"
  | .executor => do
      check (truthy v.roleId && startsWith v.roleId "executor:") "executor role_id is required"
      check (!([v.personaId, v.personaVersion, v.bindingDigest, v.userPeer, v.userId].any truthy))
        "executor persona and user fields must be null"
  | .user => do
      check (truthy v.userPeer) "user_peer is required for user provenance"
      check (!([v.roleId, v.personaId, v.personaVersion, v.bindingDigest].any truthy))
        "user agent fields must be null"
  | .automation => do
      check (truthy v.userPeer) "user_peer is required for automation provenance"
      check (!([v.roleId, v.personaId, v.personaVersion, v.bindingDigest, v.displayName,
          v.userId].any truthy))
        "automation identity cannot name a person or an agent role"
  | .system =>
      check (!([v.roleId, v.personaId, v.personaVersion, v.bindingDigest, v.userPeer,
          v.userId].any truthy))
        "system identity fields must be null"

def validateSpeakerProvenance (v : SpeakerProvenance) : Except String Unit := do
  validateKind py v
  check (v.roleId.all matchesRole) "invalid role_id"
  (fieldLimits v).forM fun (name, scalarLimit, byteLimit, value) =>
    validateStringBound py name scalarLimit byteLimit value

def asdict (v : SpeakerProvenance) : List (String × Json T) :=
  [("speaker_kind", .str v.speakerKind.value),
   ("role_id", .ofOption .str v.roleId), ("persona_id", .ofOption .str v.personaId),
   ("persona_version", .ofOption .str v.personaVersion),
   ("display_name", .ofOption .str v.displayName),
   ("binding_digest", .ofOption .str v.bindingDigest),
   ("user_peer", .ofOption .str v.userPeer), ("user_id", .ofOption .str v.userId)]

def provenanceMapping (v : SpeakerProvenance) : Except String (Json T) := do
  validateSpeakerProvenance py v
  pure (.obj (asdict v))

def provenanceFields : List String :=
  ["speaker_kind", "role_id", "persona_id", "persona_version", "display_name",
   "binding_digest", "user_peer", "user_id"]

/-- One field of `SpeakerProvenance(**raw)`, with the validator's type check. -/
def stringField (fields : List (String × Json T)) (name : String) :
    Except String (Option String) :=
  match Json.get fields name with
  | .null => .ok none
  | .str s => .ok (some s)
  | _ => .error (name ++ " must be a string or null")

def provenanceFromMapping (raw : Json T) : Except String SpeakerProvenance :=
  match raw with
  | .obj fields => do
      check (fields.all (fun f => f.1 ∈ provenanceFields) &&
          provenanceFields.all (fun name => (Json.field? fields name).isSome))
        "provenance fields must match the v1 schema exactly"
      let kind ← stringField fields "speaker_kind"
      let roleId ← stringField fields "role_id"
      let personaId ← stringField fields "persona_id"
      let personaVersion ← stringField fields "persona_version"
      let displayName ← stringField fields "display_name"
      let bindingDigest ← stringField fields "binding_digest"
      let userPeer ← stringField fields "user_peer"
      let userId ← stringField fields "user_id"
      match kind.bind SpeakerKind.ofValue? with
      | none => .error "invalid speaker_kind"
      | some speakerKind =>
          let v : SpeakerProvenance := ⟨speakerKind, roleId, personaId, personaVersion,
            displayName, bindingDigest, userPeer, userId⟩
          validateSpeakerProvenance py v
          pure v
  | _ => .error "provenance must be an object"

theorem stringField_ofOption {fields : List (String × Json T)} {name : String}
    {value : Option String} (h : Json.field? fields name = some (.ofOption .str value)) :
    stringField fields name = .ok value := by
  cases value <;> simp [stringField, Json.get, h, Json.ofOption]

theorem stringField_speakerKind (v : SpeakerProvenance) :
    stringField (asdict v : List (String × Json T)) "speaker_kind" = .ok v.speakerKind.value := by
  apply stringField_ofOption
  simp [asdict, Json.ofOption]

theorem asdict_schema (v : SpeakerProvenance) :
    ((asdict v : List (String × Json T)).all (fun f => f.1 ∈ provenanceFields) &&
      provenanceFields.all (fun name => (Json.field? (asdict v : List (String × Json T))
        name).isSome)) = true := by
  simp [asdict, provenanceFields]

theorem provenanceFromMapping_asdict {v : SpeakerProvenance}
    (valid : validateSpeakerProvenance py v = .ok ()) :
    provenanceFromMapping py (.obj (asdict v)) = .ok v := by
  have field : ∀ name value, Json.field? (asdict v : List (String × Json T)) name =
      some (.ofOption .str value) → stringField (asdict v : List (String × Json T)) name =
      .ok value := fun _ _ => stringField_ofOption
  simp only [provenanceFromMapping, asdict_schema, check, if_true, stringField_speakerKind,
    field "role_id" v.roleId (by simp [asdict]),
    field "persona_id" v.personaId (by simp [asdict]),
    field "persona_version" v.personaVersion (by simp [asdict]),
    field "display_name" v.displayName (by simp [asdict]),
    field "binding_digest" v.bindingDigest (by simp [asdict]),
    field "user_peer" v.userPeer (by simp [asdict]),
    field "user_id" v.userId (by simp [asdict]), bind, Except.bind, Option.bind_some,
    SpeakerKind.ofValue?_value, valid, pure, Except.pure]

end Casa.ProvenanceCodec
