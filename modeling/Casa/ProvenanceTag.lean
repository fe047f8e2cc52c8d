import Casa.Base64Url
import Casa.FlatJson
import Casa.JobDurability
import Casa.ProvenanceCodec

/-! Speaker identities as memory tags: canonical JSON in unpadded base64url behind a reserved
prefix, and the decoder that takes one spelling of each identity only. -/

namespace Casa.ProvenanceTag
open PythonValue ProvenanceCodec Base64Url FlatJson

def reservedSourcePrefix : List Char := "casa-source-v1.".toList

def maxCanonicalProvenanceBytes : ℕ := 2048
def maxEncodedProvenanceTagBytes : ℕ := 2746
def maxProvenanceJsonDepth : ℤ := 32

/-! ### The scan for nesting -/

structure Scan where
  depth : ℤ
  inString : Bool
  escaped : Bool
deriving DecidableEq

/-- One byte of `_reject_excessive_json_nesting`; `none` is its `ValueError`. -/
def scanByte (limit : ℤ) (s : Scan) (byte : UInt8) : Option Scan :=
  if s.inString then
    if s.escaped then some { s with escaped := false }
    else if byte = 0x5C then some { s with escaped := true }
    else if byte = 0x22 then some { s with inString := false }
    else some s
  else if byte = 0x22 then some { s with inString := true }
  else if byte = 0x7B ∨ byte = 0x5B then
    if limit < s.depth + 1 then none else some { s with depth := s.depth + 1 }
  else if byte = 0x7D ∨ byte = 0x5D then some { s with depth := s.depth - 1 }
  else some s

def rejectExcessiveJsonNesting (wire : List UInt8) (limit : ℤ) : Bool :=
  (wire.foldlM (scanByte limit) ⟨0, false, false⟩).isNone

/-! ### The codec -/

variable {T : Type} (py : Builtins T) (codec : JsonCodec T)

def encodeProvenanceTag (value : SpeakerProvenance) : Except String (List Char) := do
  let mapping ← provenanceMapping py value
  let wire ← codec.dumps mapping
  check (wire.length ≤ maxCanonicalProvenanceBytes)
    "canonical provenance payload exceeds 2048 bytes"
  let tag := reservedSourcePrefix ++ payload wire
  check (tag.length ≤ maxEncodedProvenanceTagBytes) "encoded provenance tag exceeds 2746 bytes"
  pure tag

/-- The `try` block of the decoder: the bytes of a payload and what they say. -/
def readPayload (text : List Char) : Option (List UInt8 × Json T) :=
  match urlsafeB64decode (text ++ padding text.length) with
  | none => none
  | some wire =>
      if maxCanonicalProvenanceBytes < wire.length then none
      else if payload wire ≠ text then none
      else if !isUtf8 wire then none
      else if rejectExcessiveJsonNesting wire maxProvenanceJsonDepth then none
      else (codec.loads wire).map fun raw => (wire, raw)

def decodeProvenanceTag (tag : List Char) : Except String SpeakerProvenance := do
  check (tag.all fun c => c.toNat < 128) "provenance tag must be ASCII"
  check (tag.length ≤ maxEncodedProvenanceTagBytes) "encoded provenance tag exceeds 2746 bytes"
  check (reservedSourcePrefix.isPrefixOf tag) "unsupported provenance tag"
  let text := tag.drop reservedSourcePrefix.length
  check (text ≠ [] && '=' ∉ text) "provenance tag must use unpadded base64url"
  check (text.length * 3 / 4 ≤ maxCanonicalProvenanceBytes)
    "encoded payload would exceed 2048 bytes"
  match readPayload codec text with
  | none => .error "invalid provenance payload"
  | some (wire, raw) => do
      let canonical ← codec.dumps raw
      check (wire = canonical) "provenance payload is not canonical RFC 8785 JSON"
      provenanceFromMapping py raw

/-! ### The scan passes over a flat object -/

theorem scan_body (limit depth : ℤ) {body : List UInt8} (inside : StringBody body)
    (rest : List UInt8) : (body ++ 0x22 :: rest).foldlM (scanByte limit) ⟨depth, true, false⟩ =
      rest.foldlM (scanByte limit) ⟨depth, false, false⟩ := by
  induction inside with
  | nil => simp [scanByte]
  | @plain byte body quote slash more ih =>
    have stays : scanByte limit ⟨depth, true, false⟩ byte = some ⟨depth, true, false⟩ := by
      simp [scanByte, quote, slash]
    rw [List.cons_append, List.foldlM_cons, stays]
    exact ih
  | @escape byte body more ih =>
    have first : scanByte limit ⟨depth, true, false⟩ 0x5C = some ⟨depth, true, true⟩ := by
      simp [scanByte]
    have second : scanByte limit ⟨depth, true, true⟩ byte = some ⟨depth, true, false⟩ := by
      simp [scanByte]
    rw [List.cons_append, List.cons_append, List.foldlM_cons, first, Option.bind_eq_bind,
      Option.bind_some, List.foldlM_cons, second]
    exact ih

theorem scan_oneLevel (limit depth : ℤ) {text : List UInt8} (level : OneLevel text)
    (rest : List UInt8) : (text ++ rest).foldlM (scanByte limit) ⟨depth, false, false⟩ =
      rest.foldlM (scanByte limit) ⟨depth, false, false⟩ := by
  induction level with
  | nil => rfl
  | string inside more ih =>
    have enters : scanByte limit ⟨depth, false, false⟩ 0x22 = some ⟨depth, true, false⟩ := by
      simp [scanByte]
    rw [List.cons_append, List.append_assoc, List.cons_append, List.foldlM_cons, enters,
      Option.bind_eq_bind, Option.bind_some, scan_body limit depth inside, ih]
  | @other byte text solid more ih =>
    simp only [List.mem_cons, List.not_mem_nil, or_false, not_or] at solid
    have stays : scanByte limit ⟨depth, false, false⟩ byte = some ⟨depth, false, false⟩ := by
      simp [scanByte, solid]
    rw [List.cons_append, List.foldlM_cons, stays]
    exact ih

theorem shallow_braces {inner : List UInt8} (level : OneLevel inner) :
    rejectExcessiveJsonNesting (0x7B :: (inner ++ [0x7D])) maxProvenanceJsonDepth = false := by
  have opens : scanByte maxProvenanceJsonDepth ⟨0, false, false⟩ 0x7B = some ⟨1, false, false⟩ := by
    decide
  have closes :
      scanByte maxProvenanceJsonDepth ⟨1, false, false⟩ 0x7D = some ⟨0, false, false⟩ := by
    decide
  rw [rejectExcessiveJsonNesting, List.foldlM_cons, opens, Option.bind_eq_bind, Option.bind_some,
    scan_oneLevel _ _ level, List.foldlM_cons, closes]
  rfl

/-! ### Mappings -/

theorem flat_asdict (v : SpeakerProvenance) : Flat (asdict v : List (String × Json T)) := by
  have each (o : Option String) :
      (Json.ofOption .str o : Json T) = .null ∨ ∃ s, (Json.ofOption .str o : Json T) = .str s := by
    cases o with
    | none => exact .inl rfl
    | some s => exact .inr ⟨s, rfl⟩
  intro f mem
  simp only [asdict, List.mem_cons, List.not_mem_nil, or_false] at mem
  rcases mem with rfl | rfl | rfl | rfl | rfl | rfl | rfl | rfl
  · exact .inr ⟨_, rfl⟩
  all_goals exact each _

theorem keys_asdict (v : SpeakerProvenance) :
    (asdict v : List (String × Json T)).map Prod.fst = provenanceFields := rfl

theorem nodup_asdict (v : SpeakerProvenance) :
    ((asdict v : List (String × Json T)).map Prod.fst).Nodup := by
  rw [keys_asdict]
  decide

theorem field?_eq_some {fields : List (String × Json T)} (distinct : (fields.map Prod.fst).Nodup)
    {key : String} {x : Json T} : Json.field? fields key = some x ↔ (key, x) ∈ fields := by
  induction fields with
  | nil => simp
  | cons f fields ih =>
    obtain ⟨name, y⟩ := f
    rw [List.map_cons, List.nodup_cons] at distinct
    rw [Json.field?_cons, List.mem_cons]
    split
    · next same =>
      subst same
      have absent : (name, x) ∉ fields := fun mem =>
        distinct.1 (List.mem_map.mpr ⟨(name, x), mem, rfl⟩)
      simp [absent, eq_comm]
    · next other =>
      rw [ih distinct.2]
      have no : (key, x) ≠ (name, y) := fun same => other (Prod.mk.inj same).1.symm
      simp [no]

theorem field?_perm {fields others : List (String × Json T)}
    (distinct : (fields.map Prod.fst).Nodup) (perm : fields.Perm others) (key : String) :
    Json.field? fields key = Json.field? others key := by
  refine Option.ext fun x => ?_
  rw [field?_eq_some distinct, field?_eq_some ((perm.map _).nodup_iff.mp distinct), perm.mem_iff]

theorem provenanceFromMapping_perm {fields others : List (String × Json T)}
    (distinct : (fields.map Prod.fst).Nodup) (perm : fields.Perm others) :
    provenanceFromMapping py (.obj fields) = provenanceFromMapping py (.obj others) := by
  have keys : (fields.all fun f => decide (f.1 ∈ provenanceFields)) =
      others.all fun f => decide (f.1 ∈ provenanceFields) := by
    rw [Bool.eq_iff_iff, List.all_eq_true, List.all_eq_true]
    simp only [perm.mem_iff]
  simp only [provenanceFromMapping, keys, stringField, Json.get, field?_perm distinct perm]

theorem ofOption_of_stringField {fields : List (String × Json T)} {name : String}
    {value : Option String} (read : stringField fields name = .ok value)
    (there : (Json.field? fields name).isSome = true) :
    Json.field? fields name = some (.ofOption .str value) := by
  obtain ⟨x, found⟩ := Option.isSome_iff_exists.mp there
  rw [stringField, Json.get, found, Option.getD_some] at read
  split at read
  · cases read
    exact found
  · cases read
    exact found
  · cases read

theorem ofValue?_eq_some {s : String} {k : SpeakerKind} (is : SpeakerKind.ofValue? s = some k) :
    s = k.value := by
  have found := List.find?_some is
  simpa [eq_comm] using found

theorem bind_eq_ok {ε α β : Type} {x : Except ε α} {f : α → Except ε β} {b : β} :
    x >>= f = .ok b ↔ ∃ a, x = .ok a ∧ f a = .ok b := by
  cases x with
  | error e =>
    constructor
    · intro no
      cases no
    · rintro ⟨_, no, _⟩
      cases no
  | ok a =>
    constructor
    · exact fun is => ⟨a, rfl, is⟩
    · rintro ⟨_, ⟨rfl⟩, is⟩
      exact is

theorem check_eq_ok {c : Bool} {message : String} {u : Unit} :
    check c message = .ok u ↔ c = true := by
  cases c <;> simp [check]

theorem check_decide {p : Prop} [Decidable p] {message : String} {u : Unit} :
    check (decide p) message = .ok u ↔ p := by
  rw [check_eq_ok, decide_eq_true_iff]

theorem pure_eq_ok {ε α : Type} {a b : α} : (pure a : Except ε α) = .ok b ↔ a = b :=
  ⟨fun same => Except.ok.inj same, fun same => same ▸ rfl⟩

theorem mapping_of_provenance {fields : List (String × Json T)} {v : SpeakerProvenance}
    (distinct : (fields.map Prod.fst).Nodup)
    (read : provenanceFromMapping py (.obj fields) = .ok v) :
    validateSpeakerProvenance py v = .ok () ∧ fields.Perm (asdict v) := by
  simp only [provenanceFromMapping, bind_eq_ok, check_eq_ok, Bool.and_eq_true,
    List.all_eq_true, decide_eq_true_eq] at read
  obtain ⟨-, ⟨only, all⟩, kind, kindRead, roleId, roleRead, personaId, personaRead,
    personaVersion, versionRead, displayName, nameRead, bindingDigest, digestRead, userPeer,
    peerRead, userId, idRead, read⟩ := read
  cases known : kind.bind SpeakerKind.ofValue? with
  | none =>
    rw [known] at read
    cases read
  | some speakerKind =>
    rw [known] at read
    simp only [bind_eq_ok] at read
    obtain ⟨_, valid, read⟩ := read
    obtain rfl := Except.ok.inj read
    refine ⟨valid, ?_⟩
    obtain ⟨name, rfl, isKind⟩ := Option.bind_eq_some_iff.mp known
    obtain rfl := ofValue?_eq_some isKind
    have field {name : String} {value : Option String} (listed : name ∈ provenanceFields)
        (read : stringField fields name = .ok value) : (name, .ofOption .str value) ∈ fields :=
      (field?_eq_some distinct).mp (ofOption_of_stringField read (all name listed))
    have sub : ∀ f ∈ asdict ⟨speakerKind, roleId, personaId, personaVersion, displayName,
        bindingDigest, userPeer, userId⟩, f ∈ fields := by
      simp only [asdict, List.forall_mem_cons, List.not_mem_nil, false_implies, implies_true,
        and_true]
      exact ⟨field (by decide) kindRead, field (by decide) roleRead, field (by decide) personaRead,
        field (by decide) versionRead, field (by decide) nameRead, field (by decide) digestRead,
        field (by decide) peerRead, field (by decide) idRead⟩
    refine (List.perm_ext_iff_of_nodup distinct.of_map (nodup_asdict _).of_map).mpr fun f => ?_
    refine ⟨fun mem => ?_, sub f⟩
    have listed := only f mem
    rw [← keys_asdict] at listed
    obtain ⟨g, inside, same⟩ := List.mem_map.mp listed
    have equal := List.inj_on_of_nodup_map distinct (sub g inside) mem same
    exact equal ▸ inside

/-! ### Both directions -/

theorem encodeProvenanceTag_iff {v : SpeakerProvenance} {tag : List Char} :
    encodeProvenanceTag py codec v = .ok tag ↔
      validateSpeakerProvenance py v = .ok () ∧ ∃ wire, codec.dumps (.obj (asdict v)) = .ok wire ∧
        wire.length ≤ 2048 ∧ tag = reservedSourcePrefix ++ payload wire := by
  have room {wire : List UInt8} (fits : wire.length ≤ 2048) :
      (reservedSourcePrefix ++ payload wire).length ≤ 2746 := by
    have length := (payload_spec wire).1
    have fifteen : reservedSourcePrefix.length = 15 := by decide
    rw [List.length_append]
    omega
  simp only [encodeProvenanceTag, provenanceMapping, bind_eq_ok, check_decide, pure_eq_ok]
  simp only [maxCanonicalProvenanceBytes, maxEncodedProvenanceTagBytes]
  constructor
  · rintro ⟨_, ⟨_, valid, rfl⟩, wire, written, _, fits, _, _, rfl⟩
    exact ⟨valid, wire, written, fits, rfl⟩
  · rintro ⟨valid, wire, written, fits, rfl⟩
    exact ⟨_, ⟨(), valid, rfl⟩, wire, written, (), fits, (), room fits, rfl⟩

theorem prefix_ascii : ∀ c ∈ reservedSourcePrefix, c.toNat < 128 := by
  have all : (reservedSourcePrefix.all fun c => c.toNat < 128) = true := by decide
  simpa using all

theorem readPayload_iff {text : List Char} {wire : List UInt8} {raw : Json T} :
    readPayload codec text = some (wire, raw) ↔
      wire.length ≤ 2048 ∧ payload wire = text ∧ isUtf8 wire = true ∧
        rejectExcessiveJsonNesting wire maxProvenanceJsonDepth = false ∧
          codec.loads wire = some raw := by
  constructor
  · intro read
    unfold readPayload at read
    split at read
    · cases read
    · split_ifs at read with large other ill deep
      obtain ⟨raw', said, same⟩ := Option.map_eq_some_iff.mp read
      obtain ⟨rfl, rfl⟩ := Prod.mk.inj same
      exact ⟨Nat.le_of_not_lt large, not_not.mp other, by simpa using ill, by simpa using deep,
        said⟩
  · rintro ⟨fits, rfl, utf8, shallow, said⟩
    have decoded :
        urlsafeB64decode (payload wire ++ padding (payload wire).length) = some wire := by
      rw [← padded, decode_encode]
    have small : ¬maxCanonicalProvenanceBytes < wire.length := Nat.not_lt.mpr fits
    simp [readPayload, decoded, small, utf8, shallow, said]

theorem decodeProvenanceTag_iff {tag : List Char} {v : SpeakerProvenance} :
    decodeProvenanceTag py codec tag = .ok v ↔
      ∃ wire raw, tag = reservedSourcePrefix ++ payload wire ∧ wire ≠ [] ∧ wire.length ≤ 2048 ∧
        isUtf8 wire = true ∧ rejectExcessiveJsonNesting wire maxProvenanceJsonDepth = false ∧
          codec.loads wire = some raw ∧ codec.dumps raw = .ok wire ∧
            provenanceFromMapping py raw = .ok v := by
  have fifteen : reservedSourcePrefix.length = 15 := by decide
  simp only [decodeProvenanceTag, bind_eq_ok, check_eq_ok]
  constructor
  · rintro ⟨-, -, -, -, -, start, -, unpadded, -, -, read⟩
    split at read
    · cases read
    · next wire raw found =>
      obtain ⟨fits, same, utf8, shallow, said⟩ := (readPayload_iff codec).mp found
      obtain ⟨canonical, written, -, rfl, mapped⟩ := by
        simpa only [bind_eq_ok, check_decide] using read
      obtain ⟨text, rfl⟩ := List.isPrefixOf_iff_prefix.mp start
      rw [List.drop_left] at same unpadded
      subst same
      refine ⟨wire, raw, rfl, fun empty => ?_, fits, utf8, shallow, said, written, mapped⟩
      subst empty
      exact absurd unpadded (by decide)
  · rintro ⟨wire, raw, rfl, some_, fits, utf8, shallow, said, written, mapped⟩
    obtain ⟨length, letters⟩ := payload_spec wire
    have positive := List.length_pos_of_ne_nil some_
    have found := (readPayload_iff codec).mpr ⟨fits, rfl, utf8, shallow, said⟩
    refine ⟨(), ?_, (), ?_, (), ?_, (), ?_, (), ?_, ?_⟩
    · simp only [List.all_append, Bool.and_eq_true, List.all_eq_true, decide_eq_true_eq]
      exact ⟨prefix_ascii, fun c mem => (letters c mem).2⟩
    · refine decide_eq_true ?_
      rw [maxEncodedProvenanceTagBytes, List.length_append]
      omega
    · exact List.isPrefixOf_iff_prefix.mpr (List.prefix_append ..)
    · rw [List.drop_left, Bool.and_eq_true, decide_eq_true_eq, decide_eq_true_eq]
      refine ⟨fun empty => ?_, fun pad => (letters _ pad).1 rfl⟩
      rw [empty, List.length_nil] at length
      omega
    · refine decide_eq_true ?_
      rw [List.drop_left, maxCanonicalProvenanceBytes]
      omega
    · simp only [List.drop_left, found, bind_eq_ok, check_decide]
      exact ⟨wire, written, (), rfl, mapped⟩

theorem decode_of_encode (lawful : codec.Lawful) {v : SpeakerProvenance} {tag : List Char}
    (encoded : encodeProvenanceTag py codec v = .ok tag) :
    decodeProvenanceTag py codec tag = .ok v := by
  obtain ⟨valid, wire, written, fits, rfl⟩ := (encodeProvenanceTag_iff py codec).mp encoded
  obtain ⟨inner, level, rfl⟩ := lawful.braces (flat_asdict v) written
  obtain ⟨read, said, perm⟩ := lawful.inverse (flat_asdict v) (nodup_asdict v) written
  refine (decodeProvenanceTag_iff py codec).mpr ⟨_, _, rfl, by simp, fits, lawful.utf8 written,
    shallow_braces level, said, ?_, ?_⟩
  · rw [← lawful.order (nodup_asdict v) perm]
    exact written
  · rw [← provenanceFromMapping_perm py (nodup_asdict v) perm]
    exact provenanceFromMapping_asdict py valid

/-- Encoding and decoding are inverse, no bound on a length comes between them, and a tag that is
accepted is the only one of its identity. -/
theorem tags_bijective (lawful : codec.Lawful) :
    (∀ v tag, encodeProvenanceTag py codec v = .ok tag →
      decodeProvenanceTag py codec tag = .ok v) ∧
    (∀ v wire, validateSpeakerProvenance py v = .ok () →
      codec.dumps (.obj (asdict v)) = .ok wire → wire.length ≤ 2048 →
        encodeProvenanceTag py codec v = .ok (reservedSourcePrefix ++ payload wire)) ∧
    (∀ tag v, decodeProvenanceTag py codec tag = .ok v →
      encodeProvenanceTag py codec v = .ok tag) ∧
    ∀ tag other v, decodeProvenanceTag py codec tag = .ok v →
      decodeProvenanceTag py codec other = .ok v → tag = other := by
  have back (tag : List Char) (v : SpeakerProvenance)
      (accepted : decodeProvenanceTag py codec tag = .ok v) :
      encodeProvenanceTag py codec v = .ok tag := by
    obtain ⟨wire, raw, rfl, -, fits, -, -, said, written, mapped⟩ :=
      (decodeProvenanceTag_iff py codec).mp accepted
    cases raw with
    | obj fields =>
      obtain ⟨valid, perm⟩ := mapping_of_provenance py (lawful.distinct said) mapped
      rw [lawful.order (lawful.distinct said) perm] at written
      exact (encodeProvenanceTag_iff py codec).mpr ⟨valid, wire, written, fits, rfl⟩
    | null | bool | int | float | str | arr => cases mapped
  refine ⟨fun v tag encoded => ?_, fun v wire valid written fits => ?_, back, fun tag other v here
    there => ?_⟩
  · exact decode_of_encode py codec lawful encoded
  · exact (encodeProvenanceTag_iff py codec).mpr ⟨valid, wire, written, fits, rfl⟩
  · exact Except.ok.inj ((back tag v here).symm.trans (back other v there))

def sampleSpeaker : SpeakerProvenance :=
  ⟨.user, none, none, none, some "Ann", none, some "telegram:7", some "7"⟩

def sampleFields : List (String × Json ℤ) :=
  ([5, 4, 2, 3, 1, 0, 7, 6] : List (Fin 8)).map fun i => (asdict sampleSpeaker).get i

theorem sample_wire : ∃ wire, (canonicalCodec ℤ).dumps (.obj (asdict sampleSpeaker)) = .ok wire ∧
    wire.length ≤ 2048 := by
  have order : ([5, 4, 2, 3, 1, 0, 7, 6] : List (Fin 8)).Perm [0, 1, 2, 3, 4, 5, 6, 7] := by decide
  have perm : sampleFields.Perm (asdict sampleSpeaker) :=
    order.map fun i => (asdict sampleSpeaker).get i
  have written := canonicalCodec_lawful.order ((perm.map _).nodup_iff.mpr (nodup_asdict _)) perm
  have sorted : CanonicalJson.sortMembers (sampleFields.map toMember) =
      sampleFields.map toMember := List.mergeSort_of_pairwise (by decide +kernel)
  refine ⟨_, written.symm, ?_⟩
  rw [flatText, sorted]
  decide +kernel

theorem sample_round_trip : ∃ tag,
    encodeProvenanceTag JobDurability.plainBuiltins (canonicalCodec ℤ) sampleSpeaker = .ok tag ∧
    decodeProvenanceTag JobDurability.plainBuiltins (canonicalCodec ℤ) tag = .ok sampleSpeaker := by
  obtain ⟨wire, written, fits⟩ := sample_wire
  obtain ⟨back, encoded, -⟩ := tags_bijective JobDurability.plainBuiltins _ canonicalCodec_lawful
  have made := encoded sampleSpeaker wire (by rfl) written fits
  exact ⟨_, made, back _ _ made⟩

end Casa.ProvenanceTag
