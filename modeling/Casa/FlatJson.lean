import Casa.CanonicalJson
import Casa.PythonValue
import Mathlib.Data.List.Perm.Basic
import Mathlib.Data.List.Nodup

/-! Canonical JSON as bytes: what is relied on of `rfc8785` and `json` for flat objects, and the
canonical text of `CanonicalJson` as a codec with these laws. -/

namespace Casa.FlatJson
open PythonValue CanonicalJson

/-- `rfc8785.dumps`, with the text of what it raises, and `json.loads`, whose errors are all told
alike. -/
structure JsonCodec (T : Type) where
  dumps : Json T → Except String (List UInt8)
  loads : List UInt8 → Option (Json T)

/-- `wire.decode("utf-8")` succeeds. -/
def isUtf8 (wire : List UInt8) : Bool := (ByteArray.mk wire.toArray).validateUTF8

/-! ### What is relied on -/

section Laws
variable {T : Type}

def Flat (fields : List (String × Json T)) : Prop :=
  ∀ f ∈ fields, f.2 = .null ∨ ∃ s, f.2 = .str s

inductive StringBody : List UInt8 → Prop
  | nil : StringBody []
  | plain {byte : UInt8} {rest : List UInt8} (quote : byte ≠ 0x22) (slash : byte ≠ 0x5C)
      (more : StringBody rest) : StringBody (byte :: rest)
  | escape (byte : UInt8) {rest : List UInt8} (more : StringBody rest) :
      StringBody (0x5C :: byte :: rest)

inductive OneLevel : List UInt8 → Prop
  | nil : OneLevel []
  | string {body rest : List UInt8} (inside : StringBody body) (more : OneLevel rest) :
      OneLevel (0x22 :: (body ++ 0x22 :: rest))
  | other {byte : UInt8} {rest : List UInt8}
      (solid : byte ∉ ([0x22, 0x7B, 0x5B, 0x7D, 0x5D] : List UInt8)) (more : OneLevel rest) :
      OneLevel (byte :: rest)

/-- The canonical JSON of flat objects, and `json.loads` as its inverse. -/
structure JsonCodec.Lawful (codec : JsonCodec T) : Prop where
  /-- An object of texts and nulls is written between one pair of braces. -/
  braces {fields : List (String × Json T)} {wire : List UInt8} : Flat fields →
    codec.dumps (.obj fields) = .ok wire →
      ∃ inner, OneLevel inner ∧ wire = 0x7B :: (inner ++ [0x7D])
  /-- RFC 8785 is UTF-8. -/
  utf8 {raw : Json T} {wire : List UInt8} : codec.dumps raw = .ok wire → isUtf8 wire = true
  /-- The members are sorted. -/
  order {fields others : List (String × Json T)} : (fields.map Prod.fst).Nodup →
    fields.Perm others → codec.dumps (.obj fields) = codec.dumps (.obj others)
  /-- What was written is read back. -/
  inverse {fields : List (String × Json T)} {wire : List UInt8} : Flat fields →
    (fields.map Prod.fst).Nodup → codec.dumps (.obj fields) = .ok wire →
      ∃ read, codec.loads wire = some (.obj read) ∧ fields.Perm read
  /-- A `dict` has a key once. -/
  distinct {wire : List UInt8} {fields : List (String × Json T)} :
    codec.loads wire = some (.obj fields) → (fields.map Prod.fst).Nodup

end Laws

/-! ### The canonical text as a codec -/

section Canonical
variable {T : Type}

def codePoints (s : String) : Points := points s.toList

def text (s : Points) : String := String.ofList (s.map Char.ofNat)

def bytes (s : Points) : List UInt8 := s.flatMap fun c => String.utf8EncodeChar (Char.ofNat c)

def isFlat : Json T → Bool
  | .null | .str _ => true
  | _ => false

def toMember (f : String × Json T) : Points × Value :=
  match f.2 with
  | .str s => (codePoints f.1, .str (codePoints s))
  | _ => (codePoints f.1, .null)

def ofMember (m : Points × Value) : String × Json T :=
  match m.2 with
  | .str s => (text m.1, .str (text s))
  | _ => (text m.1, .null)

def isFlatValue : Value → Bool
  | .null | .str _ => true
  | _ => false

def flatText (fields : List (String × Json T)) : Points :=
  dumps escapePoint (.obj (sortMembers (fields.map toMember)))

def canonicalCodec (T : Type) : JsonCodec T where
  dumps
    | .obj fields =>
        if fields.all fun f => isFlat f.2 then .ok (bytes (flatText fields))
        else .error "unsupported type"
    | _ => .error "unsupported type"
  loads wire :=
    match String.fromUTF8? ⟨wire.toArray⟩ with
    | none => none
    | some s =>
        match loads (codePoints s) with
        | some (.obj members) =>
            if members.all (fun m => isFlatValue m.2) ∧
                ((members.map ofMember : List (String × Json T)).map Prod.fst).Nodup then
              some (.obj (members.map ofMember))
            else none
        | _ => none

def Scalars (s : Points) : Prop := ∀ c ∈ s, (Char.ofNat c).toNat = c

theorem scalars_codePoints (s : String) : Scalars (codePoints s) := by
  intro c mem
  obtain ⟨d, -, rfl⟩ := List.mem_map.mp mem
  rw [Char.ofNat_toNat]

theorem Scalars.append {s t : Points} (left : Scalars s) (right : Scalars t) : Scalars (s ++ t) :=
  List.forall_mem_append.mpr ⟨left, right⟩

theorem text_codePoints (s : String) : text (codePoints s) = s := by
  simp [text, codePoints, points, Function.comp_def]

theorem codePoints_text {s : Points} (scalars : Scalars s) : codePoints (text s) = s := by
  rw [codePoints, text, String.toList_ofList, points, List.map_map]
  exact (List.map_congr_left scalars).trans (List.map_id s)

theorem bytes_append (s t : Points) : bytes (s ++ t) = bytes s ++ bytes t := List.flatMap_append ..

theorem bytes_cons (c : ℕ) (s : Points) : bytes (c :: s) = bytes [c] ++ bytes s :=
  bytes_append [c] s

theorem utf8_bytes (s : Points) :
    (⟨(bytes s).toArray⟩ : ByteArray) = (s.map Char.ofNat).utf8Encode := by
  rw [List.utf8Encode, List.flatMap_map]
  exact congrArg ByteArray.mk List.data_toByteArray.symm

theorem fromUTF8?_bytes (s : Points) : String.fromUTF8? ⟨(bytes s).toArray⟩ = some (text s) := by
  rw [utf8_bytes, String.fromUTF8?, dif_pos ByteArray.isValidUTF8_utf8Encode]
  rfl

theorem isUtf8_bytes (s : Points) : isUtf8 (bytes s) = true := by
  rw [isUtf8, utf8_bytes, ByteArray.validateUTF8_eq_true_iff]
  exact ByteArray.isValidUTF8_utf8Encode

/-! ### The text of a flat object -/

theorem StringBody.append {s t : List UInt8} (left : StringBody s) (right : StringBody t) :
    StringBody (s ++ t) := by
  induction left with
  | nil => exact right
  | plain quote slash more ih => exact .plain quote slash ih
  | escape byte more ih => exact .escape byte ih

theorem OneLevel.append {s t : List UInt8} (left : OneLevel s) (right : OneLevel t) :
    OneLevel (s ++ t) := by
  induction left with
  | nil => exact right
  | string inside more ih =>
    rw [List.cons_append, List.append_assoc, List.cons_append]
    exact .string inside ih
  | other solid more ih => exact .other solid ih

theorem plain_utf8 {d : Char} (quote : d ≠ '"') (slash : d ≠ '\\') :
    ∀ byte ∈ String.utf8EncodeChar d, byte ≠ 0x22 ∧ byte ≠ 0x5C := by
  have apart {n m : ℕ} (small : n < 256) (other : m < 256) (ne : n ≠ m) :
      UInt8.ofNat n ≠ UInt8.ofNat m := by
    intro same
    have values := congrArg UInt8.toNat same
    rw [UInt8.toNat_ofNat_of_lt' small, UInt8.toNat_ofNat_of_lt' other] at values
    exact ne values
  have high {n : ℕ} (large : 128 ≤ n) (small : n < 256) :
      UInt8.ofNat n ≠ 0x22 ∧ UInt8.ofNat n ≠ 0x5C :=
    ⟨apart (m := 0x22) small (by decide) (by omega), apart (m := 0x5C) small (by decide) (by omega)⟩
  have first : d.val.toNat ≠ 0x22 := fun is => quote (Char.toNat_inj.mp is)
  have second : d.val.toNat ≠ 0x5C := fun is => slash (Char.toNat_inj.mp is)
  simp only [String.utf8EncodeChar]
  split_ifs with one two three
  all_goals
    simp only [List.forall_mem_cons, List.not_mem_nil, false_implies, implies_true, and_true]
  · exact ⟨apart (by omega) (by decide) first, apart (by omega) (by decide) second⟩
  · exact ⟨high (by omega) (by omega), high (by omega) (by omega)⟩
  · exact ⟨high (by omega) (by omega), high (by omega) (by omega), high (by omega) (by omega)⟩
  · exact ⟨high (by omega) (by omega), high (by omega) (by omega), high (by omega) (by omega),
      high (by omega) (by omega)⟩

theorem body_plain {s : Points} (plain : ∀ c ∈ s, Char.ofNat c ≠ '"' ∧ Char.ofNat c ≠ '\\') :
    StringBody (bytes s) := by
  have all : ∀ byte ∈ bytes s, byte ≠ 0x22 ∧ byte ≠ 0x5C := by
    intro byte mem
    obtain ⟨c, inside, mem⟩ := List.mem_flatMap.mp mem
    exact plain_utf8 (plain c inside).1 (plain c inside).2 byte mem
  generalize bytes s = word at all
  induction word with
  | nil => exact .nil
  | cons byte word ih =>
    obtain ⟨first, rest⟩ := List.forall_mem_cons.mp all
    exact .plain first.1 first.2 (ih rest)

theorem body_escapePoint (c : ℕ) (scalar : (Char.ofNat c).toNat = c) :
    StringBody (bytes (escapePoint c)) := by
  have letter {e : Char} (small : bytes [e.toNat] = [UInt8.ofNat e.toNat]) :
      StringBody (bytes (points ['\\', e])) := by
    have is : bytes (points ['\\', e]) = [0x5C, UInt8.ofNat e.toNat] := by
      change bytes ('\\'.toNat :: [e.toNat]) = _
      rw [bytes_cons, small]
      rfl
    rw [is]
    exact .escape _ .nil
  unfold escapePoint
  split_ifs with quote slash newline ret tab feed back control
  · exact letter (by decide)
  · exact letter (by decide)
  · exact letter (by decide)
  · exact letter (by decide)
  · exact letter (by decide)
  · exact letter (by decide)
  · exact letter (by decide)
  · have digits : StringBody (bytes [hexDigit (c / 4096 % 16), hexDigit (c / 256 % 16),
        hexDigit (c / 16 % 16), hexDigit (c % 16)]) := by
      have all : ∀ n, n < 16 → Char.ofNat (hexDigit n) ≠ '"' ∧ Char.ofNat (hexDigit n) ≠ '\\' := by
        decide
      refine body_plain ?_
      simp only [List.forall_mem_cons, List.not_mem_nil, false_implies, implies_true, and_true]
      exact ⟨all _ (by omega), all _ (by omega), all _ (by omega), all _ (by omega)⟩
    rw [unicodeEscape, bytes_append]
    exact .escape _ digits
  · refine body_plain fun d mem => ?_
    obtain rfl := List.mem_singleton.mp mem
    exact ⟨fun is => quote (scalar.symm.trans (congrArg Char.toNat is)),
      fun is => slash (scalar.symm.trans (congrArg Char.toNat is))⟩

/-- Text of characters that has no bracket outside of its strings. -/
structure Fine (s : Points) : Prop where
  scalars : Scalars s
  level : OneLevel (bytes s)

theorem Fine.append {s t : Points} (left : Fine s) (right : Fine t) : Fine (s ++ t) where
  scalars := left.scalars.append right.scalars
  level := by
    rw [bytes_append]
    exact left.level.append right.level

theorem fine_null : Fine (points ['n', 'u', 'l', 'l']) where
  scalars := by unfold Scalars; decide
  level := .other (by decide) (.other (by decide) (.other (by decide) (.other (by decide) .nil)))

theorem fine_mark {c : Char} (is : c = ':' ∨ c = ',') : Fine [c.toNat] := by
  rcases is with rfl | rfl
  · exact ⟨by unfold Scalars; decide, .other (by decide) .nil⟩
  · exact ⟨by unfold Scalars; decide, .other (by decide) .nil⟩

theorem scalars_escapePoint {c : ℕ} (scalar : (Char.ofNat c).toNat = c) :
    Scalars (escapePoint c) := by
  have all : ∀ n, n < 16 → (Char.ofNat (hexDigit n)).toNat = hexDigit n := by decide
  have word : Scalars (points ['\\', 'u']) := by
    unfold Scalars
    decide
  unfold escapePoint
  split_ifs
  iterate 7
    · unfold Scalars
      decide
  · refine word.append ?_
    simp only [Scalars, List.forall_mem_cons, List.not_mem_nil, false_implies, implies_true,
      and_true]
    exact ⟨all _ (by omega), all _ (by omega), all _ (by omega), all _ (by omega)⟩
  · simpa [Scalars] using scalar

theorem fine_string {s : Points} (scalars : Scalars s) : Fine (dumpsString escapePoint s) where
  scalars := by
    have quote : Scalars ['"'.toNat] := by unfold Scalars; decide
    refine quote.append (Scalars.append (fun c mem => ?_) quote)
    obtain ⟨d, inside, mem⟩ := List.mem_flatMap.mp mem
    exact scalars_escapePoint (scalars d inside) c mem
  level := by
    have body : StringBody (bytes (s.flatMap escapePoint)) := by
      induction s with
      | nil => exact .nil
      | cons c s ih =>
        obtain ⟨first, rest⟩ := List.forall_mem_cons.mp scalars
        rw [List.flatMap_cons, bytes_append]
        exact (body_escapePoint c first).append (ih rest)
    rw [dumpsString, bytes_cons, bytes_append]
    exact .string body .nil

/-- A member as `toMember` makes it. -/
structure FlatMember (m : Points × Value) : Prop where
  key : Scalars m.1
  value : Fine (dumps escapePoint m.2)
  plain : isFlatValue m.2 = true

theorem flat_toMember (f : String × Json T) : FlatMember (toMember f) := by
  obtain ⟨k, j⟩ := f
  cases j with
  | str s =>
    refine ⟨scalars_codePoints k, ?_, rfl⟩
    simp only [toMember, dumps]
    exact fine_string (scalars_codePoints s)
  | null | bool | int | float | arr | obj =>
    refine ⟨scalars_codePoints k, ?_, rfl⟩
    simp only [toMember, dumps]
    exact fine_null

theorem fine_members {members : List (Points × Value)} (flat : ∀ m ∈ members, FlatMember m) :
    ∃ inner, dumpsMembers escapePoint members = inner ++ ['}'.toNat] ∧ Fine inner := by
  induction members with
  | nil => exact ⟨[], by rw [dumpsMembers]; rfl, fun c mem => (by cases mem), .nil⟩
  | cons m members ih =>
    obtain ⟨k, v⟩ := m
    obtain ⟨first, rest⟩ := List.forall_mem_cons.mp flat
    have head : Fine (dumpsString escapePoint k ++ ([':'.toNat] ++ dumps escapePoint v)) :=
      (fine_string first.key).append ((fine_mark (.inl rfl)).append first.value)
    cases members with
    | nil => exact ⟨_, by rw [dumpsMembers]; simp, head⟩
    | cons n members =>
      obtain ⟨inner, is, fine⟩ := ih rest
      refine ⟨_, ?_, head.append ((fine_mark (.inr rfl)).append fine)⟩
      rw [dumpsMembers, is]
      simp

/-! ### The laws -/

theorem flat_members (fields : List (String × Json T)) :
    ∀ m ∈ sortMembers (fields.map toMember), FlatMember m := by
  intro m mem
  have inside := (List.mergeSort_perm (fields.map toMember) _).mem_iff.mp mem
  obtain ⟨f, -, rfl⟩ := List.mem_map.mp inside
  exact flat_toMember f

theorem flatText_spec (fields : List (String × Json T)) :
    ∃ inner, flatText fields = '{'.toNat :: (inner ++ ['}'.toNat]) ∧ Fine inner := by
  obtain ⟨inner, is, fine⟩ := fine_members (flat_members fields)
  exact ⟨inner, by rw [flatText, dumps, is], fine⟩

theorem codePoints_injective : Function.Injective codePoints := by
  intro s t same
  have back := congrArg text same
  rwa [text_codePoints, text_codePoints] at back

theorem key_toMember (f : String × Json T) : (toMember f).1 = codePoints f.1 := by
  obtain ⟨k, j⟩ := f
  cases j <;> rfl

theorem sortMembers_perm {members others : List (Points × Value)}
    (distinct : (members.map Prod.fst).Nodup) (perm : members.Perm others) :
    sortMembers members = sortMembers others := by
  have sorted (ms : List (Points × Value)) :
      (sortMembers ms).Pairwise fun m n => m.1 ≤ n.1 := by
    have pairs : (sortMembers ms).Pairwise fun m n => decide (m.1 ≤ n.1) = true :=
      List.pairwise_mergeSort
        (fun a b c ab bc => by simpa using le_trans (by simpa using ab) (by simpa using bc))
        (fun a b => by simpa using le_total a.1 b.1) ms
    exact pairs.imp fun le => by simpa using le
  have same : (sortMembers members).Perm (sortMembers others) :=
    (List.mergeSort_perm _ _).trans (perm.trans (List.mergeSort_perm _ _).symm)
  refine List.Perm.eq_of_pairwise (fun a b first second ab ba => ?_) (sorted _) (sorted _) same
  have left := (List.mergeSort_perm members _).mem_iff.mp first
  have right := perm.mem_iff.mpr ((List.mergeSort_perm others _).mem_iff.mp second)
  exact List.inj_on_of_nodup_map distinct left right (le_antisymm ab ba)

theorem ofMember_toMember {f : String × Json T} (flat : isFlat f.2 = true) :
    ofMember (toMember f) = f := by
  obtain ⟨k, j⟩ := f
  cases j with
  | null => simp [toMember, ofMember, text_codePoints]
  | str s => simp [toMember, ofMember, text_codePoints]
  | bool | int | float | arr | obj => cases flat

theorem canonicalCodec_dumps {j : Json T} {wire : List UInt8}
    (written : (canonicalCodec T).dumps j = .ok wire) :
    ∃ fields, j = .obj fields ∧ (∀ f ∈ fields, isFlat f.2 = true) ∧
      wire = bytes (flatText fields) := by
  cases j with
  | obj fields =>
    simp only [canonicalCodec] at written
    split at written
    · next flat => exact ⟨fields, rfl, List.all_eq_true.mp flat, (Except.ok.inj written).symm⟩
    · cases written
  | null | bool | int | float | str | arr => cases written

theorem canonicalCodec_lawful : (canonicalCodec T).Lawful where
  braces := by
    intro fields wire _ written
    obtain ⟨_, ⟨rfl⟩, -, rfl⟩ := canonicalCodec_dumps written
    obtain ⟨inner, is, fine⟩ := flatText_spec fields
    refine ⟨bytes inner, fine.level, ?_⟩
    rw [is, bytes_cons, bytes_append]
    rfl
  utf8 := by
    intro raw wire written
    obtain ⟨fields, -, -, rfl⟩ := canonicalCodec_dumps written
    exact isUtf8_bytes _
  order := by
    intro fields others distinct perm
    have keys : ((fields.map toMember).map Prod.fst).Nodup := by
      have same : (fields.map toMember).map Prod.fst = (fields.map Prod.fst).map codePoints := by
        rw [List.map_map, List.map_map]
        exact List.map_congr_left fun f _ => key_toMember f
      rw [same]
      exact distinct.map codePoints_injective
    have flat : (fields.all fun f => isFlat f.2) = others.all fun f => isFlat f.2 := by
      rw [Bool.eq_iff_iff, List.all_eq_true, List.all_eq_true]
      simp only [perm.mem_iff]
    simp only [canonicalCodec, flat, flatText, sortMembers_perm keys (perm.map toMember)]
  inverse := by
    intro fields wire _ distinct written
    obtain ⟨_, ⟨rfl⟩, flat, rfl⟩ := canonicalCodec_dumps written
    obtain ⟨inner, is, fine⟩ := flatText_spec fields
    have scalars : Scalars (flatText fields) := by
      rw [is]
      have brackets : Scalars ['{'.toNat] ∧ Scalars ['}'.toNat] := by
        constructor <;> (unfold Scalars; decide)
      exact brackets.1.append (fine.scalars.append brackets.2)
    have read : loads (flatText fields) = some (.obj (sortMembers (fields.map toMember))) :=
      loads_dumps readable_escapePoint _
    have perm : fields.Perm ((sortMembers (fields.map toMember)).map ofMember) := by
      have sorted := ((List.mergeSort_perm (fields.map toMember) fun m n => m.1 ≤ n.1).map
        (ofMember : Points × Value → String × Json T)).symm
      have back : (fields.map toMember).map ofMember = fields := by
        rw [List.map_map]
        exact (List.map_congr_left fun f mem => ofMember_toMember (flat f mem)).trans
          (List.map_id fields)
      rwa [back] at sorted
    refine ⟨_, ?_, perm⟩
    have keys := (perm.map Prod.fst).nodup_iff.mp distinct
    have plain : ((sortMembers (fields.map toMember)).all fun m => isFlatValue m.2) = true :=
      List.all_eq_true.mpr fun m mem => (flat_members fields m mem).plain
    simp only [canonicalCodec, fromUTF8?_bytes, codePoints_text scalars, read]
    exact if_pos ⟨plain, keys⟩
  distinct := by
    intro wire fields read
    simp only [canonicalCodec] at read
    split at read
    · cases read
    · split at read
      · split_ifs at read with checked
        cases read
        exact checked.2
      · cases read

end Canonical

end Casa.FlatJson
