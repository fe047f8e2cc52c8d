import Casa.Netstring
import Casa.OwnedSwap
import Mathlib.Data.Char
import Mathlib.Data.List.Infix

/-! The checksum of a published artifact's tree, and the heal that clears a tree of the
interpreter's caches where these are all that stands between it and its stored checksum. -/

namespace Casa.ArtifactChecksum
open SeparatedText (cut_first)
open CanonicalJson (Value)
open PluginRegistry (Members)

/-! ### Trees -/

abbrev Text := List Char

def IsName (s : Text) : Prop :=
  s ≠ [] ∧ '/' ∉ s ∧ '\x00' ∉ s ∧ s ≠ ['.'] ∧ s ≠ ['.', '.']

instance decidableIsName (s : Text) : Decidable (IsName s) := inferInstanceAs (Decidable (_ ∧ _))

abbrev Name := { s : Text // IsName s }

abbrev Path := List Name

/-- A regular file with its owner's execute bit, a symbolic link, or a directory. -/
inductive Entry where
  | file (exec : Bool) (content : List UInt8)
  | link (target : Text)
  | dir
deriving DecidableEq

/-- A directory tree: each entry has a path of its own below the root, in a directory of the
tree. -/
structure Tree where
  entries : List (Path × Entry)
  once : (entries.map Prod.fst).Nodup
  rooted : ∀ e ∈ entries, e.1 ≠ []
  closed : ∀ e ∈ entries, ∀ p, p ≠ [] → p <+: e.1 → p ≠ e.1 → (p, Entry.dir) ∈ entries

def lookup (entries : List (Path × Entry)) (p : Path) : Option Entry :=
  (entries.find? (·.1 = p)).map Prod.snd

def metadataFilename : Name :=
  ⟨['.', 'c', 'a', 's', 'a', '-', 'a', 'r', 't', 'i', 'f', 'a', 'c', 't', '.', 'j', 's', 'o', 'n'],
    by decide⟩

/-! ### The checksum -/

def asPosix (p : Path) : Text := ['/'].intercalate (p.map Subtype.val)

def encode (s : Text) : List UInt8 := s.flatMap String.utf8EncodeChar

section Checksum
variable (sha256 : List UInt8 → Text)

/-- What stands in the line of an entry: its path, its type, its bit and what it holds. -/
def body : Path × Entry → Text
  | (p, .link target) => asPosix p ++ '\x00' :: 'l' :: '\x00' :: '0' :: '\x00' :: target
  | (p, .dir) => asPosix p ++ '\x00' :: 'd' :: '\x00' :: '0' :: '\x00' :: []
  | (p, .file exec content) =>
      asPosix p ++ '\x00' :: 'f' :: '\x00' :: (if exec then '1' else '0') :: '\x00' ::
        sha256 content

def before (e f : Path × Entry) : Bool := e.1.map Subtype.val ≤ f.1.map Subtype.val

/-- `sorted(root.rglob("*"))`, without the metadata at the root. -/
def listed (entries : List (Path × Entry)) : List (Path × Entry) :=
  (entries.filter (·.1 ≠ [metadataFilename])).mergeSort before

/-- The lines of `_entry_line`, one behind the other. -/
def lines (entries : List (Path × Entry)) : List UInt8 :=
  Netstring.frames ((listed entries).map fun e => encode (body sha256 e))

def contentChecksum (entries : List (Path × Entry)) : Text := sha256 (lines sha256 entries)

end Checksum

/-! ### The strip -/

def isSuffix (suffix s : Text) : Bool := suffix.isSuffixOf s

def isBytecodeDerivative (p : Path) : Bool :=
  (p.map Subtype.val).contains ['_', '_', 'p', 'y', 'c', 'a', 'c', 'h', 'e', '_', '_'] ||
    isSuffix ['.', 'p', 'y', 'c'] (asPosix p)

/-- `shutil.rmtree` of a directory, `unlink` of anything else. -/
def remove (p : Path) (entries : List (Path × Entry)) : List (Path × Entry) :=
  match lookup entries p with
  | some .dir => entries.filter fun e => !p.isPrefixOf e.1
  | _ => entries.filter fun e => e.1 ≠ p

def deepestFirst (entries : List (Path × Entry)) : List Path :=
  (entries.map Prod.fst).mergeSort fun p q => q.length ≤ p.length

def stripBytecodeDerivatives (entries : List (Path × Entry)) : List (Path × Entry) × ℕ :=
  (deepestFirst entries).foldl (fun s p =>
    if isBytecodeDerivative p then (remove p s.1, s.2 + 1) else s) (entries, 0)

/-! ### The heal -/

inductive Raised where
  | attributeError
deriving DecidableEq

section Heal
variable (sha256 : List UInt8 → Text) (loads : List UInt8 → Option Value)
variable (behind : Text → Option Value)

/-- `read_metadata`: a link is read where it leads to. -/
def readMetadata (entries : List (Path × Entry)) : Option Value :=
  match lookup entries [metadataFilename] with
  | some (.file _ content) => loads content
  | some (.link target) => behind target
  | _ => none

/-- `shutil.copytree` with its links kept: names, types, bits, contents and targets are copied. -/
def copytree (entries : List (Path × Entry)) : List (Path × Entry) := entries

/-- `meta.get("content_checksum", "")`. -/
def stored (members : Members) : Value :=
  ((members.find? (·.1 = PluginRegistry.text "content_checksum")).map Prod.snd).getD (.str [])

/-- `checksum == expected`. -/
def isStored (checksum : Text) (expected : Value) : Bool :=
  PluginRegistry.str? expected = some (checksum.map Char.toNat)

def healBytecodePoisonedArtifact (entries : List (Path × Entry)) :
    Except Raised Bool × List (Path × Entry) :=
  match readMetadata loads behind entries with
  | none => (.ok false, entries)
  | some found =>
      if !OwnedSwap.truthy found then (.ok false, entries)
      else match found with
        | .obj members =>
            let expected := stored members
            if isStored (contentChecksum sha256 entries) expected then (.ok false, entries)
            else if !entries.any fun e => isBytecodeDerivative e.1 then (.ok false, entries)
            else
              let probe := (stripBytecodeDerivatives (copytree entries)).1
              if !isStored (contentChecksum sha256 probe) expected then (.ok false, entries)
              else (.ok true, (stripBytecodeDerivatives entries).1)
        | _ => (.error .attributeError, entries)

end Heal

/-! ### What a line says -/

theorem encode_injective : Function.Injective encode := by
  intro s t same
  have text (u : Text) : (⟨(encode u).toArray⟩ : ByteArray) = (String.ofList u).toByteArray := by
    rw [String.toByteArray_ofList, List.utf8Encode]
    exact congrArg ByteArray.mk List.data_toByteArray.symm
  have strings : String.ofList s = String.ofList t := by
    rw [← String.toByteArray_inj, ← text, same, text]
  exact String.ofList_injective strings

theorem asPosix_injective {p q : Path} (left : p ≠ []) (right : q ≠ [])
    (same : asPosix p = asPosix q) : p = q := by
  have split {r : Path} (some_ : r ≠ []) : (asPosix r).splitOn '/' = r.map Subtype.val :=
    List.splitOn_intercalate '/' (by
      intro l inside
      obtain ⟨n, -, rfl⟩ := List.mem_map.1 inside
      exact n.2.2.1) fun none_ => some_ (List.map_eq_nil_iff.1 none_)
  have parts : p.map Subtype.val = q.map Subtype.val := by
    rw [← split left, same, split right]
  exact List.map_injective_iff.2 Subtype.val_injective parts

theorem nul_asPosix (p : Path) : '\x00' ∉ asPosix p := by
  induction p with
  | nil => simp [asPosix]
  | cons n rest ih =>
    cases rest with
    | nil => simpa [asPosix, List.intercalate] using n.2.2.2.1
    | cons m rest =>
      have step : asPosix (n :: m :: rest) = n.1 ++ '/' :: asPosix (m :: rest) := by
        simp [asPosix, List.intercalate]
      rw [step, List.mem_append, List.mem_cons, not_or, not_or]
      exact ⟨n.2.2.2.1, by decide, ih⟩

section Identity
variable {sha256 : List UInt8 → Text} (injective : Function.Injective sha256)
include injective

theorem body_injective {e f : Path × Entry} (left : e.1 ≠ []) (right : f.1 ≠ [])
    (same : body sha256 e = body sha256 f) : e = f := by
  have head {p q : Path} {x y : Text} (left : p ≠ []) (right : q ≠ [])
      (same : asPosix p ++ '\x00' :: x = asPosix q ++ '\x00' :: y) : p = q ∧ x = y := by
    obtain ⟨path, rest⟩ := cut_first (nul_asPosix p) (nul_asPosix q) same
    exact ⟨asPosix_injective left right path, rest⟩
  obtain ⟨p, entry⟩ := e
  obtain ⟨q, entry'⟩ := f
  cases entry <;> cases entry' <;> simp only [body] at same <;>
    obtain ⟨rfl, rest⟩ := head left right same <;> simp at rest
  · next exec content exec' content' =>
    obtain ⟨bit, digest⟩ := rest
    have bits : exec = exec' := by
      cases exec <;> cases exec' <;> simp_all
    rw [bits, injective digest]
  · rw [rest]
  · rfl

end Identity

theorem mem_listed {l : List (Path × Entry)} {e : Path × Entry} :
    e ∈ listed l ↔ e ∈ l ∧ e.1 ≠ [metadataFilename] := by
  simp [listed, List.mem_mergeSort, List.mem_filter]

theorem lookup_eq_some {l : List (Path × Entry)} (once : (l.map Prod.fst).Nodup) {p : Path}
    {entry : Entry} : lookup l p = some entry ↔ (p, entry) ∈ l := by
  unfold lookup
  rw [Option.map_eq_some_iff]
  constructor
  · rintro ⟨e, found, rfl⟩
    have at_ := List.find?_some found
    rw [decide_eq_true_eq] at at_
    rw [← at_]
    exact List.mem_of_find?_eq_some found
  · intro inside
    induction l with
    | nil => cases inside
    | cons e l ih =>
      rw [List.map_cons, List.nodup_cons] at once
      rcases List.mem_cons.1 inside with rfl | inside
      · exact ⟨(p, entry), by simp, rfl⟩
      · have other : e.1 ≠ p := by
          intro same
          exact once.1 (List.mem_map.2 ⟨(p, entry), inside, same.symm⟩)
        obtain ⟨f, found, is⟩ := ih once.2 inside
        exact ⟨f, by rw [List.find?_cons_of_neg (by simpa using other), found], is⟩

theorem lookup_eq_none {l : List (Path × Entry)} {p : Path} :
    lookup l p = none ↔ ∀ e ∈ l, e.1 ≠ p := by
  simp [lookup]

theorem lookup_congr {l k : List (Path × Entry)} (left : (l.map Prod.fst).Nodup)
    (right : (k.map Prod.fst).Nodup) {p : Path} (same : ∀ entry, (p, entry) ∈ l ↔ (p, entry) ∈ k) :
    lookup l p = lookup k p := by
  ext entry
  rw [lookup_eq_some left, same, lookup_eq_some right]

theorem eq_of_map_eq {α β : Type} {f : α → β} {l k : List α}
    (injective : ∀ a ∈ l, ∀ b ∈ k, f a = f b → a = b) (same : l.map f = k.map f) : l = k := by
  induction l generalizing k with
  | nil => exact (List.map_eq_nil_iff.1 same.symm).symm
  | cons a l ih =>
    cases k with
    | nil => cases same
    | cons b k =>
      rw [List.map_cons, List.map_cons, List.cons.injEq] at same
      rw [injective a (by simp) b (by simp) same.1,
        ih (fun a inA b inB => injective a (by simp [inA]) b (by simp [inB])) same.2]

theorem lookup_eq_of_checksum {sha256 : List UInt8 → Text} (injective : Function.Injective sha256)
    {t u : Tree} (same : contentChecksum sha256 t.entries = contentChecksum sha256 u.entries)
    {p : Path} (other : p ≠ [metadataFilename]) : lookup t.entries p = lookup u.entries p := by
  have bodies := Netstring.frames_injective (injective same)
  have all : listed t.entries = listed u.entries := by
    refine eq_of_map_eq (fun e inE f inF equal => ?_) bodies
    exact body_injective injective (t.rooted e (mem_listed.1 inE).1)
      (u.rooted f (mem_listed.1 inF).1) (encode_injective equal)
  refine lookup_congr t.once u.once fun entry => ?_
  have left : (p, entry) ∈ listed t.entries ↔ (p, entry) ∈ t.entries := by
    simp [mem_listed, other]
  have right : (p, entry) ∈ listed u.entries ↔ (p, entry) ∈ u.entries := by
    simp [mem_listed, other]
  rw [← left, all, right]

/-! ### What the strip leaves -/

def Derived (entries : List (Path × Entry)) (p : Path) : Prop :=
  ∃ d ∈ entries.map Prod.fst, isBytecodeDerivative d = true ∧ d <+: p

def Left (t : Tree) (done : List Path) (now : List (Path × Entry)) : Prop :=
  ∀ e, e ∈ now ↔ e ∈ t.entries ∧ ¬ ∃ d ∈ done, isBytecodeDerivative d = true ∧ d <+: e.1

theorem remove_sublist (p : Path) (l : List (Path × Entry)) : (remove p l).Sublist l := by
  unfold remove
  split <;> exact List.filter_sublist

/-- Removing a path takes what lies at and below it: a tree has nothing below a file or a link. -/
theorem mem_remove {t : Tree} {done : List Path} {now : List (Path × Entry)}
    (left : Left t done now) (once : (now.map Prod.fst).Nodup) {p : Path} (some_ : p ≠ [])
    {e : Path × Entry} : e ∈ remove p now ↔ e ∈ now ∧ ¬ p <+: e.1 := by
  have below (inside : e ∈ now) (under : p <+: e.1) (ne : p ≠ e.1) :
      lookup now p = some .dir := by
    obtain ⟨inT, clean⟩ := (left e).1 inside
    rw [lookup_eq_some once, left]
    refine ⟨t.closed e inT p some_ under ne, ?_⟩
    rintro ⟨d, inD, derived, above⟩
    exact clean ⟨d, inD, derived, above.trans under⟩
  unfold remove
  split
  · rw [List.mem_filter, Bool.not_eq_true', ← Bool.not_eq_true, List.isPrefixOf_iff_prefix]
  · next other =>
    rw [List.mem_filter, decide_eq_true_eq]
    refine and_congr_right fun inside => ⟨fun ne under => ?_, ?_⟩
    · exact other (below inside under (Ne.symm ne))
    · rintro clean rfl
      exact clean (List.prefix_refl _)

def stripStep (s : List (Path × Entry) × ℕ) (p : Path) : List (Path × Entry) × ℕ :=
  if isBytecodeDerivative p then (remove p s.1, s.2 + 1) else s

theorem stripStep_sublist (s : List (Path × Entry) × ℕ) (p : Path) :
    (stripStep s p).1.Sublist s.1 := by
  unfold stripStep
  split
  · exact remove_sublist p s.1
  · exact List.Sublist.refl _

theorem Left.step {t : Tree} {done : List Path} {s : List (Path × Entry) × ℕ}
    (left : Left t done s.1) (once : (s.1.map Prod.fst).Nodup) {p : Path} (some_ : p ≠ []) :
    Left t (done ++ [p]) (stripStep s p).1 := by
  intro e
  unfold stripStep
  split
  · next derived =>
    rw [mem_remove left once some_, left]
    simp only [List.mem_append, List.mem_singleton]
    constructor
    · rintro ⟨⟨inT, clean⟩, apart⟩
      refine ⟨inT, ?_⟩
      rintro ⟨d, inD | rfl, isD, under⟩
      · exact clean ⟨d, inD, isD, under⟩
      · exact apart under
    · rintro ⟨inT, clean⟩
      exact ⟨⟨inT, fun ⟨d, inD, isD, under⟩ => clean ⟨d, .inl inD, isD, under⟩⟩,
        fun under => clean ⟨p, .inr rfl, derived, under⟩⟩
  · next plain =>
    rw [left]
    simp only [List.mem_append, List.mem_singleton]
    refine and_congr_right fun _ => not_congr ⟨?_, ?_⟩
    · rintro ⟨d, inD, isD, under⟩
      exact ⟨d, .inl inD, isD, under⟩
    · rintro ⟨d, inD | rfl, isD, under⟩
      · exact ⟨d, inD, isD, under⟩
      · exact (plain isD).elim

theorem Left.run {t : Tree} (todo : List Path) (some_ : ∀ p ∈ todo, p ≠ []) {done : List Path}
    {s : List (Path × Entry) × ℕ} (left : Left t done s.1) (once : (s.1.map Prod.fst).Nodup) :
    Left t (done ++ todo) (todo.foldl stripStep s).1 := by
  induction todo generalizing done s with
  | nil => simpa using left
  | cons p todo ih =>
    have after := left.step once (some_ p (by simp))
    have single := once.sublist ((stripStep_sublist s p).map Prod.fst)
    have rest := ih (fun q inside => some_ q (by simp [inside])) after single
    simpa using rest

theorem mem_strip (t : Tree) (e : Path × Entry) :
    e ∈ (stripBytecodeDerivatives t.entries).1 ↔ e ∈ t.entries ∧ ¬ Derived t.entries e.1 := by
  have start : Left t [] t.entries := fun e => by simp
  have inside {p : Path} : p ∈ deepestFirst t.entries ↔ p ∈ t.entries.map Prod.fst := by
    simp [deepestFirst, List.mem_mergeSort]
  have done := start.run (s := (t.entries, 0)) (deepestFirst t.entries) (by
    intro p listed
    obtain ⟨e, inE, rfl⟩ := List.mem_map.1 (inside.1 listed)
    exact t.rooted e inE) t.once e
  refine done.trans (and_congr_right fun _ => not_congr ?_)
  simp only [List.nil_append, inside, Derived]

theorem foldl_stripStep_sublist (todo : List Path) (s : List (Path × Entry) × ℕ) :
    (todo.foldl stripStep s).1.Sublist s.1 := by
  induction todo generalizing s with
  | nil => exact List.Sublist.refl _
  | cons p todo ih => exact (ih _).trans (stripStep_sublist s p)

def Tree.stripped (t : Tree) : Tree where
  entries := (stripBytecodeDerivatives t.entries).1
  once := t.once.sublist ((foldl_stripStep_sublist (deepestFirst t.entries) (t.entries, 0)).map _)
  rooted e inside := t.rooted e ((mem_strip t e).1 inside).1
  closed e inside p some_ under ne := by
    obtain ⟨inT, clean⟩ := (mem_strip t e).1 inside
    refine (mem_strip t _).2 ⟨t.closed e inT p some_ under ne, ?_⟩
    rintro ⟨d, inD, derived, above⟩
    exact clean ⟨d, inD, derived, above.trans under⟩

/-- Off the interpreter's caches the stripped tree is the tree, and on them it has nothing. -/
theorem lookup_stripped (t : Tree) (p : Path) :
    (¬ Derived t.entries p → lookup t.stripped.entries p = lookup t.entries p) ∧
      (Derived t.entries p → lookup t.stripped.entries p = none) := by
  constructor
  · intro clean
    refine lookup_congr t.stripped.once t.once fun entry => ?_
    exact (mem_strip t (p, entry)).trans (and_iff_left clean)
  · intro derived
    rw [lookup_eq_none]
    rintro e inside rfl
    exact ((mem_strip t e).1 inside).2 derived

/-! ### The heal is sound -/

section Soundness
variable {sha256 : List UInt8 → Text} {loads : List UInt8 → Option Value}
variable {behind : Text → Option Value}

/-- The heal answers that it has healed exactly with the stripped tree, whose checksum is then the
stored one; with any other answer it leaves the tree as it is. -/
theorem heal_cases (sha256 : List UInt8 → Text) (loads : List UInt8 → Option Value)
    (behind : Text → Option Value) (entries : List (Path × Entry)) :
    (∃ members, readMetadata loads behind entries = some (.obj members) ∧
      isStored (contentChecksum sha256 (stripBytecodeDerivatives entries).1) (stored members) =
        true ∧
      healBytecodePoisonedArtifact sha256 loads behind entries =
        (.ok true, (stripBytecodeDerivatives entries).1)) ∨
    ((healBytecodePoisonedArtifact sha256 loads behind entries).1 ≠ .ok true ∧
      (healBytecodePoisonedArtifact sha256 loads behind entries).2 = entries) := by
  unfold healBytecodePoisonedArtifact
  cases found : readMetadata loads behind entries with
  | none => exact .inr ⟨by simp, rfl⟩
  | some v =>
    dsimp only
    split
    · exact .inr ⟨by simp, rfl⟩
    cases v with
    | obj members =>
      dsimp only
      split
      · exact .inr ⟨by simp, rfl⟩
      split
      · exact .inr ⟨by simp, rfl⟩
      split
      · exact .inr ⟨by simp, rfl⟩
      · next same => exact .inl ⟨members, rfl, by simpa [copytree] using same, rfl⟩
    | _ => exact .inr ⟨by simp, rfl⟩

/-- The checksum identifies a tree up to its metadata, and the heal is sound: only a tree that has
the stored checksum once the interpreter's caches are off it is changed, and by their removal. -/
theorem contentChecksum_sound (injective : Function.Injective sha256) :
    (∀ t u : Tree, contentChecksum sha256 t.entries = contentChecksum sha256 u.entries →
      ∀ p, p ≠ [metadataFilename] → lookup t.entries p = lookup u.entries p) ∧
    ∀ t : Tree,
      ((healBytecodePoisonedArtifact sha256 loads behind t.entries).1 = .ok true →
        ∃ after : Tree,
          (healBytecodePoisonedArtifact sha256 loads behind t.entries).2 = after.entries ∧
          (∃ members, readMetadata loads behind t.entries = some (.obj members) ∧
            isStored (contentChecksum sha256 after.entries) (stored members) = true) ∧
          ∀ p, (¬ Derived t.entries p → lookup after.entries p = lookup t.entries p) ∧
            (Derived t.entries p → lookup after.entries p = none)) ∧
      ((healBytecodePoisonedArtifact sha256 loads behind t.entries).1 ≠ .ok true →
        (healBytecodePoisonedArtifact sha256 loads behind t.entries).2 = t.entries) := by
  refine ⟨fun t u same p other => lookup_eq_of_checksum injective same other, fun t => ?_⟩
  rcases heal_cases sha256 loads behind t.entries with
    ⟨members, found, same, is⟩ | ⟨unhealed, is⟩
  · rw [is]
    exact ⟨fun _ => ⟨t.stripped, rfl, ⟨members, found, same⟩, lookup_stripped t⟩,
      fun other => absurd rfl other⟩
  · exact ⟨fun healed => absurd healed unhealed, fun _ => is⟩

end Soundness

/-! ### A poisoned artifact -/

def kept (bytes : List UInt8) : Text := '#' :: bytes.map fun b => Char.ofNat b.toNat

theorem kept_injective : Function.Injective kept := by
  have chars : ∀ n < 256, (Char.ofNat n).toNat = n := by decide +kernel
  intro l k same
  refine List.map_injective_iff.2 (fun a b equal => ?_) (List.cons.inj same).2
  have value := congrArg Char.toNat equal
  rw [chars _ a.toNat_lt, chars _ b.toNat_lt] at value
  exact UInt8.toNat_inj.1 value

def cacheName : Name := ⟨['a', '.', 'p', 'y', 'c'], by decide⟩

def poisoned : Tree where
  entries := [([metadataFilename], .file false []), ([cacheName], .file false [1])]
  once := by decide
  rooted := by decide
  closed := by
    intro e inside p some_ under ne
    have short : e.1.length = 1 := by
      simp only [List.mem_cons, List.not_mem_nil, or_false] at inside
      rcases inside with rfl | rfl <;> rfl
    have size := under.length_le
    have pos := List.length_pos_of_ne_nil some_
    exact absurd (under.eq_of_length (by omega)) ne

def cleanMembers : Members := [(PluginRegistry.text "content_checksum", .str ['#'.toNat])]

def storedClean (_ : List UInt8) : Option Value := some (.obj cleanMembers)

theorem isStored_clean {checksum : Text} :
    isStored checksum (stored cleanMembers) = true ↔ checksum = ['#'] := by
  have is : PluginRegistry.str? (stored cleanMembers) = some (['#'].map Char.toNat) := by
    decide +kernel
  have one : Function.Injective Char.toNat := fun a b same => by
    rw [← Char.ofNat_toNat a, same, Char.ofNat_toNat]
  rw [isStored, is, decide_eq_true_eq, Option.some.injEq, List.map_injective_iff.2 one |>.eq_iff,
    eq_comm]

theorem poisoned_order :
    deepestFirst poisoned.entries = [[metadataFilename], [cacheName]] :=
  List.mergeSort_of_pairwise (by decide)

theorem poisoned_stripped :
    (stripBytecodeDerivatives poisoned.entries).1 = [([metadataFilename], .file false [])] := by
  rw [stripBytecodeDerivatives, poisoned_order]
  decide +kernel

theorem poisoned_checksums :
    contentChecksum kept poisoned.entries ≠ ['#'] ∧
      contentChecksum kept [([metadataFilename], .file false [])] = ['#'] := by
  have one : listed poisoned.entries = [([cacheName], .file false [1])] := by
    have rest : poisoned.entries.filter (·.1 ≠ [metadataFilename]) =
        [([cacheName], .file false [1])] := by decide +kernel
    rw [listed, rest, List.mergeSort_singleton]
  have none_ : listed [([metadataFilename], .file false [])] = [] := by
    simp [listed]
  constructor
  · rw [contentChecksum, lines, one]
    decide +kernel
  · rw [contentChecksum, lines, none_]
    rfl

theorem poisoned_healed :
    (healBytecodePoisonedArtifact kept storedClean (fun _ => none) poisoned.entries).1 = .ok true ∧
      ∃ after : Tree,
        (healBytecodePoisonedArtifact kept storedClean (fun _ => none) poisoned.entries).2 =
          after.entries ∧ lookup after.entries [cacheName] = none := by
  have healed :
      (healBytecodePoisonedArtifact kept storedClean (fun _ => none) poisoned.entries).1 =
        .ok true := by
    obtain ⟨dirty, clean⟩ := poisoned_checksums
    have found : readMetadata storedClean (fun _ => none) poisoned.entries =
        some (.obj cleanMembers) := rfl
    have cached : (poisoned.entries.any fun e => isBytecodeDerivative e.1) = true := by
      decide +kernel
    have fresh : isStored ['#'] (stored cleanMembers) = true := isStored_clean.2 rfl
    have stale :
        isStored (contentChecksum kept poisoned.entries) (stored cleanMembers) = false := by
      rw [← Bool.not_eq_true, isStored_clean]
      exact dirty
    have truth : OwnedSwap.truthy (.obj cleanMembers) = true := rfl
    simp [healBytecodePoisonedArtifact, found, truth, stale, cached, copytree, poisoned_stripped,
      clean, fresh]
  obtain ⟨after, is, -, at_⟩ := ((contentChecksum_sound kept_injective).2 poisoned).1 healed
  refine ⟨healed, after, is, (at_ [cacheName]).2 ⟨[cacheName], by decide, by decide, ?_⟩⟩
  exact List.prefix_refl _

end Casa.ArtifactChecksum
