import Casa.FlatJson
import Casa.MarkdownBlocks
import Casa.SeparatedText

/-! The plugin registry: what an entry must be, which source it pins, and the identity of the
artifact that the source stands for. -/

namespace Casa.PluginRegistry
open CanonicalJson (Points Value)
open JsonText (FloatText)
open MarkdownBlocks (strip)
open SeparatedText (partition cut_first cut_last)

def text (s : String) : Points := s.toList.map Char.toNat

def newline : ℕ := 10
def slash : ℕ := '/'.toNat
def backslash : ℕ := '\\'.toNat
def dot : ℕ := '.'.toNat
def colon : ℕ := ':'.toNat

abbrev Members := List (Points × Value)

/-- `d.get(key)`, and `None` where the key is missing. -/
def get (members : Members) (key : String) : Value :=
  ((members.find? (·.1 = text key)).map Prod.snd).getD .null

theorem get_cons (m : Points × Value) (rest : Members) (key : String) :
    get (m :: rest) key = if m.1 = text key then m.2 else get rest key := by
  by_cases here : m.1 = text key <;> simp [get, here]

def str? : Value → Option Points
  | .str s => some s
  | _ => none

inductive Raised where
  | typeError
  | unicodeEncodeError
deriving DecidableEq

/-! ### Patterns -/

def isDigit (c : ℕ) : Bool := '0'.toNat ≤ c && c ≤ '9'.toNat
def isLower (c : ℕ) : Bool := 'a'.toNat ≤ c && c ≤ 'z'.toNat
def isUpper (c : ℕ) : Bool := 'A'.toNat ≤ c && c ≤ 'Z'.toNat

/-- `re.match` of a pattern that ends in `$`, which also stands before a line feed at the end. -/
def dollar (body : Points → Bool) (s : Points) : Bool :=
  body s || (s.getLast? = some newline && body s.dropLast)

/-- `[a-z0-9][…]{0,most}`. -/
def isWord (more : ℕ → Bool) (most : Option ℕ) : Points → Bool
  | [] => false
  | c :: rest => (isLower c || isDigit c) && rest.all (fun c => isLower c || isDigit c || more c) &&
      most.all (rest.length ≤ ·)

def isDash (c : ℕ) : Bool := c = '-'.toNat

def nameBody (s : Points) : Bool := isWord isDash none s

def isRepoChar (c : ℕ) : Bool :=
  isUpper c || isLower c || isDigit c || c = '_'.toNat || c = dot || isDash c

def repoBody (s : Points) : Bool :=
  match partition slash s with
  | (owner, some repo) => owner ≠ [] && owner.all isRepoChar && repo ≠ [] && repo.all isRepoChar
  | _ => false

def isHex (c : ℕ) : Bool := isDigit c || ('a'.toNat ≤ c && c ≤ 'f'.toNat)

def revisionBody (s : Points) : Bool :=
  match partition colon s with
  | (kind, some digest) => digest.all isHex &&
      ((kind = text "git" && digest.length = 40) ||
        (kind = text "legacy-content" && digest.length = 64))
  | _ => false

def targetBody (s : Points) : Bool :=
  match partition colon s with
  | (kind, some name) => [text "resident", text "specialist", text "executor"].contains kind &&
      isWord (fun c => isDash c || c = '_'.toNat) none name
  | _ => false

def ownedNameBody (s : Points) : Bool :=
  match partition dot s with
  | (slug, some manifest) => isWord isDash (some 31) slug && isWord isDash (some 39) manifest
  | _ => false

def ownerBody (s : Points) : Bool :=
  match partition colon s with
  | (kind, some slug) => kind = text "specialist" && isWord isDash (some 31) slug
  | _ => false

/-- `TARGET_RE`, `NAME_RE`, `REVISION_RE`, `_REPO_RE`, `OWNED_NAME_RE`, `OWNER_RE`. -/
def targetRe : Points → Bool := dollar targetBody
def nameRe : Points → Bool := dollar nameBody
def revisionRe : Points → Bool := dollar revisionBody
def repoRe : Points → Bool := dollar repoBody
def ownedNameRe : Points → Bool := dollar ownedNameBody
def ownerRe : Points → Bool := dollar ownerBody

/-! ### The identity of an artifact -/

/-- `str.lower` on the characters of a repository. -/
def lower (s : Points) : Points := s.map fun c => if isUpper c then c + 32 else c

def normalizeRepo (repo : Points) : Points := lower (strip repo)

/-- None stands for the `ValueError` of a path with a backslash or a dot segment. -/
def normalizeSubdir (subdir : Points) : Option Points :=
  let s := strip subdir
  if backslash ∈ s then none
  else
    let parts := (s.splitOn slash).filter (· ≠ [])
    if text "." ∈ parts ∨ text ".." ∈ parts then none
    else some ([slash].intercalate parts)

def isScalar (c : ℕ) : Bool := c < 0xd800 || (0xdfff < c && c < 0x110000)

/-- `s.encode("utf-8")`. -/
def encode (s : Points) : Except Raised (List UInt8) :=
  if s.all isScalar then .ok (FlatJson.bytes s) else .error .unicodeEncodeError

/-- A pinned source, with its repository and its path normalised. -/
structure Pin where
  repo : Points
  revision : Points
  subdir : Points
  name : Points
deriving DecidableEq

def Pin.ident (p : Pin) : Points := [newline].intercalate [p.repo, p.revision, p.subdir, p.name]

section Entries
variable (sha256 : List UInt8 → Points)

def computeArtifactId (p : Pin) : Except Raised Points := do pure (sha256 (← encode p.ident))

/-! ### An entry -/

inductive Reason where
  | notAMapping
  | badName
  | ownedInvariant
  | badSource
  | badSourceType
  | badRepo
  | badRef
  | badRevision
  | badSubdir
  | badVersion
  | badTargets
  | artifactIdMismatch
deriving DecidableEq

def specialist (slug : Points) : Points := text "specialist:" ++ slug

/-- `value == [s]`. -/
def isSingleton (v : Value) (s : Points) : Bool :=
  match v with
  | .arr [.str t] => t = s
  | _ => false

def ownedInvariant (entry : Members) (name owner : Points) : Bool :=
  let (slug, manifest) := partition dot name
  ownedNameRe name && name.length ≤ 72 && ownerRe owner && owner = specialist slug &&
    str? (get entry "manifest_name") = some (manifest.getD []) &&
    isSingleton (get entry "targets") owner

def nameError (entry : Members) : Option Reason :=
  match get entry "owner", str? (get entry "name") with
  | .null, some name => if nameRe name then none else some .badName
  | .null, none => some .badName
  | .str owner, some name => if ownedInvariant entry name owner then none else some .ownedInvariant
  | _, _ => some .ownedInvariant

def isUnhashable : Value → Bool
  | .arr _ => true
  | .obj _ => true
  | _ => false

/-- `src.get("subdir", "")`. -/
def subdirOf (source : Members) : Value :=
  ((source.find? (·.1 = text "subdir")).map Prod.snd).getD (.str [])

def isText (v : Value) : Bool := (str? v).any (· ≠ [])

def targetsOf (entry : Members) : Option (List Points) :=
  match get entry "targets" with
  | .arr targets => targets.mapM fun t => (str? t).filter targetRe
  | _ => none

def sourceError (entry source : Members) (name : Points) : Except Raised (Option Reason) :=
  if isUnhashable (get source "type") then .error .typeError
  else if str? (get source "type") ∉ [some (text "github"), some (text "bundled")] then
    .ok (some .badSourceType)
  else match (str? (get source "repo")).filter repoRe with
    | none => .ok (some .badRepo)
    | some repo =>
        if !isText (get source "ref") then .ok (some .badRef)
        else match (str? (get source "revision")).filter revisionRe with
          | none => .ok (some .badRevision)
          | some revision => match (str? (subdirOf source)).bind normalizeSubdir with
              | none => .ok (some .badSubdir)
              | some subdir =>
                  if !isText (get entry "version") then .ok (some .badVersion)
                  else if targetsOf entry = none then .ok (some .badTargets)
                  else do
                    let expected ← computeArtifactId sha256
                      ⟨normalizeRepo repo, revision, subdir, name⟩
                    pure (if str? (get entry "artifact_id") = some expected then none
                      else some .artifactIdMismatch)

def entryError : Value → Except Raised (Option Reason)
  | .obj entry =>
      match nameError entry with
      | some reason => .ok (some reason)
      | none => match get entry "source" with
          | .obj source => sourceError sha256 entry source ((str? (get entry "name")).getD [])
          | _ => .ok (some .badSource)
  | _ => .ok (some .notAMapping)

def pinOf : Value → Option Pin
  | .obj entry => match get entry "source" with
      | .obj source => do
          let repo ← str? (get source "repo")
          let revision ← str? (get source "revision")
          let subdir ← (str? (subdirOf source)).bind normalizeSubdir
          let name ← str? (get entry "name")
          pure ⟨normalizeRepo repo, revision, subdir, name⟩
      | _ => none
  | _ => none

def hashed (entry : Value) : Option (List UInt8) :=
  (pinOf entry).bind fun p => (encode p.ident).toOption

def Moved (e f : Value) : Prop :=
  ∃ p q, pinOf e = some p ∧ pinOf f = some q ∧ p.repo = q.repo ∧ p.name = q.name ∧
    p.revision = q.revision ++ [newline] ∧ q.subdir = newline :: p.subdir

/-! ### Accepted entries -/

theorem dollar_cases {body : Points → Bool} {s : Points} (h : dollar body s = true) :
    ∃ b, body b = true ∧ (s = b ∨ s = b ++ [newline]) := by
  simp only [dollar, Bool.or_eq_true, Bool.and_eq_true, decide_eq_true_eq] at h
  rcases h with whole | ⟨last, front⟩
  · exact ⟨s, whole, .inl rfl⟩
  · exact ⟨s.dropLast, front, .inr (List.dropLast_append_getLast? newline last).symm⟩

theorem plain_word {more : ℕ → Bool} {most : Option ℕ} {s : Points}
    (h : isWord more most s = true) (unlisted : more newline = false) :
    newline ∉ s ∧ s ≠ [] := by
  cases s with
  | nil => simp [isWord] at h
  | cons c rest =>
    simp only [isWord, Bool.and_eq_true, List.all_eq_true] at h
    refine ⟨?_, by simp⟩
    rintro (_ | ⟨_, inside⟩)
    · exact absurd h.1.1 (by decide)
    · have listed := h.1.2 _ inside
      rw [unlisted] at listed
      exact absurd listed (by decide)

theorem plain_ownedName {s : Points} (h : ownedNameBody s = true) : newline ∉ s ∧ s ≠ [] := by
  unfold ownedNameBody at h
  rcases SeparatedText.partition_cases dot s with ⟨slug, manifest, rfl, -, cut⟩ | ⟨-, cut⟩
  · simp only [cut, Bool.and_eq_true] at h
    have front := plain_word h.1 rfl
    have back := plain_word h.2 rfl
    exact ⟨by simp [front.1, back.1, show newline ≠ dot by decide], by simp⟩
  · simp [cut] at h

theorem plain_revision {s : Points} (h : revisionBody s = true) : newline ∉ s := by
  unfold revisionBody at h
  rcases SeparatedText.partition_cases colon s with ⟨kind, digest, rfl, -, cut⟩ | ⟨-, cut⟩
  · simp only [cut, Bool.and_eq_true, Bool.or_eq_true, decide_eq_true_eq, List.all_eq_true] at h
    have back : newline ∉ digest := fun inside => absurd (h.1 _ inside) (by decide)
    have front : newline ∉ kind := by
      rcases h.2 with ⟨rfl, -⟩ | ⟨rfl, -⟩ <;> decide
    simp [front, back, show newline ≠ colon by decide]
  · simp [cut] at h

theorem spaceless_repo {s : Points} (h : repoBody s = true) :
    (∀ c ∈ s, MarkdownBlocks.isSpace c = false) ∧ s ≠ [] := by
  have ascii : ∀ c < 128, isRepoChar c = true → MarkdownBlocks.isSpace c = false := by decide
  have char {c : ℕ} (h : isRepoChar c = true) : MarkdownBlocks.isSpace c = false := by
    refine ascii c ?_ h
    have bounds : 'Z'.toNat < 128 ∧ 'z'.toNat < 128 ∧ '9'.toNat < 128 ∧ '_'.toNat < 128 ∧
        dot < 128 ∧ '-'.toNat < 128 := by decide
    simp only [isRepoChar, isUpper, isLower, isDigit, isDash, Bool.or_eq_true,
      Bool.and_eq_true, decide_eq_true_eq] at h
    omega
  unfold repoBody at h
  rcases SeparatedText.partition_cases slash s with ⟨owner, repo, rfl, -, cut⟩ | ⟨-, cut⟩
  · simp only [cut, Bool.and_eq_true, decide_eq_true_eq, List.all_eq_true] at h
    refine ⟨fun c inside => ?_, by simp⟩
    rcases List.mem_append.1 inside with front | (_ | ⟨_, back⟩)
    · exact char (h.1.1.2 c front)
    · decide
    · exact char (h.2 c back)
  · simp [cut] at h

theorem strip_spaceless {s : Points} (h : ∀ c ∈ s, MarkdownBlocks.isSpace c = false) :
    strip s = s ∧ strip (s ++ [newline]) = s := by
  have blank : MarkdownBlocks.isSpace newline = true := by decide
  rcases List.eq_nil_or_concat' s with rfl | ⟨front, last, rfl⟩
  · exact ⟨rfl, by decide⟩
  · have tail : MarkdownBlocks.isSpace last = false := h last (by simp)
    have head (rest : Points) : (front ++ [last] ++ rest).dropWhile MarkdownBlocks.isSpace =
        front ++ [last] ++ rest := by
      cases front with
      | nil => simp [tail]
      | cons c rest => simp [h c (by simp)]
    have whole := head []
    rw [List.append_nil] at whole
    constructor
    · rw [strip, whole, List.rdropWhile_concat_neg _ _ _ (by simp [tail])]
    · rw [strip, head, List.rdropWhile_concat_pos _ _ _ blank,
        List.rdropWhile_concat_neg _ _ _ (by simp [tail])]

theorem plain_repo {s : Points} (h : repoRe s = true) : newline ∉ normalizeRepo s := by
  obtain ⟨b, body, ends⟩ := dollar_cases h
  obtain ⟨solid, -⟩ := spaceless_repo body
  have stripped : strip s = b := by
    rcases ends with rfl | rfl
    · exact (strip_spaceless solid).1
    · exact (strip_spaceless solid).2
  rw [normalizeRepo, stripped, lower, List.mem_map]
  rintro ⟨c, inside, low⟩
  have plain := solid c inside
  by_cases upper : isUpper c = true
  · rw [if_pos upper, newline] at low
    omega
  · rw [if_neg upper] at low
    rw [low] at plain
    exact absurd plain (by decide)

/-- What the checks leave of the texts that an accepted entry's source is made of. -/
structure Sound (p : Pin) : Prop where
  repo : newline ∉ p.repo
  revision : ∃ b, newline ∉ b ∧ (p.revision = b ∨ p.revision = b ++ [newline])
  name : ∃ b, newline ∉ b ∧ b ≠ [] ∧ (p.name = b ∨ p.name = b ++ [newline])
  scalar : p.ident.all isScalar = true

theorem nameError_none {entry : Members} (h : nameError entry = none) :
    ∃ name, str? (get entry "name") = some name ∧
      ∃ b, newline ∉ b ∧ b ≠ [] ∧ (name = b ∨ name = b ++ [newline]) := by
  cases name : str? (get entry "name") with
  | none =>
    unfold nameError at h
    rw [name] at h
    split at h <;> simp_all
  | some name' =>
    refine ⟨name', rfl, ?_⟩
    unfold nameError at h
    rw [name] at h
    split at h
    · next same =>
      cases Option.some.inj same
      split at h
      · next accepted =>
        obtain ⟨b, body, ends⟩ := dollar_cases accepted
        obtain ⟨plain, some_⟩ := plain_word body rfl
        exact ⟨b, plain, some_, ends⟩
      · cases h
    · cases h
    · next same =>
      cases Option.some.inj same
      split at h
      · next accepted =>
        simp only [ownedInvariant, Bool.and_eq_true] at accepted
        obtain ⟨b, body, ends⟩ := dollar_cases accepted.1.1.1.1.1
        obtain ⟨plain, some_⟩ := plain_ownedName body
        exact ⟨b, plain, some_, ends⟩
      · cases h
    · cases h

theorem encode_ok {s : Points} {bytes : List UInt8} (h : encode s = .ok bytes) :
    s.all isScalar = true ∧ bytes = FlatJson.bytes s := by
  unfold encode at h
  split at h
  · next scalar => exact ⟨scalar, (Except.ok.inj h).symm⟩
  · cases h

theorem sourceError_none {entry source : Members} {name : Points}
    (h : sourceError sha256 entry source name = .ok none) :
    ∃ repo revision subdir, str? (get source "repo") = some repo ∧ repoRe repo = true ∧
      str? (get source "revision") = some revision ∧ revisionRe revision = true ∧
      (str? (subdirOf source)).bind normalizeSubdir = some subdir ∧
      (Pin.ident ⟨normalizeRepo repo, revision, subdir, name⟩).all isScalar = true := by
  unfold sourceError at h
  split at h
  · cases h
  split at h
  · cases h
  cases repo : (str? (get source "repo")).filter repoRe with
  | none => simp [repo] at h
  | some repo' =>
    simp only [repo] at h
    split at h
    · cases h
    cases revision : (str? (get source "revision")).filter revisionRe with
    | none => simp [revision] at h
    | some revision' =>
      simp only [revision] at h
      cases subdir : (str? (subdirOf source)).bind normalizeSubdir with
      | none => simp [subdir] at h
      | some subdir' =>
        simp only [subdir] at h
        split at h
        · cases h
        split at h
        · cases h
        obtain ⟨repoText, repoMatch⟩ := Option.filter_eq_some_iff.1 repo
        obtain ⟨revisionText, revisionMatch⟩ := Option.filter_eq_some_iff.1 revision
        refine ⟨repo', revision', subdir', repoText, repoMatch, revisionText, revisionMatch, rfl,
          ?_⟩
        cases bytes : encode (Pin.ident ⟨normalizeRepo repo', revision', subdir', name⟩) with
        | error e => simp [computeArtifactId, bytes, bind, Except.bind] at h
        | ok hashed => exact (encode_ok bytes).1

/-- An accepted entry pins a source whose parts hold no line feed but at the ends of its revision
and of its name, and anywhere in its path. -/
theorem pinOf_accepted {entry : Value} (h : entryError sha256 entry = .ok none) :
    ∃ p, pinOf entry = some p ∧ Sound p := by
  cases entry with
  | obj members =>
    unfold entryError at h
    cases named : nameError members with
    | some reason => simp [named] at h
    | none =>
      obtain ⟨name, nameText, nameEnds⟩ := nameError_none named
      simp only [named] at h
      cases src : get members "source" with
      | obj source =>
        simp only [src, nameText, Option.getD_some] at h
        obtain ⟨repo, revision, subdir, repoText, repoMatch, revisionText, revisionMatch, path,
          scalar⟩ := sourceError_none sha256 h
        obtain ⟨b, body, ends⟩ := dollar_cases revisionMatch
        refine ⟨⟨normalizeRepo repo, revision, subdir, name⟩, ?_, plain_repo repoMatch,
          ⟨b, plain_revision body, ends⟩, nameEnds, scalar⟩
        simp [pinOf, src, repoText, revisionText, path, nameText]
      | _ => simp [src] at h
  | _ => simp [entryError] at h

/-! ### Equal bytes -/

theorem scalars_of_all {s : Points} (h : s.all isScalar = true) : FlatJson.Scalars s := by
  intro c inside
  have point := List.all_eq_true.1 h c inside
  simp only [isScalar, Bool.or_eq_true, Bool.and_eq_true, decide_eq_true_eq] at point
  have valid : c.isValidChar := by
    rcases point with low | high
    · exact .inl low
    · exact .inr high
  rw [Char.ofNat, dif_pos valid]
  exact UInt32.toNat_ofNatLT

theorem bytes_injective {s t : Points} (left : s.all isScalar = true)
    (right : t.all isScalar = true) (same : FlatJson.bytes s = FlatJson.bytes t) : s = t := by
  have texts : FlatJson.text s = FlatJson.text t := by
    have read := FlatJson.fromUTF8?_bytes s
    rw [same, FlatJson.fromUTF8?_bytes] at read
    exact (Option.some.inj read).symm
  rw [← FlatJson.codePoints_text (scalars_of_all left), texts,
    FlatJson.codePoints_text (scalars_of_all right)]

theorem apart_last {m front back : Points} (plain : newline ∉ m) (some_ : m ≠ [])
    (same : front ++ m = back ++ [newline]) : False := by
  have last := congrArg List.getLast? same
  rw [List.getLast?_append_of_ne_nil _ some_, List.getLast?_concat] at last
  exact plain (List.mem_of_getLast? last)

/-- The last line feed of a text that ends in a name is found from its end: a name is not empty, so
the one behind it is told from the one before it. -/
theorem cut_name {p q : Pin} (left : Sound p) (right : Sound q) {front back : Points}
    (same : front ++ newline :: p.name = back ++ newline :: q.name) :
    front = back ∧ p.name = q.name := by
  obtain ⟨m, plainM, someM, nameP⟩ := left.name
  obtain ⟨n, plainN, someN, nameQ⟩ := right.name
  rcases nameP with nameP | nameP <;> rcases nameQ with nameQ | nameQ <;>
    rw [nameP, nameQ] at same ⊢
  · exact cut_last plainM plainN same
  · rw [List.append_cons, ← List.cons_append, ← List.append_assoc] at same
    exact (apart_last plainM someM same).elim
  · rw [List.append_cons back, ← List.cons_append, ← List.append_assoc] at same
    exact (apart_last plainN someN same.symm).elim
  · rw [← List.cons_append, ← List.append_assoc, ← List.cons_append, ← List.append_assoc] at same
    obtain ⟨whole, name⟩ := cut_last plainM plainN (List.append_cancel_right same)
    exact ⟨whole, by rw [name]⟩

/-- The line feed behind the revision is the first one, or the second where it ends in one. -/
theorem cut_revision {p q : Pin} (left : Sound p) (right : Sound q) {x y : Points}
    (same : p.revision ++ newline :: x = q.revision ++ newline :: y) :
    (p.revision = q.revision ∧ x = y) ∨
      (p.revision = q.revision ++ [newline] ∧ y = newline :: x) ∨
      (q.revision = p.revision ++ [newline] ∧ x = newline :: y) := by
  obtain ⟨a, plainA, revP⟩ := left.revision
  obtain ⟨b, plainB, revQ⟩ := right.revision
  rcases revP with revP | revP <;> rcases revQ with revQ | revQ <;> rw [revP, revQ] at same ⊢
  · obtain ⟨base, back⟩ := cut_first plainA plainB same
    exact .inl ⟨base, back⟩
  · rw [List.append_assoc] at same
    obtain ⟨base, back⟩ := cut_first plainA plainB same
    exact .inr (.inr ⟨by rw [base], back⟩)
  · rw [List.append_assoc] at same
    obtain ⟨base, back⟩ := cut_first plainA plainB same
    exact .inr (.inl ⟨by rw [base], back.symm⟩)
  · rw [List.append_assoc, List.append_assoc] at same
    obtain ⟨base, back⟩ := cut_first plainA plainB same
    exact .inl ⟨by rw [base], (List.cons.inj back).2⟩

/-- Sources with the same text to hash are one, or a line feed lies behind the revision of one and
before the path of the other. -/
theorem ident_eq {p q : Pin} (left : Sound p) (right : Sound q) (same : p.ident = q.ident) :
    p = q ∨ (p.repo = q.repo ∧ p.name = q.name ∧
      ((p.revision = q.revision ++ [newline] ∧ q.subdir = newline :: p.subdir) ∨
        (q.revision = p.revision ++ [newline] ∧ p.subdir = newline :: q.subdir))) := by
  have shape (p : Pin) : p.ident =
      p.repo ++ newline :: (p.revision ++ newline :: (p.subdir ++ newline :: p.name)) := by
    simp [Pin.ident, List.intercalate]
  rw [shape, shape] at same
  obtain ⟨repo, rest⟩ := cut_first left.repo right.repo same
  rcases cut_revision left right rest with ⟨revision, tail⟩ | ⟨revision, tail⟩ | ⟨revision, tail⟩
  · obtain ⟨path, name⟩ := cut_name left right tail
    cases p
    cases q
    simp_all
  · rw [← List.cons_append] at tail
    obtain ⟨path, name⟩ := cut_name right left tail
    exact .inr ⟨repo, name.symm, .inl ⟨revision, path⟩⟩
  · rw [← List.cons_append] at tail
    obtain ⟨path, name⟩ := cut_name left right tail
    exact .inr ⟨repo, name, .inr ⟨revision, path⟩⟩

theorem ident_of_moved {p q : Pin} (repo : p.repo = q.repo) (name : p.name = q.name)
    (revision : p.revision = q.revision ++ [newline]) (path : q.subdir = newline :: p.subdir) :
    p.ident = q.ident := by
  simp [Pin.ident, List.intercalate, repo, name, revision, path]

theorem hashed_eq {e : Value} {p : Pin} (pinned : pinOf e = some p) (sound : Sound p) :
    hashed e = some (FlatJson.bytes p.ident) := by
  rw [hashed, pinned, Option.bind_some, encode, if_pos sound.scalar]
  rfl

/-- Two accepted entries whose hashed bytes are equal pin the same source, unless the line feed that
the revision pattern lets through stands behind the revision of one and before the path of the
other. -/
theorem hashed_injective_iff {e f : Value} (acceptedE : entryError sha256 e = .ok none)
    (acceptedF : entryError sha256 f = .ok none) :
    (hashed e = hashed f → pinOf e = pinOf f) ↔ ¬ (Moved e f ∨ Moved f e) := by
  obtain ⟨p, pinE, soundP⟩ := pinOf_accepted sha256 acceptedE
  obtain ⟨q, pinF, soundQ⟩ := pinOf_accepted sha256 acceptedF
  have equal : hashed e = hashed f ↔ p.ident = q.ident := by
    rw [hashed_eq pinE soundP, hashed_eq pinF soundQ, Option.some.injEq]
    exact ⟨bytes_injective soundP.scalar soundQ.scalar, fun same => by rw [same]⟩
  have differ {p q : Pin} (revision : p.revision = q.revision ++ [newline]) : p ≠ q := by
    rintro rfl
    simpa using congrArg List.length revision
  rw [equal, pinE, pinF, Option.some.injEq]
  constructor
  · rintro injective (⟨p', q', isP, isQ, repo, name, revision, path⟩ |
      ⟨q', p', isQ, isP, repo, name, revision, path⟩)
    · rw [pinE] at isP
      rw [pinF] at isQ
      cases isP
      cases isQ
      exact differ revision (injective (ident_of_moved repo name revision path))
    · rw [pinE] at isP
      rw [pinF] at isQ
      cases isP
      cases isQ
      exact differ revision (injective (ident_of_moved repo name revision path).symm).symm
  · intro still same
    rcases ident_eq soundP soundQ same with
      whole | ⟨repo, name, ⟨revision, path⟩ | ⟨revision, path⟩⟩
    · exact whole
    · exact (still (.inl ⟨p, q, pinE, pinF, repo, name, revision, path⟩)).elim
    · exact (still (.inr ⟨q, p, pinF, pinE, repo.symm, name.symm, revision, path⟩)).elim

end Entries

def entryOf (revision subdir : Points) : Value :=
  .obj [(text "name", .str (text "a")), (text "source", .obj [(text "type", .str (text "github")),
      (text "repo", .str (text "o/r")), (text "ref", .str (text "main")),
      (text "revision", .str revision), (text "subdir", .str subdir)]),
    (text "version", .str (text "1")), (text "targets", .arr []),
    (text "artifact_id", .str (digest []))]
where
  digest (_ : List UInt8) : Points :=
    text "4f8d9db90f1dc926fc78e322445e6b3fd8e4a95beb50e48141fe31ebf0a3c81f"

def commit : Points := text "git:" ++ List.replicate 40 '0'.toNat

/-- Both are accepted, they pin different revisions, and the same bytes are hashed for them. -/
theorem moved_entries_collide :
    entryError entryOf.digest (entryOf (commit ++ [newline]) (text "x")) = .ok none ∧
      entryError entryOf.digest (entryOf commit (text "/\nx")) = .ok none ∧
      hashed (entryOf (commit ++ [newline]) (text "x")) = hashed (entryOf commit (text "/\nx")) ∧
      pinOf (entryOf (commit ++ [newline]) (text "x")) ≠ pinOf (entryOf commit (text "/\nx")) := by
  decide +kernel

theorem hashed_injective_moved :
    (hashed (entryOf (commit ++ [newline]) (text "x")) = hashed (entryOf commit (text "/\nx")) →
        pinOf (entryOf (commit ++ [newline]) (text "x")) = pinOf (entryOf commit (text "/\nx"))) ↔
      ¬ (Moved (entryOf (commit ++ [newline]) (text "x")) (entryOf commit (text "/\nx")) ∨
        Moved (entryOf commit (text "/\nx")) (entryOf (commit ++ [newline]) (text "x"))) :=
  hashed_injective_iff entryOf.digest (by decide +kernel) (by decide +kernel)

end Casa.PluginRegistry
