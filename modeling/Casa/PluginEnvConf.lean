import Casa.PluginRegistry
import Casa.ProsodicSplitter
import Casa.PythonDict

/-! `plugin-env.conf`: one `VAR=value` a line. The reader takes the last line of a name and the
writer replaces the first, a value is written as it is, whatever lines it falls into, and a text
is read with every line end as a line feed. -/

namespace Casa.PluginEnvConf
open PythonDict
open MarkdownBlocks (Text isSpace isLineBreak strip splitlines splitlinesFrom)
open PluginRegistry (newline dollar dollar_cases isUpper isDigit)
open ProsodicSplitter (lstrip)

def carriageReturn : ℕ := '\r'.toNat
def equals : ℕ := '='.toNat
def hash : ℕ := '#'.toNat

def header : Text :=
  "# Managed by Configurator. Edit via Configurator to avoid sync loss.\n".toList.map Char.toNat

def isNameStart (c : ℕ) : Bool := isUpper c || c = '_'.toNat

def varNameBody : Text → Bool
  | [] => false
  | c :: rest => isNameStart c && rest.all fun c => isNameStart c || isDigit c

/-- `_VAR_NAME_RE.match`. -/
def varNameRe : Text → Bool := dollar varNameBody

inductive PluginEnvConfError where
  | invalidName (name : Text)
deriving DecidableEq

/-- What `read_text` makes of the line ends of a file. -/
def universalNewlines : Text → Text
  | [] => []
  | c :: rest =>
      if c = carriageReturn then
        if rest.head? = some newline then universalNewlines rest
        else newline :: universalNewlines rest
      else c :: universalNewlines rest

/-- `splitlines(keepends=True)` of the text that is read. -/
def fileLines (text : Text) : List Text := splitlines (universalNewlines text)

/-- A line as `splitlines()` has it. -/
def bare (line : Text) : Text := line.rdropWhile isLineBreak

def nameOf (line : Text) : Text := strip (line.takeWhile (· ≠ equals))
def valueOf (line : Text) : Text := strip ((line.dropWhile (· ≠ equals)).drop 1)

/-- What `read_entries` takes from one line. -/
def entryOf (line : Text) : Option (Text × Text) :=
  if strip line = [] ∨ (strip line).head? = some hash then none
  else if equals ∉ line then none
  else if varNameRe (nameOf line) then some (nameOf line, valueOf line)
  else none

def addEntry (entries : Dict Text Text) (line : Text) : Dict Text Text :=
  match entryOf line with
  | some (name, value) => entries.set name value
  | none => entries

def readEntries : Option Text → Dict Text Text
  | none => .empty
  | some text => ((fileLines text).map bare).foldl addEntry .empty

def isLineOf (varName line : Text) : Bool :=
  (lstrip line).head? ≠ some hash && line.contains equals && nameOf line = varName

def entryLine (varName value : Text) : Text := varName ++ equals :: (value ++ [newline])

def replaceFirst (varName value : Text) : List Text → Option (List Text)
  | [] => none
  | line :: rest =>
      if isLineOf varName line then some (entryLine varName value :: rest)
      else (replaceFirst varName value rest).map (line :: ·)

def closeLast : List Text → List Text
  | [] => []
  | [line] => [if line.getLast? = some newline then line else line ++ [newline]]
  | line :: rest => line :: closeLast rest

def setEntry (file : Option Text) (varName value : Text) : Except PluginEnvConfError Text :=
  if varNameRe varName then
    let lines := file.elim [header] fileLines
    .ok ((replaceFirst varName value lines).getD
      (closeLast lines ++ [entryLine varName value])).flatten
  else .error (.invalidName varName)

def removeEntry (file : Option Text) (varName : Text) :
    Except PluginEnvConfError (Bool × Option Text) :=
  if varNameRe varName then
    match file with
    | none => .ok (false, none)
    | some text =>
        let lines := fileLines text
        if lines.any (isLineOf varName) then
          .ok (true, some (lines.filter fun line => !isLineOf varName line).flatten)
        else .ok (false, some text)
  else .error (.invalidName varName)

def otherLines (varName text : Text) : Text :=
  ((splitlines text).filter fun line => !isLineOf varName line).flatten

/-- What one call of each writer has to do for a map of this file, with no other name defined or
changed by the value whatever the file. -/
structure BehavesAsMap (file : Option Text) (varName value : Text) : Prop where
  stored : ∀ after, setEntry file varName value = .ok after →
    (readEntries (some after)).lookup varName = some (strip value)
  others : ∀ g after, setEntry g varName value = .ok after →
    ∀ w, w ≠ varName → (readEntries (some after)).lookup w = (readEntries g).lookup w
  removed : ∀ b after, removeEntry file varName = .ok (b, after) →
    (readEntries after).lookup varName = none ∧
    (∀ w, w ≠ varName → (readEntries after).lookup w = (readEntries file).lookup w) ∧
    after = file.map (otherLines varName)

/-! ### Lines -/

def Plain (s : Text) : Prop := carriageReturn ∉ s

theorem universalNewlines_plain (s : Text) : Plain (universalNewlines s) := by
  unfold Plain
  induction s with
  | nil => exact List.not_mem_nil
  | cons c rest ih =>
    rw [universalNewlines]
    split
    · split
      · exact ih
      · exact List.not_mem_cons_of_ne_of_not_mem (by decide) ih
    · rename_i other
      exact List.not_mem_cons_of_ne_of_not_mem (Ne.symm other) ih

theorem universalNewlines_append {s : Text} (plain : Plain s) (t : Text) :
    universalNewlines (s ++ t) = s ++ universalNewlines t := by
  induction s with
  | nil => rfl
  | cons c rest ih =>
    obtain ⟨other, more⟩ := not_or.mp (mt List.mem_cons.mpr plain)
    rw [List.cons_append, universalNewlines, if_neg (Ne.symm other), ih more, List.cons_append]

theorem universalNewlines_of_plain {s : Text} (plain : Plain s) : universalNewlines s = s := by
  simpa [universalNewlines] using universalNewlines_append plain []

theorem universalNewlines_break (s t : Text) :
    universalNewlines (s ++ newline :: t) =
      universalNewlines (s ++ [newline]) ++ universalNewlines t := by
  induction s with
  | nil =>
    have other : newline ≠ carriageReturn := by decide
    simp [universalNewlines, other]
  | cons c rest ih =>
    have head : (rest ++ newline :: t).head? = (rest ++ [newline]).head? := by cases rest <;> rfl
    simp only [List.cons_append, universalNewlines, head, ih]
    split
    · split <;> rfl
    · rfl

theorem plain_append {s t : Text} (first : Plain s) (second : Plain t) : Plain (s ++ t) :=
  fun inside => (List.mem_append.mp inside).elim first second

theorem splitlinesFrom_cons {c : ℕ} (other : c ≠ carriageReturn) (line rest : Text) :
    splitlinesFrom line (c :: rest) = if isLineBreak c then (line ++ [c]) :: splitlines rest
      else splitlinesFrom (line ++ [c]) rest := by
  conv => lhs; unfold splitlinesFrom
  split
  · rename_i none_
    cases none_
  · rename_i both
    cases both
    exact absurd rfl other
  · rename_i same
    cases same
    rfl

theorem map_splitlinesFrom {line : Text} (plain : Plain line) (s : Text) :
    (splitlinesFrom line s).map universalNewlines = splitlinesFrom line (universalNewlines s) := by
  fun_induction splitlinesFrom line s with
  | case1 => rfl
  | case2 line some_ => simp [universalNewlines, splitlinesFrom, some_, universalNewlines_of_plain plain]
  | case3 line rest ih =>
    have read : universalNewlines (13 :: 10 :: rest) = 10 :: universalNewlines rest := by
      simp [universalNewlines, carriageReturn, newline]
    rw [List.map_cons, universalNewlines_append plain, read, splitlinesFrom_cons (by decide),
      if_pos (by decide), ih List.not_mem_nil]
    rfl
  | case4 line c rest apart breaks ih =>
    rw [List.map_cons, universalNewlines_append plain, ih List.not_mem_nil]
    by_cases same : c = carriageReturn
    · have alone : rest.head? ≠ some newline := by
        intro next
        cases rest with
        | nil => cases next
        | cons d more => exact apart more same (by rw [Option.some.inj next]; rfl)
      have read : universalNewlines (c :: rest) = newline :: universalNewlines rest := by
        rw [universalNewlines, if_pos same, if_neg alone]
      rw [read, splitlinesFrom_cons (by decide), if_pos (by decide), same]
      rfl
    · have read : universalNewlines (c :: rest) = c :: universalNewlines rest := by
        rw [universalNewlines, if_neg same]
      rw [read, splitlinesFrom_cons same, if_pos breaks]
      simp [universalNewlines, same, splitlines]
  | case5 line c rest apart unbroken ih =>
    have other : c ≠ carriageReturn := by
      rintro rfl
      exact unbroken (by decide)
    have more : Plain (line ++ [c]) := plain_append plain (by simpa [Plain] using other.symm)
    rw [ih more, universalNewlines, if_neg other,
      splitlinesFrom_cons other, if_neg unbroken]

theorem fileLines_eq (text : Text) : fileLines text = (splitlines text).map universalNewlines :=
  (map_splitlinesFrom List.not_mem_nil text).symm

def IsLine (l : Text) : Prop := l ≠ [] ∧ ∀ c ∈ l.dropLast, isLineBreak c = false

def Ended (l : Text) : Prop := ∃ c ∈ l.getLast?, isLineBreak c = true

structure Lines (ls : List Text) : Prop where
  line : ∀ l ∈ ls, IsLine l
  ended : ls.Pairwise fun l _ => Ended l

theorem lines_splitlinesFrom {line s : Text} (unbroken : ∀ c ∈ line, isLineBreak c = false)
    (plain : Plain s) : Lines (splitlinesFrom line s) := by
  induction s generalizing line with
  | nil =>
    rw [splitlinesFrom]
    split
    · exact ⟨nofun, .nil⟩
    · rename_i some_
      exact ⟨List.forall_mem_singleton.mpr ⟨some_, fun c inside =>
        unbroken c (List.dropLast_subset _ inside)⟩, List.pairwise_singleton _ _⟩
  | cons c rest ih =>
    obtain ⟨other, more⟩ := not_or.mp (mt List.mem_cons.mpr plain)
    rw [splitlinesFrom_cons (Ne.symm other)]
    split
    · rename_i breaks
      obtain ⟨line', ended⟩ := @ih [] nofun more
      refine ⟨List.forall_mem_cons.mpr ⟨⟨by simp, by simpa using unbroken⟩, line'⟩,
        List.pairwise_cons.mpr ⟨fun _ _ => ⟨c, by simp, breaks⟩, ended⟩⟩
    · rename_i inner
      exact ih (List.forall_mem_append.mpr ⟨unbroken,
        List.forall_mem_singleton.mpr (Bool.eq_false_iff.mpr inner)⟩) more

theorem splitlinesFrom_line {l : Text} (plain : Plain l) (is : IsLine l) (line rest : Text)
    (whole : Ended l ∨ rest = []) : splitlinesFrom line (l ++ rest) = (line ++ l) :: splitlines rest := by
  induction l generalizing line with
  | nil => exact absurd rfl is.1
  | cons c more ih =>
    obtain ⟨other, plain'⟩ := not_or.mp (mt List.mem_cons.mpr plain)
    rw [List.cons_append, splitlinesFrom_cons (Ne.symm other)]
    cases more with
    | nil =>
      split
      · rfl
      · rename_i inner
        rcases whole with ⟨d, last, breaks⟩ | rfl
        · cases last
          exact absurd breaks inner
        · simp [splitlinesFrom, splitlines]
    | cons d more =>
      rw [if_neg (by simp [is.2 c (by simp)]),
        ih plain' ⟨List.cons_ne_nil _ _, fun e inside => is.2 e (by simp_all)⟩ (line ++ [c])]
      · simp
      · exact whole.imp_left fun ⟨e, last, breaks⟩ => ⟨e, by simpa using last, breaks⟩

theorem splitlines_flatten_of_lines {ls : List Text} (h : Lines ls) (plain : Plain ls.flatten) :
    splitlines ls.flatten = ls := by
  induction ls with
  | nil => rfl
  | cons l rest ih =>
    obtain ⟨first, more⟩ := List.forall_mem_cons.mp h.line
    obtain ⟨ends, later⟩ := List.pairwise_cons.mp h.ended
    rw [List.flatten_cons] at plain ⊢
    have whole : Ended l ∨ rest.flatten = [] := by
      cases rest with
      | nil => exact .inr rfl
      | cons m _ => exact .inl (ends m List.mem_cons_self)
    have halves := not_or.mp (mt List.mem_append.mpr plain)
    rw [splitlines, splitlinesFrom_line halves.1 first [] _ whole, ih ⟨more, later⟩ halves.2,
      List.nil_append]

/-! ### Entries -/

def Blank (s : Text) : Prop := ∀ c ∈ s, isSpace c = true

theorem strip_append {e : Text} (blank : Blank e) (s : Text) : strip (s ++ e) = strip s := by
  unfold strip
  rw [List.dropWhile_append]
  split
  · rename_i all
    have gone : e.dropWhile isSpace = [] := List.dropWhile_eq_nil_iff.mpr blank
    rw [gone, List.isEmpty_iff.mp all]
  · exact ProsodicSplitter.rstrip_of_spaces blank _

theorem unequal_of_blank {e : Text} (blank : Blank e) : ∀ c ∈ e, decide (c ≠ equals) = true := by
  intro c inside
  refine decide_eq_true fun same => ?_
  have space := blank c inside
  rw [same] at space
  exact absurd space (by decide)

theorem nameOf_append {e : Text} (blank : Blank e) (l : Text) : nameOf (l ++ e) = nameOf l := by
  unfold nameOf
  rw [List.takeWhile_append]
  split
  · rename_i whole
    have same := (List.takeWhile_prefix (p := (· ≠ equals)) (l := l)).eq_of_length whole
    rw [List.takeWhile_eq_self_iff.mpr (unequal_of_blank blank), same, strip_append blank]
  · rfl

theorem valueOf_append {e : Text} (blank : Blank e) (l : Text) : valueOf (l ++ e) = valueOf l := by
  unfold valueOf
  rw [List.dropWhile_append]
  split
  · rename_i none_
    rw [List.dropWhile_eq_nil_iff.mpr (unequal_of_blank blank), List.isEmpty_iff.mp none_]
  · rename_i some_
    rw [List.drop_append_of_le_length, strip_append blank]
    exact List.length_pos_iff.mpr fun none_ => some_ (by rw [none_]; rfl)

theorem strip_ne_nil {l : Text} (inside : equals ∈ l) : strip l ≠ [] := fun none_ =>
  absurd (ProsodicSplitter.spaces_of_strip none_ equals inside) (by decide)

theorem head?_strip {l : Text} (speaks : strip l ≠ []) : (strip l).head? = (lstrip l).head? := by
  obtain ⟨t, parts⟩ := List.rdropWhile_prefix isSpace (l := lstrip l)
  change strip l ++ t = lstrip l at parts
  rw [← parts, List.head?_append_of_ne_nil _ speaks]

theorem entryOf_eq_some {l w y : Text} :
    entryOf l = some (w, y) ↔ isLineOf w l = true ∧ varNameRe w = true ∧ y = valueOf l := by
  unfold entryOf isLineOf
  by_cases inside : equals ∈ l
  · have speaks := strip_ne_nil inside
    rw [head?_strip speaks]
    by_cases comment : (lstrip l).head? = some hash
    · simp [comment]
    · simp only [speaks, comment, or_self, if_false, inside, not_true_eq_false]
      by_cases same : nameOf l = w
      · subst same
        by_cases named : varNameRe (nameOf l) = true
        · simp [named, comment, inside]
          exact eq_comm
        · simp [named]
      · simp [same]
  · simp [inside]

theorem isLineOf_append {e : Text} (blank : Blank e) (w l : Text) :
    isLineOf w (l ++ e) = isLineOf w l := by
  have unequal : equals ∉ e := fun inside => by simpa using unequal_of_blank blank equals inside
  have contains : (l ++ e).contains equals = l.contains equals := by simp [unequal]
  unfold isLineOf
  rw [nameOf_append blank, contains]
  by_cases inside : equals ∈ l
  · have speaks := strip_ne_nil inside
    have speaks' : strip (l ++ e) ≠ [] := by rwa [strip_append blank]
    rw [← head?_strip speaks, ← head?_strip speaks', strip_append blank]
  · simp [inside]

theorem blank_breaks {e : Text} (breaks : ∀ c ∈ e, isLineBreak c = true) : Blank e := by
  intro c inside
  have here := breaks c inside
  simp only [isLineBreak, isSpace, Bool.or_eq_true, Bool.and_eq_true, decide_eq_true_eq,
    beq_iff_eq] at here ⊢
  omega

theorem entryOf_bare (l : Text) : entryOf (bare l) = entryOf l := by
  have parts : bare l ++ l.rtakeWhile isLineBreak = l := List.rdropWhile_append_rtakeWhile
  have blank : Blank (l.rtakeWhile isLineBreak) := blank_breaks fun c => List.mem_rtakeWhile_imp
  refine Option.ext fun ⟨w, y⟩ => ?_
  rw [entryOf_eq_some, entryOf_eq_some, ← isLineOf_append blank, ← valueOf_append blank (bare l),
    parts]

def lookupIn (w : Text) (ls : List Text) : Option Text :=
  (ls.filter (isLineOf w)).getLast?.map valueOf

theorem lookupIn_append (w : Text) (ls ms : List Text) :
    lookupIn w (ls ++ ms) = (lookupIn w ms).or (lookupIn w ls) := by
  unfold lookupIn
  rw [List.filter_append, List.getLast?_append, Option.map_or]

theorem lookup_addEntry (w l : Text) (d : Dict Text Text) : (addEntry d l).lookup w =
    if varNameRe w then (lookupIn w [l]).or (d.lookup w) else d.lookup w := by
  have own : lookupIn w [l] = if isLineOf w l then some (valueOf l) else none := by
    unfold lookupIn
    rw [List.filter_singleton]
    cases isLineOf w l <;> rfl
  rw [own]
  unfold addEntry
  cases found : entryOf l with
  | none =>
    dsimp only
    split
    · rename_i named
      rw [if_neg, Option.none_or]
      intro is
      rw [entryOf_eq_some.mpr ⟨is, named, rfl⟩] at found
      cases found
    · rfl
  | some entry =>
    obtain ⟨n, y⟩ := entry
    obtain ⟨is, named, rfl⟩ := entryOf_eq_some.mp found
    dsimp only
    rw [Dict.lookup_set]
    by_cases same : n = w
    · subst same
      simp [is, named]
    · have other : isLineOf w l = false := by
        simp only [isLineOf, Bool.and_eq_true, decide_eq_true_eq] at is ⊢
        simp [is.2, same]
      simp [same, other]

theorem lookup_foldl (w : Text) (ls : List Text) (d : Dict Text Text) :
    (ls.foldl addEntry d).lookup w =
      if varNameRe w then (lookupIn w ls).or (d.lookup w) else d.lookup w := by
  induction ls generalizing d with
  | nil => simp [lookupIn]
  | cons l rest ih =>
    have whole : lookupIn w (l :: rest) = (lookupIn w rest).or (lookupIn w [l]) :=
      lookupIn_append w [l] rest
    rw [List.foldl_cons, ih, lookup_addEntry, whole]
    split
    · rw [Option.or_assoc]
    · rfl

theorem lookup_readEntries (text w : Text) : (readEntries (some text)).lookup w =
    if varNameRe w then lookupIn w (fileLines text) else none := by
  have same : (fun d l => addEntry d (bare l)) = addEntry :=
    funext fun d => funext fun l => by rw [addEntry, entryOf_bare, addEntry]
  rw [readEntries, List.foldl_map, same, lookup_foldl]
  simp

def ReadAs (l : Text) : Prop :=
  strip (universalNewlines l) = strip l ∧ valueOf (universalNewlines l) = valueOf l ∧
    ∀ w, isLineOf w (universalNewlines l) = isLineOf w l

theorem read_line {line s : Text} (plain : Plain line) : ∀ l ∈ splitlinesFrom line s, ReadAs l := by
  unfold ReadAs
  have same {b e : Text} (plain : Plain b) (blank : Blank e) (blank' : Blank (universalNewlines e)) :
      ReadAs (b ++ e) := by
    unfold ReadAs
    rw [universalNewlines_append plain, strip_append blank, strip_append blank',
      valueOf_append blank, valueOf_append blank']
    exact ⟨rfl, rfl, fun w => by rw [isLineOf_append blank, isLineOf_append blank']⟩
  fun_induction splitlinesFrom line s with
  | case1 => exact fun l inside => absurd inside List.not_mem_nil
  | case2 line some_ =>
    rw [List.forall_mem_singleton, universalNewlines_of_plain plain]
    exact ⟨rfl, rfl, fun _ => rfl⟩
  | case3 line rest ih =>
    exact List.forall_mem_cons.mpr ⟨same plain (blank_breaks (by decide))
      (blank_breaks (by decide)), ih List.not_mem_nil⟩
  | case4 line c rest _ breaks ih =>
    refine List.forall_mem_cons.mpr ⟨same plain (blank_breaks (by simpa using breaks)) ?_,
      ih List.not_mem_nil⟩
    refine blank_breaks ?_
    by_cases same : c = carriageReturn
    · subst same
      decide
    · simpa [universalNewlines, same] using breaks
  | case5 line c rest _ unbroken ih =>
    have other : carriageReturn ≠ c := by
      rintro rfl
      exact unbroken (by decide)
    exact ih (plain_append plain (by simpa [Plain] using other))

theorem lookupIn_map (w : Text) {ls : List Text} (each : ∀ l ∈ ls, ReadAs l) :
    lookupIn w (ls.map universalNewlines) = lookupIn w ls := by
  have kept : ls.filter (isLineOf w ∘ universalNewlines) = ls.filter (isLineOf w) :=
    List.filter_congr fun l inside => (each l inside).2.2 w
  unfold lookupIn
  rw [List.filter_map, kept, List.getLast?_map, Option.map_map]
  refine Option.map_congr fun l last => ?_
  exact (each l (List.mem_of_mem_filter (List.mem_of_getLast? last))).2.1

/-! ### Removal -/

theorem fileLines_flatten {ls : List Text} (h : Lines ls) (plain : Plain ls.flatten) :
    fileLines ls.flatten = ls := by
  rw [fileLines, universalNewlines_of_plain plain, splitlines_flatten_of_lines h plain]

theorem lines_fileLines (text : Text) :
    Lines (fileLines text) ∧ Plain (fileLines text).flatten := by
  have plain := universalNewlines_plain text
  refine ⟨lines_splitlinesFrom nofun plain, ?_⟩
  rwa [fileLines, MarkdownBlocks.splitlines_flatten]

theorem Lines.sublist {ls ms : List Text} (h : Lines ls) (part : ms.Sublist ls) : Lines ms :=
  ⟨fun l inside => h.line l (part.subset inside), h.ended.sublist part⟩

theorem lookupIn_filter (v w : Text) (ls : List Text) :
    lookupIn w (ls.filter fun l => !isLineOf v l) = if w = v then none else lookupIn w ls := by
  unfold lookupIn
  rw [List.filter_filter]
  split
  · rename_i same
    subst same
    simp
  · rename_i other
    refine congrArg (fun ms : List Text => ms.getLast?.map valueOf) (List.filter_congr fun l _ => ?_)
    cases here : isLineOf w l with
    | false => rfl
    | true =>
      simp only [isLineOf, Bool.and_eq_true, decide_eq_true_eq] at here
      simp [isLineOf, here.2, other]

theorem removed_eq (varName text : Text) :
    ((fileLines text).filter fun l => !isLineOf varName l).flatten =
      (((splitlines text).filter fun l => !isLineOf varName l).map universalNewlines).flatten := by
  rw [fileLines_eq, List.filter_map]
  refine congrArg (fun ms : List Text => (ms.map universalNewlines).flatten)
    (List.filter_congr fun l inside => ?_)
  rw [Function.comp_apply, (read_line List.not_mem_nil l inside).2.2]

theorem removed_iff (varName text : Text) :
    ((fileLines text).filter fun l => !isLineOf varName l).flatten = otherLines varName text ↔
      Plain (otherLines varName text) := by
  constructor
  · intro same inside
    obtain ⟨l, kept, here⟩ := List.mem_flatten.mp (same ▸ inside)
    exact (lines_fileLines text).2 (List.mem_flatten.mpr ⟨l, List.mem_of_mem_filter kept, here⟩)
  · intro plain
    rw [removed_eq, otherLines]
    refine congrArg List.flatten ((List.map_congr_left fun l kept => ?_).trans (List.map_id _))
    exact universalNewlines_of_plain fun inside => plain (List.mem_flatten.mpr ⟨l, kept, inside⟩)

theorem lookup_remaining (varName w text : Text) :
    (readEntries (some ((fileLines text).filter fun l => !isLineOf varName l).flatten)).lookup w =
      if w = varName then none else (readEntries (some text)).lookup w := by
  obtain ⟨lines, plain⟩ := lines_fileLines text
  have plain' : Plain ((fileLines text).filter fun l => !isLineOf varName l).flatten := by
    intro inside
    obtain ⟨l, kept, here⟩ := List.mem_flatten.mp inside
    exact plain (List.mem_flatten.mpr ⟨l, List.mem_of_mem_filter kept, here⟩)
  rw [lookup_readEntries, lookup_readEntries, fileLines_flatten (lines.sublist List.filter_sublist)
    plain', lookupIn_filter]
  by_cases same : w = varName
  · simp [same]
  · simp [same]

/-- A removal keeps the map; it keeps the other lines too unless it reads a carriage return. -/
theorem removal_iff (file : Option Text) (varName : Text) (named : varNameRe varName = true) :
    (∀ b after, removeEntry file varName = .ok (b, after) →
      (readEntries after).lookup varName = none ∧
      (∀ w, w ≠ varName → (readEntries after).lookup w = (readEntries file).lookup w) ∧
      after = file.map (otherLines varName)) ↔
    ∀ text, file = some text →
      (∀ l ∈ fileLines text, isLineOf varName l = false) ∨ Plain (otherLines varName text) := by
  cases file with
  | none =>
    refine iff_of_true (fun b after returned => ?_) nofun
    rw [removeEntry, if_pos named] at returned
    cases returned
    exact ⟨rfl, fun _ _ => rfl, rfl⟩
  | some text =>
    have left (w : Text) := lookup_remaining varName w text
    simp only [removeEntry, if_pos named, Option.some.injEq, forall_eq', Option.map_some]
    by_cases any : (fileLines text).any (isLineOf varName) = true
    · rw [if_pos any]
      obtain ⟨l, inside, is⟩ := List.any_eq_true.mp any
      have some_ : ¬∀ l ∈ fileLines text, isLineOf varName l = false := fun none_ => by
        simp [none_ l inside] at is
      rw [or_iff_right some_, ← removed_iff]
      constructor
      · exact fun h => Option.some.inj (h _ _ rfl).2.2
      · rintro same b after ⟨⟩
        exact ⟨by simp [left], fun w other => by simp [left, other], congrArg some same⟩
    · have none_ : ∀ l ∈ fileLines text, isLineOf varName l = false := by simpa using any
      have whole : (fileLines text).filter (fun l => !isLineOf varName l) = fileLines text :=
        List.filter_eq_self.mpr fun l inside => by rw [none_ l inside]; rfl
      have read : (fileLines text).flatten = universalNewlines text := MarkdownBlocks.splitlines_flatten _
      have same : otherLines varName text = text := by
        have each : ∀ l ∈ splitlines text, isLineOf varName l = false := fun l inside => by
          rw [← (read_line List.not_mem_nil l inside).2.2]
          exact none_ _ (fileLines_eq text ▸ List.mem_map_of_mem inside)
        rw [otherLines, List.filter_eq_self.mpr fun l inside => by rw [each l inside]; rfl]
        exact MarkdownBlocks.splitlines_flatten text
      refine iff_of_true ?_ (.inl none_)
      rw [if_neg any]
      rintro b after ⟨⟩
      refine ⟨?_, fun _ _ => rfl, congrArg some same.symm⟩
      rw [lookup_readEntries, lookupIn, List.filter_eq_nil_iff.mpr fun l inside => by simp [none_ l inside]]
      simp

/-! ### Names and values -/

theorem unbroken_of_inked {c : ℕ} (inked : isSpace c = false) : isLineBreak c = false := by
  by_contra breaks
  have blank : Blank [c] := blank_breaks (by simpa using breaks)
  rw [blank c (List.mem_singleton_self c)] at inked
  cases inked

theorem varNameBody_spec {name : Text} (named : varNameBody name = true) :
    name ≠ [] ∧ ∀ c ∈ name, isSpace c = false ∧ c ≠ equals ∧ c ≠ hash := by
  cases name with
  | nil => cases named
  | cons c rest =>
    refine ⟨List.cons_ne_nil c rest, fun d inside => ?_⟩
    have char : isNameStart d = true ∨ isDigit d = true := by
      simp only [varNameBody, Bool.and_eq_true, List.all_eq_true, Bool.or_eq_true] at named
      rcases List.mem_cons.mp inside with rfl | later
      · exact .inl named.1
      · exact named.2 d later
    simp only [isNameStart, PluginRegistry.isUpper, isDigit, Bool.or_eq_true, Bool.and_eq_true,
      decide_eq_true_eq, Char.reduceToNat] at char
    have space : isSpace d = false := by
      simp only [isSpace, Bool.or_eq_false_iff, Bool.and_eq_false_iff, decide_eq_false_iff_not,
        beq_eq_false_iff_ne]
      omega
    refine ⟨space, ?_, ?_⟩
    · simp only [equals, Char.reduceToNat]
      omega
    · simp only [hash, Char.reduceToNat]
      omega

theorem entry_parts {name : Text} (named : varNameBody name = true) (s : Text) :
    (∀ w, isLineOf w (name ++ equals :: s) = decide (name = w)) ∧
      valueOf (name ++ equals :: s) = strip s := by
  obtain ⟨some_, plain⟩ := varNameBody_spec named
  have unequal : ∀ c ∈ name, decide (c ≠ equals) = true := fun c inside =>
    decide_eq_true (plain c inside).2.1
  have own : nameOf (name ++ equals :: s) = name := by
    rw [nameOf, List.takeWhile_append_of_pos unequal, List.takeWhile_cons_of_neg (by simp),
      List.append_nil]
    exact (PluginRegistry.strip_spaceless fun c inside => (plain c inside).1).1
  refine ⟨fun w => ?_, ?_⟩
  · have start : (lstrip (name ++ equals :: s)).head? ≠ some hash := by
      cases name with
      | nil => exact absurd rfl some_
      | cons c rest =>
        have here := plain c List.mem_cons_self
        simp [lstrip, here.1, here.2.2]
    simp [isLineOf, own, start]
  · rw [valueOf, List.dropWhile_append_of_pos unequal, List.dropWhile_cons_of_neg (by simp)]
    rfl

theorem isLineOf_eq_false {w : Text} (last : w.getLast? = some newline) (l : Text) :
    isLineOf w l = false := by
  simp only [isLineOf, Bool.and_eq_false_iff, decide_eq_false_iff_not]
  refine .inr fun same => ?_
  have nonempty : nameOf l ≠ [] := by
    rintro none_
    rw [← same, none_] at last
    cases last
  have inked := List.rdropWhile_last_not isSpace _ nonempty
  rw [← same, List.getLast?_eq_getLast_of_ne_nil nonempty] at last
  exact inked ((congrArg isSpace (Option.some.inj last)).trans (by decide))

def ink (s : Text) : ℕ := s.countP fun c => !isSpace c

theorem ink_append (s t : Text) : ink (s ++ t) = ink s + ink t := List.countP_append

theorem ink_eq_zero {s : Text} : ink s = 0 ↔ Blank s := by simp [ink, Blank]

theorem ink_strip (s : Text) : ink (strip s) = ink s := by
  have front : ink (s.takeWhile isSpace) = 0 := ink_eq_zero.mpr fun c => List.mem_takeWhile_imp
  have back : ink ((lstrip s).rtakeWhile isSpace) = 0 :=
    ink_eq_zero.mpr fun c => List.mem_rtakeWhile_imp
  have whole : strip s ++ (lstrip s).rtakeWhile isSpace = lstrip s :=
    List.rdropWhile_append_rtakeWhile
  calc ink (strip s)
      = ink (strip s ++ (lstrip s).rtakeWhile isSpace) := by rw [ink_append, back, Nat.add_zero]
    _ = ink (s.takeWhile isSpace ++ lstrip s) := by rw [whole, ink_append, front, Nat.zero_add]
    _ = ink s := congrArg ink List.takeWhile_append_dropWhile

theorem ink_valueOf {l : Text} (inside : equals ∈ l) : ink (valueOf l) < ink l := by
  have parts := List.takeWhile_append_dropWhile (p := (· ≠ equals)) (l := l)
  cases rest : l.dropWhile (· ≠ equals) with
  | nil =>
    have all := List.dropWhile_eq_nil_iff.mp rest equals inside
    simp at all
  | cons c more =>
    have sign : c = equals := by
      have stops := List.head?_dropWhile_not (· ≠ equals) l
      rw [rest] at stops
      simpa using stops
    have one : ink (c :: more) = ink more + 1 := by
      rw [sign, ink, List.countP_cons_of_pos (by decide), ink]
    rw [rest] at parts
    rw [valueOf, rest, List.drop_one, List.tail_cons, ink_strip]
    conv => rhs; rw [← parts, ink_append, one]
    omega

theorem ink_flatten {l : Text} {ls : List Text} (inside : l ∈ ls) : ink l ≤ ink ls.flatten := by
  obtain ⟨before, after, rfl⟩ := List.append_of_mem inside
  simp only [List.flatten_append, List.flatten_cons, ink_append]
  omega

theorem mem_of_isLineOf {w l : Text} (is : isLineOf w l = true) : equals ∈ l := by
  simp only [isLineOf, Bool.and_eq_true, List.contains_iff_mem] at is
  exact is.1.2

theorem lookupIn_eq_none {w : Text} {ls : List Text} :
    lookupIn w ls = none ↔ ∀ l ∈ ls, isLineOf w l = false := by
  simp [lookupIn]

theorem lookupIn_mem {w y : Text} {ls : List Text} (h : lookupIn w ls = some y) :
    ∃ l ∈ ls, isLineOf w l = true ∧ valueOf l = y := by
  obtain ⟨l, last, value⟩ := Option.map_eq_some_iff.mp h
  obtain ⟨inside, is⟩ := List.mem_filter.mp (List.mem_of_getLast? last)
  exact ⟨l, inside, is, value⟩

/-- A value comes back exactly where its first line is all that it says. -/
theorem value_back (w : Text) {value f : Text} {r : List Text}
    (split : splitlines (value ++ [newline]) = f :: r) :
    (lookupIn w r).getD (strip f) = strip value ↔ ∀ l ∈ r, Blank l := by
  have whole : value ++ [newline] = f ++ r.flatten := by
    rw [← MarkdownBlocks.splitlines_flatten (value ++ [newline]), split, List.flatten_cons]
  have stripped : strip value = strip (f ++ r.flatten) := by
    rw [← whole, strip_append (by unfold Blank; decide)]
  have sum : ink (strip value) = ink f + ink r.flatten := by rw [stripped, ink_strip, ink_append]
  constructor
  · intro same l inside
    have least := ink_flatten inside
    cases found : lookupIn w r with
    | none =>
      rw [found, Option.getD_none] at same
      rw [← same, ink_strip] at sum
      exact ink_eq_zero.mp (by omega)
    | some y =>
      obtain ⟨m, inside', is, rfl⟩ := lookupIn_mem found
      rw [found, Option.getD_some] at same
      have less := ink_valueOf (mem_of_isLineOf is)
      have most := ink_flatten inside'
      rw [← same] at sum
      omega
  · intro blank
    have none_ : lookupIn w r = none := lookupIn_eq_none.mpr fun l inside =>
      Bool.eq_false_iff.mpr fun is => absurd (blank l inside equals (mem_of_isLineOf is)) (by decide)
    rw [none_, Option.getD_none, stripped, strip_append]
    intro c inside
    obtain ⟨l, inside', here⟩ := List.mem_flatten.mp inside
    exact blank l inside' c here

/-! ### Writing -/

theorem Lines.append {ls ms : List Text} (h : Lines ls) (ends : ∀ l ∈ ls, Ended l)
    (h' : Lines ms) : Lines (ls ++ ms) :=
  ⟨List.forall_mem_append.mpr ⟨h.line, h'.line⟩,
    List.pairwise_append.mpr ⟨h.ended, h'.ended, fun l inside _ _ => ends l inside⟩⟩

theorem ended_of_flatten {ls : List Text} (h : Lines ls)
    (last : ls.flatten.getLast? = some newline) : ∀ l ∈ ls, Ended l := by
  rcases List.eq_nil_or_concat' ls with rfl | ⟨init, l, rfl⟩
  · exact nofun
  · rw [List.flatten_concat, List.getLast?_append_of_ne_nil _ (h.line l (by simp)).1] at last
    exact List.forall_mem_append.mpr ⟨fun m inside =>
      (List.pairwise_append.mp h.ended).2.2 m inside l List.mem_cons_self,
      List.forall_mem_singleton.mpr ⟨newline, last, by decide⟩⟩

theorem read_closed (s : Text) : (universalNewlines (s ++ [newline])).getLast? = some newline := by
  induction s with
  | nil => decide
  | cons c rest ih =>
    have some_ : universalNewlines (rest ++ [newline]) ≠ [] := by
      intro none_
      rw [none_] at ih
      cases ih
    rw [List.cons_append, universalNewlines]
    split
    · split
      · exact ih
      · rw [List.getLast?_cons_of_ne_nil some_, ih]
    · rw [List.getLast?_cons_of_ne_nil some_, ih]

theorem Lines.extend {b l : Text} {ls : List Text} (h : Lines (l :: ls))
    (ends : ∀ m ∈ l :: ls, Ended m) (unbroken : ∀ c ∈ b, isLineBreak c = false) :
    Lines ((b ++ l) :: ls) ∧ ∀ m ∈ (b ++ l) :: ls, Ended m := by
  obtain ⟨first, later⟩ := List.forall_mem_cons.mp h.line
  obtain ⟨⟨c, close, breaks⟩, ends'⟩ := List.forall_mem_cons.mp ends
  have own : Ended (b ++ l) :=
    ⟨c, by rw [List.getLast?_append_of_ne_nil _ first.1]; exact close, breaks⟩
  refine ⟨⟨List.forall_mem_cons.mpr ⟨⟨List.append_ne_nil_of_right_ne_nil _ first.1, ?_⟩, later⟩,
    List.pairwise_cons.mpr ⟨fun _ _ => own, (List.pairwise_cons.mp h.ended).2⟩⟩,
    List.forall_mem_cons.mpr ⟨own, ends'⟩⟩
  rw [List.dropLast_append_of_ne_nil first.1]
  exact List.forall_mem_append.mpr ⟨unbroken, first.2⟩

theorem fileLines_written {name value f : Text} {r before after : List Text}
    (named : varNameBody name = true) (split : splitlines (value ++ [newline]) = f :: r)
    (h : Lines before) (ends : ∀ l ∈ before, Ended l) (plain : Plain before.flatten)
    (h' : Lines after) (plain' : Plain after.flatten) :
    fileLines (before ++ entryLine name value :: after).flatten =
      before ++ ((name ++ equals :: universalNewlines f) :: r.map universalNewlines ++ after) := by
  have unbroken : ∀ c ∈ name ++ [equals], isLineBreak c = false :=
    List.forall_mem_append.mpr ⟨fun c inside =>
      unbroken_of_inked ((varNameBody_spec named).2 c inside).1, by decide⟩
  have plainName : Plain (name ++ [equals]) := fun inside =>
    absurd (unbroken _ inside) (by decide)
  have flat : (fileLines (value ++ [newline])).flatten = universalNewlines (value ++ [newline]) :=
    MarkdownBlocks.splitlines_flatten _
  have parts := (lines_fileLines (value ++ [newline])).1
  have ends' := ended_of_flatten parts (flat ▸ read_closed value)
  rw [fileLines_eq, split, List.map_cons] at parts ends' flat
  obtain ⟨middle, ends''⟩ := parts.extend ends' unbroken
  rw [List.append_cons name]
  have text : universalNewlines (before ++ entryLine name value :: after).flatten =
      (before ++ ((name ++ [equals] ++ universalNewlines f) :: r.map universalNewlines ++
        after)).flatten := by
    have shape : (before ++ entryLine name value :: after).flatten =
        before.flatten ++ ((name ++ [equals]) ++ (value ++ newline :: after.flatten)) := by
      simp [entryLine]
    rw [shape, universalNewlines_append plain, universalNewlines_append plainName,
      universalNewlines_break, universalNewlines_of_plain plain', ← flat]
    simp
  rw [fileLines, text]
  exact splitlines_flatten_of_lines (h.append ends (middle.append ends'' h'))
    (text ▸ universalNewlines_plain _)

/-- A list of lines as the writer leaves it: its own line between `before` and `after`. -/
structure Placed (varName value : Text) (ls before after : List Text) : Prop where
  text : ((replaceFirst varName value ls).getD (closeLast ls ++ [entryLine varName value])).flatten =
    (before ++ entryLine varName value :: after).flatten
  lines : Lines before
  ended : ∀ l ∈ before, Ended l
  plain : Plain before.flatten
  later : Lines after
  plainLater : Plain after.flatten
  kept : ∀ w, w ≠ varName → lookupIn w ls = (lookupIn w after).or (lookupIn w before)
  rest : after.filter (isLineOf varName) = (ls.filter (isLineOf varName)).tail

theorem replaceFirst_cases (varName value : Text) (ls : List Text) :
    (replaceFirst varName value ls = none ∧ ∀ l ∈ ls, isLineOf varName l = false) ∨
    ∃ before l after, ls = before ++ l :: after ∧ isLineOf varName l = true ∧
      (∀ m ∈ before, isLineOf varName m = false) ∧
      replaceFirst varName value ls = some (before ++ entryLine varName value :: after) := by
  induction ls with
  | nil => exact .inl ⟨rfl, nofun⟩
  | cons l rest ih =>
    rw [replaceFirst]
    by_cases is : isLineOf varName l = true
    · exact .inr ⟨[], l, rest, rfl, is, nofun, by rw [if_pos is]; rfl⟩
    · rw [if_neg is]
      rcases ih with ⟨none_, all⟩ | ⟨before, m, after, rfl, own, all, found⟩
      · exact .inl ⟨by rw [none_]; rfl, List.forall_mem_cons.mpr ⟨Bool.eq_false_iff.mpr is, all⟩⟩
      · exact .inr ⟨l :: before, m, after, rfl, own,
          List.forall_mem_cons.mpr ⟨Bool.eq_false_iff.mpr is, all⟩, by rw [found]; rfl⟩

theorem closeLast_concat (init : List Text) (l : Text) : closeLast (init ++ [l]) =
    init ++ [if l.getLast? = some newline then l else l ++ [newline]] := by
  induction init with
  | nil => rfl
  | cons m rest ih =>
    rw [List.cons_append, closeLast, ih, List.cons_append]
    simp

theorem lookupIn_closed (w : Text) {line s : Text} (plain : Plain s) :
    lookupIn w (splitlinesFrom line (s ++ [newline])) = lookupIn w (splitlinesFrom line s) := by
  induction s generalizing line with
  | nil =>
    have feed : Blank [newline] := by unfold Blank; decide
    have same : lookupIn w [line ++ [newline]] = lookupIn w [line] := by
      simp only [lookupIn, List.filter_singleton, isLineOf_append feed]
      cases isLineOf w line with
      | true => exact congrArg some (valueOf_append feed line)
      | false => rfl
    rw [List.nil_append, splitlinesFrom_cons (by decide), if_pos (by decide)]
    refine same.trans ?_
    rw [splitlinesFrom]
    split
    · rename_i none_
      rw [none_]
      rfl
    · rfl
  | cons c rest ih =>
    obtain ⟨other, more⟩ := not_or.mp (mt List.mem_cons.mpr plain)
    rw [List.cons_append, splitlinesFrom_cons (Ne.symm other), splitlinesFrom_cons (Ne.symm other)]
    split
    · rw [← List.singleton_append, lookupIn_append, splitlines, ih more, ← lookupIn_append]
      rfl
    · exact ih more

theorem closed_lines {ls : List Text} (h : Lines ls) (plain : Plain ls.flatten) :
    ∃ before, Lines before ∧ (∀ l ∈ before, Ended l) ∧ before.flatten = (closeLast ls).flatten ∧
      Plain before.flatten ∧ ∀ w, lookupIn w before = lookupIn w ls := by
  rcases List.eq_nil_or_concat' ls with rfl | ⟨init, l, rfl⟩
  · exact ⟨[], h, nofun, rfl, plain, fun _ => rfl⟩
  · rw [closeLast_concat]
    by_cases last : l.getLast? = some newline
    · rw [if_pos last]
      refine ⟨_, h, ended_of_flatten h ?_, rfl, plain, fun _ => rfl⟩
      rw [List.flatten_concat, List.getLast?_append_of_ne_nil _ (h.line l (by simp)).1, last]
    · have plain' : Plain ((init ++ [l]).flatten ++ [newline]) :=
        plain_append plain (by unfold Plain; decide)
      have flat := MarkdownBlocks.splitlines_flatten ((init ++ [l]).flatten ++ [newline])
      have lines := @lines_splitlinesFrom [] _ nofun plain'
      refine ⟨_, lines, ended_of_flatten lines (by rw [← splitlines, flat]; simp), ?_,
        flat.symm ▸ plain', fun w => ?_⟩
      · rw [← splitlines, flat, if_neg last]
        simp
      · rw [lookupIn_closed w plain, ← splitlines, splitlines_flatten_of_lines h plain]

theorem other_name {v w l : Text} (is : isLineOf v l = true) (other : w ≠ v) :
    isLineOf w l = false := by
  simp only [isLineOf, Bool.and_eq_true, decide_eq_true_eq] at is
  simp [isLineOf, is.2, other.symm]

theorem placed (varName value : Text) {ls : List Text} (h : Lines ls) (plain : Plain ls.flatten) :
    ∃ before after, Placed varName value ls before after := by
  rcases replaceFirst_cases varName value ls with ⟨none_, all⟩ | ⟨before, l, after, rfl, is, all, found⟩
  · obtain ⟨before, lines, ends, text, plain', same⟩ := closed_lines h plain
    refine ⟨before, [], ?_, lines, ends, plain', ⟨nofun, .nil⟩, List.not_mem_nil, fun w _ => ?_, ?_⟩
    · simp [none_, text]
    · rw [same]
      rfl
    · have none_ : ls.filter (isLineOf varName) = [] := by simpa using all
      rw [none_]
      rfl
  · have parts := List.pairwise_append.mp h.ended
    rw [List.flatten_append, List.flatten_cons] at plain
    have halves := not_or.mp (mt List.mem_append.mpr plain)
    refine ⟨before, after, by rw [found]; rfl, h.sublist (List.sublist_append_left _ _),
      fun m inside => parts.2.2 m inside l List.mem_cons_self, halves.1,
      h.sublist ((List.sublist_cons_self l after).trans (List.sublist_append_right _ _)),
      (not_or.mp (mt List.mem_append.mpr halves.2)).2, fun w other => ?_, ?_⟩
    · simp [lookupIn, other_name is other, List.filter_append, List.getLast?_append, Option.map_or]
    · have none_ : before.filter (isLineOf varName) = [] := by simpa using all
      rw [List.filter_append, none_, List.nil_append, List.filter_cons_of_pos is, List.tail_cons]

def laterLines (value : Text) : List Text := (splitlines (value ++ [newline])).tail

/-- Where a name has more than one line, the last of them holds the value already and no later
line of the value is one of another name; elsewhere the value says nothing after its first line. -/
def Faithful (file : Option Text) (varName value : Text) : Prop :=
  match ((file.elim [] fileLines).filter (isLineOf varName)).tail.getLast? with
  | some line => valueOf line = strip value ∧ ∀ l ∈ laterLines value, ∀ w, w ≠ varName →
      varNameRe w = true → isLineOf w l = false
  | none => ∀ l ∈ laterLines value, Blank l

theorem lookup_written {varName value f : Text} {r ls before after : List Text}
    (named : varNameBody varName = true) (split : splitlines (value ++ [newline]) = f :: r)
    (h : Placed varName value ls before after) (w : Text) :
    (readEntries (some ((replaceFirst varName value ls).getD
      (closeLast ls ++ [entryLine varName value])).flatten)).lookup w =
    if varNameRe w then ((lookupIn w after).or (lookupIn w r)).or
      (if varName = w then some (strip f) else lookupIn w before) else none := by
  have each : ∀ l ∈ splitlines (value ++ [newline]), ReadAs l := read_line List.not_mem_nil
  rw [split] at each
  obtain ⟨⟨first, -⟩, later⟩ := List.forall_mem_cons.mp each
  obtain ⟨is, holds⟩ := entry_parts named (universalNewlines f)
  have own : lookupIn w [varName ++ equals :: universalNewlines f] =
      if varName = w then some (strip f) else none := by
    rw [lookupIn, List.filter_singleton, is, ← first, ← holds]
    by_cases same : varName = w
    · simp [same]
    · simp [same]
  rw [lookup_readEntries, h.text, fileLines_written named split h.lines h.ended h.plain h.later
    h.plainLater, ← List.singleton_append, lookupIn_append, lookupIn_append, lookupIn_append, own,
    lookupIn_map w later]
  by_cases same : varName = w
  · simp [same]
  · simp [same]

theorem start_lines (file : Option Text) : Lines (file.elim [header] fileLines) ∧
    Plain (file.elim [header] fileLines).flatten ∧
    ∀ w, (file.elim [header] fileLines).filter (isLineOf w) =
      (file.elim [] fileLines).filter (isLineOf w) := by
  cases file with
  | some text => exact ⟨(lines_fileLines text).1, (lines_fileLines text).2, fun _ => rfl⟩
  | none =>
    have comment : (lstrip header).head? = some hash := by decide
    refine ⟨⟨List.forall_mem_singleton.mpr ⟨by decide, by decide⟩, List.pairwise_singleton _ _⟩,
      by unfold Plain; decide, fun w => ?_⟩
    simp [isLineOf, comment]

theorem lookup_file (file : Option Text) (w : Text) : (readEntries file).lookup w =
    if varNameRe w then lookupIn w (file.elim [] fileLines) else none := by
  cases file with
  | some text => exact lookup_readEntries text w
  | none => simp [lookupIn, readEntries]

theorem stored_iff (file : Option Text) {varName value f : Text} {r : List Text}
    (named : varNameRe varName = true) (body : varNameBody varName = true)
    (split : splitlines (value ++ [newline]) = f :: r) :
    (∀ after, setEntry file varName value = .ok after →
      (readEntries (some after)).lookup varName = some (strip value)) ↔
    match ((file.elim [] fileLines).filter (isLineOf varName)).tail.getLast? with
    | some line => valueOf line = strip value
    | none => ∀ l ∈ r, Blank l := by
  obtain ⟨lines, plain, same⟩ := start_lines file
  obtain ⟨before, after, place⟩ := placed varName value lines plain
  rw [setEntry, if_pos named, ← same, ← place.rest]
  simp only [Except.ok.injEq, forall_eq']
  rw [lookup_written body split place, if_pos named, if_pos rfl]
  cases last : (after.filter (isLineOf varName)).getLast? with
  | some line =>
    have own : lookupIn varName after = some (valueOf line) := by rw [lookupIn, last]; rfl
    simp [own]
  | none =>
    have own : lookupIn varName after = none := by rw [lookupIn, last]; rfl
    rw [own, Option.none_or, Option.or_some, Option.some.injEq]
    exact value_back varName split

theorem others_iff {varName value f : Text} {r : List Text} (named : varNameRe varName = true)
    (body : varNameBody varName = true) (split : splitlines (value ++ [newline]) = f :: r) :
    (∀ g after, setEntry g varName value = .ok after → ∀ w, w ≠ varName →
      (readEntries (some after)).lookup w = (readEntries g).lookup w) ↔
    ∀ l ∈ r, ∀ w, w ≠ varName → varNameRe w = true → isLineOf w l = false := by
  constructor
  · intro keeps l inside w other name
    -- What a file without a line shows of the value.
    have kept := keeps (some []) _ (by rw [setEntry, if_pos named]) w other
    have place : Placed varName value [] [] [] := by
      refine ⟨rfl, ⟨nofun, .nil⟩, nofun, List.not_mem_nil, ⟨nofun, .nil⟩, List.not_mem_nil,
        fun _ _ => rfl, rfl⟩
    have read := lookup_written body split place w
    rw [if_pos name, if_neg other.symm] at read
    have none_ : (readEntries (some [])).lookup w = none := by simp [readEntries, fileLines]; rfl
    exact lookupIn_eq_none.mp (by simpa [lookupIn] using (read.symm.trans kept).trans none_) l inside
  · intro apart g after written w other
    rw [setEntry, if_pos named] at written
    obtain ⟨lines, plain, same⟩ := start_lines g
    obtain ⟨before, later, place⟩ := placed varName value lines plain
    have kept := place.kept w other
    rw [lookupIn, same] at kept
    rw [← Except.ok.inj written, lookup_written body split place, lookup_file, if_neg other.symm]
    by_cases name : varNameRe w = true
    · have none_ : lookupIn w r = none :=
        lookupIn_eq_none.mpr fun l inside => apart l inside w other name
      rw [if_pos name, if_pos name, none_, Option.or_none, ← kept, lookupIn]
    · rw [if_neg name, if_neg name]

/-- Exactly when the file is a map under one call of each writer. -/
theorem map_iff (file : Option Text) (varName value : Text) :
    BehavesAsMap file varName value ↔ varNameRe varName = false ∨
      varName.getLast? ≠ some newline ∧ Faithful file varName value ∧
        ∀ text, file = some text →
          (∀ l ∈ fileLines text, isLineOf varName l = false) ∨ Plain (otherLines varName text) := by
  by_cases named : varNameRe varName = true
  swap
  · have refused := Bool.eq_false_iff.mpr named
    refine iff_of_true ⟨?_, ?_, ?_⟩ (.inl refused)
    · simp [setEntry, refused]
    · simp [setEntry, refused]
    · simp [removeEntry, refused]
  rw [or_iff_right (by simp [named])]
  by_cases last : varName.getLast? = some newline
  · refine iff_of_false (fun h => ?_) fun h => h.1 last
    have stored := h.stored _ (by rw [setEntry, if_pos named])
    rw [lookup_readEntries, if_pos named,
      lookupIn_eq_none.mpr fun l _ => isLineOf_eq_false last l] at stored
    cases stored
  have body : varNameBody varName = true := by
    obtain ⟨b, body, rfl | rfl⟩ := dollar_cases named
    · exact body
    · simp at last
  obtain ⟨f, r, split⟩ : ∃ f r, splitlines (value ++ [newline]) = f :: r := by
    refine List.exists_cons_of_ne_nil fun none_ => ?_
    have whole := MarkdownBlocks.splitlines_flatten (value ++ [newline])
    simp [none_] at whole
  have rest : laterLines value = r := by rw [laterLines, split, List.tail_cons]
  have faithful : Faithful file varName value ↔
      (∀ after, setEntry file varName value = .ok after →
        (readEntries (some after)).lookup varName = some (strip value)) ∧
      ∀ g after, setEntry g varName value = .ok after → ∀ w, w ≠ varName →
        (readEntries (some after)).lookup w = (readEntries g).lookup w := by
    rw [stored_iff file named body split, others_iff named body split, Faithful, rest]
    split
    · exact Iff.rfl
    · refine ⟨fun blank => ⟨blank, fun l inside w _ _ => ?_⟩, And.left⟩
      exact Bool.eq_false_iff.mpr fun is =>
        absurd (blank l inside equals (mem_of_isLineOf is)) (by decide)
  rw [faithful, ← removal_iff file varName named]
  exact ⟨fun h => ⟨last, ⟨h.stored, h.others⟩, h.removed⟩, fun h => ⟨h.2.1.1, h.2.1.2, h.2.2⟩⟩

/-- A value of two lines defines another variable. -/
theorem value_defines_another : ¬BehavesAsMap (some []) ['A'.toNat]
    ("1\nB=2".toList.map Char.toNat) := by
  intro h
  have kept := h.others (some []) _ rfl ['B'.toNat] (by decide)
  exact absurd kept (by decide)

end Casa.PluginEnvConf
