import Casa.ConfinedLinks

/-! `safe_extract_tar`: the check of an archive's members, and their extraction one after the other
into an empty directory, where what stands already is followed. -/

namespace Casa.TarExtraction
open LinkTree (Path Target Node Files)
open ConfinedLinks

/-- A `PurePosixPath`, whose parts are neither empty nor a single dot. -/
structure PurePath where
  absolute : Bool
  parts : List String
  plain : ∀ part ∈ parts, part ≠ "" ∧ part ≠ "."
deriving DecidableEq

def PurePath.target (p : PurePath) : Target := ⟨p.absolute, p.parts⟩

inductive Kind where
  | file
  | dir
  | symlink
  | hardlink
  | special
deriving DecidableEq

structure Member where
  kind : Kind
  name : PurePath
  linkname : PurePath
deriving DecidableEq

/-! ### The check -/

def normalize : List String → List String → Option (List String)
  | parts, [] => some parts
  | parts, part :: rest =>
    if part = ".." then if parts = [] then none else normalize parts.dropLast rest
    else if part ≠ "." then normalize (parts ++ [part]) rest
    else normalize parts rest

def joined (m : Member) : List String := m.name.parts.dropLast ++ m.linkname.parts

def accepts (m : Member) : Bool :=
  !m.name.absolute && !m.name.parts.contains ".." && m.kind ≠ .special &&
    (if m.kind = .symlink ∨ m.kind = .hardlink then
      !m.linkname.absolute && (normalize [] (joined m)).isSome
    else true)

/-! ### The extraction -/

abbrev Disk := Files Unit

def empty : Disk := fun _ => none

def isDir (s : Disk) (p : Path) : Bool := p = [] || s p = some .dir

def put (s : Disk) (p : Path) (node : Node Unit) : Disk := Function.update s p (some node)

/-- An extraction goes on, ends in an exception, or has followed a path out of the destination. -/
inductive Outcome where
  | fine (s : Disk)
  | raised (s : Disk)
  | escaped

inductive Entered where
  | out
  | fails (s : Disk)
  | at (s : Disk) (here : Path)

/-- `os.mkdir` in a directory that has been entered. -/
def mkdirIn (part : String) : Entered → Entered
  | .at s here =>
    if s (here ++ [part]) = none then .at (put s (here ++ [part]) .dir) (here ++ [part])
    else .fails s
  | ended => ended

section Extraction
-- How many links a walk may pass.
variable (limit : ℕ)

/-- The directory of a member, made where it does not exist; the parts stand in reverse. -/
def enter (s : Disk) : List String → Entered
  | [] => .at s []
  | part :: up =>
    match goes s limit [] (up.reverse ++ [part]) with
    | .out => .out
    | .at p => if isDir s p then .at s p else .fails s
    | _ => mkdirIn part (enter s up)

def isMissing (s : Disk) (m : Member) : Bool :=
  m.kind = .hardlink && match goes s limit [] m.linkname.parts with
    | .nothing => true
    | .free _ => true
    | _ => false

/-- A hard link to nothing stands for the last earlier member of its name; `earlier` begins with the
last one. -/
def findLinkTarget (s : Disk) : List Member → Member → Option Member
  | [], m => if isMissing limit s m then none else some m
  | e :: earlier, m =>
    if isMissing limit s m then
      if normalize [] m.linkname.parts = some e.name.parts then findLinkTarget s earlier e
      else findLinkTarget s earlier m
    else some m

def linkSource (s : Disk) (parts : List String) : Option (Node Unit) :=
  match parts.getLast? with
  | none => some .dir
  | some last =>
    if last = ".." then some .dir
    else match goes s limit [] parts.dropLast with
      | .at p => s (p ++ [last])
      | _ => none

def make (s : Disk) (here : Path) (name : String) (m : Member) : Outcome :=
  match m.kind with
  | .file => match goes s limit here [name] with
    | .out => .escaped
    | .free p => .fine (put s p (.file ()))
    | .at p => if isDir s p then .raised s else .fine s
    | .nothing => .raised s
  | .dir => if s (here ++ [name]) = none then .fine (put s (here ++ [name]) .dir) else .fine s
  | .symlink =>
    if s (here ++ [name]) = some .dir then .raised s
    else .fine (put s (here ++ [name]) (.link m.linkname.target))
  | .hardlink => match goes s limit [] m.linkname.parts with
    | .at _ => match linkSource limit s m.linkname.parts with
      | some .dir => .raised s
      | some node => if s (here ++ [name]) = none then .fine (put s (here ++ [name]) node)
          else .raised s
      | none => .raised s
    | .out => .escaped
    | _ => .raised s
  | .special => .raised s

/-- `_extract_member`, after the members before it. -/
def extractMember (earlier : List Member) (s : Disk) (m : Member) : Outcome :=
  match m.name.parts.reverse with
  | [] => if m.kind = .dir then .fine s else .raised s
  | name :: up => match enter limit s up with
    | .out => .escaped
    | .fails s' => .raised s'
    | .at s' here => match findLinkTarget limit s' earlier m with
      | none => .raised s'
      | some found => make limit s' here name found

def extractAll : List Member → Disk → List Member → Outcome
  | _, s, [] => .fine s
  | earlier, s, m :: rest => match extractMember limit earlier s m with
    | .fine s' => extractAll (m :: earlier) s' rest
    | ended => ended

end Extraction

/-- None is the `StoreError` of the check. -/
def safeExtractTar (limit : ℕ) (members : List Member) : Option Outcome :=
  if members.all accepts then some (extractAll limit [] empty members) else none

/-! ### Steps up behind links -/

def newLink (limit : ℕ) (s : Disk) (found : Member) : Option Target :=
  match found.kind with
  | .symlink => some found.linkname.target
  | .hardlink => match linkSource limit s found.linkname.parts with
    | some (.link dest) => some dest
    | _ => none
  | _ => none

/-- A member, that stands for `found`, is made in a directory without a step up behind a link. -/
structure Straight (limit : ℕ) (s : Disk) (here : Path) (name : String) (m found : Member) :
    Prop where
  /-- The joined path that the check looks at has no step up behind a link of the disk. -/
  own : m.kind = .symlink →
    Unlinked (put s (here ++ [name]) (.link m.linkname.target)) [] (joined m)
  /-- The name of a hard link has none either, from the root on, and stays below it. -/
  named : found.kind = .hardlink →
    Deep 0 found.linkname.parts ∧ Unlinked s [] found.linkname.parts
  /-- A link that comes from elsewhere takes no step up. -/
  copied : m.kind ≠ .symlink → ∀ dest, newLink limit s found = some dest → ".." ∉ dest.parts
  /-- The new link does not come before a step up of another one. -/
  others : ∀ dest, newLink limit s found = some dest → ∀ p x d, p ++ [x] ≠ here ++ [name] →
    s (p ++ [x]) = some (.link d) → Unlinked (put s (here ++ [name]) (.link dest)) p d.parts

def Meets (limit : ℕ) (earlier : List Member) (s : Disk) (m : Member) : Prop :=
  ∀ name up s' here found, m.name.parts.reverse = name :: up →
    enter limit s up = .at s' here → findLinkTarget limit s' earlier m = some found →
    Straight limit s' here name m found

def AllMeet (limit : ℕ) : List Member → Disk → List Member → Prop
  | _, _, [] => True
  | earlier, s, m :: rest => Meets limit earlier s m ∧
      ∀ s', extractMember limit earlier s m = .fine s' → AllMeet limit (m :: earlier) s' rest

/-- Every link on the disk leads, through whatever links, to a place inside or to nothing. -/
def LeadsInside (s : Disk) : Prop :=
  ∀ p name dest, s (p ++ [name]) = some (.link dest) →
    dest.absolute = false ∧ ∀ n, goes s n p dest.parts ≠ .out

/-- Nothing was followed out of the destination, and no link left on the disk leads out. -/
def Inside : Outcome → Prop
  | .escaped => False
  | .fine s => LeadsInside s
  | .raised s => LeadsInside s

def Kept : Outcome → Prop
  | .escaped => False
  | .fine s => Confined s
  | .raised s => Confined s

section Facts
variable {limit : ℕ} {s s' : Disk} {here : Path} {name : String} {m found : Member}

theorem put_link {p q : Path} {node : Node Unit} {d : Target} (solid : ∀ dest, node ≠ .link dest)
    (h : put s p node q = some (.link d)) : s q = some (.link d) := by
  unfold put at h
  by_cases same : q = p
  · subst same
    rw [Function.update_self, Option.some.injEq] at h
    exact (solid d h).elim
  · rwa [Function.update_of_ne same] at h

theorem Confined.put_solid (confined : Confined s) {p : Path} {node : Node Unit}
    (solid : ∀ dest, node ≠ .link dest) : Confined (put s p node) :=
  confined.mono fun _ _ => put_link solid

theorem goes_down (confined : Confined s) {names : List String} (plain : ".." ∉ names) (n : ℕ)
    (here : Path) : goes s n here names ≠ .out :=
  goes_ne_out confined n (deep_of_plain plain _) (unlinked_of_plain plain here)

inductive Grown (s : Disk) : Entered → Prop
  | fails {t : Disk} (same : ∀ p d, t p = some (.link d) ↔ s p = some (.link d)) : Grown s (.fails t)
  | at {t : Disk} {there : Path} (same : ∀ p d, t p = some (.link d) ↔ s p = some (.link d)) :
      Grown s (.at t there)

theorem Grown.mkdirIn {e : Entered} (grown : Grown s e) (part : String) :
    Grown s (mkdirIn part e) := by
  cases grown with
  | fails same => exact .fails same
  | @«at» t there same =>
    by_cases free : t (there ++ [part]) = none
    · simp only [TarExtraction.mkdirIn, if_pos free]
      refine .at fun p d => ⟨fun h => (same p d).1 (put_link (by simp) h), fun h => ?_⟩
      have old := (same p d).2 h
      unfold put
      rw [Function.update_of_ne ?_, old]
      rintro rfl
      rw [free] at old
      cases old
    · simp only [TarExtraction.mkdirIn, if_neg free]
      exact .fails same

theorem enter_grown (confined : Confined s) {up : List String} (plain : ".." ∉ up) :
    Grown s (enter limit s up) := by
  induction up with
  | nil => exact .at fun _ _ => Iff.rfl
  | cons part up ih =>
    simp only [List.mem_cons, not_or] at plain
    have down : ".." ∉ up.reverse ++ [part] := by simp [plain.1, plain.2]
    have inside := goes_down confined down limit []
    have made := (ih plain.2).mkdirIn part
    unfold enter
    cases ends : goes s limit [] (up.reverse ++ [part]) with
    | out => exact absurd ends inside
    | «at» p =>
      dsimp only
      split
      · exact .at fun _ _ => Iff.rfl
      · exact .fails fun _ _ => Iff.rfl
    | nothing => exact made
    | free p => exact made

theorem enter_plain {up : List String} (plain : ".." ∉ up)
    (free : ∀ pre, pre <+: up.reverse → pre ≠ [] → ¬ IsLink s pre)
    (entered : enter limit s up = .at s' here) : here = up.reverse := by
  induction up generalizing s' here with
  | nil =>
    cases entered
    rfl
  | cons part up ih =>
    simp only [List.mem_cons, not_or] at plain
    rw [List.reverse_cons] at free ⊢
    have made (h : mkdirIn part (enter limit s up) = .at s' here) :
        here = up.reverse ++ [part] := by
      cases below : enter limit s up with
      | «at» t there =>
        rw [below] at h
        have is := ih plain.2
          (fun pre le => free pre (le.trans (List.prefix_append _ _))) below
        by_cases empty : t (there ++ [part]) = none
        · simp only [mkdirIn, if_pos empty] at h
          cases h
          rw [is]
        · simp only [mkdirIn, if_neg empty] at h
          cases h
      | out =>
        rw [below] at h
        cases h
      | fails t =>
        rw [below] at h
        cases h
    unfold enter at entered
    cases ends : goes s limit [] (up.reverse ++ [part]) with
    | out =>
      rw [ends] at entered
      cases entered
    | «at» p =>
      rw [ends] at entered
      by_cases dir : isDir s p = true
      · simp only [dir, if_true] at entered
        cases entered
        simpa using goes_plain (by simp [plain.1, plain.2]) (by simpa using free) ends
      · simp only [dir, Bool.false_eq_true, if_false] at entered
        cases entered
    | nothing =>
      rw [ends] at entered
      exact made entered
    | free p =>
      rw [ends] at entered
      exact made entered

theorem deep_of_normalize {names parts : List String} {k : ℕ} (le : parts.length ≤ k)
    (some_ : (normalize parts names).isSome = true) : Deep k names := by
  induction names generalizing parts k with
  | nil => trivial
  | cons name names ih =>
    unfold normalize at some_
    unfold Deep
    by_cases up : name = ".."
    · rw [if_pos up] at some_ ⊢
      by_cases empty : parts = []
      · rw [if_pos empty] at some_
        cases some_
      · rw [if_neg empty] at some_
        have pos := List.length_pos_of_ne_nil empty
        exact ⟨by omega, ih (by rw [List.length_dropLast]; omega) some_⟩
    · rw [if_neg up] at some_ ⊢
      split at some_
      · exact ih (by simpa using le) some_
      · exact ih (by omega) some_

structure Accepted (m : Member) : Prop where
  plain : ".." ∉ m.name.parts
  relative : m.kind = .symlink → m.linkname.absolute = false
  deep : m.kind = .symlink → Deep 0 (joined m)

theorem accepted_of_accepts (h : accepts m = true) : Accepted m := by
  simp only [accepts, Bool.and_eq_true, Bool.not_eq_true', List.contains_eq_mem,
    decide_eq_false_iff_not] at h
  obtain ⟨⟨⟨-, plain⟩, -⟩, links⟩ := h
  refine ⟨plain, fun link => ?_, fun link => ?_⟩
  · simp only [link, true_or, if_true, Bool.and_eq_true, Bool.not_eq_true'] at links
    exact links.1
  · simp only [link, true_or, if_true, Bool.and_eq_true, Bool.not_eq_true'] at links
    exact deep_of_normalize (show ([] : List String).length ≤ 0 from Nat.le_refl 0) links.2

theorem findLinkTarget_mem {earlier : List Member}
    (h : findLinkTarget limit s earlier m = some found) : found = m ∨ found ∈ earlier := by
  induction earlier generalizing m with
  | nil =>
    unfold findLinkTarget at h
    split at h
    · cases h
    · exact .inl (Option.some.inj h).symm
  | cons e earlier ih =>
    unfold findLinkTarget at h
    split at h
    · split at h
      · rcases ih h with rfl | inside
        · exact .inr (by simp)
        · exact .inr (by simp [inside])
      · rcases ih h with rfl | inside
        · exact .inl rfl
        · exact .inr (by simp [inside])
    · exact .inl (Option.some.inj h).symm

theorem findLinkTarget_self {earlier : List Member} (other : m.kind ≠ .hardlink)
    (h : findLinkTarget limit s earlier m = some found) : found = m := by
  have there : isMissing limit s m = false := by simp [isMissing, other]
  cases earlier with
  | nil =>
    rw [findLinkTarget, if_neg (by simp [there])] at h
    exact (Option.some.inj h).symm
  | cons e earlier =>
    rw [findLinkTarget, if_neg (by simp [there])] at h
    exact (Option.some.inj h).symm

theorem linkSource_link {parts : List String} {dest : Target}
    (h : linkSource limit s parts = some (.link dest)) :
    ∃ p last, s (p ++ [last]) = some (.link dest) := by
  unfold linkSource at h
  cases ends : parts.getLast? with
  | none => simp [ends] at h
  | some last =>
    rw [ends] at h
    dsimp only at h
    split at h
    · cases h
    · cases walked : goes s limit [] parts.dropLast with
      | «at» p =>
        rw [walked] at h
        exact ⟨p, last, h⟩
      | _ =>
        rw [walked] at h
        cases h

structure Located (s s' : Disk) (here : Path) (name : String) (m : Member) : Prop where
  split : ∃ up, m.name.parts = up ++ [name] ∧ ".." ∉ up ∧
    ((∀ pre, pre <+: up → pre ≠ [] → ¬ IsLink s pre) → here = up)
  same : ∀ p d, s' p = some (.link d) ↔ s p = some (.link d)

theorem put_confined (confined : Confined s') (located : Located s s' here name m)
    (self : m.kind ≠ .hardlink → found = m) (accepted : Accepted m) (acceptedF : Accepted found)
    (straight : Straight limit s' here name m found) {dest : Target}
    (new : newLink limit s' found = some dest) :
    Confined (put s' (here ++ [name]) (.link dest)) := by
  obtain ⟨up, whole, plainUp, direct⟩ := located.split
  have relative : dest.absolute = false := by
    unfold newLink at new
    cases kind : found.kind with
    | symlink =>
      rw [kind] at new
      cases new
      exact acceptedF.relative kind
    | hardlink =>
      rw [kind] at new
      dsimp only at new
      split at new
      · next d source =>
        cases new
        obtain ⟨p, last, node⟩ := linkSource_link source
        exact (confined p last _ node).1
      · cases new
    | _ =>
      rw [kind] at new
      cases new
  -- A target with a step up is that of a symlink member, whose directory was entered by its names.
  have own : Deep here.length dest.parts ∧
      Unlinked (put s' (here ++ [name]) (.link dest)) here dest.parts := by
    by_cases steps : ".." ∈ dest.parts
    · by_cases link : m.kind = .symlink
      · have is := self (by simp [link])
        subst is
        rw [newLink, link] at new
        cases new
        have joinedIs : joined found = up ++ found.linkname.parts := by simp [joined, whole]
        have clear := straight.own link
        rw [joinedIs] at clear
        have at_ : here = up := by
          refine direct fun pre le some_ => ?_
          have none_ := unlinked_prefix plainUp steps clear le some_
          rintro ⟨d, node⟩
          refine none_ ?_
          by_cases same : pre = here ++ [name]
          · exact ⟨found.linkname.target, by rw [List.nil_append, put, same, Function.update_self]⟩
          · refine ⟨d, ?_⟩
            rw [List.nil_append, put, Function.update_of_ne same]
            exact (located.same pre d).2 node
        have deep := accepted.deep link
        rw [joinedIs] at deep
        have deep' := deep_of_append plainUp deep
        have clear' := unlinked_of_append plainUp clear
        rw [List.nil_append] at clear'
        rw [at_]
        exact ⟨by simpa [PurePath.target] using deep', by rw [at_] at clear'; exact clear'⟩
      · exact absurd steps (straight.copied link dest new)
    · exact ⟨deep_of_plain steps _, unlinked_of_plain steps _⟩
  refine confined.put relative own.1 fun p x d node => ?_
  by_cases same : p ++ [x] = here ++ [name]
  · obtain ⟨rfl, -⟩ := List.append_inj' same rfl
    rw [same, Function.update_self, Option.some.injEq, Node.link.injEq] at node
    subst node
    exact own.2
  · rw [Function.update_of_ne same] at node
    exact straight.others dest new p x d same node

theorem make_kept (confined : Confined s') (located : Located s s' here name m)
    (self : m.kind ≠ .hardlink → found = m) (accepted : Accepted m) (acceptedF : Accepted found)
    (plainName : name ≠ "..") (straight : Straight limit s' here name m found) :
    Kept (make limit s' here name found) := by
  have link {dest : Target} (new : newLink limit s' found = some dest) :=
    put_confined confined located self accepted acceptedF straight new
  unfold make
  cases kind : found.kind with
  | file =>
    dsimp only
    have inside : goes s' limit here [name] ≠ .out :=
      goes_down confined (by simpa using Ne.symm plainName) limit here
    cases ends : goes s' limit here [name] with
    | out => exact absurd ends inside
    | free p => exact Confined.put_solid confined (by simp)
    | «at» p =>
      dsimp only
      split <;> exact confined
    | nothing => exact confined
  | dir =>
    dsimp only
    split
    · exact Confined.put_solid confined (by simp)
    · exact confined
  | symlink =>
    dsimp only
    split
    · exact confined
    · exact link (by rw [newLink, kind])
  | hardlink =>
    dsimp only
    obtain ⟨deep, clear⟩ := straight.named kind
    have inside : goes s' limit [] found.linkname.parts ≠ .out :=
      goes_ne_out confined limit deep clear
    cases ends : goes s' limit [] found.linkname.parts with
    | out => exact absurd ends inside
    | «at» p =>
      dsimp only
      cases source : linkSource limit s' found.linkname.parts with
      | none => exact confined
      | some node =>
        cases node with
        | dir => exact confined
        | file c =>
          dsimp only
          split
          · exact Confined.put_solid confined (by simp)
          · exact confined
        | link dest =>
          dsimp only
          split
          · exact link (by rw [newLink, kind]; simp only [source])
          · exact confined
    | _ => exact confined
  | special => exact confined

theorem extractMember_kept (confined : Confined s) {earlier : List Member} (accepted : Accepted m)
    (before : ∀ e ∈ earlier, Accepted e) (meets : Meets limit earlier s m) :
    Kept (extractMember limit earlier s m) := by
  unfold extractMember
  cases turned : m.name.parts.reverse with
  | nil =>
    dsimp only
    split <;> exact confined
  | cons name up =>
    have whole : m.name.parts = up.reverse ++ [name] := by
      rw [← List.reverse_reverse m.name.parts, turned, List.reverse_cons]
    have plain := accepted.plain
    rw [whole] at plain
    simp only [List.mem_append, List.mem_reverse, List.mem_singleton, not_or] at plain
    have grown : Grown s (enter limit s up) := enter_grown confined plain.1
    dsimp only
    cases entered : enter limit s up with
    | out =>
      rw [entered] at grown
      cases grown
    | fails s' =>
      rw [entered] at grown
      cases grown with
      | fails same => exact confined.mono fun p d => (same p d).1
    | «at» s' here =>
      rw [entered] at grown
      cases grown with
      | «at» same =>
        have confined' : Confined s' := confined.mono fun p d => (same p d).1
        dsimp only
        cases target : findLinkTarget limit s' earlier m with
        | none => exact confined'
        | some found =>
          refine make_kept confined' ⟨⟨up.reverse, whole, by simpa using plain.1, fun free =>
            enter_plain plain.1 free entered⟩, same⟩ (fun other => findLinkTarget_self other target)
            accepted ?_ (Ne.symm plain.2) (meets name up s' here found turned entered target)
          rcases findLinkTarget_mem target with rfl | inside
          · exact accepted
          · exact before found inside

theorem inside_of_kept {o : Outcome} (kept : Kept o) : Inside o := by
  have leads {s : Disk} (confined : Confined s) : LeadsInside s := by
    intro p name dest node
    obtain ⟨relative, deep, clear⟩ := confined p name dest node
    exact ⟨relative, fun n => goes_ne_out confined n deep clear⟩
  cases o with
  | escaped => exact kept
  | fine s => exact leads kept
  | raised s => exact leads kept

theorem extractAll_kept (confined : Confined s) {earlier members : List Member}
    (before : ∀ e ∈ earlier, Accepted e) (accepted : ∀ e ∈ members, Accepted e)
    (meet : AllMeet limit earlier s members) (k : ℕ) :
    Kept (extractAll limit earlier s (members.take k)) := by
  induction members generalizing s earlier k with
  | nil =>
    rw [List.take_nil]
    exact confined
  | cons m rest ih =>
    cases k with
    | zero => exact confined
    | succ k =>
      have first := extractMember_kept confined (accepted m (by simp)) before meet.1
      rw [List.take_succ_cons, extractAll]
      cases step : extractMember limit earlier s m with
      | fine s' =>
        rw [step] at first
        refine ih first ?_ (fun e inside => accepted e (by simp [inside])) (meet.2 s' step) k
        intro e inside
        rcases List.mem_cons.1 inside with rfl | inside
        · exact accepted e (by simp)
        · exact before e inside
      | raised s' =>
        rw [step] at first
        exact first
      | escaped =>
        rw [step] at first
        exact first

theorem confined_empty : Confined empty := by
  intro p name dest node
  cases node

end Facts

/-! ### A step up behind a link -/

def pathOf (parts : List String) (plain : ∀ part ∈ parts, part ≠ "" ∧ part ≠ ".") : PurePath :=
  ⟨false, parts, plain⟩

def noPath : PurePath := pathOf [] (by decide)

def dirD : Member := ⟨.dir, pathOf ["d"] (by decide), noPath⟩
def linkUp : Member := ⟨.symlink, pathOf ["d", "l"] (by decide), pathOf [".."] (by decide)⟩
def linkOut : Member :=
  ⟨.symlink, pathOf ["x"] (by decide), pathOf ["d", "l", ".."] (by decide)⟩
def evil : Member := ⟨.file, pathOf ["x", "evil"] (by decide), noPath⟩

end Casa.TarExtraction
