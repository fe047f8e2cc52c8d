import Mathlib.Data.List.Infix
import Mathlib.Data.List.Basic

/-! Files under symbolic links. A path is followed name by name, a link sends the walk on to its
target, and a limit on the links ends every loop. What a walk looks at decides where it ends, so
a change elsewhere leaves it alone; and a tree whose links stay inside it may be moved. -/

namespace Casa.LinkTree

variable {C : Type}

abbrev Path := List String

structure Target where
  absolute : Bool
  parts : List String
deriving DecidableEq

inductive Node (C : Type) where
  | dir
  | file (content : C)
  | link (dest : Target)
deriving DecidableEq

abbrev Files (C : Type) := Path → Option (Node C)

/-- The file a walk ends at, and every path it looked at. -/
structure Found (C : Type) where
  path : Path
  content : C
  seen : List Path
deriving DecidableEq

def Found.past (p : Path) (f : Found C) : Found C := { f with seen := p :: f.seen }

/-- The same walk below `base`. -/
def Found.below (base : Path) (f : Found C) : Found C :=
  ⟨base ++ f.path, f.content, f.seen.map (base ++ ·)⟩

section Walks
variable (s : Files C)

/-- The walk along the names of a path; `jump` goes on where a link sends it. -/
def along (jump : Path → List String → Option (Found C)) : Path → List String → Option (Found C)
  | _, [] => none
  | here, name :: rest =>
    if name = "." then along jump here rest
    else if name = ".." then along jump here.dropLast rest
    else match s (here ++ [name]) with
      | none => none
      | some .dir => (along jump (here ++ [name]) rest).map (·.past (here ++ [name]))
      | some (.file c) => if rest = [] then some ⟨here ++ [name], c, [here ++ [name]]⟩ else none
      | some (.link dest) =>
        (jump (if dest.absolute then [] else here) (dest.parts ++ rest)).map (·.past (here ++ [name]))

/-- The walk through at most `n` links. -/
def walk : ℕ → Path → List String → Option (Found C)
  | 0 => along s fun _ _ => none
  | n + 1 => along s (walk n)

end Walks

/-- What becomes of a walk that must not leave its tree. -/
inductive Inside (C : Type) where
  | out
  | missing
  | found (f : Found C)
deriving DecidableEq

namespace Inside

def past (p : Path) : Inside C → Inside C
  | found f => found (f.past p)
  | r => r

def toOption : Inside C → Option (Found C)
  | found f => some f
  | _ => none

@[simp] theorem past_toOption (p : Path) (r : Inside C) :
    (r.past p).toOption = r.toOption.map (·.past p) := by
  cases r <;> rfl

theorem ne_out_of_past {p : Path} {r : Inside C} (h : r.past p ≠ .out) : r ≠ .out := by
  rintro rfl
  exact h rfl

end Inside

section Trees
variable (t : Files C)

def within (jump : Path → List String → Inside C) : Path → List String → Inside C
  | _, [] => .missing
  | here, name :: rest =>
    if name = "." then within jump here rest
    else if name = ".." then if here = [] then .out else within jump here.dropLast rest
    else match t (here ++ [name]) with
      | none => .missing
      | some .dir => (within jump (here ++ [name]) rest).past (here ++ [name])
      | some (.file c) =>
        if rest = [] then .found ⟨here ++ [name], c, [here ++ [name]]⟩ else .missing
      | some (.link dest) =>
        if dest.absolute then .out else (jump here (dest.parts ++ rest)).past (here ++ [name])

/-- The walk in a tree, on relative links only and never above its root. -/
def inside : ℕ → Path → List String → Inside C
  | 0 => within t fun _ _ => .out
  | n + 1 => within t (inside n)

end Trees

variable {s s' t : Files C}

theorem Found.past_below (base p : Path) (f : Found C) :
    (f.past p).below base = (f.below base).past (base ++ p) := rfl

/-- A walk depends on what it looks at only. -/
theorem along_congr {jump jump' : Path → List String → Option (Found C)}
    (same : ∀ here rest f, jump here rest = some f → (∀ p ∈ f.seen, s' p = s p) →
      jump' here rest = some f)
    {here : Path} {rest : List String} {f : Found C} (h : along s jump here rest = some f)
    (seen : ∀ p ∈ f.seen, s' p = s p) : along s' jump' here rest = some f := by
  induction rest generalizing here f with
  | nil => cases h
  | cons name rest ih =>
    unfold along at h ⊢
    split at h
    · next dot => rw [if_pos dot]; exact ih h seen
    · next dot =>
      rw [if_neg dot]
      split at h
      · next up => rw [if_pos up]; exact ih h seen
      · next up =>
        rw [if_neg up]
        cases node : s (here ++ [name]) with
        | none => rw [node] at h; cases h
        | some v =>
          rw [node] at h
          cases v with
          | dir =>
            obtain ⟨g, walked, rfl⟩ := Option.map_eq_some_iff.mp h
            rw [seen _ List.mem_cons_self, node]
            exact Option.map_eq_some_iff.mpr
              ⟨g, ih walked fun p mem => seen p (List.mem_cons_of_mem _ mem), rfl⟩
          | file c =>
            dsimp only at h
            split at h
            · next last =>
              obtain rfl := Option.some.inj h
              rw [seen _ List.mem_cons_self, node]
              exact if_pos last
            · cases h
          | link dest =>
            obtain ⟨g, walked, rfl⟩ := Option.map_eq_some_iff.mp h
            rw [seen _ List.mem_cons_self, node]
            exact Option.map_eq_some_iff.mpr
              ⟨g, same _ _ _ walked fun p mem => seen p (List.mem_cons_of_mem _ mem), rfl⟩

theorem walk_congr {n : ℕ} {here : Path} {rest : List String} {f : Found C}
    (h : walk s n here rest = some f) (seen : ∀ p ∈ f.seen, s' p = s p) :
    walk s' n here rest = some f := by
  induction n generalizing here rest f with
  | zero => exact along_congr (fun _ _ _ no => absurd no.symm (Option.some_ne_none _)) h seen
  | succ n ih => exact along_congr (fun _ _ _ walked same => ih walked same) h seen

/-- The names that a walk has gone through are directories. -/
def Reached (s : Files C) (here : Path) : Prop :=
  ∀ pre, pre <+: here → pre ≠ [] → s pre = some .dir

theorem reached_nil : Reached s [] := fun _ sub ne => absurd (List.prefix_nil.mp sub) ne

theorem Reached.of_le {here p : Path} (h : Reached s here) (sub : p <+: here) : Reached s p :=
  fun pre le ne => h pre (le.trans sub) ne

theorem Reached.enter {here : Path} {name : String} (h : Reached s here)
    (node : s (here ++ [name]) = some .dir) : Reached s (here ++ [name]) := by
  intro pre sub ne
  rcases List.prefix_concat_iff.mp sub with rfl | old
  · exact node
  · exact h pre old ne

/-- Everything a walk looks at is there, under directories. -/
theorem along_seen {jump : Path → List String → Option (Found C)}
    (far : ∀ here rest f, Reached s here → jump here rest = some f →
      ∀ p ∈ f.seen, s p ≠ none ∧ Reached s p.dropLast)
    {here : Path} {rest : List String} {f : Found C} (start : Reached s here)
    (h : along s jump here rest = some f) : ∀ p ∈ f.seen, s p ≠ none ∧ Reached s p.dropLast := by
  induction rest generalizing here f with
  | nil => cases h
  | cons name rest ih =>
    unfold along at h
    split at h
    · exact ih start h
    · split at h
      · exact ih (start.of_le ( List.dropLast_prefix here)) h
      · cases node : s (here ++ [name]) with
        | none => rw [node] at h; cases h
        | some v =>
          have first : s (here ++ [name]) ≠ none ∧ Reached s (here ++ [name]).dropLast := by
            rw [node, List.dropLast_concat]
            exact ⟨nofun, start⟩
          rw [node] at h
          cases v with
          | dir =>
            obtain ⟨g, walked, rfl⟩ := Option.map_eq_some_iff.mp h
            exact List.forall_mem_cons.mpr ⟨first, ih (start.enter node) walked⟩
          | file c =>
            dsimp only at h
            split at h
            · obtain rfl := Option.some.inj h
              exact List.forall_mem_singleton.mpr first
            · cases h
          | link dest =>
            obtain ⟨g, walked, rfl⟩ := Option.map_eq_some_iff.mp h
            refine List.forall_mem_cons.mpr ⟨first, far _ _ _ ?_ walked⟩
            split
            · exact reached_nil
            · exact start

theorem walk_seen {n : ℕ} {here : Path} {rest : List String} {f : Found C}
    (start : Reached s here) (h : walk s n here rest = some f) :
    ∀ p ∈ f.seen, s p ≠ none ∧ Reached s p.dropLast := by
  induction n generalizing here rest f with
  | zero => exact along_seen (fun _ _ _ _ no => absurd no.symm (Option.some_ne_none _)) start h
  | succ n ih => exact along_seen (fun _ _ _ begin walked => ih begin walked) start h

/-- A walk whose tree it never leaves goes the same way wherever the tree stands. -/
theorem within_walk {base : Path} {jump : Path → List String → Inside C}
    {jump' : Path → List String → Option (Found C)} (same : ∀ y, y ≠ [] → s (base ++ y) = t y)
    (far : ∀ here rest, jump here rest ≠ .out →
      jump' (base ++ here) rest = (jump here rest).toOption.map (·.below base))
    {here : Path} {rest : List String} (kept : within t jump here rest ≠ .out) :
    along s jump' (base ++ here) rest = (within t jump here rest).toOption.map (·.below base) := by
  induction rest generalizing here with
  | nil => rfl
  | cons name rest ih =>
    unfold within at kept ⊢
    unfold along
    split at kept
    · next dot => rw [if_pos dot, if_pos dot]; exact ih kept
    · next dot =>
      rw [if_neg dot, if_neg dot]
      split at kept
      · next up =>
        rw [if_pos up, if_pos up]
        split at kept
        · exact absurd rfl kept
        · next below =>
          rw [if_neg below, List.dropLast_append_of_ne_nil below]
          exact ih kept
      · next up =>
        have look : s (base ++ here ++ [name]) = t (here ++ [name]) := by
          rw [List.append_assoc]
          exact same _ (by simp)
        rw [if_neg up, if_neg up, look]
        cases node : t (here ++ [name]) with
        | none => rfl
        | some v =>
          rw [node] at kept
          cases v with
          | dir =>
            have := ih (Inside.ne_out_of_past kept)
            rw [← List.append_assoc] at this
            simp only [this, Inside.past_toOption, Option.map_map]
            congr 1
            funext f
            simp [Found.past_below]
          | file c =>
            dsimp only
            split
            · simp [Inside.toOption, Found.below]
            · rfl
          | link dest =>
            dsimp only at kept ⊢
            split at kept
            · exact absurd rfl kept
            · next relative =>
              rw [if_neg relative, if_neg relative, far _ _ (Inside.ne_out_of_past kept)]
              simp only [Inside.past_toOption, Option.map_map]
              congr 1
              funext f
              simp [Found.past_below]

theorem inside_walk {base : Path} (same : ∀ y, y ≠ [] → s (base ++ y) = t y) {n k : ℕ}
    {here : Path} {rest : List String} (kept : inside t n here rest ≠ .out) :
    walk s (n + k) (base ++ here) rest =
      (inside t n here rest).toOption.map (·.below base) := by
  induction n generalizing here rest with
  | zero =>
    cases k with
    | zero => exact within_walk same (fun _ _ no => absurd rfl no) kept
    | succ k => exact within_walk same (fun _ _ no => absurd rfl no) kept
  | succ n ih =>
    rw [Nat.add_right_comm]
    exact within_walk same (fun _ _ stays => ih stays) kept

/-- The directories a walk passes on its way. -/
def passed : Path → List String → List Path
  | _, [] => []
  | here, name :: names => (here ++ [name]) :: passed (here ++ [name]) names

theorem mem_passed {here p : Path} {names : List String} (mem : p ∈ passed here names) :
    ∃ pre, pre <+: names ∧ p = here ++ pre := by
  induction names generalizing here with
  | nil => cases mem
  | cons name names ih =>
    rcases List.mem_cons.mp mem with rfl | mem
    · exact ⟨[name], List.cons_prefix_cons.mpr ⟨rfl, List.nil_prefix⟩, rfl⟩
    · obtain ⟨pre, sub, rfl⟩ := ih mem
      exact ⟨name :: pre, List.cons_prefix_cons.mpr ⟨rfl, sub⟩, List.append_assoc here [name] pre⟩

def Found.after (ps : List Path) (f : Found C) : Found C := { f with seen := ps ++ f.seen }

theorem walk_dirs (n : ℕ) {here : Path} {names : List String} (rest : List String)
    (plain : ∀ c ∈ names, c ≠ "." ∧ c ≠ "..")
    (dirs : ∀ pre, pre <+: names → pre ≠ [] → s (here ++ pre) = some .dir) :
    walk s n here (names ++ rest) =
      (walk s n (here ++ names) rest).map (·.after (passed here names)) := by
  induction names generalizing here with
  | nil =>
    rw [List.append_nil, List.nil_append]
    cases walk s n here rest <;> rfl
  | cons name names ih =>
    obtain ⟨⟨dot, up⟩, plain⟩ := List.forall_mem_cons.mp plain
    have first := dirs [name] (List.cons_prefix_cons.mpr ⟨rfl, List.nil_prefix⟩) (by simp)
    have step : walk s n here (name :: (names ++ rest)) =
        (walk s n (here ++ [name]) (names ++ rest)).map (·.past (here ++ [name])) := by
      have one : ∀ jump, along s jump here (name :: (names ++ rest)) =
          (along s jump (here ++ [name]) (names ++ rest)).map (·.past (here ++ [name])) := by
        intro jump
        rw [along, if_neg dot, if_neg up, first]
      cases n with
      | zero => exact one _
      | succ n => exact one _
    rw [List.cons_append, step, @ih (here ++ [name]) plain fun pre sub _ => ?_]
    · rw [Option.map_map, List.append_assoc]
      rfl
    · rw [List.append_assoc]
      exact dirs (name :: pre) (List.cons_prefix_cons.mpr ⟨rfl, sub⟩) (by simp)

/-- A link at the end of a path sends the walk to its target. -/
theorem walk_link {n : ℕ} {here : Path} {name : String} {target : List String}
    (plain : name ≠ "." ∧ name ≠ "..")
    (node : s (here ++ [name]) = some (.link ⟨true, target⟩)) :
    walk s (n + 1) here [name] = (walk s n [] target).map (·.past (here ++ [name])) := by
  rw [walk, along, if_neg plain.1, if_neg plain.2, node]
  dsimp only
  rw [if_pos rfl, List.append_nil]

end Casa.LinkTree
