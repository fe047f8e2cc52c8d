import Casa.LinkTree

/-! Links that lead out of a tree. A walk follows the names of a path and the links it meets; a step
up is harmless where no link was passed before it, since the walk then stands where its names say. -/

namespace Casa.ConfinedLinks
open LinkTree (Path Target Node Files)

variable {C : Type}

/-- Where a walk ends: above its root, nowhere, at a place where nothing stands yet, or at an entry
of the tree. -/
inductive Place where
  | out
  | nothing
  | free (p : Path)
  | at (p : Path)
deriving DecidableEq

/-- From a depth the names never lead above the root. -/
def Deep : ℕ → List String → Prop
  | _, [] => True
  | k, name :: rest => if name = ".." then 0 < k ∧ Deep (k - 1) rest else Deep (k + 1) rest

section Walks
variable (s : Files C)

/-- The walk along names; `jump` goes on where a link sends it. -/
def stroll (jump : Path → List String → Place) : Path → List String → Place
  | here, [] => .at here
  | here, name :: rest =>
    if name = ".." then if here = [] then .out else stroll jump here.dropLast rest
    else match s (here ++ [name]) with
      | none => if rest = [] then .free (here ++ [name]) else .nothing
      | some .dir => stroll jump (here ++ [name]) rest
      | some (.file _) => if rest = [] then .at (here ++ [name]) else .nothing
      | some (.link dest) => if dest.absolute then .out else jump here (dest.parts ++ rest)

/-- The walk through at most `n` links. -/
def goes : ℕ → Path → List String → Place
  | 0 => stroll s fun _ _ => .nothing
  | n + 1 => stroll s (goes n)

def IsLink (p : Path) : Prop := ∃ dest, s p = some (.link dest)

/-- No link stands, by the names, where a step up follows. -/
def Unlinked : Path → List String → Prop
  | _, [] => True
  | here, name :: rest =>
    if name = ".." then Unlinked here.dropLast rest
    else (".." ∈ rest → ¬ IsLink s (here ++ [name])) ∧ Unlinked (here ++ [name]) rest

/-- Every link is relative, stays by its names below the root, and takes no step up behind a
link. -/
def Confined : Prop :=
  ∀ p name dest, s (p ++ [name]) = some (.link dest) →
    dest.absolute = false ∧ Deep p.length dest.parts ∧ Unlinked s p dest.parts

end Walks

variable {s s' : Files C}

theorem deep_of_plain {names : List String} (plain : ".." ∉ names) (k : ℕ) : Deep k names := by
  induction names generalizing k with
  | nil => trivial
  | cons name rest ih =>
    simp only [List.mem_cons, not_or] at plain
    rw [Deep, if_neg (Ne.symm plain.1)]
    exact ih plain.2 _

theorem deep_append {names rest : List String} {k : ℕ} (deep : Deep k names)
    (plain : ".." ∉ rest) : Deep k (names ++ rest) := by
  induction names generalizing k with
  | nil => exact deep_of_plain plain k
  | cons name names ih =>
    rw [List.cons_append]
    unfold Deep at deep ⊢
    split
    · next up =>
      rw [if_pos up] at deep
      exact ⟨deep.1, ih deep.2⟩
    · next up =>
      rw [if_neg up] at deep
      exact ih deep

/-- Names that go down first count for the depth they reach. -/
theorem deep_of_append {names rest : List String} (plain : ".." ∉ names) {k : ℕ}
    (deep : Deep k (names ++ rest)) : Deep (k + names.length) rest := by
  induction names generalizing k with
  | nil => exact deep
  | cons name names ih =>
    simp only [List.mem_cons, not_or] at plain
    rw [List.cons_append, Deep, if_neg (Ne.symm plain.1)] at deep
    have tail : Deep (k + 1 + names.length) rest := ih plain.2 deep
    rwa [List.length_cons, Nat.add_comm names.length, ← Nat.add_assoc]

theorem unlinked_of_plain {names : List String} (plain : ".." ∉ names) (here : Path) :
    Unlinked s here names := by
  induction names generalizing here with
  | nil => trivial
  | cons name rest ih =>
    simp only [List.mem_cons, not_or] at plain
    rw [Unlinked, if_neg (Ne.symm plain.1)]
    exact ⟨fun up => absurd up plain.2, ih plain.2 _⟩

theorem unlinked_append {names rest : List String} {here : Path} (clear : Unlinked s here names)
    (plain : ".." ∉ rest) : Unlinked s here (names ++ rest) := by
  induction names generalizing here with
  | nil => exact unlinked_of_plain plain here
  | cons name names ih =>
    rw [List.cons_append]
    unfold Unlinked at clear ⊢
    split
    · next up =>
      rw [if_pos up] at clear
      exact ih clear
    · next up =>
      rw [if_neg up] at clear
      refine ⟨fun later => clear.1 ?_, ih clear.2⟩
      exact (List.mem_append.1 later).resolve_right plain

theorem unlinked_of_append {names rest : List String} (plain : ".." ∉ names) {here : Path}
    (clear : Unlinked s here (names ++ rest)) : Unlinked s (here ++ names) rest := by
  induction names generalizing here with
  | nil => simpa using clear
  | cons name names ih =>
    simp only [List.mem_cons, not_or] at plain
    rw [List.cons_append, Unlinked, if_neg (Ne.symm plain.1)] at clear
    simpa using ih plain.2 clear.2

/-- With a step up behind them, the names that go down first are no links. -/
theorem unlinked_prefix {names rest : List String} (plain : ".." ∉ names) (up : ".." ∈ rest)
    {here : Path} (clear : Unlinked s here (names ++ rest)) {pre : List String} (le : pre <+: names)
    (some_ : pre ≠ []) : ¬ IsLink s (here ++ pre) := by
  induction names generalizing here pre with
  | nil => exact absurd (List.prefix_nil.1 le) some_
  | cons name names ih =>
    simp only [List.mem_cons, not_or] at plain
    rw [List.cons_append, Unlinked, if_neg (Ne.symm plain.1)] at clear
    cases pre with
    | nil => exact absurd rfl some_
    | cons first pre =>
      obtain ⟨rfl, less⟩ := List.cons_prefix_cons.1 le
      by_cases end_ : pre = []
      · rw [end_]
        exact clear.1 (List.mem_append_right _ up)
      · simpa using ih plain.2 clear.2 less end_

theorem Unlinked.mono (fewer : ∀ p, IsLink s' p → IsLink s p) {here : Path} {names : List String}
    (clear : Unlinked s here names) : Unlinked s' here names := by
  induction names generalizing here with
  | nil => trivial
  | cons name names ih =>
    unfold Unlinked at clear ⊢
    split
    · next up =>
      rw [if_pos up] at clear
      exact ih clear
    · next up =>
      rw [if_neg up] at clear
      exact ⟨fun later link => clear.1 later (fewer _ link), ih clear.2⟩

/-- A walk by names along which no link stands before a step up does not leave the tree. -/
theorem stroll_ne_out {jump : Path → List String → Place}
    (confined : Confined s)
    (far : ∀ here rest, Deep here.length rest → Unlinked s here rest → jump here rest ≠ .out)
    {here : Path} {rest : List String} (deep : Deep here.length rest)
    (clear : Unlinked s here rest) : stroll s jump here rest ≠ .out := by
  induction rest generalizing here with
  | nil => simp [stroll]
  | cons name rest ih =>
    unfold stroll
    by_cases up : name = ".."
    · rw [Deep, if_pos up] at deep
      rw [Unlinked, if_pos up] at clear
      have inside : here ≠ [] := List.ne_nil_of_length_pos deep.1
      rw [if_pos up, if_neg inside]
      exact ih (by rw [List.length_dropLast]; exact deep.2) clear
    · rw [Deep, if_neg up] at deep
      rw [Unlinked, if_neg up] at clear
      rw [if_neg up]
      have down : Deep (here ++ [name]).length rest := by simpa using deep
      cases node : s (here ++ [name]) with
      | none => by_cases end_ : rest = [] <;> simp [end_]
      | some v =>
        cases v with
        | dir => exact ih down clear.2
        | file c => by_cases end_ : rest = [] <;> simp [end_]
        | link dest =>
          obtain ⟨relative, below, free⟩ := confined here name dest node
          have plain : ".." ∉ rest := fun later => clear.1 later ⟨dest, node⟩
          simp only [relative, Bool.false_eq_true, if_false]
          exact far here _ (deep_append below plain) (unlinked_append free plain)

theorem goes_ne_out (confined : Confined s) (n : ℕ) {here : Path} {rest : List String}
    (deep : Deep here.length rest) (clear : Unlinked s here rest) : goes s n here rest ≠ .out := by
  induction n generalizing here rest with
  | zero => exact stroll_ne_out confined (fun _ _ _ _ => by simp) deep clear
  | succ n ih => exact stroll_ne_out confined (fun _ _ => ih) deep clear

/-- A walk down that meets no link ends where its names say. -/
theorem stroll_plain {jump : Path → List String → Place} {names : List String}
    (plain : ".." ∉ names) {here : Path}
    (free : ∀ pre, pre <+: names → pre ≠ [] → ¬ IsLink s (here ++ pre)) {p : Path}
    (ends : stroll s jump here names = .at p) : p = here ++ names := by
  induction names generalizing here with
  | nil => simpa [stroll, eq_comm] using ends
  | cons name names ih =>
    simp only [List.mem_cons, not_or] at plain
    have next (pre : List String) (le : pre <+: names) (some_ : pre ≠ []) :
        ¬ IsLink s (here ++ [name] ++ pre) := by
      simpa using free (name :: pre) (List.cons_prefix_cons.2 ⟨rfl, le⟩) (by simp)
    unfold stroll at ends
    rw [if_neg (Ne.symm plain.1)] at ends
    cases node : s (here ++ [name]) with
    | none =>
      rw [node] at ends
      by_cases end_ : names = [] <;> simp [end_] at ends
    | some v =>
      rw [node] at ends
      cases v with
      | dir => simpa using ih plain.2 next ends
      | file c => by_cases end_ : names = [] <;> simp_all
      | link dest =>
        exact absurd ⟨dest, node⟩ (free [name] (List.cons_prefix_cons.2 ⟨rfl, List.nil_prefix⟩)
          (by simp))

theorem goes_plain {n : ℕ} {names : List String} (plain : ".." ∉ names) {here : Path}
    (free : ∀ pre, pre <+: names → pre ≠ [] → ¬ IsLink s (here ++ pre)) {p : Path}
    (ends : goes s n here names = .at p) : p = here ++ names := by
  cases n with
  | zero => exact stroll_plain plain free ends
  | succ n => exact stroll_plain plain free ends

/-- No new link, no way out. -/
theorem Confined.mono (confined : Confined s)
    (fewer : ∀ p dest, s' p = some (.link dest) → s p = some (.link dest)) : Confined s' := by
  intro p name dest node
  obtain ⟨relative, deep, clear⟩ := confined p name dest (fewer _ dest node)
  exact ⟨relative, deep, clear.mono fun q ⟨d, link⟩ => ⟨d, fewer q d link⟩⟩

/-- A new link is no way out where it stays below the root, and no link passes another before a step
up, the new one included. -/
theorem Confined.put (confined : Confined s) {here : Path} {name : String} {dest : Target}
    (relative : dest.absolute = false) (deep : Deep here.length dest.parts)
    (clear : ∀ p x d, Function.update s (here ++ [name]) (some (.link dest)) (p ++ [x]) =
      some (.link d) → Unlinked (Function.update s (here ++ [name]) (some (.link dest))) p d.parts) :
    Confined (Function.update s (here ++ [name]) (some (.link dest))) := by
  intro p x d node
  have free := clear p x d node
  by_cases same : p ++ [x] = here ++ [name]
  · obtain ⟨rfl, -⟩ := List.append_inj' same rfl
    rw [same, Function.update_self, Option.some.injEq, Node.link.injEq] at node
    subst node
    exact ⟨relative, deep, free⟩
  · rw [Function.update_of_ne same] at node
    obtain ⟨relative', deep', -⟩ := confined p x d node
    exact ⟨relative', deep', free⟩

end Casa.ConfinedLinks
