import Mathlib.Data.Finset.Basic
import Mathlib.Data.Fintype.EquivFin
import Mathlib.Logic.Relation
import Mathlib.Order.WellFounded

/-! The bounded walk over a loaded object graph, `_walkable`: a stack of nodes to visit with a
marker for each container that is left, and the set of the containers that are open. -/

namespace Casa.ObjectWalk

/-- A loaded object: containers refer to others, and only the values of a mapping are walked. -/
inductive Shape (K N : Type) where
  | dict (items : List (K × N))
  | list (items : List N)
  | tuple (items : List N)
  | set (items : List N)
  | scalar

variable {K N : Type}

def Shape.members : Shape K N → Option (List N)
  | .dict items => some (items.map Prod.snd)
  | .list items => some items
  | .tuple items => some items
  | .set items => some items
  | .scalar => none

def maxExpandedNodes : ℕ := 100000

/-- The loop's variables; the head of `stack` is its top. -/
structure State (N : Type) where
  budget : ℕ
  onPath : Finset N
  stack : List (N × Bool)

section Walk
variable [DecidableEq N] (heap : N → Shape K N)

def start (root : N) : State N := ⟨maxExpandedNodes, ∅, [(root, false)]⟩

def entering (nodes : List N) : List (N × Bool) := nodes.map fun n => (n, false)

def step (s : State N) : State N ⊕ Bool :=
  match s.stack with
  | [] => .inr true
  | (node, true) :: rest => .inl { s with onPath := s.onPath.erase node, stack := rest }
  | (node, false) :: rest =>
      match s.budget with
      | 0 => .inr false
      | budget + 1 =>
          match (heap node).members with
          | none => .inl { s with budget, stack := rest }
          | some values =>
              if node ∈ s.onPath then .inr false
              else .inl ⟨budget, insert node s.onPath,
                entering values.reverse ++ (node, true) :: rest⟩

theorem step_smaller {s s' : State N} (stepped : step heap s = .inl s') :
    s'.budget < s.budget ∨ s'.budget = s.budget ∧ s'.stack.length < s.stack.length := by
  obtain ⟨budget, onPath, stack⟩ := s
  unfold step at stepped
  split at stepped
  · cases stepped
  · next node rest is =>
    obtain rfl := Sum.inl.inj stepped
    obtain rfl : stack = _ := is
    exact .inr ⟨rfl, Nat.lt_succ_self _⟩
  · split at stepped
    · cases stepped
    · next budget' is =>
      obtain rfl : budget = budget' + 1 := is
      split at stepped
      · obtain rfl := Sum.inl.inj stepped
        exact .inl (Nat.lt_succ_self _)
      · split at stepped
        · cases stepped
        · obtain rfl := Sum.inl.inj stepped
          exact .inl (Nat.lt_succ_self _)

/-- The loop, which ends: a visit takes from the budget, and a marker is only taken away. -/
def run (s : State N) : Bool :=
  match _next : step heap s with
  | .inr result => result
  | .inl s' => run s'
termination_by (s.budget, s.stack.length)
decreasing_by
  rcases step_smaller heap _next with less | ⟨same, less⟩
  · exact .left _ _ less
  · rw [same]
    exact .right _ less

def walkable (root : N) : Bool := run heap (start root)

inductive Finishes : State N → Bool → Prop
  | now {s b} : step heap s = .inr b → Finishes s b
  | later {s s' b} : step heap s = .inl s' → Finishes s' b → Finishes s b

theorem run_of_done {s : State N} {b : Bool} (done : step heap s = .inr b) : run heap s = b := by
  rw [run]
  split <;> simp_all

theorem run_of_step {s s' : State N} (stepped : step heap s = .inl s') :
    run heap s = run heap s' := by
  rw [run]
  split <;> simp_all

theorem finishes_run (s : State N) : Finishes heap s (run heap s) := by
  induction s using run.induct heap with
  | case1 s result done => exact run_of_done heap done ▸ .now done
  | case2 s s' stepped ih => exact run_of_step heap stepped ▸ .later stepped ih

end Walk

/-! ### The expanded tree -/

section Expanded
variable (heap : N → Shape K N)

/-- `n` is a value in the container `m`. -/
def Holds (m n : N) : Prop := ∃ values, (heap m).members = some values ∧ n ∈ values

/-- `n` is reachable from `m` through values, in one step at least. -/
def Inside : N → N → Prop := Relation.TransGen (Holds heap)

/-- The trees that the nodes expand to, a shared node once for each reference, have `k` nodes. -/
inductive Expands : List N → ℕ → Prop
  | nil : Expands [] 0
  | scalar {n ns k} : (heap n).members = none → Expands ns k → Expands (n :: ns) (k + 1)
  | container {n ns values j k} : (heap n).members = some values → Expands values j →
      Expands ns k → Expands (n :: ns) (j + k + 1)

variable {heap}

theorem Expands.cons_inv {n : N} {ns : List N} {k : ℕ} (h : Expands heap (n :: ns) k) :
    ∃ i j, k = i + j ∧ 0 < i ∧ Expands heap [n] i ∧ Expands heap ns j := by
  cases h with
  | @scalar _ _ j plain rest => exact ⟨1, j, by omega, by omega, .scalar plain .nil, rest⟩
  | @container _ _ values i j holds inner rest =>
    exact ⟨i + 1, j, by omega, by omega, .container holds inner .nil, rest⟩

theorem Expands.cons {n : N} {ns : List N} {i j : ℕ} (first : Expands heap [n] i)
    (rest : Expands heap ns j) : Expands heap (n :: ns) (i + j) := by
  cases first with
  | scalar plain none_ =>
    cases none_
    rw [Nat.add_comm]
    exact .scalar plain rest
  | @container _ _ values i _ holds inner none_ =>
    cases none_
    have total : i + 0 + 1 + j = i + j + 1 := by omega
    rw [total]
    exact .container holds inner rest

theorem Expands.perm {ns ms : List N} (same : ns.Perm ms) {k : ℕ} (h : Expands heap ns k) :
    Expands heap ms k := by
  induction same generalizing k with
  | nil => exact h
  | cons n _ ih =>
    obtain ⟨i, j, rfl, -, first, rest⟩ := h.cons_inv
    exact first.cons (ih rest)
  | swap m n ns =>
    obtain ⟨i, j, rfl, -, first, rest⟩ := h.cons_inv
    obtain ⟨i', j', rfl, -, second, rest⟩ := rest.cons_inv
    have total : i + (i' + j') = i' + (i + j') := by omega
    rw [total]
    exact second.cons (first.cons rest)
  | trans _ _ ih ih' => exact ih' (ih h)

theorem Expands.mem {n : N} {ns : List N} {k : ℕ} (h : Expands heap ns k) (mem : n ∈ ns) :
    ∃ i ≤ k, Expands heap [n] i := by
  induction ns generalizing k with
  | nil => cases mem
  | cons m ns ih =>
    obtain ⟨i, j, rfl, -, first, rest⟩ := h.cons_inv
    rcases List.mem_cons.mp mem with rfl | mem
    · exact ⟨i, by omega, first⟩
    · obtain ⟨i', le, is⟩ := ih rest mem
      exact ⟨i', by omega, is⟩

theorem Expands.inside {m n : N} (inside : Inside heap m n) {k : ℕ} (h : Expands heap [m] k) :
    ∃ i < k, Expands heap [n] i := by
  induction inside with
  | single holds =>
    obtain ⟨values, is, mem⟩ := holds
    cases h with
    | scalar plain _ => simp [plain] at is
    | container is' inner _ =>
      obtain rfl := Option.some.inj (is.symm.trans is')
      obtain ⟨i, le, tree⟩ := inner.mem mem
      exact ⟨i, by omega, tree⟩
  | tail _ holds ih =>
    obtain ⟨j, less, tree⟩ := ih
    obtain ⟨values, is, mem⟩ := holds
    cases tree with
    | scalar plain _ => simp [plain] at is
    | container is' inner _ =>
      obtain rfl := Option.some.inj (is.symm.trans is')
      obtain ⟨i, le, tree⟩ := inner.mem mem
      exact ⟨i, by omega, tree⟩

theorem Expands.unique {ns : List N} {k l : ℕ} (h : Expands heap ns k) (h' : Expands heap ns l) :
    k = l := by
  induction h generalizing l with
  | nil =>
    cases h'
    rfl
  | scalar plain _ ih =>
    cases h' with
    | scalar _ rest => rw [ih rest]
    | container is _ _ => simp [plain] at is
  | container is _ _ ih ih' =>
    cases h' with
    | scalar plain _ => simp [plain] at is
    | container is' inner rest =>
      obtain rfl := Option.some.inj (is.symm.trans is')
      rw [ih inner, ih' rest]

theorem Expands.acyclic {n : N} {k : ℕ} (h : Expands heap [n] k) : ¬Inside heap n n := by
  intro cycle
  obtain ⟨i, less, again⟩ := h.inside cycle
  exact absurd (h.unique again) (by omega)

theorem expands_all {ns : List N} (each : ∀ n ∈ ns, ∃ k, Expands heap [n] k) :
    ∃ k, Expands heap ns k := by
  induction ns with
  | nil => exact ⟨0, .nil⟩
  | cons n ns ih =>
    obtain ⟨i, first⟩ := each n List.mem_cons_self
    obtain ⟨j, rest⟩ := ih fun m mem => each m (List.mem_cons_of_mem _ mem)
    exact ⟨i + j, first.cons rest⟩

theorem expands_of_acyclic [Finite N] {root : N}
    (acyclic : ∀ n, Relation.ReflTransGen (Holds heap) root n → ¬Inside heap n n) :
    ∃ k, Expands heap [root] k := by
  let below : {n // Relation.ReflTransGen (Holds heap) root n} →
      {n // Relation.ReflTransGen (Holds heap) root n} → Prop := fun n m => Inside heap m n
  have trans_ : IsTrans _ below := ⟨fun _ _ _ h h' => Relation.TransGen.trans h' h⟩
  have irrefl : Std.Irrefl below := ⟨fun n => acyclic n n.2⟩
  have founded : WellFounded below := Finite.wellFounded_of_trans_of_irrefl below
  have all : ∀ n : {n // Relation.ReflTransGen (Holds heap) root n}, ∃ k, Expands heap [n.1] k := by
    intro n
    induction n using founded.induction with
    | h n ih =>
      cases is : (heap n.1).members with
      | none => exact ⟨1, .scalar is .nil⟩
      | some values =>
        have each : ∀ v ∈ values, ∃ k, Expands heap [v] k := by
          intro v mem
          have holds : Holds heap n.1 v := ⟨values, is, mem⟩
          exact ih ⟨v, n.2.tail holds⟩ (.single holds)
        obtain ⟨k, inner⟩ := expands_all each
        exact ⟨k + 0 + 1, .container is inner .nil⟩
  exact all ⟨root, .refl⟩

end Expanded

section Exact
variable [DecidableEq N] {heap : N → Shape K N} {budget : ℕ} {onPath : Finset N}
  {stack : List (N × Bool)}

theorem run_nil : run heap ⟨budget, onPath, []⟩ = true := run_of_done heap rfl

theorem run_leave (n : N) : run heap ⟨budget, onPath, (n, true) :: stack⟩ =
    run heap ⟨budget, onPath.erase n, stack⟩ := run_of_step heap rfl

theorem run_spent (n : N) : run heap ⟨0, onPath, (n, false) :: stack⟩ = false :=
  run_of_done heap rfl

theorem run_scalar {n : N} (plain : (heap n).members = none) :
    run heap ⟨budget + 1, onPath, (n, false) :: stack⟩ = run heap ⟨budget, onPath, stack⟩ := by
  refine run_of_step heap ?_
  simp [step, plain]

theorem run_cycle {n : N} {values : List N} (is : (heap n).members = some values)
    (open_ : n ∈ onPath) : run heap ⟨budget + 1, onPath, (n, false) :: stack⟩ = false := by
  refine run_of_done heap ?_
  simp [step, is, open_]

theorem run_container {n : N} {values : List N} (is : (heap n).members = some values)
    (apart : n ∉ onPath) : run heap ⟨budget + 1, onPath, (n, false) :: stack⟩ =
      run heap ⟨budget, insert n onPath, entering values.reverse ++ (n, true) :: stack⟩ := by
  refine run_of_step heap ?_
  simp [step, is, apart]

theorem expands_of_run {ns : List N}
    (passed : run heap ⟨budget, onPath, entering ns ++ stack⟩ = true) : ∃ k ≤ budget,
      Expands heap ns k ∧ run heap ⟨budget - k, onPath, stack⟩ = true := by
  induction budget using Nat.strongRecOn generalizing ns onPath stack with
  | ind budget ih =>
    cases ns with
    | nil => exact ⟨0, Nat.zero_le _, .nil, passed⟩
    | cons n ns =>
      rw [entering, List.map_cons, List.cons_append, ← entering] at passed
      cases budget with
      | zero => simp [run_spent] at passed
      | succ budget =>
        cases is : (heap n).members with
        | none =>
          rw [run_scalar is] at passed
          obtain ⟨k, le, trees, rest⟩ := ih budget (Nat.lt_succ_self _) passed
          exact ⟨k + 1, by omega, .scalar is trees, by rwa [Nat.add_sub_add_right]⟩
        | some values =>
          by_cases open_ : n ∈ onPath
          · simp [run_cycle is open_] at passed
          · rw [run_container is open_] at passed
            obtain ⟨j, le, inner, rest⟩ := ih budget (Nat.lt_succ_self _) passed
            rw [run_leave, Finset.erase_insert open_] at rest
            obtain ⟨k, le', trees, rest⟩ := ih (budget - j) (by omega) rest
            refine ⟨j + k + 1, by omega, .container is (inner.perm values.reverse_perm) trees, ?_⟩
            have left : budget + 1 - (j + k + 1) = budget - j - k := by omega
            rwa [left]

theorem run_of_expands {ns : List N} {k : ℕ} (trees : Expands heap ns k)
    (apart : ∀ m ∈ onPath, ∀ n ∈ ns, Inside heap m n) :
    run heap ⟨budget, onPath, entering ns ++ stack⟩ =
      if k ≤ budget then run heap ⟨budget - k, onPath, stack⟩ else false := by
  induction k using Nat.strongRecOn generalizing ns budget onPath stack with
  | ind k ih =>
    cases trees with
    | nil => rfl
    | @scalar n ns k plain rest =>
      rw [entering, List.map_cons, List.cons_append, ← entering]
      cases budget with
      | zero => simp [run_spent]
      | succ budget =>
        have later : ∀ m ∈ onPath, ∀ n ∈ ns, Inside heap m n :=
          fun m mem n mem' => apart m mem n (List.mem_cons_of_mem _ mem')
        rw [run_scalar plain, ih k (Nat.lt_succ_self _) rest later, Nat.add_sub_add_right]
        simp
    | @container n ns values j k is inner rest =>
      rw [entering, List.map_cons, List.cons_append, ← entering]
      cases budget with
      | zero => simp [run_spent]
      | succ budget =>
        have here : Expands heap [n] (j + 0 + 1) := .container is inner .nil
        have closed : n ∉ onPath :=
          fun mem => here.acyclic (apart n mem n List.mem_cons_self)
        have later : ∀ m ∈ onPath, ∀ n ∈ ns, Inside heap m n :=
          fun m mem n mem' => apart m mem n (List.mem_cons_of_mem _ mem')
        have within : ∀ m ∈ insert n onPath, ∀ v ∈ values.reverse, Inside heap m v := by
          intro m mem v mem'
          have holds : Holds heap n v := ⟨values, is, List.mem_reverse.mp mem'⟩
          rcases Finset.mem_insert.mp mem with rfl | mem
          · exact .single holds
          · exact (apart m mem n List.mem_cons_self).tail holds
        rw [run_container is closed, ih j (by omega) (inner.perm values.reverse_perm.symm) within,
          run_leave, Finset.erase_insert closed, ih k (by omega) rest later]
        have left : budget + 1 - (j + k + 1) = budget - j - k := by omega
        by_cases paid : j + k + 1 ≤ budget + 1
        · rw [if_pos (by omega), if_pos (by omega), if_pos paid, left]
        · rw [if_neg paid]
          by_cases some_ : j ≤ budget
          · rw [if_pos some_, if_neg (by omega)]
          · rw [if_neg some_]

theorem walkable_iff {root : N} :
    walkable heap root = true ↔ ∃ k ≤ maxExpandedNodes, Expands heap [root] k := by
  have begin_ : start root = ⟨maxExpandedNodes, ∅, entering [root] ++ []⟩ := rfl
  unfold walkable
  constructor
  · intro passed
    rw [begin_] at passed
    obtain ⟨k, le, tree, -⟩ := expands_of_run passed
    exact ⟨k, le, tree⟩
  · rintro ⟨k, le, tree⟩
    rw [begin_, run_of_expands tree (by simp), if_pos le, run_nil]

end Exact

/-! ### The ancestors -/

section Ancestors
variable (heap : N → Shape K N) (root : N)

def Ancestors : List N → N → Prop
  | [], n => n = root
  | m :: path, n => Holds heap m n ∧ Ancestors path m

def opened (stack : List (N × Bool)) : List N :=
  stack.filterMap fun entry => if entry.2 then some entry.1 else none

def Stacked : List (N × Bool) → Prop
  | [] => True
  | (n, _) :: rest => Ancestors heap root (opened rest) n ∧ Stacked rest

structure Walked (s : State N) : Prop where
  open_ : ∀ m, m ∈ s.onPath ↔ m ∈ opened s.stack
  nodup : (opened s.stack).Nodup
  stacked : Stacked heap root s.stack

variable {heap root}

theorem opened_entering (values : List N) (stack : List (N × Bool)) :
    opened (entering values ++ stack) = opened stack := by
  simp [opened, entering, List.filterMap_append, List.filterMap_map]

@[simp] theorem opened_marker (n : N) (stack : List (N × Bool)) :
    opened ((n, true) :: stack) = n :: opened stack := by simp [opened]

@[simp] theorem opened_visit (n : N) (stack : List (N × Bool)) :
    opened ((n, false) :: stack) = opened stack := by simp [opened]

theorem stacked_entering {values : List N} {stack : List (N × Bool)}
    (under : ∀ v ∈ values, Ancestors heap root (opened stack) v) (h : Stacked heap root stack) :
    Stacked heap root (entering values ++ stack) := by
  induction values with
  | nil => exact h
  | cons v values ih =>
    obtain ⟨first, rest⟩ := List.forall_mem_cons.mp under
    refine ⟨?_, ih rest⟩
    have same : opened (entering values ++ stack) = opened stack := opened_entering values stack
    exact same ▸ first

variable [DecidableEq N]

theorem walked_step {s s' : State N} (stepped : step heap s = .inl s') (h : Walked heap root s) :
    Walked heap root s' := by
  obtain ⟨budget, onPath, stack⟩ := s
  obtain ⟨open_, nodup, stacked⟩ := h
  dsimp only at open_ nodup stacked
  unfold step at stepped
  split at stepped
  · cases stepped
  · next n rest is =>
    obtain rfl := Sum.inl.inj stepped
    obtain rfl : stack = _ := is
    rw [opened_marker, List.nodup_cons] at nodup
    refine ⟨fun m => ?_, nodup.2, stacked.2⟩
    rw [Finset.mem_erase, open_, opened_marker, List.mem_cons]
    constructor
    · exact fun mem => mem.2.resolve_left mem.1
    · exact fun mem => ⟨fun same => nodup.1 (same ▸ mem), .inr mem⟩
  · next n rest is =>
    obtain rfl : stack = _ := is
    rw [opened_visit] at nodup
    simp only [opened_visit] at open_
    split at stepped
    · cases stepped
    · split at stepped
      · obtain rfl := Sum.inl.inj stepped
        exact ⟨open_, nodup, stacked.2⟩
      · next values holds =>
        split at stepped
        · cases stepped
        · next closed =>
          obtain rfl := Sum.inl.inj stepped
          have markers : opened (entering values.reverse ++ (n, true) :: rest) =
              n :: opened rest := by rw [opened_entering, opened_marker]
          refine ⟨fun m => ?_, ?_, stacked_entering (fun v mem => ?_) stacked⟩
          · rw [markers, Finset.mem_insert, List.mem_cons, open_]
          · rw [markers, List.nodup_cons, ← open_]
            exact ⟨closed, nodup⟩
          · rw [opened_marker]
            exact ⟨⟨values, holds, List.mem_reverse.mp mem⟩, stacked.1⟩

variable (heap root)

def Reached : State N → Prop :=
  Relation.ReflTransGen (fun s s' => step heap s = .inl s') (start root)

variable {heap root}

theorem walked_reached {s : State N} (reached : Reached heap root s) : Walked heap root s := by
  induction reached with
  | refl => exact ⟨by simp [start, opened], by simp [start, opened], rfl, trivial⟩
  | tail _ stepped ih => exact walked_step stepped ih

end Ancestors

/-- On a finite graph the walk ends; it says yes where nothing reachable is inside itself and the
expanded tree, which then is finite, has no more nodes than the budget; and whenever it comes to a
node, the open containers are the ancestors it comes from. -/
theorem walkable_exact [DecidableEq N] [Finite N] (heap : N → Shape K N) (root : N) :
    Finishes heap (start root) (walkable heap root) ∧
    (walkable heap root = true ↔
      (∀ n, Relation.ReflTransGen (Holds heap) root n → ¬Inside heap n n) ∧
        ∀ k, Expands heap [root] k → k ≤ maxExpandedNodes) ∧
    ((∀ n, Relation.ReflTransGen (Holds heap) root n → ¬Inside heap n n) →
      ∃! k, Expands heap [root] k) ∧
    ∀ s n rest, Reached heap root s → s.stack = (n, false) :: rest →
      ∃ path, Ancestors heap root path n ∧ path.Nodup ∧ ∀ m, m ∈ s.onPath ↔ m ∈ path := by
  have acyclic : ∀ k, Expands heap [root] k →
      ∀ n, Relation.ReflTransGen (Holds heap) root n → ¬Inside heap n n := by
    intro k tree n reach
    rcases Relation.reflTransGen_iff_eq_or_transGen.mp reach with rfl | inside
    · exact tree.acyclic
    · obtain ⟨i, -, below⟩ := tree.inside inside
      exact below.acyclic
  refine ⟨finishes_run heap _, ?_, ?_, ?_⟩
  · rw [walkable_iff]
    constructor
    · rintro ⟨k, le, tree⟩
      exact ⟨acyclic k tree, fun l tree' => tree.unique tree' ▸ le⟩
    · rintro ⟨free, bound⟩
      obtain ⟨k, tree⟩ := expands_of_acyclic free
      exact ⟨k, bound k tree, tree⟩
  · intro free
    obtain ⟨k, tree⟩ := expands_of_acyclic free
    exact ⟨k, tree, fun l tree' => tree'.unique tree⟩
  · intro s n rest reached is
    obtain ⟨open_, nodup, stacked⟩ := walked_reached reached
    rw [is, opened_visit] at nodup
    rw [is] at stacked
    exact ⟨opened rest, stacked.1, nodup, fun m => by rw [open_, is, opened_visit]⟩

/-- A list that is its own item is refused. -/
theorem alias_refused :
    walkable (fun _ : Fin 1 => (.list [0] : Shape Empty (Fin 1))) 0 = false := by
  rw [← Bool.not_eq_true]
  intro passed
  have free := ((walkable_exact _ _).2.1.mp passed).1 0 .refl
  exact free (.single ⟨[0], rfl, List.mem_singleton_self 0⟩)

end Casa.ObjectWalk
