import Mathlib.Data.List.Nodup
import Mathlib.Data.List.Perm.Basic
import Mathlib.Data.List.Perm.Lattice

/-! Insertion-ordered tables whose rows carry their own key, the shape of a
dictionary that is only ever written as `table[row.key] = row`. Overwriting a
key keeps the row's position, a fresh key goes last, and no key occurs twice. -/

namespace Casa.KeyedTable

/-- Rows in insertion order; `nodup` is the dictionary law. -/
structure Table {K V : Type} (key : V → K) where
  rows : List V
  nodup : (rows.map key).Nodup

@[ext] theorem Table.ext {K V : Type} {key : V → K} {t u : Table key}
    (h : t.rows = u.rows) : t = u := by
  cases t
  cases u
  subst h
  rfl

variable {K V : Type} [DecidableEq K] {key : V → K}

def insertRow (key : V → K) (v : V) : List V → List V
  | [] => [v]
  | w :: rest => if key w = key v then v :: rest else w :: insertRow key v rest

theorem insertRow_of_mem {v : V} {rows : List V} (h : key v ∈ rows.map key) :
    (insertRow key v rows).map key = rows.map key := by
  induction rows with
  | nil => simp at h
  | cons w rest ih =>
    by_cases same : key w = key v
    · simp [insertRow, same]
    · have tail : key v ∈ rest.map key := by
        simpa [Ne.symm same] using h
      simp [insertRow, same, ih tail]

theorem insertRow_of_not_mem {v : V} {rows : List V} (h : key v ∉ rows.map key) :
    insertRow key v rows = rows ++ [v] := by
  induction rows with
  | nil => rfl
  | cons w rest ih =>
    rw [List.map_cons, List.mem_cons, not_or] at h
    simp [insertRow, Ne.symm h.1, ih h.2]

theorem nodup_insertRow {v : V} {rows : List V} (h : (rows.map key).Nodup) :
    ((insertRow key v rows).map key).Nodup := by
  by_cases present : key v ∈ rows.map key
  · rwa [insertRow_of_mem present]
  · rw [insertRow_of_not_mem present, List.map_append, List.map_singleton]
    exact h.append (List.nodup_singleton _) (by simpa using present)

namespace Table

def empty : Table key := ⟨[], List.nodup_nil⟩

def get? (t : Table key) (k : K) : Option V := t.rows.find? (fun v => key v = k)

def put (t : Table key) (v : V) : Table key := ⟨insertRow key v t.rows, nodup_insertRow t.nodup⟩

def remove (t : Table key) (k : K) : Table key :=
  ⟨t.rows.filter (fun v => key v ≠ k), t.nodup.sublist (List.filter_sublist.map key)⟩

/-- Drop the rows that fail `keep`. -/
def filter (t : Table key) (keep : V → Bool) : Table key :=
  ⟨t.rows.filter keep, t.nodup.sublist (List.filter_sublist.map key)⟩

/-- Rewrite every row in place; `h` says the rewriting never moves a key. -/
def revise (t : Table key) (f : V → V) (h : ∀ v, key (f v) = key v) : Table key :=
  ⟨t.rows.map f, by
    have same : (t.rows.map f).map key = t.rows.map key := by simp [h]
    rw [same]
    exact t.nodup⟩

/-- Read every row as something else under the same key, or not at all. -/
def pick {W : Type} {label : W → K} (t : Table key) (f : V → Option W)
    (h : ∀ v w, f v = some w → label w = key v) : Table label :=
  ⟨t.rows.filterMap f, by
    have same : ∀ rows : List V, ((rows.filterMap f).map label).Sublist (rows.map key) := by
      intro rows
      induction rows with
      | nil => exact .slnil
      | cons v rest ih =>
        cases read : f v with
        | none =>
          rw [List.filterMap_cons_none read]
          exact ih.cons _
        | some w =>
          rw [List.filterMap_cons_some read, List.map_cons, List.map_cons, h v w read]
          exact ih.cons_cons _
    exact t.nodup.sublist (same t.rows)⟩

theorem get?_eq_some_iff {t : Table key} {k : K} {v : V} :
    t.get? k = some v ↔ v ∈ t.rows ∧ key v = k := by
  obtain ⟨rows, nodup⟩ := t
  simp only [get?]
  induction rows with
  | nil => simp
  | cons w rest ih =>
    rw [List.map_cons, List.nodup_cons] at nodup
    by_cases same : key w = k
    · simp only [List.find?_cons, same, decide_true, List.mem_cons, Option.some.injEq]
      refine ⟨fun h => ⟨.inl h.symm, h ▸ same⟩, fun ⟨h, hk⟩ => ?_⟩
      rcases h with h | h
      · exact h.symm
      · exact absurd (List.mem_map.mpr ⟨v, h, hk.trans same.symm⟩) nodup.1
    · simp only [List.find?_cons, same, decide_false, List.mem_cons, ih nodup.2]
      refine ⟨fun h => ⟨.inr h.1, h.2⟩, fun ⟨h, hk⟩ => ⟨h.resolve_left ?_, hk⟩⟩
      rintro rfl
      exact same hk

theorem get?_eq_none_iff {t : Table key} {k : K} :
    t.get? k = none ↔ k ∉ t.rows.map key := by
  simp [get?, List.find?_eq_none]

theorem get?_key {t : Table key} {v : V} (h : v ∈ t.rows) : t.get? (key v) = some v :=
  get?_eq_some_iff.mpr ⟨h, rfl⟩

theorem mem_of_get? {t : Table key} {k : K} {v : V} (h : t.get? k = some v) : v ∈ t.rows :=
  (get?_eq_some_iff.mp h).1

theorem key_of_get? {t : Table key} {k : K} {v : V} (h : t.get? k = some v) : key v = k :=
  (get?_eq_some_iff.mp h).2

@[simp] theorem get?_empty (k : K) : (empty : Table key).get? k = none := rfl

theorem get?_congr {t u : Table key} (h : t.rows.Perm u.rows) (k : K) : t.get? k = u.get? k := by
  apply Option.ext
  intro v
  rw [get?_eq_some_iff, get?_eq_some_iff, h.mem_iff]

private theorem mem_insertRow {v w : V} {rows : List V} (nodup : (rows.map key).Nodup) :
    w ∈ insertRow key v rows ↔ w = v ∨ (w ∈ rows ∧ key w ≠ key v) := by
  induction rows with
  | nil => simp [insertRow]
  | cons u rest ih =>
    rw [List.map_cons, List.nodup_cons] at nodup
    by_cases same : key u = key v
    · have away : ∀ x ∈ rest, key x ≠ key v := by
        intro x hx hk
        exact nodup.1 (same ▸ hk ▸ List.mem_map_of_mem hx)
      simp only [insertRow, same, if_true, List.mem_cons]
      grind
    · simp only [insertRow, same, if_false, List.mem_cons, ih nodup.2]
      grind

theorem mem_put {t : Table key} {v w : V} :
    w ∈ (t.put v).rows ↔ w = v ∨ (w ∈ t.rows ∧ key w ≠ key v) :=
  mem_insertRow t.nodup

@[grind =] theorem get?_put (t : Table key) (v : V) (k : K) :
    (t.put v).get? k = if key v = k then some v else t.get? k := by
  apply Option.ext
  intro w
  rw [get?_eq_some_iff, mem_put]
  by_cases same : key v = k
  · simp only [same, if_true, Option.some.injEq]
    grind
  · simp only [same, if_false, get?_eq_some_iff]
    grind

@[simp] theorem get?_put_self (t : Table key) (v : V) : (t.put v).get? (key v) = some v := by
  simp [get?_put]

theorem mem_remove {t : Table key} {k : K} {w : V} :
    w ∈ (t.remove k).rows ↔ w ∈ t.rows ∧ key w ≠ k := by
  simp [remove]

omit [DecidableEq K] in
theorem mem_filter {t : Table key} {keep : V → Bool} {w : V} :
    w ∈ (t.filter keep).rows ↔ w ∈ t.rows ∧ keep w = true := by
  simp [filter]

@[grind =] theorem get?_remove (t : Table key) (k l : K) :
    (t.remove k).get? l = if k = l then none else t.get? l := by
  apply Option.ext
  intro w
  rw [get?_eq_some_iff, mem_remove]
  by_cases same : k = l
  · simp only [same, if_true]
    grind
  · simp only [same, if_false, get?_eq_some_iff]
    grind

theorem get?_revise (t : Table key) (f : V → V) (h : ∀ v, key (f v) = key v) (k : K) :
    (t.revise f h).get? k = (t.get? k).map f := by
  simp only [get?, revise, List.find?_map, Function.comp_def, h]

theorem get?_pick {W : Type} {label : W → K} (t : Table key) (f : V → Option W)
    (h : ∀ v w, f v = some w → label w = key v) (k : K) :
    (t.pick f h).get? k = (t.get? k).bind f := by
  apply Option.ext
  intro w
  rw [get?_eq_some_iff, Option.bind_eq_some_iff]
  constructor
  · rintro ⟨mem, same⟩
    obtain ⟨v, inside, read⟩ := List.mem_filterMap.mp mem
    exact ⟨v, get?_eq_some_iff.mpr ⟨inside, (h v w read).symm.trans same⟩, read⟩
  · rintro ⟨v, found, read⟩
    exact ⟨List.mem_filterMap.mpr ⟨v, mem_of_get? found, read⟩,
      (h v w read).trans (key_of_get? found)⟩

/-- Writing a row back as it stands is no change at all. -/
theorem put_self {t : Table key} {v : V} (h : t.get? (key v) = some v) : t.put v = t := by
  apply Table.ext
  obtain ⟨rows, nodup⟩ := t
  simp only [get?, put] at h ⊢
  induction rows with
  | nil => simp at h
  | cons w rest ih =>
    rw [List.map_cons, List.nodup_cons] at nodup
    by_cases same : key w = key v
    · have eq : w = v := by simpa [List.find?_cons, same] using h
      simp [insertRow, eq]
    · simp only [insertRow, same, if_false, List.cons.injEq, true_and]
      exact ih nodup.2 (by simpa [List.find?_cons, same] using h)

theorem put_put {t : Table key} {v w : V} (h : key v = key w) : (t.put v).put w = t.put w := by
  apply Table.ext
  obtain ⟨rows, nodup⟩ := t
  simp only [put]
  clear nodup
  induction rows with
  | nil => simp [insertRow, h]
  | cons u rest ih =>
    by_cases same : key u = key v
    · simp [insertRow, same, h]
    · simp [insertRow, same, h ▸ same, ih]

theorem rows_put_of_none {t : Table key} {v : V} (h : t.get? (key v) = none) :
    (t.put v).rows = t.rows ++ [v] :=
  insertRow_of_not_mem (get?_eq_none_iff.mp h)

theorem rows_foldl_put {t : Table key} {vs : List V} (fresh : ((t.rows ++ vs).map key).Nodup) :
    (vs.foldl put t).rows = t.rows ++ vs := by
  induction vs generalizing t with
  | nil => rw [List.foldl_nil, List.append_nil]
  | cons v rest ih =>
    have apart : key v ∉ t.rows.map key := by
      rw [List.map_append, List.map_cons] at fresh
      exact fun mem => List.disjoint_of_nodup_append fresh mem List.mem_cons_self
    have rows : (t.put v).rows = t.rows ++ [v] := insertRow_of_not_mem apart
    have joined : (t.put v).rows ++ rest = t.rows ++ v :: rest := by
      rw [rows, List.append_assoc, List.singleton_append]
    rw [List.foldl_cons, ih (joined ▸ fresh), joined]

theorem get?_foldl_put_of_not_mem (t : Table key) {vs : List V} {k : K} (h : k ∉ vs.map key) :
    (vs.foldl put t).get? k = t.get? k := by
  induction vs generalizing t with
  | nil => rfl
  | cons v rest ih =>
    rw [List.map_cons, List.mem_cons, not_or] at h
    rw [List.foldl_cons, ih (t.put v) h.2, get?_put, if_neg fun same => h.1 same.symm]

theorem get?_foldl_put_of_mem (t : Table key) {vs : List V} (nodup : (vs.map key).Nodup) {v : V}
    (mem : v ∈ vs) : (vs.foldl put t).get? (key v) = some v := by
  induction vs generalizing t with
  | nil => cases mem
  | cons w rest ih =>
    rw [List.map_cons, List.nodup_cons] at nodup
    rw [List.foldl_cons]
    cases List.mem_cons.mp mem with
    | inl head =>
      subst head
      rw [get?_foldl_put_of_not_mem _ nodup.1, get?_put_self]
    | inr later => exact ih (t.put w) nodup.2 later

/-- Removing a freshly appended key restores the table, order included. -/
theorem remove_put {t : Table key} {v : V} (h : t.get? (key v) = none) :
    (t.put v).remove (key v) = t := by
  apply Table.ext
  have kept : ∀ w ∈ t.rows, ¬ key w = key v := by
    intro w hw eq
    exact get?_eq_none_iff.mp h (List.mem_map.mpr ⟨w, hw, eq⟩)
  simpa [remove, rows_put_of_none h] using kept

theorem remove_put_of_ne (t : Table key) {w : V} {k : K} (other : key w ≠ k) :
    (t.put w).remove k = (t.remove k).put w := by
  apply Table.ext
  obtain ⟨rows, nodup⟩ := t
  simp only [put, remove, ne_eq, decide_not]
  clear nodup
  induction rows with
  | nil => simp [insertRow, other]
  | cons u rest ih =>
    by_cases same : key u = key w
    · simp [insertRow, same, other]
    · by_cases gone : key u = k
      · have apart : ¬ k = key w := Ne.symm other
        simp [insertRow, gone, apart, ih]
      · simp [insertRow, same, gone, ih]

/-- Overwriting a key and writing another one commute. -/
theorem put_comm_of_mem {t : Table key} {v w : V} (old : t.get? (key v) ≠ none)
    (other : key v ≠ key w) : (t.put w).put v = (t.put v).put w := by
  apply Table.ext
  obtain ⟨rows, nodup⟩ := t
  simp only [get?, put] at old ⊢
  clear nodup
  induction rows with
  | nil => simp at old
  | cons u rest ih =>
    by_cases first : key u = key v
    · simp [insertRow, first, other]
    · have old' : rest.find? (fun x => key x = key v) ≠ none := by
        simpa [List.find?_cons, first] using old
      by_cases second : key u = key w
      · simp [insertRow, second, Ne.symm other]
      · simp [insertRow, first, second, ih old']

section Counting
variable (p : V → Bool)

theorem countP_put_of_none {t : Table key} {v : V} (h : t.get? (key v) = none) :
    (t.put v).rows.countP p = t.rows.countP p + if p v then 1 else 0 := by
  rw [rows_put_of_none h, List.countP_append, List.countP_singleton]

theorem countP_put_le {t : Table key} {v w : V} (h : t.get? (key v) = some w)
    (keep : p v = true → p w = true) : (t.put v).rows.countP p ≤ t.rows.countP p := by
  obtain ⟨rows, nodup⟩ := t
  simp only [get?, put] at h ⊢
  clear nodup
  induction rows with
  | nil => simp at h
  | cons u rest ih =>
    by_cases same : key u = key v
    · have eq : u = w := by simpa [List.find?_cons, same] using h
      subst eq
      simp only [insertRow, same, if_true, List.countP_cons]
      cases hv : p v
      · simp
      · simp [keep hv]
    · have tail := ih (by simpa [List.find?_cons, same] using h)
      simp only [insertRow, same, if_false, List.countP_cons]
      omega

theorem countP_remove_le (t : Table key) (k : K) :
    (t.remove k).rows.countP p ≤ t.rows.countP p :=
  List.filter_sublist.countP_le

omit [DecidableEq K] in
theorem countP_revise_le {t : Table key} {f : V → V} {h : ∀ v, key (f v) = key v}
    (keep : ∀ v ∈ t.rows, p (f v) = true → p v = true) :
    (t.revise f h).rows.countP p ≤ t.rows.countP p := by
  simp only [revise, List.countP_map]
  exact List.countP_mono_left (by simpa using keep)

end Counting

end Table

end Casa.KeyedTable
