import Casa.KeyedTable

/-! Python's `dict` as an insertion-ordered table of key and value, with the equality of two of
them: the same keys, and equal values under each, in whatever order. -/

namespace Casa.PythonDict
open KeyedTable

abbrev Dict (K V : Type) := Table (Prod.fst : K × V → K)

namespace Dict
variable {K V : Type}

def keys (d : Dict K V) : List K := d.rows.map Prod.fst

variable [DecidableEq K]

/-- `d.get(k)`. -/
def lookup (d : Dict K V) (k : K) : Option V := (d.get? k).map Prod.snd

/-- `d[k] = v`. -/
def set (d : Dict K V) (k : K) (v : V) : Dict K V := d.put (k, v)

/-- The rows of other keys. -/
def without (d : Dict K V) (k : K) : Dict K V := d.remove k

instance [BEq V] : BEq (Dict K V) where
  beq a b := a.rows.length = b.rows.length &&
    a.rows.all fun row => match b.lookup row.1 with
      | some w => row.2 == w
      | none => false

omit [DecidableEq K] in
theorem nodup_keys (d : Dict K V) : d.keys.Nodup := d.nodup

theorem lookup_eq_some_iff {d : Dict K V} {k : K} {v : V} :
    d.lookup k = some v ↔ (k, v) ∈ d.rows := by
  simp only [lookup, Option.map_eq_some_iff, Table.get?_eq_some_iff]
  constructor
  · rintro ⟨⟨_, _⟩, ⟨mem, rfl⟩, rfl⟩
    exact mem
  · exact fun mem => ⟨(k, v), ⟨mem, rfl⟩, rfl⟩

theorem lookup_isSome {d : Dict K V} {k : K} : (d.lookup k).isSome ↔ k ∈ d.keys := by
  simp [Option.isSome_iff_exists, lookup_eq_some_iff, keys]

theorem lookup_eq_none_iff {d : Dict K V} {k : K} : d.lookup k = none ↔ k ∉ d.keys := by
  rw [← lookup_isSome, Option.not_isSome_iff_eq_none]

theorem lookup_row {d : Dict K V} {row : K × V} (mem : row ∈ d.rows) :
    d.lookup row.1 = some row.2 := lookup_eq_some_iff.mpr mem

@[simp] theorem lookup_empty (k : K) : lookup (Table.empty : Dict K V) k = none := rfl

theorem lookup_set (d : Dict K V) (k l : K) (v : V) :
    (d.set k v).lookup l = if k = l then some v else d.lookup l := by
  unfold lookup set
  rw [Table.get?_put]
  split <;> rfl

theorem lookup_without (d : Dict K V) (k l : K) :
    (d.without k).lookup l = if k = l then none else d.lookup l := by
  unfold lookup without
  rw [Table.get?_remove]
  split <;> rfl

theorem rows_set_of_none {d : Dict K V} {k : K} (fresh : d.lookup k = none) (v : V) :
    (d.set k v).rows = d.rows ++ [(k, v)] :=
  Table.rows_put_of_none (by simpa [lookup] using fresh)

/-- The rows are the keys with what each one leads to. -/
theorem rows_eq (d : Dict K V) :
    d.rows = d.keys.filterMap fun k => (d.lookup k).map (k, ·) := by
  unfold keys
  rw [List.filterMap_map]
  have each : ∀ row ∈ d.rows, ((fun k => (d.lookup k).map (k, ·)) ∘ Prod.fst) row = some row := by
    intro row mem
    simp [lookup_row mem]
  rw [List.filterMap_congr each, List.filterMap_some]

/-- Two dictionaries with the same keys in the same order and the same values are one. -/
theorem ext_lookup {d e : Dict K V} (keys : d.keys = e.keys)
    (lookup : ∀ k, d.lookup k = e.lookup k) : d = e := by
  apply Table.ext
  rw [rows_eq, rows_eq e, keys]
  simp only [lookup]

section Equality
variable [BEq V]

theorem beq_iff {d e : Dict K V} : d == e ↔ ∀ k, d.lookup k == e.lookup k := by
  have unfolded : d == e ↔ d.rows.length = e.rows.length ∧
      ∀ row ∈ d.rows, some row.2 == e.lookup row.1 := by
    change (_ && _) = true ↔ _
    simp only [Bool.and_eq_true, decide_eq_true_eq, List.all_eq_true]
    refine and_congr_right fun _ => forall_congr' fun row => imp_congr_right fun _ => ?_
    cases e.lookup row.1 <;> simp
  rw [unfolded]
  constructor
  · rintro ⟨size, each⟩ k
    cases here : d.lookup k with
    | some v => exact each (k, v) (lookup_eq_some_iff.mp here)
    | none =>
      have sub : d.keys ⊆ e.keys := by
        intro l mem
        obtain ⟨row, inside, rfl⟩ := List.mem_map.mp mem
        rw [← lookup_isSome]
        cases there : e.lookup row.1 with
        | some w => rfl
        | none => simpa [there] using each row inside
      have perm : d.keys.Perm e.keys := by
        refine (List.subperm_of_subset d.nodup_keys sub).perm_of_length_le ?_
        simp [keys, size]
      have absent : k ∉ e.keys := by
        rw [← perm.mem_iff]
        exact lookup_eq_none_iff.mp here
      rw [lookup_eq_none_iff.mpr absent]
      rfl
  · intro same
    have iff_ : ∀ k, k ∈ d.keys ↔ k ∈ e.keys := by
      intro k
      rw [← lookup_isSome, ← lookup_isSome]
      have here := same k
      revert here
      cases d.lookup k <;> cases e.lookup k <;> simp
    have perm : d.keys.Perm e.keys :=
      (List.perm_ext_iff_of_nodup d.nodup_keys e.nodup_keys).mpr iff_
    refine ⟨by simpa [keys] using perm.length_eq, fun row mem => ?_⟩
    rw [← lookup_row mem]
    exact same row.1

instance [EquivBEq V] : EquivBEq (Dict K V) where
  rfl := beq_iff.mpr fun k => by cases lookup _ k <;> simp
  symm := by
    intro d e same
    rw [beq_iff] at same ⊢
    intro k
    have here := same k
    revert here
    cases d.lookup k <;> cases e.lookup k <;> simp [BEq.comm]
  trans := by
    intro d e f same same'
    rw [beq_iff] at same same' ⊢
    intro k
    have here := same k
    have there := same' k
    revert here there
    cases d.lookup k <;> cases e.lookup k <;> cases f.lookup k <;> simp
    exact BEq.trans

end Equality

instance [DecidableEq V] : DecidableEq (Dict K V) :=
  fun d e => decidable_of_iff (d.rows = e.rows) ⟨Table.ext, congrArg Table.rows⟩

end Dict

section Lists
variable {α : Type} [BEq α] [EquivBEq α]

/-- `==` of two lists is that of their items, one by one. -/
instance equivBEqList : EquivBEq (List α) where
  rfl {xs} := by induction xs <;> simp_all
  symm {xs ys} := by
    induction xs generalizing ys with
    | nil => cases ys <;> simp
    | cons x xs ih =>
      cases ys with
      | nil => simp
      | cons y ys =>
        simp only [List.cons_beq_cons, Bool.and_eq_true]
        exact fun same => ⟨BEq.symm same.1, ih same.2⟩
  trans {xs ys zs} := by
    induction xs generalizing ys zs with
    | nil => cases ys <;> simp
    | cons x xs ih =>
      cases ys with
      | nil => simp
      | cons y ys =>
        cases zs with
        | nil => simp
        | cons z zs =>
          simp only [List.cons_beq_cons, Bool.and_eq_true]
          exact fun same same' => ⟨BEq.trans same.1 same'.1, ih same.2 same'.2⟩

end Lists

end Casa.PythonDict
