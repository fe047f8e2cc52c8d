import Casa.PythonDict
import Mathlib.Data.List.Perm.Basic

/-! The three-way merge of a configuration file's entries by name: the image's entries against
the local ones, with the previous image's as the evidence of who changed what. Entries are compared
by Python's `==`, of which nothing is used but that it is an equivalence. -/

namespace Casa.ConfigMerge
open KeyedTable PythonDict

/-- A mergeable document: the fields it carries through, and the entries under their names. -/
structure EntryDoc (T E : Type) where
  topLevel : T
  entries : Dict String E

structure MergeOutcome where
  trackedImage : List String
  deleted : List String
  keptLocal : List String
  displacedLocal : List String
  conflicted : List String
  reinserted : List String

inductive Bin where
  | trackedImage
  | deleted
  | keptLocal
  | displacedLocal
  | conflicted
  | reinserted
  deriving DecidableEq

namespace MergeOutcome

def empty : MergeOutcome := ⟨[], [], [], [], [], []⟩

def names (out : MergeOutcome) : Bin → List String
  | .trackedImage => out.trackedImage
  | .deleted => out.deleted
  | .keptLocal => out.keptLocal
  | .displacedLocal => out.displacedLocal
  | .conflicted => out.conflicted
  | .reinserted => out.reinserted

def append (out : MergeOutcome) (name : String) : Bin → MergeOutcome
  | .trackedImage => { out with trackedImage := out.trackedImage ++ [name] }
  | .deleted => { out with deleted := out.deleted ++ [name] }
  | .keptLocal => { out with keptLocal := out.keptLocal ++ [name] }
  | .displacedLocal => { out with displacedLocal := out.displacedLocal ++ [name] }
  | .conflicted => { out with conflicted := out.conflicted ++ [name] }
  | .reinserted => { out with reinserted := out.reinserted ++ [name] }

def destroysLocal (out : MergeOutcome) : Bool :=
  !out.displacedLocal.isEmpty || !out.conflicted.isEmpty || !out.reinserted.isEmpty

def sortNames (names : List String) : List String := names.mergeSort fun a b => a ≤ b

def sort (out : MergeOutcome) : MergeOutcome where
  trackedImage := sortNames out.trackedImage
  deleted := sortNames out.deleted
  keptLocal := sortNames out.keptLocal
  displacedLocal := sortNames out.displacedLocal
  conflicted := sortNames out.conflicted
  reinserted := sortNames out.reinserted

theorem names_append (out : MergeOutcome) (name : String) (bin other : Bin) :
    (out.append name bin).names other =
      if bin = other then out.names other ++ [name] else out.names other := by
  cases bin <;> cases other <;> rfl

theorem names_sort (out : MergeOutcome) (bin : Bin) :
    (out.sort.names bin).Perm (out.names bin) := by
  cases bin <;> exact List.mergeSort_perm ..

theorem destroysLocal_iff (out : MergeOutcome) : out.destroysLocal = true ↔ ∃ name,
    name ∈ out.names .displacedLocal ∨ name ∈ out.names .conflicted ∨
      name ∈ out.names .reinserted := by
  simp only [destroysLocal, names, Bool.or_eq_true, Bool.not_eq_true', exists_or,
    List.isEmpty_eq_false_iff_exists_mem, or_assoc]

end MergeOutcome

section Merge
variable {T E : Type} [BEq E]

/-- What the first loop makes of a name the image ships: the entry the name is given, if any, and
the list it goes in. -/
def imageVerdict (base live : Option E) (new : E) : Option E × Bin :=
  match live, base with
  | none, none => (some new, .trackedImage)
  | none, some base => if base == new then (none, .keptLocal) else (some new, .reinserted)
  | some _, none => (some new, .displacedLocal)
  | some live, some base =>
      if live == base then (some new, .trackedImage)
      else if new == base then (some live, .keptLocal)
      else (some new, .conflicted)

def localVerdict (base : Option E) (live : E) : Option E × Bin :=
  match base with
  | none => (some live, .keptLocal)
  | some base => if live == base then (none, .deleted) else (some live, .keptLocal)

def settle (p : Dict String E × MergeOutcome) (name : String) (verdict : Option E × Bin) :
    Dict String E × MergeOutcome :=
  (match verdict.1 with
    | some entry => p.1.set name entry
    | none => p.1, p.2.append name verdict.2)

def mergeEntries (new base live : EntryDoc T E) : Dict String E × MergeOutcome :=
  let image := new.entries.rows.foldl (fun p row => settle p row.1 <|
      imageVerdict (base.entries.lookup row.1) (live.entries.lookup row.1) row.2)
    (Table.empty, .empty)
  let all := live.entries.rows.foldl (fun p row =>
    if (new.entries.lookup row.1).isSome then p
    else settle p row.1 (localVerdict (base.entries.lookup row.1) row.2)) image
  (all.1, all.2.sort)

def verdict (new base live : EntryDoc T E) (name : String) : Option (Option E × Bin) :=
  match new.entries.lookup name with
  | some entry =>
      some (imageVerdict (base.entries.lookup name) (live.entries.lookup name) entry)
  | none => (live.entries.lookup name).map (localVerdict (base.entries.lookup name))

def mergeOrder (new live : EntryDoc T E) : List String :=
  new.entries.keys ++ live.entries.keys.filter fun name => (new.entries.lookup name).isNone

def settleAll (verdicts : String → Option (Option E × Bin)) (p : Dict String E × MergeOutcome)
    (names : List String) : Dict String E × MergeOutcome :=
  names.foldl (fun p name => (verdicts name).elim p (settle p name)) p

theorem mergeEntries_eq (new base live : EntryDoc T E) : mergeEntries new base live =
    ((settleAll (verdict new base live) (Table.empty, .empty) (mergeOrder new live)).1,
      (settleAll (verdict new base live) (Table.empty, .empty) (mergeOrder new live)).2.sort) := by
  have image : ∀ p, ∀ row ∈ new.entries.rows, (verdict new base live row.1).elim p (settle p row.1)
      = settle p row.1 (imageVerdict (base.entries.lookup row.1) (live.entries.lookup row.1)
          row.2) := by
    intro p row mem
    simp [verdict, Dict.lookup_row mem]
  have local_ : ∀ p, ∀ row ∈ live.entries.rows,
      (if (new.entries.lookup row.1).isNone = true then
        (verdict new base live row.1).elim p (settle p row.1) else p) =
      if (new.entries.lookup row.1).isSome then p
      else settle p row.1 (localVerdict (base.entries.lookup row.1) row.2) := by
    intro p row mem
    unfold verdict
    cases new.entries.lookup row.1 <;> simp [Dict.lookup_row mem]
  unfold settleAll mergeOrder Dict.keys mergeEntries
  simp only [List.foldl_append, List.foldl_filter, List.foldl_map]
  rw [List.foldl_ext _ _ _ image, List.foldl_ext _ _ _ local_]

omit [BEq E] in
theorem lookup_settle (p : Dict String E × MergeOutcome) (name other : String)
    (v : Option E × Bin) : (settle p name v).1.lookup other =
      if name = other then v.1.or (p.1.lookup other) else p.1.lookup other := by
  unfold settle
  cases v.1 <;> simp [Dict.lookup_set]

omit [BEq E] in
theorem keys_settle {p : Dict String E × MergeOutcome} {name : String}
    (fresh : p.1.lookup name = none) (v : Option E × Bin) : (settle p name v).1.keys =
      p.1.keys ++ if v.1.isSome then [name] else [] := by
  unfold settle
  cases v.1 <;> simp [Dict.keys, Dict.rows_set_of_none fresh]

section Pass
variable {verdicts : String → Option (Option E × Bin)} {p : Dict String E × MergeOutcome}
  {names : List String}

omit [BEq E] in
theorem lookup_settleAll (nodup : names.Nodup) (name : String) :
    (settleAll verdicts p names).1.lookup name =
      if name ∈ names then ((verdicts name).bind Prod.fst).or (p.1.lookup name)
      else p.1.lookup name := by
  induction names generalizing p with
  | nil => simp [settleAll]
  | cons n rest ih =>
    obtain ⟨away, nodup⟩ := List.nodup_cons.mp nodup
    rw [settleAll, List.foldl_cons, ← settleAll, ih nodup]
    by_cases same : n = name
    · subst same
      cases verdicts n <;> simp [away, lookup_settle]
    · cases verdicts n <;> simp [same, Ne.symm same, lookup_settle]

omit [BEq E] in
theorem keys_settleAll (nodup : names.Nodup) (fresh : ∀ n ∈ names, p.1.lookup n = none) :
    (settleAll verdicts p names).1.keys =
      p.1.keys ++ names.filter fun n => ((verdicts n).bind Prod.fst).isSome := by
  induction names generalizing p with
  | nil => simp [settleAll]
  | cons n rest ih =>
    obtain ⟨away, nodup⟩ := List.nodup_cons.mp nodup
    obtain ⟨here, later⟩ := List.forall_mem_cons.mp fresh
    have still : ∀ m ∈ rest, ((verdicts n).elim p (settle p n)).1.lookup m = none := by
      intro m mem
      have apart : n ≠ m := by rintro rfl; exact away mem
      cases verdicts n <;> simp [lookup_settle, apart, later m mem]
    rw [settleAll, List.foldl_cons, ← settleAll, ih nodup still]
    cases found : verdicts n with
    | none => simp [found]
    | some v => cases entry : v.1 <;> simp [found, entry, keys_settle here]

omit [BEq E] in
theorem names_settleAll (bin : Bin) : (settleAll verdicts p names).2.names bin =
    p.2.names bin ++ names.filter fun n => (verdicts n).map Prod.snd = some bin := by
  induction names generalizing p with
  | nil => simp [settleAll]
  | cons n rest ih =>
    rw [settleAll, List.foldl_cons, ← settleAll, ih]
    cases found : verdicts n with
    | none => simp [found]
    | some v => by_cases same : v.2 = bin <;> simp [found, same, settle, MergeOutcome.names_append]

end Pass

section Spec
variable {new base live : EntryDoc T E}

omit [BEq E] in
theorem nodup_mergeOrder : (mergeOrder new live).Nodup := by
  refine List.Nodup.append new.entries.nodup_keys (live.entries.nodup_keys.filter _) ?_
  intro name here there
  rw [← Dict.lookup_isSome] at here
  have absent := (List.mem_filter.mp there).2
  rw [Option.isNone_iff_eq_none] at absent
  rw [absent] at here
  cases here

omit [BEq E] in
theorem mem_mergeOrder {name : String} : name ∈ mergeOrder new live ↔
    (new.entries.lookup name).isSome ∨ (live.entries.lookup name).isSome := by
  rw [mergeOrder, List.mem_append, List.mem_filter, ← Dict.lookup_isSome, ← Dict.lookup_isSome]
  cases new.entries.lookup name <;> simp

theorem verdict_eq_none {name : String} (absent : name ∉ mergeOrder new live) :
    verdict new base live name = none := by
  rw [mem_mergeOrder, not_or, Option.not_isSome_iff_eq_none, Option.not_isSome_iff_eq_none]
    at absent
  simp [verdict, absent]

theorem verdict_isSome {name : String} (mem : name ∈ mergeOrder new live) :
    (verdict new base live name).isSome := by
  rw [mem_mergeOrder] at mem
  unfold verdict
  cases found : new.entries.lookup name with
  | some e => rfl
  | none => simpa [found] using mem

theorem lookup_mergeEntries (name : String) :
    (mergeEntries new base live).1.lookup name = (verdict new base live name).bind Prod.fst := by
  rw [mergeEntries_eq, lookup_settleAll nodup_mergeOrder]
  by_cases mem : name ∈ mergeOrder new live
  · simp [mem]
  · simp [mem, verdict_eq_none mem]

theorem imageVerdict_entry {base live : Option E} {new entry : E}
    (chosen : (imageVerdict base live new).1 = some entry) : new = entry ∨ live = some entry := by
  unfold imageVerdict at chosen
  split at chosen
  · exact .inl (Option.some.inj chosen)
  · split at chosen
    · cases chosen
    · exact .inl (Option.some.inj chosen)
  · exact .inl (Option.some.inj chosen)
  · split at chosen
    · exact .inl (Option.some.inj chosen)
    · split at chosen
      · exact .inr chosen
      · exact .inl (Option.some.inj chosen)

theorem localVerdict_entry {base : Option E} {live entry : E}
    (chosen : (localVerdict base live).1 = some entry) : live = entry := by
  unfold localVerdict at chosen
  split at chosen
  · exact Option.some.inj chosen
  · split at chosen
    · cases chosen
    · exact Option.some.inj chosen

theorem lookup_of_merged {name : String} {entry : E}
    (found : (mergeEntries new base live).1.lookup name = some entry) :
    new.entries.lookup name = some entry ∨ live.entries.lookup name = some entry := by
  rw [lookup_mergeEntries, verdict] at found
  cases shipped : new.entries.lookup name with
  | some e =>
    rw [shipped] at found
    exact (imageVerdict_entry found).imp (congrArg some) id
  | none =>
    rw [shipped] at found
    cases here : live.entries.lookup name with
    | none => simp [here] at found
    | some e =>
      rw [here] at found
      exact .inr (congrArg some (localVerdict_entry found))

theorem keys_mergeEntries : (mergeEntries new base live).1.keys = (mergeOrder new live).filter
    fun name => ((mergeEntries new base live).1.lookup name).isSome := by
  simp only [lookup_mergeEntries]
  rw [mergeEntries_eq, keys_settleAll nodup_mergeOrder fun _ _ => Dict.lookup_empty _]
  rfl

theorem perm_names (bin : Bin) : ((mergeEntries new base live).2.names bin).Perm
    ((mergeOrder new live).filter fun name =>
      (verdict new base live name).map Prod.snd = some bin) := by
  rw [mergeEntries_eq]
  refine (MergeOutcome.names_sort _ bin).trans ?_
  rw [names_settleAll]
  cases bin <;> exact .refl _

theorem mem_names (bin : Bin) (name : String) : name ∈ (mergeEntries new base live).2.names bin ↔
    (verdict new base live name).map Prod.snd = some bin := by
  rw [(perm_names bin).mem_iff, List.mem_filter, decide_eq_true_eq]
  refine and_iff_right_of_imp fun found => ?_
  by_contra absent
  simp [verdict_eq_none absent] at found

theorem nodup_names (bin : Bin) : ((mergeEntries new base live).2.names bin).Nodup :=
  (perm_names bin).nodup_iff.mpr (nodup_mergeOrder.filter _)

end Spec

def Bin.overrides : Bin → Prop
  | .displacedLocal | .conflicted | .reinserted => True
  | _ => False

omit [BEq E] in
theorem destroysLocal_iff {out : MergeOutcome} :
    out.destroysLocal = true ↔ ∃ bin : Bin, bin.overrides ∧ ∃ name, name ∈ out.names bin := by
  rw [MergeOutcome.destroysLocal_iff]
  constructor
  · rintro ⟨name, mem | mem | mem⟩
    · exact ⟨.displacedLocal, trivial, name, mem⟩
    · exact ⟨.conflicted, trivial, name, mem⟩
    · exact ⟨.reinserted, trivial, name, mem⟩
  · rintro ⟨bin, lost, name, mem⟩
    cases bin with
    | displacedLocal => exact ⟨name, .inl mem⟩
    | conflicted => exact ⟨name, .inr (.inl mem)⟩
    | reinserted => exact ⟨name, .inr (.inr mem)⟩
    | _ => exact lost.elim

section Rules
variable [EquivBEq E]

theorem imageVerdict_overrides {base live : Option E} {new : E} (changed : ¬live == base)
    (lost : (imageVerdict base live new).1 ≠ live) :
    ¬some new == base ∧ (imageVerdict base live new).2.overrides := by
  unfold imageVerdict at lost ⊢
  cases live with
  | none =>
    cases base with
    | none => simp at changed
    | some base =>
      by_cases idle : base == new
      · simp [idle] at lost
      · simp [idle, Bin.overrides, BEq.comm (a := new)]
  | some live =>
    cases base with
    | none => simp [Bin.overrides]
    | some base =>
      have edited : (live == base) = false := by simpa using changed
      by_cases idle : new == base
      · simp [edited, idle] at lost
      · simp [edited, idle, Bin.overrides]

omit [EquivBEq E] in
theorem localVerdict_keeps {base : Option E} {live : E} (changed : ¬some live == base) :
    (localVerdict base live).1 = some live := by
  unfold localVerdict
  cases base with
  | none => rfl
  | some base =>
    have edited : (live == base) = false := by simpa using changed
    simp [edited]

/-- Once the image's entry is the evidence, what the merge chose stays, and nothing is lost. -/
theorem imageVerdict_again (base live : Option E) (new : E) :
    (imageVerdict (some new) (imageVerdict base live new).1 new).1 =
        (imageVerdict base live new).1 ∧
      ¬(imageVerdict (some new) (imageVerdict base live new).1 new).2.overrides := by
  have image : (imageVerdict base live new).1 = none ∨ (imageVerdict base live new).1 = some new ∨
      ∃ kept, (imageVerdict base live new).1 = some kept ∧ ¬kept == new := by
    unfold imageVerdict
    split
    · simp
    · split <;> simp
    · simp
    · next live base =>
      by_cases untouched : live == base
      · simp [untouched]
      · by_cases idle : new == base
        · refine .inr (.inr ⟨live, by simp [untouched, idle], fun same => ?_⟩)
          exact untouched (BEq.trans same idle)
        · simp [untouched, idle]
  rcases image with gone | new_ | ⟨kept, is, apart⟩
  · rw [gone]
    simp [imageVerdict, Bin.overrides]
  · rw [new_]
    simp [imageVerdict, Bin.overrides]
  · rw [is]
    simp [imageVerdict, apart, Bin.overrides]

end Rules

section Lossless
variable [EquivBEq E]

theorem overridden {new base live : EntryDoc T E} {name : String}
    (changed : ¬live.entries.lookup name == base.entries.lookup name)
    (lost : (mergeEntries new base live).1.lookup name ≠ live.entries.lookup name) :
    ¬new.entries.lookup name == base.entries.lookup name ∧
      ∃ bin : Bin, bin.overrides ∧ name ∈ (mergeEntries new base live).2.names bin := by
  simp only [mem_names]
  rw [lookup_mergeEntries] at lost
  unfold verdict at lost ⊢
  cases shipped : new.entries.lookup name with
  | some entry =>
    rw [shipped] at lost
    have image := imageVerdict_overrides changed lost
    exact ⟨image.1, _, image.2, rfl⟩
  | none =>
    rw [shipped] at lost
    cases here : live.entries.lookup name with
    | none => simp [here] at lost
    | some entry =>
      rw [here] at changed lost
      exact absurd (localVerdict_keeps changed) lost

variable {new base live : EntryDoc T E} {top : T}

theorem verdict_again (name : String) :
    (verdict new new ⟨top, (mergeEntries new base live).1⟩ name).bind Prod.fst =
        (mergeEntries new base live).1.lookup name ∧
      ∀ bin : Bin, (verdict new new ⟨top, (mergeEntries new base live).1⟩ name).map Prod.snd =
        some bin → ¬bin.overrides := by
  cases shipped : new.entries.lookup name with
  | some entry =>
    have chosen : (mergeEntries new base live).1.lookup name = (imageVerdict
        (base.entries.lookup name) (live.entries.lookup name) entry).1 := by
      rw [lookup_mergeEntries, verdict, shipped]
      rfl
    have again := imageVerdict_again (base.entries.lookup name) (live.entries.lookup name) entry
    simp only [verdict, shipped, chosen]
    refine ⟨again.1, ?_⟩
    intro bin is
    rw [← Option.some.inj is]
    exact again.2
  | none =>
    simp only [verdict, shipped]
    cases (mergeEntries new base live).1.lookup name <;> simp [localVerdict, Bin.overrides]

omit [EquivBEq E] in
theorem local_keys : (mergeEntries new base live).1.keys.filter
      (fun name => (new.entries.lookup name).isNone) =
    (live.entries.keys.filter fun name => (new.entries.lookup name).isNone).filter
      fun name => ((mergeEntries new base live).1.lookup name).isSome := by
  have shipped : ∀ name ∈ new.entries.keys, ¬(new.entries.lookup name).isNone = true := by
    intro name mem
    rw [← Dict.lookup_isSome] at mem
    simp [Option.isNone_iff_eq_none, Option.isSome_iff_ne_none.mp mem]
  rw [keys_mergeEntries, List.filter_comm, mergeOrder, List.filter_append,
    List.filter_eq_nil_iff.mpr shipped, List.nil_append]
  simp only [List.filter_filter, Bool.and_self]

theorem merge_again : (mergeEntries new new ⟨top, (mergeEntries new base live).1⟩).1 =
      (mergeEntries new base live).1 ∧
    (mergeEntries new new ⟨top, (mergeEntries new base live).1⟩).2.destroysLocal = false := by
  have lookups : ∀ name, (mergeEntries new new ⟨top, (mergeEntries new base live).1⟩).1.lookup name
      = (mergeEntries new base live).1.lookup name :=
    fun name => (lookup_mergeEntries name).trans (verdict_again name).1
  constructor
  · refine Dict.ext_lookup ?_ lookups
    calc (mergeEntries new new ⟨top, (mergeEntries new base live).1⟩).1.keys
        = (mergeOrder new ⟨top, (mergeEntries new base live).1⟩).filter
            fun name => ((mergeEntries new base live).1.lookup name).isSome := by
          rw [keys_mergeEntries]
          simp only [lookups]
      _ = (mergeOrder new live).filter
            fun name => ((mergeEntries new base live).1.lookup name).isSome := by
          rw [mergeOrder, mergeOrder, local_keys, List.filter_append, List.filter_append,
            List.filter_filter]
          simp only [Bool.and_self]
      _ = (mergeEntries new base live).1.keys := keys_mergeEntries.symm
  · rw [← Bool.not_eq_true, destroysLocal_iff]
    rintro ⟨bin, lost, name, mem⟩
    rw [mem_names] at mem
    exact (verdict_again name).2 bin mem lost

omit [EquivBEq E] in
theorem merge_untouched (untouched : live.entries == base.entries) :
    (mergeEntries new base live).1 = new.entries := by
  have lookups : ∀ name,
      (mergeEntries new base live).1.lookup name = new.entries.lookup name := by
    intro name
    have same := Dict.beq_iff.mp untouched name
    rw [lookup_mergeEntries, verdict]
    revert same
    cases new.entries.lookup name <;> cases live.entries.lookup name <;>
      cases base.entries.lookup name <;> simp +contextual [imageVerdict, localVerdict]
  refine Dict.ext_lookup ?_ lookups
  have own : ∀ name ∈ new.entries.keys, (new.entries.lookup name).isSome = true :=
    fun name mem => Dict.lookup_isSome.mpr mem
  have others : ∀ name ∈ live.entries.keys.filter (fun name => (new.entries.lookup name).isNone),
      ¬(new.entries.lookup name).isSome = true := by
    intro name mem
    simpa using (List.mem_filter.mp mem).2
  rw [keys_mergeEntries]
  simp only [lookups]
  rw [mergeOrder, List.filter_append, List.filter_eq_self.mpr own,
    List.filter_eq_nil_iff.mpr others, List.append_nil]

structure Lossless (new base live : EntryDoc T E) : Prop where
  settled : ∀ name, (new.entries.lookup name).isSome ∨ (live.entries.lookup name).isSome →
    ∃! bin : Bin, name ∈ (mergeEntries new base live).2.names bin
  once : ∀ bin, ((mergeEntries new base live).2.names bin).Nodup
  others : ∀ name, new.entries.lookup name = none → live.entries.lookup name = none →
    ∀ bin, name ∉ (mergeEntries new base live).2.names bin
  overridden : ∀ name, ¬live.entries.lookup name == base.entries.lookup name →
    (mergeEntries new base live).1.lookup name ≠ live.entries.lookup name →
      ¬new.entries.lookup name == base.entries.lookup name ∧
        (∃ bin : Bin, bin.overrides ∧ name ∈ (mergeEntries new base live).2.names bin) ∧
        (mergeEntries new base live).2.destroysLocal = true
  survives : ∀ name entry, live.entries.lookup name = some entry →
    new.entries.lookup name = none → base.entries.lookup name = none →
      (mergeEntries new base live).1.lookup name = some entry
  order : (mergeEntries new base live).1.keys = (new.entries.keys ++
    live.entries.keys.filter fun name => (new.entries.lookup name).isNone).filter
      fun name => ((mergeEntries new base live).1.lookup name).isSome
  again : ∀ top, (mergeEntries new new ⟨top, (mergeEntries new base live).1⟩).1 =
      (mergeEntries new base live).1 ∧
    (mergeEntries new new ⟨top, (mergeEntries new base live).1⟩).2.destroysLocal = false

theorem merge_lossless (new base live : EntryDoc T E) : Lossless new base live where
  settled := by
    intro name present
    have judged : (verdict new base live name).isSome := verdict_isSome (mem_mergeOrder.mpr present)
    obtain ⟨v, found⟩ := Option.isSome_iff_exists.mp judged
    refine ⟨v.2, by simp [mem_names, found], fun bin mem => ?_⟩
    simpa [mem_names, found, eq_comm] using mem
  once := nodup_names
  others := by
    intro name notNew notLive bin mem
    simp [mem_names, verdict, notNew, notLive] at mem
  overridden := by
    intro name changed lost
    obtain ⟨image, bin, overrides, mem⟩ := ConfigMerge.overridden changed lost
    exact ⟨image, ⟨bin, overrides, mem⟩, destroysLocal_iff.mpr ⟨bin, overrides, name, mem⟩⟩
  survives := by
    intro name entry here notNew notBase
    simp [lookup_mergeEntries, verdict, here, notNew, notBase, localVerdict]
  order := keys_mergeEntries
  again := fun _ => merge_again

/-- Of four entries one follows the image, one is kept as it was edited, one gives way and one is
the operator's own. -/
theorem merge_four :
    let doc := fun (rows : Dict String ℕ) => (⟨(), rows⟩ : EntryDoc Unit ℕ)
    let new := doc ⟨[("a", 1), ("b", 1), ("c", 1)], by decide⟩
    let base := doc ⟨[("a", 0), ("b", 1), ("c", 0)], by decide⟩
    let live := doc ⟨[("d", 7), ("c", 5), ("b", 4), ("a", 0)], by decide⟩
    Lossless new base live ∧
      (mergeEntries new base live).1.rows = [("a", 1), ("b", 4), ("c", 1), ("d", 7)] :=
  ⟨merge_lossless _ _ _, rfl⟩

end Lossless

end Merge

end Casa.ConfigMerge
