import Mathlib.Data.List.TakeWhile

/-! Texts cut at a separator: what stands before and behind it is determined wherever one of the
two sides is free of it. -/

namespace Casa.SeparatedText

section Cut
variable {α : Type} [DecidableEq α]

/-- What stands before the first separator, and what stands behind it where it occurs. -/
def partition (sep : α) (s : List α) : List α × Option (List α) :=
  (s.takeWhile (· ≠ sep), match s.dropWhile (· ≠ sep) with
    | [] => none
    | _ :: rest => some rest)

theorem partition_cons {sep c : α} (rest : List α) (other : c ≠ sep) :
    partition sep (c :: rest) = (c :: (partition sep rest).1, (partition sep rest).2) := by
  simp [partition, other]

theorem partition_append {sep : α} {before : List α} (after : List α) (plain : sep ∉ before) :
    partition sep (before ++ sep :: after) = (before, some after) := by
  induction before with
  | nil => simp [partition]
  | cons c rest ih =>
    simp only [List.mem_cons, not_or] at plain
    rw [List.cons_append, partition_cons _ (Ne.symm plain.1), ih plain.2]

theorem partition_plain {sep : α} {s : List α} (plain : sep ∉ s) : partition sep s = (s, none) := by
  induction s with
  | nil => simp [partition]
  | cons c rest ih =>
    simp only [List.mem_cons, not_or] at plain
    rw [partition_cons _ (Ne.symm plain.1), ih plain.2]

theorem partition_cases (sep : α) (s : List α) :
    (∃ before after, s = before ++ sep :: after ∧ sep ∉ before ∧
      partition sep s = (before, some after)) ∨ (sep ∉ s ∧ partition sep s = (s, none)) := by
  by_cases inside : sep ∈ s
  · obtain ⟨before, after, rfl, plain⟩ := List.eq_append_cons_of_mem inside
    exact .inl ⟨before, after, rfl, plain, partition_append after plain⟩
  · exact .inr ⟨inside, partition_plain inside⟩

/-- A cut at the first separator is unique. -/
theorem cut_first {sep : α} {a b x y : List α} (left : sep ∉ a) (right : sep ∉ b)
    (same : a ++ sep :: x = b ++ sep :: y) : a = b ∧ x = y := by
  have cut := congrArg (partition sep) same
  rw [partition_append x left, partition_append y right] at cut
  exact ⟨congrArg Prod.fst cut, Option.some.inj (congrArg Prod.snd cut)⟩

/-- A cut at the last separator is unique. -/
theorem cut_last {sep : α} {a b x y : List α} (left : sep ∉ x) (right : sep ∉ y)
    (same : a ++ sep :: x = b ++ sep :: y) : a = b ∧ x = y := by
  have turned := congrArg List.reverse same
  simp only [List.reverse_append, List.reverse_cons, List.append_assoc, List.singleton_append]
    at turned
  obtain ⟨back, front⟩ := cut_first (by simpa using left) (by simpa using right) turned
  exact ⟨List.reverse_inj.1 front, List.reverse_inj.1 back⟩

/-- No piece between separators holds one. -/
theorem not_mem_of_mem_splitOn {sep : α} {s x : List α} (inside : x ∈ s.splitOn sep) : sep ∉ x := by
  induction s generalizing x with
  | nil => simp_all
  | cons c rest ih =>
    rw [List.splitOn_cons_eq_if_modifyHead] at inside
    split at inside
    · rcases List.mem_cons.mp inside with rfl | later
      · simp
      · exact ih later
    · next other =>
      obtain ⟨head, tail, cut⟩ := List.exists_cons_of_ne_nil (List.splitOn_ne_nil sep rest)
      rw [cut] at ih inside
      rcases List.mem_cons.mp inside with rfl | later
      · rw [List.mem_cons, not_or]
        exact ⟨fun same => other (by simp [same]), ih List.mem_cons_self⟩
      · exact ih (List.mem_cons_of_mem _ later)

/-- The pieces of joined texts are the pieces of each. -/
theorem splitOn_intercalate_flatMap {sep : α} {ls : List (List α)} (some_ : ls ≠ []) :
    ([sep].intercalate ls).splitOn sep = ls.flatMap (·.splitOn sep) := by
  induction ls with
  | nil => exact absurd rfl some_
  | cons l rest ih =>
    cases rest with
    | nil => simp
    | cons m more =>
      rw [List.intercalate_cons_cons, List.append_assoc, List.singleton_append,
        List.splitOn_append_cons_self, ih (List.cons_ne_nil m more)]
      rfl

end Cut

end Casa.SeparatedText
