import Mathlib.Data.List.Basic
import Mathlib.Data.List.Infix

/-! The complete lines of a sequence: each ends with the separator and has no other, and what
stands behind the last separator belongs to none. -/

namespace Casa.LineStream

variable {β : Type} [DecidableEq β] {sep : β}

variable (sep) in
def completeLines : List β → List (List β)
  | [] => []
  | b :: s =>
    if b = sep then [b] :: completeLines s
    else
      match completeLines s with
      | [] => []
      | l :: rest => (b :: l) :: rest

variable (sep) in
/-- What a reader that stops behind a separator returns; nothing where there is none. -/
def nextLine (s : List β) : Option (List β) := (completeLines sep s).head?

variable (sep) in
def IsLine (l : List β) : Prop := completeLines sep l = [l]

variable (sep) in
/-- No line is left unfinished. -/
def Terminated (s : List β) : Prop := s = [] ∨ s.getLast? = some sep

instance (s : List β) : Decidable (Terminated sep s) :=
  inferInstanceAs (Decidable (s = [] ∨ s.getLast? = some sep))

theorem completeLines_sep (s : List β) :
    completeLines sep (sep :: s) = [sep] :: completeLines sep s := if_pos rfl

theorem completeLines_cons {b : β} {s l : List β} {rest : List (List β)} (other : b ≠ sep)
    (lines : completeLines sep s = l :: rest) : completeLines sep (b :: s) = (b :: l) :: rest := by
  rw [completeLines, if_neg other, lines]

theorem completeLines_cons_none {b : β} {s : List β} (other : b ≠ sep)
    (lines : completeLines sep s = []) : completeLines sep (b :: s) = [] := by
  rw [completeLines, if_neg other, lines]

theorem completeLines_eq_nil {s : List β} : completeLines sep s = [] ↔ sep ∉ s := by
  induction s with
  | nil => exact ⟨fun _ => List.not_mem_nil, fun _ => rfl⟩
  | cons b s ih =>
    by_cases same : b = sep
    · subst same
      rw [completeLines_sep]
      exact ⟨nofun, fun absent => absurd List.mem_cons_self absent⟩
    · rw [List.mem_cons, not_or, ← ih]
      cases lines : completeLines sep s with
      | nil => exact ⟨fun _ => ⟨Ne.symm same, rfl⟩, fun _ => completeLines_cons_none same lines⟩
      | cons l rest =>
        rw [completeLines_cons same lines]
        exact ⟨nofun, fun both => absurd both.2 nofun⟩

/-- The first complete line, and the lines of what is behind it. -/
theorem completeLines_eq_cons {s l : List β} {rest : List (List β)}
    (lines : completeLines sep s = l :: rest) :
    IsLine sep l ∧ ∃ t, s = l ++ t ∧ completeLines sep t = rest := by
  induction s generalizing l rest with
  | nil => cases lines
  | cons b s ih =>
    by_cases same : b = sep
    · subst same
      rw [completeLines_sep] at lines
      cases lines
      exact ⟨completeLines_sep [], s, rfl, rfl⟩
    · cases tail : completeLines sep s with
      | nil =>
        rw [completeLines_cons_none same tail] at lines
        cases lines
      | cons l' rest' =>
        rw [completeLines_cons same tail] at lines
        cases lines
        obtain ⟨line, t, split, after⟩ := ih tail
        exact ⟨completeLines_cons same line, t, by rw [split, List.cons_append], after⟩

theorem completeLines_append {l : List β} (line : IsLine sep l) (t : List β) :
    completeLines sep (l ++ t) = l :: completeLines sep t := by
  induction l with
  | nil => cases line
  | cons b l ih =>
    by_cases same : b = sep
    · subst same
      have lines : completeLines b (b :: l) = [b :: l] := line
      rw [completeLines_sep] at lines
      cases lines
      exact completeLines_sep t
    · cases tail : completeLines sep l with
      | nil => exact absurd ((completeLines_cons_none same tail).symm.trans line) nofun
      | cons l' rest =>
        have lines := (completeLines_cons same tail).symm.trans line
        cases lines
        exact completeLines_cons same (ih tail)

/-- Lines that stand at the front are the first complete lines. -/
theorem completeLines_flatten {ls : List (List β)} (lines : ∀ l ∈ ls, IsLine sep l)
    (t : List β) : completeLines sep (ls.flatten ++ t) = ls ++ completeLines sep t := by
  induction ls with
  | nil => rfl
  | cons l ls ih =>
    rw [List.forall_mem_cons] at lines
    rw [List.flatten_cons, List.append_assoc, completeLines_append lines.1, ih lines.2,
      List.cons_append]

theorem nextLine_eq_none {s : List β} : nextLine sep s = none ↔ completeLines sep s = [] :=
  List.head?_eq_none_iff

theorem nextLine_eq_some {s l : List β} (found : nextLine sep s = some l) :
    IsLine sep l ∧ ∃ t, s = l ++ t := by
  obtain ⟨rest, lines⟩ := List.head?_eq_some_iff.mp found
  obtain ⟨line, t, split, -⟩ := completeLines_eq_cons lines
  exact ⟨line, t, split⟩

theorem IsLine.ne_nil {l : List β} (line : IsLine sep l) : l ≠ [] := by
  rintro rfl
  cases line

/-- Where every line is finished and none is left, nothing is left. -/
theorem Terminated.drop_eq_nil {s : List β} (h : Terminated sep s) {n : ℕ}
    (read : completeLines sep (s.drop n) = []) : s.drop n = [] := by
  rcases h with rfl | last
  · exact List.drop_nil
  · by_contra some_
    have more : n < s.length := by
      by_contra short
      exact some_ (List.drop_of_length_le (Nat.le_of_not_lt short))
    have final : (s.drop n).getLast? = some sep := by
      rw [List.getLast?_drop, if_neg (Nat.not_le_of_lt more), last]
    exact completeLines_eq_nil.mp read (List.mem_of_getLast? final)

example : completeLines 0 [1, 2, 0, 0, 3] = [[1, 2, 0], [0]] := by decide

end Casa.LineStream
