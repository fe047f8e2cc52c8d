import Casa.SpecialistFiles

/-! What every call under the lock keeps: a link at the path of a slug leads to a complete content
directory of that slug, and only the removal of the path unmakes it. On top of it, what a
materialization and the reconciliation of one slug leave behind. -/

namespace Casa.SpecialistHeal
open OperationTree FallibleTree SpecialistFiles

section Names
variable {slug other name : String}

def Dotted (name : String) : Prop := name.toList.head? = some '.'

theorem dotted_append {a b : String} (h : Dotted a) : Dotted (a ++ b) := by
  unfold Dotted at h ⊢
  rw [String.toList_append, List.head?_append, h]
  rfl

theorem dotted_dot : Dotted ("." ++ slug) := dotted_append (by unfold Dotted; decide)

theorem dotted_linkName (h : Hex) : Dotted (linkName slug h) :=
  dotted_append (dotted_append dotted_dot)

theorem dotted_priorName (h : Hex) : Dotted (priorName slug h) :=
  dotted_append (dotted_append dotted_dot)

theorem not_valid_of_dotted (h : Dotted name) : isValidSlug name = false := by
  unfold Dotted at h
  unfold isValidSlug
  cases chars : name.toList with
  | nil => rfl
  | cons c rest =>
    rw [chars] at h
    obtain rfl := Option.some.inj h
    rfl

theorem not_dotted_of_valid (h : isValidSlug name = true) : ¬Dotted name := fun dotted =>
  absurd (h.symm.trans (not_valid_of_dotted dotted)) (by decide)

theorem afterStart_eq_some {start text rest : List Char} :
    afterStart start text = some rest ↔ text = start ++ rest := by
  unfold afterStart
  constructor
  · intro h
    split at h
    · next sub =>
      obtain rfl := Option.some.inj h
      exact (List.prefix_iff_eq_append.mp (List.isPrefixOf_iff_prefix.mp sub)).symm
    · cases h
  · rintro rfl
    have sub : start.isPrefixOf (start ++ rest) = true :=
      List.isPrefixOf_iff_prefix.mpr (List.prefix_append start rest)
    rw [if_pos sub, List.drop_left]

theorem isMaterial_iff : isMaterial slug name = true ↔
    ∃ rest, isHex 32 rest = true ∧ name.toList = ("." ++ slug ++ ".material-").toList ++ rest := by
  unfold isMaterial
  constructor
  · intro h
    split at h
    · next rest found => exact ⟨rest, h, afterStart_eq_some.mp found⟩
    · cases h
  · rintro ⟨rest, shaped, eq⟩
    rw [afterStart_eq_some.mpr eq]
    exact shaped

theorem isMaterial_material (h : Hex) : isMaterial slug (material slug h) = true :=
  isMaterial_iff.mpr ⟨h.text.toList, h.shaped, by rw [material, String.toList_append]⟩

theorem dotted_of_isMaterial (h : isMaterial slug name = true) : Dotted name := by
  obtain ⟨rest, -, eq⟩ := isMaterial_iff.mp h
  have dotted : Dotted ("." ++ slug ++ ".material-") := dotted_append dotted_dot
  unfold Dotted at dotted ⊢
  rw [eq, List.head?_append, dotted]
  rfl

theorem length_of_isHex {n : ℕ} {cs : List Char} (h : isHex n cs = true) : cs.length = n := by
  unfold isHex at h
  rw [Bool.and_eq_true, decide_eq_true_eq] at h
  exact h.1

theorem start_unique {a b : String} {as bs : List Char} (ha : isHex 32 as = true)
    (hb : isHex 32 bs = true) (same : a.toList ++ as = b.toList ++ bs) : a.toList = b.toList :=
  (List.append_inj' same ((length_of_isHex ha).trans (length_of_isHex hb).symm)).1

theorem isMaterial_unique (h : isMaterial slug name = true) (h' : isMaterial other name = true) :
    slug = other := by
  obtain ⟨rest, shaped, eq⟩ := isMaterial_iff.mp h
  obtain ⟨rest', shaped', eq'⟩ := isMaterial_iff.mp h'
  have same := String.toList_inj.mp (start_unique shaped shaped' (eq.symm.trans eq'))
  rw [String.append_assoc, String.append_assoc, String.append_right_inj,
    String.append_left_inj] at same
  exact same

theorem not_isMaterial {a : String} {h : Hex}
    (differ : ∀ x y : List Char, x ++ a.toList ≠ y ++ ".material-".toList) :
    isMaterial other ("." ++ slug ++ a ++ h.text) = false := by
  rw [Bool.eq_false_iff]
  intro yes
  obtain ⟨rest, shaped, eq⟩ := isMaterial_iff.mp yes
  rw [String.toList_append] at eq
  have same := start_unique h.shaped shaped eq
  simp only [String.toList_append] at same
  exact differ _ _ same

theorem not_isMaterial_linkName (h : Hex) : isMaterial other (linkName slug h) = false := by
  refine not_isMaterial fun x y same => ?_
  have := congrArg List.reverse same
  simp at this

theorem not_isMaterial_priorName (h : Hex) : isMaterial other (priorName slug h) = false := by
  refine not_isMaterial fun x y same => ?_
  have := congrArg List.reverse same
  simp at this

end Names

def Complete (slug : String) (d : OpDir) : Prop := ∃ role persona m, d = fileSet slug role persona m

def Linked (slug : String) (d : OpDir) (s : State) : Prop :=
  ∃ t, isMaterial slug t = true ∧ s.agents slug = some (.link t) ∧ s.agents t = some (.dir d)

def Own (s : State) : Prop :=
  ∀ slug t, isValidSlug slug = true → s.agents slug = some (.link t) →
    isMaterial slug t = true ∧ ∃ d, s.agents t = some (.dir d) ∧ Complete slug d

def Unlinked (name : String) (s : State) : Prop :=
  ∀ slug, isValidSlug slug = true → s.agents slug ≠ some (.link name)

/-- Where each operation may be asked for: nothing that a path leads to is written to, moved or
removed, and a link that comes to a path leads to a complete set. -/
def licence : Op → State → Prop
  | .create dir _, s => Unlinked dir s
  | .fill dir _ _, s => Unlinked dir s
  | .rmtree name, s => Unlinked name s
  | .symlink _ name, _ => isValidSlug name = false
  | .replace src dst, s =>
    (∀ t, s.agents src = some (.link t) → isValidSlug src = false ∧ isMaterial dst t = true ∧
      ∃ d, s.agents t = some (.dir d) ∧ Complete dst d) ∧
    ∀ d, s.agents src = some (.dir d) → Unlinked src s ∧ Unlinked dst s
  | _, _ => True

section Invariant
variable {w : World} {s s' : State} {slug name target : String} {i : Input}

theorem Own.of_agents (own : Own s) (same : s'.agents = s.agents) : Own s' := by
  unfold Own
  rw [same]
  exact own

theorem Unlinked.of_agents (h : Unlinked name s) (same : s'.agents = s.agents) :
    Unlinked name s' := by
  unfold Unlinked
  rw [same]
  exact h

theorem Own.unlinked (own : Own s) (link : ∀ d, s.agents name ≠ some (.dir d)) :
    Unlinked name s := by
  intro slug valid points
  obtain ⟨-, d, found, -⟩ := own slug name valid points
  exact link d found

@[simp]
theorem set_agents_self (v : Option Node) : (s.set name v).agents name = v :=
  Function.update_self ..

theorem set_agents_ne {other : String} (ne : other ≠ name) (v : Option Node) :
    (s.set name v).agents other = s.agents other :=
  Function.update_of_ne ne ..

theorem Own.set (own : Own s) (unlinked : Unlinked name s) {v : Option Node}
    (fresh : isValidSlug name = true → ∀ t, v = some (.link t) → isMaterial name t = true ∧
      ∃ d, s.agents t = some (.dir d) ∧ Complete name d) : Own (s.set name v) := by
  intro slug t valid points
  by_cases here : slug = name
  · subst here
    rw [set_agents_self] at points
    obtain ⟨shaped, d, found, complete⟩ := fresh valid t points
    refine ⟨shaped, d, ?_, complete⟩
    have ne : t ≠ slug := by
      rintro rfl
      exact not_dotted_of_valid valid (dotted_of_isMaterial shaped)
    exact (set_agents_ne ne v).trans found
  · rw [set_agents_ne here] at points
    obtain ⟨shaped, d, found, complete⟩ := own slug t valid points
    refine ⟨shaped, d, ?_, complete⟩
    have ne : t ≠ name := by
      rintro rfl
      exact unlinked slug valid points
    exact (set_agents_ne ne v).trans found

theorem Unlinked.set {other : String} (h : Unlinked other s) {v : Option Node}
    (fresh : isValidSlug name = true → v ≠ some (.link other)) : Unlinked other (s.set name v) := by
  intro slug valid points
  by_cases here : slug = name
  · subst here
    rw [set_agents_self] at points
    exact fresh valid points
  · rw [set_agents_ne here] at points
    exact h slug valid points

theorem look_state {α : Type} (a : Except Fault α) :
    (s.look i a).2 = if i.fails then s.hurt else s := by
  unfold State.look
  split <;> rfl

theorem become_state {t : Option State} (P : State → Prop) (old : P s.hurt)
    (new : ∀ u, t = some u → P u) : P (s.become i t).2 := by
  unfold State.become
  split
  · exact new _ rfl
  · exact old

/-- What a rename that succeeds has done: a link never lands on a directory, nor a directory on a
link. -/
theorem replaced_eq {src dst : String} (done : s.replaced src dst = some s') :
    ∃ n, s.agents src = some n ∧ s' = (s.set src none).set dst (some n) ∧
      ((∃ t, n = .link t ∧ ∀ d, s.agents dst ≠ some (.dir d)) ∨
        ∃ d, n = .dir d ∧ ∀ t, s.agents dst ≠ some (.link t)) := by
  unfold State.replaced at done
  cases hs : s.agents src with
  | none =>
    rw [hs] at done
    cases hd : s.agents dst <;> rw [hd] at done <;> cases done
  | some n =>
    refine ⟨n, rfl, ?_⟩
    cases hd : s.agents dst with
    | none =>
      rw [hs, hd] at done
      cases n with
      | link t => exact ⟨(Option.some.inj done).symm, .inl ⟨t, rfl, by simp⟩⟩
      | dir d => exact ⟨(Option.some.inj done).symm, .inr ⟨d, rfl, by simp⟩⟩
    | some m =>
      rw [hs, hd] at done
      cases n with
      | link t =>
        cases m with
        | dir d => cases done
        | link t' => exact ⟨(Option.some.inj done).symm, .inl ⟨t, rfl, by simp⟩⟩
      | dir d =>
        cases m with
        | link t' => cases done
        | dir e =>
          cases e with
          | nil => exact ⟨(Option.some.inj done).symm, .inr ⟨d, rfl, by simp⟩⟩
          | cons f rest => cases done

theorem own_replaced {src dst : String} (own : Own s) (may : licence (.replace src dst) s)
    (done : s.replaced src dst = some s') : Own s' := by
  obtain ⟨n, hs, rfl, kind⟩ := replaced_eq done
  have unlinked : Unlinked src s := by
    rcases kind with ⟨t, rfl, -⟩ | ⟨d, rfl, -⟩
    · exact own.unlinked fun d no => by rw [hs] at no; cases no
    · exact (may.2 d hs).1
  have first : Own (s.set src none) := own.set unlinked fun _ t no => by cases no
  rcases kind with ⟨t, rfl, away⟩ | ⟨d, rfl, -⟩
  · obtain ⟨-, shaped, d, found, complete⟩ := may.1 t hs
    have ne : t ≠ src := by
      rintro rfl
      rw [hs] at found
      cases found
    refine first.set ((own.unlinked away).set fun _ no => by cases no) fun _ u points => ?_
    obtain rfl : t = u := by injection points with same; injection same
    exact ⟨shaped, d, (set_agents_ne ne none).trans found, complete⟩
  · refine first.set ((may.2 d hs).2.set fun _ no => by cases no) fun _ u points => ?_
    cases points

theorem agents_look {α : Type} (a : Except Fault α) : (s.look i a).2.agents = s.agents := by
  rw [look_state]
  split <;> rfl

theorem own_written {dir file : String} {text : Text} (own : Own s) (unlinked : Unlinked dir s)
    (done : s.written dir file text = some s') : Own s' := by
  unfold State.written at done
  split at done
  · obtain rfl := Option.some.inj done
    exact own.set unlinked fun _ t no => by cases no
  · cases done

theorem own_new {v : Node} (own : Own s) (plain : ∀ t, v = .link t → isValidSlug name = false)
    (done : (if (s.agents name).isSome then none else some (s.set name (some v))) = some s') :
    Own s' := by
  split at done
  · cases done
  · next absent =>
    obtain rfl := Option.some.inj done
    refine own.set (own.unlinked fun d no => absent (by rw [no]; rfl)) fun valid t points => ?_
    have := plain t (Option.some.inj points)
    rw [valid] at this
    cases this

theorem own_removed (own : Own s) (unlinked : Unlinked name s) : Own (s.removed i name) := by
  unfold State.removed
  split
  · split
    · exact (own.set unlinked fun _ t no => by cases no).of_agents rfl
    · exact own.set unlinked fun _ t no => by cases no
  · split
    · exact own.of_agents rfl
    · exact own

theorem agents_setRole {dest : String} {r : RoleDir} (done : s.setRole dest r = some s') :
    s'.agents = s.agents := by
  unfold State.setRole at done
  obtain ⟨o, -, rfl⟩ := Option.map_eq_some_iff.mp done
  rfl

theorem agents_bind_setRole {dest : String} {f : RoleDir → RoleDir}
    (done : ((s.role dest).bind fun r => s.setRole dest (f r)) = some s') :
    s'.agents = s.agents := by
  obtain ⟨r, -, set⟩ := Option.bind_eq_some_iff.mp done
  exact agents_setRole set

theorem kept {op : Op} (own : Own s) (may : licence op s) : Own (device w op i s).2 := by
  have hurt : Own s.hurt := own.of_agents rfl
  cases op with
  | listSpecialists => exact own.of_agents (agents_look _)
  | loadTuple slug file => exact own.of_agents (agents_look _)
  | loadRole checksum => exact own.of_agents (agents_look _)
  | loadPersona source => exact own.of_agents (agents_look _)
  | uuid => exact own.of_agents rfl
  | mkdirAgents =>
    refine become_state Own hurt fun u done => ?_
    obtain rfl := Option.some.inj done
    exact own
  | mkdir name => exact become_state Own hurt fun u done => own_new own (fun t no => by cases no) done
  | create dir file => exact become_state Own hurt fun u done => own_written own may done
  | fill dir file text => exact become_state Own hurt fun u done => own_written own may done
  | rmtree name => exact own_removed own may
  | isSymlink name => exact own.of_agents (agents_look _)
  | exists_ name => exact own.of_agents (agents_look _)
  | readlink name => exact own.of_agents (agents_look _)
  | symlink target name =>
    exact become_state Own hurt fun u done => own_new own (fun _ _ => may) done
  | replace src dst => exact become_state Own hurt fun u done => own_replaced own may done
  | readMarker slug =>
    simp only [device]
    split
    · exact hurt
    · exact own
  | unlink name =>
    refine become_state Own hurt fun u done => ?_
    split at done
    · next t link =>
      obtain rfl := Option.some.inj done
      refine own.set (own.unlinked fun d no => ?_) fun _ t no => by cases no
      rw [link] at no
      cases no
    · cases done
  | overlayExists => exact own.of_agents (agents_look _)
  | rmtreeOverlay =>
    simp only [device]
    split
    · exact own.of_agents rfl
    · exact own.of_agents rfl
  | mkdirOverlay =>
    refine become_state Own hurt fun u done => ?_
    split at done
    · cases done
    · obtain rfl := Option.some.inj done
      exact own.of_agents rfl
  | listImage => exact own.of_agents (agents_look _)
  | mkdirRole dest =>
    exact become_state Own hurt fun u done => own.of_agents (agents_setRole done)
  | isRoleFile source file => exact own.of_agents (agents_look _)
  | readRoleFile source file => exact own.of_agents (agents_look _)
  | createRoleFile dest file =>
    exact become_state Own hurt fun u done => own.of_agents (agents_bind_setRole done)
  | fillRoleFile dest file bytes =>
    exact become_state Own hurt fun u done => own.of_agents (agents_bind_setRole done)

def touched : Op → List String
  | .mkdir name => [name]
  | .create dir _ => [dir]
  | .fill dir _ _ => [dir]
  | .rmtree name => [name]
  | .symlink _ name => [name]
  | .replace src dst => [src, dst]
  | .unlink name => [name]
  | _ => []

theorem agents_set_some {v : Option Node} {c : Prop} [Decidable c] {other : String}
    (away : other ≠ name) (done : (if c then none else some (s.set name v)) = some s') :
    s'.agents other = s.agents other := by
  split at done
  · cases done
  · obtain rfl := Option.some.inj done
    exact set_agents_ne away _

theorem agents_written {dir file other : String} {text : Text} (away : other ≠ dir)
    (done : s.written dir file text = some s') : s'.agents other = s.agents other := by
  unfold State.written at done
  split at done
  · obtain rfl := Option.some.inj done
    exact set_agents_ne away _
  · cases done

theorem agents_removed {other : String} (ne : other ≠ name) :
    (s.removed i name).agents other = s.agents other := by
  unfold State.removed
  split
  · split
    · exact set_agents_ne ne _
    · exact set_agents_ne ne _
  · split <;> rfl

theorem agents_of_not_touched {op : Op} {other : String} (away : other ∉ touched op) :
    (device w op i s).2.agents other = s.agents other := by
  cases op with
  | uuid => rfl
  | mkdirAgents =>
    refine become_state (fun u => u.agents other = s.agents other) rfl fun u done => ?_
    obtain rfl := Option.some.inj done
    rfl
  | mkdir name =>
    have ne : other ≠ name := by simpa [touched] using away
    exact become_state (fun u => u.agents other = s.agents other) rfl fun u => agents_set_some ne
  | create dir file =>
    have ne : other ≠ dir := by simpa [touched] using away
    exact become_state (fun u => u.agents other = s.agents other) rfl fun u => agents_written ne
  | fill dir file text =>
    have ne : other ≠ dir := by simpa [touched] using away
    exact become_state (fun u => u.agents other = s.agents other) rfl fun u => agents_written ne
  | rmtree name =>
    have ne : other ≠ name := by simpa [touched] using away
    exact agents_removed ne
  | symlink target name =>
    have ne : other ≠ name := by simpa [touched] using away
    exact become_state (fun u => u.agents other = s.agents other) rfl fun u => agents_set_some ne
  | replace src dst =>
    obtain ⟨ne, ne'⟩ : other ≠ src ∧ other ≠ dst := by simpa [touched] using away
    refine become_state (fun u => u.agents other = s.agents other) rfl fun u done => ?_
    obtain ⟨n, -, rfl, -⟩ := replaced_eq done
    rw [set_agents_ne ne', set_agents_ne ne]
  | readMarker slug =>
    simp only [device]
    split <;> rfl
  | unlink name =>
    have ne : other ≠ name := by simpa [touched] using away
    refine become_state (fun u => u.agents other = s.agents other) rfl fun u done => ?_
    split at done
    · obtain rfl := Option.some.inj done
      exact set_agents_ne ne _
    · cases done
  | rmtreeOverlay =>
    simp only [device]
    split <;> rfl
  | mkdirOverlay =>
    refine become_state (fun u => u.agents other = s.agents other) rfl fun u done => ?_
    split at done
    · cases done
    · obtain rfl := Option.some.inj done
      rfl
  | mkdirRole dest =>
    refine become_state (fun u => u.agents other = s.agents other) rfl fun u done => ?_
    rw [agents_setRole done]
  | createRoleFile dest file =>
    refine become_state (fun u => u.agents other = s.agents other) rfl fun u done => ?_
    rw [agents_bind_setRole done]
  | fillRoleFile dest file bytes =>
    refine become_state (fun u => u.agents other = s.agents other) rfl fun u done => ?_
    rw [agents_bind_setRole done]
  | _ => exact congrFun (agents_look _) other

theorem stays {op : Op} {t : String} (valid : isValidSlug slug = true) (may : licence op s)
    (other : op ≠ .unlink slug) (link : s.agents slug = some (.link t)) :
    ∃ t', (device w op i s).2.agents slug = some (.link t') := by
  by_cases away : slug ∈ touched op
  · have absent : ∀ {v : Node}, (if (s.agents slug).isSome then none else some (s.set slug (some v))) =
        (none : Option State) := by
      intro v
      rw [link]
      rfl
    have unwritten : ∀ file text, s.written slug file text = none := by
      intro file text
      unfold State.written
      rw [link]
    cases op with
    | mkdir name =>
      obtain rfl : slug = name := by simpa [touched] using away
      refine become_state (fun u => ∃ t', u.agents slug = some (.link t')) ⟨t, link⟩ fun u done => ?_
      rw [absent] at done
      cases done
    | create dir file =>
      obtain rfl : slug = dir := by simpa [touched] using away
      refine become_state (fun u => ∃ t', u.agents slug = some (.link t')) ⟨t, link⟩ fun u done => ?_
      rw [unwritten] at done
      cases done
    | fill dir file text =>
      obtain rfl : slug = dir := by simpa [touched] using away
      refine become_state (fun u => ∃ t', u.agents slug = some (.link t')) ⟨t, link⟩ fun u done => ?_
      rw [unwritten] at done
      cases done
    | rmtree name =>
      obtain rfl : slug = name := by simpa [touched] using away
      refine ⟨t, ?_⟩
      simp only [device, State.removed, link]
      split
      · exact link
      · exact link
    | symlink target name =>
      obtain rfl : slug = name := by simpa [touched] using away
      refine become_state (fun u => ∃ t', u.agents slug = some (.link t')) ⟨t, link⟩ fun u done => ?_
      rw [absent] at done
      cases done
    | replace src dst =>
      refine become_state (fun u => ∃ t', u.agents slug = some (.link t')) ⟨t, link⟩ fun u done => ?_
      obtain ⟨n, hs, rfl, kind⟩ := replaced_eq done
      have ne : slug ≠ src := by
        rintro rfl
        obtain ⟨plain, -⟩ := may.1 t link
        rw [valid] at plain
        cases plain
      have here : slug = dst := by
        have : slug = src ∨ slug = dst := by simpa [touched] using away
        exact this.resolve_left ne
      subst here
      rcases kind with ⟨t', rfl, -⟩ | ⟨d, rfl, no⟩
      · exact ⟨t', set_agents_self _⟩
      · exact absurd link (no t)
    | unlink name =>
      obtain rfl : slug = name := by simpa [touched] using away
      exact absurd rfl other
    | _ => cases away
  · exact ⟨t, (agents_of_not_touched away).trans link⟩

theorem failed_look {α : Type} (a : Except Fault α) (failed : s.failed = true) :
    (s.look i a).2.failed = true := by
  rw [look_state]
  split
  · rfl
  · exact failed

theorem failed_stays {op : Op} (failed : s.failed = true) : (device w op i s).2.failed = true := by
  have becomes : ∀ {t : Option State}, (∀ u, t = some u → u.failed = true) →
      (s.become i t).2.failed = true := fun h => become_state (fun u => u.failed = true) rfl h
  have setRole : ∀ {dest r u}, s.setRole dest r = some u → u.failed = true := by
    intro dest r u done
    unfold State.setRole at done
    obtain ⟨o, -, rfl⟩ := Option.map_eq_some_iff.mp done
    exact failed
  have written : ∀ {dir file text u}, s.written dir file text = some u → u.failed = true := by
    intro dir file text u done
    unfold State.written at done
    split at done
    · obtain rfl := Option.some.inj done
      exact failed
    · cases done
  have made : ∀ {name v u}, (if (s.agents name).isSome then none else some (s.set name v)) = some u →
      u.failed = true := by
    intro name v u done
    split at done
    · cases done
    · obtain rfl := Option.some.inj done
      exact failed
  cases op with
  | uuid => exact failed
  | mkdirAgents => exact becomes fun u done => Option.some.inj done ▸ failed
  | mkdir name => exact becomes fun u => made
  | create dir file => exact becomes fun u => written
  | fill dir file text => exact becomes fun u => written
  | rmtree name =>
    simp only [device, State.removed]
    split
    · split
      · rfl
      · exact failed
    · split
      · rfl
      · exact failed
  | symlink target name => exact becomes fun u => made
  | replace src dst =>
    refine becomes fun u done => ?_
    obtain ⟨n, -, rfl, -⟩ := replaced_eq done
    exact failed
  | readMarker slug =>
    simp only [device]
    split
    · rfl
    · exact failed
  | unlink name =>
    refine becomes fun u done => ?_
    split at done
    · obtain rfl := Option.some.inj done
      exact failed
    · cases done
  | rmtreeOverlay =>
    simp only [device]
    split
    · rfl
    · exact failed
  | mkdirOverlay =>
    refine becomes fun u done => ?_
    split at done
    · cases done
    · obtain rfl := Option.some.inj done
      exact failed
  | mkdirRole dest => exact becomes fun u => setRole
  | createRoleFile dest file =>
    refine becomes fun u done => ?_
    obtain ⟨r, -, set⟩ := Option.bind_eq_some_iff.mp done
    exact setRole set
  | fillRoleFile dest file bytes =>
    refine becomes fun u done => ?_
    obtain ⟨r, -, set⟩ := Option.bind_eq_some_iff.mp done
    exact setRole set
  | _ => exact failed_look _ failed

end Invariant

def Holds (w : World) {α : Type} (P : State → Prop) (p : Code α) (Q : α → State → Prop)
    (E : Fault → State → Prop) : Prop :=
  Triple (device w) Own licence (fun own may => kept own may) P p Q E

def Failed (_ : Fault) (s : State) : Prop := s.failed = true

section Rules
variable {w : World} {P : State → Prop} {E : Fault → State → Prop} {s : State} {i : Input}

theorem ends_look {α : Type} {Q : α → State → Prop} {a : Except Fault α} (failed : E .os s.hurt)
    (done : Ends Q E a s) : Ends Q E (s.look i a).1 (s.look i a).2 := by
  unfold State.look
  split
  · exact failed
  · exact done

theorem ends_become {Q : PUnit → State → Prop} {t : Option State} (failed : E .os s.hurt)
    (done : ∀ u, t = some u → Q ⟨⟩ u) : Ends Q E (s.become i t).1 (s.become i t).2 := by
  unfold State.become
  split
  · exact done _ rfl
  · exact failed

theorem holds_ask {op : Op} {Q : op.Answer → State → Prop}
    (h : ∀ s, Own s → P s → licence op s ∧
      ∀ i, Ends Q E (device w op i s).1 (device w op i s).2) : Holds w P (ask op) Q E :=
  triple_ask h

theorem holds_isSymlink {name : String} (steady : ∀ s, P s → P s.hurt ∧ E .os s.hurt) :
    Holds w P (ask (.isSymlink name)) (fun link s => P s ∧
      (link = true → ∃ t, s.agents name = some (.link t)) ∧
      (link = false → ∀ t, s.agents name ≠ some (.link t))) E := by
  refine holds_ask fun s _ held => ⟨trivial, fun i => ends_look (steady s held).2 ⟨held, ?_⟩⟩
  cases node : s.agents name with
  | none => simp
  | some n => cases n <;> simp

theorem holds_uuid (steady : ∀ s n, P s → P { s with drawn := n }) :
    Holds w P (ask .uuid) (fun _ => P) E :=
  holds_ask fun s _ held => ⟨trivial, fun _ => steady s _ held⟩

end Rules

section Materialize
variable {w : World} {slug content : String} {role : RoleSlot} {persona : PersonaPack} {m : Marker}

def Built (content : String) (d : OpDir) (s : State) : Prop :=
  s.agents content = some (.dir d) ∧ Unlinked content s

theorem Built.of_agents {d : OpDir} {s s' : State} (h : Built content d s)
    (same : s'.agents = s.agents) : Built content d s' :=
  ⟨same ▸ h.1, h.2.of_agents same⟩

def Spoiled (content : String) (_ : Fault) (s : State) : Prop :=
  s.failed = true ∧ Unlinked content s

theorem Built.written {d : OpDir} {s s' : State} {file : String} {text : Text}
    (h : Built content d s) (done : s.written content file text = some s') :
    Built content (d.put file text) s' := by
  unfold State.written at done
  rw [h.1] at done
  obtain rfl := Option.some.inj done
  exact ⟨set_agents_self _, h.2.set fun _ no => by cases no⟩

theorem put_put (d : OpDir) (file : String) (a b : Text) :
    (d.put file a).put file b = d.put file b := by
  simp [OpDir.put, List.filter_filter]

theorem writeText_spec {d : OpDir} {file : String} {text : Text} :
    Holds w (Built content d) (writeText content file text)
      (fun _ => Built content (d.put file text)) (Spoiled content) := by
  unfold writeText
  refine Triple.bind (Q := fun _ => Built content (d.put file (.other ""))) ?_ fun _ => ?_
  · exact holds_ask fun s _ built => ⟨built.2, fun i =>
      ends_become ⟨rfl, built.2.of_agents rfl⟩ fun u done => built.written done⟩
  · refine holds_ask fun s _ built => ⟨built.2, fun i =>
      ends_become ⟨rfl, built.2.of_agents rfl⟩ fun u done => ?_⟩
    rw [← put_put d file (.other "") text]
    exact built.written done

theorem writeContent_spec :
    Holds w (Built content []) (writeContent slug content role persona m)
      (fun _ => Built content (fileSet slug role persona m)) Failed := by
  unfold writeContent
  refine Triple.rescue (E := Spoiled content) ?_ fun e => ?_
  · unfold writeSpecialistOperationalFiles
    refine Triple.bind (Q := fun _ => Built content (fileSet slug role persona m).tail) ?_ fun _ => ?_
    · refine Triple.bind writeText_spec fun _ => ?_
      refine Triple.bind writeText_spec fun _ => ?_
      refine Triple.bind writeText_spec fun _ => ?_
      exact writeText_spec
    · exact writeText_spec
  · refine Triple.bind (Q := fun _ s => s.failed = true) ?_ fun _ => ?_
    · refine holds_ask fun s _ spoiled => ⟨spoiled.2, fun i => ?_⟩
      have kept : (device w (.rmtree content) i s).2.failed = true := failed_stays spoiled.1
      exact kept
    · exact triple_raise fun _ _ held => held

def Points (slug content : String) (d : OpDir) (s : State) : Prop :=
  s.agents slug = some (.link content) ∧ s.agents content = some (.dir d)

theorem retarget_spec {d : OpDir} (valid : isValidSlug slug = true)
    (shaped : isMaterial slug content = true) (complete : Complete slug d) :
    Holds w (Built content d) (retarget slug content) (fun _ => Points slug content d) Failed := by
  unfold retarget
  refine Triple.bind (holds_uuid fun s n built => built.of_agents rfl) fun h => ?_
  have plain : isValidSlug (linkName slug h) = false := not_valid_of_dotted (dotted_linkName h)
  refine Triple.bind (Q := fun _ s => Built content d s ∧
    s.agents (linkName slug h) = some (.link content)) ?_ fun _ => ?_
  · refine holds_ask fun s _ built => ⟨plain, fun i => ends_become rfl fun u done => ?_⟩
    split at done
    · cases done
    · next absent =>
      obtain rfl := Option.some.inj done
      have ne : content ≠ linkName slug h := by
        rintro rfl
        rw [built.1] at absent
        exact absent rfl
      refine ⟨⟨(set_agents_ne ne _).trans built.1, built.2.set fun valid => ?_⟩, set_agents_self _⟩
      rw [plain] at valid
      cases valid
  · refine holds_ask fun s _ ⟨built, link⟩ => ⟨⟨fun t points => ?_, fun e no => ?_⟩, fun i =>
      ends_become rfl fun u done => ?_⟩
    · obtain rfl : content = t := by
        rw [link] at points
        injection points with same
        injection same
      exact ⟨plain, shaped, d, built.1, complete⟩
    · rw [link] at no
      cases no
    · obtain ⟨n, found, rfl, -⟩ := replaced_eq done
      obtain rfl : n = .link content := Option.some.inj (found.symm.trans link)
      have away : content ≠ slug := by
        rintro rfl
        exact not_dotted_of_valid valid (dotted_of_isMaterial shaped)
      have ne : content ≠ linkName slug h := by
        intro same
        rw [same, not_isMaterial_linkName] at shaped
        cases shaped
      refine ⟨set_agents_self _, ?_⟩
      rw [set_agents_ne away, set_agents_ne ne]
      exact built.1

theorem material_ne (valid : isValidSlug slug = true) (shaped : isMaterial slug content = true) :
    content ≠ slug := by
  rintro rfl
  exact not_dotted_of_valid valid (dotted_of_isMaterial shaped)

theorem unlinked_prior {s : State} {p : String} {d : OpDir} (own : Own s)
    (points : Points slug content d s) (shaped : isMaterial slug p = true) (ne : p ≠ content) :
    Unlinked p s := by
  intro other valid link
  obtain rfl := isMaterial_unique shaped (own other p valid link).1
  rw [points.1] at link
  injection link with same
  injection same with same
  exact ne same.symm

theorem unlinked_plain {s : State} {name : String} (own : Own s)
    (plain : ∀ slug, isMaterial slug name = false) : Unlinked name s := by
  intro other valid link
  have := (own other name valid link).1
  rw [plain] at this
  cases this

theorem Points.removed {s : State} {name : String} {d : OpDir} {i : Input}
    (points : Points slug content d s) (ne : name ≠ slug) (ne' : name ≠ content) :
    Points slug content d (s.removed i name) :=
  ⟨(agents_removed ne.symm).trans points.1, (agents_removed ne'.symm).trans points.2⟩

theorem resolve_spec {P : State → Prop} (steady : ∀ s, P s → P s.hurt) :
    Holds w P (resolveMaterialContentDir slug) (fun prior s => P s ∧
      ∀ p, prior = some p → s.agents slug = some (.link p.1)) Failed := by
  unfold resolveMaterialContentDir
  refine Triple.rescue (E := fun _ => P) ?_ fun e => ?_
  · refine Triple.bind (Q := fun target s => P s ∧ s.agents slug = some (.link target)) ?_
      fun target => ?_
    · refine holds_ask fun s _ held => ⟨trivial, fun i => ends_look (steady s held) ?_⟩
      split
      · next t link => exact ⟨held, link⟩
      · exact held
    · refine triple_pure fun s _ held => ⟨held.1, fun p found => ?_⟩
      split at found
      · obtain rfl := Option.some.inj found
        exact held.2
      · cases found
  · exact triple_pure fun s _ held => ⟨held, fun p no => by cases no⟩

theorem gc_spec {d : OpDir} (valid : isValidSlug slug = true) (prior : Option (Material slug))
    (other : ∀ p, prior = some p → p.1 ≠ content) :
    Holds w (Points slug content d) (match prior with
      | some p => ask (.rmtree p.1)
      | none => pure ⟨⟩) (fun _ => Points slug content d) Failed := by
  cases prior with
  | none => exact triple_pure fun _ _ held => held
  | some p =>
    refine holds_ask fun s own points => ⟨unlinked_prior own points p.2 (other p rfl), fun i => ?_⟩
    exact points.removed (material_ne valid p.2) (other p rfl)

theorem unlinked_slug {s : State} (own : Own s) (valid : isValidSlug slug = true) :
    Unlinked slug s := by
  refine unlinked_plain own fun other => ?_
  rw [Bool.eq_false_iff]
  exact fun yes => not_dotted_of_valid valid (dotted_of_isMaterial yes)

theorem unlinked_priorName {s : State} (own : Own s) (h : Hex) :
    Unlinked (priorName slug h) s :=
  unlinked_plain own fun _ => not_isMaterial_priorName h

theorem priorName_ne_linkName (h h' : Hex) : priorName slug h ≠ linkName slug h' := by
  intro same
  unfold priorName linkName at same
  have chars := congrArg String.toList same
  rw [String.toList_append, String.toList_append (s := "." ++ slug ++ ".link-")] at chars
  have starts := congrArg List.length (start_unique h.shaped h'.shaped chars)
  simp at starts

def Aside (content backup : String) (d : OpDir) (s : State) : Prop :=
  Built content d s ∧ ∃ e, s.agents backup = some (.dir e)

theorem setAside_spec {d : OpDir} {h : Hex} (valid : isValidSlug slug = true)
    (shaped : isMaterial slug content = true) :
    Holds w (fun s => Built content d s ∧ ∀ t, s.agents slug ≠ some (.link t))
      (ask (.replace slug (priorName slug h))) (fun _ => Aside content (priorName slug h) d)
      Failed := by
  refine holds_ask fun s own ⟨built, real⟩ => ⟨⟨fun t link => absurd link (real t), fun e _ => ?_⟩,
    fun i => ends_become rfl fun u done => ?_⟩
  · exact ⟨unlinked_slug own valid, unlinked_priorName own h⟩
  · obtain ⟨n, found, rfl, kind⟩ := replaced_eq done
    rcases kind with ⟨t, rfl, -⟩ | ⟨e, rfl, -⟩
    · exact absurd found (real t)
    · have ne : content ≠ priorName slug h := by
        rintro rfl
        rw [not_isMaterial_priorName] at shaped
        cases shaped
      refine ⟨⟨?_, ?_⟩, e, set_agents_self _⟩
      · rw [set_agents_ne ne, set_agents_ne (material_ne valid shaped)]
        exact built.1
      · exact (built.2.set fun _ no => by cases no).set fun _ no => by cases no

theorem retarget_within {φ : Op → Prop} (quiet : φ .uuid)
    (link : ∀ h, φ (.symlink content (linkName slug h)))
    (move : ∀ h, φ (.replace (linkName slug h) slug)) : (retarget slug content).Within φ := by
  unfold retarget
  refine Script.within_bind (within_ask quiet) fun h => ?_
  exact Script.within_bind (within_ask (link h)) fun _ => within_ask (move h)

theorem migrate_spec {d : OpDir} (valid : isValidSlug slug = true)
    (shaped : isMaterial slug content = true) (complete : Complete slug d) :
    Holds w (fun s => Built content d s ∧ ∀ t, s.agents slug ≠ some (.link t))
      (migrate slug content) (fun _ => Points slug content d) Failed := by
  unfold migrate
  refine Triple.bind (holds_uuid fun s n held => ⟨held.1.of_agents rfl, held.2⟩) fun h => ?_
  refine Triple.bind (setAside_spec valid shaped) fun _ => ?_
  have away : priorName slug h ≠ slug := by
    intro same
    exact not_dotted_of_valid valid (same ▸ (dotted_priorName h : Dotted (priorName slug h)))
  refine Triple.bind (Q := fun _ => Points slug content d) ?_ fun _ => ?_
  · refine Triple.rescue (E := fun e s => Failed e s ∧
      ∃ f, s.agents (priorName slug h) = some (.dir f)) ?_ fun e => ?_
    · refine Triple.post (Triple.frame (retarget_spec valid shaped complete)
        (φ := fun op => priorName slug h ∉ touched op) ?_ ?_) (fun _ _ _ held => held.1)
        fun _ _ _ held => held
      · refine retarget_within (by simp [touched]) (fun h' => ?_) fun h' => ?_
        · simpa [touched] using priorName_ne_linkName h h'
        · simpa [touched] using ⟨priorName_ne_linkName h h', away⟩
      · rintro op i s out - - ⟨f, held⟩
        exact ⟨f, (agents_of_not_touched out).trans held⟩
    · refine Triple.bind (Q := fun _ s => s.failed = true) ?_ fun _ => ?_
      · refine holds_ask fun s own ⟨failed, f, held⟩ => ⟨⟨fun t no => ?_, fun _ _ => ?_⟩, fun i => ?_⟩
        · rw [held] at no
          cases no
        · exact ⟨unlinked_priorName own h, unlinked_slug own valid⟩
        · refine ends_become rfl fun u done => ?_
          obtain ⟨n, -, rfl, -⟩ := replaced_eq done
          exact failed
      · exact triple_raise fun _ _ held => held
  · refine holds_ask fun s own points => ⟨unlinked_priorName own h, fun i => ?_⟩
    refine points.removed away ?_
    intro same
    rw [← same, not_isMaterial_priorName] at shaped
    cases shaped

theorem land_spec {d : OpDir} (valid : isValidSlug slug = true)
    (shaped : isMaterial slug content = true) (complete : Complete slug d) :
    Holds w (Built content d) (land slug content) (fun _ => Points slug content d) Failed := by
  unfold land
  refine Triple.bind (holds_isSymlink fun s built => ⟨built.of_agents rfl, rfl⟩) fun link => ?_
  cases link with
  | true =>
    rw [if_pos rfl]
    refine Triple.pre (P := Built content d) ?_ fun s _ held => held.1
    refine Triple.bind (resolve_spec fun s built => built.of_agents rfl) fun prior => ?_
    refine Triple.pre (P := fun s => (∀ p, prior = some p → p.1 ≠ content) ∧ Built content d s) ?_ ?_
    · refine triple_of fun other => ?_
      exact Triple.bind (retarget_spec valid shaped complete) fun _ => gc_spec valid prior other
    · rintro s - ⟨built, points⟩
      refine ⟨fun p found same => ?_, built⟩
      exact built.2 slug valid (same ▸ points p found)
  | false =>
    rw [if_neg Bool.false_ne_true]
    refine Triple.bind (Q := fun _ s => Built content d s ∧ ∀ t, s.agents slug ≠ some (.link t)) ?_
      fun there => ?_
    · exact holds_ask fun s _ held => ⟨trivial, fun i => ends_look rfl ⟨held.1, held.2.2 rfl⟩⟩
    · cases there with
      | false =>
        rw [if_neg Bool.false_ne_true]
        exact (retarget_spec valid shaped complete).pre fun s _ held => held.1
      | true =>
        rw [if_pos rfl]
        exact migrate_spec valid shaped complete

theorem materialize_spec (valid : isValidSlug slug = true) :
    Holds w (fun _ => True) (materialize slug role persona m)
      (fun _ => Linked slug (fileSet slug role persona m)) Failed := by
  unfold materialize
  refine Triple.bind (Q := fun _ _ => True) ?_ fun _ => ?_
  · exact holds_ask fun s _ _ => ⟨trivial, fun i => ends_become rfl fun _ _ => trivial⟩
  refine Triple.bind (holds_uuid fun _ _ held => held) fun h => ?_
  have shaped : isMaterial slug (material slug h) = true := isMaterial_material h
  refine Triple.bind (Q := fun _ => Built (material slug h) []) ?_ fun _ => ?_
  · refine holds_ask fun s own _ => ⟨trivial, fun i => ends_become rfl fun u done => ?_⟩
    split at done
    · cases done
    · next absent =>
      obtain rfl := Option.some.inj done
      refine ⟨set_agents_self _, (own.unlinked fun d no => absent ?_).set fun _ no => by cases no⟩
      rw [no]
      rfl
  refine Triple.bind writeContent_spec fun _ => ?_
  refine Triple.post (land_spec valid shaped ⟨role, persona, m, rfl⟩) ?_ fun _ _ _ => id
  exact fun _ s _ points => ⟨material slug h, shaped, points⟩

end Materialize

end Casa.SpecialistHeal
