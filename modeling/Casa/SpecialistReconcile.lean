import Casa.SpecialistHeal

/-! The whole reconciliation: the scan of the tree, the healing of each slug, and the overlay. A
failure of an operation is on record in the state, so an assertion may allow for it; what is left
to raise is the damage of a component. -/

namespace Casa.SpecialistReconcile
open OperationTree FallibleTree SpecialistFiles SpecialistHeal

section World
variable (w : World)

/-- What the component and the persona of a tuple are loaded as, where neither is damaged. -/
def parts (t : InstanceTuple) : Option (RoleSlot × PersonaPack) :=
  match parseComponentRoot t.root with
  | .error _ => none
  | .ok checksum =>
    match w.persona (personaSource t checksum), w.role checksum with
    | .ok persona, .ok role => some (role, persona)
    | _, _ => none

/-- What one reconciliation owes a slug with this active tuple. -/
structure Healed (slug : String) (t : InstanceTuple) (s : State) : Prop where
  linked : ∀ role persona, parts w t = some (role, persona) →
    Linked slug (fileSet slug role persona t.marker) s
  marked : ∀ d, s.reach slug = some d → d.marker = some t.marker

def Family (slug name : String) : Prop :=
  name = slug ∨ isMaterial slug name = true ∨ (∃ h, name = linkName slug h) ∨
    ∃ h, name = priorName slug h

def About (slug : String) (op : Op) : Prop := ∀ name ∈ touched op, Family slug name

variable {w}
variable {slug other name : String} {s s' : State} {t : InstanceTuple}

theorem not_family {other : String} (valid : isValidSlug slug = true)
    (valid' : isValidSlug other = true) (ne : other ≠ slug)
    (mine : name = other ∨ isMaterial other name = true) : ¬Family slug name := by
  rintro (same | shaped | ⟨h, same⟩ | ⟨h, same⟩)
  · rcases mine with rfl | shaped
    · exact ne same
    · exact not_dotted_of_valid valid (same ▸ dotted_of_isMaterial shaped)
  · rcases mine with rfl | shaped'
    · exact not_dotted_of_valid valid' (dotted_of_isMaterial shaped)
    · exact ne (isMaterial_unique shaped' shaped)
  · rcases mine with rfl | shaped
    · exact not_dotted_of_valid valid' (same ▸ dotted_linkName h)
    · rw [same, not_isMaterial_linkName] at shaped
      cases shaped
  · rcases mine with rfl | shaped
    · exact not_dotted_of_valid valid' (same ▸ dotted_priorName h)
    · rw [same, not_isMaterial_priorName] at shaped
      cases shaped

theorem Healed.of_same (h : Healed w slug t s) (own : Own s) (valid : isValidSlug slug = true)
    (same : ∀ name, name = slug ∨ isMaterial slug name = true → s'.agents name = s.agents name) :
    Healed w slug t s' := by
  refine ⟨fun role persona whole => ?_, fun d found => h.marked d ?_⟩
  · obtain ⟨target, shaped, link, dir⟩ := h.linked role persona whole
    exact ⟨target, shaped, (same _ (.inl rfl)).trans link, (same _ (.inr shaped)).trans dir⟩
  · rw [← found]
    unfold State.reach
    rw [same slug (.inl rfl)]
    cases node : s.agents slug with
    | none => rfl
    | some n =>
      cases n with
      | dir d => rfl
      | link target =>
        dsimp only
        rw [same target (.inr (own slug target valid node).1)]

theorem marker_fileSet (role : RoleSlot) (persona : PersonaPack) (m : Marker) :
    (fileSet slug role persona m).marker = some m := by
  simp [fileSet, OpDir.marker]

theorem reach_of_linked {d : OpDir} (h : Linked slug d s) : s.reach slug = some d := by
  obtain ⟨target, -, link, dir⟩ := h
  unfold State.reach
  rw [link]
  dsimp only
  rw [dir]

end World

section Heal
variable {w : World} {slug : String} {t : InstanceTuple}

def Damaged (w : World) (t : InstanceTuple) (_ : Fault) (s : State) : Prop :=
  s.failed = true ∨ parts w t = none

theorem rematerialize_spec (valid : isValidSlug slug = true) :
    Holds w (fun _ => True) (rematerialize slug t)
      (fun _ s => ∃ role persona, parts w t = some (role, persona) ∧
        Linked slug (fileSet slug role persona t.marker) s) (Damaged w t) := by
  unfold rematerialize
  cases root : parseComponentRoot t.root with
  | error e =>
    refine Triple.bind (Q := fun _ _ => False) (triple_lift fun s _ _ => .inr ?_) fun _ => ?_
    · unfold parts
      rw [root]
    · exact fun s _ no => no.elim
  | ok checksum =>
    refine Triple.bind (Q := fun c _ => checksum = c ∧ True) (triple_lift fun s _ _ => ⟨rfl, trivial⟩)
      fun c => ?_
    refine triple_of fun same => ?_
    subst same
    refine Triple.bind (Q := fun p _ => w.persona (personaSource t checksum) = .ok p ∧ True) ?_
      fun persona => ?_
    · refine holds_ask fun s _ _ => ⟨trivial, fun i => ends_look (.inl rfl) ?_⟩
      cases loaded : w.persona (personaSource t checksum) with
      | ok p => exact ⟨rfl, trivial⟩
      | error e =>
        refine .inr ?_
        unfold parts
        rw [root]
        dsimp only
        rw [loaded]
    · refine triple_of fun loaded => ?_
      refine Triple.bind (Q := fun role _ => w.role checksum = .ok role ∧ True) ?_ fun role => ?_
      · refine holds_ask fun s _ _ => ⟨trivial, fun i => ends_look (.inl rfl) ?_⟩
        cases found : w.role checksum with
        | ok role => exact ⟨rfl, trivial⟩
        | error e =>
          refine .inr ?_
          unfold parts
          rw [root]
          dsimp only
          rw [loaded, found]
      · refine triple_of fun found => ?_
        refine Triple.post (materialize_spec valid) ?_ fun _ _ _ => .inl
        refine fun _ s _ linked => ⟨role, persona, ?_, linked⟩
        unfold parts
        rw [root]
        dsimp only
        rw [loaded, found]

theorem onDiskMarker_spec :
    Holds w (fun _ => True) (onDiskMarker slug) (fun m s => s.failed = true ∨
      ∀ d, m.isSome → s.reach slug = some d → d.marker = m) Failed := by
  unfold onDiskMarker
  refine Triple.bind (Q := fun _ _ => True) ?_ fun there => ?_
  · exact holds_ask fun s _ _ => ⟨trivial, fun i => ends_look rfl trivial⟩
  cases there with
  | false =>
    rw [if_neg Bool.false_ne_true]
    exact triple_pure fun s _ _ => .inr fun d no => by cases no
  | true =>
    rw [if_pos rfl]
    refine holds_ask fun s _ _ => ⟨trivial, fun i => ?_⟩
    simp only [device]
    split
    · exact .inl rfl
    · refine .inr fun d _ found => ?_
      rw [found]
      rfl

theorem dropPath_spec (valid : isValidSlug slug = true) :
    Holds w (fun _ => True) (dropPath slug) (fun _ s => s.failed = true ∨ s.reach slug = none)
      Failed := by
  unfold dropPath
  refine Triple.bind (holds_isSymlink fun _ _ => ⟨trivial, rfl⟩) fun link => ?_
  cases link with
  | true =>
    rw [if_pos rfl]
    refine holds_ask fun s _ held => ⟨trivial, fun i => ends_become rfl fun u done => .inr ?_⟩
    obtain ⟨target, found⟩ := held.2.1 rfl
    rw [found] at done
    obtain rfl := Option.some.inj done
    unfold State.reach
    rw [set_agents_self]
  | false =>
    rw [if_neg Bool.false_ne_true]
    refine Triple.bind (Q := fun there s => (∀ target, s.agents slug ≠ some (.link target)) ∧
      (there = false → s.reach slug = none)) ?_ fun there => ?_
    · refine holds_ask fun s _ held => ⟨trivial, fun i => ends_look rfl ⟨held.2.2 rfl, fun gone => ?_⟩⟩
      exact Option.not_isSome_iff_eq_none.mp (by rw [gone]; exact Bool.false_ne_true)
    · cases there with
      | false =>
        rw [if_neg Bool.false_ne_true]
        exact triple_pure fun s _ held => .inr (held.2 rfl)
      | true =>
        rw [if_pos rfl]
        refine holds_ask fun s own held => ⟨unlinked_slug own valid, fun i => ?_⟩
        change (s.removed i slug).failed = true ∨ (s.removed i slug).reach slug = none
        unfold State.removed
        split
        · split
          · exact .inl rfl
          · refine .inr ?_
            unfold State.reach
            rw [set_agents_self]
        · next no =>
          split
          · exact .inl rfl
          · refine .inr ?_
            unfold State.reach
            cases node : s.agents slug with
            | none => rfl
            | some n =>
              cases n with
              | dir d => exact absurd node (no d)
              | link target => exact absurd node (held.1 target)

theorem failClosed_spec (valid : isValidSlug slug = true) :
    Holds w (fun _ => True) (failClosed slug t) (fun _ s => s.failed = true ∨
      ∀ d, s.reach slug = some d → d.marker = some t.marker) Failed := by
  unfold failClosed
  refine Triple.bind onDiskMarker_spec fun m => ?_
  by_cases current : m = some t.marker
  · rw [if_pos current]
    subst current
    exact triple_pure fun s _ held => held.imp_right fun all d found => all d rfl found
  · rw [if_neg current]
    refine Triple.pre (P := fun _ => True) ?_ fun _ _ _ => trivial
    refine Triple.rescue (E := Failed) (Triple.post (dropPath_spec valid) ?_ fun _ _ _ => id) fun e => ?_
    · refine fun _ s _ gone => gone.imp_right fun none d found => ?_
      rw [none] at found
      cases found
    · split
      · exact triple_pure fun s _ failed => .inl failed
      · exact triple_raise fun s _ failed => failed

theorem beside {α : Type} {p : Code α} {Q : α → State → Prop} {E : Fault → State → Prop} (c : Prop)
    (h : Holds w (fun _ => True) p Q E) :
    Holds w (fun s => s.failed = true ∨ c) p (fun a s => Q a s ∧ (s.failed = true ∨ c)) E := by
  have within : p.Within fun _ => True := Prog.within_of_forall (fun _ => trivial) p
  have framed := Triple.frame (R := fun s => s.failed = true ∨ c) h within
    fun op i s _ _ _ held => held.imp_left failed_stays
  exact Triple.post (framed.pre fun s _ held => ⟨trivial, held⟩) (fun _ _ _ held => held)
    fun _ _ _ held => held.1

theorem healSlug_spec (valid : isValidSlug slug = true)
    (active : w.tuple slug .active = .ok (some t)) :
    Holds w (fun _ => True) (healSlug slug) (fun _ s => s.failed = true ∨ Healed w slug t s)
      Failed := by
  unfold healSlug
  refine Triple.bind (Q := fun a _ => a = some t ∧ True) ?_ fun a => triple_of fun same => ?_
  · refine holds_ask fun s _ _ => ⟨trivial, fun i => ends_look rfl ?_⟩
    rw [active]
    exact ⟨rfl, trivial⟩
  subst same
  refine Triple.rescue (E := Damaged w t) (Triple.post (rematerialize_spec valid) ?_ fun _ _ _ => id)
    fun e => ?_
  · rintro - s - ⟨role, persona, whole, linked⟩
    refine .inr ⟨fun role' persona' whole' => ?_, fun d found => ?_⟩
    · obtain ⟨rfl, rfl⟩ := Prod.mk.inj (Option.some.inj (whole.symm.trans whole'))
      exact linked
    · obtain rfl := Option.some.inj ((reach_of_linked linked).symm.trans found)
      exact marker_fileSet role persona t.marker
  · refine triple_or ?_ ?_
    · refine Triple.post (Triple.pre (beside False (failClosed_spec valid)) ?_) ?_ fun _ _ _ => id
      · exact fun s _ failed => .inl failed
      · exact fun _ s _ held => .inl (held.2.resolve_right id)
    · refine Triple.pre (P := fun _ => parts w t = none ∧ True) (triple_of fun none => ?_)
        fun s _ held => ⟨held, trivial⟩
      refine Triple.post (failClosed_spec valid) ?_ fun _ _ _ => id
      refine fun _ s _ held => held.imp_right fun marked => ⟨fun role persona whole => ?_, marked⟩
      rw [none] at whole
      cases whole

end Heal

section Frame
variable {slug : String} {role : RoleSlot} {persona : PersonaPack} {m : Marker} {t : InstanceTuple}

def Mending (slug : String) (op : Op) : Prop := About slug op ∧ ∀ name, op ≠ .unlink name

theorem mending_quiet {op : Op} (quiet : touched op = []) : Mending slug op := by
  refine ⟨fun name mem => ?_, fun name same => ?_⟩
  · rw [quiet] at mem
    cases mem
  · rw [same] at quiet
    cases quiet

theorem about_one {op : Op} {name : String} (only : touched op = [name])
    (mine : Family slug name) : About slug op := by
  intro other mem
  rw [only] at mem
  obtain rfl := List.mem_singleton.mp mem
  exact mine

theorem mending_one {op : Op} {name : String} (only : touched op = [name])
    (mine : Family slug name) (keeps : ∀ name, op ≠ .unlink name) : Mending slug op :=
  ⟨about_one only mine, keeps⟩

theorem mending_replace {src dst : String} (mine : Family slug src) (mine' : Family slug dst) :
    Mending slug (.replace src dst) := by
  refine ⟨fun name mem => ?_, by simp⟩
  rcases List.mem_cons.mp mem with rfl | mem
  · exact mine
  · obtain rfl := List.mem_singleton.mp mem
    exact mine'

theorem retarget_mending {content : String} : (retarget slug content).Within (Mending slug) :=
  retarget_within (mending_quiet rfl)
    (fun h => mending_one rfl (.inr (.inr (.inl ⟨h, rfl⟩))) (by simp))
    fun h => mending_replace (.inr (.inr (.inl ⟨h, rfl⟩))) (.inl rfl)

theorem migrate_mending {content : String} : (migrate slug content).Within (Mending slug) := by
  unfold migrate
  refine Script.within_bind (within_ask (mending_quiet rfl)) fun h => ?_
  have backup : Family slug (priorName slug h) := .inr (.inr (.inr ⟨h, rfl⟩))
  refine Script.within_bind (within_ask (mending_replace (.inl rfl) backup)) fun _ => ?_
  refine Script.within_bind (Script.within_rescue retarget_mending fun e => ?_) fun _ => ?_
  · refine Script.within_bind (within_ask (mending_replace backup (.inl rfl))) fun _ => ?_
    exact Script.within_raise e
  · exact within_ask (mending_one rfl backup (by simp))

theorem land_mending {content : String} : (land slug content).Within (Mending slug) := by
  unfold land
  refine Script.within_bind (within_ask (mending_quiet rfl)) fun link => Script.within_ite ?_ ?_
  · refine Script.within_bind ?_ fun prior => Script.within_bind retarget_mending fun _ => ?_
    · unfold resolveMaterialContentDir
      refine Script.within_rescue ?_ fun _ => Script.within_pure _
      exact Script.within_bind (within_ask (mending_quiet rfl)) fun _ => Script.within_pure _
    · cases prior with
      | none => exact Script.within_pure _
      | some p => exact within_ask (mending_one rfl (.inr (.inl p.2)) (by simp))
  · refine Script.within_bind (within_ask (mending_quiet rfl)) fun there => ?_
    exact Script.within_ite migrate_mending retarget_mending

theorem writeText_mending {content file : String} {text : Text} (mine : Family slug content) :
    (writeText content file text).Within (Mending slug) :=
  Script.within_bind (within_ask (mending_one rfl mine (by simp))) fun _ =>
    within_ask (mending_one rfl mine (by simp))

theorem materialize_mending : (materialize slug role persona m).Within (Mending slug) := by
  unfold materialize
  refine Script.within_bind (within_ask (mending_quiet rfl)) fun _ => ?_
  refine Script.within_bind (within_ask (mending_quiet rfl)) fun h => ?_
  have mine : Family slug (material slug h) := .inr (.inl (isMaterial_material h))
  refine Script.within_bind (within_ask (mending_one rfl mine (by simp))) fun _ => ?_
  refine Script.within_bind (Script.within_rescue ?_ fun e => ?_) fun _ => land_mending
  · refine Script.within_bind ?_ fun _ => writeText_mending mine
    refine Script.within_bind (writeText_mending mine) fun _ => ?_
    refine Script.within_bind (writeText_mending mine) fun _ => ?_
    exact Script.within_bind (writeText_mending mine) fun _ => writeText_mending mine
  · refine Script.within_bind (within_ask (mending_one rfl mine (by simp))) fun _ => ?_
    exact Script.within_raise e

theorem about_quiet {op : Op} (quiet : touched op = []) : About slug op := (mending_quiet quiet).1

theorem failClosed_about : (failClosed slug t).Within (About slug) := by
  unfold failClosed
  refine Script.within_bind ?_ fun m => Script.within_ite (Script.within_pure _) ?_
  · unfold onDiskMarker
    refine Script.within_bind (within_ask (about_quiet rfl)) fun _ => ?_
    exact Script.within_ite (within_ask (about_quiet rfl)) (Script.within_pure _)
  · refine Script.within_rescue ?_ fun e => ?_
    · unfold dropPath
      refine Script.within_bind (within_ask (about_quiet rfl)) fun _ => Script.within_ite ?_ ?_
      · exact within_ask (about_one rfl (.inl rfl))
      · refine Script.within_bind (within_ask (about_quiet rfl)) fun _ => ?_
        exact Script.within_ite (within_ask (about_one rfl (.inl rfl))) (Script.within_pure _)
    · exact Script.within_ite (Script.within_pure _) (Script.within_raise e)

theorem healSlug_about : (healSlug slug).Within (About slug) := by
  unfold healSlug
  refine Script.within_bind (within_ask (about_quiet rfl)) fun a => ?_
  cases a with
  | none => exact Script.within_pure _
  | some t =>
    refine Script.within_rescue ?_ fun _ => failClosed_about
    unfold rematerialize
    refine Script.within_bind (Script.within_lift _) fun checksum => ?_
    refine Script.within_bind (within_ask (about_quiet rfl)) fun persona => ?_
    exact Script.within_bind (within_ask (about_quiet rfl)) fun role =>
      Prog.Within.mono materialize_mending fun op mending => mending.1

end Frame

section Scan
variable (w : World)

def Found (installed : SpecialistInstance) : Prop :=
  ∀ t, installed.active = some t →
    isValidSlug installed.slug = true ∧ w.tuple installed.slug .active = .ok (some t)

def Isolated : Prop := ∀ slug file e, w.tuple slug file = .error e → e.isolated = true

def readInstance (slug : String) : Option SpecialistInstance :=
  match w.tuple slug .active, w.tuple slug .desired with
  | .ok a, .ok d => instanceOf slug a d
  | _, _ => some ⟨slug, .error, none, none⟩

def readInstances : List SpecialistInstance := (scanned w.entries).filterMap (readInstance w)

variable {w}

theorem instanceOf_active {slug : String} {a d : Option InstanceTuple} {found : SpecialistInstance}
    (h : instanceOf slug a d = some found) : found.slug = slug ∧ found.active = a := by
  cases a with
  | some t =>
    obtain rfl := Option.some.inj h
    exact ⟨rfl, rfl⟩
  | none =>
    cases d with
    | none => cases h
    | some t =>
      obtain rfl := Option.some.inj h
      exact ⟨rfl, rfl⟩

/-- The scan ends early: an operation has failed, or the damage is of a kind it does not isolate. -/
def Stopped (w : World) (_ : Fault) (s : State) : Prop := s.failed = true ∨ ¬Isolated w

theorem loadInstance_spec {slug : String} :
    Holds w (fun _ => True) (loadInstance slug) (fun found s =>
      (∀ i ∈ found, Found w i) ∧ (s.failed = true ∨ found = readInstance w slug)) (Stopped w) := by
  unfold loadInstance
  refine Triple.rescue (E := fun e s => (e.isolated = false → ¬Isolated w) ∧ (s.failed = true ∨
    readInstance w slug = some ⟨slug, .error, none, none⟩)) ?_ fun e => ?_
  · refine Triple.bind (Q := fun a _ => w.tuple slug .active = .ok a ∧ True) ?_ fun a => ?_
    · refine holds_ask fun s _ _ => ⟨trivial, fun i => ends_look ⟨by simp [Fault.isolated], .inl rfl⟩ ?_⟩
      cases active : w.tuple slug .active with
      | ok a => exact ⟨rfl, trivial⟩
      | error e =>
        refine ⟨fun no all => absurd (all slug .active e active) (by rw [no]; decide), .inr ?_⟩
        unfold readInstance
        rw [active]
    · refine triple_of fun active => ?_
      refine Triple.bind (Q := fun d _ => w.tuple slug .desired = .ok d ∧ True) ?_ fun d => ?_
      · refine holds_ask fun s _ _ => ⟨trivial, fun i => ends_look ⟨by simp [Fault.isolated], .inl rfl⟩ ?_⟩
        cases desired : w.tuple slug .desired with
        | ok d => exact ⟨rfl, trivial⟩
        | error e =>
          refine ⟨fun no all => absurd (all slug .desired e desired) (by rw [no]; decide), .inr ?_⟩
          unfold readInstance
          rw [active, desired]
      · refine triple_of fun desired => triple_pure fun s _ _ => ⟨fun i mem t is => ?_, .inr ?_⟩
        · obtain ⟨rfl, same⟩ := instanceOf_active mem
          rw [is] at same
          rw [← same] at active
          refine ⟨w.named i.slug .active ?_, active⟩
          rw [active]
          simp
        · unfold readInstance
          rw [active, desired]
  · refine Triple.pre (P := fun s => (e.isolated = false → ¬Isolated w) ∧ (s.failed = true ∨
      readInstance w slug = some ⟨slug, .error, none, none⟩)) (triple_of fun known => ?_) fun _ _ => id
    split
    · refine triple_pure fun s _ held => ⟨fun i mem t no => ?_, held.imp_right Eq.symm⟩
      obtain rfl := Option.some.inj mem
      cases no
    · next no => exact triple_raise fun s _ _ => .inr (known (Bool.eq_false_iff.mpr no))

theorem loadInstances_spec (names : List String) :
    Holds w (fun _ => True) (loadInstances names) (fun found s =>
      (∀ i ∈ found, Found w i) ∧ (s.failed = true ∨ found = names.filterMap (readInstance w)))
      (Stopped w) := by
  induction names with
  | nil => exact triple_pure fun s _ _ => ⟨fun i no => absurd no List.not_mem_nil, .inr rfl⟩
  | cons slug rest ih =>
    unfold loadInstances
    refine Triple.bind loadInstance_spec fun found => ?_
    refine Triple.pre (P := fun s => (∀ i ∈ found, Found w i) ∧
      (s.failed = true ∨ found = readInstance w slug)) (triple_of fun good => ?_) fun _ _ => id
    refine Triple.bind (beside _ ih) fun more => triple_pure fun s _ held => ?_
    obtain ⟨⟨goodMore, rests⟩, first⟩ := held
    refine ⟨fun i mem => ?_, ?_⟩
    · rcases List.mem_append.mp mem with here | there
      · exact good i (Option.mem_toList.mp here)
      · exact goodMore i there
    · rcases first with failed | rfl
      · exact .inl failed
      · refine rests.imp_right fun same => ?_
        rw [same, List.filterMap_cons]
        cases readInstance w slug <;> rfl

theorem load_spec :
    Holds w (fun _ => True) load (fun found s =>
      (∀ i ∈ found, Found w i) ∧ (s.failed = true ∨ found = readInstances w)) (Stopped w) := by
  unfold load
  refine Triple.bind (Q := fun entries _ => entries = w.entries ∧ True) ?_ fun entries => ?_
  · exact holds_ask fun s _ _ => ⟨trivial, fun i => ends_look (.inl rfl) ⟨rfl, trivial⟩⟩
  · refine triple_of fun same => ?_
    subst same
    exact loadInstances_spec _

theorem mem_bySlug {found : List SpecialistInstance} {i : SpecialistInstance} :
    i ∈ bySlug found ↔ i ∈ found :=
  (List.perm_insertionSort _ found).mem_iff

def Attended (w : World) (installed : SpecialistInstance) (s : State) : Prop :=
  ∀ t, installed.active = some t → s.failed = true ∨ Healed w installed.slug t s

theorem Attended.kept {op : Op} {i : Input} {s : State} {slug : String}
    {other : SpecialistInstance} (h : Attended w other s) (good : Found w other)
    (valid : isValidSlug slug = true) (ne : other.slug ≠ slug) (about : About slug op)
    (own : Own s) : Attended w other (device w op i s).2 := by
  intro t is
  obtain ⟨valid', -⟩ := good t is
  refine (h t is).imp failed_stays fun healed => healed.of_same own valid' fun name mine => ?_
  exact agents_of_not_touched fun mem => not_family valid valid' ne mine (about name mem)

theorem reconcileOperationalFiles_spec {found : List SpecialistInstance}
    (good : ∀ i ∈ found, Found w i) :
    Holds w (fun _ => True) (reconcileOperationalFiles found)
      (fun _ s => ∀ i ∈ found, Attended w i s) Failed := by
  unfold reconcileOperationalFiles
  refine Triple.post (triple_forEach_done (P := fun _ => True) (Attended w) (bySlug found) ?_) ?_
    fun _ _ _ => id
  · intro b mem done sub
    cases is : b.active with
    | none =>
      refine triple_pure fun s _ held => ⟨trivial, fun d here => ?_⟩
      rcases List.mem_cons.mp here with rfl | here
      · intro t no
        rw [is] at no
        cases no
      · exact held.2 d here
    | some t =>
      obtain ⟨valid, active⟩ := good b (mem_bySlug.mp mem) t is
      have framed := Triple.frame (healSlug_spec valid active) healSlug_about
        (R := fun s => ∀ d ∈ done, d.slug ≠ b.slug → Attended w d s)
        fun op i s about own _ held d here ne =>
          (held d here ne).kept (good d (mem_bySlug.mp (sub here))) valid ne about own
      refine Triple.post (framed.pre fun s _ held => ⟨trivial, fun d here _ => held.2 d here⟩) ?_
        fun _ _ _ held => held.1
      rintro - s - ⟨healed, rest⟩
      refine ⟨trivial, fun d here => ?_⟩
      have own : ∀ d, d.slug = b.slug → Found w d → Attended w d s := by
        intro d same ok t' is'
        obtain ⟨-, active'⟩ := ok t' is'
        rw [same, active] at active'
        obtain rfl : t = t' := by injection active' with h; injection h
        rw [same]
        exact healed
      rcases List.mem_cons.mp here with rfl | here
      · exact own d rfl (good d (mem_bySlug.mp mem))
      · by_cases same : d.slug = b.slug
        · exact own d same (good d (mem_bySlug.mp (sub here)))
        · exact rest d here same
  · exact fun _ s _ held i mem => held.2 i (mem_bySlug.mpr mem)

end Scan

end Casa.SpecialistReconcile
