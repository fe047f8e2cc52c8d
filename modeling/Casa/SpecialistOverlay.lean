import Casa.SpecialistReconcile

/-! The rebuilt overlay, and what every run of the calls under the lock comes to. -/

namespace Casa.SpecialistOverlay
open OperationTree FallibleTree SpecialistFiles SpecialistHeal SpecialistReconcile

section Copies
variable {w : World} {source : RoleSource} {dest other : String} {s s' : State} {i : Input}

theorem role_setRole {r : RoleDir} (done : s.setRole dest r = some s') :
    s'.role dest = some r ∧ ∀ other, other ≠ dest → s'.role other = s.role other := by
  unfold State.setRole at done
  obtain ⟨o, found, rfl⟩ := Option.map_eq_some_iff.mp done
  unfold State.role
  rw [found]
  exact ⟨Function.update_self .., fun other ne => Function.update_of_ne ne ..⟩

def Copying (dest : String) : Op → Prop
  | .mkdirRole d => d = dest
  | .createRoleFile d _ => d = dest
  | .fillRoleFile d _ _ => d = dest
  | .isRoleFile .. => True
  | .readRoleFile .. => True
  | _ => False

theorem role_look {α : Type} (a : Except Fault α) : (s.look i a).2.role other = s.role other := by
  rw [look_state]
  split <;> rfl

theorem role_of_copying {op : Op} (copying : Copying dest op) (ne : other ≠ dest) :
    (device w op i s).2.role other = s.role other := by
  have set : ∀ {r u}, s.setRole dest r = some u → u.role other = s.role other :=
    fun done => (role_setRole done).2 other ne
  cases op with
  | mkdirRole d =>
    obtain rfl : d = dest := copying
    exact become_state (fun u => u.role other = s.role other) rfl fun u => set
  | createRoleFile d file =>
    obtain rfl : d = dest := copying
    refine become_state (fun u => u.role other = s.role other) rfl fun u done => ?_
    obtain ⟨r, -, done⟩ := Option.bind_eq_some_iff.mp done
    exact set done
  | fillRoleFile d file bytes =>
    obtain rfl : d = dest := copying
    refine become_state (fun u => u.role other = s.role other) rfl fun u done => ?_
    obtain ⟨r, -, done⟩ := Option.bind_eq_some_iff.mp done
    exact set done
  | isRoleFile source file => exact role_look _
  | readRoleFile source file => exact role_look _
  | _ => exact copying.elim

theorem copyRoleDir_copying : (copyRoleDir source dest).Within (Copying dest) := by
  have copy : ∀ file, (copyRoleFile source dest file).Within (Copying dest) := by
    intro file
    unfold copyRoleFile
    refine Script.within_bind (within_ask trivial) fun there => Script.within_ite ?_ ?_
    · refine Script.within_bind (within_ask trivial) fun bytes => ?_
      exact Script.within_bind (within_ask rfl) fun _ => within_ask rfl
    · exact Script.within_raise _
  unfold copyRoleDir
  exact Script.within_bind (within_ask rfl) fun _ => Script.within_forEach _ copy

def Copied (w : World) (source : RoleSource) (dest : String) (files : List RoleFile) (s : State) :
    Prop :=
  ∃ r, s.role dest = some r ∧ ∀ f ∈ files, r f = w.roleFiles source f

theorem copyRoleFile_spec (whole : ∀ f, w.roleFiles source f ≠ none) {files : List RoleFile}
    {file : RoleFile} :
    Holds w (Copied w source dest files) (copyRoleFile source dest file)
      (fun _ => Copied w source dest (file :: files)) Failed := by
  unfold copyRoleFile
  obtain ⟨bytes, found⟩ := Option.ne_none_iff_exists'.mp (whole file)
  refine Triple.bind (Q := fun there s => there = true ∧ Copied w source dest files s) ?_
    fun there => triple_of fun yes => ?_
  · refine holds_ask fun s _ held => ⟨trivial, fun i => ends_look rfl ?_⟩
    rw [found]
    exact ⟨rfl, held⟩
  rw [if_pos yes]
  refine Triple.bind (Q := fun read s => read = bytes ∧ Copied w source dest files s) ?_
    fun read => triple_of fun same => ?_
  · refine holds_ask fun s _ held => ⟨trivial, fun i => ends_look rfl ?_⟩
    rw [found]
    exact ⟨rfl, held⟩
  subst same
  -- The file counts as copied once it has been filled; the others are not touched.
  have write : ∀ (s u : State) (b : Bytes) (done : (s.role dest).bind
      (fun r => s.setRole dest (Function.update r file (some b))) = some u),
      (∃ r, s.role dest = some r ∧ ∀ f ∈ files, f ≠ file → r f = w.roleFiles source f) →
      ∃ r, u.role dest = some r ∧ r file = some b ∧
        ∀ f ∈ files, f ≠ file → r f = w.roleFiles source f := by
    rintro s u b done ⟨r, here, same⟩
    rw [here] at done
    refine ⟨_, (role_setRole done).1, Function.update_self .., fun f mem ne => ?_⟩
    rw [Function.update_of_ne ne]
    exact same f mem ne
  refine Triple.bind (Q := fun _ s => ∃ r, s.role dest = some r ∧
    ∀ f ∈ files, f ≠ file → r f = w.roleFiles source f) ?_ fun _ => ?_
  · refine holds_ask fun s _ ⟨r, here, same⟩ => ⟨trivial, fun i => ends_become rfl fun u done => ?_⟩
    obtain ⟨r', here', -, same'⟩ := write s u [] done ⟨r, here, fun f mem _ => same f mem⟩
    exact ⟨r', here', same'⟩
  · refine holds_ask fun s _ held => ⟨trivial, fun i => ends_become rfl fun u done => ?_⟩
    obtain ⟨r', here, own, same⟩ := write s u read done held
    refine ⟨r', here, fun f mem => ?_⟩
    by_cases now : f = file
    · rw [now, own, found]
    · exact same f ((List.mem_cons.mp mem).resolve_left now) now

theorem copyRoleDir_spec (whole : ∀ f, w.roleFiles source f ≠ none) :
    Holds w (fun _ => True) (copyRoleDir source dest)
      (fun _ s => s.role dest = some (w.roleFiles source)) Failed := by
  unfold copyRoleDir
  refine Triple.bind (Q := fun _ => Copied w source dest []) ?_ fun _ => ?_
  · refine holds_ask fun s _ _ => ⟨trivial, fun i => ends_become rfl fun u done => ?_⟩
    exact ⟨_, (role_setRole done).1, fun f no => absurd no List.not_mem_nil⟩
  · refine Triple.bind (copyRoleFile_spec whole) fun _ => ?_
    refine Triple.bind (copyRoleFile_spec whole) fun _ => triple_pure fun s _ held => ?_
    obtain ⟨r, here, same⟩ := held
    rw [here]
    refine congrArg some (funext fun f => same f ?_)
    cases f <;> simp

end Copies

section Rebuild
variable (w : World)

def CompleteRoles : Prop :=
  (∀ name ∈ w.imageRoles, ∀ f, w.roleFiles (.image name) f ≠ none) ∧
    ∀ installed ∈ readInstances w, ∀ e, componentRoleDir installed = some e →
      ∀ f, w.roleFiles (.component e.2) f ≠ none

def Quiet (op : Op) : Prop := touched op = [] ∧ ∀ s, licence op s

variable {w}

theorem reconcileRolesOverlay_quiet {found : List SpecialistInstance} :
    (reconcileRolesOverlay found).Within Quiet := by
  have copy : ∀ source dest, (copyRoleDir source dest).Within Quiet := by
    intro source dest
    refine Prog.Within.mono copyRoleDir_copying fun op copying => ?_
    cases op with
    | mkdirRole d => exact ⟨rfl, fun _ => trivial⟩
    | createRoleFile d file => exact ⟨rfl, fun _ => trivial⟩
    | fillRoleFile d file bytes => exact ⟨rfl, fun _ => trivial⟩
    | isRoleFile source file => exact ⟨rfl, fun _ => trivial⟩
    | readRoleFile source file => exact ⟨rfl, fun _ => trivial⟩
    | _ => exact copying.elim
  unfold reconcileRolesOverlay
  refine Script.within_bind ?_ fun _ => ?_
  · unfold clearOverlay
    refine Script.within_bind (within_ask ⟨rfl, fun _ => trivial⟩) fun _ => ?_
    exact Script.within_ite (within_ask ⟨rfl, fun _ => trivial⟩) (Script.within_pure _)
  refine Script.within_bind (within_ask ⟨rfl, fun _ => trivial⟩) fun _ => ?_
  refine Script.within_bind (within_ask ⟨rfl, fun _ => trivial⟩) fun image => ?_
  refine Script.within_bind (Script.within_forEach _ fun name => copy _ _) fun _ => ?_
  exact Script.within_forEach _ fun e => copy _ _

theorem componentRoleDir_slug {installed : SpecialistInstance} {e : String × String}
    (h : componentRoleDir installed = some e) : e.1 = installed.slug := by
  unfold componentRoleDir at h
  obtain ⟨t, -, parsed⟩ := Option.bind_eq_some_iff.mp h
  split at parsed
  · obtain rfl := Option.some.inj parsed
    rfl
  · cases parsed

theorem readInstance_slug {slug : String} {installed : SpecialistInstance}
    (h : readInstance w slug = some installed) : installed.slug = slug := by
  unfold readInstance at h
  split at h
  · exact (instanceOf_active h).1
  · obtain rfl := Option.some.inj h
    rfl

theorem readInstances_unique {a b : SpecialistInstance} (ha : a ∈ readInstances w)
    (hb : b ∈ readInstances w) (same : a.slug = b.slug) : a = b := by
  obtain ⟨slug, -, found⟩ := List.mem_filterMap.mp ha
  obtain ⟨slug', -, found'⟩ := List.mem_filterMap.mp hb
  rw [readInstance_slug found, readInstance_slug found'] at same
  subst same
  exact Option.some.inj (found.symm.trans found')

theorem reconcileRolesOverlay_spec (complete : CompleteRoles w) :
    Holds w (fun _ => True) (reconcileRolesOverlay (readInstances w))
      (fun _ s => ∀ installed ∈ readInstances w, ∀ e, componentRoleDir installed = some e →
        s.role e.1 = some (w.roleFiles (.component e.2))) Failed := by
  unfold reconcileRolesOverlay
  refine Triple.bind (Q := fun _ _ => True) ?_ fun _ => ?_
  · unfold clearOverlay
    refine Triple.bind (Q := fun _ _ => True) ?_ fun there => ?_
    · exact holds_ask fun s _ _ => ⟨trivial, fun i => ends_look rfl trivial⟩
    · cases there with
      | true =>
        rw [if_pos rfl]
        refine holds_ask fun s _ _ => ⟨trivial, fun i => ?_⟩
        simp only [device]
        split
        · exact rfl
        · exact trivial
      | false =>
        rw [if_neg Bool.false_ne_true]
        exact triple_pure fun _ _ _ => trivial
  refine Triple.bind (Q := fun _ _ => True) ?_ fun _ => ?_
  · exact holds_ask fun s _ _ => ⟨trivial, fun i => ends_become rfl fun _ _ => trivial⟩
  refine Triple.bind (Q := fun image _ => image = w.imageRoles ∧ True) ?_ fun image =>
    triple_of fun same => ?_
  · exact holds_ask fun s _ _ => ⟨trivial, fun i => ends_look rfl ⟨rfl, trivial⟩⟩
  subst same
  refine Triple.bind (Q := fun _ _ => True) ?_ fun _ => ?_
  · refine triple_forEach _ fun name mem => ?_
    have here := (List.perm_insertionSort _ w.imageRoles).mem_iff.mp mem
    exact Triple.post (copyRoleDir_spec (complete.1 name here)) (fun _ _ _ _ => trivial)
      fun _ _ _ => id
  · refine Triple.post (triple_forEach_done (P := fun _ => True)
      (fun e s => s.role e.1 = some (w.roleFiles (.component e.2))) _ ?_) ?_ fun _ _ _ => id
    · intro e mem done sub
      obtain ⟨installed, inside, is⟩ := List.mem_filterMap.mp mem
      have framed := Triple.frame (copyRoleDir_spec (complete.2 installed (mem_bySlug.mp inside) e is))
        (copyRoleDir_copying : (copyRoleDir (.component e.2) e.1).Within (Copying e.1))
        (R := fun s => ∀ d ∈ done, d.1 ≠ e.1 → s.role d.1 = some (w.roleFiles (.component d.2)))
        fun op i s copying _ _ held d here ne => (role_of_copying copying ne).trans (held d here ne)
      refine Triple.post (framed.pre fun s _ held => ⟨trivial, fun d here _ => held.2 d here⟩) ?_
        fun _ _ _ held => held.1
      rintro - s - ⟨own, rest⟩
      refine ⟨trivial, fun d here => ?_⟩
      rcases List.mem_cons.mp here with rfl | here
      · exact own
      · by_cases same : d.1 = e.1
        · obtain ⟨other, inside', is'⟩ := List.mem_filterMap.mp (sub here)
          have slugs : other.slug = installed.slug :=
            (componentRoleDir_slug is').symm.trans (same.trans (componentRoleDir_slug is))
          obtain rfl := readInstances_unique (mem_bySlug.mp inside') (mem_bySlug.mp inside) slugs
          obtain rfl := Option.some.inj (is'.symm.trans is)
          exact own
        · exact rest d here same
    · intro _ s _ held installed mem e is
      exact held.2 e (List.mem_filterMap.mpr ⟨installed, mem_bySlug.mpr mem, is⟩)

end Rebuild

section Pass
variable (w : World)

/-- A directory of the tree whose active tuple is this one, and whose desired tuple is not
damaged. -/
structure Installed (slug : String) (t : InstanceTuple) : Prop where
  entry : (slug, true) ∈ w.entries
  notStore : slug ≠ "store"
  active : w.tuple slug .active = .ok (some t)
  desired : ∃ d, w.tuple slug .desired = .ok d

def Healthy (s : State) : Prop :=
  s.failed = true ∨ ∀ slug t, Installed w slug t → Healed w slug t s

variable {w}

theorem Installed.valid {slug : String} {t : InstanceTuple} (h : Installed w slug t) :
    isValidSlug slug = true :=
  w.named slug .active (by rw [h.active]; simp)

theorem Installed.read {slug : String} {t : InstanceTuple} (h : Installed w slug t) :
    ∃ i ∈ readInstances w, i.slug = slug ∧ i.active = some t := by
  obtain ⟨d, desired⟩ := h.desired
  refine ⟨⟨slug, .active, some t, d⟩, List.mem_filterMap.mpr ⟨slug, ?_, ?_⟩, rfl, rfl⟩
  · refine (List.perm_insertionSort _ _).mem_iff.mpr (List.mem_filterMap.mpr ⟨_, h.entry, ?_⟩)
    have notStaging : slug ≠ ".staging" := by
      rintro rfl
      exact absurd h.valid (by decide)
    simp [h.notStore, notStaging]
  · unfold readInstance
    rw [h.active, desired]
    rfl

theorem healthy_spec :
    Holds w (fun _ => True) currentSpecialistRolesDir (fun _ => Healthy w)
      (fun _ s => Healthy w s ∨ ¬Isolated w) := by
  unfold currentSpecialistRolesDir
  refine Triple.bind (Triple.post load_spec (fun _ _ _ held => held) fun _ s _ => Or.imp_left .inl)
    fun found => ?_
  refine Triple.pre (P := fun s => (∀ i ∈ found, Found w i) ∧
    (s.failed = true ∨ found = readInstances w)) (triple_of fun good => ?_) fun _ _ => id
  refine Triple.bind (Q := fun _ => Healthy w) ?_ fun _ => ?_
  · refine Triple.post (beside _ (reconcileOperationalFiles_spec good)) ?_ ?_
    · rintro - s - ⟨attended, failed | rfl⟩
      · exact .inl failed
      · by_cases failed : s.failed = true
        · exact .inl failed
        · refine .inr fun slug t installed => ?_
          obtain ⟨i, mem, rfl, is⟩ := installed.read
          exact (attended i mem t is).resolve_left failed
    · exact fun _ s _ failed => .inl (.inl failed)
  · refine Triple.post (triple_within reconcileRolesOverlay_quiet (fun op s quiet _ _ => quiet.2 s)
      fun op i s quiet own held => ?_) (fun _ _ _ => id) fun _ _ _ => .inl
    refine held.imp failed_stays fun all slug t installed => ?_
    refine (all slug t installed).of_same own installed.valid fun name _ => ?_
    exact agents_of_not_touched (by rw [quiet.1]; exact List.not_mem_nil)

theorem overlay_spec (isolated : Isolated w) (complete : CompleteRoles w) :
    Holds w (fun _ => True) currentSpecialistRolesDir (fun _ s => s.failed = true ∨
      ∀ slug t checksum, Installed w slug t → parseComponentRoot t.root = .ok checksum →
        s.role slug = some (w.roleFiles (.component checksum))) Failed := by
  unfold currentSpecialistRolesDir
  refine Triple.bind (Triple.post load_spec (fun _ _ _ held => held) fun _ s _ stopped =>
    stopped.resolve_right (not_not_intro isolated)) fun found => ?_
  refine Triple.pre (P := fun s => (∀ i ∈ found, Found w i) ∧
    (s.failed = true ∨ found = readInstances w)) (triple_of fun good => ?_) fun _ _ => id
  refine Triple.bind (Triple.post (beside _ (reconcileOperationalFiles_spec good))
    (fun _ _ _ held => held.2) fun _ _ _ => id) fun _ => ?_
  refine triple_or ?_ ?_
  · refine Triple.post (triple_within reconcileRolesOverlay_quiet (fun op s quiet _ _ => quiet.2 s)
      fun op i s _ _ failed => failed_stays failed) (fun _ _ _ => .inl) fun _ _ _ => id
  · refine Triple.pre (P := fun _ => found = readInstances w ∧ True) (triple_of fun same => ?_)
      fun s _ held => ⟨held, trivial⟩
    subst same
    refine Triple.post (reconcileRolesOverlay_spec complete) ?_ fun _ _ _ => id
    refine fun _ s _ copied => .inr fun slug t checksum installed parsed => ?_
    obtain ⟨i, mem, rfl, is⟩ := installed.read
    refine copied i mem (i.slug, checksum) ?_
    simp [componentRoleDir, is, parsed]

theorem uninstall_spec {slug : String} (valid : isValidSlug slug = true) :
    Holds w (fun _ => True) (uninstall slug) (fun _ _ => True) Failed := by
  unfold uninstall
  refine Triple.bind (holds_isSymlink fun _ _ => ⟨trivial, rfl⟩) fun link => ?_
  cases link with
  | true =>
    rw [if_pos rfl]
    refine Triple.pre (P := fun _ => True) ?_ fun _ _ _ => trivial
    refine Triple.bind (resolve_spec fun _ _ => trivial) fun prior => ?_
    refine Triple.bind (Q := fun _ s => s.agents slug = none) ?_ fun _ => ?_
    · refine holds_ask fun s _ _ => ⟨trivial, fun i => ends_become rfl fun u done => ?_⟩
      split at done
      · obtain rfl := Option.some.inj done
        exact set_agents_self _
      · cases done
    · cases prior with
      | none => exact triple_pure fun _ _ _ => trivial
      | some p =>
        refine holds_ask fun s own gone => ⟨fun other valid points => ?_, fun i => trivial⟩
        obtain rfl := isMaterial_unique p.2 (own other p.1 valid points).1
        rw [gone] at points
        cases points
  | false =>
    rw [if_neg Bool.false_ne_true]
    exact holds_ask fun s own _ => ⟨unlinked_slug own valid, fun i => trivial⟩

theorem task_spec (task : Task) : ∃ Q E, Holds w (fun _ => True) task.program Q E := by
  cases task with
  | reconcile => exact ⟨_, _, healthy_spec⟩
  | materialize slug role persona m => exact ⟨_, _, materialize_spec slug.valid⟩
  | uninstall slug => exact ⟨_, _, uninstall_spec slug.valid⟩

end Pass

section Runs
variable {c : Call} {s : State}

theorem own_start (own : Own s) : Own (Call.start s) := own.of_agents rfl

theorem call_sound {Q : PUnit → State → Prop} {E : Fault → State → Prop}
    (spec : Holds c.world (fun _ => True) c.task.program Q E) (own : Own s) :
    (∀ e ∈ c.events s, Own e.before ∧ licence e.op e.before) ∧ Own (c.outcome s).2 ∧
      Ends Q E (c.outcome s).1 (c.outcome s).2 :=
  Spec.sound spec (own_start own) trivial 0

theorem own_events (own : Own s) : ∀ e ∈ c.events s, Own e.before ∧ licence e.op e.before := by
  obtain ⟨Q, E, spec⟩ := task_spec (w := c.world) c.task
  exact (call_sound spec own).1

theorem own_after (own : Own s) : Own (c.after s) := by
  obtain ⟨Q, E, spec⟩ := task_spec (w := c.world) c.task
  unfold Call.after
  cases c.dies with
  | none => exact (call_sound spec own).2.1
  | some k =>
    dsimp only
    cases reached : (c.events s)[k]? with
    | none => exact (call_sound spec own).2.1
    | some e => exact (own_events own e (List.mem_of_getElem? reached)).1

theorem own_afterAll (calls : List Call) (own : Own s) : Own (afterAll calls s) := by
  induction calls generalizing s with
  | nil => exact own
  | cons c rest ih => exact ih (own_after own)

/-- What holds at every operation of a call, whichever of them fail. -/
structure Steady (c : Call) (s : State) : Prop where
  complete : ∀ e ∈ c.events s, ∀ slug t, isValidSlug slug = true →
    e.before.agents slug = some (.link t) → ∃ d, Linked slug d e.before ∧ Complete slug d
  stays : ∀ e ∈ c.events s, ∀ i slug t, isValidSlug slug = true →
    e.before.agents slug = some (.link t) → e.op ≠ .unlink slug →
    ∃ t', (device c.world e.op i e.before).2.agents slug = some (.link t')
  retargets : ∀ slug role persona m, c.task = .materialize slug role persona m →
    ∀ e ∈ c.events s, ∀ name, e.op ≠ .unlink name
  collects : ∀ e ∈ c.events s, ∀ name, e.op = .rmtree name → Unlinked name e.before

theorem steady_of_own (own : Own s) : Steady c s := by
  refine ⟨fun e mem slug t valid link => ?_, fun e mem i slug t valid link other => ?_,
    fun slug role persona m is e mem => ?_, fun e mem name is => ?_⟩
  · obtain ⟨shaped, d, found, complete⟩ := (own_events own e mem).1 slug t valid link
    exact ⟨d, ⟨t, shaped, link, found⟩, complete⟩
  · exact stays valid (own_events own e mem).2 other link
  · unfold Call.events at mem
    rw [is] at mem
    exact (Prog.Within.events materialize_mending mem).2
  · have may := (own_events own e mem).2
    rw [is] at may
    exact may

/-- `current_specialist_roles_dir` on this tree. -/
def reconcileCall (w : World) (plan : ℕ → Input) : Call := ⟨.reconcile, w, plan, none⟩

/-- Whatever calls have run before, and whichever operations of theirs failed: at no operation of a
call does the path of a slug that is a link lead to anything but a complete set of that slug's
files, only its removal unmakes the link, and no directory is removed that a path leads to. A
reconciliation none of whose own operations fails leaves every installed slug with the files of
its active tuple, or with none, and the overlay with the role files of each, as long as no role
lacks a file. -/
theorem reconciliation_exact (start : State)
    (bare : ∀ slug t, isValidSlug slug = true → start.agents slug ≠ some (.link t))
    (calls : List Call) :
    (∀ c, Steady c (afterAll calls start)) ∧
    ∀ w plan, Isolated w →
      ((reconcileCall w plan).outcome (afterAll calls start)).2.failed = false →
      (∀ slug t, Installed w slug t →
        Healed w slug t ((reconcileCall w plan).outcome (afterAll calls start)).2) ∧
      (CompleteRoles w →
        ((reconcileCall w plan).outcome (afterAll calls start)).1 = .ok ⟨⟩ ∧
        ∀ slug t checksum, Installed w slug t → parseComponentRoot t.root = .ok checksum →
          ((reconcileCall w plan).outcome (afterAll calls start)).2.role slug =
            some (w.roleFiles (.component checksum))) := by
  have own : Own (afterAll calls start) :=
    own_afterAll calls fun slug t valid link => absurd link (bare slug t valid)
  refine ⟨fun c => steady_of_own own, fun w plan isolated quiet => ⟨fun slug t installed => ?_,
    fun complete => ?_⟩⟩
  · have healthy : Healthy w ((reconcileCall w plan).outcome (afterAll calls start)).2 := by
      have ends := (call_sound (c := reconcileCall w plan) healthy_spec own).2.2
      cases result : ((reconcileCall w plan).outcome (afterAll calls start)).1 with
      | ok a =>
        rw [result] at ends
        exact ends
      | error e =>
        rw [result] at ends
        exact ends.resolve_right (not_not_intro isolated)
    exact healthy.resolve_left (Bool.eq_false_iff.mp quiet) slug t installed
  · have ends := (call_sound (c := reconcileCall w plan) (overlay_spec isolated complete) own).2.2
    cases result : ((reconcileCall w plan).outcome (afterAll calls start)).1 with
    | ok a =>
      rw [result] at ends
      exact ⟨rfl, ends.resolve_left (Bool.eq_false_iff.mp quiet)⟩
    | error e =>
      rw [result] at ends
      exact absurd ends (Bool.eq_false_iff.mp quiet)

section Example

def exampleHex (n : ℕ) : Hex where
  text := String.ofList (List.replicate 32 (if n % 3 = 0 then '0' else if n % 3 = 1 then '1' else '2'))
  shaped := by
    rw [String.toList_ofList]
    split
    · decide
    · split <;> decide

def exampleRoot : String :=
  "casa/finance@1.0.0#sha256:" ++ String.ofList (List.replicate 64 'a')

def exampleTuple (digest : String) : InstanceTuple :=
  ⟨exampleRoot, digest, false, "casa/warm", "1.0.0"⟩

def exampleWorld (desired : Except Fault (Option InstanceTuple)) : World where
  entries := [("finance", true), ("store", true)]
  tuple slug file :=
    if slug = "finance" then
      match file with
      | .active => .ok (some (exampleTuple "sha256:new"))
      | .desired => desired
    else .ok none
  role _ := .ok ⟨"finance", "Keep the books.", "Be exact.", {}, {}, {}, [], [], [], [], []⟩
  persona _ := .ok ⟨some "Ada", "clerk"⟩
  roleFiles _ _ := some [1]
  hex := exampleHex
  named slug file damaged := by
    by_cases same : slug = "finance"
    · subst same
      decide
    · rw [if_neg same] at damaged
      exact absurd rfl damaged

def exampleSlug : Slug := ⟨"finance", by decide⟩

def exampleInstall : Call where
  task := .materialize exampleSlug ⟨"finance", "Keep the books.", "Be exact.", {}, {}, {}, [], [], [],
    [], []⟩ ⟨some "Ada", "clerk"⟩ (exampleTuple "sha256:old").marker
  world := exampleWorld (.ok none)

/-- An upgrade whose files were never written is healed. -/
theorem upgrade_healed :
    Installed (exampleWorld (.ok none)) "finance" (exampleTuple "sha256:new") ∧
      (((reconcileCall (exampleWorld (.ok none)) fun _ => {}).outcome
        (afterAll [exampleInstall] {})).2.reach "finance").bind OpDir.marker =
          some (exampleTuple "sha256:new").marker := by
  have installed : Installed (exampleWorld (.ok none)) "finance" (exampleTuple "sha256:new") :=
    ⟨by decide, by decide, by decide, none, by decide⟩
  refine ⟨installed, ?_⟩
  have exact := reconciliation_exact {} (by simp) [exampleInstall]
  have isolated : Isolated (exampleWorld (.ok none)) := by
    intro slug file e damaged
    unfold exampleWorld at damaged
    dsimp only at damaged
    split at damaged
    · cases file <;> cases damaged
    · cases damaged
  obtain ⟨healed, -⟩ := exact.2 _ (fun _ => {}) isolated (by decide +kernel)
  have whole := healed "finance" _ installed
  cases found : ((reconcileCall (exampleWorld (.ok none)) fun _ => {}).outcome
      (afterAll [exampleInstall] {})).2.reach "finance" with
  | some d => exact whole.marked d found
  | none =>
    obtain ⟨⟨role, persona⟩, known⟩ := Option.isSome_iff_exists.mp
      (by decide : (parts (exampleWorld (.ok none)) (exampleTuple "sha256:new")).isSome = true)
    rw [reach_of_linked (whole.linked role persona known)] at found
    cases found

/-- A damaged desired tuple isolates its slug: beside an intact active tuple and an intact component
the path still leads to the files of an older tuple, and the overlay has no role of it. -/
theorem damaged_desired_not_healed :
    (exampleWorld (.error .yaml)).tuple "finance" .active = .ok (some (exampleTuple "sha256:new")) ∧
      (parts (exampleWorld (.error .yaml)) (exampleTuple "sha256:new")).isSome = true ∧
      ((reconcileCall (exampleWorld (.error .yaml)) fun _ => {}).outcome
        (afterAll [exampleInstall] {})).1 = .ok ⟨⟩ ∧
      ((reconcileCall (exampleWorld (.error .yaml)) fun _ => {}).outcome
        (afterAll [exampleInstall] {})).2.failed = false ∧
      (((reconcileCall (exampleWorld (.error .yaml)) fun _ => {}).outcome
        (afterAll [exampleInstall] {})).2.reach "finance").bind OpDir.marker =
          some (exampleTuple "sha256:old").marker ∧
      (((reconcileCall (exampleWorld (.error .yaml)) fun _ => {}).outcome
        (afterAll [exampleInstall] {})).2.role "finance").isNone = true := by
  decide +kernel

end Example

end Runs

end Casa.SpecialistOverlay
