import Casa.JobEffects
import Casa.StepRuns

/-! One operation seen row by row and file by file: every row is kept, rewritten,
created or removed for a reason its operation names, disk and memory agree after
every call, and a call that raises leaves both untouched. -/

namespace Casa.JobDurability
open PythonValue ProvenanceCodec JobRecord KeyedTable FaultState StepRuns JobRegistry
open JobSnapshot JobEffects

set_option linter.unusedSectionVars false

variable {T : Type} [LinearOrder T] [Add T] [IntCast T]
variable {cfg : Settings T} {call : Call T} {s : Registry T} {op : Op T}

inductive Removed (s : Registry T) : Op T → VoiceJob T → Prop
  | compensated {parent child : VoiceJob T} {actor : Actor}
      (row : s.jobs.get? parent.id = some parent)
      (ofParent : child.parentJobId = some parent.id)
      (accepted : child.executionState = .accepted) (unbound : s.tasks.get? child.id = none) :
      Removed s (.compensateUnboundContinuation parent.id child.id actor) child

inductive RowStep (cfg : Settings T) (call : Call T) (s : Registry T) (op : Op T) :
    Option (VoiceJob T) → Option (VoiceJob T) → Prop
  | absent : RowStep cfg call s op none none
  | created {job : VoiceJob T} (h : Created call s op job) : RowStep cfg call s op none (some job)
  | removed {job : VoiceJob T} (h : Removed s op job) : RowStep cfg call s op (some job) none
  | moved {job job' : VoiceJob T} (h : Transition cfg call.now s.deliverySequence op job job') :
      RowStep cfg call s op (some job) (some job')

theorem RowStep.refl (row : Option (VoiceJob T)) : RowStep cfg call s op row row := by
  cases row with
  | none => exact .absent
  | some job => exact .moved (.keep op job)

section Recovery
variable {now : T}

theorem mem_recoverRows {next : Int} {rows : List (VoiceJob T)} {job' : VoiceJob T}
    (h : job' ∈ recoverRows cfg now next rows) :
    ∃ job ∈ rows, ∃ n, next ≤ n ∧ job' = (recoverRow cfg now job n).2 := by
  induction rows generalizing next with
  | nil => simp [recoverRows] at h
  | cons first rest ih =>
    rcases List.mem_cons.mp h with rfl | tail
    · exact ⟨first, List.mem_cons_self, next, le_rfl, rfl⟩
    · obtain ⟨job, mem, n, bound, eq⟩ := ih tail
      have step : next ≤ (recoverRow cfg now first next).1 := by
        unfold recoverRow
        split
        · dsimp only
          split <;> omega
        split <;> exact le_rfl
      exact ⟨job, List.mem_cons_of_mem _ mem, n, step.trans bound, eq⟩

theorem recoverRow_transition {job : VoiceJob T} {counter n : Int} (h : counter ≤ n) :
    Transition cfg now counter .recoverAfterRestart job (recoverRow cfg now job n).2 := by
  unfold recoverRow
  split
  · rename_i active
    exact .orphan active (by omega)
  split
  · rename_i leased
    exact .extend leased
  · exact .keep _ _

theorem get?_recoverJobs (cfg : Settings T) (now : T) (counter : Int) (jobs : Jobs T)
    (id : String) :
    (jobs.get? id = none ∧ (recoverJobs cfg now counter jobs).get? id = none) ∨
      ∃ job n, jobs.get? id = some job ∧ counter ≤ n ∧
        (recoverJobs cfg now counter jobs).get? id =
          some (recoverRow cfg now job n).2 := by
  cases row : (recoverJobs cfg now counter jobs).get? id with
  | none =>
    refine .inl ⟨?_, rfl⟩
    rw [Table.get?_eq_none_iff] at row ⊢
    exact recoverRows_map_id cfg now counter jobs.rows ▸ row
  | some job' =>
    obtain ⟨mem, idEq⟩ := Table.get?_eq_some_iff.mp row
    obtain ⟨job, jobMem, n, bound, rfl⟩ := mem_recoverRows mem
    rw [recoverRow_id] at idEq
    exact .inr ⟨job, n, Table.get?_eq_some_iff.mpr ⟨jobMem, idEq⟩, bound, rfl⟩

end Recovery

theorem rowStep_put {job job' : VoiceJob T} (row : s.jobs.get? job.id = some job)
    (moved : Transition cfg call.now s.deliverySequence op job job') (id : String) :
    RowStep cfg call s op (s.jobs.get? id) ((s.jobs.put job').get? id) := by
  rw [Table.get?_put, moved.id_eq]
  split
  · rename_i same
    subst same
    rw [row]
    exact .moved moved
  · exact .refl _

theorem rowStep_revise {f : VoiceJob T → VoiceJob T} {same : ∀ job, (f job).id = job.id}
    (moved : ∀ job, Transition cfg call.now s.deliverySequence op job (f job)) (id : String) :
    RowStep cfg call s op (s.jobs.get? id) ((s.jobs.revise f same).get? id) := by
  rw [Table.get?_revise]
  cases s.jobs.get? id with
  | none => exact .absent
  | some job => exact .moved (moved job)

theorem succeeded_of_open {job : VoiceJob T} {now : T}
    (isOpen : clarificationOpen now job = true) : job.executionState = .succeeded := by
  simp only [clarificationOpen, resultAvailable, Bool.and_eq_true, beq_iff_eq] at isOpen
  exact isOpen.1.1.1.1.1.1

theorem parent_ne_child {parent child : VoiceJob T} {now : T}
    (row : s.jobs.get? parent.id = some parent) (childRow : s.jobs.get? child.id = some child)
    (isOpen : clarificationOpen now parent = true) (accepted : child.executionState = .accepted) :
    parent.id ≠ child.id := by
  intro same
  rw [same, childRow, Option.some.injEq] at row
  have succeeded := succeeded_of_open isOpen
  rw [← row, accepted] at succeeded
  cases succeeded

theorem candidate_row {jobs : Jobs T} {tasks : Table (Prod.fst : String × Nat → String)}
    (h : Candidate cfg call s op jobs tasks) (id : String) :
    RowStep cfg call s op (s.jobs.get? id) (jobs.get? id) := by
  cases h with
  | @insert _ job created absent =>
    rw [Table.get?_put]
    split
    · rename_i same
      subst same
      rw [absent]
      exact .created created
    · exact .refl _
  | @consume parent child actor limit row isOpen awaiting created absent =>
    rw [Table.get?_put]
    split
    · rename_i same
      subst same
      rw [absent]
      exact .created created
    · exact rowStep_put row (.consume isOpen awaiting) id
  | @remove parent child actor row childRow ofParent accepted unbound =>
    by_cases isChild : child.id = id
    · subst isChild
      rw [childRow]
      have gone : (s.jobs.remove child.id).get? child.id = none := by
        rw [Table.get?_remove, if_pos rfl]
      split
      · rename_i restored
        rw [Bool.and_eq_true] at restored
        rw [Table.get?_put, if_neg (parent_ne_child row childRow restored.1 accepted), gone]
        exact .removed (.compensated row ofParent accepted unbound)
      · rw [gone]
        exact .removed (.compensated row ofParent accepted unbound)
    · have kept : (s.jobs.remove child.id).get? id = s.jobs.get? id := by
        rw [Table.get?_remove, if_neg isChild]
      split
      · rename_i restored
        rw [Bool.and_eq_true, Bool.not_eq_true'] at restored
        rw [Table.get?_put, kept]
        split
        · rename_i same
          subst same
          rw [row]
          exact .moved (.restore restored.1 restored.2)
        · exact .refl _
      · rw [kept]
        exact .refl _
  | move row moved => exact rowStep_put row moved id
  | bind row accepted unbound => exact rowStep_put row (.bind accepted) id
  | expire same =>
    refine rowStep_revise (fun job => ?_) id
    split
    · rename_i due
      exact .expire due
    · exact .keep _ _
  | lapse same =>
    refine rowStep_revise (fun job => ?_) id
    split
    · rename_i due
      exact .lapse due
    · exact .keep _ _
  | recover =>
    rcases get?_recoverJobs cfg call.now s.deliverySequence s.jobs id with
      ⟨gone, gone'⟩ | ⟨job, n, row, bound, row'⟩
    · rw [gone, gone']
      exact .absent
    · rw [row, row']
      exact .moved (recoverRow_transition bound)

theorem exec_row (sync : Synced cfg s) (e : Event T) (id : String) :
    RowStep cfg e.call s e.op (s.jobs.get? id) ((exec cfg e s).jobs.get? id) := by
  obtain ⟨call, op⟩ := e
  generalize result : exec cfg ⟨call, op⟩ s = t
  have effect : Effect cfg call s op t := result ▸ exec_effect sync op
  cases effect with
  | unchanged => exact .refl _
  | released => exact .refl _
  | commit loaded candidate valid => exact candidate_row candidate id
  | boot fresh =>
    subst fresh
    exact .absent
  | reload loaded =>
    rw [show ({ s with jobs := resorted s.jobs, tasks := .empty } : Registry T).jobs =
      resorted s.jobs from rfl, get?_resorted]
    exact .refl _

theorem get?_exec_of_unwritten (sync : Synced cfg s) {e : Event T}
    (unwritten : e.call.writeOk = false) (id : String) :
    (exec cfg e s).jobs.get? id = s.jobs.get? id := by
  obtain ⟨call, op⟩ := e
  generalize result : exec cfg ⟨call, op⟩ s = t
  have effect : Effect cfg call s op t := result ▸ exec_effect sync op
  cases effect with
  | unchanged => rfl
  | released => rfl
  | commit loaded candidate valid =>
    rw [valid.1] at unwritten
    cases unwritten
  | boot fresh => rw [fresh]
  | reload loaded => exact get?_resorted s.jobs id

theorem synced_exec (sync : Synced cfg s) (e : Event T) : Synced cfg (exec cfg e s) := by
  obtain ⟨call, op⟩ := e
  generalize result : exec cfg ⟨call, op⟩ s = t
  have effect : Effect cfg call s op t := result ▸ exec_effect sync op
  cases effect with
  | unchanged => exact sync
  | released jobId task =>
    cases sync with
    | fresh => exact .fresh
    | loaded loaded valid disk counter => exact .loaded loaded valid disk counter
  | commit loaded candidate valid => exact .loaded loaded valid.2 rfl rfl
  | boot fresh =>
    exact .loaded rfl (fun _ mem => by simp [Registry.init, Table.empty] at mem) rfl rfl
  | reload loaded =>
    cases sync with
    | fresh => cases loaded
    | loaded _ valid disk counter =>
      have perm := sortedJobs_perm s.jobs.rows
      refine .loaded loaded (fun job mem => valid job (perm.mem_iff.mp mem)) ?_ ?_
      · rw [show ({ s with jobs := resorted s.jobs, tasks := .empty } : Registry T).disk =
          s.disk from rfl, disk]
        simp only [snapshotOf, resorted, sortedJobs_sortedJobs]
      · exact counter.trans (maxSequence_perm perm).symm

theorem synced_of_runs {allowed : Event T → Registry T → Prop} {events : List (Event T)}
    {t : Registry T} (run : Runs (exec cfg) allowed s events t) (sync : Synced cfg s) :
    Synced cfg t :=
  run.invariant (I := Synced cfg) (fun e _ _ h => synced_exec h e) sync

section Histories

def Admits (entry : VoiceJob T → Prop) : Op T → Prop
  | .create job _ => entry job
  | .createContinuation _ child _ _ => entry child
  | .createPromptedDelivery _ child _ _ => entry child
  | _ => True

/-- Runs whose entering rows all satisfy `entry`; calls, clocks and write failures are arbitrary. -/
abbrev History (cfg : Settings T) (entry : VoiceJob T → Prop) :
    Registry T → List (Event T) → Registry T → Prop :=
  Runs (exec cfg) (fun e _ => Admits entry e.op)

theorem created_admits {entry : VoiceJob T → Prop} {job : VoiceJob T}
    (created : Created call s op job) (admits : Admits entry op) :
    entry job ∨ ∃ parent child, entry child ∧ s.jobs.get? parent.id = some parent ∧
      resultAvailable call.now parent = true ∧
      job = promptedRow s.deliverySequence call.now parent child := by
  cases created with
  | create room => exact .inl admits
  | continuation room fresh ofParent => exact .inl admits
  | prompted row available room ofParent => exact .inr ⟨_, _, admits, row, available, rfl⟩

/-- Disk and memory agree and every row obeys `law`. -/
structure Lawful (cfg : Settings T) (law : VoiceJob T → Prop) (s : Registry T) : Prop where
  sync : Synced cfg s
  rows : ∀ {id : String} {job : VoiceJob T}, s.jobs.get? id = some job → law job

theorem lawful_init {law : VoiceJob T → Prop} : Lawful cfg law .init :=
  ⟨.fresh, fun present => by simp [Registry.init] at present⟩

/-- A law of rows that entering rows have and every transition keeps is kept by every call. -/
theorem Lawful.exec {entry : VoiceJob T → Prop} (law : VoiceJob T → Prop)
    (enter : ∀ job, entry job → law job)
    (prompt : ∀ counter now parent child, entry child → law parent →
      resultAvailable now parent = true → law (promptedRow counter now parent child))
    (move : ∀ now counter op job job', Transition cfg now counter op job job' → law job → law job')
    (h : Lawful cfg law s) {e : Event T} (admits : Admits entry e.op) :
    Lawful cfg law (exec cfg e s) := by
  refine ⟨synced_exec h.sync e, ?_⟩
  intro id job' present
  have step := exec_row h.sync e id
  rw [present] at step
  generalize before : s.jobs.get? id = row at step
  cases step with
  | created made =>
    rcases created_admits made admits with entered | ⟨parent, child, entered, parentRow,
      available, rfl⟩
    · exact enter job' entered
    · exact prompt _ _ parent child entered (h.rows parentRow) available
  | moved step => exact move _ _ _ _ _ step (h.rows before)

end Histories

section Sample

def plainBuiltins : Builtins Int where
  str | .str s => s | _ => ""
  float | .float x => .ok x | .int n => .ok n | _ => .error "float() argument"
  int | .int n => .ok n | _ => .error "int() argument"
  nfc := id
  isDigit c := c.isDigit
  str_str _ := rfl
  float_float _ := rfl
  int_int _ := rfl

def plainSettings : Settings Int := ⟨plainBuiltins, 15, 3600⟩

def plainJob (id : String) (parentJobId : Option String) : VoiceJob Int where
  id := id
  parentJobId := parentJobId
  creatingSpeaker := systemSpeaker
  executingSpeaker := systemSpeaker
  creatingRole := "butler"
  specialistRole := "finance"
  specialistDisplayName := "Finance"
  creatorPeer := "voice"
  creatorUserId := none
  scopeId := "scope"
  originRouteId := some "route"
  originDeviceId := some "device"
  task := "task"
  context := ""
  createdAt := 0
  startedAt := none
  terminalAt := none
  expiresAt := none
  executionState := .accepted
  deliveryState := .none
  result := none
  failure := none
  awaitingInput := false
  continuableUntil := none
  deliverySequence := 0
  deliveryAttemptId := none
  leaseUntil := none
  cancelPending := false

def plainEvents (ops : List (Op Int)) : List (Event Int) := ops.map (Event.mk ⟨0, true⟩)

def plainRun (ops : List (Op Int)) : Registry Int :=
  (plainEvents ops).foldl (fun s e => exec plainSettings e s) .init

theorem plain_history {entry : VoiceJob Int → Prop} {ops : List (Op Int)}
    (ok : ∀ op ∈ ops, Admits entry op) :
    History plainSettings entry .init (plainEvents ops) (plainRun ops) := by
  refine Runs.foldl (fun e mem s => ?_) Registry.init
  obtain ⟨op, opMem, rfl⟩ := List.mem_map.mp mem
  exact ok op opMem

end Sample

section Agreement

def successor (s : Registry T) : Registry T := { Registry.init with disk := s.disk }

theorem load_successor (sync : Synced cfg s) (file : s.disk.isSome = true ∨ call.writeOk = true) :
    ∃ t, (load cfg call).run (successor s) = .ok ⟨⟩ t ∧ t.loaded = true ∧
      t.jobs = resorted s.jobs ∧ t.deliverySequence = s.deliverySequence := by
  have ends : Ends (load cfg call) (successor s) (fun _ t => t.loaded = true ∧
      t.jobs = resorted s.jobs ∧ t.deliverySequence = s.deliverySequence) (fun _ _ => False) := by
    cases sync with
    | fresh =>
      have writes : call.writeOk = true := file.resolve_left (by simp [Registry.init])
      simp only [load, successor, Registry.init, writeSnapshot, publishLoad, ends_bind, ends_get,
        ends_attempt, ends_require, ends_modify, writes, encodeSnapshot_empty, Except.mapError,
        Bool.false_eq_true, if_false]
      refine ⟨fun _ _ => ⟨fun _ => ⟨trivial, rfl, rfl⟩, by simp⟩, by simp⟩
    | loaded loaded valid disk counter =>
      simp only [load, successor, Registry.init, disk, publishLoad, ends_bind, ends_get,
        ends_attempt, ends_modify, decodeSnapshot_snapshotOf valid, Bool.false_eq_true, if_false]
      refine ⟨?_, by simp⟩
      rintro jobs ⟨rfl⟩
      exact ⟨trivial, rfl, counter ▸ maxSequence_perm (sortedJobs_perm s.jobs.rows)⟩
  obtain ⟨_, t, run, facts⟩ := ends.returns
  exact ⟨t, run, facts⟩

/-- Along every run the file holds the memory: loading it returns the same rows and counter,
a call that raises changes neither, and the row codec is lossless on valid speakers. -/
theorem disk_agrees_with_memory {events : List (Event T)}
    (run : Runs (exec cfg) (fun _ _ => True) .init events s) :
    (∀ call : Call T, s.disk.isSome = true ∨ call.writeOk = true →
      ∃ t, (load cfg call).run (successor s) = .ok ⟨⟩ t ∧ t.jobs.rows.Perm s.jobs.rows ∧
        (∀ id, t.jobs.get? id = s.jobs.get? id) ∧ t.deliverySequence = s.deliverySequence) ∧
    (∀ (e : Event T) (error : JobError), raised (perform cfg e.call e.op) s = some error →
      exec cfg e s = s) ∧
    (∀ job : VoiceJob T, SpeakersValid cfg.py job →
      ∃ row, encodeJob cfg.py job = .ok row ∧ decodeJob cfg.py row = .ok job) := by
  have sync : Synced cfg s := synced_of_runs run .fresh
  refine ⟨fun call file => ?_, fun e error stuck => ?_, fun job valid => ?_⟩
  · obtain ⟨t, loads, _, jobs, counter⟩ := load_successor sync file
    refine ⟨t, loads, jobs ▸ sortedJobs_perm s.jobs.rows, fun id => ?_, counter⟩
    rw [jobs, get?_resorted]
  · exact exec_eq_of_raised sync stuck
  · exact ⟨_, (encodeJob_eq_ok_iff cfg.py).mpr ⟨valid, rfl⟩, decodeJob_rowFields cfg.py valid⟩

theorem disk_agrees_after_create :
    ∃ t, (load plainSettings ⟨1, false⟩).run (successor (plainRun [.load,
        .create (plainJob "job" none) none])) = .ok ⟨⟩ t ∧
      t.jobs.get? "job" = some (plainJob "job" none) := by
  have run : History plainSettings (fun _ => True) .init _ (plainRun [.load,
      .create (plainJob "job" none) none]) :=
    plain_history (by simp [Admits])
  obtain ⟨loads, -, -⟩ := disk_agrees_with_memory (run.weaken fun _ _ _ => trivial)
  obtain ⟨t, ok, -, rows, -⟩ := loads ⟨1, false⟩ (.inl (by decide))
  exact ⟨t, ok, (rows "job").trans (by decide)⟩

end Agreement

end Casa.JobDurability
