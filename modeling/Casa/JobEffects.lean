import Casa.JobSnapshot

/-! What one registry operation can do, said once. `Effect` lists every way a
call can leave the registry; the lifecycle, ordering, capacity and persistence
results are derived from it and never unfold an operation again. -/

namespace Casa.JobEffects
open PythonValue JobRecord KeyedTable FaultState JobRegistry JobSnapshot

set_option linter.unusedSectionVars false

variable {T : Type} [LinearOrder T] [Add T] [IntCast T]

/-- The public operations, plus task completion and the death of the process. -/
inductive Op (T : Type) where
  | load
  | restart
  | taskDone (jobId : String) (task : Nat)
  | create (job : VoiceJob T) (limit : Option Int)
  | createContinuation (parentId : String) (child : VoiceJob T) (actor : Actor)
      (limit : Option Int)
  | compensateUnboundContinuation (parentId childId : String) (actor : Actor)
  | createPromptedDelivery (parentId : String) (child : VoiceJob T) (actor : Actor)
      (limit : Option Int)
  | bindTask (jobId : String) (task : Nat)
  | markHandoffPending (jobId handoffId : String)
  | acknowledgeHandoff (jobId handoffId : String)
  | finish (jobId result : String)
  | finishVoiceResult (jobId result : String) (awaitingInput : Bool) (deliveryTtlS : Int)
  | fail (jobId : String) (cause : FailureCause)
  | finishCompat (jobId result : String)
  | failCompat (jobId : String) (cause : FailureCause)
  | requestCancel (jobId : String) (actor : Actor)
  | cancel (jobId : String)
  | claim (jobId attempt : String)
  | renew (jobId attempt : String)
  | authorize (jobId attempt : String)
  | markPlaying (jobId attempt : String)
  | markDelivered (jobId attempt : String)
  | nack (jobId attempt reason : String)
  | expireDue
  | expireLeases
  | recoverAfterRestart
  | ackOrphanNotification (jobId : String)

def perform (cfg : Settings T) (call : Call T) : Op T → RegistryM T PUnit
  | .load => load cfg call
  | .restart => restart cfg call
  | .taskDone jobId task => taskDone jobId task
  | .create job limit => discard (create cfg call job limit)
  | .createContinuation parentId child actor limit =>
      discard (createContinuation cfg call parentId child actor limit)
  | .compensateUnboundContinuation parentId childId actor =>
      discard (compensateUnboundContinuation cfg call parentId childId actor)
  | .createPromptedDelivery parentId child actor limit =>
      discard (createPromptedDelivery cfg call parentId child actor limit)
  | .bindTask jobId task => bindTask cfg call jobId task
  | .markHandoffPending jobId handoffId => discard (markHandoffPending cfg call jobId handoffId)
  | .acknowledgeHandoff jobId handoffId => discard (acknowledgeHandoff cfg call jobId handoffId)
  | .finish jobId result => discard (finish cfg call jobId result)
  | .finishVoiceResult jobId result awaitingInput ttl =>
      discard (finishVoiceResult cfg call jobId result awaitingInput ttl)
  | .fail jobId cause => discard (fail cfg call jobId cause)
  | .finishCompat jobId result => discard (finishCompat cfg call jobId result)
  | .failCompat jobId cause => discard (failCompat cfg call jobId cause)
  | .requestCancel jobId actor => discard (requestCancel cfg call jobId actor)
  | .cancel jobId => discard (cancel cfg call jobId)
  | .claim jobId attempt => discard (claim cfg call jobId attempt)
  | .renew jobId attempt => discard (renew cfg call jobId attempt)
  | .authorize jobId attempt => discard (authorize cfg call jobId attempt)
  | .markPlaying jobId attempt => discard (markPlaying cfg call jobId attempt)
  | .markDelivered jobId attempt => discard (markDelivered cfg call jobId attempt)
  | .nack jobId attempt reason => discard (nack cfg call jobId attempt reason)
  | .expireDue => discard (expireDue cfg call)
  | .expireLeases => discard (expireLeases cfg call)
  | .recoverAfterRestart => discard (recoverAfterRestart cfg call)
  | .ackOrphanNotification jobId => discard (ackOrphanNotification cfg call jobId)

structure Event (T : Type) where
  call : Call T
  op : Op T

def exec (cfg : Settings T) (e : Event T) (s : Registry T) : Registry T :=
  after (perform cfg e.call e.op) s

def HasRoom (s : Registry T) (job : VoiceJob T) (limit : Option Int) : Prop :=
  ∀ n, limit = some n → 0 < n ∧
    ∀ route, job.originRouteId = some route → (s.jobs.rows.countP (liveOnRoute route) : Int) < n

/-- How an operation rewrites one existing row, with the guard it passed. -/
inductive Transition (cfg : Settings T) (now : T) (counter : Int) :
    Op T → VoiceJob T → VoiceJob T → Prop
  | keep (op : Op T) (job : VoiceJob T) : Transition cfg now counter op job job
  | consume {job child : VoiceJob T} {actor : Actor} {limit : Option Int}
      (isOpen : clarificationOpen now job = true) (awaiting : job.awaitingInput = true) :
      Transition cfg now counter (.createContinuation job.id child actor limit) job
        { job with awaitingInput := false }
  | restore {job : VoiceJob T} {childId : String} {actor : Actor}
      (isOpen : clarificationOpen now job = true) (idle : job.awaitingInput = false) :
      Transition cfg now counter (.compensateUnboundContinuation job.id childId actor) job
        { job with awaitingInput := true }
  | bind {job : VoiceJob T} {task : Nat} (accepted : job.executionState = .accepted) :
      Transition cfg now counter (.bindTask job.id task) job (boundRow now job)
  | handoffPending {job : VoiceJob T} {handoffId : String}
      (same : job.handoffId = none ∨ job.handoffId = some handoffId)
      (idle : job.handoffState = .none) :
      Transition cfg now counter (.markHandoffPending job.id handoffId) job
        { job with handoffId := some handoffId, handoffState := .pending }
  | handoffReceived {job : VoiceJob T} {handoffId : String} (same : job.handoffId = some handoffId)
      (pending : job.handoffState = .pending) :
      Transition cfg now counter (.acknowledgeHandoff job.id handoffId) job
        { job with handoffState := .received }
  | finish {job : VoiceJob T} {result : String} {op : Op T}
      (from_ : op = .finish job.id result ∨ op = .finishCompat job.id result)
      (active : job.executionState.isActive = true) :
      Transition cfg now counter op job (finishedRow cfg counter now job result)
  | finishVoice {job : VoiceJob T} {result : String} {awaitingInput : Bool} {ttl : Int}
      (active : job.executionState.isActive = true) :
      Transition cfg now counter (.finishVoiceResult job.id result awaitingInput ttl) job
        (voiceResultRow cfg counter now job result awaitingInput ttl)
  | fail {job : VoiceJob T} {cause : FailureCause} {op : Op T}
      (from_ : op = .fail job.id cause ∨ op = .failCompat job.id cause)
      (active : job.executionState.isActive = true) :
      Transition cfg now counter op job (failedRow cfg counter now job cause)
  | cancelPending {job : VoiceJob T} {actor : Actor}
      (stoppable : job.deliveryState = .authorized ∨
        (job.executionState.isActive = true ∧ job.deliveryState = .none)) :
      Transition cfg now counter (.requestCancel job.id actor) job
        { job with cancelPending := true }
  | cancelDelivery {job : VoiceJob T} {actor : Actor}
      (queued : job.deliveryState = .ready ∨ job.deliveryState = .claimed) :
      Transition cfg now counter (.requestCancel job.id actor) job (releasedRow job .cancelled)
  | cancel {job : VoiceJob T} (active : job.executionState.isActive = true) :
      Transition cfg now counter (.cancel job.id) job (cancelledRow cfg now job)
  | claim {job : VoiceJob T} {attempt : String} (ready : job.deliveryState = .ready) :
      Transition cfg now counter (.claim job.id attempt) job (claimedRow cfg now job attempt)
  | renew {job : VoiceJob T} {attempt : String} (leased : job.deliveryState.isLeased = true)
      (same : job.deliveryAttemptId = some attempt) :
      Transition cfg now counter (.renew job.id attempt) job (renewedRow cfg now job)
  | authorize {job : VoiceJob T} {attempt : String} (claimed : job.deliveryState = .claimed)
      (same : job.deliveryAttemptId = some attempt) :
      Transition cfg now counter (.authorize job.id attempt) job
        { job with deliveryState := .authorized }
  | play {job : VoiceJob T} {attempt : String} (authorized : job.deliveryState = .authorized)
      (same : job.deliveryAttemptId = some attempt) (free : job.cancelPending = false) :
      Transition cfg now counter (.markPlaying job.id attempt) job
        { job with deliveryState := .playing }
  | deliver {job : VoiceJob T} {attempt : String}
      (held : job.deliveryState = .claimed ∨ job.deliveryState = .playing)
      (same : job.deliveryAttemptId = some attempt) :
      Transition cfg now counter (.markDelivered job.id attempt) job (releasedRow job .delivered)
  | nack {job : VoiceJob T} {attempt reason : String}
      (held : job.deliveryState = .claimed ∨ job.deliveryState = .authorized)
      (same : job.deliveryAttemptId = some attempt) :
      Transition cfg now counter (.nack job.id attempt reason) job (nackedRow job reason)
  | expire {job : VoiceJob T} (due : resultDue now job = true) :
      Transition cfg now counter .expireDue job (releasedRow job .expired)
  | lapse {job : VoiceJob T} (due : leaseDue now job = true) :
      Transition cfg now counter .expireLeases job (lapsedRow job)
  | orphan {job : VoiceJob T} {number : Int} (active : job.executionState.isActive = true)
      (fresh : counter < number) :
      Transition cfg now counter .recoverAfterRestart job (orphanedRow cfg now job number)
  | extend {job : VoiceJob T} (leased : job.deliveryState.isLeased = true) :
      Transition cfg now counter .recoverAfterRestart job (renewedRow cfg now job)
  | ackOrphan {job : VoiceJob T} :
      Transition cfg now counter (.ackOrphanNotification job.id) job
        { job with orphanNotificationPending := false }

theorem Transition.id_eq {cfg : Settings T} {now : T} {counter : Int} {op : Op T}
    {job job' : VoiceJob T} (h : Transition cfg now counter op job job') : job'.id = job.id := by
  cases h <;> first | rfl | skip
  all_goals simp only [finishedRow, voiceResultRow]
  all_goals split <;> rfl

inductive Created (call : Call T) (s : Registry T) : Op T → VoiceJob T → Prop
  | create {job : VoiceJob T} {limit : Option Int} (room : HasRoom s job limit) :
      Created call s (.create job limit) job
  | continuation {parentId : String} {child : VoiceJob T} {actor : Actor} {limit : Option Int}
      (room : HasRoom s child limit) (fresh : newlyAccepted child = true)
      (ofParent : child.parentJobId = some parentId) :
      Created call s (.createContinuation parentId child actor limit) child
  | prompted {parent child : VoiceJob T} {actor : Actor} {limit : Option Int}
      (row : s.jobs.get? parent.id = some parent)
      (available : resultAvailable call.now parent = true) (room : HasRoom s child limit)
      (ofParent : child.parentJobId = some parent.id) :
      Created call s (.createPromptedDelivery parent.id child actor limit)
        (promptedRow s.deliverySequence call.now parent child)

inductive Candidate (cfg : Settings T) (call : Call T) (s : Registry T) :
    Op T → Jobs T → Table (Prod.fst : String × Nat → String) → Prop
  | insert {op : Op T} {job : VoiceJob T} (created : Created call s op job)
      (absent : s.jobs.get? job.id = none) :
      Candidate cfg call s op (s.jobs.put job) s.tasks
  | consume {parent child : VoiceJob T} {actor : Actor} {limit : Option Int}
      (row : s.jobs.get? parent.id = some parent)
      (isOpen : clarificationOpen call.now parent = true)
      (awaiting : parent.awaitingInput = true)
      (created : Created call s (.createContinuation parent.id child actor limit) child)
      (absent : s.jobs.get? child.id = none) :
      Candidate cfg call s (.createContinuation parent.id child actor limit)
        ((s.jobs.put { parent with awaitingInput := false }).put child) s.tasks
  | remove {parent child : VoiceJob T} {actor : Actor}
      (row : s.jobs.get? parent.id = some parent) (childRow : s.jobs.get? child.id = some child)
      (ofParent : child.parentJobId = some parent.id)
      (accepted : child.executionState = .accepted) (unbound : s.tasks.get? child.id = none) :
      Candidate cfg call s (.compensateUnboundContinuation parent.id child.id actor)
        (if clarificationOpen call.now parent && !parent.awaitingInput then
          (s.jobs.remove child.id).put { parent with awaitingInput := true }
        else s.jobs.remove child.id) s.tasks
  | move {op : Op T} {job job' : VoiceJob T} (row : s.jobs.get? job.id = some job)
      (moved : Transition cfg call.now s.deliverySequence op job job') :
      Candidate cfg call s op (s.jobs.put job') s.tasks
  | bind {job : VoiceJob T} {task : Nat} (row : s.jobs.get? job.id = some job)
      (accepted : job.executionState = .accepted) (unbound : s.tasks.get? job.id = none) :
      Candidate cfg call s (.bindTask job.id task) (s.jobs.put (boundRow call.now job))
        (s.tasks.put (job.id, task))
  | expire (same : ∀ job : VoiceJob T,
        (if resultDue call.now job then releasedRow job .expired else job).id = job.id) :
      Candidate cfg call s .expireDue
        (s.jobs.revise (fun job => if resultDue call.now job then releasedRow job .expired else job)
          same) s.tasks
  | lapse (same : ∀ job : VoiceJob T,
        (if leaseDue call.now job then lapsedRow job else job).id = job.id) :
      Candidate cfg call s .expireLeases
        (s.jobs.revise (fun job => if leaseDue call.now job then lapsedRow job else job) same)
        s.tasks
  | recover :
      Candidate cfg call s .recoverAfterRestart
        (recoverJobs cfg call.now s.deliverySequence s.jobs) s.tasks

/-- The registry after a commit of `jobs`. -/
def committed (s : Registry T) (jobs : Jobs T)
    (tasks : Table (Prod.fst : String × Nat → String)) : Registry T :=
  { s with
    disk := some (snapshotOf jobs), jobs := jobs, deliverySequence := maxSequence jobs.rows,
    tasks := tasks }

/-- Everything one call can do to a registry whose disk and memory agree. -/
inductive Effect (cfg : Settings T) (call : Call T) (s : Registry T) : Op T → Registry T → Prop
  | unchanged (op : Op T) : Effect cfg call s op s
  | released (jobId : String) (task : Nat) :
      Effect cfg call s (.taskDone jobId task) { s with tasks := s.tasks.remove jobId }
  | commit {op : Op T} {jobs : Jobs T} {tasks : Table (Prod.fst : String × Nat → String)}
      (loaded : s.loaded = true) (candidate : Candidate cfg call s op jobs tasks)
      (valid : call.writeOk = true ∧ AllSpeakersValid cfg jobs) :
      Effect cfg call s op (committed s jobs tasks)
  | boot {op : Op T} (fresh : s = .init) :
      Effect cfg call s op { (.init : Registry T) with
        disk := some (snapshotOf .empty), loaded := true }
  | reload (loaded : s.loaded = true) :
      Effect cfg call s .restart { s with jobs := resorted s.jobs, tasks := .empty }

section Rules
variable {cfg : Settings T} {call : Call T} {s : Registry T} {α : Type}

theorem commitSnapshot_ends {jobs : Jobs T} {f : Table (Prod.fst : String × Nat → String) →
      Table (Prod.fst : String × Nat → String)} {Q : PUnit → Registry T → Prop}
    {E : JobError → Registry T → Prop}
    (ok : call.writeOk = true ∧ AllSpeakersValid cfg jobs → Q ⟨⟩ (committed s jobs (f s.tasks)))
    (err : ∀ e, E e s) : Ends (commitSnapshot cfg call jobs f) s Q E := by
  simp only [commitSnapshot, writeSnapshot, ends_bind, ends_attempt, ends_require, ends_modify]
  refine ⟨fun snapshot eq => ⟨fun wrote => ?_, fun _ => err _⟩, fun _ _ => err _⟩
  cases encoded : encodeSnapshot cfg jobs with
  | error message => simp [encoded, Except.mapError] at eq
  | ok items =>
    obtain ⟨valid, itemsEq⟩ := encodeSnapshot_eq_ok_iff.mp encoded
    simp only [encoded, Except.mapError, Except.ok.injEq] at eq
    rw [← eq, itemsEq]
    exact ok ⟨wrote, valid⟩

theorem persistJob_ends {job : VoiceJob T} {Q : VoiceJob T → Registry T → Prop}
    {E : JobError → Registry T → Prop}
    (ok : call.writeOk = true ∧ AllSpeakersValid cfg (s.jobs.put job) →
      Q job (committed s (s.jobs.put job) s.tasks))
    (err : ∀ e, E e s) : Ends (persistJob cfg call job) s Q E := by
  simp only [persistJob, ends_bind, ends_get]
  refine commitSnapshot_ends (fun valid => ?_) err
  exact ok valid

theorem commitSnapshot_returns {jobs : Jobs T} {f : Table (Prod.fst : String × Nat → String) →
      Table (Prod.fst : String × Nat → String)} {Q : PUnit → Registry T → Prop}
    {E : JobError → Registry T → Prop} (wrote : call.writeOk = true)
    (valid : AllSpeakersValid cfg jobs) (ok : Q ⟨⟩ (committed s jobs (f s.tasks))) :
    Ends (commitSnapshot cfg call jobs f) s Q E := by
  have encoded := encodeSnapshot_eq_ok_iff.mpr ⟨valid, rfl⟩
  simp only [commitSnapshot, writeSnapshot, encoded, Except.mapError, ends_bind, ends_attempt,
    ends_require, ends_modify, wrote]
  refine ⟨?_, fun _ stuck => by simp at stuck⟩
  rintro snapshot ⟨rfl⟩
  exact ⟨fun _ => ok, fun stuck => absurd trivial stuck⟩

theorem requireJob_ends {jobId : String} {Q : VoiceJob T → Registry T → Prop}
    {E : JobError → Registry T → Prop}
    (ok : ∀ job, s.loaded = true → s.jobs.get? job.id = some job → job.id = jobId → Q job s)
    (err : ∀ e, E e s) : Ends (requireJob jobId) s Q E := by
  simp only [requireJob, requireLoaded, ends_bind, ends_get, ends_require]
  refine ⟨fun loaded => ?_, fun _ => err _⟩
  cases row : s.jobs.get? jobId with
  | none => exact err _
  | some job =>
    have same : job.id = jobId := Table.key_of_get? row
    exact ok job loaded (same ▸ row) same

theorem requireDeliveryCas_ends {jobId action : String} {state : DeliveryState}
    {attempt : Option String} {Q : VoiceJob T → Registry T → Prop}
    {E : JobError → Registry T → Prop}
    (ok : ∀ job, s.loaded = true → s.jobs.get? job.id = some job → job.id = jobId →
      job.deliveryState = state → job.deliveryAttemptId = attempt → Q job s)
    (err : ∀ e, E e s) : Ends (requireDeliveryCas jobId action state attempt) s Q E := by
  simp only [requireDeliveryCas, ends_bind, ends_require, ends_pure]
  refine requireJob_ends (fun job loaded row same => ?_) err
  exact ⟨fun st => ⟨fun at_ => ok job loaded row same st at_, fun _ => err _⟩, fun _ => err _⟩

theorem requireRouteCapacity_ends {job : VoiceJob T} {limit : Option Int}
    {Q : PUnit → Registry T → Prop} {E : JobError → Registry T → Prop}
    (ok : HasRoom s job limit → Q ⟨⟩ s) (err : ∀ e, E e s) :
    Ends (requireRouteCapacity job limit) s Q E := by
  cases limit with
  | none => exact ok (by simp [HasRoom])
  | some n =>
    simp only [requireRouteCapacity, ends_bind, ends_require]
    refine ⟨fun positive => ?_, fun _ => err _⟩
    cases route : job.originRouteId with
    | none =>
      refine ok ?_
      rintro m ⟨rfl⟩
      exact ⟨positive, by simp [route]⟩
    | some r =>
      simp only [ends_bind, ends_get, ends_require]
      refine ⟨fun room => ok ?_, fun _ => err _⟩
      rintro m ⟨rfl⟩
      refine ⟨positive, fun r' eq => ?_⟩
      rw [route, Option.some.injEq] at eq
      exact eq ▸ room

theorem ends_discard {m : RegistryM T α} {Q : PUnit → Registry T → Prop}
    {E : JobError → Registry T → Prop} :
    Ends (discard m) s Q E ↔ Ends m s (fun _ t => Q ⟨⟩ t) E := by
  simp only [discard, Functor.discard, Functor.mapConst]
  exact ends_map _ m s Q E

theorem after_discard (m : RegistryM T α) : after (discard m) s = after m s := by
  simp only [after, discard, Functor.discard, Functor.mapConst, EStateM.run,
    Function.comp_apply, EStateM.map]
  cases m s <;> rfl

end Rules

section Operations
variable {cfg : Settings T} {call : Call T} {s : Registry T}

/-- `m` has the effect of `op`, and a raise changes nothing. -/
def Performs (cfg : Settings T) (call : Call T) (s : Registry T) (op : Op T) {α : Type}
    (m : RegistryM T α) : Prop :=
  Ends m s (fun _ t => Effect cfg call s op t) (fun _ t => t = s)

theorem performs_pure {op : Op T} {α : Type} (a : α) : Performs cfg call s op (pure a) :=
  .unchanged op

theorem performs_move {op : Op T} {job job' : VoiceJob T} (loaded : s.loaded = true)
    (row : s.jobs.get? job.id = some job)
    (moved : Transition cfg call.now s.deliverySequence op job job') :
    Performs cfg call s op (persistJob cfg call job') :=
  persistJob_ends (fun valid => .commit loaded (.move row moved) valid) (fun _ => rfl)

theorem performs_create (job : VoiceJob T) (limit : Option Int) :
    Performs cfg call s (.create job limit) (create cfg call job limit) := by
  simp only [Performs, create, requireLoaded, requireAbsent, ends_bind, ends_get, ends_require,
    ends_pure, implies_true, and_true]
  intro loaded _ absent
  refine requireRouteCapacity_ends (fun room => ?_) (fun _ => rfl)
  exact commitSnapshot_ends (fun valid => .commit loaded (.insert (.create room) absent) valid)
    (fun _ => rfl)

theorem performs_createContinuation (parentId : String) (child : VoiceJob T) (actor : Actor)
    (limit : Option Int) :
    Performs cfg call s (.createContinuation parentId child actor limit)
      (createContinuation cfg call parentId child actor limit) := by
  simp only [Performs, createContinuation, authorizeActor, requireAbsent, ends_bind, ends_get,
    ends_require, ends_pure]
  refine requireJob_ends ?_ (fun _ => rfl)
  rintro parent loaded row rfl
  simp only [implies_true, and_true]
  rintro _ _ _ absent ofParent _
  refine requireRouteCapacity_ends (fun room => ?_) (fun _ => rfl)
  simp only [implies_true, and_true]
  rintro fresh ⟨isOpen, awaiting⟩
  exact commitSnapshot_ends (fun valid => .commit loaded
    (.consume row isOpen awaiting (.continuation room fresh ofParent) absent) valid) (fun _ => rfl)

theorem performs_compensate (parentId childId : String) (actor : Actor) :
    Performs cfg call s (.compensateUnboundContinuation parentId childId actor)
      (compensateUnboundContinuation cfg call parentId childId actor) := by
  simp only [Performs, compensateUnboundContinuation, authorizeActor, ends_bind, ends_get,
    ends_require]
  refine requireJob_ends ?_ (fun _ => rfl)
  rintro parent loaded row rfl
  simp only [implies_true, and_true]
  rintro _
  cases childRow : s.jobs.get? childId with
  | none => exact performs_pure false
  | some child =>
    obtain rfl : child.id = childId := Table.key_of_get? childRow
    simp only [ends_bind, ends_require, implies_true, and_true]
    intro _ ofParent
    rw [ends_ite]
    refine ⟨fun _ => performs_pure false, fun bound => ?_⟩
    simp only [not_or, ne_eq, not_not, Option.not_isSome_iff_eq_none] at bound
    simp only [ends_bind, ends_pure]
    exact commitSnapshot_ends (fun valid => .commit loaded
      (.remove row childRow ofParent bound.1 bound.2) valid) (fun _ => rfl)

theorem promptedRow_id (counter : Int) (now : T) (parent child : VoiceJob T) :
    (promptedRow counter now parent child).id = child.id := by
  simp only [promptedRow, inheritDeliveryModality]
  split
  · rfl
  split <;> rfl

theorem performs_createPromptedDelivery (parentId : String) (child : VoiceJob T) (actor : Actor)
    (limit : Option Int) :
    Performs cfg call s (.createPromptedDelivery parentId child actor limit)
      (createPromptedDelivery cfg call parentId child actor limit) := by
  simp only [Performs, createPromptedDelivery, authorizeActor, requireAbsent, ends_bind, ends_get,
    ends_require, ends_pure]
  refine requireJob_ends ?_ (fun _ => rfl)
  rintro parent loaded row rfl
  simp only [implies_true, and_true]
  rintro _ _ absent ⟨ofParent, _⟩ available
  refine requireRouteCapacity_ends (fun room => ?_) (fun _ => rfl)
  rw [← promptedRow_id s.deliverySequence call.now parent child] at absent
  exact commitSnapshot_ends (fun valid => .commit loaded
    (.insert (.prompted row available room ofParent) absent) valid) (fun _ => rfl)

theorem performs_bindTask (jobId : String) (task : Nat) :
    Performs cfg call s (.bindTask jobId task) (bindTask cfg call jobId task) := by
  simp only [Performs, bindTask, ends_bind, ends_get, ends_require]
  refine requireJob_ends ?_ (fun _ => rfl)
  rintro job loaded row rfl
  simp only [implies_true, and_true]
  rintro accepted unbound
  exact commitSnapshot_ends (fun valid => .commit loaded (.bind row accepted unbound) valid)
    (fun _ => rfl)

theorem performs_taskDone (jobId : String) (task : Nat) :
    Performs cfg call s (.taskDone jobId task) (taskDone jobId task) := by
  simp only [Performs, taskDone, ends_modify]
  split
  · exact .released jobId task
  · exact .unchanged _

theorem performs_markHandoffPending (jobId handoffId : String) :
    Performs cfg call s (.markHandoffPending jobId handoffId)
      (markHandoffPending cfg call jobId handoffId) := by
  simp only [Performs, markHandoffPending, ends_bind, ends_require, ends_ite, implies_true,
    and_true]
  intro _
  refine requireJob_ends ?_ (fun _ => rfl)
  rintro job loaded row rfl
  simp only [implies_true, and_true]
  rintro _ same notReceived
  refine ⟨fun _ => performs_pure job, fun notPending => ?_⟩
  have idle : job.handoffState = .none := by
    cases h : job.handoffState <;> simp_all
  exact performs_move loaded row (.handoffPending same idle)

theorem performs_acknowledgeHandoff (jobId handoffId : String) :
    Performs cfg call s (.acknowledgeHandoff jobId handoffId)
      (acknowledgeHandoff cfg call jobId handoffId) := by
  simp only [Performs, acknowledgeHandoff, ends_bind, ends_require, ends_ite, implies_true,
    and_true]
  intro _
  refine requireJob_ends ?_ (fun _ => rfl)
  rintro job loaded row rfl
  simp only [implies_true, and_true]
  rintro same
  exact ⟨fun _ => performs_pure job, fun _ pending =>
    performs_move loaded row (.handoffReceived same pending)⟩

theorem performs_finish (jobId result : String) :
    Performs cfg call s (.finish jobId result) (finish cfg call jobId result) := by
  simp only [Performs, finish, requireLiveExecution, ends_bind, ends_get, ends_require]
  refine requireJob_ends ?_ (fun _ => rfl)
  rintro job loaded row rfl
  simp only [implies_true, and_true]
  rintro active
  exact performs_move loaded row (.finish (.inl rfl) active)

theorem performs_finishVoiceResult (jobId result : String) (awaitingInput : Bool) (ttl : Int) :
    Performs cfg call s (.finishVoiceResult jobId result awaitingInput ttl)
      (finishVoiceResult cfg call jobId result awaitingInput ttl) := by
  simp only [Performs, finishVoiceResult, requireLiveExecution, ends_bind, ends_get, ends_require,
    implies_true, and_true]
  intro _
  refine requireJob_ends ?_ (fun _ => rfl)
  rintro job loaded row rfl
  simp only [implies_true, and_true]
  rintro active
  exact performs_move loaded row (.finishVoice active)

theorem performs_fail (jobId : String) (cause : FailureCause) :
    Performs cfg call s (.fail jobId cause) (fail cfg call jobId cause) := by
  simp only [Performs, fail, requireLiveExecution, ends_bind, ends_get, ends_require]
  refine requireJob_ends ?_ (fun _ => rfl)
  rintro job loaded row rfl
  simp only [implies_true, and_true]
  rintro active
  exact performs_move loaded row (.fail (.inl rfl) active)

theorem performs_settleCompat {op : Op T} {jobId : String} {row : Int → VoiceJob T → VoiceJob T}
    (moved : ∀ job, job.id = jobId → job.executionState.isActive = true →
      Transition cfg call.now s.deliverySequence op job (row s.deliverySequence job)) :
    Performs cfg call s op (settleCompat cfg call jobId row) := by
  simp only [Performs, settleCompat, requireLoaded, ends_bind, ends_get, ends_require,
    implies_true, and_true]
  intro loaded
  cases present : s.jobs.get? jobId with
  | none => exact performs_pure none
  | some job =>
    obtain rfl : job.id = jobId := Table.key_of_get? present
    simp only [ends_ite, ends_map]
    exact ⟨fun active => performs_move loaded present (moved job rfl active),
      fun _ => performs_pure _⟩

theorem performs_requestCancel (jobId : String) (actor : Actor) :
    Performs cfg call s (.requestCancel jobId actor) (requestCancel cfg call jobId actor) := by
  simp only [Performs, requestCancel, authorizeActor, ends_bind, ends_require, ends_ite, ends_pure]
  refine requireJob_ends ?_ (fun _ => rfl)
  rintro job loaded row rfl
  simp only [implies_true, and_true]
  rintro _
  refine ⟨fun _ => .unchanged _, fun notHeard => ⟨fun _ => .unchanged _, fun open_ => ?_⟩⟩
  refine ⟨fun authorized => performs_move loaded row (.cancelPending (.inl authorized)),
    fun notAuthorized => ⟨fun queued => performs_move loaded row (.cancelDelivery queued),
      fun notQueued => ⟨fun active => ?_, fun _ => .unchanged _⟩⟩⟩
  have none_ : job.deliveryState = .none := by
    cases h : job.deliveryState <;> simp_all
  exact performs_move loaded row (.cancelPending (.inr ⟨active, none_⟩))

theorem Synced.loaded_of_mem (sync : Synced cfg s) {job : VoiceJob T} (mem : job ∈ s.jobs.rows) :
    s.loaded = true := by
  cases sync with
  | fresh => simp [Registry.init, Table.empty] at mem
  | loaded loaded _ _ _ => exact loaded

theorem performs_cancel (sync : Synced cfg s) (jobId : String) :
    Performs cfg call s (.cancel jobId) (cancel cfg call jobId) := by
  simp only [Performs, cancel, ends_bind, ends_get]
  cases present : s.jobs.get? jobId with
  | none => exact performs_pure none
  | some job =>
    obtain rfl : job.id = jobId := Table.key_of_get? present
    have loaded := Synced.loaded_of_mem sync (Table.mem_of_get? present)
    simp only [ends_ite, ends_map]
    refine ⟨fun _ => performs_pure _, fun notTerminal => ?_⟩
    exact performs_move loaded present (.cancel (by simp [ExecutionState.isActive, notTerminal]))

theorem performs_claim (jobId attempt : String) :
    Performs cfg call s (.claim jobId attempt) (claim cfg call jobId attempt) := by
  simp only [Performs, claim, ends_bind, ends_require, implies_true, and_true]
  intro _
  refine requireDeliveryCas_ends ?_ (fun _ => rfl)
  rintro job loaded row rfl ready _
  exact performs_move loaded row (.claim ready)

theorem performs_renew (jobId attempt : String) :
    Performs cfg call s (.renew jobId attempt) (renew cfg call jobId attempt) := by
  simp only [Performs, renew, ends_bind, ends_require]
  refine requireJob_ends ?_ (fun _ => rfl)
  rintro job loaded row rfl
  simp only [implies_true, and_true]
  rintro ⟨leased, same⟩
  exact performs_move loaded row (.renew leased same)

theorem performs_authorize (jobId attempt : String) :
    Performs cfg call s (.authorize jobId attempt) (authorize cfg call jobId attempt) := by
  simp only [Performs, authorize, ends_bind]
  refine requireDeliveryCas_ends ?_ (fun _ => rfl)
  rintro job loaded row rfl claimed same
  exact performs_move loaded row (.authorize claimed same)

theorem performs_markPlaying (jobId attempt : String) :
    Performs cfg call s (.markPlaying jobId attempt) (markPlaying cfg call jobId attempt) := by
  simp only [Performs, markPlaying, ends_bind, ends_require]
  refine requireDeliveryCas_ends ?_ (fun _ => rfl)
  rintro job loaded row rfl authorized same
  simp only [implies_true, and_true]
  intro free
  exact performs_move loaded row (.play authorized same free)

theorem performs_markDelivered (jobId attempt : String) :
    Performs cfg call s (.markDelivered jobId attempt) (markDelivered cfg call jobId attempt) := by
  simp only [Performs, markDelivered, ends_bind, ends_require]
  refine requireJob_ends ?_ (fun _ => rfl)
  rintro job loaded row rfl
  simp only [implies_true, and_true]
  rintro ⟨held, same⟩
  exact performs_move loaded row (.deliver held same)

theorem performs_nack (jobId attempt reason : String) :
    Performs cfg call s (.nack jobId attempt reason) (nack cfg call jobId attempt reason) := by
  simp only [Performs, nack, ends_bind, ends_require]
  refine requireJob_ends ?_ (fun _ => rfl)
  rintro job loaded row rfl
  simp only [implies_true, and_true]
  rintro ⟨held, same⟩
  exact performs_move loaded row (.nack held same)

theorem performs_sweepRows (sync : Synced cfg s) {op : Op T} {due : VoiceJob T → Bool}
    {row : VoiceJob T → VoiceJob T} {same : ∀ job, (row job).id = job.id}
    (candidate : ∀ same', Candidate cfg call s op
      (s.jobs.revise (fun job => if due job then row job else job) same') s.tasks) :
    Performs cfg call s op (sweepRows cfg call due row same) := by
  simp only [Performs, sweepRows, ends_bind, ends_get, ends_ite]
  refine ⟨fun _ => performs_pure [], fun some_ => ?_⟩
  have loaded : s.loaded = true := by
    obtain ⟨job, mem⟩ := List.exists_mem_of_ne_nil _ some_
    obtain ⟨old, oldMem, _⟩ := List.mem_map.mp mem
    exact Synced.loaded_of_mem sync (List.mem_of_mem_filter oldMem)
  exact commitSnapshot_ends (fun valid => .commit loaded (candidate _) valid) (fun _ => rfl)

theorem performs_recoverAfterRestart :
    Performs cfg call s .recoverAfterRestart (recoverAfterRestart cfg call) := by
  simp only [Performs, recoverAfterRestart, requireLoaded, ends_bind, ends_get, ends_require,
    ends_pure, ends_ite, implies_true, and_true]
  intro loaded
  exact ⟨fun _ => .unchanged _, fun _ => commitSnapshot_ends
    (fun valid => .commit loaded .recover valid) (fun _ => rfl)⟩

theorem performs_ackOrphanNotification (jobId : String) :
    Performs cfg call s (.ackOrphanNotification jobId) (ackOrphanNotification cfg call jobId) := by
  simp only [Performs, ackOrphanNotification, ends_bind, ends_ite]
  refine requireJob_ends ?_ (fun _ => rfl)
  rintro job loaded row rfl
  exact ⟨fun _ => performs_move loaded row .ackOrphan, fun _ => performs_pure job⟩

theorem encodeSnapshot_empty : encodeSnapshot cfg .empty = .ok (snapshotOf (.empty : Jobs T)) :=
  rfl

theorem load_init_ends {op : Op T} :
    Ends (load cfg call) Registry.init (fun _ t => Effect cfg call .init op t)
      (fun _ t => t = .init) := by
  simp only [load, Registry.init, writeSnapshot, publishLoad, encodeSnapshot_empty, ends_bind,
    ends_get, ends_attempt, ends_require, ends_modify, Bool.false_eq_true, if_false,
    implies_true, and_true]
  rintro snapshot ⟨rfl⟩ _
  exact .boot rfl

theorem performs_load (sync : Synced cfg s) : Performs cfg call s .load (load cfg call) := by
  cases sync with
  | fresh => exact load_init_ends
  | loaded loaded _ _ _ =>
    simp only [Performs, load, ends_bind, ends_get, loaded, if_true]
    exact performs_pure _

theorem performs_restart (sync : Synced cfg s) :
    Performs cfg call s .restart (restart cfg call) := by
  cases sync with
  | fresh =>
    simp only [Performs, restart, ends_bind, ends_modify]
    exact load_init_ends
  | loaded loaded valid disk counter =>
    simp only [Performs, restart, load, publishLoad, Registry.init, disk, ends_bind, ends_modify,
      ends_get, decodeSnapshot_snapshotOf valid, ends_attempt, Bool.false_eq_true, if_false]
    refine ⟨?_, fun e stuck => by simp at stuck⟩
    rintro jobs ⟨rfl⟩
    have same : maxSequence (resorted s.jobs).rows = s.deliverySequence := by
      rw [counter]
      exact maxSequence_perm (sortedJobs_perm s.jobs.rows)
    have reload : Effect cfg call s .restart { s with jobs := resorted s.jobs, tasks := .empty } :=
      .reload loaded
    rw [← disk, same, ← loaded]
    exact reload

theorem performs (sync : Synced cfg s) (op : Op T) :
    Performs cfg call s op (perform cfg call op) := by
  cases op with
  | load => exact performs_load sync
  | restart => exact performs_restart sync
  | taskDone jobId task => exact performs_taskDone jobId task
  | create job limit => exact ends_discard.mpr (performs_create job limit)
  | createContinuation parentId child actor limit =>
    exact ends_discard.mpr (performs_createContinuation parentId child actor limit)
  | compensateUnboundContinuation parentId childId actor =>
    exact ends_discard.mpr (performs_compensate parentId childId actor)
  | createPromptedDelivery parentId child actor limit =>
    exact ends_discard.mpr (performs_createPromptedDelivery parentId child actor limit)
  | bindTask jobId task => exact performs_bindTask jobId task
  | markHandoffPending jobId handoffId =>
    exact ends_discard.mpr (performs_markHandoffPending jobId handoffId)
  | acknowledgeHandoff jobId handoffId =>
    exact ends_discard.mpr (performs_acknowledgeHandoff jobId handoffId)
  | finish jobId result => exact ends_discard.mpr (performs_finish jobId result)
  | finishVoiceResult jobId result awaitingInput ttl =>
    exact ends_discard.mpr (performs_finishVoiceResult jobId result awaitingInput ttl)
  | fail jobId cause => exact ends_discard.mpr (performs_fail jobId cause)
  | finishCompat jobId result =>
    refine ends_discard.mpr (performs_settleCompat ?_)
    rintro job rfl active
    exact .finish (.inr rfl) active
  | failCompat jobId cause =>
    refine ends_discard.mpr (performs_settleCompat ?_)
    rintro job rfl active
    exact .fail (.inr rfl) active
  | requestCancel jobId actor => exact ends_discard.mpr (performs_requestCancel jobId actor)
  | cancel jobId => exact ends_discard.mpr (performs_cancel sync jobId)
  | claim jobId attempt => exact ends_discard.mpr (performs_claim jobId attempt)
  | renew jobId attempt => exact ends_discard.mpr (performs_renew jobId attempt)
  | authorize jobId attempt => exact ends_discard.mpr (performs_authorize jobId attempt)
  | markPlaying jobId attempt => exact ends_discard.mpr (performs_markPlaying jobId attempt)
  | markDelivered jobId attempt => exact ends_discard.mpr (performs_markDelivered jobId attempt)
  | nack jobId attempt reason => exact ends_discard.mpr (performs_nack jobId attempt reason)
  | expireDue => exact ends_discard.mpr (performs_sweepRows sync (fun same => .expire same))
  | expireLeases => exact ends_discard.mpr (performs_sweepRows sync (fun same => .lapse same))
  | recoverAfterRestart => exact ends_discard.mpr performs_recoverAfterRestart
  | ackOrphanNotification jobId => exact ends_discard.mpr (performs_ackOrphanNotification jobId)

theorem exec_effect (sync : Synced cfg s) (op : Op T) :
    Effect cfg call s op (exec cfg ⟨call, op⟩ s) := by
  apply Ends.after
  refine (performs sync op).mono (fun _ _ effect => effect) ?_
  rintro _ _ rfl
  exact .unchanged op

theorem exec_eq_of_raised (sync : Synced cfg s) {op : Op T} {e : JobError}
    (h : raised (perform cfg call op) s = some e) : exec cfg ⟨call, op⟩ s = s :=
  (performs sync op).error h

end Operations

end Casa.JobEffects
