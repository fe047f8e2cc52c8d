import Casa.KeyedTable
import Casa.FaultState
import Casa.JobRecord

/-! The durable job registry (`job_registry.py`). Every operation runs in a state
monad that keeps its writes when it raises, so the order persist-then-publish of
`_commit_snapshot_locked` is a fact about this code. A call carries the one clock
reading and the one write outcome its operation can observe. -/

namespace Casa.JobRegistry
open PythonValue ProvenanceCodec JobRecord KeyedTable FaultState

abbrev Jobs (T : Type) := Table (@VoiceJob.id T)

/-- `disk` is the snapshot file; `tasks` is the process-local task ownership,
the only runtime map a durable transition reads. -/
structure Registry (T : Type) where
  disk : Option (Json T)
  loaded : Bool
  jobs : Jobs T
  deliverySequence : Int
  tasks : Table (Prod.fst : String × Nat → String)

/-- A registry object before its first `load`, over an absent snapshot file. -/
def Registry.init {T : Type} : Registry T := ⟨none, false, .empty, 0, .empty⟩

structure Call (T : Type) where
  now : T
  writeOk : Bool

structure Settings (T : Type) where
  py : Builtins T
  leaseSeconds : T
  voiceResultTtlSeconds : T

abbrev RegistryM (T : Type) := EStateM JobError (Registry T)

/-- The attributes or keys an actor object offers; a present value may be `None`. -/
abbrev Actor := String → Option (Option String)

inductive CancelStatus where
  | tooLate | cancelled | stopping
deriving DecidableEq, Repr

/-- `JobFailure | BaseException`. -/
inductive FailureCause where
  | envelope (failure : JobFailure)
  | cancelledError
  | exception (kind message : String)
deriving DecidableEq, Repr

variable {T : Type} [LinearOrder T] [Add T] [IntCast T]

section Pure

/-- `max(job.delivery_sequence for job in jobs)`, zero for an empty registry. -/
def maxSequence : List (VoiceJob T) → Int
  | [] => 0
  | job :: rest => rest.foldl (fun m other => max m other.deliverySequence) job.deliverySequence

/-- `t is not None and t > now`. -/
def later (now : T) (t : Option T) : Bool := t.any (fun x => now < x)

/-- `t is None or t > now`. -/
def notPast (now : T) (t : Option T) : Bool := t.all (fun x => now < x)

/-- `available` of `create_prompted_delivery`. -/
def resultAvailable (now : T) (parent : VoiceJob T) : Bool :=
  parent.executionState == .succeeded && parent.result.isSome && notPast now parent.expiresAt &&
    parent.deliveryState != .cancelled && parent.deliveryState != .expired &&
    !parent.cancelPending

/-- The conditions `create_continuation` and its compensation share. -/
def clarificationOpen (now : T) (parent : VoiceJob T) : Bool :=
  resultAvailable now parent && later now parent.continuableUntil

def inheritDeliveryModality (parent child : VoiceJob T) : VoiceJob T :=
  if child.deliveryModality.isSome then child
  else if child.originDeviceId ≠ parent.originDeviceId then child
  else { child with deliveryModality := parent.deliveryModality }

def hasTrustedVoiceDeliveryProvenance (job : VoiceJob T) : Bool :=
  job.creatorPeer == "voice" && job.originRouteId.any (fun r => strip r ≠ "") &&
    job.originDeviceId.any (fun d => strip d ≠ "")

def resultTtlSeconds : T := ((24 * 60 * 60 : Int) : T)

def terminalResultTtlSeconds (cfg : Settings T) (job : VoiceJob T) : T :=
  if hasTrustedVoiceDeliveryProvenance job then cfg.voiceResultTtlSeconds else resultTtlSeconds

def deliverable (job : VoiceJob T) : Bool := truthy job.originRouteId && truthy job.originDeviceId

/-- `_terminal_delivery` against the registry's current counter. -/
def terminalDelivery (counter : Int) (job : VoiceJob T) : DeliveryState × Int :=
  if deliverable job then (.ready, counter + 1) else (.none, job.deliverySequence)

def cancelledDelivery (job : VoiceJob T) : DeliveryState :=
  if job.deliveryState ≠ .none then .cancelled else .none

def failureEnvelope : FailureCause → JobFailure
  | .envelope failure => failure
  | .cancelledError => ⟨"cancelled", "Delegation cancelled"⟩
  | .exception kind message => ⟨kind, message⟩

def FailureCause.isCancellation (cause : FailureCause) : Bool :=
  cause == .cancelledError || (failureEnvelope cause).kind == "cancelled"

/-- `_actor_value`: the primary name wins even when its value is `None`. -/
def actorValue (actor : Actor) (primary fallback : String) : Option String :=
  match actor primary with
  | some value => value
  | none => (actor fallback).join

/-- `_authorize_actor` as a condition. -/
def owns (actor : Actor) (job : VoiceJob T) : Bool :=
  actorValue actor "creator_peer" "peer" == some job.creatorPeer &&
    actorValue actor "creator_user_id" "user_id" == job.creatorUserId &&
    match job.jobControlId with
    | some control => actorValue actor "job_control_id" "control_id" == some control
    | none => actorValue actor "scope_id" "scope" == some job.scopeId

/-- Counted by `_require_route_capacity`. -/
def liveOnRoute (route : String) (job : VoiceJob T) : Bool :=
  job.originRouteId == some route && (job.executionState.isActive || job.deliveryState.isLive)

end Pure

section Rows
variable (cfg : Settings T) (counter : Int) (now : T) (job : VoiceJob T)

/-- The row `create_prompted_delivery` stores for `child`. -/
def promptedRow (parent child : VoiceJob T) : VoiceJob T :=
  { inheritDeliveryModality parent child with
    startedAt := some now
    terminalAt := some now
    expiresAt := parent.expiresAt
    executionState := .succeeded
    deliveryState := .ready
    result := parent.result
    deliverySequence := counter + 1
    promptedDelivery := true }

def boundRow : VoiceJob T :=
  { job with executionState := .running, startedAt := some (job.startedAt.getD now) }

/-- The cancelled branch of `_finish_current_locked`. -/
def finishCancelledRow : VoiceJob T :=
  { job with
    executionState := .cancelled
    terminalAt := some now
    expiresAt := some (now + terminalResultTtlSeconds cfg job)
    failure := some ⟨"cancelled", "Cancelled by creator"⟩
    deliveryState := cancelledDelivery job
    deliveryAttemptId := none
    leaseUntil := none
    cancelPending := false }

def finishedRow (result : String) : VoiceJob T :=
  if job.cancelPending then finishCancelledRow cfg now job
  else
    { job with
      executionState := .succeeded
      terminalAt := some now
      expiresAt := some (now + terminalResultTtlSeconds cfg job)
      result := some result
      failure := none
      deliveryState := (terminalDelivery counter job).1
      deliverySequence := (terminalDelivery counter job).2
      deliveryAttemptId := none
      leaseUntil := none
      cancelPending := false }

def voiceResultRow (result : String) (awaitingInput : Bool) (deliveryTtlS : Int) : VoiceJob T :=
  if job.cancelPending then
    { finishCancelledRow cfg now job with awaitingInput := false, continuableUntil := none }
  else
    let expiresAt := now + min (deliveryTtlS : T) (terminalResultTtlSeconds cfg job)
    { job with
      executionState := .succeeded
      terminalAt := some now
      expiresAt := some expiresAt
      result := some result
      failure := none
      awaitingInput := awaitingInput
      continuableUntil := if awaitingInput then some expiresAt else none
      deliveryState := (terminalDelivery counter job).1
      deliverySequence := (terminalDelivery counter job).2
      deliveryAttemptId := none
      leaseUntil := none
      cancelPending := false }

def failedRow (cause : FailureCause) : VoiceJob T :=
  let stopped := cause.isCancellation || job.cancelPending
  { job with
    executionState := if stopped then .cancelled else .failed
    terminalAt := some now
    expiresAt := some (now + terminalResultTtlSeconds cfg job)
    failure := some (failureEnvelope cause)
    deliveryState := if stopped then cancelledDelivery job else (terminalDelivery counter job).1
    deliverySequence :=
      if stopped then job.deliverySequence else (terminalDelivery counter job).2
    deliveryAttemptId := none
    leaseUntil := none
    cancelPending := false }

/-- The row written by `cancel`. -/
def cancelledRow : VoiceJob T :=
  { job with
    executionState := .cancelled
    terminalAt := some now
    expiresAt := some (now + terminalResultTtlSeconds cfg job)
    failure := some ⟨"cancelled", "Delegation cancelled"⟩
    deliveryState := cancelledDelivery job
    deliveryAttemptId := none
    leaseUntil := none
    cancelPending := false }

/-- Leave the lease with the given delivery state; shared by every transition
that ends an attempt. -/
def releasedRow (delivery : DeliveryState) : VoiceJob T :=
  { job with
    deliveryState := delivery, deliveryAttemptId := none, leaseUntil := none,
    cancelPending := false }

def claimedRow (attempt : String) : VoiceJob T :=
  { job with
    deliveryState := .claimed, deliveryAttemptId := some attempt,
    leaseUntil := some (now + cfg.leaseSeconds) }

def renewedRow : VoiceJob T := { job with leaseUntil := some (now + cfg.leaseSeconds) }

def nackCancels (reason : String) : Bool :=
  job.deliveryState == .authorized && job.cancelPending && reason == "preempted_before_playback"

def nackedRow (reason : String) : VoiceJob T :=
  releasedRow job (if nackCancels job reason then .cancelled else .ready)

def resultDue : Bool :=
  job.expiresAt.any (fun x => !(now < x)) && !job.deliveryState.isClosed

def leaseDue : Bool := job.deliveryState.isLeased && job.leaseUntil.any (fun x => !(now < x))

def lapsedRow : VoiceJob T :=
  releasedRow job
    (if job.deliveryState == .authorized && job.cancelPending then .cancelled else .ready)

/-- `recover_after_restart` on a live execution, given the number it would use. -/
def orphanedRow (number : Int) : VoiceJob T :=
  { job with
    executionState := .orphaned
    terminalAt := some now
    expiresAt := some (now + terminalResultTtlSeconds cfg job)
    failure := some ⟨"restart_orphan", "Lost on restart"⟩
    deliveryState := if deliverable job then .ready else .none
    deliverySequence := if deliverable job then number else job.deliverySequence
    deliveryAttemptId := none
    leaseUntil := none
    cancelPending := false
    orphanNotificationPending := job.creatorPeer == "telegram" }

def recoverRow (next : Int) : Int × VoiceJob T :=
  if job.executionState.isActive then
    (if deliverable job then next + 1 else next, orphanedRow cfg now job (next + 1))
  else if job.deliveryState.isLeased then (next, renewedRow cfg now job)
  else (next, job)

end Rows

def recoverRows (cfg : Settings T) (now : T) : Int → List (VoiceJob T) → List (VoiceJob T)
  | _, [] => []
  | next, job :: rest =>
      (recoverRow cfg now job next).2 :: recoverRows cfg now (recoverRow cfg now job next).1 rest

omit [LinearOrder T] in
theorem recoverRow_id (cfg : Settings T) (now : T) (job : VoiceJob T) (next : Int) :
    (recoverRow cfg now job next).2.id = job.id := by
  unfold recoverRow
  split
  · rfl
  split <;> rfl

omit [LinearOrder T] in
theorem recoverRows_map_id (cfg : Settings T) (now : T) (next : Int) (rows : List (VoiceJob T)) :
    (recoverRows cfg now next rows).map VoiceJob.id = rows.map VoiceJob.id := by
  induction rows generalizing next with
  | nil => rfl
  | cons job rest ih => simp [recoverRows, recoverRow_id, ih]

def recoverJobs (cfg : Settings T) (now : T) (counter : Int) (jobs : Jobs T) : Jobs T :=
  ⟨recoverRows cfg now counter jobs.rows, by rw [recoverRows_map_id]; exact jobs.nodup⟩

section Persistence
variable (cfg : Settings T)

/-- The rows handed to `atomic_write_json`; raises when a speaker does not validate. -/
def encodeSnapshot (jobs : Jobs T) : Except String (Json T) := do
  let items ← (sortedJobs jobs.rows).mapM (encodeJob cfg.py)
  pure (.arr items)

def decodeRows : List (Json T) → Jobs T → Except JobError (Jobs T)
  | [], jobs => .ok jobs
  | row :: rest, jobs => do
      let job ← decodeJob cfg.py row
      if (jobs.get? job.id).isSome then .error (.registry "duplicate job id in snapshot")
      else decodeRows rest (jobs.put job)

def decodeSnapshot : Json T → Except JobError (Jobs T)
  | .arr items => decodeRows cfg items .empty
  | _ => .error (.registry "job snapshot is not a JSON array")

/-- `_write_snapshot_locked`: the file is replaced as a whole or left alone. -/
def writeSnapshot (call : Call T) (jobs : Jobs T) : RegistryM T PUnit := do
  let snapshot ← attempt ((encodeSnapshot cfg jobs).mapError JobError.value)
  require (call.writeOk = true) .write
  modify fun s => { s with disk := some snapshot }

/-- `_commit_snapshot_locked`; `afterPublish` acts on the runtime task map. -/
def commitSnapshot (call : Call T) (jobs : Jobs T)
    (afterPublish : Table (Prod.fst : String × Nat → String) →
      Table (Prod.fst : String × Nat → String)) : RegistryM T PUnit := do
  writeSnapshot cfg call jobs
  modify fun s => { s with jobs := jobs }
  modify fun s => { s with deliverySequence := maxSequence jobs.rows }
  modify fun s => { s with tasks := afterPublish s.tasks }

/-- `_persist_job_locked`. -/
def persistJob (call : Call T) (updated : VoiceJob T) : RegistryM T (VoiceJob T) := do
  let s ← get
  commitSnapshot cfg call (s.jobs.put updated) id
  pure updated

def publishLoad (jobs : Jobs T) : RegistryM T PUnit :=
  modify fun s =>
    { s with jobs := jobs, deliverySequence := maxSequence jobs.rows, loaded := true }

def load (call : Call T) : RegistryM T PUnit := do
  let s ← get
  if s.loaded then pure ⟨⟩
  else match s.disk with
    | some raw => do
        let jobs ← attempt (decodeSnapshot cfg raw)
        publishLoad jobs
    | none => do
        writeSnapshot cfg call .empty
        publishLoad .empty

def restart (call : Call T) : RegistryM T PUnit := do
  modify fun s => { Registry.init with disk := s.disk }
  load cfg call

end Persistence

section Guards

def requireLoaded : RegistryM T PUnit := do
  let s ← get
  require (s.loaded = true) (.registry "JobRegistry.load() must be awaited first")

def requireJob (jobId : String) : RegistryM T (VoiceJob T) := do
  requireLoaded
  let s ← get
  match s.jobs.get? jobId with
  | some job => pure job
  | none => throw (.transition (.unknown jobId))

def requireAbsent (jobId : String) : RegistryM T PUnit := do
  let s ← get
  require (s.jobs.get? jobId = none) (.transition (.alreadyExists jobId))

def transitionError (job : VoiceJob T) (action expected : String) : JobError :=
  .transition (.rejected action job.id expected job.executionState job.deliveryState
    job.deliveryAttemptId)

def requireRouteCapacity (job : VoiceJob T) : Option Int → RegistryM T PUnit
  | none => pure ⟨⟩
  | some limit => do
      require (0 < limit) (.value "max_active_ready_per_route must be positive")
      match job.originRouteId with
      | none => pure ⟨⟩
      | some route => do
          let s ← get
          require ((s.jobs.rows.countP (liveOnRoute route) : Int) < limit)
            (.routeCapacity route limit)

def authorizeActor (job : VoiceJob T) (actor : Actor) : RegistryM T PUnit :=
  require (owns actor job = true) (.authorization job.id)

def requireLiveExecution (job : VoiceJob T) (action : String) : RegistryM T PUnit :=
  require (job.executionState.isActive = true)
    (transitionError job action "execution=ACCEPTED/RUNNING")

def requireDeliveryCas (jobId action : String) (state : DeliveryState)
    (attemptId : Option String) : RegistryM T (VoiceJob T) := do
  let current ← requireJob jobId
  require (current.deliveryState = state)
    (transitionError current action ("delivery=" ++ state.value))
  require (current.deliveryAttemptId = attemptId)
    (transitionError current action (match attemptId with
      | none => "no persisted delivery attempt"
      | some a => "attempt='" ++ a ++ "'"))
  pure current

end Guards

section Creation
variable (cfg : Settings T) (call : Call T)

def create (job : VoiceJob T) (maxActiveReadyPerRoute : Option Int) :
    RegistryM T (VoiceJob T) := do
  requireLoaded
  require (job.id ≠ "") (.value "job id must not be empty")
  requireAbsent job.id
  requireRouteCapacity job maxActiveReadyPerRoute
  let s ← get
  commitSnapshot cfg call (s.jobs.put job) id
  pure job

/-- `continuation child must be newly accepted`. -/
def newlyAccepted (child : VoiceJob T) : Bool :=
  child.executionState == .accepted && child.deliveryState == .none && child.result.isNone &&
    child.failure.isNone && !child.awaitingInput && child.continuableUntil.isNone

def createContinuation (parentJobId : String) (child : VoiceJob T) (actor : Actor)
    (maxActiveReadyPerRoute : Option Int) : RegistryM T (VoiceJob T) := do
  let parent ← requireJob parentJobId
  authorizeActor parent actor
  authorizeActor child actor
  require (child.id ≠ "") (.value "job id must not be empty")
  requireAbsent child.id
  require (child.parentJobId = some parentJobId)
    (.value "continuation child has the wrong parent")
  require (child.specialistRole = parent.specialistRole)
    (.value "continuation child has the wrong specialist")
  requireRouteCapacity child maxActiveReadyPerRoute
  require (newlyAccepted child = true) (.value "continuation child must be newly accepted")
  require (clarificationOpen call.now parent = true ∧ parent.awaitingInput = true)
    (transitionError parent "create_continuation" "live awaiting-input parent")
  let s ← get
  commitSnapshot cfg call ((s.jobs.put { parent with awaitingInput := false }).put child) id
  pure child

def compensateUnboundContinuation (parentJobId childJobId : String) (actor : Actor) :
    RegistryM T Bool := do
  let parent ← requireJob parentJobId
  authorizeActor parent actor
  let s ← get
  match s.jobs.get? childJobId with
  | none => pure false
  | some child => do
      authorizeActor child actor
      require (child.parentJobId = some parentJobId)
        (.transition (.notAChild childJobId parentJobId))
      if child.executionState ≠ .accepted ∨ (s.tasks.get? childJobId).isSome then pure false
      else do
        let restoreParent := clarificationOpen call.now parent && !parent.awaitingInput
        let candidate := s.jobs.remove childJobId
        commitSnapshot cfg call
          (if restoreParent then candidate.put { parent with awaitingInput := true }
            else candidate) id
        pure restoreParent

def createPromptedDelivery (parentJobId : String) (child : VoiceJob T) (actor : Actor)
    (maxActiveReadyPerRoute : Option Int) : RegistryM T (VoiceJob T) := do
  let parent ← requireJob parentJobId
  authorizeActor parent actor
  authorizeActor child actor
  requireAbsent child.id
  require (child.parentJobId = some parent.id ∧ child.specialistRole = parent.specialistRole)
    (.value "prompted delivery child does not match parent")
  require (resultAvailable call.now parent = true)
    (transitionError parent "create_prompted_delivery" "live successful result")
  requireRouteCapacity child maxActiveReadyPerRoute
  let s ← get
  let prompted := promptedRow s.deliverySequence call.now parent child
  commitSnapshot cfg call (s.jobs.put prompted) id
  pure prompted

end Creation

section Execution
variable (cfg : Settings T) (call : Call T)

def bindTask (jobId : String) (task : Nat) : RegistryM T PUnit := do
  let current ← requireJob jobId
  require (current.executionState = .accepted)
    (transitionError current "bind_task" "execution=ACCEPTED")
  let s ← get
  require (s.tasks.get? jobId = none) (.transition (.alreadyBound jobId))
  commitSnapshot cfg call (s.jobs.put (boundRow call.now current))
    (fun tasks => tasks.put (jobId, task))

/-- `_task_done`: only the task that owns the job releases it. -/
def taskDone (jobId : String) (task : Nat) : RegistryM T PUnit :=
  modify fun s =>
    if s.tasks.get? jobId = some (jobId, task) then { s with tasks := s.tasks.remove jobId } else s

def markHandoffPending (jobId handoffId : String) : RegistryM T (VoiceJob T) := do
  require (strip handoffId ≠ "") (.value "handoff id must not be empty")
  let current ← requireJob jobId
  require (truthy current.originRouteId = true) (.transition (.notRouted jobId))
  require (current.handoffId = none ∨ current.handoffId = some handoffId)
    (transitionError current "mark_handoff_pending" "matching handoff id")
  require (current.handoffState ≠ .received)
    (transitionError current "mark_handoff_pending" "handoff not received")
  if current.handoffState = .pending then pure current
  else persistJob cfg call { current with handoffId := some handoffId, handoffState := .pending }

def acknowledgeHandoff (jobId handoffId : String) : RegistryM T (VoiceJob T) := do
  require (strip handoffId ≠ "") (.value "handoff id must not be empty")
  let current ← requireJob jobId
  require (current.handoffId = some handoffId)
    (transitionError current "acknowledge_handoff" "matching handoff id")
  if current.handoffState = .received then pure current
  else do
    require (current.handoffState = .pending)
      (transitionError current "acknowledge_handoff" "handoff=PENDING")
    persistJob cfg call { current with handoffState := .received }

def finish (jobId result : String) : RegistryM T (VoiceJob T) := do
  let current ← requireJob jobId
  requireLiveExecution current "finish"
  let s ← get
  persistJob cfg call (finishedRow cfg s.deliverySequence call.now current result)

def finishVoiceResult (jobId result : String) (awaitingInput : Bool) (deliveryTtlS : Int) :
    RegistryM T (VoiceJob T) := do
  require (30 ≤ deliveryTtlS ∧ deliveryTtlS ≤ 3600)
    (.value "delivery_ttl_s must be an integer from 30 to 3600")
  let current ← requireJob jobId
  requireLiveExecution current "finish_voice_result"
  let s ← get
  persistJob cfg call
    (voiceResultRow cfg s.deliverySequence call.now current result awaitingInput deliveryTtlS)

def fail (jobId : String) (cause : FailureCause) : RegistryM T (VoiceJob T) := do
  let current ← requireJob jobId
  requireLiveExecution current "fail"
  let s ← get
  persistJob cfg call (failedRow cfg s.deliverySequence call.now current cause)

/-- `finish_compat` and `fail_compat` differ only in the row they write. -/
def settleCompat (jobId : String) (row : Int → VoiceJob T → VoiceJob T) :
    RegistryM T (Option (VoiceJob T)) := do
  requireLoaded
  let s ← get
  match s.jobs.get? jobId with
  | none => pure none
  | some current =>
      if current.executionState.isActive then
        some <$> persistJob cfg call (row s.deliverySequence current)
      else pure (some current)

def finishCompat (jobId result : String) : RegistryM T (Option (VoiceJob T)) :=
  settleCompat cfg call jobId fun counter current => finishedRow cfg counter call.now current result

def failCompat (jobId : String) (cause : FailureCause) : RegistryM T (Option (VoiceJob T)) :=
  settleCompat cfg call jobId fun counter current => failedRow cfg counter call.now current cause

def requestCancel (jobId : String) (actor : Actor) : RegistryM T CancelStatus := do
  let current ← requireJob jobId
  authorizeActor current actor
  if current.deliveryState = .playing ∨ current.deliveryState = .delivered then pure .tooLate
  else if (current.deliveryState = .cancelled ∨ current.deliveryState = .expired) ∨
      current.executionState = .cancelled then pure .cancelled
  else if current.deliveryState = .authorized then do
    let _ ← persistJob cfg call { current with cancelPending := true }
    pure .stopping
  else if current.deliveryState = .ready ∨ current.deliveryState = .claimed then do
    let _ ← persistJob cfg call (releasedRow current .cancelled)
    pure .cancelled
  else if current.executionState.isActive then do
    let _ ← persistJob cfg call { current with cancelPending := true }
    pure .stopping
  else pure .tooLate

def cancel (jobId : String) : RegistryM T (Option (VoiceJob T)) := do
  let s ← get
  match s.jobs.get? jobId with
  | none => pure none
  | some current =>
      if current.executionState.isTerminal then pure (some current)
      else some <$> persistJob cfg call (cancelledRow cfg call.now current)

end Execution

section Delivery
variable (cfg : Settings T) (call : Call T)

def claim (jobId deliveryAttemptId : String) : RegistryM T (VoiceJob T) := do
  require (deliveryAttemptId ≠ "") (.value "delivery_attempt_id must not be empty")
  let current ← requireDeliveryCas jobId "claim" .ready none
  persistJob cfg call (claimedRow cfg call.now current deliveryAttemptId)

def renew (jobId deliveryAttemptId : String) : RegistryM T (VoiceJob T) := do
  let current ← requireJob jobId
  require (current.deliveryState.isLeased = true ∧
      current.deliveryAttemptId = some deliveryAttemptId)
    (transitionError current "renew" "matching attempt in CLAIMED/AUTHORIZED/PLAYING")
  persistJob cfg call (renewedRow cfg call.now current)

def authorize (jobId deliveryAttemptId : String) : RegistryM T (VoiceJob T) := do
  let current ← requireDeliveryCas jobId "authorize" .claimed (some deliveryAttemptId)
  persistJob cfg call { current with deliveryState := .authorized }

def markPlaying (jobId deliveryAttemptId : String) : RegistryM T (VoiceJob T) := do
  let current ← requireDeliveryCas jobId "mark_playing" .authorized (some deliveryAttemptId)
  require (current.cancelPending = false)
    (transitionError current "mark_playing" "AUTHORIZED without cancel_pending")
  persistJob cfg call { current with deliveryState := .playing }

def markDelivered (jobId deliveryAttemptId : String) : RegistryM T (VoiceJob T) := do
  let current ← requireJob jobId
  require ((current.deliveryState = .claimed ∨ current.deliveryState = .playing) ∧
      current.deliveryAttemptId = some deliveryAttemptId)
    (transitionError current "mark_delivered" "matching attempt in CLAIMED/PLAYING")
  persistJob cfg call (releasedRow current .delivered)

def nack (jobId deliveryAttemptId reason : String) : RegistryM T (VoiceJob T) := do
  let current ← requireJob jobId
  require ((current.deliveryState = .claimed ∨ current.deliveryState = .authorized) ∧
      current.deliveryAttemptId = some deliveryAttemptId)
    (transitionError current "nack" "matching attempt in CLAIMED/AUTHORIZED")
  persistJob cfg call (nackedRow current reason)

def sweepRows (due : VoiceJob T → Bool) (row : VoiceJob T → VoiceJob T)
    (same : ∀ job, (row job).id = job.id) : RegistryM T (List (VoiceJob T)) := do
  let s ← get
  let changed := (s.jobs.rows.filter due).map row
  if changed = [] then pure []
  else do
    commitSnapshot cfg call
      (s.jobs.revise (fun job => if due job then row job else job)
        (by intro job; split; exacts [same job, rfl])) id
    pure changed

def expireDue : RegistryM T (List (VoiceJob T)) :=
  sweepRows cfg call (resultDue call.now) (fun job => releasedRow job .expired) (fun _ => rfl)

def expireLeases : RegistryM T (List (VoiceJob T)) :=
  sweepRows cfg call (leaseDue call.now) lapsedRow (fun _ => rfl)

def recoverAfterRestart : RegistryM T (List (VoiceJob T)) := do
  requireLoaded
  let s ← get
  let pending := ((sortedJobs s.jobs.rows).filter (·.orphanNotificationPending)).map (·.id)
  let orphans := (s.jobs.rows.filter (·.executionState.isActive)).map (·.id)
  let candidate := recoverJobs cfg call.now s.deliverySequence s.jobs
  if candidate.rows = s.jobs.rows then pure ⟨⟩ else commitSnapshot cfg call candidate id
  let t ← get
  pure ((pending ++ orphans).eraseDups.filterMap t.jobs.get?)

def ackOrphanNotification (jobId : String) : RegistryM T (VoiceJob T) := do
  let current ← requireJob jobId
  if current.orphanNotificationPending then
    persistJob cfg call { current with orphanNotificationPending := false }
  else pure current

end Delivery

end Casa.JobRegistry
