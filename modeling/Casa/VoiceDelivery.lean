import Casa.Coroutine
import Casa.JobEffects
import Casa.VoiceRoutes

/-! The delivery coordinator (`channels/voice/delivery.py`): offers the head of each
device's queue, follows the client's frames and revokes what is no longer deliverable.
Its attempts live in process memory, its decisions in the durable registry. Every `await`
is a suspension point at which other tasks call the registry and sockets come and go. -/

namespace Casa.VoiceDelivery
open PythonValue JobRecord KeyedTable FaultState JobRegistry JobEffects Coroutine VoiceRoutes

variable {T : Type} [LinearOrder T] [Add T] [IntCast T]

/-- `_Attempt`; `endpoint` is compared by identity. -/
structure Attempt (T : Type) where
  jobId : String
  routeId : String
  deviceId : String
  attemptId : String
  endpoint : Option BoundVoiceRoute
  offered : Bool := true
  revokeSent : Bool := false
  revokeDeadline : Option T := none

/-- What calls the coordinator: a socket, or the binding of a route. -/
inductive Endpoint where
  | connection (id : Nat)
  | route (bound : BoundVoiceRoute)
deriving DecidableEq, Repr

/-- `_INBOUND_TYPES`. -/
inductive Inbound where
  | jobClaimed | jobClaimRenew | jobDeliveryStart | jobPlaybackStarted | jobDelivered | jobNack
  | jobRevoked
deriving DecidableEq, Repr

def Inbound.value : Inbound → String
  | .jobClaimed => "job_claimed"
  | .jobClaimRenew => "job_claim_renew"
  | .jobDeliveryStart => "job_delivery_start"
  | .jobPlaybackStarted => "job_playback_started"
  | .jobDelivered => "job_delivered"
  | .jobNack => "job_nack"
  | .jobRevoked => "job_revoked"

def Inbound.ofValue? (s : String) : Option Inbound :=
  [.jobClaimed, .jobClaimRenew, .jobDeliveryStart, .jobPlaybackStarted, .jobDelivered, .jobNack,
    .jobRevoked].find? (fun x => x.value = s)

inductive Outbound (T : Type) where
  | jobReady (jobId deliveryAttemptId routeId originDeviceId : String)
      (deliveryModality : Option String) (spokenText : String) (readyAt expiresAt : Option T)
      (deliverySequence : Int)
  | jobRevoke (jobId deliveryAttemptId : Option String) (reason : String)
  | jobDeliveryAuthorized (jobId deliveryAttemptId : String)

/-- The two registries and the coordinator's memory; `sent` is what the sockets accepted. -/
structure Voice (T : Type) where
  registry : Registry T
  routes : Routes T
  attempts : Table (@Attempt.jobId T)
  parkedUntil : Table (Prod.fst : String × T → String)
  sent : List (Endpoint × Outbound T)

def Voice.init : Voice T := ⟨.init, .init, .empty, .empty, []⟩

/-- What one block can observe: a registry call, the monotonic clock, a new uuid, and
whether the socket takes the frame. -/
structure Tick (T : Type) where
  call : Call T
  clock : T
  uuid : String
  sendOk : Bool

inductive Fault where
  | job (error : JobError)
  | unhashable
  | send
deriving DecidableEq, Repr

/-- `spokenText` is the text of `_spoken_text`, which only `job_ready` carries. -/
structure DeliverySettings (T : Type) where
  jobs : Settings T
  routes : RouteSettings T
  parkS : T
  spokenText : VoiceJob T → String

/-- Code that holds `_lock`. -/
abbrev Locked (T : Type) := Co (Tick T) (Voice T) Fault

section Binding

def isCurrentProtocol : Json T → Bool
  | .int n => n = 2
  | _ => false

def backgroundCapabilities : List String := ["background_jobs", "endpoint_delivery"]

/-- `route_id` of a binding, else `voice_route_id` of a socket. -/
def Endpoint.routeId (routes : Routes T) : Endpoint → Option String
  | .route bound => identifier bound.routeId
  | .connection id => (routes.fields id).voiceRouteId.bind identifier

def currentBound (routes : Routes T) (endpoint : Endpoint) : Option BoundVoiceRoute := do
  let routeId ← endpoint.routeId routes
  let current ← routes.connected.get? routeId
  if (endpoint = .route current ∨ endpoint = .connection current.connection) ∧
      ∀ name ∈ backgroundCapabilities, name ∈ current.capabilities then some current else none

def matchesJob (s : Voice T) (bound : BoundVoiceRoute) (job : Option (VoiceJob T))
    (attemptId : String) : Bool :=
  match job with
  | none => false
  | some job =>
      job.originRouteId == some bound.routeId && truthy job.originDeviceId &&
        match s.attempts.get? job.id with
        | none => false
        | some attempt =>
            some attempt.routeId == job.originRouteId &&
              some attempt.deviceId == job.originDeviceId &&
              attempt.endpoint == some bound && attempt.attemptId == attemptId &&
              if job.deliveryState = .ready then attempt.offered
              else !attempt.offered && job.deliveryState.isLive &&
                job.deliveryAttemptId == some attemptId

end Binding

section Calls
variable (cfg : DeliverySettings T)

/-- `await self._jobs.<op>(...)`. -/
def call (op : Op T) : Locked T PUnit :=
  .block fun tick s =>
    (match raised (perform cfg.jobs tick.call op) s.registry with
      | none => .ok ⟨⟩
      | some error => .error (.job error),
      { s with registry := exec cfg.jobs ⟨tick.call, op⟩ s.registry })

def safeSend (endpoint : Endpoint) (frame : Outbound T) : Locked T Bool :=
  .step fun tick s =>
    (tick.sendOk,
      { s with sent := if tick.sendOk then s.sent ++ [(endpoint, frame)] else s.sent })

def sendJson (endpoint : Endpoint) (frame : Outbound T) : Locked T PUnit := do
  let sent ← safeSend endpoint frame
  if sent then pure ⟨⟩ else .raise .send

def sendRevoke (attempt : Attempt T) (reason : String) : Locked T Bool := do
  let s ← .look
  match s.routes.connected.get? attempt.routeId with
  | none => pure false
  | some current =>
      if attempt.endpoint = some current then
        safeSend (.route current) (.jobRevoke (some attempt.jobId) (some attempt.attemptId) reason)
      else pure false

def deny (endpoint : Endpoint) (jobId attemptId : Option String) (reason : String) :
    Locked T PUnit := do
  let _ ← safeSend endpoint (.jobRevoke jobId attemptId reason)
  pure ⟨⟩

/-- `self._attempts.pop(job_id, None)`. -/
def popAttempt (jobId : String) : Locked T PUnit :=
  .update fun _ s => { s with attempts := s.attempts.remove jobId }

end Calls

section Recovery
variable (cfg : DeliverySettings T)

def releaseDueParks (now : T) (s : Voice T) : Voice T :=
  { s with
    parkedUntil := s.parkedUntil.filter (fun park =>
      now < park.2 && (s.registry.jobs.get? park.1).any (·.deliveryState == .ready)) }

def durableAttempt (routes : Routes T) (job : VoiceJob T) : Option (Attempt T) :=
  match job.originRouteId, job.originDeviceId, job.deliveryAttemptId with
  | some route, some device, some attempt =>
      if job.deliveryState.isLeased ∧ route ≠ "" ∧ device ≠ "" ∧ attempt ≠ "" ∧
          job.leaseUntil.isSome then
        some {
          jobId := job.id
          routeId := route
          deviceId := device
          attemptId := attempt
          endpoint := (routes.connected.get? route).filter
            (fun bound => (currentBound routes (.route bound)).isSome)
          offered := false }
      else none
  | _, _, _ => none

/-- One iteration of `_restore_durable_attempts_locked`. -/
def restoreAttempt (routes : Routes T) (attempts : Table (@Attempt.jobId T)) (job : VoiceJob T) :
    Table (@Attempt.jobId T) :=
  match durableAttempt routes job with
  | none => attempts
  | some attempt =>
      if (attempts.get? job.id).any (fun existing =>
          !existing.offered && existing.attemptId == attempt.attemptId &&
            existing.routeId == attempt.routeId && existing.deviceId == attempt.deviceId) then
        attempts
      else attempts.put attempt

def restoreDurableAttempts (s : Voice T) : Voice T :=
  { s with
    attempts := (sortedJobs s.registry.jobs.rows).foldl (restoreAttempt s.routes) s.attempts }

def backs (job : VoiceJob T) (attempt : Attempt T) : Bool :=
  (attempt.offered && job.deliveryState == .ready) ||
    (!attempt.offered && job.deliveryState.isLeased &&
      job.deliveryAttemptId == some attempt.attemptId)

/-- The revocation an attempt calls for now, and the attempt with its reclamation window. -/
def reconcile (now : T) (job : Option (VoiceJob T)) (attempt : Attempt T) :
    Attempt T × Option String :=
  match job.filter (backs · attempt) with
  | some job =>
      (attempt, if job.cancelPending && !attempt.revokeSent then some "cancelled" else none)
  | none =>
      ({ attempt with
        revokeDeadline := some (attempt.revokeDeadline.getD (now + cfg.jobs.leaseSeconds)) },
        if attempt.revokeSent then none else some "no_longer_deliverable")

/-- The synchronous part of one iteration of `_reconcile_attempts_locked`. -/
def reconcileStored (now : T) (jobId : String) (s : Voice T) :
    Option (Attempt T × String) × Voice T :=
  match s.attempts.get? jobId with
  | none => (none, s)
  | some attempt =>
      let due := reconcile cfg now (s.registry.jobs.get? jobId) attempt
      (due.2.map (due.1, ·), { s with attempts := s.attempts.put due.1 })

def reconcileAttempt (jobId : String) : Locked T PUnit := do
  let due ← .step fun tick s => reconcileStored cfg tick.clock jobId s
  match due with
  | none => pure ⟨⟩
  | some (attempt, reason) => do
      let sent ← sendRevoke attempt reason
      .update fun _ s => { s with attempts := s.attempts.put { attempt with revokeSent := sent } }

def reconcileAttempts : Locked T PUnit := do
  let s ← .look
  .forEach (reconcileAttempt cfg) (s.attempts.rows.map (·.jobId))

def expireDeadAttempts (now : T) (s : Voice T) : Voice T :=
  { s with
    attempts := s.attempts.filter (fun attempt => attempt.revokeDeadline.all (fun d => now < d)) }

def recoverDue : Locked T PUnit := do
  call cfg .expireDue
  call cfg .expireLeases
  .update fun tick s => restoreDurableAttempts (releaseDueParks tick.clock s)
  reconcileAttempts cfg
  .update fun tick s => expireDeadAttempts tick.clock s

end Recovery

section Offers
variable (cfg : DeliverySettings T)

/-- The first live row of each device, `occupied` being the devices already seen. -/
def headsOf : List String → List (VoiceJob T) → List (VoiceJob T)
  | _, [] => []
  | occupied, job :: rest =>
      match job.originDeviceId with
      | none => headsOf occupied rest
      | some device =>
          if job.deliveryState.isLive ∧ deliverable job ∧ device ∉ occupied then
            job :: headsOf (device :: occupied) rest
          else headsOf occupied rest

/-- `_DELIVERABLE_MODALITIES`. -/
def hasModality (job : VoiceJob T) : Bool :=
  job.deliveryModality == some "audio" || job.deliveryModality == some "text"

def offerFor (s : Voice T) (uuid : String) (job : VoiceJob T) :
    Option (Attempt T × BoundVoiceRoute) :=
  if job.deliveryState = .ready ∧ s.parkedUntil.get? job.id = none ∧ hasModality job ∧
      ¬ (s.attempts.get? job.id).any (·.offered) then do
    let routeId ← job.originRouteId
    let deviceId ← job.originDeviceId
    let route ← s.routes.connected.get? routeId
    let _ ← currentBound s.routes (.route route)
    some ({ jobId := job.id, routeId, deviceId, attemptId := uuid, endpoint := some route }, route)
  else none

def jobReady (job : VoiceJob T) (attempt : Attempt T) : Outbound T :=
  .jobReady job.id attempt.attemptId attempt.routeId attempt.deviceId job.deliveryModality
    (cfg.spokenText job) job.terminalAt job.expiresAt job.deliverySequence

def storeOffer (uuid : String) (job : VoiceJob T) (s : Voice T) :
    Option (Attempt T × BoundVoiceRoute) × Voice T :=
  match offerFor s uuid job with
  | none => (none, s)
  | some made => (some made, { s with attempts := s.attempts.put made.1 })

def offer (job : VoiceJob T) : Locked T PUnit := do
  let made ← .step fun tick s => storeOffer tick.uuid job s
  match made with
  | none => pure ⟨⟩
  | some (attempt, route) => do
      let sent ← safeSend (.route route) (jobReady cfg job attempt)
      if sent then pure ⟨⟩ else popAttempt job.id

def offerHeads : Locked T PUnit := do
  let s ← .look
  .forEach (offer cfg) (headsOf [] (sortedJobs s.registry.jobs.rows))

end Offers

section Frames
variable (cfg : DeliverySettings T)

/-- `_PARK_REASONS`. -/
def parks (reason : String) : Bool :=
  reason == "satellite_not_found" || reason == "satellite_ambiguous" ||
    reason == "no_text_endpoint"

/-- `except JobTransitionError`. -/
def onTransitionError {α : Type} (handler : Locked T α) : Fault → Option (Locked T α)
  | .job (.transition _) => some handler
  | _ => none

/-- The durable half of a revocation ack: a pending cancel is carried out before playback.
`false` means that the registry refused. -/
def settleRevoked (s : Voice T) (jobId attemptId : String) : Locked T Bool :=
  if (s.registry.jobs.get? jobId).any (fun job => job.deliveryState == .authorized &&
      job.cancelPending && job.deliveryAttemptId == some attemptId) then
    Co.rescue (onTransitionError (pure false)) do
      call cfg (.nack jobId attemptId "preempted_before_playback")
      pure true
  else pure true

/-- `_handle_revoked_ack_locked`, `s` being the state its synchronous part reads. -/
def handleRevokedAck (s : Voice T) (bound : BoundVoiceRoute) (jobId attemptId : String) :
    Locked T PUnit :=
  match s.attempts.get? jobId with
  | none => pure ⟨⟩
  | some attempt =>
      if attempt.attemptId = attemptId ∧ attempt.routeId = bound.routeId ∧
          attempt.endpoint = some bound ∧ attempt.revokeSent then do
        let settled ← settleRevoked cfg s jobId attemptId
        if settled then do
          popAttempt jobId
          offerHeads cfg
        else pure ⟨⟩
      else pure ⟨⟩

/-- `frame.get("reason")`, when it is text. -/
def nackReason (frame : List (String × Json T)) : String :=
  match Json.get frame "reason" with
  | .str reason => reason
  | _ => "integration_nack"

/-- The body of `try`, for a frame that matched `job` in the state `s`. -/
def follow (s : Voice T) (endpoint : Endpoint) (bound : BoundVoiceRoute) (job : VoiceJob T)
    (attemptId : String) (frame : List (String × Json T)) : Inbound → Locked T PUnit
  | .jobClaimed =>
      match s.attempts.get? job.id with
      | none => deny endpoint (some job.id) (some attemptId) "stale_attempt"
      | some attempt =>
          if attempt.offered ∧ attempt.attemptId = attemptId ∧ attempt.endpoint = some bound then do
            call cfg (.claim job.id attemptId)
            .update fun _ s =>
              { s with attempts := s.attempts.put { attempt with offered := false } }
          else deny endpoint (some job.id) (some attemptId) "stale_attempt"
  | .jobClaimRenew =>
      match s.attempts.get? job.id with
      | some attempt =>
          if job.deliveryState = .authorized ∧ job.cancelPending then do
            let _ ← sendRevoke attempt "cancelled"
            pure ⟨⟩
          else call cfg (.renew job.id attemptId)
      | none => call cfg (.renew job.id attemptId)
  | .jobDeliveryStart =>
      let authorized := sendJson (.route bound) (.jobDeliveryAuthorized job.id attemptId)
      if job.deliveryState = .authorized then
        if job.cancelPending then
          match s.attempts.get? job.id with
          | some attempt => do
              let _ ← sendRevoke attempt "cancelled"
              pure ⟨⟩
          | none => pure ⟨⟩
        else authorized
      else do
        call cfg (.authorize job.id attemptId)
        authorized
  | .jobPlaybackStarted => call cfg (.markPlaying job.id attemptId)
  | .jobDelivered => do
      call cfg (.markDelivered job.id attemptId)
      popAttempt job.id
      offerHeads cfg
  | .jobNack => do
      call cfg (.nack job.id attemptId (nackReason frame))
      .update fun tick s =>
        { s with
          attempts := s.attempts.remove job.id
          parkedUntil := if parks (nackReason frame) then
            s.parkedUntil.put (job.id, tick.clock + cfg.parkS) else s.parkedUntil }
      offerHeads cfg
  | .jobRevoked => pure ⟨⟩

/-- Everything `handle` does once the queue is up to date, for the state `s` it reads first. -/
def answer (endpoint : Endpoint) (kind : Inbound) (frame : List (String × Json T)) (s : Voice T) :
    Locked T PUnit :=
  match currentBound s.routes endpoint, identifierOf (Json.get frame "job_id"),
    identifierOf (Json.get frame "delivery_attempt_id") with
  | some bound, some jobId, some attemptId =>
      if kind = .jobRevoked then handleRevokedAck cfg s bound jobId attemptId
      else match s.registry.jobs.get? jobId with
        | some job =>
            if matchesJob s bound (some job) attemptId then
              (follow cfg s endpoint bound job attemptId frame kind).rescue
                (onTransitionError (deny endpoint (some jobId) (some attemptId) "stale_attempt"))
            else deny endpoint (some jobId) (some attemptId) "stale_attempt"
        | none => deny endpoint (some jobId) (some attemptId) "stale_attempt"
  | _, jobId, attemptId => deny endpoint jobId attemptId "invalid_frame"

def judge (endpoint : Endpoint) (kind : Inbound) (frame : List (String × Json T)) :
    Locked T PUnit := do
  let s ← .look
  answer cfg endpoint kind frame s

/-- `_recover_due_locked` and `_offer_heads_locked`, which every entry point runs in this order. -/
def recoverAndOffer : Locked T PUnit := do
  recoverDue cfg
  offerHeads cfg

/-- `frame_type not in _INBOUND_TYPES`; a list or an object is not hashable. -/
def inboundType : Json T → Except Fault (Option Inbound)
  | .str value => .ok (Inbound.ofValue? value)
  | .arr _ | .obj _ => .error .unhashable
  | _ => .ok none

def handle (endpoint : Endpoint) (frame : List (String × Json T)) : Locked T PUnit :=
  match inboundType (Json.get frame "type") with
  | .error fault => .raise fault
  | .ok none => pure ⟨⟩
  | .ok (some kind) =>
      if isCurrentProtocol (Json.get frame "protocol") then do
        recoverAndOffer cfg
        judge cfg endpoint kind frame
      else pure ⟨⟩

end Frames

section Routes
variable (cfg : DeliverySettings T)

/-- What a reconnect does to parks and attempts: unclaimed offers go, claimed attempts move to
the new binding. -/
def rebind (bound : BoundVoiceRoute) (s : Voice T) : Voice T :=
  { s with
    parkedUntil := s.parkedUntil.filter (fun park =>
      !(s.registry.jobs.get? park.1).any (·.originRouteId == some bound.routeId))
    attempts := (s.attempts.filter
      (fun attempt => !(attempt.routeId == bound.routeId && attempt.offered))).revise
      (fun attempt =>
        if attempt.routeId = bound.routeId then
          { attempt with endpoint := some bound, revokeSent := false, revokeDeadline := none }
        else attempt)
      (by intro attempt; split <;> rfl) }

def routeConnected (endpoint : Endpoint) : Locked T PUnit := do
  let current ← .step fun _ s =>
    match currentBound s.routes endpoint with
    | none => (false, s)
    | some bound => (true, rebind bound s)
  if current then recoverAndOffer cfg else pure ⟨⟩

/-- `attempt.endpoint is endpoint`. -/
def Endpoint.isBinding (endpoint : Endpoint) (bound : Option BoundVoiceRoute) : Bool :=
  bound.any (fun bound => endpoint = .route bound)

def routeDisconnected (endpoint : Endpoint) : Locked T PUnit :=
  .update fun _ s =>
    match endpoint.routeId s.routes with
    | none => s
    | some routeId =>
        { s with
          attempts := s.attempts.filter (fun attempt =>
            !(attempt.routeId == routeId && attempt.offered &&
              endpoint.isBinding attempt.endpoint)) }

def sweepOnce : Locked T PUnit := recoverAndOffer cfg

end Routes

section System
variable [Sub T]

inductive Turn (T : Type) where
  | sweep
  | connected (endpoint : Endpoint)
  | disconnected (endpoint : Endpoint)
  | frame (endpoint : Endpoint) (fields : List (String × Json T))

/-- What happens beside the coordinator: calls of the two registries, and the death of the
process, which takes attempts, parks and sockets with it. -/
inductive Outside (T : Type) where
  | jobs (event : Event T)
  | register (cleared pruned now : T) (connection : Nat) (frame : List (String × Json T))
  | touch (now : T) (connection : Nat)
  | disconnect (now : T) (connection : Nat)
  | restart (call : Call T)

def Outside.apply (cfg : DeliverySettings T) : Outside T → Voice T → Voice T
  | .jobs event, s => { s with registry := exec cfg.jobs event s.registry }
  | .register cleared pruned now connection frame, s =>
      { s with
        routes := (VoiceRoutes.register cfg.routes s.routes cleared pruned now connection frame).2 }
  | .touch now connection, s => { s with routes := VoiceRoutes.touch s.routes now connection }
  | .disconnect now connection, s =>
      { s with routes := (VoiceRoutes.disconnect s.routes now connection).2 }
  | .restart call, s =>
      { (.init : Voice T) with registry := exec cfg.jobs ⟨call, .restart⟩ s.registry }

def system (cfg : DeliverySettings T) : Machine (Outside T) (Turn T) (Tick T) (Voice T) Fault where
  env := Outside.apply cfg
  program
    | .sweep => sweepOnce cfg
    | .connected endpoint => routeConnected cfg endpoint
    | .disconnected endpoint => routeDisconnected endpoint
    | .frame endpoint fields => handle cfg endpoint fields

end System

end Casa.VoiceDelivery
