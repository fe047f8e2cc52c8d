import Casa.JobRecord

/-! The rows callers hand to the registry: `_new_voice_job` of `tools.py` and
`register_delegation` of `specialist_registry.py`, and the form both give them. -/

namespace Casa.JobEntry
open PythonValue ProvenanceCodec JobRecord

variable {T : Type}

/-- A turn's origin mapping, its typed speaker held apart from the plain values. -/
structure Origin (T : Type) where
  values : List (String × Json T)
  speakerProvenance : Option SpeakerProvenance

/-- Execution ACCEPTED or RUNNING, and nothing of a result, delivery or cancellation yet. -/
structure NewlyBuilt (job : VoiceJob T) : Prop where
  active : job.executionState.isActive = true
  undelivered : job.deliveryState = .none
  unnumbered : job.deliverySequence = 0
  unclaimed : job.deliveryAttemptId = none
  unleased : job.leaseUntil = none
  unfinished : job.terminalAt = none
  unexpiring : job.expiresAt = none
  free : job.cancelPending = false

def selectedDeliveryModality (origin : Origin T) : Option String :=
  match Json.get origin.values "voice_delivery_offer" with
  | .obj offer =>
      match Json.get offer "modality" with
      | .str modality => if modality = "audio" ∨ modality = "text" then some modality else none
      | _ => none
  | _ => none

def spoken : Json T → Option String
  | .str s => if strip s ≠ "" then some s else none
  | _ => none

/-- `routes` is `is_recently_capable` of the route registry, when one is wired. -/
def deferredDeliveryAvailable (routes : Option (String → Bool)) (origin : Origin T) : Bool :=
  match Json.get origin.values "channel", Json.get origin.values "voice_transport" with
  | .str channel, .str transport =>
      channel == "voice" && transport == "ws" &&
        match spoken (Json.get origin.values "voice_route_id"),
          spoken (Json.get origin.values "origin_device_id") with
        | some route, some _ =>
            (selectedDeliveryModality origin).isSome &&
              routes.all (fun capable => capable (strip route))
        | _, _ => false
  | _, _ => false

section Builders
variable [DecidableEq T] [IntCast T] (py : Builtins T)

/-- `str(values.get(name) or ...)` over the names in order, ending in a default. -/
def textOr (values : List (String × Json T)) (names : List String) (default : String) : String :=
  match (names.map (Json.get values)).find? Json.toBool with
  | some x => py.str x
  | none => default

/-- `executing` is `speaker_provenance_for_role` of the target's configuration, absent
without one; `displayName` is `_specialist_display_name` of it. -/
def newVoiceJob (now : T) (jobId : String) (parentJobId : Option String)
    (executing : Option SpeakerProvenance) (specialistRole displayName : String)
    (origin : Origin T) (taskText contextText : String) (handoffId : Option String)
    (creatingSpeaker : Option SpeakerProvenance) : Except String (VoiceJob T) := do
  let originRouteId ← strItem py origin.values "voice_route_id"
  let originDeviceId ← strItem py origin.values "origin_device_id"
  pure {
    id := jobId
    parentJobId := parentJobId
    creatingSpeaker := (creatingSpeaker <|> origin.speakerProvenance).getD systemSpeaker
    executingSpeaker := executing.getD systemSpeaker
    creatingRole := textOr py origin.values ["execution_role", "role"] "assistant"
    specialistRole := specialistRole
    specialistDisplayName := displayName
    creatorPeer := "voice"
    creatorUserId := optionalStr py origin.values "user_id"
    scopeId := textOr py origin.values ["chat_id"] ""
    originRouteId := some originRouteId
    originDeviceId := some originDeviceId
    deliveryModality := selectedDeliveryModality origin
    task := taskText
    context := contextText
    createdAt := now
    startedAt := none
    terminalAt := none
    expiresAt := none
    executionState := .accepted
    deliveryState := .none
    result := none
    failure := none
    awaitingInput := false
    continuableUntil := none
    deliverySequence := 0
    deliveryAttemptId := none
    leaseUntil := none
    cancelPending := false
    jobControlId := spoken (Json.get origin.values "voice_job_control_id")
    handoffId := handoffId }

/-- The row `register_delegation` creates for a record. -/
def delegationJob (id agent : String) (startedAt : T) (origin : Origin T)
    (executing : Option SpeakerProvenance) : VoiceJob T where
  id := id
  parentJobId := none
  creatingSpeaker := origin.speakerProvenance.getD systemSpeaker
  executingSpeaker := executing.getD systemSpeaker
  creatingRole := textOr py origin.values ["role"] "assistant"
  specialistRole := agent
  specialistDisplayName := agent
  creatorPeer := textOr py origin.values ["channel"] ""
  creatorUserId := optionalStr py origin.values "user_id"
  scopeId := textOr py origin.values ["chat_id"] ""
  originRouteId := optionalStr py origin.values "cid"
  originDeviceId := optionalStr py origin.values "origin_device_id"
  task := textOr py origin.values ["user_text"] ""
  context := ""
  createdAt := startedAt
  startedAt := some startedAt
  terminalAt := none
  expiresAt := none
  executionState := .running
  deliveryState := .none
  result := none
  failure := none
  awaitingInput := false
  continuableUntil := none
  deliverySequence := 0
  deliveryAttemptId := none
  leaseUntil := none
  cancelPending := false

theorem newlyBuilt_delegationJob (id agent : String) (startedAt : T) (origin : Origin T)
    (executing : Option SpeakerProvenance) :
    NewlyBuilt (delegationJob py id agent startedAt origin executing) :=
  ⟨rfl, rfl, rfl, rfl, rfl, rfl, rfl, rfl⟩

/-- Both of the rows that callers hand to the registry are newly built. -/
theorem newlyBuilt_newVoiceJob {now : T} {jobId specialistRole displayName task context : String}
    {parent handoff : Option String} {executing creating : Option SpeakerProvenance}
    {origin : Origin T} {job : VoiceJob T} (built : newVoiceJob py now jobId parent executing
      specialistRole displayName origin task context handoff creating = .ok job) :
    NewlyBuilt job := by
  simp only [newVoiceJob, bind, Except.bind, pure, Except.pure] at built
  split at built
  · cases built
  split at built
  · cases built
  cases built
  exact ⟨rfl, rfl, rfl, rfl, rfl, rfl, rfl, rfl⟩

end Builders

end Casa.JobEntry
