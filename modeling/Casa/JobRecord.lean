import Casa.ProvenanceCodec
import Mathlib.Data.List.Sort
import Mathlib.Data.Prod.Lex
import Mathlib.Data.String.Basic

/-! The durable voice-job row of `job_registry.py`: its state enumerations, the
thirty-four fields and the two hand-written snapshot codecs, coercion by coercion. -/

namespace Casa.JobRecord
open PythonValue ProvenanceCodec

inductive ExecutionState where
  | accepted | running | succeeded | failed | cancelled | orphaned
deriving DecidableEq, Repr

inductive DeliveryState where
  | none | ready | claimed | authorized | playing | delivered | cancelled | expired
deriving DecidableEq, Repr

inductive HandoffState where
  | none | pending | received
deriving DecidableEq, Repr

def ExecutionState.value : ExecutionState → String
  | .accepted => "ACCEPTED"
  | .running => "RUNNING"
  | .succeeded => "SUCCEEDED"
  | .failed => "FAILED"
  | .cancelled => "CANCELLED"
  | .orphaned => "ORPHANED"

def DeliveryState.value : DeliveryState → String
  | .none => "NONE"
  | .ready => "READY"
  | .claimed => "CLAIMED"
  | .authorized => "AUTHORIZED"
  | .playing => "PLAYING"
  | .delivered => "DELIVERED"
  | .cancelled => "CANCELLED"
  | .expired => "EXPIRED"

def HandoffState.value : HandoffState → String
  | .none => "NONE"
  | .pending => "PENDING"
  | .received => "RECEIVED"

def ExecutionState.ofValue? (s : String) : Option ExecutionState :=
  [accepted, running, succeeded, failed, cancelled, orphaned].find? (fun x => x.value = s)

def DeliveryState.ofValue? (s : String) : Option DeliveryState :=
  [none, ready, claimed, authorized, playing, delivered, cancelled, expired].find?
    (fun x => x.value = s)

def HandoffState.ofValue? (s : String) : Option HandoffState :=
  [none, pending, received].find? (fun x => x.value = s)

theorem ExecutionState.ofValue?_value (x : ExecutionState) : ofValue? x.value = some x := by
  cases x <;> decide

theorem DeliveryState.ofValue?_value (x : DeliveryState) : ofValue? x.value = some x := by
  cases x <;> decide

theorem HandoffState.ofValue?_value (x : HandoffState) : ofValue? x.value = some x := by
  cases x <;> decide

/-- `_TERMINAL_EXECUTION`. -/
def ExecutionState.isTerminal : ExecutionState → Bool
  | .accepted | .running => false
  | .succeeded | .failed | .cancelled | .orphaned => true

def ExecutionState.isActive (x : ExecutionState) : Bool := !x.isTerminal

/-- `_LEASED_DELIVERY`. -/
def DeliveryState.isLeased : DeliveryState → Bool
  | .claimed | .authorized | .playing => true
  | _ => false

def DeliveryState.isLive : DeliveryState → Bool
  | .ready | .claimed | .authorized | .playing => true
  | _ => false

def DeliveryState.isClosed : DeliveryState → Bool
  | .delivered | .cancelled | .expired => true
  | _ => false

theorem DeliveryState.isLeased_iff {state : DeliveryState} : state.isLeased = true ↔
    state = .claimed ∨ state = .authorized ∨ state = .playing := by
  cases state <;> decide

theorem DeliveryState.isLive_of_isLeased {state : DeliveryState} (leased : state.isLeased = true) :
    state.isLive = true := by
  rcases isLeased_iff.mp leased with rfl | rfl | rfl <;> rfl

structure JobFailure where
  kind : String
  message : String
deriving DecidableEq, Repr

structure VoiceJob (T : Type) where
  id : String
  parentJobId : Option String
  creatingSpeaker : SpeakerProvenance
  executingSpeaker : SpeakerProvenance
  creatingRole : String
  specialistRole : String
  specialistDisplayName : String
  creatorPeer : String
  creatorUserId : Option String
  scopeId : String
  originRouteId : Option String
  originDeviceId : Option String
  task : String
  context : String
  createdAt : T
  startedAt : Option T
  terminalAt : Option T
  expiresAt : Option T
  executionState : ExecutionState
  deliveryState : DeliveryState
  result : Option String
  failure : Option JobFailure
  awaitingInput : Bool
  continuableUntil : Option T
  deliverySequence : Int
  deliveryAttemptId : Option String
  leaseUntil : Option T
  cancelPending : Bool
  orphanNotificationPending : Bool := false
  promptedDelivery : Bool := false
  jobControlId : Option String := none
  handoffId : Option String := none
  handoffState : HandoffState := .none
  deliveryModality : Option String := none
deriving DecidableEq

variable {T : Type}

theorem ok_bind {ε α β : Type} (a : α) (f : α → Except ε β) : (Except.ok a >>= f) = f a := rfl

/-- What can go wrong, with the data each message prints. A `transition` is a
`JobTransitionError`, the only kind the delivery coordinator catches. -/
inductive TransitionFault where
  | alreadyExists (id : String)
  | unknown (id : String)
  | notAChild (child parent : String)
  | alreadyBound (id : String)
  | notRouted (id : String)
  | rejected (action id expected : String) (execution : ExecutionState)
      (delivery : DeliveryState) (attempt : Option String)
deriving DecidableEq, Repr

inductive JobError where
  | value (message : String)
  | key (name : String)
  | registry (message : String)
  | transition (fault : TransitionFault)
  | routeCapacity (route : String) (limit : Int)
  | authorization (id : String)
  | write
deriving DecidableEq, Repr

/-- Sort key of `all()` and of the snapshot: number, creation time, id. -/
def deliveryKey (job : VoiceJob T) : ℤ ×ₗ T ×ₗ String :=
  toLex (job.deliverySequence, toLex (job.createdAt, job.id))

/-- `sorted(jobs, key=...)`. -/
def sortedJobs [LinearOrder T] (rows : List (VoiceJob T)) : List (VoiceJob T) :=
  rows.insertionSort (fun a b => deliveryKey a ≤ deliveryKey b)

theorem sortedJobs_perm [LinearOrder T] (rows : List (VoiceJob T)) :
    (sortedJobs rows).Perm rows :=
  List.perm_insertionSort _ rows

theorem sortedJobs_pairwise [LinearOrder T] (rows : List (VoiceJob T)) :
    (sortedJobs rows).Pairwise (fun a b => deliveryKey a ≤ deliveryKey b) := by
  have total : Std.Total (fun a b : VoiceJob T => deliveryKey a ≤ deliveryKey b) :=
    ⟨fun a b => le_total (deliveryKey a) (deliveryKey b)⟩
  have trans : IsTrans (VoiceJob T) (fun a b => deliveryKey a ≤ deliveryKey b) :=
    ⟨fun _ _ _ => le_trans⟩
  exact List.pairwise_insertionSort _ rows

theorem sortedJobs_sortedJobs [LinearOrder T] (rows : List (VoiceJob T)) :
    sortedJobs (sortedJobs rows) = sortedJobs rows :=
  (sortedJobs_pairwise rows).insertionSort_eq

section Codec

def encodeFailure (failure : JobFailure) : Json T :=
  .obj [("kind", .str failure.kind), ("message", .str failure.message)]

/-- The object literal of `_encode_job`. -/
def rowFields (job : VoiceJob T) (creatingSpeaker executingSpeaker : Json T) :
    List (String × Json T) := [
  ("id", .str job.id),
  ("parent_job_id", .ofOption .str job.parentJobId),
  ("creating_speaker", creatingSpeaker),
  ("executing_speaker", executingSpeaker),
  ("creating_role", .str job.creatingRole),
  ("specialist_role", .str job.specialistRole),
  ("specialist_display_name", .str job.specialistDisplayName),
  ("creator_peer", .str job.creatorPeer),
  ("creator_user_id", .ofOption .str job.creatorUserId),
  ("scope_id", .str job.scopeId),
  ("origin_route_id", .ofOption .str job.originRouteId),
  ("origin_device_id", .ofOption .str job.originDeviceId),
  ("task", .str job.task),
  ("context", .str job.context),
  ("created_at", .float job.createdAt),
  ("started_at", .ofOption .float job.startedAt),
  ("terminal_at", .ofOption .float job.terminalAt),
  ("expires_at", .ofOption .float job.expiresAt),
  ("execution_state", .str job.executionState.value),
  ("delivery_state", .str job.deliveryState.value),
  ("result", .ofOption .str job.result),
  ("failure", .ofOption encodeFailure job.failure),
  ("awaiting_input", .bool job.awaitingInput),
  ("continuable_until", .ofOption .float job.continuableUntil),
  ("delivery_sequence", .int job.deliverySequence),
  ("delivery_attempt_id", .ofOption .str job.deliveryAttemptId),
  ("lease_until", .ofOption .float job.leaseUntil),
  ("cancel_pending", .bool job.cancelPending),
  ("orphan_notification_pending", .bool job.orphanNotificationPending),
  ("prompted_delivery", .bool job.promptedDelivery),
  ("job_control_id", .ofOption .str job.jobControlId),
  ("handoff_id", .ofOption .str job.handoffId),
  ("handoff_state", .str job.handoffState.value),
  ("delivery_modality", .ofOption .str job.deliveryModality)  ]

variable (py : Builtins T)

/-- `_encode_job`; the speaker codec validates, so encoding can raise. -/
def encodeJob (job : VoiceJob T) : Except String (Json T) := do
  let creatingSpeaker ← provenanceMapping py job.creatingSpeaker
  let executingSpeaker ← provenanceMapping py job.executingSpeaker
  pure (.obj (rowFields job creatingSpeaker executingSpeaker))

/-- `row[name]`, a `KeyError` when it is missing. -/
def item (fields : List (String × Json T)) (name : String) : Except String (Json T) :=
  match Json.field? fields name with
  | some x => .ok x
  | none => .error name

/-- `str(row[name])`. -/
def strItem (fields : List (String × Json T)) (name : String) : Except String String := do
  let x ← item fields name
  pure (py.str x)

/-- `_optional_str(row.get(name))`. -/
def optionalStr (fields : List (String × Json T)) (name : String) : Option String :=
  match Json.get fields name with
  | .null => none
  | x => some (py.str x)

/-- `_optional_float(row.get(name))`. -/
def optionalFloat (fields : List (String × Json T)) (name : String) :
    Except String (Option T) :=
  match Json.get fields name with
  | .null => .ok none
  | x => do
      let t ← py.float x
      pure (some t)

/-- `Enum(value)`, a `ValueError` for anything that is not one of the values. -/
def enumOf {α : Type} (ofValue? : String → Option α) : Json T → Except String α
  | .str s =>
      match ofValue? s with
      | some x => .ok x
      | none => .error "is not a valid state"
  | _ => .error "is not a valid state"

/-- The field is stored as read. Only text or null is ever written there, and a
row holding anything else has no counterpart in the typed record. -/
def modalityOf : Json T → Except String (Option String)
  | .null => .ok none
  | .str s => .ok (some s)
  | _ => .error "delivery_modality"

/-- `_decode_speaker`: a missing key is a legacy row, never a made-up persona. -/
def decodeSpeaker (fields : List (String × Json T)) (name : String) :
    Except String SpeakerProvenance :=
  match Json.get fields name with
  | .null => .ok systemSpeaker
  | x => provenanceFromMapping py x

/-- The failure envelope is read before the guarded part of `_decode_job`. -/
def decodeFailure (fields : List (String × Json T)) : Except JobError (Option JobFailure) :=
  match Json.get fields "failure" with
  | .null => .ok none
  | .obj raw =>
      match item raw "kind", item raw "message" with
      | .ok kind, .ok message => .ok (some ⟨py.str kind, py.str message⟩)
      | .error name, _ => .error (.key name)
      | _, .error name => .error (.key name)
  | _ => .error (.registry "job failure is not an object")

variable [DecidableEq T] [IntCast T]

/-- `bool(row[name])`. -/
def boolItem (fields : List (String × Json T)) (name : String) : Except String Bool := do
  let x ← item fields name
  pure x.toBool

/-- `bool(row.get(name, False))`. -/
def optionalBool (fields : List (String × Json T)) (name : String) : Bool :=
  ((Json.field? fields name).getD (.bool false)).toBool

/-- The constructor call of `_decode_job`, its arguments in source order. -/
def decodeFields (fields : List (String × Json T)) (failure : Option JobFailure) :
    Except String (VoiceJob T) := do
  let id ← strItem py fields "id"
  let creatingSpeaker ← decodeSpeaker py fields "creating_speaker"
  let executingSpeaker ← decodeSpeaker py fields "executing_speaker"
  let creatingRole ← strItem py fields "creating_role"
  let specialistRole ← strItem py fields "specialist_role"
  let specialistDisplayName ← strItem py fields "specialist_display_name"
  let creatorPeer ← strItem py fields "creator_peer"
  let scopeId ← strItem py fields "scope_id"
  let task ← strItem py fields "task"
  let context ← strItem py fields "context"
  let createdAt ← item fields "created_at"
  let createdAt ← py.float createdAt
  let startedAt ← optionalFloat py fields "started_at"
  let terminalAt ← optionalFloat py fields "terminal_at"
  let expiresAt ← optionalFloat py fields "expires_at"
  let executionState ← item fields "execution_state"
  let executionState ← enumOf ExecutionState.ofValue? executionState
  let deliveryState ← item fields "delivery_state"
  let deliveryState ← enumOf DeliveryState.ofValue? deliveryState
  let awaitingInput ← boolItem fields "awaiting_input"
  let continuableUntil ← optionalFloat py fields "continuable_until"
  let deliverySequence ← item fields "delivery_sequence"
  let deliverySequence ← py.int deliverySequence
  let leaseUntil ← optionalFloat py fields "lease_until"
  let cancelPending ← boolItem fields "cancel_pending"
  let handoffState ← enumOf HandoffState.ofValue?
    ((Json.field? fields "handoff_state").getD (.str "NONE"))
  let deliveryModality ← modalityOf (Json.get fields "delivery_modality")
  pure {
    id, creatingSpeaker, executingSpeaker, creatingRole, specialistRole,
    specialistDisplayName, creatorPeer, scopeId, task, context, createdAt, startedAt,
    terminalAt, expiresAt, executionState, deliveryState, failure, awaitingInput,
    continuableUntil, deliverySequence, leaseUntil, cancelPending, handoffState,
    deliveryModality
    parentJobId := optionalStr py fields "parent_job_id"
    creatorUserId := optionalStr py fields "creator_user_id"
    originRouteId := optionalStr py fields "origin_route_id"
    originDeviceId := optionalStr py fields "origin_device_id"
    result := optionalStr py fields "result"
    deliveryAttemptId := optionalStr py fields "delivery_attempt_id"
    orphanNotificationPending := optionalBool fields "orphan_notification_pending"
    promptedDelivery := optionalBool fields "prompted_delivery"
    jobControlId := optionalStr py fields "job_control_id"
    handoffId := optionalStr py fields "handoff_id" }

def decodeJob : Json T → Except JobError (VoiceJob T)
  | .obj fields => do
      let failure ← decodeFailure py fields
      match decodeFields py fields failure with
      | .ok job => .ok job
      | .error detail => .error (.registry ("invalid job snapshot row: " ++ detail))
  | _ => .error (.registry "job snapshot row is not an object")

end Codec

section RoundTrip
variable (py : Builtins T) {fields : List (String × Json T)} {name : String}

theorem item_of_field? {x : Json T} (h : Json.field? fields name = some x) :
    item fields name = .ok x := by
  simp [item, h]

theorem strItem_of_field? {s : String} (h : Json.field? fields name = some (.str s)) :
    strItem py fields name = .ok s := by
  simp [strItem, item_of_field? h, bind, Except.bind, pure, Except.pure, py.str_str]

theorem optionalStr_of_field? {s : Option String}
    (h : Json.field? fields name = some (.ofOption .str s)) : optionalStr py fields name = s := by
  cases s <;> simp [optionalStr, Json.get, h, Json.ofOption, py.str_str]

theorem optionalFloat_of_field? {x : Option T}
    (h : Json.field? fields name = some (.ofOption .float x)) :
    optionalFloat py fields name = .ok x := by
  cases x <;> simp [optionalFloat, Json.get, h, Json.ofOption, py.float_float, bind,
    Except.bind, pure, Except.pure]

theorem decodeSpeaker_of_field? {v : SpeakerProvenance}
    (valid : validateSpeakerProvenance py v = .ok ())
    (h : Json.field? fields name = some (.obj (asdict v))) :
    decodeSpeaker py fields name = .ok v := by
  simp [decodeSpeaker, Json.get, h, provenanceFromMapping_asdict py valid]

theorem decodeFailure_of_field? {failure : Option JobFailure}
    (h : Json.field? fields "failure" = some (.ofOption encodeFailure failure)) :
    decodeFailure py fields = .ok failure := by
  cases failure <;>
    simp [decodeFailure, Json.get, h, Json.ofOption, encodeFailure, item, py.str_str]

theorem modalityOf_ofOption (s : Option String) :
    modalityOf (.ofOption .str s : Json T) = .ok s := by
  cases s <;> rfl

theorem enumOf_value {α : Type} {ofValue? : String → Option α} {s : String} {x : α}
    (h : ofValue? s = some x) : enumOf ofValue? (.str s : Json T) = .ok x := by
  simp [enumOf, h]

variable [DecidableEq T] [IntCast T]

theorem boolItem_of_field? {b : Bool} (h : Json.field? fields name = some (.bool b)) :
    boolItem fields name = .ok b := by
  simp [boolItem, item_of_field? h, bind, Except.bind, pure, Except.pure, Json.toBool]

theorem optionalBool_of_field? {b : Bool} (h : Json.field? fields name = some (.bool b)) :
    optionalBool fields name = b := by
  simp [optionalBool, h, Json.toBool]

def SpeakersValid (job : VoiceJob T) : Prop :=
  validateSpeakerProvenance py job.creatingSpeaker = .ok () ∧
    validateSpeakerProvenance py job.executingSpeaker = .ok ()

omit [DecidableEq T] [IntCast T] in
theorem encodeJob_eq_ok_iff {job : VoiceJob T} {row : Json T} :
    encodeJob py job = .ok row ↔ SpeakersValid py job ∧
      row = .obj (rowFields job (.obj (asdict job.creatingSpeaker))
        (.obj (asdict job.executingSpeaker))) := by
  simp only [encodeJob, SpeakersValid, provenanceMapping, bind, Except.bind, pure, Except.pure]
  cases validateSpeakerProvenance py job.creatingSpeaker <;>
    cases validateSpeakerProvenance py job.executingSpeaker <;> simp [eq_comm]

theorem decodeJob_rowFields {job : VoiceJob T} (valid : SpeakersValid py job) :
    decodeJob py (.obj (rowFields job (.obj (asdict job.creatingSpeaker))
      (.obj (asdict job.executingSpeaker)))) = .ok job := by
  obtain ⟨creating, executing⟩ := valid
  generalize fieldsEq : rowFields job (.obj (asdict job.creatingSpeaker))
    (.obj (asdict job.executingSpeaker)) = fields
  have field : ∀ name x, Json.field? (rowFields job (.obj (asdict job.creatingSpeaker))
      (.obj (asdict job.executingSpeaker))) name = some x → Json.field? fields name = some x := by
    intro name x h
    rwa [← fieldsEq]
  have str := fun name s h => strItem_of_field? py (field name (.str s) h)
  have ostr := fun name s h => optionalStr_of_field? py (field name (.ofOption .str s) h)
  have flt := fun name x h => optionalFloat_of_field? py (field name (.ofOption .float x) h)
  have flag := fun name b h => boolItem_of_field? (field name (.bool b) h)
  have oflag := fun name b h => optionalBool_of_field? (field name (.bool b) h)
  have raw := fun name x h => item_of_field? (field name x h)
  have failure := decodeFailure_of_field? py
    (field "failure" (.ofOption encodeFailure job.failure) (by simp [rowFields]))
  have handoff := field "handoff_state" (.str job.handoffState.value) (by simp [rowFields])
  have modality := field "delivery_modality" (.ofOption .str job.deliveryModality)
    (by simp [rowFields])
  simp only [decodeJob, failure, decodeFields, ok_bind,
    str "id" job.id (by simp [rowFields]),
    decodeSpeaker_of_field? py creating (field "creating_speaker" _ (by simp [rowFields])),
    decodeSpeaker_of_field? py executing (field "executing_speaker" _ (by simp [rowFields])),
    str "creating_role" job.creatingRole (by simp [rowFields]),
    str "specialist_role" job.specialistRole (by simp [rowFields]),
    str "specialist_display_name" job.specialistDisplayName (by simp [rowFields]),
    str "creator_peer" job.creatorPeer (by simp [rowFields]),
    str "scope_id" job.scopeId (by simp [rowFields]),
    str "task" job.task (by simp [rowFields]),
    str "context" job.context (by simp [rowFields]),
    raw "created_at" (.float job.createdAt) (by simp [rowFields]), py.float_float,
    flt "started_at" job.startedAt (by simp [rowFields]),
    flt "terminal_at" job.terminalAt (by simp [rowFields]),
    flt "expires_at" job.expiresAt (by simp [rowFields]),
    raw "execution_state" (.str job.executionState.value) (by simp [rowFields]),
    raw "delivery_state" (.str job.deliveryState.value) (by simp [rowFields]),
    enumOf_value job.executionState.ofValue?_value, enumOf_value job.deliveryState.ofValue?_value,
    flag "awaiting_input" job.awaitingInput (by simp [rowFields]),
    flt "continuable_until" job.continuableUntil (by simp [rowFields]),
    raw "delivery_sequence" (.int job.deliverySequence) (by simp [rowFields]), py.int_int,
    flt "lease_until" job.leaseUntil (by simp [rowFields]),
    flag "cancel_pending" job.cancelPending (by simp [rowFields]),
    handoff, Option.getD_some, enumOf_value job.handoffState.ofValue?_value,
    Json.get, modality, modalityOf_ofOption,
    ostr "parent_job_id" job.parentJobId (by simp [rowFields]),
    ostr "creator_user_id" job.creatorUserId (by simp [rowFields]),
    ostr "origin_route_id" job.originRouteId (by simp [rowFields]),
    ostr "origin_device_id" job.originDeviceId (by simp [rowFields]),
    ostr "result" job.result (by simp [rowFields]),
    ostr "delivery_attempt_id" job.deliveryAttemptId (by simp [rowFields]),
    oflag "orphan_notification_pending" job.orphanNotificationPending (by simp [rowFields]),
    oflag "prompted_delivery" job.promptedDelivery (by simp [rowFields]),
    ostr "job_control_id" job.jobControlId (by simp [rowFields]),
    ostr "handoff_id" job.handoffId (by simp [rowFields])]
  rfl

end RoundTrip

end Casa.JobRecord
