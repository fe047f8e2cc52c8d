import Casa.VoiceQueue

/-! Frames that do not belong. Attempt, binding, route and durable lease are checked in
different places of the coordinator and the registry; together they keep every frame that
names anything but the current attempt away from the durable rows. -/

namespace Casa.VoiceFrames
open PythonValue JobRecord KeyedTable FaultState StepRuns JobRegistry JobSnapshot JobEffects
open JobDurability Coroutine VoiceRoutes VoiceDelivery VoiceQueue

set_option linter.unusedSectionVars false

variable {T : Type} [LinearOrder T] [Add T] [IntCast T]
variable {cfg : DeliverySettings T} {s : Voice T} {endpoint : Endpoint} {kind : Inbound}
  {frame : List (String × Json T)}

/-- The endpoint is the connected, capability-complete binding of the job's origin route, and the
frame names the attempt the coordinator holds for the job on that binding, which a row past READY
stores too. -/
def namesCurrentAttempt (s : Voice T) (endpoint : Endpoint) (frame : List (String × Json T)) :
    Bool :=
  match currentBound s.routes endpoint, identifierOf (Json.get frame "job_id"),
    identifierOf (Json.get frame "delivery_attempt_id") with
  | some bound, some jobId, some attemptId =>
      match s.registry.jobs.get? jobId, s.attempts.get? jobId with
      | some job, some attempt =>
          job.originRouteId == some bound.routeId && attempt.attemptId == attemptId &&
            attempt.endpoint == some bound &&
            (job.deliveryState == .ready || job.deliveryAttemptId == some attemptId)
      | _, _ => false
  | _, _, _ => false

section Silence

def world (s : Voice T) : Registry T × Routes T := (s.registry, s.routes)

theorem silent_ite {c : Prop} [Decidable c] {α : Type} {p q : Locked T α}
    (yes : c → Silent world p) (no : ¬ c → Silent world q) :
    Silent world (if c then p else q) := by
  split
  · exact yes ‹_›
  · exact no ‹_›

theorem silent_safeSend (endpoint : Endpoint) (frame : Outbound T) :
    Silent world (safeSend endpoint frame) :=
  silent_step fun _ _ => rfl

theorem silent_deny (endpoint : Endpoint) (jobId attemptId : Option String) (reason : String) :
    Silent world (deny endpoint jobId attemptId reason : Locked T PUnit) :=
  (silent_safeSend _ _).bind fun _ => trivial

theorem silent_popAttempt (jobId : String) : Silent world (popAttempt jobId : Locked T PUnit) :=
  silent_update fun _ _ => rfl

theorem silent_offer (job : VoiceJob T) : Silent world (offer cfg job) := by
  refine Silent.bind (silent_step fun tick s => ?_) fun made => ?_
  · unfold storeOffer
    split <;> rfl
  · split
    · trivial
    · exact (silent_safeSend _ _).bind fun _ =>
        silent_ite (fun _ => trivial) fun _ => silent_popAttempt _

theorem silent_offerHeads : Silent world (offerHeads cfg) :=
  silent_look.bind fun _ => silent_forEach silent_offer _

end Silence

section Matching
variable {bound : BoundVoiceRoute} {jobId attemptId : String} {job : VoiceJob T}

theorem names_of_parts {attempt : Attempt T}
    (binding : currentBound s.routes endpoint = some bound)
    (names : identifierOf (Json.get frame "job_id") = some jobId)
    (token : identifierOf (Json.get frame "delivery_attempt_id") = some attemptId)
    (row : s.registry.jobs.get? jobId = some job) (found : s.attempts.get? jobId = some attempt)
    (route : job.originRouteId = some bound.routeId) (same : attempt.attemptId = attemptId)
    (writer : attempt.endpoint = some bound)
    (durable : job.deliveryState = .ready ∨ job.deliveryAttemptId = some attemptId) :
    namesCurrentAttempt s endpoint frame = true := by
  simp [namesCurrentAttempt, binding, names, token, row, found, route, same, writer, durable]

theorem names_of_matchesJob (binding : currentBound s.routes endpoint = some bound)
    (names : identifierOf (Json.get frame "job_id") = some jobId)
    (token : identifierOf (Json.get frame "delivery_attempt_id") = some attemptId)
    (row : s.registry.jobs.get? jobId = some job)
    (matched : matchesJob s bound (some job) attemptId = true) :
    namesCurrentAttempt s endpoint frame = true := by
  have key : job.id = jobId := Table.key_of_get? row
  simp only [matchesJob, key, Bool.and_eq_true, beq_iff_eq] at matched
  obtain ⟨⟨route, -⟩, held⟩ := matched
  split at held
  · cases held
  · rename_i attempt found
    simp only [Bool.and_eq_true, beq_iff_eq] at held
    obtain ⟨⟨⟨-, writer⟩, same⟩, lease⟩ := held
    refine names_of_parts binding names token row found route same writer ?_
    split at lease
    · rename_i ready
      exact .inl ready
    · simp only [Bool.and_eq_true, beq_iff_eq] at lease
      exact .inr lease.2

/-- An acknowledged revocation of anything but the current attempt reaches no row: the attempts
of a job all carry its origin route. -/
theorem silent_handleRevokedAck (inv : (fifo cfg).inv s)
    (binding : currentBound s.routes endpoint = some bound)
    (names : identifierOf (Json.get frame "job_id") = some jobId)
    (token : identifierOf (Json.get frame "delivery_attempt_id") = some attemptId)
    (stale : namesCurrentAttempt s endpoint frame = false) :
    Silent world (handleRevokedAck cfg s bound jobId attemptId) := by
  unfold handleRevokedAck
  split
  · trivial
  rename_i attempt found
  refine silent_ite (fun acked => ?_) fun _ => trivial
  obtain ⟨same, routed, writer, -⟩ := acked
  refine Silent.bind (silent_ite (fun preempts => ?_) fun _ => trivial) fun settled => ?_
  · -- the row is leased under this attempt, so the frame named the current one after all
    obtain ⟨job, row, facts⟩ := (Option.any_eq_true _ _).mp preempts
    simp only [Bool.and_eq_true, beq_iff_eq] at facts
    obtain ⟨held, heldRow, route, -⟩ := inv.2 attempt (Table.mem_of_get? found)
    rw [Table.key_of_get? found, row] at heldRow
    obtain rfl := Option.some.inj heldRow
    have current := names_of_parts binding names token row found (routed ▸ route) same writer
      (.inr facts.2)
    rw [stale] at current
    cases current
  · refine silent_ite (fun _ => ?_) fun _ => trivial
    exact (silent_popAttempt _).bind fun _ => silent_offerHeads

theorem silent_answer (inv : (fifo cfg).inv s)
    (stale : namesCurrentAttempt s endpoint frame = false) :
    Silent world (answer cfg endpoint kind frame s) := by
  unfold answer
  split
  · rename_i bound jobId attemptId binding names token
    refine silent_ite (fun _ => silent_handleRevokedAck inv binding names token stale) fun _ => ?_
    split
    · rename_i job row
      refine silent_ite (fun matched => ?_) fun _ => silent_deny _ _ _ _
      have current := names_of_matchesJob binding names token row matched
      rw [stale] at current
      cases current
    · exact silent_deny _ _ _ _
  · exact silent_deny _ _ _ _

end Matching

section Runs
variable [Sub T]

theorem world_outside (e : Outside T) (s t : Voice T) (same : world s = world t) :
    world ((system cfg).env e s) = world ((system cfg).env e t) := by
  obtain ⟨registry, routes⟩ := Prod.mk.inj same
  cases e with
  | jobs event => simp only [world, system, Outside.apply, registry, routes]
  | register => simp only [world, system, Outside.apply, registry, routes]
  | touch => simp only [world, system, Outside.apply, registry, routes]
  | disconnect => simp only [world, system, Outside.apply, registry, routes]
  | restart => simp only [world, system, Outside.apply, registry]

theorem handle_eq (typed : inboundType (Json.get frame "type") = .ok (some kind))
    (protocol : isCurrentProtocol (Json.get frame "protocol") = true) :
    handle cfg endpoint frame =
      (recoverAndOffer cfg >>= fun _ => judge cfg endpoint kind frame) := by
  simp [handle, typed, protocol]

theorem judge_eq : judge cfg endpoint kind frame =
    .act (fun _ s => s) (fun _ s => answer cfg endpoint kind frame s) := rfl

theorem handle_ignores (ignored : (∀ kind, inboundType (Json.get frame "type") ≠ .ok (some kind)) ∨
    isCurrentProtocol (Json.get frame "protocol") = false) :
    ∃ r, handle cfg endpoint frame = .done r := by
  unfold handle
  split
  · exact ⟨_, rfl⟩
  · exact ⟨_, rfl⟩
  · rename_i kind typed
    rcases ignored with untyped | foreign
    · exact absurd typed (untyped kind)
    · rw [foreign]
      exact ⟨_, rfl⟩

/-- Handling a frame that does not name the current attempt, when it is matched, leaves the
registry at every moment as a sweep in its place would, whatever happens meanwhile; a frame of
another type or protocol leaves it to the rest of the system. -/
theorem stale_frame_like_sweep {past labels : List (Label (Outside T) (Turn T) (Tick T))}
    {d : Config (Tick T) (Voice T) Fault} (reached : Deployment cfg boot past ⟨s, none⟩)
    (run : Deployment cfg ⟨s, none⟩ (.start (.frame endpoint frame) :: labels) d)
    (stays : .leave ∉ labels) :
    (∀ kind, inboundType (Json.get frame "type") = .ok (some kind) →
      isCurrentProtocol (Json.get frame "protocol") = true →
      (∀ before after tick, labels = before ++ .advance tick :: after →
        ((system cfg).run (.start (.frame endpoint frame) :: before) ⟨s, none⟩).running =
          some (judge cfg endpoint kind frame) →
        namesCurrentAttempt ((system cfg).run (.start (.frame endpoint frame) :: before)
          ⟨s, none⟩).state endpoint frame = false) →
      d.state.registry =
        ((system cfg).run (.start .sweep :: labels) ⟨s, none⟩).state.registry) ∧
    ((∀ kind, inboundType (Json.get frame "type") ≠ .ok (some kind)) ∨
        isCurrentProtocol (Json.get frame "protocol") = false →
      d.state.registry = ((system cfg).run labels ⟨s, some (pure ⟨⟩)⟩).state.registry) := by
  have inv := (guarded_of_deployment reached guarded_boot).inv
  have ends : d = (system cfg).run labels ⟨s, some (handle cfg endpoint frame)⟩ := run.eq_foldl
  constructor
  · intro kind typed protocol stale
    have sweeps : (system cfg).run (.start .sweep :: labels) ⟨s, none⟩ =
        (system cfg).run labels ⟨s, some (recoverAndOffer cfg)⟩ := rfl
    rw [ends, sweeps, handle_eq typed protocol]
    have frameRun : ∀ before, (system cfg).run before
        ⟨s, some (recoverAndOffer cfg >>= fun _ => judge cfg endpoint kind frame)⟩ =
        (system cfg).run (.start (.frame endpoint frame) :: before) ⟨s, none⟩ := by
      intro before
      rw [← handle_eq typed protocol]
      rfl
    refine congrArg Prod.fst (run_then world_outside stays (recoverAndOffer cfg)
      (judge cfg endpoint kind frame) s fun before after tick code next cut held shape => ?_)
    rw [frameRun before] at held ⊢
    rw [judge_eq] at shape
    obtain ⟨rfl, rfl⟩ := Co.act.inj shape
    refine ⟨rfl, silent_answer ?_ (stale before after tick cut held)⟩
    -- the state in which the frame is matched is itself reachable
    rw [cut, ← List.cons_append] at run
    obtain ⟨c, first, -⟩ := run.split
    have guarded := guarded_of_deployment first ⟨inv, fun _ none_ => by cases none_⟩
    rw [first.eq_foldl] at guarded
    exact guarded.inv
  · intro ignored
    obtain ⟨r, ended⟩ : ∃ r, handle cfg endpoint frame = .done r := handle_ignores ignored
    rw [ends, ended]
    exact congrArg Prod.fst (run_silent world_outside stays (p := .done r) trivial (.ok ⟨⟩) rfl)

end Runs

section Sample

def waitingLabels : List (Label (Outside Int) (Turn Int) (Tick Int)) :=
  calls [.load, .create (spokenJob "first") none, .finish "first" "done"]

def lostLabels : List (Label (Outside Int) (Turn Int) (Tick Int)) :=
  [.leave, .env (.restart ⟨0, true⟩), .env (.register 0 0 0 7 registration)]

def advancesAt (now : Int) (n : Nat) : List (Label (Outside Int) (Turn Int) (Tick Int)) :=
  List.replicate n (.advance ⟨⟨now, true⟩, 0, "attempt", true⟩)

def waiting : Config (Tick Int) (Voice Int) Fault := (system plainDelivery).run waitingLabels boot

def claimed : Config (Tick Int) (Voice Int) Fault :=
  (system plainDelivery).run [.leave] ((system plainDelivery).run claimedLabels boot)

def restarted : Config (Tick Int) (Voice Int) Fault :=
  (system plainDelivery).run lostLabels ((system plainDelivery).run claimedLabels boot)

/-- The row `first` after socket 7's frame, and after a sweep in its place. -/
def afterFrame (now : Int) (frame : List (String × Json Int))
    (c : Config (Tick Int) (Voice Int) Fault) : Option (VoiceJob Int) :=
  ((system plainDelivery).run (.start (.frame (.connection 7) frame) :: advancesAt now 14)
    c).state.registry.jobs.get? "first"

def afterSweep (now : Int) (c : Config (Tick Int) (Voice Int) Fault) : Option (VoiceJob Int) :=
  ((system plainDelivery).run (.start .sweep :: advancesAt now 14)
    c).state.registry.jobs.get? "first"

theorem waiting_deployment : Deployment plainDelivery boot waitingLabels waiting := by
  refine Runs.foldl (fun l mem c => ?_) boot
  simp only [waitingLabels, calls, List.mem_cons, List.mem_map, List.not_mem_nil, or_false] at mem
  obtain ⟨op, rfl | rfl | rfl, rfl⟩ := mem <;>
    simp [Allowed, Reserved, Enters, newlyBuilt_spokenJob]

theorem restarted_deployment :
    Deployment plainDelivery boot (claimedLabels ++ lostLabels) restarted :=
  claimed_deployment.append (.cons trivial (.cons rfl (.cons trivial (.nil _))))

/-- A protocol 1 frame is ignored although the sweep would expire a row, and the first renewal
after a restart is honoured because the sweep before it restores the attempt. -/
theorem frames_unlike_sweep :
    (Deployment plainDelivery boot waitingLabels waiting ∧
      namesCurrentAttempt waiting.state (.connection 7)
        (deliveryFrame "job_claimed" 1 "first" "attempt") = false ∧
      (afterFrame 4000 (deliveryFrame "job_claimed" 1 "first" "attempt") waiting).map
        (·.deliveryState) = some .ready ∧
      (afterSweep 4000 waiting).map (·.deliveryState) = some .expired) ∧
    (Deployment plainDelivery boot (claimedLabels ++ lostLabels) restarted ∧
      namesCurrentAttempt restarted.state (.connection 7)
        (deliveryFrame "job_claim_renew" 2 "first" "attempt") = false ∧
      (afterFrame 5 (deliveryFrame "job_claim_renew" 2 "first" "attempt") restarted).map
        (·.leaseUntil) = some (some 20) ∧
      (afterSweep 5 restarted).map (·.leaseUntil) = some (some 15)) := by
  refine ⟨⟨waiting_deployment, ?_, ?_, ?_⟩, restarted_deployment, ?_, ?_, ?_⟩ <;> decide

/-- A delivery report under another attempt id. -/
theorem wrong_attempt_like_sweep :
    ((system plainDelivery).run (.start (.frame (.connection 7)
        (deliveryFrame "job_delivered" 2 "first" "other")) :: advancesAt 5 14)
        claimed).state.registry =
      ((system plainDelivery).run (.start .sweep :: advancesAt 5 14) claimed).state.registry := by
  have reached : Deployment plainDelivery boot (claimedLabels ++ [.leave]) claimed :=
    claimed_deployment.append (.cons trivial (.nil _))
  have run : Deployment plainDelivery claimed (.start (.frame (.connection 7)
      (deliveryFrame "job_delivered" 2 "first" "other")) :: advancesAt 5 14) _ :=
    Runs.foldl (fun l mem c => by
      rcases List.mem_cons.mp mem with rfl | mem
      · trivial
      · rw [List.eq_of_mem_replicate mem]
        trivial) claimed
  have stays : .leave ∉ advancesAt 5 14 := by simp [advancesAt]
  have stale : ∀ n < 14, namesCurrentAttempt ((system plainDelivery).run
      (.start (.frame (.connection 7) (deliveryFrame "job_delivered" 2 "first" "other")) ::
        advancesAt 5 n) claimed).state (.connection 7)
      (deliveryFrame "job_delivered" 2 "first" "other") = false := by decide
  refine (stale_frame_like_sweep reached run stays).1 .jobDelivered rfl rfl ?_
  intro before after tick cut _
  obtain ⟨total, head, -⟩ := List.replicate_eq_append_iff.mp cut
  rw [head]
  refine stale before.length ?_
  rw [List.length_cons] at total
  omega

end Sample

end Casa.VoiceFrames
