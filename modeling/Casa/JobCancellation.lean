import Casa.JobLifecycle

/-! What an accepted cancellation is worth. Every transition but one keeps a
cancelled answer away from the speaker; the exception is a refusal of an authorized
attempt under any reason other than preemption, and the main result is exact about it. -/

namespace Casa.JobCancellation
open PythonValue JobRecord KeyedTable FaultState StepRuns JobRegistry JobSnapshot JobEffects
open JobDurability JobEntry JobLifecycle

set_option linter.unusedSectionVars false

variable {T : Type} [LinearOrder T] [Add T] [IntCast T]
variable {cfg : Settings T} {call : Call T} {s t : Registry T} {op : Op T} {now : T}
  {counter : Int} {job job' : VoiceJob T} {id : String}

section Quiet

structure Quiet (job : VoiceJob T) : Prop where
  coherent : Coherent job
  quiet : job.executionState = .cancelled →
    job.deliveryState = .none ∨ job.deliveryState = .cancelled ∨ job.deliveryState = .expired

theorem quiet_of_not_cancelled (h : Coherent job) (other : job.executionState ≠ .cancelled) :
    Quiet job :=
  ⟨h, fun cancelled => absurd cancelled other⟩

theorem cancelledDelivery_of_active (h : Coherent job)
    (active : job.executionState.isActive = true) : cancelledDelivery job = .none := by
  simp [cancelledDelivery, h.undelivered active]

theorem Quiet.of_live (h : Quiet job) (next : Coherent job')
    (same : job'.executionState = job.executionState) (live : job.deliveryState.isLive = true) :
    Quiet job' := by
  refine ⟨next, fun cancelled => ?_⟩
  rcases h.quiet (same ▸ cancelled) with state | state | state <;>
    simp [state, DeliveryState.isLive] at live

theorem live_of_held {a b : DeliveryState} (held : job.deliveryState = a ∨ job.deliveryState = b)
    (first : a.isLive = true) (second : b.isLive = true) : job.deliveryState.isLive = true := by
  rcases held with rfl | rfl
  · exact first
  · exact second

theorem quiet_of_transition (step : Transition cfg now counter op job job') (h : Quiet job) :
    Quiet job' := by
  have next := coherent_of_transition step h.coherent
  cases step with
  | keep => exact h
  | consume | restore | handoffPending | handoffReceived | cancelPending | ackOrphan | renew
  | extend => exact ⟨next, h.quiet⟩
  | bind accepted => exact quiet_of_not_cancelled next (by simp [boundRow])
  | finish _ active =>
    refine ⟨next, fun cancelled => .inl ?_⟩
    unfold finishedRow at cancelled ⊢
    split
    · exact cancelledDelivery_of_active h.coherent active
    · simp_all
  | finishVoice active =>
    refine ⟨next, fun cancelled => .inl ?_⟩
    unfold voiceResultRow at cancelled ⊢
    split
    · exact cancelledDelivery_of_active h.coherent active
    · simp_all
  | fail _ active =>
    refine ⟨next, fun cancelled => .inl ?_⟩
    simp only [failedRow] at cancelled ⊢
    split at cancelled
    · rename_i stopped
      rw [if_pos stopped]
      exact cancelledDelivery_of_active h.coherent active
    · cases cancelled
  | cancel active => exact ⟨next, fun _ => .inl (cancelledDelivery_of_active h.coherent active)⟩
  | cancelDelivery queued => exact ⟨next, fun _ => .inr (.inl rfl)⟩
  | claim ready => exact h.of_live next rfl (by rw [ready]; rfl)
  | authorize claimed => exact h.of_live next rfl (by rw [claimed]; rfl)
  | play authorized => exact h.of_live next rfl (by rw [authorized]; rfl)
  | deliver held | nack held => exact h.of_live next rfl (live_of_held held rfl rfl)
  | expire due => exact ⟨next, fun _ => .inr (.inr rfl)⟩
  | lapse due =>
    simp only [leaseDue, Bool.and_eq_true] at due
    exact h.of_live next rfl (DeliveryState.isLive_of_isLeased due.1)
  | orphan active fresh => exact quiet_of_not_cancelled next (by simp [orphanedRow])

theorem quiet_exec (h : Lawful cfg Quiet s) {e : Event T} (admits : Admits NewlyBuilt e.op) :
    Lawful cfg Quiet (exec cfg e s) := by
  refine Lawful.exec Quiet (fun job built => ?_)
    (fun counter now parent child built h available => ?_)
    (fun _ _ _ _ _ step h => quiet_of_transition step h) h admits
  · refine quiet_of_not_cancelled (coherent_of_newlyBuilt built) fun cancelled => ?_
    have active := built.active
    simp [cancelled, ExecutionState.isActive, ExecutionState.isTerminal] at active
  · exact quiet_of_not_cancelled (coherent_promptedRow built h.coherent available)
      (by simp [promptedRow])

end Quiet

section Stopped

inductive Stopped (job : VoiceJob T) : Prop
  | executing (pending : job.cancelPending = true)
      (active : job.executionState.isActive = true) (undelivered : job.deliveryState = .none)
  | authorized (pending : job.cancelPending = true) (held : job.deliveryState = .authorized)
  | cancelled (execution : job.executionState = .cancelled)
      (undelivered : job.deliveryState = .none)
  | closed (ended : job.deliveryState = .cancelled ∨ job.deliveryState = .expired)

def Unplayed (id : String) (s : Registry T) : Prop :=
  ∃ job, s.jobs.get? id = some job ∧ job.deliveryState ≠ .ready ∧ job.deliveryState ≠ .claimed ∧
    job.deliveryState ≠ .playing ∧ job.deliveryState ≠ .delivered

theorem Stopped.unplayed (h : Stopped job) : job.deliveryState ≠ .ready ∧
    job.deliveryState ≠ .claimed ∧ job.deliveryState ≠ .playing ∧
    job.deliveryState ≠ .delivered := by
  rcases h with ⟨_, _, state⟩ | ⟨_, state⟩ | ⟨_, state⟩ | ⟨state | state⟩ <;> simp [state]

theorem Stopped.congr (h : Stopped job) (execution : job'.executionState = job.executionState)
    (delivery : job'.deliveryState = job.deliveryState)
    (pending : job'.cancelPending = job.cancelPending) : Stopped job' := by
  cases h with
  | executing set active undelivered =>
    exact .executing (pending ▸ set) (execution ▸ active) (delivery ▸ undelivered)
  | authorized set held => exact .authorized (pending ▸ set) (delivery ▸ held)
  | cancelled state undelivered => exact .cancelled (execution ▸ state) (delivery ▸ undelivered)
  | closed ended => exact .closed (delivery ▸ ended)

theorem Stopped.pending_of_active (h : Stopped job) (coherent : Coherent job)
    (active : job.executionState.isActive = true) : job.cancelPending = true := by
  have undelivered := coherent.undelivered active
  cases h with
  | executing set _ _ => exact set
  | authorized set _ => exact set
  | cancelled state _ => simp [state, ExecutionState.isActive, ExecutionState.isTerminal] at active
  | closed ended => simp [undelivered] at ended

theorem Stopped.pending_of_leased (h : Stopped job) (leased : job.deliveryState.isLeased = true) :
    job.cancelPending = true ∧ job.deliveryState = .authorized := by
  rcases h with ⟨_, _, state⟩ | ⟨set, state⟩ | ⟨_, state⟩ | ⟨state | state⟩
  · simp [state, DeliveryState.isLeased] at leased
  · exact ⟨set, state⟩
  · simp [state, DeliveryState.isLeased] at leased
  · simp [state, DeliveryState.isLeased] at leased
  · simp [state, DeliveryState.isLeased] at leased

theorem stopped_of_transition (step : Transition cfg now counter op job job')
    (coherent : Coherent job) (h : Stopped job) (forward : op ≠ .recoverAfterRestart)
    (preempted : ∀ attempt reason, op = .nack job.id attempt reason →
      job.deliveryAttemptId = some attempt → reason = "preempted_before_playback") :
    Stopped job' := by
  have unplayed := h.unplayed
  cases step with
  | keep => exact h
  | consume | restore | handoffPending | handoffReceived | ackOrphan | renew =>
    exact h.congr rfl rfl rfl
  | bind accepted =>
    have active : job.executionState.isActive = true := by rw [accepted]; rfl
    exact .executing (h.pending_of_active coherent active) rfl (coherent.undelivered active)
  | finish _ active =>
    have pending := h.pending_of_active coherent active
    rw [finishedRow, if_pos pending]
    exact .cancelled rfl (cancelledDelivery_of_active coherent active)
  | finishVoice active =>
    have pending := h.pending_of_active coherent active
    rw [voiceResultRow, if_pos pending]
    exact .cancelled rfl (cancelledDelivery_of_active coherent active)
  | fail _ active =>
    have pending := h.pending_of_active coherent active
    refine .cancelled ?_ ?_
    · simp [failedRow, pending]
    · simp [failedRow, pending, cancelledDelivery_of_active coherent active]
  | cancel active => exact .cancelled rfl (cancelledDelivery_of_active coherent active)
  | cancelPending stoppable =>
    rcases stoppable with held | ⟨active, undelivered⟩
    · exact .authorized rfl held
    · exact .executing rfl active undelivered
  | cancelDelivery queued => exact .closed (.inl rfl)
  | claim ready => exact absurd ready unplayed.1
  | authorize claimed => exact absurd claimed unplayed.2.1
  | play authorized _ free =>
    have pending := (h.pending_of_leased (by rw [authorized]; rfl)).1
    simp [free] at pending
  | deliver held =>
    rcases held with claimed | playing
    · exact absurd claimed unplayed.2.1
    · exact absurd playing unplayed.2.2.1
  | nack held same =>
    rcases held with claimed | authorized
    · exact absurd claimed unplayed.2.1
    · have pending := (h.pending_of_leased (by rw [authorized]; rfl)).1
      refine .closed (.inl ?_)
      simp [nackedRow, releasedRow, nackCancels, authorized, pending, preempted _ _ rfl same]
  | expire due => exact .closed (.inr rfl)
  | lapse due =>
    simp only [leaseDue, Bool.and_eq_true] at due
    obtain ⟨pending, authorized⟩ := h.pending_of_leased due.1
    refine .closed (.inl ?_)
    simp [lapsedRow, releasedRow, authorized, pending]
  | orphan | extend => exact absurd rfl forward

end Stopped

section Runs
variable {actor : Actor} {status : CancelStatus}

theorem requestCancel_stops (h : Lawful cfg Quiet s) :
    Ends (requestCancel cfg call id actor) s
      (fun status t => status ≠ .tooLate → ∃ job, t.jobs.get? id = some job ∧ Stopped job)
      (fun _ _ => True) := by
  simp only [requestCancel, authorizeActor, ends_bind, ends_require, ends_ite, ends_pure]
  refine requireJob_ends ?_ (fun _ => trivial)
  rintro job loaded row rfl
  simp only [implies_true, and_true]
  rintro _
  have stored : ∀ {job' : VoiceJob T}, job'.id = job.id → Stopped job' →
      ∃ job'', (committed s (s.jobs.put job') s.tasks).jobs.get? job.id = some job'' ∧
        Stopped job'' := fun same stopped =>
    ⟨_, by simp [committed, Table.get?_put, same], stopped⟩
  refine ⟨fun _ late => absurd rfl late, fun _ => ⟨fun ended _ => ⟨job, row, ?_⟩, fun _ =>
    ⟨fun held => ?_, fun _ => ⟨fun _ => ?_, fun _ => ⟨fun active => ?_, fun _ late =>
      absurd rfl late⟩⟩⟩⟩⟩
  · rcases ended with ended | cancelled
    · exact .closed ended
    · rcases (h.rows row).quiet cancelled with state | ended
      · exact .cancelled cancelled state
      · exact .closed ended
  · exact persistJob_ends (fun _ _ => stored rfl (.authorized rfl held)) (fun _ => trivial)
  · exact persistJob_ends (fun _ _ => stored rfl (.closed (.inl rfl))) (fun _ => trivial)
  · exact persistJob_ends (fun _ _ => stored rfl (.executing rfl active
      ((h.rows row).coherent.undelivered active))) (fun _ => trivial)

theorem exec_requestCancel (run : (requestCancel cfg call id actor).run s = .ok status t) :
    exec cfg ⟨call, .requestCancel id actor⟩ s = t :=
  (after_discard _).trans (after_of_run run)

def Onward (cfg : Settings T) (id : String) (e : Event T) (s : Registry T) : Prop :=
  Present cfg id e s ∧ e.op ≠ .recoverAfterRestart

/-- A refusal of the row's authorized, cancel-pending attempt for a reason other than
preemption, with a write that succeeds. -/
def Requeues (id : String) (e : Event T) (s : Registry T) : Prop :=
  ∃ attempt reason job, e.op = .nack id attempt reason ∧ e.call.writeOk = true ∧
    s.jobs.get? id = some job ∧ job.deliveryState = .authorized ∧ job.cancelPending = true ∧
    job.deliveryAttemptId = some attempt ∧ reason ≠ "preempted_before_playback"

theorem stopped_exec (h : Lawful cfg Quiet s) {e : Event T} (onward : Onward cfg id e s)
    (kept : ¬ Requeues id e s) (row : s.jobs.get? id = some job) (stopped : Stopped job) :
    ∃ job', (exec cfg e s).jobs.get? id = some job' ∧ Stopped job' := by
  cases wrote : e.call.writeOk with
  | false => exact ⟨job, (get?_exec_of_unwritten h.sync wrote id).trans row, stopped⟩
  | true =>
    obtain rfl : job.id = id := Table.key_of_get? row
    have step := exec_row h.sync e job.id
    rw [row] at step
    generalize later : (exec cfg e s).jobs.get? job.id = after at step
    cases step with
    | removed => exact absurd later onward.1.2
    | moved step =>
      refine ⟨_, rfl, stopped_of_transition step (h.rows row).coherent stopped onward.2 ?_⟩
      intro attempt reason op same
      by_contra other
      have leased := (h.rows row).coherent.attempt_iff.mp (by rw [same]; rfl)
      obtain ⟨pending, authorized⟩ := stopped.pending_of_leased leased
      exact kept ⟨attempt, reason, job, op, wrote, row, authorized, pending, same, other⟩

theorem ready_of_requeues (sync : Synced cfg s) {e : Event T} (h : Requeues id e s) :
    ∃ job, (exec cfg e s).jobs.get? id = some job ∧ job.deliveryState = .ready := by
  obtain ⟨call, op⟩ := e
  obtain ⟨attempt, reason, job, rfl, wrote, row, authorized, _, same, other⟩ := h
  cases sync with
  | fresh => simp [Registry.init] at row
  | loaded loaded valid _ _ =>
    obtain rfl : job.id = id := Table.key_of_get? row
    have encodes : AllSpeakersValid cfg (s.jobs.put (nackedRow job reason)) := by
      intro other mem
      rcases Table.mem_put.mp mem with rfl | ⟨old, _⟩
      · exact valid job (Table.mem_of_get? row)
      · exact valid other old
    have ends : Ends (nack cfg call job.id attempt reason) s
        (fun _ t => t.jobs.get? job.id = some (nackedRow job reason)) (fun _ _ => False) := by
      simp only [nack, requireJob, requireLoaded, persistJob, ends_bind, ends_get, ends_require,
        ends_pure, loaded, row, authorized, same]
      refine ⟨fun _ => ⟨fun _ => commitSnapshot_returns wrote encodes ?_, by simp⟩, by simp⟩
      exact Table.get?_put_self s.jobs (nackedRow job reason)
    obtain ⟨_, t, run, stored⟩ := ends.returns
    refine ⟨nackedRow job reason, ?_, ?_⟩
    · rw [← stored]
      exact congrArg (fun u : Registry T => u.jobs.get? job.id)
        ((after_discard _).trans (after_of_run run))
    · simp [nackedRow, releasedRow, nackCancels, other]

def authorizedOps : List (Op Int) :=
  [.load, .create (plainJob "job" none) (some 2), .finish "job" "done", .claim "job" "attempt",
    .authorize "job" "attempt"]

def creator : Actor
  | "creator_peer" => some (some "voice")
  | "creator_user_id" => some none
  | "scope_id" => some (some "scope")
  | _ => none

theorem authorized_history : History plainSettings NewlyBuilt .init (plainEvents authorizedOps)
    (plainRun authorizedOps) :=
  plain_history (by simp [authorizedOps, Admits, newlyBuilt_plainJob])

def stoppingRegistry : Registry Int :=
  exec plainSettings ⟨⟨1, true⟩, .requestCancel "job" creator⟩ (plainRun authorizedOps)

/-- After an accepted cancellation the answer stays away from the speaker in exactly the runs
in which no refusal requeues it: step by step, the one condition is the other. -/
theorem cancellation_kept_iff {past : List (Event T)}
    (start : History cfg NewlyBuilt .init past s)
    (run : (requestCancel cfg call id actor).run s = .ok status t)
    (accepted : status = .stopping ∨ status = .cancelled) :
    Unplayed id t ∧ ∀ events u,
      Runs (exec cfg) (fun e s => Onward cfg id e s ∧ ¬ Requeues id e s) t events u ↔
      Runs (exec cfg) (fun e s => Onward cfg id e s ∧ Unplayed id (exec cfg e s)) t events u := by
  have before : Lawful cfg Quiet s :=
    start.invariant (I := Lawful cfg Quiet) (fun _ _ admits h => quiet_exec h admits) lawful_init
  have lawful : Lawful cfg Quiet t := by
    rw [← exec_requestCancel run]
    exact quiet_exec before trivial
  obtain ⟨job, row, stopped⟩ := (requestCancel_stops before).ok run (by
    rcases accepted with rfl | rfl <;> simp)
  refine ⟨⟨job, row, stopped.unplayed⟩, fun events u => ⟨fun kept => ?_, fun quiet => ?_⟩⟩
  · refine kept.strengthen
      (I := fun s => Lawful cfg Quiet s ∧ ∃ job, s.jobs.get? id = some job ∧ Stopped job)
      ?_ ?_ ⟨lawful, job, row, stopped⟩
    · rintro e s ⟨onward, kept⟩ ⟨h, job, row, stopped⟩
      exact ⟨quiet_exec h onward.1.1, stopped_exec h onward kept row stopped⟩
    · rintro e s ⟨onward, kept⟩ ⟨h, job, row, stopped⟩
      obtain ⟨job', row', stopped'⟩ := stopped_exec h onward kept row stopped
      exact ⟨onward, job', row', stopped'.unplayed⟩
  · refine quiet.strengthen (I := Synced cfg) (fun e s _ sync => synced_exec sync e) ?_ lawful.sync
    rintro e s ⟨onward, job, row, unplayed⟩ sync
    refine ⟨onward, fun requeues => ?_⟩
    obtain ⟨job', row', ready⟩ := ready_of_requeues sync requeues
    obtain rfl : job' = job := Option.some.inj (row'.symm.trans row)
    exact unplayed.1 ready

theorem preempted_answer_unplayed :
    Runs (exec plainSettings) (fun e s => Onward plainSettings "job" e s ∧
        Unplayed "job" (exec plainSettings e s)) stoppingRegistry
      [⟨⟨2, true⟩, .nack "job" "attempt" "preempted_before_playback"⟩]
      (exec plainSettings ⟨⟨2, true⟩, .nack "job" "attempt" "preempted_before_playback"⟩
        stoppingRegistry) := by
  have accepted : (requestCancel plainSettings ⟨1, true⟩ "job" creator).run
      (plainRun authorizedOps) = .ok .stopping stoppingRegistry := rfl
  refine ((cancellation_kept_iff authorized_history accepted (.inl rfl)).2 _ _).mp
    (.cons ⟨⟨⟨trivial, by decide⟩, by simp⟩, ?_⟩ (.nil _))
  rintro ⟨_, _, _, ⟨⟩, _, _, _, _, _, other⟩
  exact other rfl

theorem cancelled_answer_requeued :
    (requestCancel plainSettings ⟨1, true⟩ "job" creator).run (plainRun authorizedOps) =
      .ok .stopping stoppingRegistry ∧
    History plainSettings NewlyBuilt .init (plainEvents authorizedOps) (plainRun authorizedOps) ∧
    ∃ u job, Runs (exec plainSettings) (Onward plainSettings "job") stoppingRegistry
        [⟨⟨2, true⟩, .nack "job" "attempt" "satellite_not_found"⟩] u ∧
      u.jobs.get? "job" = some job ∧ job.deliveryState = .ready := by
  refine ⟨rfl, authorized_history, _, _, .cons ⟨⟨trivial, by decide⟩, by simp⟩ (.nil _), rfl, ?_⟩
  decide

end Runs

end Casa.JobCancellation
