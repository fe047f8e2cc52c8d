import Casa.JobLifecycle
import Casa.JobNumbers
import Casa.VoiceDelivery

/-! One queue per device. The head of a device's queue is a fact about the durable rows
that no later call can undo, so an offer made on yesterday's snapshot is still an offer of
the head when the client claims it. -/

namespace Casa.VoiceQueue
open PythonValue JobRecord KeyedTable FaultState StepRuns JobRegistry JobSnapshot JobEffects
open JobDurability JobEntry JobLifecycle JobNumbers Coroutine VoiceRoutes VoiceDelivery

set_option linter.unusedSectionVars false

variable {T : Type} [LinearOrder T] [Add T] [IntCast T]
variable {cfg : Settings T} {r : Registry T} {op : Op T} {now : T} {counter : Int}
  {job job' : VoiceJob T} {id : String} {route device : Option String}

section Row

theorem origin_of_transition (step : Transition cfg now counter op job job') :
    job'.originRouteId = job.originRouteId ∧ job'.originDeviceId = job.originDeviceId := by
  cases step with
  | finish =>
    unfold finishedRow
    split <;> exact ⟨rfl, rfl⟩
  | finishVoice =>
    unfold voiceResultRow
    split <;> exact ⟨rfl, rfl⟩
  | _ => exact ⟨rfl, rfl⟩

theorem deliverable_congr (route : job'.originRouteId = job.originRouteId)
    (device : job'.originDeviceId = job.originDeviceId) : deliverable job' = deliverable job := by
  simp only [deliverable, route, device]

theorem not_live_cancelledDelivery : (cancelledDelivery job).isLive = false := by
  unfold cancelledDelivery
  split <;> rfl

theorem assigns_of_terminalDelivery (active : job.executionState.isActive = true)
    (terminal : job'.executionState.isActive = false) (numbers : Numbers op)
    (state : job'.deliveryState = (terminalDelivery counter job).1)
    (number : job'.deliverySequence = (terminalDelivery counter job).2)
    (live : job'.deliveryState.isLive = true) :
    Assigns counter op job job' ∧ deliverable job = true := by
  unfold terminalDelivery at state number
  split at state
  · rename_i target
    rw [if_pos target] at number
    exact ⟨⟨active, terminal, state, by rw [number]; exact Int.lt_succ counter, numbers⟩, target⟩
  · rw [state] at live
    cases live

theorem live_before_or_assigned (step : Transition cfg now counter op job job')
    (live : job'.deliveryState.isLive = true) :
    job.deliveryState.isLive = true ∨ (Assigns counter op job job' ∧ deliverable job = true) := by
  cases step with
  | @finish _ result _ by_ active =>
    have numbers : Numbers op := by rcases by_ with rfl | rfl <;> trivial
    by_cases pending : job.cancelPending = true
    · simp [finishedRow, pending, finishCancelledRow, not_live_cancelledDelivery] at live
    · refine .inr (assigns_of_terminalDelivery active ?_ numbers ?_ ?_ live) <;>
        simp [finishedRow, pending, ExecutionState.isActive, ExecutionState.isTerminal]
  | finishVoice active =>
    by_cases pending : job.cancelPending = true
    · simp [voiceResultRow, pending, finishCancelledRow, not_live_cancelledDelivery] at live
    · refine .inr (assigns_of_terminalDelivery active ?_ trivial ?_ ?_ live) <;>
        simp [voiceResultRow, pending, ExecutionState.isActive, ExecutionState.isTerminal]
  | @fail _ cause _ by_ active =>
    have numbers : Numbers op := by rcases by_ with rfl | rfl <;> trivial
    by_cases stopped : (cause.isCancellation || job.cancelPending) = true
    · simp [failedRow, stopped, not_live_cancelledDelivery] at live
    · refine .inr (assigns_of_terminalDelivery active ?_ numbers ?_ ?_ live) <;>
        simp [failedRow, stopped, ExecutionState.isActive, ExecutionState.isTerminal]
  | orphan active fresh =>
    by_cases target : deliverable job = true
    · refine .inr ⟨⟨active, rfl, ?_, ?_, trivial⟩, target⟩ <;> simp [orphanedRow, target, fresh]
    · simp [orphanedRow, target, DeliveryState.isLive] at live
  | cancel => simp [cancelledRow, not_live_cancelledDelivery] at live
  | cancelDelivery | deliver | expire => cases live
  | claim ready => exact .inl (by rw [ready]; rfl)
  | authorize claimed => exact .inl (by rw [claimed]; rfl)
  | play authorized => exact .inl (by rw [authorized]; rfl)
  | nack held =>
    rcases held with claimed | authorized
    · exact .inl (by rw [claimed]; rfl)
    · exact .inl (by rw [authorized]; rfl)
  | lapse due =>
    simp only [leaseDue, Bool.and_eq_true] at due
    exact .inl (DeliveryState.isLive_of_isLeased due.1)
  | _ => exact .inl live

theorem leased_before_or_claimed (step : Transition cfg now counter op job job')
    (leased : job'.deliveryState.isLeased = true) :
    job.deliveryState.isLeased = true ∨ ∃ attempt, op = .claim job.id attempt := by
  cases step with
  | claim => exact .inr ⟨_, rfl⟩
  | authorize claimed => exact .inl (by rw [claimed]; rfl)
  | play authorized => exact .inl (by rw [authorized]; rfl)
  | finish =>
    unfold finishedRow at leased
    split at leased
    · simp [finishCancelledRow, cancelledDelivery_unleased] at leased
    · simp [terminalDelivery_unleased] at leased
  | finishVoice =>
    unfold voiceResultRow at leased
    split at leased
    · simp [finishCancelledRow, cancelledDelivery_unleased] at leased
    · simp [terminalDelivery_unleased] at leased
  | fail =>
    simp only [failedRow] at leased
    split at leased
    · simp [cancelledDelivery_unleased] at leased
    · simp [terminalDelivery_unleased] at leased
  | cancel => simp [cancelledRow, cancelledDelivery_unleased] at leased
  | orphan =>
    simp only [orphanedRow] at leased
    split at leased <;> cases leased
  | nack =>
    simp only [nackedRow, releasedRow] at leased
    split at leased <;> cases leased
  | lapse =>
    simp only [lapsedRow, releasedRow] at leased
    split at leased <;> cases leased
  | cancelDelivery | deliver | expire => cases leased
  | _ => exact .inl leased

end Row

section Registry

/-- What callers hand to the creating operations: rows in their newly built form, and for a
prompted delivery a row that names a route and a device. -/
def Enters : Op T → Prop
  | .create job _ => NewlyBuilt job
  | .createContinuation _ child _ _ => NewlyBuilt child
  | .createPromptedDelivery _ child _ _ => NewlyBuilt child ∧ deliverable child = true
  | _ => True

theorem Enters.unnumbered (h : Enters op) : Admits Unnumbered op := by
  cases op with
  | create => exact h.unnumbered
  | createContinuation => exact h.unnumbered
  | createPromptedDelivery => exact h.1.unnumbered
  | _ => trivial

/-- The row under `id` is numbered, and every other live row of its device has a larger number. -/
def Head (jobs : Jobs T) (id : String) (route device : Option String) : Prop :=
  ∃ job, jobs.get? id = some job ∧ job.originRouteId = route ∧ job.originDeviceId = device ∧
    job.deliverySequence ≠ 0 ∧
    ∀ other, jobs.get? other.id = some other → other.id ≠ id → other.deliveryState.isLive = true →
      other.originDeviceId = device → job.deliverySequence < other.deliverySequence

/-- Live rows can be delivered and are numbered, and a leased row is the head of its device. -/
structure Queue (cfg : Settings T) (r : Registry T) : Prop where
  ordered : Ordered cfg r
  queued : ∀ {id : String} {job : VoiceJob T}, r.jobs.get? id = some job →
    job.deliveryState.isLive = true → deliverable job = true ∧ job.deliverySequence ≠ 0
  leased : ∀ {id : String} {job : VoiceJob T}, r.jobs.get? id = some job →
    job.deliveryState.isLeased = true → Head r.jobs id job.originRouteId job.originDeviceId

theorem queue_init : Queue cfg (.init : Registry T) :=
  ⟨ordered_init, fun present => by simp [Registry.init] at present,
    fun present => by simp [Registry.init] at present⟩

theorem deliverable_promptedRow {parent child : VoiceJob T} :
    deliverable (promptedRow counter now parent child) = deliverable child := by
  simp only [deliverable, promptedRow, inheritDeliveryModality]
  split
  · rfl
  split <;> rfl

theorem unleased_of_created {call : Call T} (created : Created call r op job) (enters : Enters op) :
    job.deliveryState.isLeased = false := by
  cases created with
  | create => rw [NewlyBuilt.undelivered enters]; rfl
  | continuation => rw [NewlyBuilt.undelivered enters]; rfl
  | prompted => rfl

/-- A live row after a call was live before under the same number, or is numbered just now. -/
theorem Queue.live_exec (h : Queue cfg r) {e : Event T} (enters : Enters e.op)
    (row : (exec cfg e r).jobs.get? id = some job') (live : job'.deliveryState.isLive = true) :
    deliverable job' = true ∧ (r.deliverySequence < job'.deliverySequence ∨
      ∃ job, r.jobs.get? id = some job ∧ job.deliveryState.isLive = true ∧
        job'.deliverySequence = job.deliverySequence ∧
        job'.originDeviceId = job.originDeviceId) := by
  have step := exec_row h.ordered.sync e id
  rw [row] at step
  generalize before : r.jobs.get? id = old at step
  obtain ⟨call, op⟩ := e
  cases step with
  | created created =>
    cases created with
    | create => simp [NewlyBuilt.undelivered enters, DeliveryState.isLive] at live
    | continuation => simp [NewlyBuilt.undelivered enters, DeliveryState.isLive] at live
    | prompted => exact ⟨deliverable_promptedRow.trans enters.2, .inl (Int.lt_succ _)⟩
  | @moved job _ step =>
    obtain ⟨sameRoute, sameDevice⟩ := origin_of_transition step
    rw [deliverable_congr sameRoute sameDevice]
    rcases live_before_or_assigned step live with was | ⟨assigns, target⟩
    · refine ⟨(h.queued before was).1, ?_⟩
      rcases number_of_transition step with same | assigns
      · exact .inr ⟨job, rfl, was, same, sameDevice⟩
      · exact .inl assigns.fresh
    · exact ⟨target, .inl assigns.fresh⟩

theorem numbered_exec (h : Ordered cfg r) (e : Event T) (row : r.jobs.get? id = some job)
    (numbered : job.deliverySequence ≠ 0) :
    ∃ job', (exec cfg e r).jobs.get? id = some job' ∧
      job'.deliverySequence = job.deliverySequence ∧ job'.originRouteId = job.originRouteId ∧
      job'.originDeviceId = job.originDeviceId := by
  obtain ⟨job', row', same⟩ := h.number_exec e row numbered
  have step := exec_row h.sync e id
  rw [row, row'] at step
  cases step with
  | moved step => exact ⟨job', row', same, origin_of_transition step⟩

theorem Head.exec (head : Head r.jobs id route device) (h : Queue cfg r) {e : Event T}
    (enters : Enters e.op) : Head (exec cfg e r).jobs id route device := by
  obtain ⟨job, row, rfl, rfl, numbered, first⟩ := head
  obtain ⟨job', row', same, sameRoute, sameDevice⟩ := numbered_exec h.ordered e row numbered
  refine ⟨job', row', sameRoute, sameDevice, same ▸ numbered, ?_⟩
  intro other otherRow ne live onDevice
  rw [same]
  rcases (h.live_exec enters otherRow live).2 with fresh | ⟨was, wasRow, wasLive, number, device⟩
  · exact lt_of_le_of_lt (h.ordered.le_counter (Table.mem_of_get? row)) fresh
  · have key : was.id = other.id := Table.key_of_get? wasRow
    rw [number]
    exact first was (key ▸ wasRow) (key ▸ ne) wasLive (device ▸ onDevice)

theorem Queue.exec (h : Queue cfg r) {e : Event T} (enters : Enters e.op)
    (claims : ∀ id attempt, e.op = .claim id attempt →
      ∃ route device, Head r.jobs id route device) : Queue cfg (exec cfg e r) := by
  refine ⟨h.ordered.exec enters.unnumbered, fun row live => ?_, fun {id job'} row leased => ?_⟩
  · obtain ⟨target, number⟩ := h.live_exec enters row live
    refine ⟨target, ?_⟩
    rcases number with fresh | ⟨was, wasRow, wasLive, same, -⟩
    · have := h.ordered.counter_nonneg
      omega
    · exact same ▸ (h.queued wasRow wasLive).2
  · -- a lease was there before, or this call is the claim of a head
    have head : ∃ route device, Head r.jobs id route device := by
      have step := exec_row h.ordered.sync e id
      rw [row] at step
      generalize before : r.jobs.get? id = old at step
      cases step with
      | created created =>
        rw [unleased_of_created created enters] at leased
        cases leased
      | @moved job _ step =>
        rcases leased_before_or_claimed step leased with was | ⟨attempt, claim⟩
        · exact ⟨_, _, h.leased before was⟩
        · exact Table.key_of_get? before ▸ claims job.id attempt claim
    obtain ⟨route, device, head⟩ := head
    have head' := head.exec h enters
    obtain ⟨job, row', rfl, rfl, -⟩ := head'
    obtain rfl : job = job' := Option.some.inj (row'.symm.trans row)
    exact head.exec h enters

def InQueue (job : VoiceJob T) : Prop := job.deliveryState.isLive = true ∧ deliverable job = true

/-- What `headsOf` selects: queued rows of devices not yet occupied, each before every other
queued row of its device. -/
theorem mem_headsOf {R : VoiceJob T → VoiceJob T → Prop} {occupied : List String}
    {rows : List (VoiceJob T)} (sorted : rows.Pairwise R) (mem : job ∈ headsOf occupied rows) :
    job ∈ rows ∧ InQueue job ∧ (∀ name ∈ occupied, job.originDeviceId ≠ some name) ∧
      ∀ other ∈ rows, InQueue other → other.originDeviceId = job.originDeviceId →
        other = job ∨ R job other := by
  induction rows generalizing occupied with
  | nil => cases mem
  | cons first rest ih =>
    rw [List.pairwise_cons] at sorted
    -- a row that is passed over is not queued, or its device is occupied
    have skip : job ∈ headsOf occupied rest →
        (InQueue first → ∃ name ∈ occupied, first.originDeviceId = some name) →
        job ∈ first :: rest ∧ InQueue job ∧ (∀ name ∈ occupied, job.originDeviceId ≠ some name) ∧
          ∀ other ∈ first :: rest, InQueue other → other.originDeviceId = job.originDeviceId →
            other = job ∨ R job other := by
      intro tail passed
      obtain ⟨inRest, queued, free, before⟩ := ih sorted.2 tail
      refine ⟨List.mem_cons_of_mem _ inRest, queued, free, ?_⟩
      intro other otherMem otherQueued same
      rcases List.mem_cons.mp otherMem with rfl | otherRest
      · obtain ⟨name, taken, named⟩ := passed otherQueued
        exact absurd (same.symm.trans named) (free name taken)
      · exact before other otherRest otherQueued same
    unfold headsOf at mem
    split at mem
    · rename_i absent
      refine skip mem fun queued => ?_
      have := queued.2
      simp [deliverable, absent, truthy] at this
    · rename_i device named
      split at mem
      · rename_i taken
        rcases List.mem_cons.mp mem with rfl | tail
        · refine ⟨List.mem_cons_self, ⟨taken.1, taken.2.1⟩, ?_, ?_⟩
          · intro name occupiedName same
            rw [named, Option.some.injEq] at same
            exact taken.2.2 (same ▸ occupiedName)
          · intro other otherMem _ _
            rcases List.mem_cons.mp otherMem with rfl | otherRest
            · exact .inl rfl
            · exact .inr (sorted.1 other otherRest)
        · obtain ⟨inRest, queued, free, before⟩ := ih sorted.2 tail
          rw [List.forall_mem_cons] at free
          refine ⟨List.mem_cons_of_mem _ inRest, queued, free.2, ?_⟩
          intro other otherMem otherQueued same
          rcases List.mem_cons.mp otherMem with rfl | otherRest
          · exact absurd (same.symm.trans named) free.1
          · exact before other otherRest otherQueued same
      · rename_i passed
        refine skip mem fun queued => ⟨device, ?_, named⟩
        by_contra free
        exact passed ⟨queued.1, queued.2, free⟩

theorem le_of_deliveryKey_le {other : VoiceJob T} (h : deliveryKey job ≤ deliveryKey other) :
    job.deliverySequence ≤ other.deliverySequence := by
  rcases Prod.Lex.le_iff.mp h with lt | ⟨same, -⟩
  · exact le_of_lt lt
  · exact le_of_eq same

theorem head_of_mem_headsOf (h : Queue cfg r)
    (mem : job ∈ headsOf [] (sortedJobs r.jobs.rows)) :
    Head r.jobs job.id job.originRouteId job.originDeviceId := by
  obtain ⟨inRows, queued, -, before⟩ := mem_headsOf (sortedJobs_pairwise r.jobs.rows) mem
  have perm := sortedJobs_perm r.jobs.rows
  have row := Table.get?_key (perm.mem_iff.mp inRows)
  have numbered := (h.queued row queued.1).2
  refine ⟨job, row, rfl, rfl, numbered, fun other otherRow ne live same => ?_⟩
  have otherMem := Table.mem_of_get? otherRow
  rcases before other (perm.mem_iff.mpr otherMem) ⟨live, (h.queued otherRow live).1⟩ same with
    rfl | later
  · exact absurd rfl ne
  · refine lt_of_le_of_ne (le_of_deliveryKey_le later) fun equal => numbered ?_
    exact h.ordered.distinct job (Table.mem_of_get? row) other otherMem
      (fun eq => ne (by rw [eq])) equal

end Registry

section Coordinator
variable {cfg : DeliverySettings T} {s t : Voice T}

def Held (jobs : Jobs T) (attempt : Attempt T) : Prop :=
  Head jobs attempt.jobId (some attempt.routeId) (some attempt.deviceId)

def fifo (cfg : DeliverySettings T) : Protocol (Voice T) where
  inv s := Queue cfg.jobs s.registry ∧ ∀ attempt ∈ s.attempts.rows, Held s.registry.jobs attempt
  later s t := ∀ id route device, Head s.registry.jobs id route device →
    Head t.registry.jobs id route device
  refl _ _ _ _ head := head
  trans first second id route device head := second id route device (first id route device head)

theorem fifo_memory (inv : (fifo cfg).inv s) (registry : t.registry = s.registry)
    (held : ∀ attempt ∈ t.attempts.rows, Held s.registry.jobs attempt) :
    (fifo cfg).inv t ∧ (fifo cfg).later s t := by
  refine ⟨⟨registry ▸ inv.1, fun attempt mem => ?_⟩, fun id route device head => ?_⟩
  · rw [registry]
    exact held attempt mem
  · rw [registry]
    exact head

theorem fifo_put (inv : (fifo cfg).inv s) {attempt : Attempt T}
    (held : Held s.registry.jobs attempt) :
    (fifo cfg).inv { s with attempts := s.attempts.put attempt } ∧
      (fifo cfg).later s { s with attempts := s.attempts.put attempt } := by
  refine fifo_memory inv rfl fun other mem => ?_
  rcases Table.mem_put.mp mem with rfl | ⟨old, -⟩
  · exact held
  · exact inv.2 other old

theorem fifo_exec (inv : (fifo cfg).inv s) {e : Event T} (enters : Enters e.op)
    (claims : ∀ id attempt, e.op = .claim id attempt →
      ∃ route device, Head s.registry.jobs id route device)
    (registry : t.registry = exec cfg.jobs e s.registry)
    (attempts : ∀ attempt ∈ t.attempts.rows, attempt ∈ s.attempts.rows) :
    (fifo cfg).inv t ∧ (fifo cfg).later s t := by
  have later : (fifo cfg).later s t := by
    intro id route device head
    rw [registry]
    exact head.exec inv.1 enters
  refine ⟨⟨registry ▸ inv.1.exec enters claims, fun attempt mem => ?_⟩, later⟩
  exact later _ _ _ (inv.2 attempt (attempts attempt mem))

theorem safe_call (op : Op T) (enters : Enters op)
    (claims : ∀ id attempt, op = .claim id attempt →
      ∃ route device, Head s.registry.jobs id route device) :
    Safe (fifo cfg) (call cfg op) s (fun _ _ => True) := by
  refine safe_block fun t later inv tick => ?_
  have heads : ∀ id attempt, op = .claim id attempt →
      ∃ route device, Head t.registry.jobs id route device := by
    intro id attempt same
    obtain ⟨route, device, head⟩ := claims id attempt same
    exact ⟨route, device, later id route device head⟩
  obtain ⟨keeps, promised⟩ := fifo_exec (e := ⟨tick.call, op⟩)
    (t := { t with registry := exec cfg.jobs ⟨tick.call, op⟩ t.registry }) inv enters heads rfl
    (fun _ mem => mem)
  exact ⟨keeps, promised, fun _ _ _ _ _ => trivial⟩

theorem safe_plainCall (op : Op T) (enters : Enters op)
    (plain : ∀ id attempt, op ≠ .claim id attempt) :
    Safe (fifo cfg) (call cfg op) s (fun _ _ => True) :=
  safe_call op enters fun id attempt same => absurd same (plain id attempt)

theorem safe_memory {f : Tick T → Voice T → Voice T}
    (registry : ∀ tick t, (f tick t).registry = t.registry)
    (held : ∀ t, (fifo cfg).later s t → (fifo cfg).inv t → ∀ tick,
      ∀ attempt ∈ (f tick t).attempts.rows, Held t.registry.jobs attempt) :
    Safe (fifo cfg) (Co.update f : Locked T PUnit) s (fun _ _ => True) :=
  safe_update fun t later inv tick => fifo_memory inv (registry tick t) (held t later inv tick)

theorem safe_safeSend (endpoint : Endpoint) (frame : Outbound T) :
    Safe (fifo cfg) (safeSend endpoint frame) s (fun _ _ => True) := by
  refine safe_step fun t _ inv tick => ?_
  obtain ⟨keeps, promised⟩ := fifo_memory (t := { t with
    sent := if tick.sendOk then t.sent ++ [(endpoint, frame)] else t.sent }) inv rfl inv.2
  exact ⟨keeps, promised, fun _ _ _ => trivial⟩

theorem safe_ite {c : Prop} [Decidable c] {α : Type} {p q : Locked T α} {Q : α → Voice T → Prop}
    (yes : c → Safe (fifo cfg) p s Q) (no : ¬ c → Safe (fifo cfg) q s Q) :
    Safe (fifo cfg) (if c then p else q) s Q := by
  split
  · exact yes ‹_›
  · exact no ‹_›

theorem safe_done (a : PUnit) : Safe (fifo cfg) (pure a : Locked T PUnit) s (fun _ _ => True) :=
  safe_pure fun _ _ _ => trivial

theorem safe_sendRevoke (attempt : Attempt T) (reason : String) (inv : (fifo cfg).inv s) :
    Safe (fifo cfg) (sendRevoke attempt reason) s (fun _ _ => True) := by
  refine safe_look.bind inv fun seen t _ inv _ => ?_
  split
  · exact safe_pure fun _ _ _ => trivial
  · exact safe_ite (fun _ => safe_safeSend _ _) fun _ => safe_pure fun _ _ _ => trivial

theorem safe_deny (endpoint : Endpoint) (jobId attemptId : Option String) (reason : String)
    (inv : (fifo cfg).inv s) :
    Safe (fifo cfg) (deny endpoint jobId attemptId reason) s (fun _ _ => True) :=
  (safe_safeSend _ _).bind inv fun _ _ _ _ _ => safe_done _

theorem safe_popAttempt (jobId : String) :
    Safe (fifo cfg) (popAttempt jobId) s (fun _ _ => True) :=
  safe_memory (fun _ _ => rfl) fun _ _ inv _ attempt mem =>
    inv.2 attempt (Table.mem_remove.mp mem).1

theorem held_restoreAttempt (inv : (fifo cfg).inv s) {attempts : Table (@Attempt.jobId T)}
    (held : ∀ attempt ∈ attempts.rows, Held s.registry.jobs attempt)
    (mem : job ∈ s.registry.jobs.rows) :
    ∀ attempt ∈ (restoreAttempt s.routes attempts job).rows, Held s.registry.jobs attempt := by
  unfold restoreAttempt
  split
  · exact held
  · rename_i restored found
    split
    · exact held
    · intro attempt attemptMem
      rcases Table.mem_put.mp attemptMem with rfl | ⟨old, -⟩
      · unfold durableAttempt at found
        split at found
        · rename_i route device token routeEq deviceEq tokenEq
          split at found
          · rename_i leased
            obtain rfl := Option.some.inj found
            have head := inv.1.leased (Table.get?_key mem) leased.1
            rwa [routeEq, deviceEq] at head
          · cases found
        · cases found
      · exact held attempt old

theorem held_restoreDurableAttempts (inv : (fifo cfg).inv s) :
    ∀ attempt ∈ (restoreDurableAttempts s).attempts.rows, Held s.registry.jobs attempt := by
  have inRows : ∀ job ∈ sortedJobs s.registry.jobs.rows, job ∈ s.registry.jobs.rows :=
    fun job mem => (sortedJobs_perm _).mem_iff.mp mem
  have start := inv.2
  unfold restoreDurableAttempts
  revert start
  generalize s.attempts = attempts
  generalize sortedJobs s.registry.jobs.rows = rows at inRows ⊢
  intro start
  induction rows generalizing attempts with
  | nil => exact start
  | cons job rest ih =>
    rw [List.forall_mem_cons] at inRows
    exact ih _ inRows.2 (held_restoreAttempt inv start inRows.1)

theorem reconcile_held {now : T} {row : Option (VoiceJob T)} {attempt : Attempt T} {jobs : Jobs T}
    (held : Held jobs attempt) : Held jobs (reconcile cfg now row attempt).1 := by
  unfold reconcile
  split <;> exact held

theorem safe_reconcileStored (jobId : String) :
    Safe (fifo cfg) (Co.step fun tick s => reconcileStored cfg tick.clock jobId s :
        Locked T (Option (Attempt T × String))) s
      (fun due t => ∀ made, due = some made → Held t.registry.jobs made.1) := by
  refine safe_step fun t _ inv tick => ?_
  unfold reconcileStored
  split
  · exact ⟨inv, (fifo cfg).refl t, fun _ _ _ made none_ => by cases none_⟩
  · rename_i attempt found
    have held : Held t.registry.jobs
        (reconcile cfg tick.clock (t.registry.jobs.get? jobId) attempt).1 :=
      reconcile_held (inv.2 attempt (Table.mem_of_get? found))
    obtain ⟨keeps, promised⟩ := fifo_put inv held
    refine ⟨keeps, promised, fun u later _ made chosen => ?_⟩
    obtain ⟨reason, -, rfl⟩ := Option.map_eq_some_iff.mp chosen
    exact later _ _ _ held

theorem safe_put {attempt : Attempt T} (held : Held s.registry.jobs attempt) :
    Safe (fifo cfg) (Co.update fun _ s => { s with attempts := s.attempts.put attempt } :
      Locked T PUnit) s (fun _ _ => True) := by
  exact safe_update fun t later inv _ => fifo_put inv (later _ _ _ held)

theorem safe_reconcileAttempt (jobId : String) (inv : (fifo cfg).inv s) :
    Safe (fifo cfg) (reconcileAttempt cfg jobId) s (fun _ _ => True) := by
  refine (safe_reconcileStored jobId).bind inv fun due t _ inv held => ?_
  split
  · exact safe_done _
  · rename_i attempt reason
    refine (safe_sendRevoke attempt reason inv).bind inv fun sent u later _ _ => safe_put ?_
    exact later _ _ _ (held _ rfl)

theorem safe_restore : Safe (fifo cfg)
    (Co.update fun tick s => restoreDurableAttempts (releaseDueParks tick.clock s) :
      Locked T PUnit) s (fun _ _ => True) := by
  refine safe_memory (fun _ _ => rfl) fun t _ inv tick => ?_
  have released : (fifo cfg).inv (releaseDueParks tick.clock t) := inv
  exact held_restoreDurableAttempts released

theorem safe_reconcileAttempts (inv : (fifo cfg).inv s) :
    Safe (fifo cfg) (reconcileAttempts cfg) s (fun _ _ => True) :=
  safe_look.bind inv fun _ _ _ inv _ => safe_forEach inv fun jobId _ _ _ inv =>
    safe_reconcileAttempt jobId inv

theorem safe_recoverDue (inv : (fifo cfg).inv s) :
    Safe (fifo cfg) (recoverDue cfg) s (fun _ _ => True) := by
  refine (safe_plainCall .expireDue trivial (by simp)).bind inv fun _ _ _ inv _ => ?_
  refine (safe_plainCall .expireLeases trivial (by simp)).bind inv fun _ _ _ inv _ => ?_
  refine safe_restore.bind inv fun _ _ _ inv _ => ?_
  refine (safe_reconcileAttempts inv).bind inv fun _ _ _ _ _ => ?_
  exact safe_memory (fun _ _ => rfl) fun _ _ inv _ attempt mem =>
    inv.2 attempt (Table.mem_filter.mp mem).1

theorem held_of_offerFor {uuid : String} {made : Attempt T × BoundVoiceRoute}
    (found : offerFor s uuid job = some made) {jobs : Jobs T}
    (head : Head jobs job.id job.originRouteId job.originDeviceId) : Held jobs made.1 := by
  unfold offerFor at found
  split at found
  · simp only [Option.bind_eq_bind, Option.bind_eq_some_iff, Option.some.injEq] at found
    obtain ⟨route, routeEq, device, deviceEq, _, _, _, _, rfl⟩ := found
    rwa [routeEq, deviceEq] at head
  · cases found

theorem safe_offer (inv : (fifo cfg).inv s)
    (head : Head s.registry.jobs job.id job.originRouteId job.originDeviceId) :
    Safe (fifo cfg) (offer cfg job) s (fun _ _ => True) := by
  have stored : Safe (fifo cfg) (Co.step fun tick s => storeOffer tick.uuid job s :
      Locked T (Option (Attempt T × BoundVoiceRoute))) s (fun _ _ => True) := by
    refine safe_step fun t later inv tick => ?_
    unfold storeOffer
    split
    · exact ⟨inv, (fifo cfg).refl t, fun _ _ _ => trivial⟩
    · rename_i made found
      obtain ⟨keeps, promised⟩ := fifo_put inv (held_of_offerFor found (later _ _ _ head))
      exact ⟨keeps, promised, fun _ _ _ => trivial⟩
  refine stored.bind inv fun made t _ inv _ => ?_
  split
  · exact safe_done _
  · refine (safe_safeSend _ _).bind inv fun sent u _ _ _ => ?_
    exact safe_ite (fun _ => safe_done _) fun _ => safe_popAttempt _

theorem safe_offerHeads (inv : (fifo cfg).inv s) :
    Safe (fifo cfg) (offerHeads cfg) s (fun _ _ => True) := by
  refine safe_look.bind inv fun seen t _ inv read => ?_
  obtain ⟨seenInv, -, later⟩ := read
  refine safe_forEach inv fun job mem u first inv => safe_offer inv ?_
  exact first _ _ _ (later _ _ _ (head_of_mem_headsOf seenInv.1 mem))

theorem safe_recoverAndOffer (inv : (fifo cfg).inv s) :
    Safe (fifo cfg) (recoverAndOffer cfg) s (fun _ _ => True) :=
  (safe_recoverDue inv).bind inv fun _ _ _ inv _ => safe_offerHeads inv

theorem safe_onTransitionError {α : Type} {p handler : Locked T α} {Q : α → Voice T → Prop}
    (body : Safe (fifo cfg) p s Q) (inv : (fifo cfg).inv s)
    (handled : ∀ t, (fifo cfg).inv t → Safe (fifo cfg) handler t Q) :
    Safe (fifo cfg) (p.rescue (onTransitionError handler)) s Q := by
  refine body.rescue inv fun e q found t _ inv => ?_
  unfold onTransitionError at found
  split at found
  · obtain rfl := Option.some.inj found
    exact handled t inv
  · cases found

theorem safe_settleRevoked (seen : Voice T) (jobId attemptId : String) (inv : (fifo cfg).inv s) :
    Safe (fifo cfg) (settleRevoked cfg seen jobId attemptId) s (fun _ _ => True) := by
  refine safe_ite (fun _ => ?_) fun _ => safe_pure fun _ _ _ => trivial
  refine safe_onTransitionError ?_ inv fun _ _ => safe_pure fun _ _ _ => trivial
  exact (safe_plainCall (.nack jobId attemptId _) trivial (by simp)).bind inv fun _ _ _ _ _ =>
    safe_pure fun _ _ _ => trivial

theorem safe_handleRevokedAck (seen : Voice T) (bound : BoundVoiceRoute) (jobId attemptId : String)
    (inv : (fifo cfg).inv s) :
    Safe (fifo cfg) (handleRevokedAck cfg seen bound jobId attemptId) s (fun _ _ => True) := by
  unfold handleRevokedAck
  split
  · exact safe_done _
  refine safe_ite (fun _ => ?_) fun _ => safe_done _
  refine (safe_settleRevoked seen jobId attemptId inv).bind inv fun settled t _ inv _ => ?_
  refine safe_ite (fun _ => ?_) fun _ => safe_done _
  exact (safe_popAttempt _).bind inv fun _ _ _ inv _ => safe_offerHeads inv

theorem safe_follow {seen : Voice T} (seenInv : (fifo cfg).inv seen)
    (later : (fifo cfg).later seen s) (inv : (fifo cfg).inv s) (endpoint : Endpoint)
    (bound : BoundVoiceRoute) (job : VoiceJob T) (attemptId : String)
    (frame : List (String × Json T)) (kind : Inbound) :
    Safe (fifo cfg) (follow cfg seen endpoint bound job attemptId frame kind) s
      (fun _ _ => True) := by
  cases kind with
  | jobClaimed =>
    simp only [follow]
    split
    · exact safe_deny _ _ _ _ inv
    · rename_i attempt found
      have held := later _ _ _ (seenInv.2 attempt (Table.mem_of_get? found))
      have key : attempt.jobId = job.id := Table.key_of_get? found
      refine safe_ite (fun _ => ?_) fun _ => safe_deny _ _ _ _ inv
      refine (safe_call (.claim job.id attemptId) trivial ?_).bind inv fun _ t first _ _ => ?_
      · intro id token same
        cases same
        exact ⟨_, _, key ▸ held⟩
      · exact safe_put (first _ _ _ held)
  | jobClaimRenew =>
    simp only [follow]
    split
    · refine safe_ite (fun _ => ?_) fun _ => safe_plainCall _ trivial (by simp)
      exact (safe_sendRevoke _ _ inv).bind inv fun _ _ _ _ _ => safe_done _
    · exact safe_plainCall _ trivial (by simp)
  | jobDeliveryStart =>
    simp only [follow]
    have authorized : ∀ {t : Voice T}, (fifo cfg).inv t → Safe (fifo cfg)
        (sendJson (.route bound) (.jobDeliveryAuthorized job.id attemptId)) t
        (fun _ _ => True) := fun inv =>
      (safe_safeSend _ _).bind inv fun _ _ _ _ _ =>
        safe_ite (fun _ => safe_done _) fun _ => safe_raise _
    refine safe_ite (fun _ => safe_ite (fun _ => ?_) fun _ => authorized inv) fun _ => ?_
    · split
      · exact (safe_sendRevoke _ _ inv).bind inv fun _ _ _ _ _ => safe_done _
      · exact safe_done _
    · exact (safe_plainCall (.authorize job.id attemptId) trivial (by simp)).bind inv
        fun _ _ _ inv _ => authorized inv
  | jobPlaybackStarted => exact safe_plainCall _ trivial (by simp)
  | jobDelivered =>
    refine (safe_plainCall (.markDelivered job.id attemptId) trivial (by simp)).bind inv
      fun _ _ _ inv _ => ?_
    exact (safe_popAttempt _).bind inv fun _ _ _ inv _ => safe_offerHeads inv
  | jobNack =>
    refine (safe_plainCall (.nack job.id attemptId _) trivial (by simp)).bind inv
      fun _ _ _ inv _ => ?_
    refine Safe.bind (safe_memory (fun _ _ => rfl) fun _ _ inv _ attempt mem => ?_) inv
      fun _ _ _ inv _ => safe_offerHeads inv
    exact inv.2 attempt (Table.mem_remove.mp mem).1
  | jobRevoked => exact safe_done _

theorem safe_answer {seen : Voice T} (seenInv : (fifo cfg).inv seen)
    (later : (fifo cfg).later seen s) (inv : (fifo cfg).inv s) (endpoint : Endpoint)
    (kind : Inbound) (frame : List (String × Json T)) :
    Safe (fifo cfg) (answer cfg endpoint kind frame seen) s (fun _ _ => True) := by
  unfold answer
  split
  · refine safe_ite (fun _ => safe_handleRevokedAck _ _ _ _ inv) fun _ => ?_
    split
    · refine safe_ite (fun _ => ?_) fun _ => safe_deny _ _ _ _ inv
      exact safe_onTransitionError (safe_follow seenInv later inv _ _ _ _ _ _) inv
        fun _ inv => safe_deny _ _ _ _ inv
    · exact safe_deny _ _ _ _ inv
  · exact safe_deny _ _ _ _ inv

theorem safe_handle (inv : (fifo cfg).inv s) (endpoint : Endpoint)
    (frame : List (String × Json T)) :
    Safe (fifo cfg) (handle cfg endpoint frame) s (fun _ _ => True) := by
  unfold handle
  split
  · exact safe_raise _
  · exact safe_done _
  · refine safe_ite (fun _ => ?_) fun _ => safe_done _
    refine (safe_recoverAndOffer inv).bind inv fun _ _ _ inv _ => ?_
    refine safe_look.bind inv fun seen t _ inv read => ?_
    exact safe_answer read.1 read.2.2 inv _ _ _

theorem held_rebind (inv : (fifo cfg).inv s) (bound : BoundVoiceRoute) :
    ∀ attempt ∈ (rebind bound s).attempts.rows, Held s.registry.jobs attempt := by
  intro attempt mem
  obtain ⟨old, oldMem, rfl⟩ := List.mem_map.mp mem
  have held := inv.2 old (Table.mem_filter.mp oldMem).1
  split <;> exact held

theorem safe_routeConnected (inv : (fifo cfg).inv s) (endpoint : Endpoint) :
    Safe (fifo cfg) (routeConnected cfg endpoint) s (fun _ _ => True) := by
  refine Safe.bind (safe_step (Q := fun _ _ => True) fun t _ inv _ => ?_) inv
    fun current _ _ inv _ => safe_ite (fun _ => safe_recoverAndOffer inv) fun _ => safe_done _
  split
  · exact ⟨inv, (fifo cfg).refl t, fun _ _ _ => trivial⟩
  · rename_i bound _
    obtain ⟨keeps, promised⟩ := fifo_memory (t := rebind bound t) inv rfl (held_rebind inv bound)
    exact ⟨keeps, promised, fun _ _ _ => trivial⟩

theorem safe_routeDisconnected (endpoint : Endpoint) :
    Safe (fifo cfg) (routeDisconnected endpoint) s (fun _ _ => True) := by
  refine safe_memory (fun _ t => ?_) fun t _ inv _ attempt mem => ?_
  · split <;> rfl
  · split at mem
    · exact inv.2 attempt mem
    · exact inv.2 attempt (Table.mem_filter.mp mem).1

end Coordinator

section Runs
variable [Sub T] {cfg : DeliverySettings T}

def Reserved : Op T → Prop
  | .claim _ _ | .authorize _ _ | .markPlaying _ _ | .markDelivered _ _ | .nack _ _ _ => True
  | _ => False

/-- Other tasks leave the reserved calls alone, rows enter as their callers build them, and a
process that dies takes the lock holder with it. -/
def Allowed (l : Label (Outside T) (Turn T) (Tick T)) (c : Config (Tick T) (Voice T) Fault) :
    Prop :=
  match l with
  | .env (.jobs e) => ¬ Reserved e.op ∧ e.op ≠ .restart ∧ Enters e.op
  | .env (.restart _) => c.running = none
  | _ => True

abbrev Deployment (cfg : DeliverySettings T) := Runs (system cfg).step Allowed

def boot : Config (Tick T) (Voice T) Fault := ⟨.init, none⟩

theorem safe_program (turn : Turn T) (s : Voice T) (inv : (fifo cfg).inv s) :
    Safe (fifo cfg) ((system cfg).program turn) s (fun _ _ => True) := by
  cases turn with
  | sweep => exact safe_recoverAndOffer inv
  | connected endpoint => exact safe_routeConnected inv endpoint
  | disconnected endpoint => exact safe_routeDisconnected endpoint
  | frame endpoint fields => exact safe_handle inv endpoint fields

theorem fifo_outside {e : Outside T} {c : Config (Tick T) (Voice T) Fault}
    (allowed : Allowed (.env e) c) (inv : (fifo cfg).inv c.state) :
    (fifo cfg).inv (e.apply cfg c.state) ∧ (fifo cfg).later c.state (e.apply cfg c.state) := by
  cases e with
  | jobs event =>
    obtain ⟨free, -, enters⟩ := allowed
    refine fifo_exec inv enters (fun id attempt claim => ?_) rfl fun _ mem => mem
    rw [claim] at free
    exact absurd trivial free
  | restart call =>
    refine fifo_exec (e := ⟨call, .restart⟩) inv trivial (fun _ _ claim => by cases claim) rfl ?_
    intro attempt mem
    cases mem
  | register | touch | disconnect => exact fifo_memory inv rfl inv.2

theorem guarded_of_deployment {labels : List (Label (Outside T) (Turn T) (Tick T))}
    {c d : Config (Tick T) (Voice T) Fault} (run : Deployment cfg c labels d)
    (h : Guarded (fifo cfg) c) : Guarded (fifo cfg) d :=
  guarded_of_runs run h (fun _ _ allowed inv => fifo_outside allowed inv) safe_program

theorem guarded_boot : Guarded (fifo cfg) boot :=
  ⟨⟨queue_init, fun _ mem => by cases mem⟩, fun _ held => by cases held⟩

theorem Queue.leased_lt {r : Registry T} {jobs : Settings T} (h : Queue jobs r)
    {job other : VoiceJob T} (mem : job ∈ r.jobs.rows) (otherMem : other ∈ r.jobs.rows)
    (leased : job.deliveryState.isLeased = true) (live : other.deliveryState.isLive = true)
    (same : other.originDeviceId = job.originDeviceId) (ne : other ≠ job) :
    job.deliverySequence < other.deliverySequence := by
  have row := Table.get?_key mem
  obtain ⟨head, headRow, -, -, -, first⟩ := h.leased row leased
  obtain rfl : job = head := Option.some.inj (row.symm.trans headRow)
  refine first other (Table.get?_key otherMem) (fun key => ne ?_) live same
  exact Option.some.inj ((key ▸ Table.get?_key otherMem).symm.trans row)

/-- Whatever sweeps, sockets, frames, callers and restarts do, and in whatever order: a device
has at most one leased job, and that job has the smallest number of the device's live jobs. -/
theorem device_queue_fifo {labels : List (Label (Outside T) (Turn T) (Tick T))}
    {c : Config (Tick T) (Voice T) Fault} (run : Deployment cfg boot labels c)
    {job other : VoiceJob T} (mem : job ∈ c.state.registry.jobs.rows)
    (leased : job.deliveryState = .claimed ∨ job.deliveryState = .authorized ∨
      job.deliveryState = .playing)
    (otherMem : other ∈ c.state.registry.jobs.rows)
    (same : other.originDeviceId = job.originDeviceId) :
    ((other.deliveryState = .claimed ∨ other.deliveryState = .authorized ∨
        other.deliveryState = .playing) → other = job) ∧
      (other.deliveryState = .ready ∨ other.deliveryState = .claimed ∨
        other.deliveryState = .authorized ∨ other.deliveryState = .playing →
        job.deliverySequence ≤ other.deliverySequence) := by
  have queue := (guarded_of_deployment run guarded_boot).inv.1
  have held := DeliveryState.isLeased_iff.mpr leased
  refine ⟨fun otherLeased => ?_, fun live => ?_⟩
  · have otherHeld := DeliveryState.isLeased_iff.mpr otherLeased
    by_contra ne
    have before := queue.leased_lt mem otherMem held
      (DeliveryState.isLive_of_isLeased otherHeld) same ne
    have after := queue.leased_lt otherMem mem otherHeld
      (DeliveryState.isLive_of_isLeased held) same.symm (Ne.symm ne)
    omega
  · by_cases ne : other = job
    · rw [ne]
    · have isLive : other.deliveryState.isLive = true := by
        rcases live with state | state | state | state <;> rw [state] <;> rfl
      exact le_of_lt (queue.leased_lt mem otherMem held isLive same ne)

end Runs

section Sample

def plainDelivery : DeliverySettings Int where
  jobs := plainSettings
  routes := ⟨true, 60, fun _ => true⟩
  parkS := 30
  spokenText _ := ""

def spokenJob (id : String) : VoiceJob Int :=
  { plainJob id none with deliveryModality := some "audio" }

/-- The frame socket 7 registers `route` with. -/
def registration : List (String × Json Int) :=
  [("protocol", .int 3), ("route_id", .str "route"), ("agent_role", .str "butler"),
    ("capabilities", .arr (routeCapabilities.map .str))]

def deliveryFrame (kind : String) (protocol : Int) (jobId attemptId : String) :
    List (String × Json Int) :=
  [("type", .str kind), ("protocol", .int protocol), ("job_id", .str jobId),
    ("delivery_attempt_id", .str attemptId)]

def calls (ops : List (Op Int)) : List (Label (Outside Int) (Turn Int) (Tick Int)) :=
  ops.map fun op => .env (.jobs ⟨⟨0, true⟩, op⟩)

def advances (n : Nat) : List (Label (Outside Int) (Turn Int) (Tick Int)) :=
  List.replicate n (.advance ⟨⟨0, true⟩, 0, "attempt", true⟩)

def claimedLabels : List (Label (Outside Int) (Turn Int) (Tick Int)) :=
  .env (.register 0 0 0 7 registration) ::
    calls [.load, .create (spokenJob "first") none, .create (spokenJob "second") none,
      .finish "first" "done", .finish "second" "done"] ++
    .start .sweep :: advances 8 ++ .leave ::
    .start (.frame (.connection 7) (deliveryFrame "job_claimed" 2 "first" "attempt")) ::
    advances 12

theorem newlyBuilt_spokenJob (id : String) : NewlyBuilt (spokenJob id) :=
  ⟨rfl, rfl, rfl, rfl, rfl, rfl, rfl, rfl⟩

theorem claimed_deployment : Deployment plainDelivery boot claimedLabels
    ((system plainDelivery).run claimedLabels boot) := by
  refine Runs.foldl (fun l mem c => ?_) boot
  simp only [claimedLabels, calls, advances, List.mem_append, List.mem_cons, List.mem_map,
    List.mem_replicate, List.not_mem_nil, or_false] at mem
  rcases mem with ((rfl | ⟨op, rfl | rfl | rfl | rfl | rfl, rfl⟩) | rfl | ⟨-, rfl⟩) | rfl | rfl |
    ⟨-, rfl⟩ <;> simp [Allowed, Reserved, Enters, newlyBuilt_spokenJob]

/-- The claimed first answer is ahead of the waiting second one. -/
theorem claimed_answer_first :
    ∃ job ∈ ((system plainDelivery).run claimedLabels boot).state.registry.jobs.rows,
      ∃ other ∈ ((system plainDelivery).run claimedLabels boot).state.registry.jobs.rows,
        job.deliveryState = .claimed ∧ other.deliveryState = .ready ∧
          job.deliverySequence ≤ other.deliverySequence := by
  have first : (((system plainDelivery).run claimedLabels boot).state.registry.jobs.get?
      "first").map (fun job => (job.deliveryState, job.originDeviceId)) =
        some (.claimed, some "device") := by decide
  have second : (((system plainDelivery).run claimedLabels boot).state.registry.jobs.get?
      "second").map (fun job => (job.deliveryState, job.originDeviceId)) =
        some (.ready, some "device") := by decide
  obtain ⟨job, row, facts⟩ := Option.map_eq_some_iff.mp first
  obtain ⟨other, otherRow, otherFacts⟩ := Option.map_eq_some_iff.mp second
  rw [Prod.mk.injEq] at facts otherFacts
  have mem := Table.mem_of_get? row
  have otherMem := Table.mem_of_get? otherRow
  refine ⟨job, mem, other, otherMem, facts.1, otherFacts.1, ?_⟩
  exact (device_queue_fifo claimed_deployment mem (.inl facts.1) otherMem
    (otherFacts.2.trans facts.2.symm)).2 (.inl otherFacts.1)

end Sample

end Casa.VoiceQueue
