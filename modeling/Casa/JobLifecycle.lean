import Casa.JobDurability
import Casa.JobEntry

/-! The life of one row: the fields that move together, what a finished or closed
row keeps for ever, and what becomes of an accepted cancellation. -/

namespace Casa.JobLifecycle
open PythonValue JobRecord KeyedTable FaultState StepRuns JobRegistry JobSnapshot JobEffects
open JobDurability JobEntry

set_option linter.unusedSectionVars false

variable {T : Type} [LinearOrder T] [Add T] [IntCast T]
variable {cfg : Settings T} {call : Call T} {s t : Registry T} {op : Op T} {now : T}
  {counter : Int} {job job' : VoiceJob T}

section Coherence

structure Coherent (job : VoiceJob T) : Prop where
  attempt_iff : job.deliveryAttemptId.isSome = true ↔ job.deliveryState.isLeased = true
  lease_iff : job.leaseUntil.isSome = true ↔ job.deliveryState.isLeased = true
  terminal_of_delivery : job.deliveryState ≠ .none → job.executionState.isTerminal = true
  terminalAt_iff : job.terminalAt.isSome = true ↔ job.executionState.isTerminal = true
  expiresAt_iff : job.expiresAt.isSome = true ↔ job.executionState.isTerminal = true

theorem coherent_of_newlyBuilt (h : NewlyBuilt job) : Coherent job := by
  have notTerminal : job.executionState.isTerminal = false := by
    simpa [ExecutionState.isActive] using h.active
  constructor <;> simp [h.undelivered, h.unclaimed, h.unleased, h.unfinished, h.unexpiring,
    notTerminal, DeliveryState.isLeased]

theorem Coherent.undelivered (h : Coherent job) (active : job.executionState.isActive = true) :
    job.deliveryState = .none := by
  by_contra delivered
  have terminal := h.terminal_of_delivery delivered
  simp [ExecutionState.isActive, terminal] at active

theorem coherent_promptedRow {parent child : VoiceJob T} (built : NewlyBuilt child)
    (h : Coherent parent) (available : resultAvailable now parent = true) :
    Coherent (promptedRow counter now parent child) := by
  have succeeded : parent.executionState = .succeeded := by
    simp only [resultAvailable, Bool.and_eq_true, beq_iff_eq] at available
    exact available.1.1.1.1.1
  have expires : parent.expiresAt.isSome = true := h.expiresAt_iff.mpr (by rw [succeeded]; rfl)
  have attempt : (inheritDeliveryModality parent child).deliveryAttemptId = none := by
    rw [← built.unclaimed, inheritDeliveryModality]
    split
    · rfl
    split <;> rfl
  have lease : (inheritDeliveryModality parent child).leaseUntil = none := by
    rw [← built.unleased, inheritDeliveryModality]
    split
    · rfl
    split <;> rfl
  constructor <;> simp [promptedRow, attempt, lease, expires, DeliveryState.isLeased,
    ExecutionState.isTerminal]

theorem coherent_of_terminal (terminal : job.executionState.isTerminal = true)
    (unleased : job.deliveryState.isLeased = false) (attempt : job.deliveryAttemptId = none)
    (lease : job.leaseUntil = none) (terminalAt : job.terminalAt.isSome = true)
    (expires : job.expiresAt.isSome = true) : Coherent job := by
  constructor <;> simp [terminal, unleased, attempt, lease, terminalAt, expires]

theorem Coherent.released (h : Coherent job) (terminal : job.executionState.isTerminal = true)
    {delivery : DeliveryState} (unleased : delivery.isLeased = false) :
    Coherent (releasedRow job delivery) :=
  coherent_of_terminal terminal unleased rfl rfl (h.terminalAt_iff.mpr terminal)
    (h.expiresAt_iff.mpr terminal)

theorem cancelledDelivery_unleased : (cancelledDelivery job).isLeased = false := by
  unfold cancelledDelivery
  split <;> rfl

theorem terminalDelivery_unleased : (terminalDelivery counter job).1.isLeased = false := by
  unfold terminalDelivery
  split <;> rfl

theorem coherent_finishedRow {result : String} :
    Coherent (finishedRow cfg counter now job result) := by
  unfold finishedRow
  split
  · exact coherent_of_terminal rfl cancelledDelivery_unleased rfl rfl rfl rfl
  · exact coherent_of_terminal rfl terminalDelivery_unleased rfl rfl rfl rfl

theorem coherent_voiceResultRow {result : String} {awaitingInput : Bool} {ttl : Int} :
    Coherent (voiceResultRow cfg counter now job result awaitingInput ttl) := by
  unfold voiceResultRow
  split
  · exact coherent_of_terminal rfl cancelledDelivery_unleased rfl rfl rfl rfl
  · exact coherent_of_terminal rfl terminalDelivery_unleased rfl rfl rfl rfl

theorem coherent_failedRow {cause : FailureCause} :
    Coherent (failedRow cfg counter now job cause) := by
  refine coherent_of_terminal ?_ ?_ rfl rfl rfl rfl <;> simp only [failedRow] <;> split
  · rfl
  · rfl
  · exact cancelledDelivery_unleased
  · exact terminalDelivery_unleased

theorem Coherent.terminal_of_leased (h : Coherent job)
    (leased : job.deliveryState.isLeased = true) : job.executionState.isTerminal = true := by
  apply h.terminal_of_delivery
  intro none_
  simp [none_, DeliveryState.isLeased] at leased

theorem coherent_of_transition (step : Transition cfg now counter op job job') (h : Coherent job) :
    Coherent job' := by
  have terminal : ∀ {state}, job.deliveryState = state → state ≠ .none →
      job.executionState.isTerminal = true := fun eq delivered =>
    h.terminal_of_delivery (eq ▸ delivered)
  cases step with
  | keep => exact h
  | consume | restore | handoffPending | handoffReceived | cancelPending | ackOrphan =>
    exact ⟨h.1, h.2, h.3, h.4, h.5⟩
  | bind accepted =>
    have undelivered := h.undelivered (by rw [accepted]; rfl)
    refine ⟨h.1, h.2, fun delivered => absurd undelivered delivered, ?_, ?_⟩
    · simpa [boundRow, accepted, ExecutionState.isTerminal] using h.terminalAt_iff
    · simpa [boundRow, accepted, ExecutionState.isTerminal] using h.expiresAt_iff
  | finish => exact coherent_finishedRow
  | finishVoice => exact coherent_voiceResultRow
  | fail => exact coherent_failedRow
  | cancel => exact coherent_of_terminal rfl cancelledDelivery_unleased rfl rfl rfl rfl
  | cancelDelivery queued =>
    refine h.released ?_ rfl
    rcases queued with ready | claimed
    · exact terminal ready (by decide)
    · exact terminal claimed (by decide)
  | claim ready =>
    have done := terminal ready (by decide)
    exact ⟨by simp [claimedRow, DeliveryState.isLeased],
      by simp [claimedRow, DeliveryState.isLeased], fun _ => done, h.4, h.5⟩
  | renew leased | extend leased => exact ⟨h.1, by simp [renewedRow, leased], h.3, h.4, h.5⟩
  | authorize claimed =>
    have done := terminal claimed (by decide)
    refine ⟨?_, ?_, fun _ => done, h.4, h.5⟩
    · simpa [claimed, DeliveryState.isLeased] using h.attempt_iff
    · simpa [claimed, DeliveryState.isLeased] using h.lease_iff
  | play authorized =>
    have done := terminal authorized (by decide)
    refine ⟨?_, ?_, fun _ => done, h.4, h.5⟩
    · simpa [authorized, DeliveryState.isLeased] using h.attempt_iff
    · simpa [authorized, DeliveryState.isLeased] using h.lease_iff
  | deliver held =>
    refine h.released ?_ rfl
    rcases held with claimed | playing
    · exact terminal claimed (by decide)
    · exact terminal playing (by decide)
  | nack held =>
    refine h.released ?_ (by split <;> rfl)
    rcases held with claimed | authorized
    · exact terminal claimed (by decide)
    · exact terminal authorized (by decide)
  | expire due =>
    refine h.released (h.expiresAt_iff.mp ?_) rfl
    simp only [resultDue, Bool.and_eq_true] at due
    exact Option.isSome_of_any due.1
  | lapse due =>
    simp only [leaseDue, Bool.and_eq_true] at due
    exact h.released (h.terminal_of_leased due.1) (by split <;> rfl)
  | orphan active fresh =>
    refine coherent_of_terminal rfl ?_ rfl rfl rfl rfl
    simp only [orphanedRow]
    split <;> rfl

theorem coherent_exec (h : Lawful cfg Coherent s) {e : Event T} (admits : Admits NewlyBuilt e.op) :
    Lawful cfg Coherent (exec cfg e s) :=
  Lawful.exec Coherent (fun _ built => coherent_of_newlyBuilt built)
    (fun _ _ _ _ built h available => coherent_promptedRow built h available)
    (fun _ _ _ _ _ step h => coherent_of_transition step h) h admits

theorem coherent_of_history {events : List (Event T)}
    (run : History cfg NewlyBuilt .init events s) : Lawful cfg Coherent s :=
  run.invariant (I := Lawful cfg Coherent) (fun _ _ admits h => coherent_exec h admits) lawful_init

/-- The lease, attempt, terminal and expiry fields agree with the two states in every
reachable registry. -/
theorem lease_and_terminal_fields_agree {events : List (Event T)}
    (run : History cfg NewlyBuilt .init events s) (mem : job ∈ s.jobs.rows) :
    ((job.deliveryState = .claimed ∨ job.deliveryState = .authorized ∨
        job.deliveryState = .playing) ↔ job.deliveryAttemptId ≠ none) ∧
      (job.deliveryAttemptId ≠ none ↔ job.leaseUntil ≠ none) ∧
      (job.deliveryState ≠ .none → job.executionState.isTerminal = true) ∧
      (job.terminalAt ≠ none ↔ job.executionState.isTerminal = true) ∧
      (job.expiresAt ≠ none ↔ job.executionState.isTerminal = true) := by
  have h := (coherent_of_history run).rows (Table.get?_key mem)
  simp only [← Option.isSome_iff_ne_none, ← DeliveryState.isLeased_iff]
  exact ⟨h.attempt_iff.symm, h.attempt_iff.trans h.lease_iff.symm, h.terminal_of_delivery,
    h.terminalAt_iff, h.expiresAt_iff⟩

def claimedOps : List (Op Int) :=
  [.load, .create (plainJob "job" none) (some 2), .finish "job" "done", .claim "job" "attempt"]

theorem newlyBuilt_plainJob (id : String) (parent : Option String) :
    NewlyBuilt (plainJob id parent) :=
  ⟨rfl, rfl, rfl, rfl, rfl, rfl, rfl, rfl⟩

theorem claimed_fields_agree :
    ∃ job, (plainRun claimedOps).jobs.get? "job" = some job ∧ job.deliveryState = .claimed ∧
      job.deliveryAttemptId ≠ none ∧ job.leaseUntil ≠ none ∧
      job.executionState.isTerminal = true := by
  have run : History plainSettings NewlyBuilt .init _ (plainRun claimedOps) :=
    plain_history (by simp [claimedOps, Admits, newlyBuilt_plainJob])
  have present : ((plainRun claimedOps).jobs.get? "job").map (·.deliveryState) = some .claimed := by
    decide
  obtain ⟨job, row, claimed⟩ := Option.map_eq_some_iff.mp present
  obtain ⟨attempt, lease, terminal, -, -⟩ :=
    lease_and_terminal_fields_agree run (Table.mem_of_get? row)
  have set := attempt.mp (.inl claimed)
  exact ⟨job, row, claimed, set, lease.mp set, terminal (by rw [claimed]; decide)⟩

end Coherence

section Permanence

inductive HandoffStep : HandoffState → HandoffState → Prop
  | offered : HandoffStep .none .pending
  | acknowledged : HandoffStep .pending .received

/-- What a row keeps when it becomes `job'`. -/
structure Keeps (job job' : VoiceJob T) : Prop where
  execution : job.executionState.isTerminal = true →
    job'.executionState = job.executionState ∧ job'.result = job.result ∧
      job'.failure = job.failure ∧ job'.terminalAt = job.terminalAt
  delivery : job.deliveryState.isClosed = true → job'.deliveryState = job.deliveryState
  handoffId : ∀ id, job.handoffId = some id → job'.handoffId = some id
  handoffState : Relation.ReflTransGen HandoffStep job.handoffState job'.handoffState

theorem Keeps.refl (job : VoiceJob T) : Keeps job job :=
  ⟨fun _ => ⟨rfl, rfl, rfl, rfl⟩, fun _ => rfl, fun _ h => h, .refl⟩

theorem Keeps.trans {a b c : VoiceJob T} (first : Keeps a b) (second : Keeps b c) : Keeps a c := by
  refine ⟨fun terminal => ?_, fun closed => ?_, fun id h => second.3 id (first.3 id h),
    first.4.trans second.4⟩
  · obtain ⟨state, result, failure, at_⟩ := first.execution terminal
    obtain ⟨state', result', failure', at'⟩ := second.execution (state ▸ terminal)
    exact ⟨state'.trans state, result'.trans result, failure'.trans failure, at'.trans at_⟩
  · have same := first.delivery closed
    exact (second.delivery (same ▸ closed)).trans same

theorem keeps_of_active (h : Coherent job) (active : job.executionState.isActive = true)
    (handoffId : job'.handoffId = job.handoffId)
    (handoffState : job'.handoffState = job.handoffState) : Keeps job job' := by
  refine ⟨fun terminal => ?_, fun closed => ?_, fun id set => handoffId.trans set,
    handoffState ▸ .refl⟩
  · simp [ExecutionState.isActive, terminal] at active
  · simp [h.undelivered active, DeliveryState.isClosed] at closed

theorem keeps_of_open (opened : job.deliveryState.isClosed = false)
    (executionState : job'.executionState = job.executionState)
    (result : job'.result = job.result) (failure : job'.failure = job.failure)
    (terminalAt : job'.terminalAt = job.terminalAt) (handoffId : job'.handoffId = job.handoffId)
    (handoffState : job'.handoffState = job.handoffState) : Keeps job job' := by
  refine ⟨fun _ => ⟨executionState, result, failure, terminalAt⟩, fun closed => ?_,
    fun id set => handoffId.trans set, handoffState ▸ .refl⟩
  simp [opened] at closed

theorem keeps_of_transition (step : Transition cfg now counter op job job') (h : Coherent job) :
    Keeps job job' := by
  have held : ∀ {a b : DeliveryState}, (job.deliveryState = a ∨ job.deliveryState = b) →
      a.isClosed = false → b.isClosed = false → job.deliveryState.isClosed = false := by
    rintro a b (rfl | rfl) first second
    · exact first
    · exact second
  cases step with
  | keep => exact .refl job
  | consume | restore | cancelPending | ackOrphan | renew | extend =>
    exact ⟨fun _ => ⟨rfl, rfl, rfl, rfl⟩, fun _ => rfl, fun _ set => set, .refl⟩
  | handoffPending same idle =>
    refine ⟨fun _ => ⟨rfl, rfl, rfl, rfl⟩, fun _ => rfl, fun id set => ?_, ?_⟩
    · rcases same with unset | same
      · simp [unset] at set
      · exact same ▸ set
    · rw [idle]
      exact .single .offered
  | handoffReceived same pending =>
    refine ⟨fun _ => ⟨rfl, rfl, rfl, rfl⟩, fun _ => rfl, fun _ set => set, ?_⟩
    rw [pending]
    exact .single .acknowledged
  | bind accepted => exact keeps_of_active h (by rw [accepted]; rfl) rfl rfl
  | finish _ active =>
    refine keeps_of_active h active ?_ ?_ <;> unfold finishedRow <;> split <;> rfl
  | finishVoice active =>
    refine keeps_of_active h active ?_ ?_ <;> unfold voiceResultRow <;> split <;> rfl
  | fail _ active | cancel active | orphan active fresh => exact keeps_of_active h active rfl rfl
  | cancelDelivery queued => exact keeps_of_open (held queued rfl rfl) rfl rfl rfl rfl rfl rfl
  | claim ready => exact keeps_of_open (by rw [ready]; rfl) rfl rfl rfl rfl rfl rfl
  | authorize claimed => exact keeps_of_open (by rw [claimed]; rfl) rfl rfl rfl rfl rfl rfl
  | play authorized => exact keeps_of_open (by rw [authorized]; rfl) rfl rfl rfl rfl rfl rfl
  | deliver at_ | nack at_ => exact keeps_of_open (held at_ rfl rfl) rfl rfl rfl rfl rfl rfl
  | expire due =>
    simp only [resultDue, Bool.and_eq_true, Bool.not_eq_true'] at due
    exact keeps_of_open due.2 rfl rfl rfl rfl rfl rfl
  | lapse due =>
    simp only [leaseDue, Bool.and_eq_true] at due
    have opened : job.deliveryState.isClosed = false := by
      cases state : job.deliveryState <;> simp_all [DeliveryState.isLeased, DeliveryState.isClosed]
    exact keeps_of_open opened rfl rfl rfl rfl rfl rfl

theorem row_exec (h : Lawful cfg Coherent s) (e : Event T) {id : String}
    (row : s.jobs.get? id = some job) :
    (∃ job', (exec cfg e s).jobs.get? id = some job' ∧ Keeps job job') ∨
      ((exec cfg e s).jobs.get? id = none ∧ Removed s e.op job) := by
  have step := exec_row h.sync e id
  rw [row] at step
  generalize after : (exec cfg e s).jobs.get? id = later at step
  cases step with
  | removed gone => exact .inr ⟨rfl, gone⟩
  | moved step => exact .inl ⟨_, rfl, keeps_of_transition step (h.rows row)⟩

theorem accepted_of_removed (h : Removed s op job) : job.executionState = .accepted := by
  cases h with
  | compensated _ _ accepted _ => exact accepted

theorem terminal_stays {events : List (Event T)} (h : Lawful cfg Coherent s)
    (run : History cfg NewlyBuilt s events t) {id : String} (row : s.jobs.get? id = some job)
    (terminal : job.executionState.isTerminal = true) :
    ∃ job', t.jobs.get? id = some job' ∧ Keeps job job' := by
  refine run.relation (I := Lawful cfg Coherent)
    (R := fun s t => ∀ job, s.jobs.get? id = some job → job.executionState.isTerminal = true →
      ∃ job', t.jobs.get? id = some job' ∧ Keeps job job')
    (fun _ _ admits h => coherent_exec h admits) (fun _ job row _ => ⟨job, row, .refl job⟩)
    ?_ ?_ h job row terminal
  · intro s t u first second job row terminal
    obtain ⟨mid, midRow, kept⟩ := first job row terminal
    obtain ⟨last, lastRow, kept'⟩ := second mid midRow ((kept.execution terminal).1 ▸ terminal)
    exact ⟨last, lastRow, kept.trans kept'⟩
  · intro e s _ h job row terminal
    rcases row_exec h e row with kept | ⟨_, gone⟩
    · exact kept
    · rw [accepted_of_removed gone] at terminal
      cases terminal

/-- Calls after which the row `id` is still there. -/
def Present (cfg : Settings T) (id : String) (e : Event T) (s : Registry T) : Prop :=
  Admits NewlyBuilt e.op ∧ (exec cfg e s).jobs.get? id ≠ none

theorem present_stays {events : List (Event T)} (h : Lawful cfg Coherent s) {id : String}
    (run : Runs (exec cfg) (Present cfg id) s events t) (row : s.jobs.get? id = some job) :
    ∃ job', t.jobs.get? id = some job' ∧ Keeps job job' := by
  refine run.relation (I := Lawful cfg Coherent)
    (R := fun s t => ∀ job, s.jobs.get? id = some job →
      ∃ job', t.jobs.get? id = some job' ∧ Keeps job job')
    (fun _ _ admits h => coherent_exec h admits.1) (fun _ job row => ⟨job, row, .refl job⟩)
    ?_ ?_ h job row
  · intro s t u first second job row
    obtain ⟨mid, midRow, kept⟩ := first job row
    obtain ⟨last, lastRow, kept'⟩ := second mid midRow
    exact ⟨last, lastRow, kept.trans kept'⟩
  · intro e s present h job row
    rcases row_exec h e row with kept | ⟨none_, _⟩
    · exact kept
    · exact absurd none_ present.2

/-- From every reachable registry on: terminal rows and closed deliveries stay as they are,
the handoff latch only advances, and only a compensation removes a row. -/
theorem settled_rows_stay {past : List (Event T)} (start : History cfg NewlyBuilt .init past s)
    {id : String} (row : s.jobs.get? id = some job) :
    (∀ events t, History cfg NewlyBuilt s events t → job.executionState.isTerminal = true →
      ∃ job', t.jobs.get? id = some job' ∧ job'.executionState = job.executionState ∧
        job'.result = job.result ∧ job'.failure = job.failure ∧
        job'.terminalAt = job.terminalAt) ∧
    (∀ events t, History cfg NewlyBuilt s events t → job.deliveryState.isClosed = true →
      ∃ job', t.jobs.get? id = some job' ∧ job'.deliveryState = job.deliveryState) ∧
    (∀ events t, Runs (exec cfg) (Present cfg id) s events t →
      ∃ job', t.jobs.get? id = some job' ∧
        (∀ handoff, job.handoffId = some handoff → job'.handoffId = some handoff) ∧
        Relation.ReflTransGen HandoffStep job.handoffState job'.handoffState) ∧
    (∀ e : Event T, (exec cfg e s).jobs.get? id = none →
      (∃ parent actor, e.op = .compensateUnboundContinuation parent id actor ∧
        job.parentJobId = some parent) ∧
      job.executionState = .accepted ∧ s.tasks.get? id = none) := by
  have h := coherent_of_history start
  refine ⟨fun events t run terminal => ?_, fun events t run closed => ?_,
    fun events t run => ?_, fun e gone => ?_⟩
  · obtain ⟨job', row', kept⟩ := terminal_stays h run row terminal
    exact ⟨job', row', kept.execution terminal⟩
  · have delivered : job.deliveryState ≠ .none := by
      intro none_
      simp [none_, DeliveryState.isClosed] at closed
    obtain ⟨job', row', kept⟩ :=
      terminal_stays h run row ((h.rows row).terminal_of_delivery delivered)
    exact ⟨job', row', kept.delivery closed⟩
  · obtain ⟨job', row', kept⟩ := present_stays h run row
    exact ⟨job', row', kept.handoffId, kept.handoffState⟩
  · obtain rfl : job.id = id := Table.key_of_get? row
    rcases row_exec h e row with ⟨job', row', _⟩ | ⟨_, removed⟩
    · simp [gone] at row'
    · generalize e.op = op at removed
      cases removed with
      | @compensated parent _ actor _ ofParent accepted unbound =>
        exact ⟨⟨parent.id, actor, rfl, ofParent⟩, accepted, unbound⟩

theorem finished_result_stays :
    ∃ job, (plainRun claimedOps).jobs.get? "job" = some job ∧ job.result = some "done" ∧
      ∃ job', (exec plainSettings ⟨⟨90000, true⟩, .expireDue⟩ (plainRun claimedOps)).jobs.get?
          "job" = some job' ∧ job'.deliveryState = .expired ∧ job'.result = some "done" := by
  have run : History plainSettings NewlyBuilt .init _ (plainRun claimedOps) :=
    plain_history (by simp [claimedOps, Admits, newlyBuilt_plainJob])
  have present : ((plainRun claimedOps).jobs.get? "job").map
      (fun job => (job.result, job.executionState)) = some (some "done", .succeeded) := by
    decide
  obtain ⟨job, row, fields⟩ := Option.map_eq_some_iff.mp present
  obtain ⟨result, state⟩ := Prod.mk.inj fields
  obtain ⟨kept, -, -, -⟩ := settled_rows_stay run row
  obtain ⟨job', row', -, result', -, -⟩ := kept [⟨⟨90000, true⟩, .expireDue⟩] _
    (.cons trivial (.nil _)) (by rw [state]; rfl)
  have expired : ((exec plainSettings ⟨⟨90000, true⟩, .expireDue⟩ (plainRun claimedOps)).jobs.get?
      "job").map (·.deliveryState) = some .expired := by
    decide
  rw [row', Option.map_some, Option.some.injEq] at expired
  exact ⟨job, row, result, job', row', expired, result'.trans result⟩

end Permanence

section Ownership
variable {actor : Actor} {id : String}

/-- The operations that the actor asks for on the row `id`. -/
def ActsOn (actor : Actor) (id : String) : Op T → Prop
  | .createContinuation parent _ a _ => a = actor ∧ parent = id
  | .compensateUnboundContinuation parent child a => a = actor ∧ (parent = id ∨ child = id)
  | .createPromptedDelivery parent _ a _ => a = actor ∧ parent = id
  | .requestCancel target a => a = actor ∧ target = id
  | _ => False

theorem owns_of_transition (step : Transition cfg now counter op job job') :
    owns actor job' = owns actor job := by
  cases step <;> first | rfl | skip
  all_goals simp only [finishedRow, voiceResultRow]
  all_goals split <;> rfl

theorem refused (row : s.jobs.get? id = some job) (stranger : owns actor job = false)
    (acts : ActsOn actor id op) : exec cfg ⟨call, op⟩ s = s := by
  have own {other : VoiceJob T} (found : s.jobs.get? other.id = some other)
      (same : other.id = id) : ¬ owns actor other = true := by
    rw [same, row] at found
    rw [← Option.some.inj found, stranger]
    decide
  -- Every check before the one of the actor leaves the registry alone too.
  have checked (target : String) {α : Type} {f : VoiceJob T → RegistryM T α}
      (rest : ∀ job, s.jobs.get? job.id = some job → job.id = target →
        Ends (f job) s (fun _ t => t = s) (fun _ t => t = s)) :
      Ends (requireJob target >>= f) s (fun _ t => t = s) (fun _ t => t = s) := by
    rw [ends_bind]
    exact requireJob_ends (fun job _ => rest job) fun _ => rfl
  have denied {α : Type} {rest : VoiceJob T → PUnit → RegistryM T α} :
      Ends (requireJob id >>= fun job => authorizeActor job actor >>= rest job) s
        (fun _ t => t = s) (fun _ t => t = s) :=
    checked id fun job found same => by simp [authorizeActor, own found same]
  refine Ends.after (P := (· = s)) ?_
  cases op with
  | createContinuation parent child a limit =>
    obtain ⟨rfl, rfl⟩ := acts
    exact ends_discard.mpr denied
  | compensateUnboundContinuation parent child a =>
    obtain ⟨rfl, target⟩ := acts
    refine ends_discard.mpr (checked _ fun job found same => ?_)
    simp only [authorizeActor, ends_bind, ends_require, ends_get, implies_true, and_true]
    intro ours
    obtain rfl : child = id := target.resolve_left fun here => own found (same.trans here) ours
    simp [row, stranger]
  | createPromptedDelivery parent child a limit =>
    obtain ⟨rfl, rfl⟩ := acts
    exact ends_discard.mpr denied
  | requestCancel target a =>
    obtain ⟨rfl, rfl⟩ := acts
    exact ends_discard.mpr denied
  | _ => cases acts

/-- Whoever does not own a row is refused on it as long as it is there, whatever the others do. -/
theorem strangers_stay_refused {past events : List (Event T)}
    (start : Runs (exec cfg) (fun _ _ => True) .init past s) (row : s.jobs.get? id = some job)
    (run : Runs (exec cfg) (fun e s => (exec cfg e s).jobs.get? id ≠ none) s events t) :
    ∃ job', t.jobs.get? id = some job' ∧ (∀ actor, owns actor job' = owns actor job) ∧
      ∀ actor op call, owns actor job = false → ActsOn actor id op →
        exec cfg ⟨call, op⟩ t = t := by
  have sync : Synced cfg s :=
    start.invariant (I := Synced cfg) (fun e _ _ h => synced_exec h e) .fresh
  obtain ⟨job', row', same⟩ := run.relation (I := Synced cfg)
    (R := fun s t => ∀ job, s.jobs.get? id = some job →
      ∃ job', t.jobs.get? id = some job' ∧ ∀ actor, owns actor job' = owns actor job)
    (fun e _ _ h => synced_exec h e) (fun _ job row => ⟨job, row, fun _ => rfl⟩)
    (fun s t u first second job row => by
      obtain ⟨mid, midRow, same⟩ := first job row
      obtain ⟨last, lastRow, same'⟩ := second mid midRow
      exact ⟨last, lastRow, fun actor => (same' actor).trans (same actor)⟩)
    (fun e s present sync job row => by
      have step := exec_row sync e id
      rw [row] at step
      generalize after : (exec cfg e s).jobs.get? id = later at step
      cases step with
      | removed => exact absurd after present
      | moved step => exact ⟨_, rfl, fun _ => owns_of_transition step⟩) sync job row
  exact ⟨job', row', same, fun actor op call stranger acts =>
    refused row' ((same actor).trans stranger) acts⟩

theorem outsider_refused : ∃ job, (plainRun claimedOps).jobs.get? "job" = some job ∧
    exec plainSettings ⟨⟨0, true⟩, .requestCancel "job" fun _ => none⟩ (plainRun claimedOps) =
      plainRun claimedOps := by
  have present : ((plainRun claimedOps).jobs.get? "job").map (owns fun _ => none) = some false := by
    decide
  obtain ⟨job, row, outside⟩ := Option.map_eq_some_iff.mp present
  obtain ⟨job', row', same, refused⟩ :=
    strangers_stay_refused (Runs.foldl (fun _ _ _ => trivial) _) row (.nil _)
  exact ⟨job', row', refused _ _ _ ((same _).trans outside) ⟨rfl, rfl⟩⟩

end Ownership

end Casa.JobLifecycle
