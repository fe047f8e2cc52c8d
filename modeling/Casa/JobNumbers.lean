import Casa.JobDurability
import Mathlib.Data.List.Pairwise

/-! Delivery numbers as an arrival order. The counter is not stored: it is the maximum
over the surviving rows after every commit and reload, so that it never falls back is
a theorem about which rows can disappear. -/

namespace Casa.JobNumbers
open PythonValue JobRecord KeyedTable FaultState StepRuns JobRegistry JobSnapshot JobEffects
open JobDurability

set_option linter.unusedSectionVars false

variable {T : Type} [LinearOrder T] [Add T] [IntCast T]
variable {cfg : Settings T} {call : Call T} {s t : Registry T} {op : Op T} {now : T}
  {counter : Int} {job job' : VoiceJob T} {id : String}

def Unnumbered (job : VoiceJob T) : Prop := job.deliverySequence = 0

/-- The operations that number a row: a terminal result, restart recovery, a prompted delivery. -/
def Numbers : Op T → Prop
  | .finish _ _ | .finishVoiceResult _ _ _ _ | .fail _ _ | .finishCompat _ _ | .failCompat _ _
  | .recoverAfterRestart | .createPromptedDelivery _ _ _ _ => True
  | _ => False

section Row

structure Numbered (job : VoiceJob T) : Prop where
  nonneg : 0 ≤ job.deliverySequence
  unnumbered : job.executionState.isActive = true → job.deliverySequence = 0

structure Assigns (counter : Int) (op : Op T) (job job' : VoiceJob T) : Prop where
  active : job.executionState.isActive = true
  terminal : job'.executionState.isActive = false
  ready : job'.deliveryState = .ready
  fresh : counter < job'.deliverySequence
  by_ : Numbers op

theorem terminalDelivery_cases (counter : Int) (job : VoiceJob T) :
    (terminalDelivery counter job).2 = job.deliverySequence ∨
      terminalDelivery counter job = (.ready, counter + 1) := by
  unfold terminalDelivery
  split
  · exact .inr rfl
  · exact .inl rfl

section
variable (active : job.executionState.isActive = true)
include active

theorem number_of_finishedRow {result : String} (numbers : Numbers op) :
    (finishedRow cfg counter now job result).deliverySequence = job.deliverySequence ∨
      Assigns counter op job (finishedRow cfg counter now job result) := by
  unfold finishedRow
  split
  · exact .inl rfl
  · rcases terminalDelivery_cases counter job with same | assigned
    · exact .inl same
    · simp only [assigned]
      exact .inr ⟨active, rfl, rfl, Int.lt_succ counter, numbers⟩

theorem number_of_voiceResultRow {result : String} {awaitingInput : Bool} {ttl : Int}
    (numbers : Numbers op) :
    (voiceResultRow cfg counter now job result awaitingInput ttl).deliverySequence =
        job.deliverySequence ∨
      Assigns counter op job (voiceResultRow cfg counter now job result awaitingInput ttl) := by
  unfold voiceResultRow
  split
  · exact .inl rfl
  · rcases terminalDelivery_cases counter job with same | assigned
    · exact .inl same
    · simp only [assigned]
      exact .inr ⟨active, rfl, rfl, Int.lt_succ counter, numbers⟩

theorem number_of_failedRow {cause : FailureCause} (numbers : Numbers op) :
    (failedRow cfg counter now job cause).deliverySequence = job.deliverySequence ∨
      Assigns counter op job (failedRow cfg counter now job cause) := by
  by_cases stopped : (cause.isCancellation || job.cancelPending) = true
  · exact .inl (by simp [failedRow, stopped])
  · rcases terminalDelivery_cases counter job with same | assigned
    · exact .inl (by simp [failedRow, stopped, same])
    · simp only [failedRow, stopped, assigned]
      exact .inr ⟨active, rfl, rfl, Int.lt_succ counter, numbers⟩

theorem number_of_orphanedRow {number : Int} (fresh : counter < number) :
    (orphanedRow cfg now job number).deliverySequence = job.deliverySequence ∨
      Assigns counter .recoverAfterRestart job (orphanedRow cfg now job number) := by
  by_cases target : deliverable job = true
  · refine .inr ⟨active, rfl, ?_, ?_, trivial⟩ <;> simp [orphanedRow, target, fresh]
  · exact .inl (by simp [orphanedRow, target])

end

theorem number_of_transition (step : Transition cfg now counter op job job') :
    job'.deliverySequence = job.deliverySequence ∨ Assigns counter op job job' := by
  cases step with
  | finish by_ active =>
    refine number_of_finishedRow active ?_
    rcases by_ with rfl | rfl <;> trivial
  | finishVoice active => exact number_of_voiceResultRow active trivial
  | fail by_ active =>
    refine number_of_failedRow active ?_
    rcases by_ with rfl | rfl <;> trivial
  | orphan active fresh => exact number_of_orphanedRow active fresh
  | _ => exact .inl rfl

theorem active_of_transition (step : Transition cfg now counter op job job')
    (busy : job'.executionState.isActive = true) : job.executionState.isActive = true := by
  cases step with
  | bind accepted =>
    rw [accepted]
    rfl
  | finish _ active | finishVoice active | fail _ active | cancel active | orphan active _ =>
    exact active
  | _ => exact busy

theorem numbered_of_transition (step : Transition cfg now counter op job job') (floor : 0 ≤ counter)
    (h : Numbered job) : Numbered job' := by
  rcases number_of_transition step with same | assigns
  · refine ⟨same ▸ h.nonneg, fun active => ?_⟩
    rw [same]
    exact h.unnumbered (active_of_transition step active)
  · refine ⟨by have := assigns.fresh; omega, fun active => ?_⟩
    simp [assigns.terminal] at active

end Row

section Table

def Apart (a b : VoiceJob T) : Prop :=
  a.deliverySequence = b.deliverySequence → a.deliverySequence = 0

theorem Apart.symm {a b : VoiceJob T} (h : Apart a b) : Apart b a := by
  intro same
  rw [same]
  exact h same.symm

instance : Std.Symm (@Apart T) := ⟨fun _ _ apart => apart.symm⟩

def Distinct (jobs : Jobs T) : Prop :=
  ∀ a ∈ jobs.rows, ∀ b ∈ jobs.rows, a ≠ b → Apart a b

theorem distinct_put {jobs : Jobs T} (h : Distinct jobs)
    (apart : ∀ row ∈ jobs.rows, row.id ≠ job.id → Apart job row) : Distinct (jobs.put job) := by
  intro a aMem b bMem ne
  rcases Table.mem_put.mp aMem with rfl | ⟨aOld, aKey⟩ <;>
    rcases Table.mem_put.mp bMem with rfl | ⟨bOld, bKey⟩
  · exact absurd rfl ne
  · exact apart b bOld bKey
  · exact (apart a aOld aKey).symm
  · exact h a aOld b bOld ne

theorem apart_of_zero (zero : job.deliverySequence = 0) (row : VoiceJob T) : Apart job row :=
  fun _ => zero

theorem apart_of_lt {row : VoiceJob T} (fresh : row.deliverySequence < job.deliverySequence) :
    Apart job row := by
  intro same
  omega

theorem distinct_put_transition {jobs : Jobs T} (h : Distinct jobs)
    (bound : ∀ row ∈ jobs.rows, row.deliverySequence ≤ counter)
    (row : jobs.get? job.id = some job) (step : Transition cfg now counter op job job') :
    Distinct (jobs.put job') := by
  refine distinct_put h fun other mem ne => ?_
  rcases number_of_transition step with same | assigns
  · have apart := h job (Table.mem_of_get? row) other mem fun eq => ne (by rw [← eq, step.id_eq])
    simpa only [Apart, same] using apart
  · exact apart_of_lt (lt_of_le_of_lt (bound other mem) assigns.fresh)

theorem distinct_revise {jobs : Jobs T} (h : Distinct jobs) {f : VoiceJob T → VoiceJob T}
    {same : ∀ job, (f job).id = job.id}
    (keeps : ∀ job, (f job).deliverySequence = job.deliverySequence) :
    Distinct (jobs.revise f same) := by
  intro a aMem b bMem ne
  obtain ⟨a, aOld, rfl⟩ := List.mem_map.mp aMem
  obtain ⟨b, bOld, rfl⟩ := List.mem_map.mp bMem
  have apart := h a aOld b bOld fun eq => ne (by rw [eq])
  simpa only [Apart, keeps] using apart

theorem distinct_remove {jobs : Jobs T} (h : Distinct jobs) : Distinct (jobs.remove id) :=
  fun a aMem b bMem ne =>
    h a (Table.mem_remove.mp aMem).1 b (Table.mem_remove.mp bMem).1 ne

theorem recoverRow_number (cfg : Settings T) (now : T) (next : Int) (job : VoiceJob T) :
    ((recoverRow cfg now job next).2.deliverySequence = job.deliverySequence ∧
        (recoverRow cfg now job next).1 = next) ∨
      ((recoverRow cfg now job next).2.deliverySequence = next + 1 ∧
        (recoverRow cfg now job next).1 = next + 1) := by
  unfold recoverRow orphanedRow
  split
  · dsimp only
    split
    · exact .inr ⟨rfl, rfl⟩
    · exact .inl ⟨rfl, rfl⟩
  split <;> exact .inl ⟨rfl, rfl⟩

theorem pairwise_recoverRows {rows : List (VoiceJob T)} {next : Int}
    (bound : ∀ row ∈ rows, row.deliverySequence ≤ counter) (above : counter ≤ next)
    (h : rows.Pairwise Apart) : (recoverRows cfg now next rows).Pairwise fun a b =>
      Apart a b ∧ (counter < b.deliverySequence → a.deliverySequence < b.deliverySequence) := by
  induction rows generalizing next with
  | nil => exact .nil
  | cons first rest ih =>
    rw [List.forall_mem_cons] at bound
    rw [List.pairwise_cons] at h
    have head := recoverRow_number cfg now next first
    refine List.pairwise_cons.mpr ⟨fun other mem => ?_, ih bound.2 (by omega) h.2⟩
    obtain ⟨row, rowMem, n, reached, rfl⟩ := mem_recoverRows mem
    have apart : Apart first row := h.1 row rowMem
    have low := bound.2 row rowMem
    have tail := recoverRow_number cfg now n row
    unfold Apart at apart ⊢
    constructor
    · intro same
      omega
    · intro fresh
      omega

theorem Distinct.pairwise {jobs : Jobs T} (h : Distinct jobs) : jobs.rows.Pairwise Apart :=
  (List.Nodup.of_map _ jobs.nodup).pairwise_of_forall_ne h

theorem distinct_recoverJobs {jobs : Jobs T} (h : Distinct jobs)
    (bound : ∀ row ∈ jobs.rows, row.deliverySequence ≤ counter) :
    Distinct (recoverJobs cfg now counter jobs) := by
  have apart : (recoverRows cfg now counter jobs.rows).Pairwise Apart :=
    (pairwise_recoverRows bound le_rfl h.pairwise).imp fun both => both.1
  intro a aMem b bMem ne
  exact apart.forall aMem bMem ne

end Table

section State

/-- Disk and memory agree, every row is well numbered and no number is shared. -/
structure Ordered (cfg : Settings T) (s : Registry T) : Prop where
  sync : Synced cfg s
  rows : ∀ {id : String} {job : VoiceJob T}, s.jobs.get? id = some job → Numbered job
  distinct : Distinct s.jobs

theorem Ordered.le_counter (h : Ordered cfg s) {job : VoiceJob T} (mem : job ∈ s.jobs.rows) :
    job.deliverySequence ≤ s.deliverySequence :=
  h.sync.counter_eq ▸ le_maxSequence mem

theorem Ordered.counter_nonneg (h : Ordered cfg s) : 0 ≤ s.deliverySequence := by
  rw [h.sync.counter_eq]
  by_cases empty : s.jobs.rows = []
  · simp [empty, maxSequence]
  · obtain ⟨job, mem, top⟩ := maxSequence_mem empty
    rw [top]
    exact (h.rows (Table.get?_key mem)).nonneg

theorem unnumbered_of_created (created : Created call s op job) (admits : Admits Unnumbered op) :
    job.deliverySequence = 0 ∨ (job.deliverySequence = s.deliverySequence + 1 ∧
      job.deliveryState = .ready ∧ job.executionState = .succeeded ∧ Numbers op) := by
  cases created with
  | create => exact .inl admits
  | continuation => exact .inl admits
  | prompted => exact .inr ⟨rfl, rfl, rfl, trivial⟩

theorem Ordered.numbered_exec (h : Ordered cfg s) {e : Event T} (admits : Admits Unnumbered e.op)
    (row : (exec cfg e s).jobs.get? id = some job') : Numbered job' := by
  have floor := h.counter_nonneg
  have step := exec_row h.sync e id
  rw [row] at step
  generalize before : s.jobs.get? id = old at step
  cases step with
  | created created =>
    rcases unnumbered_of_created created admits with zero | ⟨number, _, succeeded, _⟩
    · exact ⟨zero.ge, fun _ => zero⟩
    · refine ⟨by omega, fun active => ?_⟩
      simp [succeeded, ExecutionState.isActive, ExecutionState.isTerminal] at active
  | moved step => exact numbered_of_transition step floor (h.rows before)

theorem Ordered.distinct_candidate (h : Ordered cfg s) {jobs : Jobs T}
    {tasks : Table (Prod.fst : String × Nat → String)} (admits : Admits Unnumbered op)
    (candidate : Candidate cfg call s op jobs tasks) : Distinct jobs := by
  have bound : ∀ row ∈ s.jobs.rows, row.deliverySequence ≤ s.deliverySequence :=
    fun _ mem => h.le_counter mem
  have fresh : ∀ {jobs : Jobs T} {job : VoiceJob T}, Distinct jobs →
      (∀ row ∈ jobs.rows, row.deliverySequence ≤ s.deliverySequence) → Created call s op job →
      Distinct (jobs.put job) := by
    intro jobs job distinct bound created
    refine distinct_put distinct fun row mem _ => ?_
    rcases unnumbered_of_created created admits with zero | ⟨number, _⟩
    · exact apart_of_zero zero row
    · exact apart_of_lt (by have := bound row mem; omega)
  cases candidate with
  | insert created absent => exact fresh h.distinct bound created
  | @consume parent child actor limit row isOpen awaiting created absent =>
    have step : Transition cfg call.now s.deliverySequence
        (.createContinuation parent.id child actor limit) parent
        { parent with awaitingInput := false } := .consume isOpen awaiting
    refine fresh (distinct_put_transition h.distinct bound row step) (fun other mem => ?_) created
    rcases Table.mem_put.mp mem with rfl | ⟨old, _⟩
    · exact bound parent (Table.mem_of_get? row)
    · exact bound other old
  | @remove parent child actor row childRow ofParent accepted unbound =>
    split
    · rename_i restored
      rw [Bool.and_eq_true, Bool.not_eq_true'] at restored
      have apart := parent_ne_child row childRow restored.1 accepted
      have kept : (s.jobs.remove child.id).get? parent.id = some parent := by
        rw [Table.get?_remove, if_neg apart.symm, row]
      have step : Transition cfg call.now s.deliverySequence
          (.compensateUnboundContinuation parent.id child.id actor) parent
          { parent with awaitingInput := true } := .restore restored.1 restored.2
      exact distinct_put_transition (distinct_remove h.distinct)
        (fun row mem => bound row (Table.mem_remove.mp mem).1) kept step
    · exact distinct_remove h.distinct
  | move row step => exact distinct_put_transition h.distinct bound row step
  | @bind job task row accepted unbound =>
    have step : Transition cfg call.now s.deliverySequence (.bindTask job.id task) job
        (boundRow call.now job) := .bind accepted
    exact distinct_put_transition h.distinct bound row step
  | expire same => exact distinct_revise h.distinct fun job => by split <;> rfl
  | lapse same => exact distinct_revise h.distinct fun job => by split <;> rfl
  | recover => exact distinct_recoverJobs h.distinct bound

theorem Ordered.exec (h : Ordered cfg s) {e : Event T} (admits : Admits Unnumbered e.op) :
    Ordered cfg (exec cfg e s) := by
  refine ⟨synced_exec h.sync e, h.numbered_exec admits, ?_⟩
  obtain ⟨call, op⟩ := e
  generalize result : JobEffects.exec cfg ⟨call, op⟩ s = t
  have effect : Effect cfg call s op t := result ▸ exec_effect h.sync op
  cases effect with
  | unchanged => exact h.distinct
  | released => exact h.distinct
  | commit loaded candidate valid => exact h.distinct_candidate admits candidate
  | boot fresh => exact fun a mem => by simp [Registry.init, Table.empty] at mem
  | reload loaded =>
    have perm := sortedJobs_perm s.jobs.rows
    exact fun a aMem b bMem => h.distinct a (perm.mem_iff.mp aMem) b (perm.mem_iff.mp bMem)

theorem Ordered.number_exec (h : Ordered cfg s) (e : Event T) (row : s.jobs.get? id = some job)
    (numbered : job.deliverySequence ≠ 0) :
    ∃ job', (JobEffects.exec cfg e s).jobs.get? id = some job' ∧
      job'.deliverySequence = job.deliverySequence := by
  have step := exec_row h.sync e id
  rw [row] at step
  have idle := (h.rows row).unnumbered
  generalize (JobEffects.exec cfg e s).jobs.get? id = later at step
  cases step with
  | removed gone =>
    generalize e.op = op at gone
    cases gone with
    | compensated _ _ accepted _ => exact absurd (idle (by rw [accepted]; rfl)) numbered
  | moved step =>
    rcases number_of_transition step with same | assigns
    · exact ⟨_, rfl, same⟩
    · exact absurd (idle assigns.active) numbered

theorem Ordered.counter_le_exec (h : Ordered cfg s) {e : Event T}
    (admits : Admits Unnumbered e.op) :
    s.deliverySequence ≤ (JobEffects.exec cfg e s).deliverySequence := by
  have next := h.exec admits
  by_cases zero : s.deliverySequence = 0
  · exact zero ▸ next.counter_nonneg
  · have nonempty : s.jobs.rows ≠ [] := by
      intro empty
      rw [h.sync.counter_eq, empty] at zero
      exact zero rfl
    obtain ⟨job, mem, top⟩ := maxSequence_mem nonempty
    rw [← h.sync.counter_eq] at top
    obtain ⟨job', row', same⟩ := h.number_exec e (Table.get?_key mem) (top ▸ zero)
    rw [top, ← same]
    exact next.le_counter (Table.mem_of_get? row')

end State

section Runs

theorem ordered_of_history {events : List (Event T)} (h : Ordered cfg s)
    (run : History cfg Unnumbered s events t) : Ordered cfg t :=
  run.invariant (I := Ordered cfg) (fun _ _ admits h => h.exec admits) h

theorem ordered_init : Ordered cfg (.init : Registry T) :=
  ⟨.fresh, fun present => by simp [Registry.init] at present,
    fun a mem => by simp [Registry.init, Table.empty] at mem⟩

theorem counter_le_of_history {events : List (Event T)} (h : Ordered cfg s)
    (run : History cfg Unnumbered s events t) : s.deliverySequence ≤ t.deliverySequence :=
  run.relation (I := Ordered cfg) (R := fun s t => s.deliverySequence ≤ t.deliverySequence)
    (fun _ _ admits h => h.exec admits) (fun _ => le_rfl) (fun _ _ _ => le_trans)
    (fun _ _ admits h => h.counter_le_exec admits) h

theorem number_of_history {events : List (Event T)} (h : Ordered cfg s)
    (run : History cfg Unnumbered s events t) (row : s.jobs.get? id = some job)
    (numbered : job.deliverySequence ≠ 0) :
    ∃ job', t.jobs.get? id = some job' ∧ job'.deliverySequence = job.deliverySequence := by
  refine run.relation (I := Ordered cfg)
    (R := fun s t => ∀ job, s.jobs.get? id = some job → job.deliverySequence ≠ 0 →
      ∃ job', t.jobs.get? id = some job' ∧ job'.deliverySequence = job.deliverySequence)
    (fun _ _ admits h => h.exec admits) (fun _ job row _ => ⟨job, row, rfl⟩) ?_
    (fun e _ _ h job row numbered => h.number_exec e row numbered) h job row numbered
  intro s t u first second job row numbered
  obtain ⟨mid, midRow, same⟩ := first job row numbered
  obtain ⟨last, lastRow, same'⟩ := second mid midRow (same ▸ numbered)
  exact ⟨last, lastRow, same'.trans same⟩

def numberOf (s : Registry T) (id : String) : Int :=
  ((s.jobs.get? id).map (·.deliverySequence)).getD 0

/-- A number appears only on a row that had none, in a step that makes the row READY, and is
above the counter. -/
theorem assigned_above_counter (h : Ordered cfg s) {e : Event T} (admits : Admits Unnumbered e.op)
    (row : (exec cfg e s).jobs.get? id = some job')
    (changed : job'.deliverySequence ≠ numberOf s id) :
    numberOf s id = 0 ∧ job'.deliveryState = .ready ∧ Numbers e.op ∧
      s.deliverySequence < job'.deliverySequence := by
  have step := exec_row h.sync e id
  rw [row] at step
  unfold numberOf at changed ⊢
  generalize before : s.jobs.get? id = old at step changed ⊢
  cases step with
  | created created =>
    rcases unnumbered_of_created created admits with zero | ⟨number, ready, _, numbers⟩
    · exact absurd zero changed
    · exact ⟨rfl, ready, numbers, by omega⟩
  | moved step =>
    rcases number_of_transition step with same | assigns
    · exact absurd same changed
    · exact ⟨(h.rows before).unnumbered assigns.active, assigns.ready, assigns.by_, assigns.fresh⟩

/-- Delivery numbers are a total arrival order over whole runs, restarts included. -/
theorem delivery_numbers_arrival_order {past : List (Event T)}
    (run : History cfg Unnumbered .init past s) :
    (∀ a ∈ s.jobs.rows, ∀ b ∈ s.jobs.rows, a.id ≠ b.id → a.deliverySequence ≠ 0 →
      a.deliverySequence ≠ b.deliverySequence) ∧
    (∀ e : Event T, Admits Unnumbered e.op → ∀ id job',
      (exec cfg e s).jobs.get? id = some job' → job'.deliverySequence ≠ numberOf s id →
      numberOf s id = 0 ∧ job'.deliveryState = .ready ∧ Numbers e.op ∧
        ∀ earlier later u, History cfg Unnumbered .init earlier u →
          History cfg Unnumbered u later s → ∀ row ∈ u.jobs.rows,
          row.deliverySequence < job'.deliverySequence) ∧
    (∀ events t, History cfg Unnumbered s events t → ∀ id job, s.jobs.get? id = some job →
      job.deliverySequence ≠ 0 → ∃ job', t.jobs.get? id = some job' ∧
        job'.deliverySequence = job.deliverySequence) ∧
    (∀ now : T, (recoverRows cfg now s.deliverySequence s.jobs.rows).Pairwise fun a b =>
      s.deliverySequence < b.deliverySequence → a.deliverySequence < b.deliverySequence) := by
  have h := ordered_of_history ordered_init run
  refine ⟨fun a aMem b bMem ne numbered same => ?_, fun e admits id job' row changed => ?_,
    fun events t later id job row numbered => number_of_history h later row numbered,
    fun now => (pairwise_recoverRows (fun _ mem => h.le_counter mem) le_rfl
      h.distinct.pairwise).imp fun both => both.2⟩
  · exact numbered (h.distinct a aMem b bMem (fun eq => ne (by rw [eq])) same)
  · obtain ⟨zero, ready, numbers, above⟩ := assigned_above_counter h admits row changed
    refine ⟨zero, ready, numbers, fun earlier later u first second old mem => ?_⟩
    have ordered := ordered_of_history ordered_init first
    have low := ordered.le_counter mem
    have climbs := counter_le_of_history ordered second
    omega

theorem second_answer_numbered_later :
    ∃ job', (exec plainSettings ⟨⟨1, true⟩, .finish "second" "done"⟩ (plainRun [.load,
        .create (plainJob "first" none) none, .create (plainJob "second" none) none,
        .finish "first" "done"])).jobs.get? "second" = some job' ∧ job'.deliverySequence = 2 ∧
      ∀ row ∈ (plainRun [.load, .create (plainJob "first" none) none,
        .create (plainJob "second" none) none, .finish "first" "done"]).jobs.rows,
        row.deliverySequence < job'.deliverySequence := by
  have run : History plainSettings Unnumbered .init _ (plainRun [.load,
      .create (plainJob "first" none) none, .create (plainJob "second" none) none,
      .finish "first" "done"]) :=
    plain_history (by simp [Admits, Unnumbered, plainJob])
  obtain ⟨-, assigned, -, -⟩ := delivery_numbers_arrival_order run
  obtain ⟨-, -, -, above⟩ := assigned ⟨⟨1, true⟩, .finish "second" "done"⟩ trivial "second" _ rfl
    (by decide)
  exact ⟨_, rfl, by decide, above _ [] _ run (.nil _)⟩

end Runs

end Casa.JobNumbers
