import Casa.JobDurability

/-! A clarification is answered at most once. Consuming it and giving it back are two
operations with arbitrary others between them; the ledger below remembers which rows a
continuation created, which the registry itself does not. -/

namespace Casa.JobContinuation
open PythonValue JobRecord KeyedTable FaultState StepRuns JobRegistry JobSnapshot JobEffects
open JobDurability

set_option linter.unusedSectionVars false

variable {T : Type} [LinearOrder T] [Add T] [IntCast T]
variable {cfg : Settings T} {call : Call T} {s t : Registry T} {op : Op T} {now : T}
  {counter : Int} {job job' : VoiceJob T} {actor : Actor} {limit : Option Int}

section Operations

/-- The table after a continuation: the parent's question is consumed and the child is stored. -/
def consumedJobs (jobs : Jobs T) (parent child : VoiceJob T) : Jobs T :=
  (jobs.put { parent with awaitingInput := false }).put child

def restoredJobs (jobs : Jobs T) (parent : VoiceJob T) (childId : String) (restore : Bool) :
    Jobs T :=
  if restore then (jobs.remove childId).put { parent with awaitingInput := true }
  else jobs.remove childId

structure Consumes (now : T) (s : Registry T) (parent child : VoiceJob T) : Prop where
  row : s.jobs.get? parent.id = some parent
  isOpen : clarificationOpen now parent = true
  awaiting : parent.awaitingInput = true
  absent : s.jobs.get? child.id = none
  ofParent : child.parentJobId = some parent.id

theorem createContinuation_ends (parentId : String) (child : VoiceJob T) :
    Ends (createContinuation cfg call parentId child actor limit) s
      (fun _ t => ∃ parent, parent.id = parentId ∧ Consumes call.now s parent child ∧
        t = committed s (consumedJobs s.jobs parent child) s.tasks) (fun _ t => t = s) := by
  simp only [createContinuation, authorizeActor, requireAbsent, ends_bind, ends_get, ends_require,
    ends_pure]
  refine requireJob_ends ?_ (fun _ => rfl)
  rintro parent _ row rfl
  simp only [implies_true, and_true]
  rintro _ _ _ absent ofParent _
  refine requireRouteCapacity_ends (fun _ => ?_) (fun _ => rfl)
  simp only [implies_true, and_true]
  rintro _ ⟨isOpen, awaiting⟩
  exact commitSnapshot_ends
    (fun _ => ⟨parent, rfl, ⟨row, isOpen, awaiting, absent, ofParent⟩, rfl⟩) (fun _ => rfl)

structure Compensates (s : Registry T) (parent child : VoiceJob T) : Prop where
  row : s.jobs.get? parent.id = some parent
  childRow : s.jobs.get? child.id = some child
  ofParent : child.parentJobId = some parent.id
  accepted : child.executionState = .accepted

theorem compensate_ends (parentId childId : String) :
    Ends (compensateUnboundContinuation cfg call parentId childId actor) s
      (fun restored t => t = s ∨ ∃ parent child, parent.id = parentId ∧ child.id = childId ∧
        Compensates s parent child ∧
        restored = (clarificationOpen call.now parent && !parent.awaitingInput) ∧
        t = committed s (restoredJobs s.jobs parent child.id restored) s.tasks)
      (fun _ t => t = s) := by
  simp only [compensateUnboundContinuation, authorizeActor, ends_bind, ends_get, ends_require]
  refine requireJob_ends ?_ (fun _ => rfl)
  rintro parent _ row rfl
  simp only [implies_true, and_true]
  rintro _
  cases childRow : s.jobs.get? childId with
  | none => exact .inl rfl
  | some child =>
    obtain rfl : child.id = childId := Table.key_of_get? childRow
    simp only [ends_bind, ends_require, implies_true, and_true]
    intro _ ofParent
    rw [ends_ite]
    refine ⟨fun _ => .inl rfl, fun bound => ?_⟩
    simp only [not_or, ne_eq, not_not, Option.not_isSome_iff_eq_none] at bound
    simp only [ends_bind, ends_pure]
    exact commitSnapshot_ends (fun _ => .inr ⟨parent, child, rfl, rfl,
      ⟨row, childRow, ofParent, bound.1⟩, rfl, rfl⟩) (fun _ => rfl)

theorem Consumes.apart {parent child : VoiceJob T} (h : Consumes now s parent child) :
    parent.id ≠ child.id := by
  intro same
  have clash : s.jobs.get? child.id = some parent := same ▸ h.row
  simp [h.absent] at clash

theorem get?_consumedJobs {parent child : VoiceJob T} (id : String) :
    (consumedJobs s.jobs parent child).get? id =
      if child.id = id then some child
      else if parent.id = id then some { parent with awaitingInput := false }
      else s.jobs.get? id := by
  simp only [consumedJobs, Table.get?_put]

theorem get?_restoredJobs_of_ne {parent : VoiceJob T} {childId id : String} {restore : Bool}
    (child : childId ≠ id) (other : parent.id ≠ id) :
    (restoredJobs s.jobs parent childId restore).get? id = s.jobs.get? id := by
  unfold restoredJobs
  split
  · rw [Table.get?_put, if_neg other, Table.get?_remove, if_neg child]
  · rw [Table.get?_remove, if_neg child]

end Operations

section Undo

theorem restoredJobs_consumedJobs {parent child : VoiceJob T} (h : Consumes now s parent child) :
    restoredJobs (consumedJobs s.jobs parent child) { parent with awaitingInput := false }
      child.id true = s.jobs := by
  have absent : (s.jobs.put { parent with awaitingInput := false }).get? child.id = none := by
    rw [Table.get?_put, if_neg h.apart, h.absent]
  have same : { parent with awaitingInput := true } = parent := by rw [← h.awaiting]
  have overwritten : (s.jobs.put { parent with awaitingInput := false }).put parent =
      s.jobs.put parent := Table.put_put rfl
  simp only [restoredJobs, if_true, consumedJobs, same]
  rw [Table.remove_put absent, overwritten, Table.put_self h.row]

theorem committed_self (sync : Synced cfg s) (loaded : s.loaded = true) :
    committed s s.jobs s.tasks = s := by
  cases sync with
  | fresh => cases loaded
  | loaded _ _ disk counter =>
    simp only [committed, ← disk, ← counter]

/-- A compensation that removes the child while the parent is fresh and unchanged gives the
parent back as it was; if nothing else happened in between, the whole registry. -/
theorem undone_by_compensation {u v : Registry T} {call' : Call T} {actor' : Actor}
    {parentId : String} {child row : VoiceJob T} {restored : Bool} (sync : Synced cfg s)
    (created : (createContinuation cfg call parentId child actor limit).run s = .ok row t)
    (same : u.jobs.get? parentId = t.jobs.get? parentId)
    (fresh : (u.jobs.get? parentId).all (clarificationOpen call'.now) = true)
    (present : u.jobs.get? child.id ≠ none)
    (undone : (compensateUnboundContinuation cfg call' parentId child.id actor').run u =
      .ok restored v) (removed : v.jobs.get? child.id = none) :
    restored = true ∧ v.jobs.get? parentId = s.jobs.get? parentId ∧
      (∀ id, id ≠ parentId → id ≠ child.id → v.jobs.get? id = u.jobs.get? id) ∧
      (u.jobs = t.jobs → v.jobs = s.jobs ∧ v.disk = s.disk ∧
        v.deliverySequence = s.deliverySequence) ∧ (u = t → v = s) := by
  obtain ⟨parent, rfl, consumes, rfl⟩ := (createContinuation_ends parentId child).ok created
  rw [show (committed s (consumedJobs s.jobs parent child) s.tasks).jobs =
    consumedJobs s.jobs parent child from rfl] at same
  rw [get?_consumedJobs, if_neg consumes.apart.symm, if_pos rfl] at same
  rcases (compensate_ends parent.id child.id).ok undone with rfl | ⟨found, gone, foundId, goneId,
    compensates, restoredEq, rfl⟩
  · exact absurd removed present
  obtain rfl : found = { parent with awaitingInput := false } := by
    have row := compensates.row
    rw [foundId, same, Option.some.injEq] at row
    exact row.symm
  have isOpen : clarificationOpen call'.now { parent with awaitingInput := false } = true := by
    rw [same] at fresh
    exact fresh
  obtain rfl : restored = true := by rw [restoredEq, isOpen]; rfl
  have given : { parent with awaitingInput := true } = parent := by rw [← consumes.awaiting]
  have loaded : s.loaded = true := Synced.loaded_of_mem sync (Table.mem_of_get? consumes.row)
  have whole : u.jobs = consumedJobs s.jobs parent child →
      restoredJobs u.jobs { parent with awaitingInput := false } gone.id true = s.jobs := by
    intro unchanged
    rw [unchanged, goneId]
    exact restoredJobs_consumedJobs consumes
  refine ⟨rfl, ?_, fun id notParent notChild => ?_, fun unchanged => ?_, ?_⟩
  · simp only [committed, restoredJobs, if_true, given]
    rw [Table.get?_put_self, consumes.row]
  · exact get?_restoredJobs_of_ne (goneId ▸ notChild.symm) (Ne.symm notParent)
  · have jobs := whole unchanged
    have before := committed_self sync loaded
    simp only [committed, jobs]
    exact ⟨trivial, congrArg Registry.disk before, congrArg Registry.deliverySequence before⟩
  · rintro rfl
    have jobs := whole rfl
    rw [jobs]
    exact committed_self sync loaded

end Undo

section Ledger

/-- The registry together with the ids of the rows a continuation created and no
compensation removed. -/
structure Ledger (T : Type) where
  registry : Registry T
  children : List String

def newChildren (s : Registry T) : Op T → List String
  | .createContinuation _ child _ _ => if (s.jobs.get? child.id).isNone then [child.id] else []
  | _ => []

def Ledger.step (cfg : Settings T) (e : Event T) (l : Ledger T) : Ledger T :=
  let t := exec cfg e l.registry
  ⟨t, (newChildren l.registry e.op ++ l.children).filter fun id => (t.jobs.get? id).isSome⟩

def RootCreates : Op T → Prop
  | .create job _ => job.parentJobId = none
  | _ => True

def Ledger.childrenOf (l : Ledger T) (parentId : String) : Nat :=
  l.children.countP fun id => (l.registry.jobs.get? id).any (·.parentJobId == some parentId)

def Ledger.awaiting (l : Ledger T) (parentId : String) : Bool :=
  (l.registry.jobs.get? parentId).any (·.awaitingInput)

/-- `parentId` has given its one answer away. -/
def Spent (s : Registry T) (parentId : String) : Prop :=
  ∃ parent, s.jobs.get? parentId = some parent ∧ parent.executionState = .succeeded ∧
    parent.awaitingInput = false

/-- Every recorded child has a spent parent of its own, and every row that could still be
compensated is recorded. -/
structure Balanced (cfg : Settings T) (l : Ledger T) : Prop where
  sync : Synced cfg l.registry
  nodup : l.children.Nodup
  spent : ∀ id ∈ l.children, ∃ child parentId, l.registry.jobs.get? id = some child ∧
    child.parentJobId = some parentId ∧ Spent l.registry parentId
  unique : ∀ a ∈ l.children, ∀ b ∈ l.children, ∀ {ca cb parentId},
    l.registry.jobs.get? a = some ca → l.registry.jobs.get? b = some cb →
    ca.parentJobId = some parentId → cb.parentJobId = some parentId → a = b
  recorded : ∀ {id child parentId}, l.registry.jobs.get? id = some child →
    child.executionState = .accepted → child.parentJobId = some parentId → id ∈ l.children

theorem parentJobId_of_transition (step : Transition cfg now counter op job job') :
    job'.parentJobId = job.parentJobId := by
  cases step with
  | finish => unfold finishedRow; split <;> rfl
  | finishVoice => unfold voiceResultRow; split <;> rfl
  | _ => rfl

theorem accepted_of_transition (step : Transition cfg now counter op job job')
    (accepted : job'.executionState = .accepted) : job.executionState = .accepted := by
  cases step with
  | bind | cancel | orphan => cases accepted
  | finish =>
    unfold finishedRow at accepted
    split at accepted <;> cases accepted
  | finishVoice =>
    unfold voiceResultRow at accepted
    split at accepted <;> cases accepted
  | fail =>
    simp only [failedRow] at accepted
    split at accepted <;> cases accepted
  | _ => exact accepted

theorem spent_of_transition (step : Transition cfg now counter op job job')
    (succeeded : job.executionState = .succeeded) (idle : job.awaitingInput = false)
    (other : ∀ parentId childId actor, op ≠ .compensateUnboundContinuation parentId childId actor) :
    job'.executionState = .succeeded ∧ job'.awaitingInput = false := by
  have passive : ¬ job.executionState.isActive = true := by rw [succeeded]; decide
  cases step with
  | restore => exact absurd rfl (other _ _ _)
  | consume => exact ⟨succeeded, rfl⟩
  | bind accepted =>
    rw [accepted] at succeeded
    cases succeeded
  | finish _ active | finishVoice active | fail _ active | cancel active | orphan active _ =>
    exact absurd active passive
  | _ => exact ⟨succeeded, idle⟩

/-- The row under `id` is an old one: same parent, and newly accepted only if it was. -/
def Kin (s t : Registry T) (id : String) : Prop :=
  ∀ job', t.jobs.get? id = some job' → ∃ job, s.jobs.get? id = some job ∧
    job'.parentJobId = job.parentJobId ∧
    (job'.executionState = .accepted → job.executionState = .accepted)

theorem Balanced.unique_of_kin {l : Ledger T} (h : Balanced cfg l) {a b : String}
    (aMem : a ∈ l.children) (bMem : b ∈ l.children) (aKin : Kin l.registry t a)
    (bKin : Kin l.registry t b) {ca cb : VoiceJob T} {parentId : String}
    (aRow : t.jobs.get? a = some ca) (bRow : t.jobs.get? b = some cb)
    (aParent : ca.parentJobId = some parentId) (bParent : cb.parentJobId = some parentId) :
    a = b := by
  obtain ⟨_, aOld, aSame, _⟩ := aKin ca aRow
  obtain ⟨_, bOld, bSame, _⟩ := bKin cb bRow
  exact h.unique a aMem b bMem aOld bOld (aSame ▸ aParent) (bSame ▸ bParent)

theorem Balanced.spent_of_kin {l : Ledger T} (h : Balanced cfg l) {id : String}
    (mem : id ∈ l.children) (kin : Kin l.registry t id) (present : (t.jobs.get? id).isSome = true)
    (stays : ∀ child parentId, l.registry.jobs.get? id = some child →
      child.parentJobId = some parentId → Spent l.registry parentId → Spent t parentId) :
    ∃ child parentId, t.jobs.get? id = some child ∧ child.parentJobId = some parentId ∧
      Spent t parentId := by
  obtain ⟨child, parentId, row, ofParent, spent⟩ := h.spent id mem
  obtain ⟨child', row'⟩ := Option.isSome_iff_exists.mp present
  obtain ⟨old, oldRow, same, _⟩ := kin child' row'
  obtain rfl : old = child := Option.some.inj (oldRow.symm.trans row)
  exact ⟨child', parentId, row', same.trans ofParent, stays old parentId row ofParent spent⟩

theorem Balanced.shrink {l : Ledger T} (h : Balanced cfg l) (sync : Synced cfg t)
    (kin : ∀ id, Kin l.registry t id ∨ ∀ job', t.jobs.get? id = some job' →
      job'.executionState = .accepted → job'.parentJobId = none)
    (kept : ∀ id ∈ l.children, Kin l.registry t id)
    (stays : ∀ id ∈ l.children, (t.jobs.get? id).isSome = true → ∀ child parentId,
      l.registry.jobs.get? id = some child → child.parentJobId = some parentId →
      Spent l.registry parentId → Spent t parentId) :
    Balanced cfg ⟨t, l.children.filter fun id => (t.jobs.get? id).isSome⟩ := by
  refine ⟨sync, h.nodup.filter _, fun id mem => ?_, fun a aMem b bMem ca cb parentId => ?_, ?_⟩
  · obtain ⟨old, present⟩ := List.mem_filter.mp mem
    exact h.spent_of_kin old (kept id old) present (stays id old present)
  · have aOld := (List.mem_filter.mp aMem).1
    have bOld := (List.mem_filter.mp bMem).1
    exact h.unique_of_kin aOld bOld (kept a aOld) (kept b bOld)
  · intro id child parentId row accepted ofParent
    refine List.mem_filter.mpr ⟨?_, by rw [row]; rfl⟩
    rcases kin id with kin | root
    · obtain ⟨old, oldRow, same, wasAccepted⟩ := kin child row
      exact h.recorded oldRow (wasAccepted accepted) (same ▸ ofParent)
    · simp [root child row accepted] at ofParent

theorem filter_present {l : Ledger T} (h : Balanced cfg l)
    (present : ∀ id ∈ l.children, (l.registry.jobs.get? id).isSome = true →
      (t.jobs.get? id).isSome = true) :
    (l.children.filter fun id => (t.jobs.get? id).isSome) = l.children := by
  refine List.filter_eq_self.mpr fun id mem => present id mem ?_
  obtain ⟨child, _, row, _⟩ := h.spent id mem
  rw [row]
  rfl

theorem kin_consumedJobs {parent child : VoiceJob T} {id : String}
    (consumes : Consumes now s parent child) (other : child.id ≠ id)
    (rows : ∀ id, t.jobs.get? id = (consumedJobs s.jobs parent child).get? id) : Kin s t id := by
  intro job' row
  rw [rows, get?_consumedJobs, if_neg other] at row
  split at row
  · rename_i same
    subst same
    obtain rfl := Option.some.inj row
    exact ⟨parent, consumes.row, rfl, fun accepted => accepted⟩
  · exact ⟨job', row, rfl, fun accepted => accepted⟩

theorem Consumes.unspent {parent child : VoiceJob T} (consumes : Consumes now s parent child) :
    ¬ Spent s parent.id := by
  rintro ⟨found, row, _, idle⟩
  obtain rfl : found = parent := Option.some.inj (row.symm.trans consumes.row)
  simp [consumes.awaiting] at idle

theorem Spent.consumed {parent child : VoiceJob T} {parentId : String}
    (spent : Spent s parentId) (consumes : Consumes now s parent child)
    (rows : ∀ id, t.jobs.get? id = (consumedJobs s.jobs parent child).get? id) :
    Spent t parentId := by
  obtain ⟨found, row, succeeded, idle⟩ := spent
  refine ⟨found, ?_, succeeded, idle⟩
  rw [rows, get?_consumedJobs, if_neg, if_neg, row]
  · rintro rfl
    exact consumes.unspent ⟨found, row, succeeded, idle⟩
  · rintro rfl
    simp [consumes.absent] at row

theorem Balanced.childless {l : Ledger T} (h : Balanced cfg l) {parentId id : String}
    (unspent : ¬ Spent l.registry parentId) (mem : id ∈ l.children) (kin : Kin l.registry t id)
    {child : VoiceJob T} (row : t.jobs.get? id = some child) :
    child.parentJobId ≠ some parentId := by
  intro ofParent
  obtain ⟨old, oldRow, same, _⟩ := kin child row
  obtain ⟨found, foundId, foundRow, foundParent, spent⟩ := h.spent id mem
  obtain rfl : old = found := Option.some.inj (oldRow.symm.trans foundRow)
  rw [same, foundParent, Option.some.injEq] at ofParent
  exact unspent (ofParent ▸ spent)

theorem children_consumedJobs {l : Ledger T} (h : Balanced cfg l) (parent child : VoiceJob T) :
    ([child.id] ++ l.children).filter (fun id =>
      ((consumedJobs l.registry.jobs parent child).get? id).isSome) = child.id :: l.children := by
  refine List.filter_eq_self.mpr fun id mem => ?_
  rw [get?_consumedJobs]
  split
  · rfl
  split
  · rfl
  rename_i other _
  rcases List.mem_cons.mp mem with rfl | old
  · exact absurd rfl other
  · obtain ⟨_, _, row, _⟩ := h.spent id old
    rw [row]
    rfl

theorem balanced_continuation {l : Ledger T} (h : Balanced cfg l) {parent child : VoiceJob T}
    (consumes : Consumes now l.registry parent child)
    (sync : Synced cfg (committed l.registry (consumedJobs l.registry.jobs parent child)
      l.registry.tasks)) :
    Balanced cfg ⟨committed l.registry (consumedJobs l.registry.jobs parent child)
      l.registry.tasks, child.id :: l.children⟩ := by
  generalize result : committed l.registry (consumedJobs l.registry.jobs parent child)
    l.registry.tasks = t at sync ⊢
  have rows : ∀ id, t.jobs.get? id = (consumedJobs l.registry.jobs parent child).get? id := by
    intro id
    rw [← result]
    rfl
  have childRow : t.jobs.get? child.id = some child := by rw [rows, get?_consumedJobs, if_pos rfl]
  have fresh : ∀ id ∈ l.children, child.id ≠ id := by
    rintro id mem rfl
    obtain ⟨_, _, row, _⟩ := h.spent _ mem
    simp [consumes.absent] at row
  have kin : ∀ id ∈ l.children, Kin l.registry t id :=
    fun id mem => kin_consumedJobs consumes (fresh id mem) rows
  refine ⟨sync, List.nodup_cons.mpr ⟨fun mem => fresh _ mem rfl, h.nodup⟩, ?_, ?_, ?_⟩
  · intro id mem
    rcases List.mem_cons.mp mem with rfl | old
    · refine ⟨child, parent.id, childRow, consumes.ofParent,
        { parent with awaitingInput := false }, ?_, succeeded_of_open consumes.isOpen, rfl⟩
      rw [rows, get?_consumedJobs, if_neg consumes.apart.symm, if_pos rfl]
    · refine h.spent_of_kin old (kin id old) ?_ fun _ _ _ _ spent => spent.consumed consumes rows
      have kept := children_consumedJobs h parent child
      rw [rows]
      exact List.filter_eq_self.mp kept id (List.mem_cons_of_mem _ old)
  · intro a aMem b bMem ca cb parentId aRow bRow aParent bParent
    have newParent : ∀ {c}, t.jobs.get? child.id = some c → c.parentJobId = some parent.id := by
      intro c row
      obtain rfl := Option.some.inj (childRow.symm.trans row)
      exact consumes.ofParent
    rcases List.mem_cons.mp aMem with rfl | aOld <;> rcases List.mem_cons.mp bMem with rfl | bOld
    · rfl
    · rw [newParent aRow] at aParent
      exact absurd (aParent ▸ bParent) (h.childless consumes.unspent bOld (kin b bOld) bRow)
    · rw [newParent bRow] at bParent
      exact absurd (bParent ▸ aParent) (h.childless consumes.unspent aOld (kin a aOld) aRow)
    · exact h.unique_of_kin aOld bOld (kin a aOld) (kin b bOld) aRow bRow aParent bParent
  · intro id found parentId row accepted ofParent
    by_cases isChild : child.id = id
    · subst isChild
      exact List.mem_cons_self
    · obtain ⟨old, oldRow, same, wasAccepted⟩ := kin_consumedJobs consumes isChild rows found row
      exact List.mem_cons_of_mem _ (h.recorded oldRow (wasAccepted accepted) (same ▸ ofParent))

theorem get?_restoredJobs_child {parent child : VoiceJob T} (h : Compensates s parent child) :
    (restoredJobs s.jobs parent child.id
      (clarificationOpen now parent && !parent.awaitingInput)).get? child.id = none := by
  unfold restoredJobs
  split
  · rename_i restored
    rw [Bool.and_eq_true] at restored
    have apart := parent_ne_child h.row h.childRow restored.1 h.accepted
    rw [Table.get?_put, if_neg apart, Table.get?_remove, if_pos rfl]
  · rw [Table.get?_remove, if_pos rfl]

theorem kin_restoredJobs {parent child : VoiceJob T} {restore : Bool} {id : String}
    (h : Compensates s parent child) (other : child.id ≠ id) {tasks}
    (result : t = committed s (restoredJobs s.jobs parent child.id restore) tasks) :
    Kin s t id := by
  intro job' row
  subst result
  simp only [committed, restoredJobs] at row
  split at row
  · rw [Table.get?_put] at row
    split at row
    · rename_i same
      subst same
      obtain rfl := Option.some.inj row
      exact ⟨parent, h.row, rfl, fun accepted => accepted⟩
    · rw [Table.get?_remove, if_neg other] at row
      exact ⟨job', row, rfl, fun accepted => accepted⟩
  · rw [Table.get?_remove, if_neg other] at row
    exact ⟨job', row, rfl, fun accepted => accepted⟩

theorem balanced_compensation {l : Ledger T} (h : Balanced cfg l) {parent child : VoiceJob T}
    (compensates : Compensates l.registry parent child) (sync : Synced cfg t)
    (result : t = committed l.registry (restoredJobs l.registry.jobs parent child.id
      (clarificationOpen now parent && !parent.awaitingInput)) l.registry.tasks) :
    Balanced cfg ⟨t, l.children.filter fun id => (t.jobs.get? id).isSome⟩ := by
  have gone : t.jobs.get? child.id = none := by
    rw [result]
    exact get?_restoredJobs_child compensates
  have childMem : child.id ∈ l.children :=
    h.recorded compensates.childRow compensates.accepted compensates.ofParent
  have kin : ∀ id, Kin l.registry t id := by
    intro id
    by_cases isChild : child.id = id
    · subst isChild
      intro job' row
      simp [gone] at row
    · exact kin_restoredJobs compensates isChild result
  refine h.shrink sync (fun id => .inl (kin id)) (fun id _ => kin id) ?_
  rintro id mem present found parentId row ofParent ⟨spent, spentRow, succeeded, idle⟩
  have notChild : child.id ≠ id := by
    rintro rfl
    simp [gone] at present
  refine ⟨spent, ?_, succeeded, idle⟩
  rw [result]
  refine (get?_restoredJobs_of_ne ?_ ?_).trans spentRow
  · rintro rfl
    obtain rfl := Option.some.inj (spentRow.symm.trans compensates.childRow)
    rw [compensates.accepted] at succeeded
    cases succeeded
  · rintro rfl
    exact notChild (h.unique _ childMem _ mem compensates.childRow row compensates.ofParent
      ofParent)

theorem balanced_other {l : Ledger T} (h : Balanced cfg l) {e : Event T} (root : RootCreates e.op)
    (notContinue : ∀ parentId child actor limit,
      e.op ≠ .createContinuation parentId child actor limit)
    (notCompensate : ∀ parentId childId actor,
      e.op ≠ .compensateUnboundContinuation parentId childId actor) :
    Balanced cfg ⟨exec cfg e l.registry,
      l.children.filter fun id => ((exec cfg e l.registry).jobs.get? id).isSome⟩ := by
  have rows := exec_row h.sync e
  have kin : ∀ id, Kin l.registry (exec cfg e l.registry) id ∨
      ∀ job', (exec cfg e l.registry).jobs.get? id = some job' →
        job'.executionState = .accepted → job'.parentJobId = none := by
    intro id
    have step := rows id
    generalize before : l.registry.jobs.get? id = old at step
    generalize after : (exec cfg e l.registry).jobs.get? id = new at step
    cases step with
    | absent =>
      refine .inl fun job' row => ?_
      simp [after] at row
    | created created =>
      refine .inr ?_
      rintro job' ⟨rfl⟩ accepted
      generalize e.op = op at created root notContinue
      cases created with
      | create => exact root
      | continuation => exact absurd rfl (notContinue _ _ _ _)
      | prompted => cases accepted
    | removed =>
      refine .inl fun job' row => ?_
      simp [after] at row
    | moved step =>
      refine .inl fun job' row => ?_
      obtain rfl := Option.some.inj (after.symm.trans row)
      exact ⟨_, before, parentJobId_of_transition step, accepted_of_transition step⟩
  have kept : ∀ id job, l.registry.jobs.get? id = some job →
      ∃ job', (exec cfg e l.registry).jobs.get? id = some job' ∧
        Transition cfg e.call.now l.registry.deliverySequence e.op job job' := by
    intro id job row
    have step := rows id
    rw [row] at step
    generalize (exec cfg e l.registry).jobs.get? id = new at step
    cases step with
    | removed gone =>
      generalize e.op = op at gone notCompensate
      cases gone
      exact absurd rfl (notCompensate _ _ _)
    | moved step => exact ⟨_, rfl, step⟩
  refine h.shrink (synced_exec h.sync e) kin (fun id mem => ?_) ?_
  · obtain ⟨child, _, row, _⟩ := h.spent id mem
    obtain ⟨job', row', step⟩ := kept id child row
    intro found foundRow
    obtain rfl := Option.some.inj (row'.symm.trans foundRow)
    exact ⟨child, row, parentJobId_of_transition step, accepted_of_transition step⟩
  · rintro id _ _ child parentId _ _ ⟨parent, row, succeeded, idle⟩
    obtain ⟨parent', row', step⟩ := kept parentId parent row
    exact ⟨parent', row', spent_of_transition step succeeded idle notCompensate⟩

theorem exec_createContinuation (s : Registry T) (call : Call T) (parentId : String)
    (child : VoiceJob T) (actor : Actor) (limit : Option Int) :
    exec cfg ⟨call, .createContinuation parentId child actor limit⟩ s = s ∨
      ∃ parent, Consumes call.now s parent child ∧
        exec cfg ⟨call, .createContinuation parentId child actor limit⟩ s =
          committed s (consumedJobs s.jobs parent child) s.tasks := by
  have same := after_discard (s := s) (createContinuation cfg call parentId child actor limit)
  rw [exec, perform, same]
  refine Ends.after (P := fun t => t = s ∨ ∃ parent, Consumes call.now s parent child ∧
    t = committed s (consumedJobs s.jobs parent child) s.tasks) ?_
  refine (createContinuation_ends parentId child).mono ?_ (fun _ _ same => .inl same)
  rintro _ _ ⟨parent, _, consumes, result⟩
  exact .inr ⟨parent, consumes, result⟩

theorem exec_compensate (s : Registry T) (call : Call T) (parentId childId : String)
    (actor : Actor) :
    exec cfg ⟨call, .compensateUnboundContinuation parentId childId actor⟩ s = s ∨
      ∃ parent child, Compensates s parent child ∧
        exec cfg ⟨call, .compensateUnboundContinuation parentId childId actor⟩ s =
          committed s (restoredJobs s.jobs parent child.id
            (clarificationOpen call.now parent && !parent.awaitingInput)) s.tasks := by
  have same := after_discard (s := s)
    (compensateUnboundContinuation cfg call parentId childId actor)
  rw [exec, perform, same]
  refine Ends.after (P := fun t => t = s ∨ ∃ parent child, Compensates s parent child ∧
    t = committed s (restoredJobs s.jobs parent child.id
      (clarificationOpen call.now parent && !parent.awaitingInput)) s.tasks) ?_
  refine (compensate_ends parentId childId).mono ?_ (fun _ _ same => .inl same)
  rintro restored _ (same | ⟨parent, child, _, _, compensates, rfl, result⟩)
  · exact .inl same
  · exact .inr ⟨parent, child, compensates, result⟩

theorem Balanced.unchanged {l : Ledger T} (h : Balanced cfg l) (same : t = l.registry)
    {fresh : List String} (absent : ∀ id ∈ fresh, l.registry.jobs.get? id = none) :
    Balanced cfg ⟨t, (fresh ++ l.children).filter fun id => (t.jobs.get? id).isSome⟩ := by
  have none_ : (fresh.filter fun id => (l.registry.jobs.get? id).isSome) = [] := by
    refine List.filter_eq_nil_iff.mpr fun id mem => ?_
    rw [absent id mem]
    simp
  rw [same, List.filter_append, none_, List.nil_append, filter_present h fun _ _ here => here]
  exact h

theorem absent_of_mem_newChildren {id : String} (mem : id ∈ newChildren s op) :
    s.jobs.get? id = none := by
  unfold newChildren at mem
  split at mem
  · split at mem
    · rename_i missing
      obtain rfl := List.mem_singleton.mp mem
      exact Option.isNone_iff_eq_none.mp missing
    · cases mem
  · cases mem

theorem Balanced.step {l : Ledger T} (h : Balanced cfg l) {e : Event T} (root : RootCreates e.op) :
    Balanced cfg (l.step cfg e) := by
  obtain ⟨call, op⟩ := e
  have sync := synced_exec h.sync ⟨call, op⟩
  have absent : ∀ id ∈ newChildren l.registry op, l.registry.jobs.get? id = none :=
    fun _ mem => absent_of_mem_newChildren mem
  cases op with
  | createContinuation parentId child actor limit =>
    rcases exec_createContinuation l.registry call parentId child actor limit with
      same | ⟨parent, consumes, result⟩
    · exact h.unchanged same absent
    · have added : newChildren l.registry (.createContinuation parentId child actor limit) =
          [child.id] := by
        simp [newChildren, consumes.absent]
      have next := balanced_continuation h consumes (result ▸ sync)
      rw [← children_consumedJobs h parent child] at next
      simp only [Ledger.step, added, result]
      exact next
  | compensateUnboundContinuation parentId childId actor =>
    rcases exec_compensate l.registry call parentId childId actor with
      same | ⟨parent, child, compensates, result⟩
    · exact h.unchanged same absent
    · exact balanced_compensation h compensates sync result
  | _ => exact balanced_other h root (by simp) (by simp)

theorem countP_le_one {ids : List String} (nodup : ids.Nodup) {p : String → Bool}
    (unique : ∀ a ∈ ids, ∀ b ∈ ids, p a = true → p b = true → a = b) : ids.countP p ≤ 1 := by
  rw [List.countP_eq_length_filter]
  have alone : ∀ a ∈ ids.filter p, ∀ b ∈ ids.filter p, a = b := by
    intro a aMem b bMem
    obtain ⟨aIn, aHolds⟩ := List.mem_filter.mp aMem
    obtain ⟨bIn, bHolds⟩ := List.mem_filter.mp bMem
    exact unique a aIn b bIn aHolds bHolds
  have distinct := nodup.filter p
  match ids.filter p, alone, distinct with
  | [], _, _ => simp
  | [_], _, _ => simp
  | a :: b :: _, alone, distinct =>
    have same : a = b := alone a (by simp) b (by simp)
    simp [same] at distinct

theorem any_get?_iff {id : String} {p : VoiceJob T → Bool} :
    (s.jobs.get? id).any p = true ↔ ∃ job, s.jobs.get? id = some job ∧ p job = true := by
  cases s.jobs.get? id <;> simp

theorem Balanced.childrenOf_le {l : Ledger T} (h : Balanced cfg l) (parentId : String) :
    l.childrenOf parentId + (if l.awaiting parentId then 1 else 0) ≤ 1 := by
  split
  · rename_i awaiting
    obtain ⟨parent, row, waits⟩ := any_get?_iff.mp awaiting
    have none_ : l.childrenOf parentId = 0 := by
      refine List.countP_eq_zero.mpr fun id mem holds => ?_
      obtain ⟨child, childRow, same⟩ := any_get?_iff.mp holds
      obtain ⟨found, foundId, foundRow, ofParent, spent, spentRow, _, idle⟩ := h.spent id mem
      obtain rfl := Option.some.inj (childRow.symm.trans foundRow)
      rw [beq_iff_eq, ofParent, Option.some.injEq] at same
      subst same
      obtain rfl := Option.some.inj (row.symm.trans spentRow)
      simp [idle] at waits
    omega
  · refine countP_le_one h.nodup fun a aMem b bMem aHolds bHolds => ?_
    obtain ⟨_, aRow, aParent⟩ := any_get?_iff.mp aHolds
    obtain ⟨_, bRow, bParent⟩ := any_get?_iff.mp bHolds
    exact h.unique a aMem b bMem aRow bRow (beq_iff_eq.mp aParent) (beq_iff_eq.mp bParent)

def Ledger.init : Ledger T := ⟨.init, []⟩

theorem balanced_init : Balanced cfg (Ledger.init : Ledger T) := by
  refine ⟨.fresh, List.nodup_nil, ?_, ?_, ?_⟩
  · intro id mem
    cases mem
  · intro a mem
    cases mem
  · intro id child parentId row
    simp [Ledger.init, Registry.init] at row

/-- Over every run each job has at most one continuation child or an open question, never
both; and a compensation of a fresh, otherwise unchanged parent undoes the continuation. -/
theorem clarification_consumed_once {events : List (Event T)} {l : Ledger T}
    (run : Runs (Ledger.step cfg) (fun e _ => RootCreates e.op) .init events l) :
    (∀ parentId, l.childrenOf parentId + (if l.awaiting parentId then 1 else 0) ≤ 1) ∧
    ∀ (call call' : Call T) (parentId : String) (child row : VoiceJob T) (actor actor' : Actor)
      (limit : Option Int) (t u v : Registry T) (between : List (Event T)) (restored : Bool),
      (createContinuation cfg call parentId child actor limit).run l.registry = .ok row t →
      Runs (exec cfg) (fun _ _ => True) t between u →
      u.jobs.get? parentId = t.jobs.get? parentId →
      (u.jobs.get? parentId).all (clarificationOpen call'.now) = true →
      u.jobs.get? child.id ≠ none →
      (compensateUnboundContinuation cfg call' parentId child.id actor').run u = .ok restored v →
      v.jobs.get? child.id = none →
      restored = true ∧ v.jobs.get? parentId = l.registry.jobs.get? parentId ∧
        (∀ id, id ≠ parentId → id ≠ child.id → v.jobs.get? id = u.jobs.get? id) ∧
        (u.jobs = t.jobs → v.jobs = l.registry.jobs ∧ v.disk = l.registry.disk ∧
          v.deliverySequence = l.registry.deliverySequence) ∧
        (u = t → v = l.registry) := by
  have h : Balanced cfg l :=
    run.invariant (I := Balanced cfg) (fun _ _ root h => h.step root) balanced_init
  refine ⟨h.childrenOf_le, ?_⟩
  intro call call' parentId child row actor actor' limit t u v between restored created _ same
    fresh present undone removed
  exact undone_by_compensation h.sync created same fresh present undone removed

def askedEvents : List (Event Int) :=
  plainEvents [.load, .create (plainJob "parent" none) none,
    .finishVoiceResult "parent" "which one?" true 60]

def askedLedger : Ledger Int := askedEvents.foldl (fun l e => l.step plainSettings e) .init

def asker : Actor
  | "creator_peer" => some (some "voice")
  | "creator_user_id" => some none
  | "scope_id" => some (some "scope")
  | _ => none

/-- The registry with the question consumed by `child`. -/
def answeredRegistry : Registry Int :=
  exec plainSettings ⟨⟨1, true⟩, .createContinuation "parent"
    (plainJob "child" (some "parent")) asker none⟩ askedLedger.registry

theorem unbound_child_undone :
    askedLedger.childrenOf "parent" + (if askedLedger.awaiting "parent" then 1 else 0) ≤ 1 ∧
    (compensateUnboundContinuation plainSettings ⟨2, true⟩ "parent" "child" asker).run
      answeredRegistry = .ok true askedLedger.registry := by
  have run : Runs (Ledger.step plainSettings) (fun e _ => RootCreates e.op) .init askedEvents
      askedLedger :=
    Runs.foldl (by simp [askedEvents, plainEvents, RootCreates, plainJob]) _
  obtain ⟨once, undone⟩ := clarification_consumed_once run
  have created : (createContinuation plainSettings ⟨1, true⟩ "parent"
      (plainJob "child" (some "parent")) asker none).run askedLedger.registry =
      .ok (plainJob "child" (some "parent")) answeredRegistry := rfl
  have compensated : (compensateUnboundContinuation plainSettings ⟨2, true⟩ "parent" "child"
      asker).run answeredRegistry = .ok true (exec plainSettings ⟨⟨2, true⟩,
        .compensateUnboundContinuation "parent" "child" asker⟩ answeredRegistry) := rfl
  obtain ⟨-, -, -, -, whole⟩ := undone ⟨1, true⟩ ⟨2, true⟩ "parent" _ _ asker asker none
    answeredRegistry answeredRegistry _ [] true created (.nil _) rfl (by decide) (by decide)
    compensated (by decide)
  rw [compensated, whole rfl]
  exact ⟨once "parent", rfl⟩

end Ledger

end Casa.JobContinuation
