import Mathlib.Data.List.Basic

/-! One engagement: the row the tombstone file keeps of it, the record memory keeps, and what
each mutator of the registry does to a record it has found. A mutator answers at once, or it
edits the record and awaits the tombstone write; `Edit` says what memory holds while the write
runs, what it holds once the write has landed or failed, and what shields the wait from a
cancelled caller. -/

namespace Casa.EngagementRecord

inductive Status where
  | active
  | idle
  | completed
  | cancelled
  | error
deriving DecidableEq

/-- `_TERMINAL_STATUSES`. -/
def Status.terminal : Status → Bool
  | .completed => true
  | .cancelled => true
  | .error => true
  | _ => false

/-- `sensitivity.TIERS`, lowest first. -/
inductive Tier where
  | everyone
  | friends
  | family
  | owner
deriving DecidableEq

def Tier.index : Tier → Nat
  | .everyone => 0
  | .friends => 1
  | .family => 2
  | .owner => 3

/-- The keys of the origin dict the registry writes. A clearance outside the tiers reads as
none. -/
structure Origin where
  errorKind : Option String := none
  errorMessage : Option String := none
  originClearance : Option Tier := none
  resumeFailCount : Option Int := none
  interactionViolated : Option Bool := none
deriving DecidableEq

inductive StaleKind where
  | reanchored
  | plain
deriving DecidableEq

/-- A normalized entry of `stale_mids`. -/
structure StaleMid where
  mid : Option Int
  kind : StaleKind := .plain
deriving DecidableEq

inductive QuestionKind where
  | button
  | anchor
deriving DecidableEq

structure OpenQuestion where
  n : Int
  tgMessageId : Option Int
  kind : QuestionKind := .button
  answered : Bool := false
  staleMids : List StaleMid := []
  text : Option String := none
  sourceHash : Option String := none
deriving DecidableEq

inductive Interaction where
  | notRequired
  | firstContactRequired
  | awaitingOperator
  | authorized
deriving DecidableEq

inductive InteractionEvent where
  | firstContact
  | operatorAnswered
  | operatorTurn
  | other (name : String)
deriving DecidableEq

def pureInteractionTransition (current : Interaction) : InteractionEvent → Option Interaction
  | .firstContact => if current = .firstContactRequired then some .awaitingOperator else none
  | .operatorAnswered | .operatorTurn =>
    if current = .firstContactRequired ∨ current = .awaitingOperator then some .authorized else none
  | .other _ => none

def Interaction.rank : Interaction → Nat
  | .notRequired => 0
  | .firstContactRequired => 0
  | .awaitingOperator => 1
  | .authorized => 2

structure Row where
  id : String
  status : Status := .active
  lastUserTurnTs : Int := 0
  lastIdleReminderTs : Int := 0
  completedAt : Option Int := none
  sdkSessionId : Option String := none
  origin : Origin := {}
  pinnedMessageId : Option Int := none
  progressMessageId : Option Int := none
  currentStateEmoji : Option String := none
  interactionState : Interaction := .notRequired
  nextQuestionNumber : Int := 1
  openQuestions : List OpenQuestion := []
  summaryMessageId : Option Int := none
  summaryRevision : Int := 0
deriving DecidableEq

inductive Permit where
  | held
  | released
deriving DecidableEq

structure Record extends Row where
  permit : Option Permit := none
deriving DecidableEq

namespace Record

/-- `_release_permit`: an engagement without a permit has none to release. -/
def releasePermit (r : Record) : Record := { r with permit := r.permit.map fun _ => .released }

@[simp] theorem releasePermit_toRow (r : Record) : r.releasePermit.toRow = r.toRow := rfl

def live (r : Record) : Bool := !r.status.terminal

end Record

/-- What keeps the caller's wait from being cut short: nothing; the shielded task awaited once
more through `gather`; a loop that absorbs every cancellation; the same loop, after which a
committed insert is taken back. -/
inductive Shield where
  | bare
  | once
  | always
  | compensating
deriving DecidableEq

inductive Answer where
  | unit
  | flag (b : Bool)
  | number (n : Option Int)
  | state (s : Option Interaction)
  | vetoed (reason : String)
deriving DecidableEq

structure Edit where
  next : Record
  written : Record
  failed : Option Record
  strict : Bool
  shield : Shield
  answer : Answer
deriving DecidableEq

namespace Edit

def bestEffort (next : Record) (answer : Answer := .unit) : Edit :=
  ⟨next, next, some next, false, .bare, answer⟩

def transaction (next : Record) (undo : Record → Record) (answer : Answer := .unit)
    (shield : Shield := .once) : Edit :=
  ⟨next, next, some (undo next), true, shield, answer⟩

end Edit

def flipped (before : Option Record) (after : Record) : Bool :=
  after.status.terminal && !before.any (fun r => r.status.terminal)

def Edit.pending (e : Edit) : Bool := flipped e.failed e.next

inductive Outcome where
  | completed
  | cancelled
  | error
deriving DecidableEq

def Outcome.status : Outcome → Status
  | .completed => .completed
  | .cancelled => .cancelled
  | .error => .error

/-- The keyword arguments of `try_transition_terminal`; `veto` is what the terminal hook
returned, when there is a hook and it objects. -/
structure Terminal where
  outcome : Outcome
  completedAt : Option Int := none
  errorKind : String := ""
  errorMessage : String := ""
  staleBefore : Option Int := none
  strict : Bool := false
  veto : Option String := none
deriving DecidableEq

inductive Op where
  | create (id : String) (origin : Origin) (interactionState : Interaction) (permit : Bool)
  | markCompleted (id : String) (completedAt : Int)
  | markCancelled (id : String)
  | markError (id kind message : String)
  | tryTransitionTerminal (id : String) (args : Terminal)
  | markIdle (id : String)
  | updateUserTurn (id : String) (ts : Int)
  | lowerOriginClearance (id : String) (clearance : Option Tier)
  | updateLastIdleReminder (id : String) (ts : Int)
  | setResumeFailCount (id : String) (count : Int)
  | persistSessionId (id sessionId : String)
  | setChannelState (id : String) (pinned progress : Option Int) (emoji : Option String)
  | advanceInteractionState (id : String) (event : InteractionEvent)
  | setInteractionViolated (id : String)
  | allocateQuestionNumber (id : String)
  | addOpenQuestion (id : String) (question : OpenQuestion)
  | markQuestionAnswered (id : String) (number : Int)
  | stageStaleMid (id : String) (number mid : Int) (kind : StaleKind)
  | unstageStaleMid (id : String) (number mid : Int)
  | updateQuestionMid (id : String) (number newMid : Int)
  | closeOpenQuestion (id : String) (number : Int)
  | setSummaryMessageId (id : String) (messageId : Option Int)
  | allocateSummaryRevision (id : String)
deriving DecidableEq

def Op.id : Op → String
  | create id .. => id
  | markCompleted id .. => id
  | markCancelled id => id
  | markError id .. => id
  | tryTransitionTerminal id .. => id
  | markIdle id => id
  | updateUserTurn id .. => id
  | lowerOriginClearance id .. => id
  | updateLastIdleReminder id .. => id
  | setResumeFailCount id .. => id
  | persistSessionId id .. => id
  | setChannelState id .. => id
  | advanceInteractionState id .. => id
  | setInteractionViolated id => id
  | allocateQuestionNumber id => id
  | addOpenQuestion id .. => id
  | markQuestionAnswered id .. => id
  | stageStaleMid id .. => id
  | unstageStaleMid id .. => id
  | updateQuestionMid id .. => id
  | closeOpenQuestion id .. => id
  | setSummaryMessageId id .. => id
  | allocateSummaryRevision id => id

def Op.inserts : Op → Bool
  | create .. => true
  | _ => false

/-- The calls whose `True` says that this call ended the engagement. -/
def Op.claims : Op → Bool
  | markError .. => true
  | tryTransitionTerminal .. => true
  | _ => false

namespace Record
variable (now : Int) (r : Record)

/-- The three `mark_*` mutators: never over a terminal winner, permit released before the
write. -/
def mark (refused : Answer) (flip : Record → Record) (answer : Answer) : Except Answer Edit :=
  if r.status.terminal then .error refused
  else .ok (.bestEffort (flip r).releasePermit answer)

def markCompleted (completedAt : Int) : Except Answer Edit :=
  r.mark .unit (fun r => { r with status := .completed, completedAt := some completedAt }) .unit

def markCancelled : Except Answer Edit :=
  r.mark .unit (fun r => { r with status := .cancelled, completedAt := some now }) .unit

def markError (kind message : String) : Except Answer Edit :=
  r.mark (.flag false)
    (fun r => { r with
      status := .error, completedAt := some now,
      origin := { r.origin with errorKind := some kind, errorMessage := some message } })
    (.flag true)

def flip (args : Terminal) : Record :=
  let r := { r with
    status := args.outcome.status, completedAt := some (args.completedAt.getD now) }
  if args.outcome = .error then
    { r with origin := { r.origin with
        errorKind := some (if args.errorKind = "" then "emit_completion_error" else args.errorKind),
        errorMessage := some args.errorMessage } }
  else r

/-- `_restore`: every field the strict transition writes. -/
def restoreTerminal (flipped : Record) : Record :=
  { flipped with
    status := r.status, completedAt := r.completedAt,
    origin := { flipped.origin with
      errorKind := r.origin.errorKind, errorMessage := r.origin.errorMessage } }

def tryTransitionTerminal (args : Terminal) : Except Answer Edit :=
  if r.status.terminal then .error (.flag false)
  else if args.staleBefore.any (fun bound => decide (bound ≤ r.lastUserTurnTs)) then
    .error (.flag false)
  else
    match args.veto with
    | some reason => .error (.vetoed reason)
    | none =>
      let next := r.flip now args
      if args.strict then
        -- the permit goes only once the write has landed
        .ok { Edit.transaction next r.restoreTerminal (.flag true) with
          written := next.releasePermit }
      else .ok (.bestEffort next.releasePermit (.flag true))

def markIdle : Except Answer Edit :=
  if r.status.terminal then .error .unit
  else .ok (.bestEffort { r with status := .idle })

def updateUserTurn (ts : Int) : Except Answer Edit :=
  .ok (.bestEffort { r with
    lastUserTurnTs := ts, lastIdleReminderTs := 0,
    status := if r.status = .idle then .active else r.status })

def lowerOriginClearance (clearance : Option Tier) : Except Answer Edit :=
  match clearance, r.origin.originClearance with
  | some floor, some current =>
    if current.index ≤ floor.index then .error (.flag false)
    else .ok (.bestEffort { r with origin := { r.origin with originClearance := some floor } }
      (.flag true))
  | _, _ => .error (.flag false)

def updateLastIdleReminder (ts : Int) : Except Answer Edit :=
  .ok (.bestEffort { r with lastIdleReminderTs := ts })

def setResumeFailCount (count : Int) : Except Answer Edit :=
  .ok (.bestEffort { r with origin := { r.origin with resumeFailCount := some count } })

def persistSessionId (sessionId : String) : Except Answer Edit :=
  .ok (.transaction { r with sdkSessionId := some sessionId }
    (fun next => { next with sdkSessionId := r.sdkSessionId }) .unit .always)

def setChannelState (pinned progress : Option Int) (emoji : Option String) : Except Answer Edit :=
  .ok (.bestEffort { r with
    pinnedMessageId := pinned <|> r.pinnedMessageId,
    progressMessageId := progress <|> r.progressMessageId,
    currentStateEmoji := emoji <|> r.currentStateEmoji })

def advanceInteractionState (event : InteractionEvent) : Except Answer Edit :=
  match pureInteractionTransition r.interactionState event with
  | none => .error (.state none)
  | some new => .ok (.transaction { r with interactionState := new }
      (fun next => { next with interactionState := r.interactionState }) (.state (some new)))

def setInteractionViolated : Except Answer Edit :=
  .ok (.transaction { r with origin := { r.origin with interactionViolated := some true } }
    (fun next => { next with
      origin := { next.origin with interactionViolated := r.origin.interactionViolated } })
    .unit .bare)

def allocateQuestionNumber : Except Answer Edit :=
  .ok (.transaction { r with nextQuestionNumber := r.nextQuestionNumber + 1 }
    (fun next => { next with nextQuestionNumber := r.nextQuestionNumber })
    (.number (some r.nextQuestionNumber)))

/-- `_commit_open_questions_strict`. -/
def commitOpenQuestions (questions : List OpenQuestion) (answer : Answer) : Edit :=
  .transaction { r with openQuestions := questions }
    (fun next => { next with openQuestions := r.openQuestions }) answer

def addOpenQuestion (question : OpenQuestion) : Except Answer Edit :=
  .ok (r.commitOpenQuestions
    (r.openQuestions.filter (fun q => q.n ≠ question.n) ++
      [{ question with answered := false, staleMids := [] }]) .unit)

/-- The mutators that rewrite the entries of one number, and answer False when there are
none. -/
def reviseQuestion (number : Int) (f : OpenQuestion → OpenQuestion) : Except Answer Edit :=
  if r.openQuestions.any (fun q => q.n = number) then
    .ok (r.commitOpenQuestions
      (r.openQuestions.map fun q => if q.n = number then f q else q) (.flag true))
  else .error (.flag false)

def markQuestionAnswered (number : Int) : Except Answer Edit :=
  r.reviseQuestion number fun q => { q with answered := true }

def stageStaleMid (number mid : Int) (kind : StaleKind) : Except Answer Edit :=
  r.reviseQuestion number fun q =>
    if q.staleMids.any (fun s => s.mid = some mid) then q
    else { q with staleMids := q.staleMids ++ [⟨some mid, kind⟩] }

def unstageStaleMid (number mid : Int) : Except Answer Edit :=
  r.reviseQuestion number fun q =>
    { q with staleMids := q.staleMids.filter fun s => s.mid ≠ some mid }

def updateQuestionMid (number newMid : Int) : Except Answer Edit :=
  r.reviseQuestion number fun q =>
    { q with
      tgMessageId := some newMid,
      staleMids := q.staleMids.map fun s =>
        if s.mid = q.tgMessageId then { s with kind := .reanchored } else s }

def closeOpenQuestion (number : Int) : Except Answer Edit :=
  let remaining := r.openQuestions.filter fun q => q.n ≠ number
  if remaining.length = r.openQuestions.length then .error .unit
  else .ok (r.commitOpenQuestions remaining .unit)

def setSummaryMessageId (messageId : Option Int) : Except Answer Edit :=
  .ok (.transaction { r with summaryMessageId := messageId }
    (fun next => { next with summaryMessageId := r.summaryMessageId }))

def allocateSummaryRevision : Except Answer Edit :=
  .ok (.transaction { r with summaryRevision := r.summaryRevision + 1 }
    (fun next => { next with summaryRevision := r.summaryRevision })
    (.number (some r.summaryRevision)))

/-- The insert of `create`: rolled back when its write fails, and also when its caller was
cancelled and the write went through. -/
def create (now : Int) (id : String) (origin : Origin) (interactionState : Interaction)
    (permit : Bool) : Edit :=
  let r : Record := {
    id, origin, interactionState, lastUserTurnTs := now
    permit := if permit then some .held else none }
  ⟨r, r, none, true, .compensating, .unit⟩

end Record

def Op.missing : Op → Answer
  | markError .. => .flag false
  | tryTransitionTerminal .. => .flag false
  | lowerOriginClearance .. => .flag false
  | advanceInteractionState .. => .state none
  | allocateQuestionNumber _ => .number none
  | markQuestionAnswered .. => .flag false
  | stageStaleMid .. => .flag false
  | unstageStaleMid .. => .flag false
  | updateQuestionMid .. => .flag false
  | allocateSummaryRevision _ => .number none
  | _ => .unit

/-- A mutator under the lock, up to its write: an answer, or an edit of the record found. -/
def Op.edit (now : Int) : Op → Option Record → Except Answer Edit
  | .create id origin interactionState permit, _ =>
    .ok (Record.create now id origin interactionState permit)
  | op, none => .error op.missing
  | .markCompleted _ completedAt, some r => r.markCompleted completedAt
  | .markCancelled _, some r => r.markCancelled now
  | .markError _ kind message, some r => r.markError now kind message
  | .tryTransitionTerminal _ args, some r => r.tryTransitionTerminal now args
  | .markIdle _, some r => r.markIdle
  | .updateUserTurn _ ts, some r => r.updateUserTurn ts
  | .lowerOriginClearance _ clearance, some r => r.lowerOriginClearance clearance
  | .updateLastIdleReminder _ ts, some r => r.updateLastIdleReminder ts
  | .setResumeFailCount _ count, some r => r.setResumeFailCount count
  | .persistSessionId _ sessionId, some r => r.persistSessionId sessionId
  | .setChannelState _ pinned progress emoji, some r => r.setChannelState pinned progress emoji
  | .advanceInteractionState _ event, some r => r.advanceInteractionState event
  | .setInteractionViolated _, some r => r.setInteractionViolated
  | .allocateQuestionNumber _, some r => r.allocateQuestionNumber
  | .addOpenQuestion _ question, some r => r.addOpenQuestion question
  | .markQuestionAnswered _ number, some r => r.markQuestionAnswered number
  | .stageStaleMid _ number mid kind, some r => r.stageStaleMid number mid kind
  | .unstageStaleMid _ number mid, some r => r.unstageStaleMid number mid
  | .updateQuestionMid _ number newMid, some r => r.updateQuestionMid number newMid
  | .closeOpenQuestion _ number, some r => r.closeOpenQuestion number
  | .setSummaryMessageId _ messageId, some r => r.setSummaryMessageId messageId
  | .allocateSummaryRevision _, some r => r.allocateSummaryRevision

/-- What every later version of a row keeps of an earlier one. -/
structure Later (r s : Row) : Prop where
  id : s.id = r.id
  ended : r.status.terminal = true → s.status = r.status ∧ s.completedAt = r.completedAt ∧
    s.origin.errorKind = r.origin.errorKind ∧ s.origin.errorMessage = r.origin.errorMessage
  numbered : r.nextQuestionNumber ≤ s.nextQuestionNumber
  advanced : r.interactionState.rank ≤ s.interactionState.rank

theorem Later.refl (r : Row) : Later r r :=
  ⟨rfl, fun _ => ⟨rfl, rfl, rfl, rfl⟩, Int.le_refl _, Nat.le_refl _⟩

theorem Later.trans {r s t : Row} (first : Later r s) (second : Later s t) : Later r t := by
  refine ⟨second.id.trans first.id, fun ended => ?_, Int.le_trans first.numbered second.numbered,
    Nat.le_trans first.advanced second.advanced⟩
  obtain ⟨status, completedAt, errorKind, errorMessage⟩ := first.ended ended
  obtain ⟨status', completedAt', errorKind', errorMessage'⟩ :=
    second.ended (by rw [status]; exact ended)
  exact ⟨status'.trans status, completedAt'.trans completedAt, errorKind'.trans errorKind,
    errorMessage'.trans errorMessage⟩

/-- Everything a mutator can do to the record it has found: insert a new one, change one that
stays live or stays ended, end one for good, or end one subject to the write. -/
inductive Mutates (id : String) : Option Record → Edit → Prop
  | insert {r : Record} (name : r.id = id) (live : r.live = true)
      (unreleased : r.permit ≠ some .released) :
      Mutates id none ⟨r, r, none, true, .compensating, .unit⟩
  | adjust {r next failed : Record} {strict : Bool} {shield : Shield} {answer : Answer}
      (later : Later r.toRow next.toRow) (same : next.status.terminal = r.status.terminal)
      (permit : next.permit = r.permit) (back : failed = r ∨ failed = next)
      (shielded : shield ≠ .compensating) :
      Mutates id (some r) ⟨next, next, some failed, strict, shield, answer⟩
  | finish {r next : Record} {answer : Answer} (live : r.live = true)
      (ended : next.status.terminal = true) (later : Later r.toRow next.toRow)
      (permit : next.permit = r.permit) :
      Mutates id (some r)
        ⟨next.releasePermit, next.releasePermit, some next.releasePermit, false, .bare, answer⟩
  | finishStrict {r next : Record} (live : r.live = true) (ended : next.status.terminal = true)
      (later : Later r.toRow next.toRow) (permit : next.permit = r.permit) :
      Mutates id (some r) ⟨next, next.releasePermit, some r, true, .once, .flag true⟩

section Inversion
variable {now : Int} {r : Record} {e : Edit} {id : String}

/-- A change of a live record that keeps the counter and the turn-taking is a later version. -/
theorem Later.of_live {next : Row} (live : r.live = true) (same : next.id = r.id)
    (numbered : next.nextQuestionNumber = r.nextQuestionNumber)
    (advanced : next.interactionState = r.interactionState) : Later r.toRow next := by
  refine ⟨same, fun ended => ?_, numbered ▸ Int.le_refl _, advanced ▸ Nat.le_refl _⟩
  simp only [Record.live, ended, Bool.not_true] at live
  cases live

theorem Later.of_aside {s t : Row} (same : t.id = s.id) (status : t.status = s.status)
    (completedAt : t.completedAt = s.completedAt)
    (errorKind : t.origin.errorKind = s.origin.errorKind)
    (errorMessage : t.origin.errorMessage = s.origin.errorMessage)
    (numbered : s.nextQuestionNumber ≤ t.nextQuestionNumber)
    (advanced : s.interactionState.rank ≤ t.interactionState.rank) : Later s t :=
  ⟨same, fun _ => ⟨status, completedAt, errorKind, errorMessage⟩, numbered, advanced⟩

theorem mutates_transaction {next : Record} {undo : Record → Record} {answer : Answer}
    {shield : Shield} (later : Later r.toRow next.toRow) (status : next.status = r.status)
    (permit : next.permit = r.permit) (back : undo next = r)
    (shielded : shield ≠ .compensating) :
    Mutates id (some r) (.transaction next undo answer shield) :=
  .adjust later (congrArg Status.terminal status) permit (.inl back) shielded

theorem mutates_bestEffort {next : Record} {answer : Answer} (later : Later r.toRow next.toRow)
    (same : next.status.terminal = r.status.terminal) (permit : next.permit = r.permit) :
    Mutates id (some r) (.bestEffort next answer) :=
  .adjust later same permit (.inr rfl) (by decide)

theorem mutates_mark {refused answer : Answer} {flip : Record → Record}
    (h : r.mark refused flip answer = .ok e)
    (ended : (flip r).status.terminal = true) (permit : (flip r).permit = r.permit)
    (later : r.live = true → Later r.toRow (flip r).toRow) : Mutates id (some r) e := by
  unfold Record.mark at h
  split at h
  · cases h
  · rename_i open_
    have live : r.live = true := by simpa [Record.live] using open_
    cases h
    exact .finish live ended (later live) permit

theorem Record.flip_terminal (now : Int) (r : Record) (args : Terminal) :
    (r.flip now args).status.terminal = true := by
  unfold Record.flip
  cases outcome : args.outcome <;> simp [Outcome.status, Status.terminal]

theorem Record.flip_permit (now : Int) (r : Record) (args : Terminal) :
    (r.flip now args).permit = r.permit := by
  unfold Record.flip
  split <;> rfl

theorem Record.flip_later (live : r.live = true) (args : Terminal) :
    Later r.toRow (r.flip now args).toRow := by
  unfold Record.flip
  split <;> exact .of_live live rfl rfl rfl

theorem Record.restoreTerminal_flip (now : Int) (r : Record) (args : Terminal) :
    r.restoreTerminal (r.flip now args) = r := by
  unfold Record.flip
  split <;> rfl

theorem mutates_tryTransitionTerminal {args : Terminal}
    (h : r.tryTransitionTerminal now args = .ok e) : Mutates id (some r) e := by
  unfold Record.tryTransitionTerminal at h
  split at h
  · cases h
  rename_i open_
  have live : r.live = true := by simpa [Record.live] using open_
  split at h
  · cases h
  split at h
  · cases h
  simp only at h
  split at h
  · cases h
    have back := Record.restoreTerminal_flip now r args
    simp only [Edit.transaction, back]
    exact .finishStrict live (Record.flip_terminal now r args) (Record.flip_later live args)
      (Record.flip_permit now r args)
  · cases h
    exact .finish live (Record.flip_terminal now r args) (Record.flip_later live args)
      (Record.flip_permit now r args)

theorem rank_le_of_transition {current new : Interaction} {event : InteractionEvent}
    (h : pureInteractionTransition current event = some new) : current.rank ≤ new.rank := by
  cases event <;> cases current <;> simp [pureInteractionTransition] at h <;> subst h <;> decide

theorem mutates_commitOpenQuestions (questions : List OpenQuestion) (answer : Answer) :
    Mutates id (some r) (r.commitOpenQuestions questions answer) :=
  mutates_transaction (.of_aside rfl rfl rfl rfl rfl (Int.le_refl _) (Nat.le_refl _)) rfl rfl rfl
    (by decide)

theorem mutates_reviseQuestion {number : Int} {f : OpenQuestion → OpenQuestion}
    (h : r.reviseQuestion number f = .ok e) : Mutates id (some r) e := by
  unfold Record.reviseQuestion at h
  split at h
  · cases h
    exact mutates_commitOpenQuestions _ _
  · cases h

theorem mutates_markIdle (h : r.markIdle = .ok e) : Mutates id (some r) e := by
  unfold Record.markIdle at h
  split at h
  · cases h
  · rename_i open_
    have live : r.live = true := by simpa [Record.live] using open_
    cases h
    refine mutates_bestEffort (.of_live live rfl rfl rfl) ?_ rfl
    simpa [Status.terminal] using open_

theorem mutates_updateUserTurn {ts : Int} (h : r.updateUserTurn ts = .ok e) :
    Mutates id (some r) e := by
  cases h
  by_cases idle : r.status = .idle
  · have live : r.live = true := by simp [Record.live, idle, Status.terminal]
    refine mutates_bestEffort (.of_live live rfl rfl rfl) ?_ rfl
    simp [idle, Status.terminal]
  · have kept : (if r.status = .idle then .active else r.status) = r.status := if_neg idle
    exact mutates_bestEffort (.of_aside rfl kept rfl rfl rfl (Int.le_refl _) (Nat.le_refl _))
      (congrArg Status.terminal kept) rfl

theorem mutates_lowerOriginClearance {clearance : Option Tier}
    (h : r.lowerOriginClearance clearance = .ok e) : Mutates id (some r) e := by
  unfold Record.lowerOriginClearance at h
  split at h
  · split at h
    · cases h
    · cases h
      exact mutates_bestEffort (.of_aside rfl rfl rfl rfl rfl (Int.le_refl _) (Nat.le_refl _)) rfl rfl
  · cases h

theorem mutates_advanceInteractionState {event : InteractionEvent}
    (h : r.advanceInteractionState event = .ok e) : Mutates id (some r) e := by
  unfold Record.advanceInteractionState at h
  split at h
  · cases h
  · rename_i new moved
    cases h
    exact mutates_transaction
      (.of_aside rfl rfl rfl rfl rfl (Int.le_refl _) (rank_le_of_transition moved)) rfl rfl rfl
      (by decide)

theorem Op.mutates_found {op : Op} (other : op.inserts = false)
    (h : op.edit now (some r) = .ok e) : Mutates op.id (some r) e := by
  have kept : ∀ {t : Row}, t.id = r.id → t.status = r.status → t.completedAt = r.completedAt →
      t.origin.errorKind = r.origin.errorKind → t.origin.errorMessage = r.origin.errorMessage →
      t.nextQuestionNumber = r.nextQuestionNumber → t.interactionState = r.interactionState →
      Later r.toRow t := fun same status completedAt errorKind errorMessage numbered advanced =>
    .of_aside same status completedAt errorKind errorMessage (numbered ▸ Int.le_refl _)
      (advanced ▸ Nat.le_refl _)
  cases op with
  | create => cases other
  | markCompleted id completedAt =>
    simp only [Op.edit, Record.markCompleted] at h
    exact mutates_mark h rfl rfl fun live => .of_live live rfl rfl rfl
  | markCancelled id =>
    simp only [Op.edit, Record.markCancelled] at h
    exact mutates_mark h rfl rfl fun live => .of_live live rfl rfl rfl
  | markError id kind message =>
    simp only [Op.edit, Record.markError] at h
    exact mutates_mark h rfl rfl fun live => .of_live live rfl rfl rfl
  | tryTransitionTerminal id args => exact mutates_tryTransitionTerminal h
  | markIdle id => exact mutates_markIdle h
  | updateUserTurn id ts => exact mutates_updateUserTurn h
  | lowerOriginClearance id clearance => exact mutates_lowerOriginClearance h
  | updateLastIdleReminder id ts =>
    cases h
    exact mutates_bestEffort (kept rfl rfl rfl rfl rfl rfl rfl) rfl rfl
  | setResumeFailCount id count =>
    cases h
    exact mutates_bestEffort (kept rfl rfl rfl rfl rfl rfl rfl) rfl rfl
  | setChannelState id pinned progress emoji =>
    cases h
    exact mutates_bestEffort (kept rfl rfl rfl rfl rfl rfl rfl) rfl rfl
  | persistSessionId id sessionId =>
    cases h
    exact mutates_transaction (kept rfl rfl rfl rfl rfl rfl rfl) rfl rfl rfl (by decide)
  | advanceInteractionState id event => exact mutates_advanceInteractionState h
  | setInteractionViolated id =>
    cases h
    exact mutates_transaction (kept rfl rfl rfl rfl rfl rfl rfl) rfl rfl rfl (by decide)
  | allocateQuestionNumber id =>
    cases h
    have grows : r.nextQuestionNumber ≤ r.nextQuestionNumber + 1 := by omega
    exact mutates_transaction (.of_aside rfl rfl rfl rfl rfl grows (Nat.le_refl _)) rfl rfl rfl
      (by decide)
  | addOpenQuestion id question =>
    cases h
    exact mutates_commitOpenQuestions _ _
  | markQuestionAnswered id number => exact mutates_reviseQuestion h
  | stageStaleMid id number mid kind => exact mutates_reviseQuestion h
  | unstageStaleMid id number mid => exact mutates_reviseQuestion h
  | updateQuestionMid id number newMid => exact mutates_reviseQuestion h
  | closeOpenQuestion id number =>
    simp only [Op.edit, Record.closeOpenQuestion] at h
    split at h
    · cases h
    · cases h
      exact mutates_commitOpenQuestions _ _
  | setSummaryMessageId id messageId =>
    cases h
    exact mutates_transaction (kept rfl rfl rfl rfl rfl rfl rfl) rfl rfl rfl (by decide)
  | allocateSummaryRevision id =>
    cases h
    exact mutates_transaction (kept rfl rfl rfl rfl rfl rfl rfl) rfl rfl rfl (by decide)

theorem Op.mutates {op : Op} {found : Option Record} (new : op.inserts = true → found = none)
    (h : op.edit now found = .ok e) : Mutates op.id found e := by
  cases insert : op.inserts with
  | true =>
    rw [new insert] at h ⊢
    cases op with
    | create id origin state permit =>
      cases h
      refine .insert rfl rfl ?_
      cases permit <;> simp
    | _ => cases insert
  | false =>
    cases found with
    | none =>
      cases op with
      | create => cases insert
      | _ => cases h
    | some r => exact Op.mutates_found insert h

theorem Op.ends_of_claims {op : Op} {found : Option Record} (claims : op.claims = true)
    (h : op.edit now found = .ok e) :
    ∃ r, found = some r ∧ r.live = true ∧ e.next.status.terminal = true := by
  cases op with
  | markError id kind message =>
    cases found with
    | none => cases h
    | some r =>
      simp only [Op.edit, Record.markError, Record.mark] at h
      split at h
      · cases h
      · rename_i open_
        cases h
        exact ⟨r, rfl, by simpa [Record.live] using open_, rfl⟩
  | tryTransitionTerminal id args =>
    cases found with
    | none => cases h
    | some r =>
      simp only [Op.edit, Record.tryTransitionTerminal] at h
      split at h
      · cases h
      rename_i open_
      refine ⟨r, rfl, by simpa [Record.live] using open_, ?_⟩
      split at h
      · cases h
      split at h
      · cases h
      split at h <;> cases h <;> exact Record.flip_terminal now r args
  | _ => cases claims

end Inversion

end Casa.EngagementRecord
