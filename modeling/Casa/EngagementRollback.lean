import Casa.FaultState
import Casa.KeyedTable
import Casa.PythonValue

/-! The strict mutators of the engagement registry as they change its objects in place. Each one
writes the tombstone under the lock and takes its change back by hand when the write fails; an
origin is a dictionary, in which a missing key and a None differ. -/

namespace Casa.EngagementRollback

open FaultState KeyedTable PythonValue

/-! ### Dictionaries -/

abbrev Dict (V : Type) := Table (Prod.fst : String × V → String)

namespace Dict
variable {V : Type} {d : Dict V} {key other : String}

def get (d : Dict V) (key : String) : Option V := (d.get? key).map Prod.snd

def set (d : Dict V) (key : String) (v : V) : Dict V := d.put (key, v)

/-- Back to what was snapped; none is `_FIELD_MISSING`. -/
def restore (d : Dict V) (key : String) : Option V → Dict V
  | some v => d.set key v
  | none => d.remove key

theorem get?_of_get {v : V} (h : d.get key = some v) : d.get? key = some (key, v) := by
  obtain ⟨⟨name, w⟩, found, rfl⟩ := Option.map_eq_some_iff.1 h
  have same : name = key := Table.key_of_get? found
  rw [found, same]

theorem get?_of_get_none (h : d.get key = none) : d.get? key = none :=
  Option.map_eq_none_iff.1 h

theorem restore_self (d : Dict V) (key : String) : d.restore key (d.get key) = d := by
  cases found : d.get key with
  | some v => exact Table.put_self (get?_of_get found)
  | none =>
    apply Table.ext
    have absent := Table.get?_eq_none_iff.1 (get?_of_get_none found)
    simp only [restore, Table.remove, List.filter_eq_self, decide_eq_true_eq]
    rintro ⟨name, v⟩ inside rfl
    exact absent (List.mem_map.2 ⟨_, inside, rfl⟩)

theorem restore_set (d : Dict V) (key : String) (v : V) :
    (d.set key v).restore key (d.get key) = d := by
  cases found : d.get key with
  | some w =>
    have same : d.put (key, w) = d := Table.put_self (v := (key, w)) (get?_of_get found)
    have again : (d.put (key, v)).put (key, w) = d.put (key, w) := Table.put_put rfl
    exact again.trans same
  | none => exact Table.remove_put (v := (key, v)) (get?_of_get_none found)

theorem restore_set_set (d : Dict V) (apart : key ≠ other) (v w : V) :
    ((d.set key v).set other w).restore key (d.get key) = d.set other w := by
  have back := restore_set d key v
  cases found : d.get key with
  | some u =>
    rw [found] at back
    have written : (d.set key v).get? (key, u).1 ≠ none := by simp [set]
    exact (Table.put_comm_of_mem written apart).trans (congrArg (fun e => set e other w) back)
  | none =>
    rw [found] at back
    have other' : (other, w).1 ≠ key := Ne.symm apart
    exact (Table.remove_put_of_ne _ other').trans (congrArg (fun e => set e other w) back)

end Dict

/-! ### The registry -/

section Data
variable (T L : Type)

/-- What an origin holds: JSON, or a live object of the process. -/
inductive Value where
  | json (value : Json T)
  | live (object : L)

abbrev Question (T : Type) := Dict (Json T)

inductive Permit where
  | held
  | released
deriving DecidableEq

structure EngagementRecord where
  id : String
  kind : String
  roleOrType : String
  driver : String
  status : String
  topicId : Option Int
  startedAt : T
  lastUserTurnTs : T
  lastIdleReminderTs : T
  completedAt : Option T
  sdkSessionId : Option String
  origin : Dict (Value T L)
  task : String
  authToken : String
  pinnedMessageId : Option Int
  progressMessageId : Option Int
  currentStateEmoji : Option String
  toolsAllowed : List String
  permissionMode : String
  pluginArtifacts : List (Dict (Json T))
  interactionState : String
  permit : Option Permit
  nextQuestionNumber : Int
  openQuestions : List (Question T)
  summaryMessageId : Option Int
  summaryRevision : Int
  topicTitle : String

abbrev Records := Table (EngagementRecord.id : EngagementRecord T L → String)

abbrev TopicIndex := Table (Prod.fst : Int × String → Int)

structure Registry where
  records : Records T L
  topicIndex : TopicIndex

/-- The registry, the rows of the tombstone file, and how often it was to be written. -/
structure State where
  registry : Registry T L
  tombstone : List (EngagementRecord T L)
  writes : ℕ

/-- The runtime around a call, with the time of the call and whether its write fails. -/
structure Env where
  eq : Json T → Json T → Bool
  truthy : Json T → Bool
  lt : T → T → Bool
  le : T → T → Bool
  zero : T
  now : T
  /-- What is older has left the tombstone. -/
  cutoff : T
  fault : Option String

end Data

inductive Fault where
  | write (message : String)
  | terminalPreconditionFailed (reason : String)
  | typeError
deriving DecidableEq

inductive Answer where
  | unit
  | flag (b : Bool)
  | number (n : Option Int)
  | state (s : Option String)
  | record (id : String)

variable {T L : Type}

abbrev Call (T L : Type) (α : Type) := EStateM Fault (State T L) α

def terminalStatuses : List String := ["completed", "cancelled", "error"]

def nonPersistableOriginKeys : List String :=
  ["speaker_provenance", "_voice_handoff_reservation", "_progress_sink",
    "voice_route_capabilities", "voice_deadline"]

def persistableOrigin (origin : Dict (Value T L)) : Dict (Value T L) :=
  origin.filter fun field => field.1 ∉ nonPersistableOriginKeys

section Source
variable (env : Env T)

def row (r : EngagementRecord T L) : EngagementRecord T L :=
  { r with origin := persistableOrigin r.origin, permit := none }

def aged (r : EngagementRecord T L) : Bool :=
  r.status ∈ terminalStatuses && r.completedAt.any fun completed => env.lt completed env.cutoff

def snapshot (records : Records T L) : List (EngagementRecord T L) :=
  (records.rows.filter fun r => !aged env r).map row

def writeTombstoneLocked (strict : Bool) : Call T L PUnit := do
  modify fun s => { s with writes := s.writes + 1 }
  match env.fault with
  | none => modify fun s => { s with tombstone := snapshot env s.registry.records }
  | some message => if strict then throw (.write message)

def lookup (id : String) : Call T L (Option (EngagementRecord T L)) :=
  return (← get).registry.records.get? id

def withRecord (id : String) (missing : Answer) (f : EngagementRecord T L → Call T L Answer) :
    Call T L Answer := do
  match ← lookup id with
  | none => return missing
  | some r => f r

def change (id : String) (f : EngagementRecord T L → EngagementRecord T L) : Call T L PUnit :=
  modify fun s => match s.registry.records.get? id with
    | some r => { s with registry := { s.registry with records := s.registry.records.put (f r) } }
    | none => s

def persisting {α : Type} (id : String) (f undo : EngagementRecord T L → EngagementRecord T L)
    (answer : α) : Call T L α := do
  change id f
  tryCatch (writeTombstoneLocked env true) fun e => do
    change id undo
    throw e
  return answer

def releasePermit (r : EngagementRecord T L) : EngagementRecord T L :=
  { r with permit := r.permit.map fun _ => .released }

/-- What `create` is called with, and the id and the token that it draws. -/
structure NewEngagement (T L : Type) where
  id : String
  authToken : String
  kind : String
  roleOrType : String
  driver : String
  task : String
  origin : Dict (Value T L)
  topicId : Option Int
  toolsAllowed : List String
  permissionMode : String
  pluginArtifacts : List (Dict (Json T))
  interactionState : String
  topicTitle : String

def NewEngagement.record (e : NewEngagement T L) : EngagementRecord T L where
  id := e.id
  kind := e.kind
  roleOrType := e.roleOrType
  driver := e.driver
  status := "active"
  topicId := e.topicId
  startedAt := env.now
  lastUserTurnTs := env.now
  lastIdleReminderTs := env.zero
  completedAt := none
  sdkSessionId := none
  origin := e.origin
  task := e.task
  authToken := e.authToken
  pinnedMessageId := none
  progressMessageId := none
  currentStateEmoji := none
  toolsAllowed := e.toolsAllowed
  permissionMode := if e.permissionMode = "" then "acceptEdits" else e.permissionMode
  pluginArtifacts := e.pluginArtifacts
  interactionState := e.interactionState
  permit := none
  nextQuestionNumber := 1
  openQuestions := []
  summaryMessageId := none
  summaryRevision := 0
  topicTitle := e.topicTitle

def insert (r : EngagementRecord T L) (registry : Registry T L) : Registry T L where
  records := registry.records.put r
  topicIndex := match r.topicId with
    | some topic => registry.topicIndex.put (topic, r.id)
    | none => registry.topicIndex

/-- `_rollback` of `create`: a topic that is still mapped to the record is no longer mapped. -/
def rollback (r : EngagementRecord T L) (registry : Registry T L) : Registry T L where
  records := registry.records.remove r.id
  topicIndex := match r.topicId with
    | some topic =>
      if registry.topicIndex.get? topic = some (topic, r.id) then registry.topicIndex.remove topic
      else registry.topicIndex
    | none => registry.topicIndex

def create (e : NewEngagement T L) : Call T L Answer := do
  let r := e.record env
  modify fun s => { s with registry := insert r s.registry }
  tryCatch (writeTombstoneLocked env true) fun fault => do
    modify fun s => { s with registry := rollback r s.registry }
    throw fault
  return .record r.id

structure Terminal (T : Type) where
  outcome : String
  completedAt : Option T
  errorKind : String
  errorMessage : String
  staleBefore : Option T
  /-- Whether there is a hook, and the reason for which it vetoes. -/
  terminalHook : Option (Option String)

def text (s : String) : Value T L := .json (.str s)

def Terminal.newStatus (args : Terminal T) : String :=
  if args.outcome ∈ ["completed", "cancelled"] then args.outcome else "error"

def flip (args : Terminal T) (r : EngagementRecord T L) : EngagementRecord T L :=
  { r with
    status := args.newStatus
    completedAt := some (args.completedAt.getD env.now)
    origin :=
      if args.newStatus = "error" then
        (r.origin.set "error_kind"
          (text (if args.errorKind = "" then "emit_completion_error" else args.errorKind))).set
          "error_message" (text args.errorMessage)
      else r.origin }

/-- `_restore`, to the snapshot of `r`. -/
def restoreTerminal (r next : EngagementRecord T L) : EngagementRecord T L :=
  { next with
    status := r.status
    completedAt := r.completedAt
    origin := (next.origin.restore "error_kind" (r.origin.get "error_kind")).restore
      "error_message" (r.origin.get "error_message") }

def tryTransitionTerminal (id : String) (args : Terminal T) (strict : Bool) :
    Call T L Answer :=
  withRecord id (.flag false) fun r =>
    if r.status ∈ terminalStatuses then return .flag false
    else if args.staleBefore.any fun before => env.le before r.lastUserTurnTs then
      return .flag false
    else match args.terminalHook with
      | some (some reason) => throw (.terminalPreconditionFailed reason)
      | _ =>
        if strict then do
          persisting env id (flip env args) (restoreTerminal r) ()
          change id releasePermit
          return .flag true
        else do
          change id fun r => releasePermit (flip env args r)
          writeTombstoneLocked env false
          return .flag true

def persistSessionId (id sessionId : String) : Call T L Answer :=
  withRecord id .unit fun r =>
    persisting env id (fun next => { next with sdkSessionId := some sessionId })
      (fun next => { next with sdkSessionId := r.sdkSessionId }) .unit

def pureInteractionTransition (current event : String) : Option String :=
  if event = "first_contact" then
    if current = "first_contact_required" then some "awaiting_operator" else none
  else if event ∈ ["operator_answered", "operator_turn"] then
    if current ∈ ["first_contact_required", "awaiting_operator"] then some "authorized" else none
  else none

def advanceInteractionState (id event : String) : Call T L Answer :=
  withRecord id (.state none) fun r => match pureInteractionTransition r.interactionState event with
    | none => return .state none
    | some newState =>
      persisting env id (fun next => { next with interactionState := newState })
        (fun next => { next with interactionState := r.interactionState }) (.state (some newState))

def setInteractionViolated (id : String) : Call T L Answer :=
  withRecord id .unit fun r =>
    let hadFlag := (r.origin.get "interaction_violated").isSome
    let prev := (r.origin.get "interaction_violated").getD (.json .null)
    persisting env id
      (fun next => { next with
        origin := next.origin.set "interaction_violated" (.json (.bool true)) })
      (fun next => { next with
        origin := if hadFlag then next.origin.set "interaction_violated" prev
          else next.origin.remove "interaction_violated" }) .unit

def allocateQuestionNumber (id : String) : Call T L Answer :=
  withRecord id (.number none) fun r =>
    persisting env id (fun next => { next with nextQuestionNumber := r.nextQuestionNumber + 1 })
      (fun next => { next with nextQuestionNumber := r.nextQuestionNumber })
      (.number (some r.nextQuestionNumber))

def allocateSummaryRevision (id : String) : Call T L Answer :=
  withRecord id (.number none) fun r =>
    persisting env id (fun next => { next with summaryRevision := r.summaryRevision + 1 })
      (fun next => { next with summaryRevision := r.summaryRevision })
      (.number (some r.summaryRevision))

def setSummaryMessageId (id : String) (messageId : Option Int) : Call T L Answer :=
  withRecord id .unit fun r =>
    persisting env id (fun next => { next with summaryMessageId := messageId })
      (fun next => { next with summaryMessageId := r.summaryMessageId }) .unit

/-! ### The ledger of open questions -/

/-- `_commit_open_questions_strict`, with the assignment before it. -/
def commitOpenQuestions (r : EngagementRecord T L) (questions : List (Question T))
    (answer : Answer) : Call T L Answer :=
  persisting env r.id (fun next => { next with openQuestions := questions })
    (fun next => { next with openQuestions := r.openQuestions }) answer

/-- `q.get(key)`. -/
def field (q : Question T) (key : String) : Json T := (q.get key).getD .null

def hasNumber (number : Int) (q : Question T) : Bool := env.eq (field q "n") (.int number)

def ofOptional (d : Question T) (key : String) : Option String → Question T
  | some s => d.set key (.str s)
  | none => d

def openQuestion (number : Int) (tgMessageId : Option Int) (text : Option String) (kind : String)
    (sourceHash : Option String) : Question T :=
  let entry : Question T := Table.empty
  let entry := entry.set "n" (.int number)
  let entry := entry.set "tg_message_id" (Json.ofOption .int tgMessageId)
  let entry := entry.set "kind" (.str kind)
  let entry := entry.set "answered" (.bool false)
  let entry := entry.set "stale_mids" (.arr [])
  ofOptional (ofOptional entry "text" text) "source_hash" sourceHash

def addOpenQuestion (id : String) (number : Int) (tgMessageId : Option Int) (text : Option String)
    (kind : String) (sourceHash : Option String) : Call T L Answer :=
  withRecord id .unit fun r =>
    commitOpenQuestions env r (r.openQuestions.filter (fun q => !hasNumber env number q) ++
      [openQuestion number tgMessageId text kind sourceHash]) .unit

/-- The mutators that rewrite the entries of one number, and answer False when there are none. -/
def reviseQuestion (id : String) (number : Int) (f : Question T → Except Fault (Question T)) :
    Call T L Answer :=
  withRecord id (.flag false) fun r =>
    do
    let entries ← attempt (r.openQuestions.mapM fun q =>
      if hasNumber env number q then f q else pure q)
    if r.openQuestions.any (hasNumber env number) then
      commitOpenQuestions env r entries (.flag true)
    else return .flag false

structure StaleMid (T : Type) where
  mid : Json T
  kind : Json T

def normalizeStaleMidEntry : Json T → StaleMid T
  | .obj fields =>
    ⟨Json.get fields "mid",
      if env.truthy (Json.get fields "kind") then Json.get fields "kind" else .str "plain"⟩
  | entry => ⟨entry, .str "plain"⟩

def StaleMid.json (s : StaleMid T) : Json T := .obj [("mid", s.mid), ("kind", s.kind)]

/-- What a `for` goes through. -/
def items : Json T → Except Fault (List (Json T))
  | .arr xs => .ok xs
  | .str s => .ok (s.toList.map fun c => .str c.toString)
  | .obj fields => .ok (fields.map fun f => .str f.1)
  | _ => .error .typeError

/-- `q.get("stale_mids") or []`, normalized. -/
def staleMids (q : Question T) : Except Fault (List (StaleMid T)) :=
  if env.truthy (field q "stale_mids") then
    (items (field q "stale_mids")).map fun xs => xs.map (normalizeStaleMidEntry env)
  else .ok []

def withStale (q : Question T) (stale : List (StaleMid T)) : Question T :=
  q.set "stale_mids" (.arr (stale.map StaleMid.json))

def markQuestionAnswered (id : String) (number : Int) : Call T L Answer :=
  reviseQuestion env id number fun q => .ok (q.set "answered" (.bool true))

def stageStaleMid (id : String) (number mid : Int) (kind : String) : Call T L Answer :=
  reviseQuestion env id number fun q => (staleMids env q).map fun stale =>
    if stale.any fun s => env.eq s.mid (.int mid) then withStale q stale
    else withStale q (stale ++ [⟨.int mid, .str kind⟩])

def unstageStaleMid (id : String) (number mid : Int) : Call T L Answer :=
  reviseQuestion env id number fun q => (staleMids env q).map fun stale =>
    withStale q (stale.filter fun s => !env.eq s.mid (.int mid))

def updateQuestionMid (id : String) (number newMid : Int) : Call T L Answer :=
  reviseQuestion env id number fun q => (staleMids env q).map fun stale =>
    withStale (q.set "tg_message_id" (.int newMid)) (stale.map fun s =>
      if env.eq s.mid (field q "tg_message_id") then { s with kind := .str "reanchored" } else s)

def closeOpenQuestion (id : String) (number : Int) : Call T L Answer :=
  withRecord id .unit fun r =>
    let remaining := r.openQuestions.filter fun q => !hasNumber env number q
    if remaining.length = r.openQuestions.length then return .unit
    else commitOpenQuestions env r remaining .unit

/-! ### The calls -/

inductive Op (T L : Type) where
  | create (e : NewEngagement T L)
  | tryTransitionTerminal (id : String) (args : Terminal T)
  | persistSessionId (id sessionId : String)
  | advanceInteractionState (id event : String)
  | setInteractionViolated (id : String)
  | allocateQuestionNumber (id : String)
  | allocateSummaryRevision (id : String)
  | addOpenQuestion (id : String) (number : Int) (tgMessageId : Option Int) (text : Option String)
      (kind : String) (sourceHash : Option String)
  | markQuestionAnswered (id : String) (number : Int)
  | stageStaleMid (id : String) (number mid : Int) (kind : String)
  | unstageStaleMid (id : String) (number mid : Int)
  | updateQuestionMid (id : String) (number newMid : Int)
  | closeOpenQuestion (id : String) (number : Int)
  | setSummaryMessageId (id : String) (messageId : Option Int)

def Op.call : Op T L → Call T L Answer
  | create e => EngagementRollback.create env e
  | tryTransitionTerminal id args => EngagementRollback.tryTransitionTerminal env id args true
  | persistSessionId id sessionId => EngagementRollback.persistSessionId env id sessionId
  | advanceInteractionState id event => EngagementRollback.advanceInteractionState env id event
  | setInteractionViolated id => EngagementRollback.setInteractionViolated env id
  | allocateQuestionNumber id => EngagementRollback.allocateQuestionNumber env id
  | allocateSummaryRevision id => EngagementRollback.allocateSummaryRevision env id
  | addOpenQuestion id number tgMessageId text kind sourceHash =>
    EngagementRollback.addOpenQuestion env id number tgMessageId text kind sourceHash
  | markQuestionAnswered id number => EngagementRollback.markQuestionAnswered env id number
  | stageStaleMid id number mid kind => EngagementRollback.stageStaleMid env id number mid kind
  | unstageStaleMid id number mid => EngagementRollback.unstageStaleMid env id number mid
  | updateQuestionMid id number newMid => EngagementRollback.updateQuestionMid env id number newMid
  | closeOpenQuestion id number => EngagementRollback.closeOpenQuestion env id number
  | setSummaryMessageId id messageId => EngagementRollback.setSummaryMessageId env id messageId

end Source

/-! ### What a failed write leaves -/

def failing (env : Env T) (message : String) : Env T := { env with fault := some message }

/-- The call leaves the registry and the file as they were, and when it has come to the write, it
raises what the write has raised. -/
def ChangesNothing {α : Type} (message : String) (s : State T L) (call : Call T L α) : Prop :=
  Ends call s (fun _ t => t = s) fun e t =>
    t.registry = s.registry ∧ t.tombstone = s.tombstone ∧ (t.writes ≠ s.writes → e = .write message)

section Facts
variable {env : Env T} {message id : String} {s : State T L} {r : EngagementRecord T L} {α : Type}
  {f undo : EngagementRecord T L → EngagementRecord T L}

theorem ends_writeTombstoneLocked (Q : PUnit → State T L → Prop) (E : Fault → State T L → Prop) :
    Ends (writeTombstoneLocked (failing env message) true) s Q E ↔
      E (.write message) { s with writes := s.writes + 1 } := by
  simp [writeTombstoneLocked, failing]

theorem ends_change (Q : PUnit → State T L → Prop) (E : Fault → State T L → Prop)
    (found : s.registry.records.get? id = some r) :
    Ends (change id f) s Q E ↔
      Q ⟨⟩ { s with registry := { s.registry with records := s.registry.records.put (f r) } } := by
  simp [change, found]

def RaisesWrite {α : Type} (message : String) (s : State T L) (call : Call T L α) : Prop :=
  Ends call s (fun _ _ => False) fun e t =>
    t.registry = s.registry ∧ t.tombstone = s.tombstone ∧ e = .write message

theorem RaisesWrite.changesNothing {call : Call T L α} (raises : RaisesWrite message s call) :
    ChangesNothing message s call :=
  raises.mono (fun _ _ never => never.elim) fun _ _ kept => ⟨kept.1, kept.2.1, fun _ => kept.2.2⟩

theorem RaisesWrite.bind {β : Type} {call : Call T L α} (raises : RaisesWrite message s call)
    (rest : α → Call T L β) : RaisesWrite message s (call >>= rest) :=
  (ends_bind _ _ _ _ _).2 (raises.mono (fun _ _ never => never.elim) fun _ _ kept => kept)

theorem raisesWrite_persisting {answer : α} (found : s.registry.records.get? id = some r)
    (same : (f r).id = r.id) (back : undo (f r) = r) :
    RaisesWrite message s (persisting (failing env message) id f undo answer) := by
  have is : r.id = id := Table.key_of_get? found
  have now : (s.registry.records.put (f r)).get? id = some (f r) := by
    rw [← is, ← same]
    exact Table.get?_put_self _ _
  have again : (s.registry.records.put (f r)).put r = s.registry.records := by
    rw [Table.put_put same, Table.put_self (is ▸ found)]
  unfold RaisesWrite persisting
  rw [ends_bind, ends_change _ _ found, ends_bind, ends_tryCatch, ends_writeTombstoneLocked,
    ends_bind, ends_change _ _ now, ends_throw, back, again]
  exact ⟨rfl, rfl, rfl⟩

theorem changesNothing_withRecord {missing : Answer} {g : EngagementRecord T L → Call T L Answer}
    (there : ∀ r, s.registry.records.get? id = some r → ChangesNothing message s (g r)) :
    ChangesNothing message s (withRecord id missing g) := by
  unfold ChangesNothing withRecord lookup
  simp only [bind_pure_comp, ends_bind, ends_map, ends_get]
  cases found : s.registry.records.get? id with
  | none => rfl
  | some r => exact there r found

theorem changesNothing_pure (a : α) : ChangesNothing message s (pure a : Call T L α) := rfl

theorem changesNothing_throw (e : Fault) : ChangesNothing message s (throw e : Call T L α) :=
  ⟨rfl, rfl, fun written => absurd rfl written⟩

theorem restoreTerminal_flip (args : Terminal T) (r : EngagementRecord T L) :
    restoreTerminal r (flip env args r) = r := by
  have apart : "error_kind" ≠ "error_message" := by decide
  have origin : ((flip env args r).origin.restore "error_kind" (r.origin.get "error_kind")).restore
      "error_message" (r.origin.get "error_message") = r.origin := by
    unfold flip
    dsimp only
    split
    · rw [Dict.restore_set_set _ apart, Dict.restore_set]
    · rw [Dict.restore_self, Dict.restore_self]
  unfold restoreTerminal
  rw [origin]
  rfl

theorem changesNothing_tryTransitionTerminal (args : Terminal T) :
    ChangesNothing message s (tryTransitionTerminal (failing env message) id args true) := by
  refine changesNothing_withRecord fun r found => ?_
  split
  · exact changesNothing_pure _
  split
  · exact changesNothing_pure _
  split
  · exact changesNothing_throw _
  · have raises : RaisesWrite message s (persisting (failing env message) id
        (flip (failing env message) args) (restoreTerminal r) ()) :=
      raisesWrite_persisting found rfl (restoreTerminal_flip args r)
    exact (raises.bind _).changesNothing

theorem changesNothing_commit {questions : List (Question T)} {answer : Answer}
    (found : s.registry.records.get? id = some r) :
    ChangesNothing message s (commitOpenQuestions (failing env message) r questions answer) := by
  have is : r.id = id := Table.key_of_get? found
  exact (raisesWrite_persisting (is ▸ found) rfl rfl).changesNothing

theorem changesNothing_reviseQuestion {number : Int}
    {g : Question T → Except Fault (Question T)} :
    ChangesNothing message s (reviseQuestion (failing env message) id number g) := by
  refine changesNothing_withRecord fun r found => ?_
  unfold ChangesNothing
  rw [ends_bind, ends_attempt]
  refine ⟨fun entries _ => ?_, fun e _ => changesNothing_throw (α := PUnit) e⟩
  split
  · exact changesNothing_commit found
  · exact changesNothing_pure _

theorem changesNothing_closeOpenQuestion {number : Int} :
    ChangesNothing message s (closeOpenQuestion (failing env message) id number) := by
  refine changesNothing_withRecord fun r found => ?_
  dsimp only
  split
  · exact changesNothing_pure _
  · exact changesNothing_commit found

theorem changesNothing_setInteractionViolated :
    ChangesNothing message s (setInteractionViolated (failing env message) id) := by
  refine changesNothing_withRecord fun r found =>
    (raisesWrite_persisting found rfl ?_).changesNothing
  have back := Dict.restore_set r.origin "interaction_violated" (.json (.bool true))
  dsimp only
  cases had : r.origin.get "interaction_violated" with
  | none =>
    rw [had] at back
    simp only [Option.isSome_none, Bool.false_eq_true, if_false]
    exact congrArg (fun o => { r with origin := o }) back
  | some prev =>
    rw [had] at back
    simp only [Option.isSome_some, if_true, Option.getD_some]
    exact congrArg (fun o => { r with origin := o }) back

/-! ### The rollback of `create` -/

theorem changesNothing_create_iff (e : NewEngagement T L) :
    ChangesNothing message s (create (failing env message) e) ↔
      rollback (e.record (failing env message)) (insert (e.record (failing env message))
        s.registry) = s.registry := by
  unfold ChangesNothing create
  simp only [ends_bind, ends_modify, ends_tryCatch, ends_writeTombstoneLocked, ends_throw]
  simp

/-- The rollback takes the insertion back when the id and the topic are new, and only then. -/
theorem rollback_insert_iff (r : EngagementRecord T L) (registry : Registry T L) :
    rollback r (insert r registry) = registry ↔ registry.records.get? r.id = none ∧
      ∀ topic, r.topicId = some topic → registry.topicIndex.get? topic = none := by
  obtain ⟨records, topicIndex⟩ := registry
  constructor
  · intro same
    have both := Registry.mk.inj same
    refine ⟨?_, fun topic is => ?_⟩
    · rw [← both.1]
      simp [Table.get?_remove]
    · have index := both.2
      simp only [insert, is, Table.get?_put, if_true] at index
      rw [← index]
      simp [Table.get?_remove]
  · rintro ⟨fresh, free⟩
    unfold rollback insert
    rw [Table.remove_put fresh]
    cases is : r.topicId with
    | none => rfl
    | some topic =>
      have gone : (topicIndex.put (topic, r.id)).remove topic = topicIndex :=
        Table.remove_put (v := (topic, r.id)) (free topic is)
      simp only [Table.get?_put, if_true, gone]

/-- Whether a failed `create` can take itself back; every other call can. -/
def Revertible (registry : Registry T L) : Op T L → Prop
  | .create e => registry.records.get? e.id = none ∧
      ∀ topic, e.topicId = some topic → registry.topicIndex.get? topic = none
  | _ => True

/-- A failed write leaves nothing of the call, unless it is the creation of an engagement on a
topic that is mapped already, or under an id that is taken. -/
theorem changesNothing_iff (env : Env T) (message : String) (s : State T L) (op : Op T L) :
    ChangesNothing message s (op.call (failing env message)) ↔ Revertible s.registry op := by
  cases op with
  | create e => exact (changesNothing_create_iff e).trans (rollback_insert_iff _ _)
  | tryTransitionTerminal id args =>
    exact iff_of_true (changesNothing_tryTransitionTerminal args) trivial
  | persistSessionId id sessionId =>
    exact iff_of_true (changesNothing_withRecord fun r found =>
      (raisesWrite_persisting found rfl rfl).changesNothing) trivial
  | advanceInteractionState id event =>
    refine iff_of_true (changesNothing_withRecord fun r found => ?_) trivial
    split
    · exact changesNothing_pure _
    · exact (raisesWrite_persisting found rfl rfl).changesNothing
  | setInteractionViolated id => exact iff_of_true changesNothing_setInteractionViolated trivial
  | allocateQuestionNumber id =>
    exact iff_of_true (changesNothing_withRecord fun r found =>
      (raisesWrite_persisting found rfl rfl).changesNothing) trivial
  | allocateSummaryRevision id =>
    exact iff_of_true (changesNothing_withRecord fun r found =>
      (raisesWrite_persisting found rfl rfl).changesNothing) trivial
  | addOpenQuestion id number tgMessageId text kind sourceHash =>
    exact iff_of_true (changesNothing_withRecord fun r found => changesNothing_commit found) trivial
  | markQuestionAnswered id number => exact iff_of_true changesNothing_reviseQuestion trivial
  | stageStaleMid id number mid kind => exact iff_of_true changesNothing_reviseQuestion trivial
  | unstageStaleMid id number mid => exact iff_of_true changesNothing_reviseQuestion trivial
  | updateQuestionMid id number newMid => exact iff_of_true changesNothing_reviseQuestion trivial
  | closeOpenQuestion id number => exact iff_of_true changesNothing_closeOpenQuestion trivial
  | setSummaryMessageId id messageId =>
    exact iff_of_true (changesNothing_withRecord fun r found =>
      (raisesWrite_persisting found rfl rfl).changesNothing) trivial

end Facts
/-! ### A topic that is mapped already -/

def quietEnv : Env ℕ :=
  ⟨fun _ _ => false, fun _ => false, fun x y => x < y, fun x y => x ≤ y, 0, 100, 0, none⟩

def onTopic (id : String) (topic : Int) : NewEngagement ℕ Unit :=
  ⟨id, "token", "executor", "configurator", "claude_code", "task", Table.empty, some topic, [], "",
    [], "", ""⟩

def oneEngagement : State ℕ Unit :=
  ⟨insert ((onTopic "first" 7).record quietEnv) ⟨Table.empty, Table.empty⟩, [], 0⟩

/-- The failed creation of a second one leaves the first one without its topic. -/
theorem topic_is_lost :
    ¬ ChangesNothing "no space left" oneEngagement
      ((Op.create (onTopic "second" 7)).call (failing quietEnv "no space left")) := by
  intro kept
  have same := (changesNothing_create_iff _).1 kept
  have mapped := congrArg (fun g => g.topicIndex.get? 7) same
  exact absurd mapped (by decide)

end Casa.EngagementRollback
