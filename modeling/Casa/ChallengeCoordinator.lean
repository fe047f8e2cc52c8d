import Casa.VerdictOutcomes

/-! The confirmation challenges of protected tools (`authz_grants.py`): one keyboard for each key,
registered with the broker and posted by a driver task of its own, and removed by two latches
whichever comes second. -/

namespace Casa.ChallengeCoordinator
open KeyedTable StepRuns VerdictBroker VerdictBroker.Broker VerdictOutcomes

variable {K T : Type}

section Boards
variable {b : Broker T} {req : PendingRequest T} {key : Key} {outcome : Outcome}

def board (b : Broker T) (id : Nat) : Option (Setup × Option Int) :=
  (b.requests.get? id).map fun r => (r.setup, r.metadata.messageId)

def Leaves (b b' : Broker T) : Prop := ∀ id v, board b id = some v → board b' id = some v

theorem Leaves.refl (b : Broker T) : Leaves b b := fun _ _ h => h

theorem Leaves.trans {b c d : Broker T} (first : Leaves b c) (second : Leaves c d) : Leaves b d :=
  fun id v h => second id v (first id v h)

theorem board_of_row {id : Nat} (row : b.requests.get? id = some req) :
    board b id = some (req.setup, req.metadata.messageId) := by
  rw [board, row]
  rfl

theorem Leaves.of_requests {b c d : Broker T} (same : c.requests = b.requests)
    (h : Leaves c d) : Leaves b d := by
  intro id v shown
  rw [board, ← same] at shown
  exact h id v shown

theorem leaves_put {b' : Broker T} (req : PendingRequest T) {req' : PendingRequest T}
    (row : b.requests.get? req.id = some req) (requests : b'.requests = b.requests.put req')
    (id : req'.id = req.id) (setup : req'.setup = req.setup)
    (message : req'.metadata.messageId = req.metadata.messageId) : Leaves b b' := by
  intro i v shown
  rw [board, requests, Table.get?_put, id]
  split
  · next at_ =>
    rw [← at_, board_of_row row] at shown
    rw [Option.map_some, setup, message, shown]
  · exact shown

section
variable (row : b.requests.get? req.id = some req)
include row

theorem leaves_cancelTimer : Leaves b (b.cancelTimer req) := by
  unfold cancelTimer
  split
  · exact leaves_put _ row rfl rfl rfl rfl
  · exact .refl b

theorem leaves_store_cancelTimer {req' : PendingRequest T} (id : req'.id = req.id)
    (setup : req'.setup = req.setup) (message : req'.metadata.messageId = req.metadata.messageId) :
    Leaves b ((b.cancelTimer req).store req') := by
  refine (leaves_cancelTimer row).trans ?_
  unfold cancelTimer
  split
  · have row' : (b.requests.put { req with timer := none }).get? req.id =
        some { req with timer := none } := by rw [Table.get?_put, if_pos rfl]
    exact leaves_put { req with timer := none } row' rfl id setup message
  · exact leaves_put _ row rfl id setup message

theorem leaves_settle : Leaves b (b.settle key req outcome) :=
  Leaves.of_requests rfl (leaves_store_cancelTimer (b := { b with live := b.live.remove key }) row
    rfl rfl rfl)

theorem leaves_fireHook : Leaves b (b.fireHook req outcome) := by
  unfold fireHook
  split
  · exact .refl b
  · exact leaves_put _ row rfl rfl rfl rfl

end

theorem row_settle : (b.settle key req outcome).requests.get? req.id =
    some (resolved req outcome) := by
  rw [Broker.settle, store, Table.get?_put]
  exact if_pos rfl

theorem leaves_finish (b : Broker T) (key : Key) (outcome : Outcome) :
    Leaves b (b.finish key outcome) := by
  unfold Broker.finish
  split
  · exact .refl b
  · next req found =>
    have settled : Leaves b (b.settle key req outcome) :=
      leaves_settle (liveRequest_eq_some found).2
    refine settled.trans (Leaves.of_requests ?_ (leaves_fireHook ?_))
    · rfl
    · exact row_settle

theorem leaves_finishAll (b : Broker T) (keys : List Key) (outcome : Outcome) :
    Leaves b (b.finishAll keys outcome) := by
  induction keys generalizing b with
  | nil => exact .refl b
  | cons key rest ih => exact (leaves_finish b key outcome).trans (ih _)

theorem leaves_unregister (b : Broker T) (key : Key) : Leaves b (b.unregister key) := by
  unfold Broker.unregister
  split
  · next found => exact leaves_settle (liveRequest_eq_some found).2
  · exact .refl b

theorem leaves_setFinishHook (row : b.requests.get? req.id = some req) :
    Leaves b (b.setFinishHook req) := by
  have hooked : Leaves b (b.store { req with hook := true }) := leaves_put _ row rfl rfl rfl rfl
  unfold Broker.setFinishHook
  dsimp only
  split
  · split
    · exact hooked
    · exact hooked.trans (leaves_fireHook (by rw [store, Table.get?_put, if_pos rfl]))
  · exact hooked

theorem leaves_claim (b : Broker T) (key : Key) (optionIndex : Int) (actorId : Identity)
    (optionIndices : Option (List Int)) :
    Leaves b (b.claim key optionIndex actorId optionIndices).2 := by
  unfold Broker.claim
  split
  · next req found =>
    split
    · exact .refl b
    · split
      · exact .refl b
      · exact Leaves.of_requests rfl (leaves_store_cancelTimer
          (b := { b with nextToken := b.nextToken + 1 }) (liveRequest_eq_some found).2 rfl rfl rfl)
  · split <;> exact .refl b

theorem leaves_commit (b : Broker T) (c : Claim) : Leaves b (b.commit c).2 := by
  unfold Broker.commit
  split
  · split
    · exact leaves_finish _ _ _
    · exact .refl b
  · exact .refl b

theorem leaves_toggle (b : Broker T) (key : Key) (idx : Int) :
    Leaves b (b.toggleSelection key idx).2 := by
  unfold Broker.toggleSelection
  split
  · next found =>
    split
    · exact .refl b
    · exact leaves_put _ (liveRequest_eq_some found).2 rfl rfl rfl rfl
  · exact .refl b

theorem leaves_popTombstone (b : Broker T) (key : Key) (entryId : Nat) :
    Leaves b (b.popTombstone key entryId) := by
  unfold Broker.popTombstone
  split
  · dsimp only
    split <;> exact .refl b
  · exact .refl b

theorem leaves_timeout (b : Broker T) (handle : Nat) : Leaves b (b.timeout handle) := by
  unfold Broker.timeout
  split
  · next key _ =>
    exact Leaves.of_requests rfl (leaves_finish { b with timers := b.timers.remove handle } key
      .noAnswer)
  · exact .refl b

theorem leaves_abortClaim [LinearOrder T] [Sub T] [Zero T] (b : Broker T) (now : T) (c : Claim) :
    Leaves b (b.abortClaim now c) := by
  unfold Broker.abortClaim
  split
  · next req row =>
    obtain id : req.id = c.req := Table.key_of_get? row
    rw [← id] at row
    split
    · dsimp only
      split
      · have freed : Leaves b (b.store { req with claimed := none }) :=
          leaves_put _ row rfl rfl rfl rfl
        exact freed.trans (leaves_finish _ _ _)
      · exact leaves_put _ row rfl rfl rfl rfl
    · exact .refl b
  · exact .refl b

theorem leaves_enroll [Add T] {now timeoutS : T} {metadata : Meta}
    (fresh : ∀ id v, board b id = some v → id < b.nextId) :
    Leaves b (b.enroll now key timeoutS metadata) := by
  intro id v shown
  have older := fresh id v shown
  rw [board, Broker.enroll, Table.get?_put, if_neg (by dsimp only; omega)]
  exact shown

section Events
variable {d : Desk T}

theorem Sound.board_numbered (h : Sound d) {id : Nat} {v : Setup × Option Int}
    (shown : board d.broker id = some v) : id < d.broker.nextId := by
  obtain ⟨req, row, -⟩ := Option.map_eq_some_iff.mp shown
  exact h.numbered (v := view req) (by rw [seen, row]; rfl)

def setupOf : Event T → Option Nat
  | .ensurePosted id | .setupDone id _ => some id
  | _ => none

variable [LinearOrder T] [Add T] [Sub T] [Zero T]

theorem leaves_register (sound : Sound d) (now : T) (key : Key) (timeoutS : T) (metadata : Meta)
    (supersede : Bool) :
    Leaves d.broker (d.step (.register now key timeoutS metadata supersede)).broker := by
  simp only [Desk.step, Broker.register]
  by_cases valid : validNamespace key.namespace_ = true
  · rw [if_pos valid]
    cases d.broker.live.get? key with
    | some entry => exact .refl _
    | none =>
      cases d.broker.retired.get? key with
      | some entry => exact .refl _
      | none =>
        dsimp only
        cases supersede with
        | false => exact leaves_enroll fun id v shown => Sound.board_numbered sound shown
        | true =>
          have cleared := sound.finishAll (d.broker.scopeKeys key.namespace_ key.scope)
            (.cancelled "superseded") rfl
          exact (leaves_finishAll _ _ _).trans
            (leaves_enroll fun id v shown => Sound.board_numbered cleared.sound shown)
  · rw [if_neg valid]
    exact .refl _

theorem leaves_step (sound : Sound d) {e : Event T} (other : setupOf e = none) :
    Leaves d.broker (d.step e).broker := by
  cases e with
  | register now key timeoutS metadata supersede =>
    exact leaves_register sound now key timeoutS metadata supersede
  | claim key optionIndex actorId optionIndices =>
    have kept := leaves_claim d.broker key optionIndex actorId optionIndices
    simp only [Desk.step]
    split <;> next eq => rwa [eq] at kept
  | commit c =>
    have kept := leaves_commit d.broker c
    simp only [Desk.step]
    split <;> next eq => rwa [eq] at kept
  | abortClaim now c => exact leaves_abortClaim d.broker now c
  | timeout handle => exact leaves_timeout d.broker handle
  | popTombstone key entryId => exact leaves_popTombstone d.broker key entryId
  | unregister key => exact leaves_unregister d.broker key
  | cancel key reason =>
    simp only [Desk.step, Broker.cancel]
    split
    · exact leaves_finish _ _ _
    · exact .refl _
  | cancelScope namespace_ scope reason => exact leaves_finishAll _ _ _
  | cancelAll reason => exact leaves_finishAll _ _ _
  | toggleSelection key idx => exact leaves_toggle d.broker key idx
  | setFinishHook id =>
    simp only [Desk.step]
    split
    · next req row =>
      obtain rfl : req.id = id := Table.key_of_get? row
      exact leaves_setFinishHook row
    · exact .refl _
  | ensurePosted id => cases other
  | setupDone id posted => cases other

end Events

end Boards

/-- Where the setup driver of a challenge is. Only `ready`, `scheduled` and `posting` have a step
of their own to make; in `interrupted` the post ended with an exception that is no `Exception`,
and `failed` is the driver that this ended. -/
inductive Stage where
  | ready
  | idle
  | scheduled
  | posting
  | posted
  | interrupted
  | finished
  | failed
deriving DecidableEq, Repr

/-- `_Challenge`: `request` is its key in the broker and `req` the request object. -/
structure Challenge (K : Type) where
  key : K
  request : Key
  req : Nat
  stage : Stage := .ready
  setupSettled : Bool := false
  requestSettled : Bool := false

/-- The coordinator and its broker. A challenge is known by its place in `challenges`; `posts`
are the keyboard posts that were started. -/
structure Coordinator (K T : Type) where
  desk : Desk T
  entries : Table (Prod.fst : K × Nat → K)
  challenges : List (Challenge K)
  posts : List Nat

def Coordinator.init : Coordinator K T := ⟨.init, .empty, [], []⟩

/-- How `post_dm_keyboard` ends. -/
inductive PostResult where
  | returned (mid : Option Int)
  | raised
  | interrupted
deriving DecidableEq, Repr

inductive Event (K T : Type) where
  /-- `register_challenge`, or `get_or_create` with a grant key; `rid` is the fresh request id. -/
  | registerChallenge (now : T) (key : K) (chatId : Int) (rid : String) (timeoutS : T)
      (metadata : Meta) (oversized : Bool)
  /-- `_drive` up to its wait for the setup task. -/
  | drive (c : Nat)
  | startPost (c : Nat)
  | endPost (c : Nat) (result : PostResult)
  /-- The driver resumes after the setup task. -/
  | resume (c : Nat)
  /-- The done callback of the broker's future. -/
  | settleRequest (c : Nat)
  /-- The done callback of the setup task. -/
  | settleSetup (c : Nat)
  | cancelMatching (matches_ : K → Bool)
  | broker (e : VerdictOutcomes.Event T)

namespace Coordinator
variable [DecidableEq K]

def request (s : Coordinator K T) (ch : Challenge K) : Option (PendingRequest T) :=
  s.desk.broker.requests.get? ch.req

def isSettled (s : Coordinator K T) (ch : Challenge K) : Bool :=
  (s.request ch).any fun r => r.future.isSome

/-- `_maybe_remove`, of the challenge as it was last written. -/
def maybeRemove (s : Coordinator K T) (c : Nat) (ch : Challenge K) : Coordinator K T :=
  let s := { s with challenges := s.challenges.set c ch }
  if ch.setupSettled && ch.requestSettled && s.entries.get? ch.key = some (ch.key, c) then
    { s with entries := s.entries.remove ch.key }
  else s

def put (s : Coordinator K T) (c : Nat) (ch : Challenge K) : Coordinator K T :=
  { s with challenges := s.challenges.set c ch }

variable [LinearOrder T] [Add T] [Sub T] [Zero T]

/-- A challenge that is pending already is reused, and one that is too large is refused. -/
def registerChallenge (s : Coordinator K T) (now : T) (key : K) (chatId : Int) (rid : String)
    (timeoutS : T) (metadata : Meta) (oversized : Bool) : Coordinator K T :=
  match s.entries.get? key with
  | some _ => s
  | none =>
      if oversized then s
      else
        let request : Key := ⟨"resident_ask", "authz:" ++ toString chatId, rid⟩
        match s.desk.broker.register now request timeoutS metadata false with
        | .ok (.created id, b) =>
            { s with
              desk := { s.desk with broker := b }
              entries := s.entries.put (key, s.challenges.length)
              challenges := s.challenges ++ [{ key, request, req := id }] }
        | _ => s

/-- A request that is terminal already has no setup task, and the driver sets the latch itself. -/
def drive (s : Coordinator K T) (c : Nat) (ch : Challenge K) : Coordinator K T :=
  if s.isSettled ch then s.maybeRemove c { ch with stage := .idle, setupSettled := true }
  else { s with desk := s.desk.step (.ensurePosted ch.req) }.put c { ch with stage := .scheduled }

def endPost (s : Coordinator K T) (c : Nat) (ch : Challenge K) : PostResult → Coordinator K T
  | .returned mid =>
      { s with desk := s.desk.step (.setupDone ch.req mid) }.put c { ch with stage := .posted }
  | .raised =>
      { s with desk := s.desk.step (.setupDone ch.req none) }.put c { ch with stage := .posted }
  | .interrupted => s.put c { ch with stage := .interrupted }

def cancelMatching (s : Coordinator K T) (matches_ : K → Bool) : Coordinator K T :=
  let matched := (s.entries.rows.filter fun e => matches_ e.1).filterMap fun e => s.challenges[e.2]?
  { s with
    desk := matched.foldl (fun d ch => d.step (.cancel ch.request "challenge_cancelled")) s.desk }

def step (e : Event K T) (s : Coordinator K T) : Coordinator K T :=
  match e with
  | .registerChallenge now key chatId rid timeoutS metadata oversized =>
      s.registerChallenge now key chatId rid timeoutS metadata oversized
  | .drive c =>
      match s.challenges[c]? with
      | some ch => if ch.stage = .ready then s.drive c ch else s
      | none => s
  | .startPost c =>
      match s.challenges[c]? with
      | some ch =>
          if ch.stage = .scheduled then
            { s with posts := s.posts ++ [c] }.put c { ch with stage := .posting }
          else s
      | none => s
  | .endPost c result =>
      match s.challenges[c]? with
      | some ch => if ch.stage = .posting then s.endPost c ch result else s
      | none => s
  | .resume c =>
      match s.challenges[c]? with
      | some ch =>
          if ch.stage = .posted then s.put c { ch with stage := .finished }
          else if ch.stage = .interrupted then s.put c { ch with stage := .failed }
          else s
      | none => s
  | .settleRequest c =>
      match s.challenges[c]? with
      | some ch =>
          if s.isSettled ch && !ch.requestSettled then
            s.maybeRemove c { ch with requestSettled := true }
          else s
      | none => s
  | .settleSetup c =>
      match s.challenges[c]? with
      | some ch =>
          if ch.stage = .finished && !ch.setupSettled then
            s.maybeRemove c { ch with setupSettled := true }
          else s
      | none => s
  | .cancelMatching matches_ => s.cancelMatching matches_
  | .broker e => { s with desk := s.desk.step e }

inductive Settlement where
  | posted | deliveryFailed | inactive
deriving DecidableEq, Repr

/-- What `settled_post` answers once the driver has ended; a driver that failed raises instead. -/
def settledPost (s : Coordinator K T) (ch : Challenge K) : Option Settlement :=
  if ch.stage = .idle ∨ ch.stage = .finished then
    match (s.request ch).bind PendingRequest.future with
    | none => some .posted
    | some .deliveryFailed => some .deliveryFailed
    | some _ => some .inactive
  else none

def callbackPending (s : Coordinator K T) (ch : Challenge K) : Bool :=
  (s.isSettled ch && !ch.requestSettled) || (ch.stage = .finished && !ch.setupSettled)

end Coordinator

section Listing
variable [DecidableEq K]

def Challenge.closed (ch : Challenge K) : Bool := ch.setupSettled && ch.requestSettled

def Listed (entries : Table (Prod.fst : K × Nat → K)) (challenges : List (Challenge K)) : Prop :=
  ∀ k c, entries.get? k = some (k, c) ↔
    ∃ ch, challenges[c]? = some ch ∧ ch.key = k ∧ ch.closed = false

variable {entries : Table (Prod.fst : K × Nat → K)} {challenges : List (Challenge K)} {c : Nat}
  {ch ch' : Challenge K}

omit [DecidableEq K] in
theorem getElem?_set_cases {c' : Nat} {found : Challenge K} (at_ : challenges[c]? = some ch)
    (row : (challenges.set c ch')[c']? = some found) :
    (c' = c ∧ found = ch') ∨ (c' ≠ c ∧ challenges[c']? = some found) := by
  have below : c < challenges.length := (List.getElem?_eq_some_iff.mp at_).1
  by_cases same : c = c'
  · subst same
    rw [List.getElem?_set_self below] at row
    exact .inl ⟨rfl, (Option.some.inj row).symm⟩
  · rw [List.getElem?_set_ne same] at row
    exact .inr ⟨Ne.symm same, row⟩

theorem Listed.replace (h : Listed entries challenges) (at_ : challenges[c]? = some ch)
    (key : ch'.key = ch.key) (closed : ch'.closed = ch.closed) :
    Listed entries (challenges.set c ch') := by
  have below : c < challenges.length := (List.getElem?_eq_some_iff.mp at_).1
  intro k c'
  rw [h k c']
  by_cases same : c = c'
  · subst same
    simp [List.getElem?_set_self below, at_, key, closed]
  · rw [List.getElem?_set_ne same]

theorem Listed.remove (h : Listed entries challenges) (at_ : challenges[c]? = some ch)
    (key : ch'.key = ch.key) (before : ch.closed = false) (after : ch'.closed = true) :
    Listed (entries.remove ch.key) (challenges.set c ch') := by
  have own : entries.get? ch.key = some (ch.key, c) := (h ch.key c).mpr ⟨ch, at_, rfl, before⟩
  have below : c < challenges.length := (List.getElem?_eq_some_iff.mp at_).1
  intro k c'
  rw [Table.get?_remove]
  split
  · next same =>
    subst same
    refine ⟨nofun, ?_⟩
    rintro ⟨found, row, key', open_⟩
    rcases getElem?_set_cases at_ row with ⟨-, rfl⟩ | ⟨other, row⟩
    · rw [after] at open_
      cases open_
    · have entry := (h ch.key c').mpr ⟨found, row, key', open_⟩
      exact absurd (Prod.mk.inj (Option.some.inj (entry.symm.trans own))).2 other
  · next other =>
    rw [h k c']
    constructor
    · rintro ⟨found, row, rfl, open_⟩
      refine ⟨found, ?_, rfl, open_⟩
      rw [List.getElem?_set_ne, row]
      rintro rfl
      exact other (congrArg Challenge.key (Option.some.inj (at_.symm.trans row)))
    · rintro ⟨found, row, key', open_⟩
      rcases getElem?_set_cases at_ row with ⟨-, rfl⟩ | ⟨-, row⟩
      · rw [after] at open_
        cases open_
      · exact ⟨found, row, key', open_⟩

theorem Listed.add (h : Listed entries challenges) (ch : Challenge K)
    (free : entries.get? ch.key = none) (open_ : ch.closed = false) :
    Listed (entries.put (ch.key, challenges.length)) (challenges ++ [ch]) := by
  intro k c'
  rw [Table.get?_put]
  split
  · next same =>
    subst same
    simp only [Option.some.injEq, Prod.mk.injEq, true_and]
    constructor
    · rintro rfl
      exact ⟨ch, by simp, rfl, open_⟩
    · rintro ⟨found, row, key, live⟩
      rcases Nat.lt_or_ge c' challenges.length with below | above
      · rw [List.getElem?_append_left below] at row
        have entry := (h ch.key c').mpr ⟨found, row, key, live⟩
        rw [free] at entry
        cases entry
      · have last := (List.getElem?_eq_some_iff.mp row).1
        simp only [List.length_append, List.length_singleton] at last
        omega
  · next other =>
    rw [h k c']
    constructor
    · rintro ⟨found, row, key, live⟩
      have below := (List.getElem?_eq_some_iff.mp row).1
      exact ⟨found, by rw [List.getElem?_append_left below, row], key, live⟩
    · rintro ⟨found, row, key, live⟩
      rcases Nat.lt_or_ge c' challenges.length with below | above
      · rw [List.getElem?_append_left below] at row
        exact ⟨found, row, key, live⟩
      · rw [List.getElem?_append_right above, List.getElem?_singleton] at row
        split at row
        · obtain rfl := Option.some.inj row
          exact absurd key other
        · cases row

end Listing

section Requests
variable {b : Broker T} {r r' : PendingRequest T} {id i : Nat}

/-- A request object later on: its keyboard is as it was, and a done future stays done. -/
structure Kin (r r' : PendingRequest T) : Prop where
  setup : r'.setup = r.setup
  message : r'.metadata.messageId = r.metadata.messageId
  done : r.future ≠ none → r'.future ≠ none

/-- What the keyboard of a request and its future look like where a challenge stands. -/
structure Phase (ch : Challenge K) (r : PendingRequest T) : Prop where
  ready : ch.stage = .ready → r.setup = .absent
  running : ch.stage = .scheduled ∨ ch.stage = .posting → r.setup = .running
  told : ch.stage = .posted ∨ ch.stage = .finished →
    r.future ≠ none ∨ ∃ mid, r.metadata.messageId = some mid
  idle : ch.stage = .idle → ch.setupSettled = true ∧ r.future ≠ none
  latched : ch.setupSettled = true → ch.stage = .idle ∨ ch.stage = .finished
  settled : ch.requestSettled = true → r.future ≠ none

theorem Phase.kin {ch : Challenge K} (phase : Phase ch r) (kin : Kin r r') : Phase ch r' where
  ready at_ := kin.setup.trans (phase.ready at_)
  running at_ := kin.setup.trans (phase.running at_)
  told at_ := (phase.told at_).imp kin.done fun ⟨mid, set_⟩ => ⟨mid, kin.message.trans set_⟩
  idle at_ := ⟨(phase.idle at_).1, kin.done (phase.idle at_).2⟩
  latched := phase.latched
  settled at_ := kin.done (phase.settled at_)

theorem kin_of {d d' : Desk T} (evolves : Evolves d d')
    (shown : board d'.broker id = board d.broker id)
    (row : d.broker.requests.get? id = some r) :
    ∃ r', d'.broker.requests.get? id = some r' ∧ Kin r r' := by
  obtain ⟨v, seen', -, -, kept⟩ := evolves id (view r) (by rw [seen, row]; rfl)
  obtain ⟨r', row', rfl⟩ := seen_eq_some_iff.mp seen'
  rw [board_of_row row', board_of_row row, Option.some.injEq, Prod.mk.injEq] at shown
  refine ⟨r', row', shown.1, shown.2, fun done => ?_⟩
  obtain ⟨outcome, set_⟩ := Option.ne_none_iff_exists'.mp done
  have still : r'.future = some outcome := kept outcome set_
  rw [still]
  exact Option.some_ne_none _

theorem ensurePosted_self (row : b.requests.get? id = some r) (absent : r.setup = .absent)
    (pending : r.future = none) :
    (b.ensurePosted id).requests.get? id = some { r with setup := .running } := by
  have same : r.id = id := Table.key_of_get? row
  simp only [Broker.ensurePosted, row, absent, pending, and_self, if_true, store, Table.get?_put]
  exact if_pos same

theorem ensurePosted_other (other : i ≠ id) : board (b.ensurePosted id) i = board b i := by
  unfold Broker.ensurePosted
  split
  · next r row =>
    have same : r.id = id := Table.key_of_get? row
    split
    · rw [board, store, Table.get?_put, if_neg (by rw [same]; exact other.symm)]
      rfl
    · rfl
  · rfl

theorem board_store_other (other : i ≠ r.id) : board (b.store r) i = board b i := by
  rw [board, store, Table.get?_put, if_neg other.symm]
  rfl

theorem board_eq_of_leaves {b' : Broker T} (leaves : Leaves b b') {v : Setup × Option Int}
    (shown : board b i = some v) : board b' i = board b i := by
  rw [shown]
  exact leaves i v shown

theorem setupDone_other (other : i ≠ id) {v : Setup × Option Int} (shown : board b i = some v)
    (posted : Option Int) : board (b.setupDone id posted) i = board b i := by
  unfold Broker.setupDone
  split
  · next r row =>
    obtain rfl : r.id = id := Table.key_of_get? row
    split
    · cases posted with
      | some mid =>
        dsimp only
        have stored := fun r' : PendingRequest T => (board_store_other (b := b) (r := r') (i := i))
        unfold Broker.setFinishHook
        dsimp only
        have hooked : ∀ r' : PendingRequest T, r'.id = r.id →
            board (b.store r') i = board b i := by
          intro r' same
          exact board_store_other (by rw [same]; exact other)
        split
        · split
          · exact hooked _ rfl
          · unfold fireHook
            split
            · exact hooked _ rfl
            · rw [board, Table.get?_put, if_neg other.symm]
              exact hooked _ rfl
        · exact hooked _ rfl
      | none =>
        dsimp only
        have stored : board (b.store { r with setup := .done }) i = board b i :=
          board_store_other other
        rw [board_eq_of_leaves (leaves_unregister _ _) (stored.trans shown), stored]
    · rfl
  · rfl

theorem setupDone_posted (row : b.requests.get? id = some r) (running : r.setup = .running)
    (mid : Int) : ∃ r', (b.setupDone id (some mid)).requests.get? id = some r' ∧
      r'.metadata.messageId = some mid := by
  obtain rfl : r.id = id := Table.key_of_get? row
  simp only [Broker.setupDone, row, running, if_true, Broker.setFinishHook]
  have hooked : ∀ r' : PendingRequest T, r'.id = r.id →
      (b.store r').requests.get? r.id = some r' := by
    intro r' same
    rw [store, Table.get?_put, if_pos same]
  split
  · split
    · exact ⟨_, hooked _ rfl, rfl⟩
    · unfold fireHook
      split
      · exact ⟨_, hooked _ rfl, rfl⟩
      · exact ⟨_, by rw [Table.get?_put]; exact if_pos rfl, rfl⟩
  · exact ⟨_, hooked _ rfl, rfl⟩

theorem setupDone_failed {d : Desk T} (h : Sound d) (row : d.broker.requests.get? id = some r)
    (running : r.setup = .running) :
    ∃ r', (d.broker.setupDone id none).requests.get? id = some r' ∧ r'.future ≠ none := by
  obtain rfl : r.id = id := Table.key_of_get? row
  have evolves := (h.setupDone r.id none).evolves r.id (view r) (by rw [seen, row]; rfl)
  obtain ⟨v, seen', -, -, kept⟩ := evolves
  obtain ⟨r', row', rfl⟩ := seen_eq_some_iff.mp seen'
  cases future : r.future with
  | some outcome =>
    have still : r'.future = some outcome := kept outcome future
    exact ⟨r', row', by rw [still]; exact Option.some_ne_none _⟩
  | none =>
    have marked : Sound { d with broker := d.broker.store { r with setup := .done } } :=
      (h.touch (b := d.broker.store { r with setup := .done }) rfl rfl
        (seen_store_same row rfl rfl) le_rfl le_rfl).sound
    have stored : (d.broker.store { r with setup := .done }).requests.get? r.id =
        some { r with setup := .done } := by rw [store, Table.get?_put, if_pos rfl]
    have live : ∀ r' : PendingRequest T, r'.future = none →
        (d.broker.store { r with setup := .done }).requests.get? r'.id = some r' →
        (d.broker.store { r with setup := .done }).liveRequest r'.key = some r' :=
      fun r' pending row' => marked.liveRequest_of_pending row' pending
    have found := live { r with setup := .done } future stored
    refine ⟨resolved { r with setup := .done } .deliveryFailed, ?_, Option.some_ne_none _⟩
    simp only [Broker.setupDone, row, running, if_true]
    rw [Broker.unregister, found]
    exact row_settle

end Requests

section Invariant
variable [DecidableEq K]

def Stage.hasPosted : Stage → Bool
  | .ready | .idle | .scheduled => false
  | _ => true

structure Sane (s : Coordinator K T) : Prop where
  sound : Sound s.desk
  listed : Listed s.entries s.challenges
  apart : ∀ {c c' : Nat} {ch ch' : Challenge K}, s.challenges[c]? = some ch →
    s.challenges[c']? = some ch' → ch.req = ch'.req → c = c'
  phase : ∀ {c : Nat} {ch : Challenge K}, s.challenges[c]? = some ch →
    ∃ r, s.request ch = some r ∧ Phase ch r
  counted : ∀ c, s.posts.count c =
    if s.challenges[c]?.any (·.stage.hasPosted) then 1 else 0

theorem sane_init : Sane (Coordinator.init : Coordinator K T) where
  sound := sound_init
  listed k c := by simp [Coordinator.init]
  apart row := by simp [Coordinator.init] at row
  phase row := by simp [Coordinator.init] at row
  counted c := by simp [Coordinator.init]

variable {s : Coordinator K T} {c : Nat} {ch ch' : Challenge K}

theorem Sane.move (sane : Sane s) {d : Desk T} (advances : Advances s.desk d)
    (shown : ∀ {c : Nat} {ch : Challenge K}, s.challenges[c]? = some ch →
      board d.broker ch.req = board s.desk.broker ch.req) : Sane { s with desk := d } where
  sound := advances.sound
  listed := sane.listed
  apart := sane.apart
  phase row := by
    obtain ⟨r, found, phase⟩ := sane.phase row
    obtain ⟨r', found', kin⟩ := kin_of advances.evolves (shown row) found
    exact ⟨r', found', phase.kin kin⟩
  counted := sane.counted

theorem Sane.revise (sane : Sane s) (at_ : s.challenges[c]? = some ch) {d : Desk T}
    {entries : Table (Prod.fst : K × Nat → K)} {posts : List Nat} (req : ch'.req = ch.req)
    (advances : Advances s.desk d) (listed : Listed entries (s.challenges.set c ch'))
    (shown : ∀ {c' : Nat} {other : Challenge K}, s.challenges[c']? = some other → c' ≠ c →
      board d.broker other.req = board s.desk.broker other.req)
    (self : ∃ r, d.broker.requests.get? ch.req = some r ∧ Phase ch' r)
    (counted : ∀ c', posts.count c' = if c' = c then (if ch'.stage.hasPosted then 1 else 0)
      else s.posts.count c') :
    Sane ⟨d, entries, s.challenges.set c ch', posts⟩ where
  sound := advances.sound
  listed := listed
  apart := by
    intro c₁ c₂ ch₁ ch₂ row₁ row₂ same
    rcases getElem?_set_cases at_ row₁ with ⟨first, rfl⟩ | ⟨-, old₁⟩ <;>
      rcases getElem?_set_cases at_ row₂ with ⟨second, rfl⟩ | ⟨-, old₂⟩
    · exact first.trans second.symm
    · exact first.trans (sane.apart at_ old₂ (req.symm.trans same))
    · exact (sane.apart old₁ at_ (same.trans req)).trans second.symm
    · exact sane.apart old₁ old₂ same
  phase := by
    intro c' found row
    rcases getElem?_set_cases at_ row with ⟨-, rfl⟩ | ⟨other, row⟩
    · obtain ⟨r, found, phase⟩ := self
      refine ⟨r, ?_, phase⟩
      rw [Coordinator.request, req]
      exact found
    · obtain ⟨r, found, phase⟩ := sane.phase row
      obtain ⟨r', found', kin⟩ := kin_of advances.evolves (shown row other) found
      exact ⟨r', found', phase.kin kin⟩
  counted := by
    intro c'
    have below : c < s.challenges.length := (List.getElem?_eq_some_iff.mp at_).1
    rw [counted c']
    by_cases same : c' = c
    · subst same
      rw [if_pos rfl, List.getElem?_set_self below, Option.any_some]
    · rw [if_neg same, List.getElem?_set_ne (Ne.symm same), sane.counted]

theorem Sane.counted_self (sane : Sane s) (at_ : s.challenges[c]? = some ch)
    (same : ch'.stage.hasPosted = ch.stage.hasPosted) (c' : Nat) :
    s.posts.count c' = if c' = c then (if ch'.stage.hasPosted then 1 else 0)
      else s.posts.count c' := by
  split
  · next eq =>
    subst eq
    rw [sane.counted, at_, Option.any_some, same]
  · rfl

theorem Sane.put (sane : Sane s) (at_ : s.challenges[c]? = some ch) (key : ch'.key = ch.key)
    (req : ch'.req = ch.req) (closed : ch'.closed = ch.closed)
    (posted : ch'.stage.hasPosted = ch.stage.hasPosted)
    (phase : ∀ r : PendingRequest T, Phase ch r → Phase ch' r) : Sane (s.put c ch') := by
  refine sane.revise at_ req sane.sound.advances (sane.listed.replace at_ key closed)
    (fun _ _ => rfl) ?_ (sane.counted_self at_ posted)
  obtain ⟨r, found, held⟩ := sane.phase at_
  exact ⟨r, found, phase r held⟩

theorem Sane.maybeRemove (sane : Sane s) (at_ : s.challenges[c]? = some ch)
    (key : ch'.key = ch.key) (req : ch'.req = ch.req) (before : ch.closed = false)
    (posted : ch'.stage.hasPosted = ch.stage.hasPosted)
    (phase : ∀ r, s.request ch = some r → Phase ch r → Phase ch' r) :
    Sane (s.maybeRemove c ch') := by
  obtain ⟨r, found, held⟩ := sane.phase at_
  have own : s.entries.get? ch'.key = some (ch'.key, c) :=
    (sane.listed ch'.key c).mpr ⟨ch, at_, key.symm, before⟩
  have revised : ∀ entries, Listed entries (s.challenges.set c ch') →
      Sane ⟨s.desk, entries, s.challenges.set c ch', s.posts⟩ := by
    intro entries listed
    exact sane.revise at_ req sane.sound.advances listed (fun _ _ => rfl)
      ⟨r, found, phase r found held⟩ (sane.counted_self at_ posted)
  unfold Coordinator.maybeRemove
  dsimp only
  by_cases after : ch'.closed = true
  · rw [if_pos]
    · exact revised _ (key ▸ sane.listed.remove at_ key before after)
    · simpa [own, Challenge.closed] using after
  · rw [if_neg]
    · exact revised _ (sane.listed.replace at_ key (by rw [before]; simpa using after))
    · intro both
      exact after (Bool.and_eq_true_iff.mp both).1

variable [LinearOrder T] [Add T] [Sub T] [Zero T]

omit [DecidableEq K] [LinearOrder T] [Add T] [Sub T] [Zero T] in
theorem setup_open {r : PendingRequest T} (phase : Phase ch r) (early : ch.stage ≠ .idle)
    (unfinished : ch.stage ≠ .finished) : ch.setupSettled = false := by
  by_contra set_
  rw [Bool.not_eq_false] at set_
  exact (phase.latched set_).elim early unfinished

omit [LinearOrder T] [Sub T] [Zero T] in
theorem Sane.registerChallenge (sane : Sane s) (now : T) (key : K) (chatId : Int) (rid : String)
    (timeoutS : T) (metadata : Meta) (oversized : Bool)
    (live : s.desk.broker.live.get? ⟨"resident_ask", "authz:" ++ toString chatId, rid⟩ = none)
    (retired : s.desk.broker.retired.get? ⟨"resident_ask", "authz:" ++ toString chatId, rid⟩ =
      none) :
    Sane (s.registerChallenge now key chatId rid timeoutS metadata oversized) := by
  unfold Coordinator.registerChallenge
  split
  · exact sane
  · next free =>
    split
    · exact sane
    · dsimp only
      have valid : validNamespace "resident_ask" = true := rfl
      have created : s.desk.broker.register now
          ⟨"resident_ask", "authz:" ++ toString chatId, rid⟩ timeoutS metadata false =
          .ok (.created s.desk.broker.nextId, s.desk.broker.enroll now
            ⟨"resident_ask", "authz:" ++ toString chatId, rid⟩ timeoutS metadata) := by
        simp only [Broker.register, valid, if_true, live, retired, Bool.false_eq_true, if_false]
      have advances := sane.sound.register created
      rw [created]
      dsimp only
      have older : ∀ {c : Nat} {ch : Challenge K}, s.challenges[c]? = some ch →
          ch.req < s.desk.broker.nextId := by
        intro c ch row
        obtain ⟨r, found, -⟩ := sane.phase row
        exact Sound.board_numbered sane.sound (board_of_row found)
      have split_ : ∀ {c : Nat} {found new : Challenge K},
          (s.challenges ++ [new])[c]? = some found →
          (c = s.challenges.length ∧ found = new) ∨ s.challenges[c]? = some found := by
        intro c found new row
        rcases Nat.lt_or_ge c s.challenges.length with below | above
        · rw [List.getElem?_append_left below] at row
          exact .inr row
        · rw [List.getElem?_append_right above, List.getElem?_singleton] at row
          split at row
          · exact .inl ⟨by omega, (Option.some.inj row).symm⟩
          · cases row
      refine ⟨advances.sound, sane.listed.add { key, request := _, req := _ } free rfl, ?_, ?_, ?_⟩
      · intro c c' ch ch' row row' same
        rcases split_ row with ⟨rfl, rfl⟩ | old <;> rcases split_ row' with ⟨rfl, rfl⟩ | old'
        · rfl
        · exact absurd same.symm (Nat.ne_of_lt (older old'))
        · exact absurd same (Nat.ne_of_lt (older old))
        · exact sane.apart old old' same
      · intro c ch row
        rcases split_ row with ⟨-, rfl⟩ | old
        · refine ⟨_, (Table.get?_put ..).trans (if_pos rfl), ?_⟩
          exact ⟨fun _ => rfl, by simp, by simp, by simp, by simp, by simp⟩
        · obtain ⟨r, found, phase⟩ := sane.phase old
          obtain ⟨r', found', kin⟩ := kin_of advances.evolves (board_eq_of_leaves
            (leaves_enroll fun id v shown => Sound.board_numbered sane.sound shown)
            (board_of_row found)) found
          exact ⟨r', found', phase.kin kin⟩
      · intro c
        rw [sane.counted c]
        rcases Nat.lt_or_ge c s.challenges.length with below | above
        · rw [List.getElem?_append_left below]
        · rw [List.getElem?_append_right above, List.getElem?_eq_none above,
            List.getElem?_singleton]
          by_cases last : c - s.challenges.length = 0 <;> simp [last, Stage.hasPosted]

theorem Sane.drive (sane : Sane s) (at_ : s.challenges[c]? = some ch) (ready : ch.stage = .ready) :
    Sane (s.drive c ch) := by
  obtain ⟨r, found, phase⟩ := sane.phase at_
  have unset : ch.setupSettled = false := setup_open phase (by simp [ready]) (by simp [ready])
  have open_ : ch.closed = false := by simp [Challenge.closed, unset]
  unfold Coordinator.drive
  split
  · next settled =>
    refine sane.maybeRemove at_ rfl rfl open_ (by simp [ready, Stage.hasPosted]) ?_
    intro r' found' phase'
    rw [Coordinator.isSettled, found', Option.any_some] at settled
    have done : r'.future ≠ none := Option.isSome_iff_ne_none.mp settled
    exact ⟨nofun, by simp, by simp, fun _ => ⟨rfl, done⟩, fun _ => .inl rfl, phase'.settled⟩
  · next pending =>
    rw [Coordinator.isSettled, found, Option.any_some, Option.not_isSome_iff_eq_none] at pending
    refine sane.revise at_ rfl (sane.sound.ensurePosted ch.req)
      (sane.listed.replace at_ rfl (by simp [Challenge.closed])) ?_ ⟨_, ensurePosted_self found
        (phase.ready ready) pending, ?_⟩ (sane.counted_self at_ (by simp [ready, Stage.hasPosted]))
    · intro c' other row ne
      refine ensurePosted_other fun same => ne ?_
      exact sane.apart row at_ same
    · refine ⟨nofun, fun _ => rfl, by simp, nofun, fun set_ => ?_, fun set_ => ?_⟩
      · rw [unset] at set_
        cases set_
      · exact absurd pending (phase.settled set_)

theorem Sane.told (sane : Sane s) (at_ : s.challenges[c]? = some ch) (posting : ch.stage = .posting)
    (posted : Option Int)
    (self : ∀ r, s.request ch = some r → r.setup = .running →
      ∃ r', (s.desk.broker.setupDone ch.req posted).requests.get? ch.req = some r' ∧
        (r'.future ≠ none ∨ ∃ mid, r'.metadata.messageId = some mid)) :
    Sane (({ s with desk := s.desk.step (.setupDone ch.req posted) } : Coordinator K T).put c
      { ch with stage := .posted }) := by
  obtain ⟨r, found, phase⟩ := sane.phase at_
  have unset : ch.setupSettled = false := setup_open phase (by simp [posting]) (by simp [posting])
  obtain ⟨r', found', told⟩ := self r found (phase.running (.inr posting))
  have advances : Advances s.desk (s.desk.step (.setupDone ch.req posted)) :=
    sane.sound.setupDone ch.req posted
  refine sane.revise at_ rfl advances (sane.listed.replace at_ rfl (by simp [Challenge.closed])) ?_
    ⟨r', found', ?_⟩ (sane.counted_self at_ (by simp [posting, Stage.hasPosted]))
  · intro c' other row ne
    obtain ⟨ro, foundO, -⟩ := sane.phase row
    exact setupDone_other (fun same => ne (sane.apart row at_ same)) (board_of_row foundO) posted
  · refine ⟨nofun, by simp, fun _ => told, nofun, fun set_ => ?_, fun set_ => ?_⟩
    · rw [unset] at set_
      cases set_
    · have done := phase.settled set_
      obtain ⟨v, seen', -, -, kept⟩ := advances.evolves ch.req (view r)
        (seen_eq_some_iff.mpr ⟨r, found, rfl⟩)
      obtain ⟨r'', row'', rfl⟩ := seen_eq_some_iff.mp seen'
      obtain ⟨outcome, at_⟩ := Option.ne_none_iff_exists'.mp done
      have still : r''.future = some outcome := kept outcome at_
      obtain rfl : r'' = r' := Option.some.inj (row''.symm.trans found')
      rw [still]
      exact Option.some_ne_none _

theorem Sane.endPost (sane : Sane s) (at_ : s.challenges[c]? = some ch)
    (posting : ch.stage = .posting) (result : PostResult) : Sane (s.endPost c ch result) := by
  have failed : ∀ r, s.request ch = some r → r.setup = .running →
      ∃ r', (s.desk.broker.setupDone ch.req none).requests.get? ch.req = some r' ∧
        (r'.future ≠ none ∨ ∃ mid, r'.metadata.messageId = some mid) := by
    intro r found running
    obtain ⟨r', found', done⟩ := setupDone_failed sane.sound found running
    exact ⟨r', found', .inl done⟩
  cases result with
  | returned mid =>
    refine sane.told at_ posting mid fun r found running => ?_
    cases mid with
    | none => exact failed r found running
    | some mid =>
      obtain ⟨r', found', message⟩ := setupDone_posted found running mid
      exact ⟨r', found', .inr ⟨mid, message⟩⟩
  | raised => exact sane.told at_ posting none failed
  | interrupted =>
    refine sane.put at_ rfl rfl rfl (by simp [posting, Stage.hasPosted]) fun r phase => ?_
    have unset : ch.setupSettled = false := setup_open phase (by simp [posting]) (by simp [posting])
    refine ⟨nofun, by simp, by simp, nofun, fun set_ => ?_, phase.settled⟩
    rw [unset] at set_
    cases set_

theorem Sane.cancelMatching (sane : Sane s) (matches_ : K → Bool) :
    Sane (s.cancelMatching matches_) := by
  have quiet : ∀ (chs : List (Challenge K)) (d : Desk T), Sound d →
      Advances d (chs.foldl (fun d ch => d.step (.cancel ch.request "challenge_cancelled")) d) ∧
      Leaves d.broker (chs.foldl
        (fun d ch => d.step (.cancel ch.request "challenge_cancelled")) d).broker := by
    intro chs
    induction chs with
    | nil => exact fun d sound => ⟨sound.advances, .refl _⟩
    | cons ch rest ih =>
      intro d sound
      have first := sound.step (e := .cancel ch.request "challenge_cancelled") trivial
      obtain ⟨more, left⟩ := ih _ first.sound
      exact ⟨first.trans fun _ => more, (leaves_step sound rfl).trans left⟩
  obtain ⟨advances, left⟩ := quiet ((s.entries.rows.filter fun e => matches_ e.1).filterMap
    fun e => s.challenges[e.2]?) s.desk sane.sound
  refine sane.move advances fun row => ?_
  obtain ⟨r, found, -⟩ := sane.phase row
  exact board_eq_of_leaves left (board_of_row found)

/-- A request id is fresh, a claim is passed back by its holder, and nobody else runs the setup
task of a challenge's request. -/
def allowed (e : Event K T) (s : Coordinator K T) : Prop :=
  match e with
  | .registerChallenge _ _ chatId rid _ _ _ =>
      s.desk.broker.live.get? ⟨"resident_ask", "authz:" ++ toString chatId, rid⟩ = none ∧
      s.desk.broker.retired.get? ⟨"resident_ask", "authz:" ++ toString chatId, rid⟩ = none
  | .broker e => Held e s.desk ∧ ∀ id, setupOf e = some id → ∀ ch ∈ s.challenges, ch.req ≠ id
  | _ => True

theorem Sane.broker (sane : Sane s) {e : VerdictOutcomes.Event T} (held : Held e s.desk)
    (others : ∀ id, setupOf e = some id → ∀ ch ∈ s.challenges, ch.req ≠ id) :
    Sane { s with desk := s.desk.step e } := by
  refine sane.move (sane.sound.step held) fun {c ch} row => ?_
  obtain ⟨r, found, -⟩ := sane.phase row
  have mine : ∀ id, setupOf e = some id → ch.req ≠ id :=
    fun id at_ => others id at_ ch (List.mem_of_getElem? row)
  cases e with
  | ensurePosted id => exact ensurePosted_other (mine id rfl)
  | setupDone id posted => exact setupDone_other (mine id rfl) (board_of_row found) posted
  | _ => exact board_eq_of_leaves (leaves_step sane.sound rfl) (board_of_row found)

theorem Sane.step (sane : Sane s) {e : Event K T} (ok : allowed e s) : Sane (s.step e) := by
  cases e with
  | registerChallenge now key chatId rid timeoutS metadata oversized =>
    exact sane.registerChallenge now key chatId rid timeoutS metadata oversized ok.1 ok.2
  | drive c =>
    simp only [Coordinator.step]
    split
    · next ch at_ =>
      split
      · next ready => exact sane.drive at_ ready
      · exact sane
    · exact sane
  | startPost c =>
    simp only [Coordinator.step]
    split
    · next ch at_ =>
      split
      · next scheduled =>
        obtain ⟨r, found, phase⟩ := sane.phase at_
        have unset := setup_open phase (by simp [scheduled]) (by simp [scheduled])
        refine sane.revise at_ rfl sane.sound.advances (sane.listed.replace at_ rfl rfl)
          (fun _ _ => rfl) ⟨r, found, ?_⟩ fun c' => ?_
        · refine ⟨nofun, fun _ => phase.running (.inl scheduled), by simp, nofun, fun set_ => ?_,
            phase.settled⟩
          rw [unset] at set_
          cases set_
        · rw [List.count_append, List.count_singleton]
          have none_ : s.posts.count c = 0 := by
            rw [sane.counted, at_]
            simp [scheduled, Stage.hasPosted]
          by_cases same : c' = c
          · subst same
            simp [none_, Stage.hasPosted]
          · simp [same, Ne.symm same]
      · exact sane
    · exact sane
  | endPost c result =>
    simp only [Coordinator.step]
    split
    · next ch at_ =>
      split
      · next posting => exact sane.endPost at_ posting result
      · exact sane
    · exact sane
  | resume c =>
    simp only [Coordinator.step]
    split
    · next ch at_ =>
      split
      · next posted =>
        refine sane.put at_ rfl rfl rfl (by simp [posted, Stage.hasPosted]) fun r phase => ?_
        exact ⟨nofun, by simp, fun _ => phase.told (.inl posted), nofun, fun _ => .inr rfl,
          phase.settled⟩
      · split
        · next interrupted =>
          refine sane.put at_ rfl rfl rfl (by simp [interrupted, Stage.hasPosted]) fun r phase => ?_
          have unset := setup_open phase (by simp [interrupted]) (by simp [interrupted])
          refine ⟨nofun, by simp, by simp, nofun, fun set_ => ?_, phase.settled⟩
          rw [unset] at set_
          cases set_
        · exact sane
    · exact sane
  | settleRequest c =>
    simp only [Coordinator.step]
    split
    · next ch at_ =>
      split
      · next due =>
        rw [Bool.and_eq_true, Bool.not_eq_true'] at due
        refine sane.maybeRemove at_ rfl rfl (by simp [Challenge.closed, due.2]) rfl ?_
        intro r found phase
        have settled := due.1
        rw [Coordinator.isSettled, found, Option.any_some] at settled
        exact ⟨phase.ready, phase.running, phase.told, phase.idle, phase.latched,
          fun _ => Option.isSome_iff_ne_none.mp settled⟩
      · exact sane
    · exact sane
  | settleSetup c =>
    simp only [Coordinator.step]
    split
    · next ch at_ =>
      split
      · next due =>
        rw [Bool.and_eq_true, Bool.not_eq_true', decide_eq_true_eq] at due
        refine sane.maybeRemove at_ rfl rfl (by simp [Challenge.closed, due.2]) rfl ?_
        intro r found phase
        exact ⟨phase.ready, phase.running, phase.told, fun idle => absurd (due.1.symm.trans idle)
          (by decide), fun _ => .inr due.1, phase.settled⟩
      · exact sane
    · exact sane
  | cancelMatching matches_ => exact sane.cancelMatching matches_
  | broker e => exact sane.broker ok.1 ok.2

theorem sane_of_runs {events : List (Event K T)} {s' : Coordinator K T}
    (run : Runs Coordinator.step allowed s events s') (sane : Sane s) : Sane s' :=
  run.invariant (I := Sane) (fun _ _ ok held => held.step ok) sane

theorem Sane.entry_kept (sane : Sane s) (e : Event K T) {k : K}
    (entry : s.entries.get? k = some (k, c)) :
    (s.step e).entries.get? k = some (k, c) ∨ e = .drive c ∨ e = .settleRequest c ∨
      e = .settleSetup c := by
  obtain ⟨own, row, rfl, -⟩ := (sane.listed k c).mp entry
  have removed : ∀ {c' : Nat} {ch ch' : Challenge K}, c' ≠ c → s.challenges[c']? = some ch →
      (s.maybeRemove c' ch').entries.get? own.key = some (own.key, c) := by
    intro c' ch ch' other at_
    unfold Coordinator.maybeRemove
    dsimp only
    split
    · next gone =>
      rw [Bool.and_eq_true, decide_eq_true_eq] at gone
      rw [Table.get?_remove, if_neg]
      · exact entry
      · intro same
        have clash := gone.2
        rw [same, entry] at clash
        exact other (Prod.mk.inj (Option.some.inj clash)).2.symm
    · exact entry
  cases e with
  | registerChallenge now key chatId rid timeoutS metadata oversized =>
    refine .inl ?_
    simp only [Coordinator.step, Coordinator.registerChallenge]
    split
    · exact entry
    · next free =>
      split
      · exact entry
      · split
        · rw [Table.get?_put, if_neg]
          · exact entry
          · intro same
            rw [← same, free] at entry
            cases entry
        · exact entry
  | drive c' =>
    by_cases same : c' = c
    · exact .inr (.inl (congrArg Event.drive same))
    · refine .inl ?_
      simp only [Coordinator.step]
      split
      · next at_ =>
        split
        · unfold Coordinator.drive
          split
          · exact removed same at_
          · exact entry
        · exact entry
      · exact entry
  | startPost c' =>
    refine .inl ?_
    simp only [Coordinator.step]
    split
    · split <;> exact entry
    · exact entry
  | endPost c' result =>
    refine .inl ?_
    simp only [Coordinator.step]
    split
    · split
      · cases result <;> exact entry
      · exact entry
    · exact entry
  | resume c' =>
    refine .inl ?_
    simp only [Coordinator.step]
    split
    · split
      · exact entry
      · split <;> exact entry
    · exact entry
  | settleRequest c' =>
    by_cases same : c' = c
    · exact .inr (.inr (.inl (congrArg Event.settleRequest same)))
    · refine .inl ?_
      simp only [Coordinator.step]
      split
      · next at_ =>
        split
        · exact removed same at_
        · exact entry
      · exact entry
  | settleSetup c' =>
    by_cases same : c' = c
    · exact .inr (.inr (.inr (congrArg Event.settleSetup same)))
    · refine .inl ?_
      simp only [Coordinator.step]
      split
      · next at_ =>
        split
        · exact removed same at_
        · exact entry
      · exact entry
  | cancelMatching matches_ => exact .inl entry
  | broker e => exact .inl entry

omit [LinearOrder T] [Add T] [Sub T] [Zero T] in
/-- A closed challenge has its driver behind it, with the keyboard posted or never asked
for. -/
theorem Sane.closed_ended (sane : Sane s) (row : s.challenges[c]? = some ch)
    (closed : ch.closed = true) :
    ch.stage = .idle ∨ ch.stage = .finished := by
  obtain ⟨r, -, phase⟩ := sane.phase row
  exact phase.latched (Bool.and_eq_true_iff.mp closed).1

omit [LinearOrder T] [Add T] [Sub T] [Zero T] in
theorem Sane.closed_of_unlisted (sane : Sane s) (row : s.challenges[c]? = some ch)
    (gone : s.entries.get? ch.key ≠ some (ch.key, c)) : ch.closed = true := by
  by_contra open_
  rw [Bool.not_eq_true] at open_
  exact gone ((sane.listed ch.key c).mpr ⟨ch, row, rfl, open_⟩)

/-- A key has one keyboard at a time, and a challenge that is dead leaves its key. -/
theorem challenges_leave_their_key {events : List (Event K T)} {s : Coordinator K T}
    (run : Runs Coordinator.step allowed .init events s) :
    (∀ c ch, s.challenges[c]? = some ch →
      s.posts.count c ≤ 1 ∧
      (∀ k, s.entries.get? k = some (k, c) → ch.key = k ∧
        ∀ c' ch', s.challenges[c']? = some ch' → ch'.key = k → c' ≠ c →
          ch'.stage = .idle ∨ ch'.stage = .finished) ∧
      (s.entries.get? ch.key ≠ some (ch.key, c) → s.posts.count c = 1 ∨
        ch.stage = .idle ∧ s.isSettled ch = true) ∧
      (s.isSettled ch = true → ch.stage = .idle ∨ ch.stage = .finished →
        s.callbackPending ch = false → s.entries.get? ch.key ≠ some (ch.key, c)) ∧
      (s.settledPost ch = some .posted → ∃ r mid, s.request ch = some r ∧ r.future = none ∧
        r.metadata.messageId = some mid)) ∧
    (∀ e k c, s.entries.get? k = some (k, c) →
      (s.step e).entries.get? k = some (k, c) ∨ e = .drive c ∨ e = .settleRequest c ∨
        e = .settleSetup c) := by
  have sane : Sane s := sane_of_runs run sane_init
  refine ⟨fun c ch row => ?_, fun e k c entry => sane.entry_kept e entry⟩
  obtain ⟨r, found, phase⟩ := sane.phase row
  have settled : s.isSettled ch = r.future.isSome := by
    rw [Coordinator.isSettled, found, Option.any_some]
  have counted := sane.counted c
  rw [row, Option.any_some] at counted
  refine ⟨?_, fun k entry => ?_, fun gone => ?_, fun done ended quiet entry => ?_, fun answer => ?_⟩
  · rw [counted]
    split <;> omega
  · obtain ⟨own, row', key, -⟩ := (sane.listed k c).mp entry
    obtain rfl := Option.some.inj (row.symm.trans row')
    refine ⟨key, fun c' ch' other key' ne => sane.closed_ended other (sane.closed_of_unlisted other ?_)⟩
    intro entry'
    rw [key', entry] at entry'
    exact ne (Prod.mk.inj (Option.some.inj entry')).2.symm
  · rcases sane.closed_ended row (sane.closed_of_unlisted row gone) with idle | finished
    · refine .inr ⟨idle, ?_⟩
      rw [settled]
      exact Option.isSome_iff_ne_none.mpr (phase.idle idle).2
    · exact .inl (by rw [counted, finished]; rfl)
  · obtain ⟨own, row', -, open_⟩ := (sane.listed ch.key c).mp entry
    obtain rfl := Option.some.inj (row.symm.trans row')
    simp only [Coordinator.callbackPending, done, Bool.true_and, Bool.or_eq_false_iff,
      Bool.not_eq_false'] at quiet
    have setup : ch.setupSettled = true := by
      rcases ended with idle | finished
      · exact (phase.idle idle).1
      · simpa [finished] using quiet.2
    rw [Challenge.closed, setup, quiet.1] at open_
    cases open_
  · unfold Coordinator.settledPost at answer
    split at answer
    · next ended =>
      rw [found, Option.bind_some] at answer
      have pending : r.future = none := by
        cases future : r.future with
        | none => rfl
        | some outcome =>
          rw [future] at answer
          cases outcome <;> cases answer
      have finished : ch.stage = .finished :=
        ended.resolve_left fun idle => (phase.idle idle).2 pending
      obtain ⟨mid, message⟩ := (phase.told (.inr finished)).resolve_left fun done => done pending
      exact ⟨r, mid, found, pending, message⟩
    · cases answer

end Invariant

section Keyboards

def atOnce : List (Event String Int) :=
  [.registerChallenge 0 "key" 7 "a" 300 ⟨.int 7, none, none⟩ false, .drive 0, .startPost 0,
    .endPost 0 (.returned (some 41)), .resume 0, .settleSetup 0]

def unanswered : List (Event String Int) :=
  atOnce ++ [.broker (.timeout 0), .settleRequest 0]

def withdrawn : List (Event String Int) :=
  [.registerChallenge 0 "key" 7 "a" 300 ⟨.int 7, none, none⟩ false,
    .broker (.cancelScope "resident_ask" "authz:7" "new"), .drive 0, .settleRequest 0]

def interrupted : List (Event String Int) :=
  [.registerChallenge 0 "key" 7 "a" 300 ⟨.int 7, none, none⟩ false, .drive 0, .startPost 0,
    .endPost 0 .interrupted, .resume 0, .broker (.timeout 0), .settleRequest 0]

def after (events : List (Event String Int)) : Coordinator String Int :=
  events.foldl (fun s e => s.step e) .init

theorem unanswered_run :
    Runs Coordinator.step allowed .init unanswered (after unanswered) :=
  .cons ⟨rfl, rfl⟩ (.cons trivial (.cons trivial (.cons trivial (.cons trivial (.cons trivial
    (.cons ⟨trivial, nofun⟩ (.cons trivial (.nil _))))))))

theorem withdrawn_run : Runs Coordinator.step allowed .init withdrawn (after withdrawn) :=
  .cons ⟨rfl, rfl⟩ (.cons ⟨trivial, nofun⟩ (.cons trivial (.cons trivial (.nil _))))

theorem interrupted_run : Runs Coordinator.step allowed .init interrupted (after interrupted) :=
  .cons ⟨rfl, rfl⟩ (.cons trivial (.cons trivial (.cons trivial (.cons trivial
    (.cons ⟨trivial, nofun⟩ (.cons trivial (.nil _)))))))

/-- The keyboard that timed out leaves its key to the next call. -/
theorem unanswered_leaves : ∃ ch, (after unanswered).challenges[0]? = some ch ∧
    (after unanswered).posts.count 0 ≤ 1 ∧
      (after unanswered).entries.get? ch.key ≠ some (ch.key, 0) := by
  obtain ⟨ch, row⟩ : ∃ ch, (after unanswered).challenges[0]? = some ch := ⟨_, rfl⟩
  obtain ⟨once, -, -, gone, -⟩ := (challenges_leave_their_key unanswered_run).1 0 ch row
  refine ⟨ch, row, once, ?_⟩
  obtain rfl := Option.some.inj row
  exact gone (by decide) (by decide) (by decide)

/-- A challenge that is settled before its driver runs has no keyboard at all, and one whose post
is interrupted keeps its key for good. -/
theorem no_keyboard_or_stuck :
    (¬ ∀ (events : List (Event String Int)) s, Runs Coordinator.step allowed .init events s →
      ∀ c ch, s.challenges[c]? = some ch → s.entries.get? ch.key ≠ some (ch.key, c) →
        s.posts.count c = 1) ∧
    (¬ ∀ (events : List (Event String Int)) s, Runs Coordinator.step allowed .init events s →
      ∀ c ch, s.challenges[c]? = some ch → s.isSettled ch = true →
        ch.stage ∈ [Stage.idle, .finished, .failed] → s.callbackPending ch = false →
        s.entries.get? ch.key ≠ some (ch.key, c)) := by
  constructor
  · intro one
    exact absurd (one withdrawn _ withdrawn_run 0 _ rfl (by decide)) (by decide)
  · intro leaves
    exact absurd rfl (leaves interrupted _ interrupted_run 0 _ rfl (by decide) (by decide)
      (by decide))

end Keyboards

end Casa.ChallengeCoordinator
