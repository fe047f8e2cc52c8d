import Casa.SequencerIntents
import Casa.StepRuns
import Mathlib.Logic.Function.Basic

/-! The single writer of one engagement topic. Every write holds one lock from its first check
to its last update, awaits included, so the model is a machine with at most one locked call in
progress: `Doing` is where that call waits. What it waits for (the wire, a poster, the seam, a
revalidation) answers by a label; registrations, arms and cancels take no lock and may land at
any of these waits. The `Topic` keeps what the code itself does not: the ids the wire has given
out, which posters were called and what they returned, and the intents that are gone. -/

namespace Casa.SequencerWriter
open SequencerIntents

section Markup

/-- A markup argument: left out, `None`, the explicit empty keyboard, or a keyboard. -/
inductive Markup where
  | absent
  | none
  | empty
  | shown (keyboard : String)
deriving DecidableEq

inductive Tristate where
  | absent
  | empty
  | markup (repr : String)
deriving DecidableEq

def markupTristate : Markup → Tristate
  | .absent => .absent
  | .none => .absent
  | .empty => .empty
  | .shown keyboard => .markup keyboard

/-- For keyboard messages `None` clears the keyboard. -/
def discreteMarkupTristate : Markup → Tristate
  | .absent => .absent
  | .none => .empty
  | .empty => .empty
  | .shown keyboard => .markup keyboard

end Markup

section State

abbrev Shown := Option String × Tristate

structure Sequencer where
  registry : IntentRegistry := .empty
  terminal : Bool := false
  highWater : Option MsgId := none
  narrationMsgId : Option MsgId := none
  editCache : MsgId → Option Shown := fun _ => none
  discreteCacheFifo : List MsgId := []
  turnReplyTo : Option MsgId := none
  clock : Nat := 0

inductive Sender where
  | narration
  | notice
  | discrete
  | completion
  | intent (k : Nat)
deriving DecidableEq

/-- What has happened in the topic, for the statements: nothing in the code reads it. -/
structure Topic where
  top : MsgId := 0
  sent : List (Sender × MsgId) := []
  reported : List MsgId := []
  invoked : List Nat := []
  returned : List (Nat × MsgId) := []
  gone : List SendIntent := []
  hooks : List Nat := []

inductive Walk where
  | block
  | process (now : Nat)
  | flush
  | drain

/-- Who called for a narration write: a task, the relay's poster inside
`post_unless_anchor_open`, or that call itself when it has no poster. -/
inductive Origin where
  | caller
  | relay
  | fallback

inductive Send where
  | narration (text : String) (replyTo : Option MsgId) (origin : Origin)
  | notice (completion : Bool)
  | discrete (text : String) (markup : Markup) (budgeted : Bool)
  | intent (k : Nat) (walk : Walk) (rest : List Nat)

inductive Edit where
  | narration (m : MsgId) (text : String) (tri : Tristate) (origin : Origin)
  | summary (m : MsgId) (text : String)
  | discrete (m : MsgId) (text : Option String) (tri : Tristate)

/-- Where the call that holds the lock stands. `relay` is `post_unless_anchor_open` inside the
relay's own poster; `walking` is between two intents, with no wait. -/
inductive Doing where
  | idle
  | sending (what : Send) (landed : List MsgId)
  | editing (what : Edit)
  | seam (text : String) (posts : Bool)
  | relay
  | revalidatingPost (text : String) (markup : Markup) (budgeted : Bool)
  | revalidatingEdit (m : MsgId) (text : Option String) (markup : Markup)
  | walking (walk : Walk) (rest : List Nat)

inductive BlockResult where
  | posted
  | consumedCancelled
  | debtConsumed
  | noMatch
  | slotTimeout
  | hold
deriving DecidableEq

/-- What the last locked call, or the relay's call inside one, came back with. -/
inductive Answer where
  | nothing
  | raised
  | message (mid : Option MsgId)
  | discarded
  | sealed
  | applied
  | failed
  | held
  | posted
  | edited (ok : Bool)
  | block (result : BlockResult)

structure World where
  seq : Sequencer := {}
  topic : Topic := {}
  doing : Doing := .idle
  answer : Answer := .nothing

def World.finish (w : World) (answer : Answer) : World :=
  { w with doing := .idle, answer := answer }

def World.back (w : World) (origin : Origin) (answer : Answer) : World :=
  match origin with
  | .caller => w.finish answer
  | .relay => { w with doing := .relay, answer := answer }
  | .fallback => w.finish .posted

end State

section Narration

def Sequencer.sealNarrationLocked (s : Sequencer) : Sequencer :=
  match s.narrationMsgId with
  | some m =>
      { s with editCache := Function.update s.editCache m none, narrationMsgId := none }
  | none => s

def Sequencer.raiseHighWater (s : Sequencer) (mid : MsgId) : Sequencer :=
  match s.highWater with
  | some h => if h < mid then { s with highWater := some mid } else s
  | none => { s with highWater := some mid }

def Sequencer.cache (s : Sequencer) (m : MsgId) (shown : Option Shown) : Sequencer :=
  { s with editCache := Function.update s.editCache m shown }

def openNarration (text : String) (origin : Origin) (w : World) : World :=
  if w.seq.terminal then w.back origin .discarded
  else { w with doing := .sending (.narration text w.seq.turnReplyTo origin) [] }

def openedNarration (text : String) (replyTo mid : Option MsgId) (s : Sequencer) : Sequencer :=
  match mid with
  | none => s
  | some m =>
      { s with
        turnReplyTo :=
          if replyTo.isSome && decide (s.turnReplyTo = replyTo) then none else s.turnReplyTo
        highWater := some m
        narrationMsgId := some m
        editCache := Function.update s.editCache m (some (some text, .absent)) }

def editNarrationIfLatest (m : MsgId) (text : String) (markup : Markup) (origin : Origin)
    (w : World) : World :=
  if w.seq.terminal then w.back origin .discarded
  else if w.seq.narrationMsgId ≠ some m ∨ w.seq.highWater ≠ some m then w.back origin .sealed
  else if w.seq.editCache m = some (some text, markupTristate markup) then
    w.back origin .applied
  else { w with doing := .editing (.narration m text (markupTristate markup) origin) }

def postUnlessAnchorOpen (text : String) (seam posts : Bool) (w : World) : World :=
  if w.seq.terminal then w.finish .held
  else if seam then { w with doing := .seam text posts }
  else if posts then { w with doing := .relay }
  else { w with doing := .sending (.narration text w.seq.turnReplyTo .fallback) [] }

def editSummary (m : MsgId) (text : String) (w : World) : World :=
  if w.seq.editCache m = some (some text, .absent) then w.finish .applied
  else { w with doing := .editing (.summary m text) }

def advanceHighWaterForInbound (o : Option MsgId) (w : World) : World :=
  let s := w.seq.sealNarrationLocked
  match o with
  | none => { w with seq := s }.finish .nothing
  | some m =>
      { w with
        seq := s.raiseHighWater m
        topic := { w.topic with reported := w.topic.reported ++ [m] } }.finish .nothing

end Narration

section Discrete

def discreteCacheCap : Nat := 64

def Sequencer.registerDiscreteCache (s : Sequencer) (mid : MsgId) : Sequencer :=
  let fifo := s.discreteCacheFifo.erase mid ++ [mid]
  let excess := fifo.length - discreteCacheCap
  { s with
    discreteCacheFifo := fifo.drop excess
    editCache := (fifo.take excess).foldl (fun c m => Function.update c m none) s.editCache }

def Sequencer.forgetDiscreteCache (s : Sequencer) (mid : MsgId) : Sequencer :=
  { s with discreteCacheFifo := s.discreteCacheFifo.erase mid }

def postPlatformNotice (w : World) : World :=
  if w.seq.terminal then w.finish (.message none)
  else { w with seq := w.seq.sealNarrationLocked, doing := .sending (.notice false) [] }

def postCompletionNotice (w : World) : World :=
  { w with seq := w.seq.sealNarrationLocked, doing := .sending (.notice true) [] }

def postedNotice (mid : Option MsgId) (s : Sequencer) : Sequencer :=
  match mid with
  | none => s
  | some m => s.raiseHighWater m

def postDiscrete (text : String) (markup : Markup) (revalidate budgeted : Bool) (w : World) :
    World :=
  if w.seq.terminal then w.finish (.message none)
  else if revalidate then { w with doing := .revalidatingPost text markup budgeted }
  else { w with doing := .sending (.discrete text markup budgeted) [] }

def postedDiscrete (text : String) (markup : Markup) (mid : Option MsgId) (s : Sequencer) :
    Sequencer :=
  match mid with
  | none => s
  | some m =>
      (((s.sealNarrationLocked.raiseHighWater m).cache m
        (some (some text, discreteMarkupTristate markup))).registerDiscreteCache m)

/-- The no-op gate and the wire edit of `edit_discrete`, after its revalidation. -/
def gateDiscreteEdit (m : MsgId) (text : Option String) (markup : Markup) (w : World) : World :=
  if w.seq.editCache m = some (text, discreteMarkupTristate markup) then w.finish (.edited true)
  else { w with doing := .editing (.discrete m text (discreteMarkupTristate markup)) }

def editDiscrete (m : MsgId) (text : Option String) (markup : Markup) (revalidate : Bool)
    (w : World) : World :=
  if revalidate then { w with doing := .revalidatingEdit m text markup }
  else gateDiscreteEdit m text markup w

def edited (what : Edit) (ok : Bool) (w : World) : World :=
  match what with
  | .narration m text tri origin =>
      if ok then { w with seq := w.seq.cache m (some (some text, tri)) }.back origin .applied
      else { w with seq := w.seq.cache m none }.back origin .failed
  | .summary m text =>
      if ok then { w with seq := w.seq.cache m (some (some text, .absent)) }.finish .applied
      else { w with seq := w.seq.cache m none }.finish .failed
  | .discrete m text tri =>
      if ok then
        { w with seq := (w.seq.cache m (some (text, tri))).registerDiscreteCache m }.finish
          (.edited true)
      else
        { w with seq := (w.seq.cache m none).forgetDiscreteCache m }.finish (.edited false)

def editRaised (what : Edit) (w : World) : World :=
  match what with
  | .narration _ _ _ .relay => w.back .relay .raised
  | _ => w.finish .raised

end Discrete

section Intents

def Sequencer.progress (s : Sequencer) (k : Nat) (f : Progress → Progress) : Sequencer :=
  { s with registry := s.registry.modify k f }

def Sequencer.progressRequest (s : Sequencer) (rid : String) (f : Progress → Progress) :
    Sequencer :=
  match s.registry.byRequestId rid with
  | some i => s.progress i.seq f
  | none => s

def registerIntent (rid : String) (tool : Tool) (hash : String) (onRetire : Bool)
    (s : Sequencer) : Sequencer :=
  if s.terminal then s
  else { s with registry := (s.registry.register s.clock rid tool hash onRetire).2 }

def armIntent (rid : String) (s : Sequencer) : Sequencer :=
  s.progressRequest rid (·.arm s.clock)

def cancelIntent (rid : String) (s : Sequencer) : Sequencer :=
  s.progressRequest rid (·.cancel)

def recordIntentRefusal (rid : String) (outcome : Outcome) (s : Sequencer) : Sequencer :=
  s.progressRequest rid fun p => { p.cancel with outcome := some outcome }

inductive CancelResult where
  | absent
  | postWon
  | cancelled
deriving DecidableEq

def recordIntentCancelledNowait (rid : String) (outcome : Outcome) (s : Sequencer) :
    CancelResult × Sequencer :=
  match s.registry.byRequestId rid with
  | none => (.absent, s)
  | some i =>
      if i.posting || decide (i.state = .posted) || i.outcome.isSome then (.postWon, s)
      else match i.state with
        | .pending | .armed =>
            (.cancelled, s.progress i.seq fun p => { p.cancel with outcome := some outcome })
        | _ => (.postWon, s)

def registerCompletionConsumption (rid hash : String) (s : Sequencer) : Sequencer :=
  if s.terminal then s
  else
    let registered := s.registry.register s.clock rid .emitCompletion hash false
    { s with registry := registered.2.modify registered.1.seq fun p =>
        { p with state := .posted, timeoutPosted := true, consumed := false } }

def markIntentCompensated (rid : String) (mid : MsgId) (s : Sequencer) : Sequencer :=
  match s.registry.byRequestId rid with
  | none => s
  | some i =>
      if i.outcome.any (·.isCompensated) then s
      else (s.sealNarrationLocked.progress i.seq fun p =>
        { p with
          state := .posted
          consumed := true
          timeoutPosted := false
          postFailed := false
          messageId := some mid
          outcome := some (.compensated mid) }).raiseHighWater mid

variable (intentTimeout : Nat)

def Walk.outOfBand : Walk → Bool
  | .block => false
  | _ => true

/-- The watcher posts what missed its slot or has waited too long; the others post all. -/
def Walk.due (walk : Walk) (i : SendIntent) : Bool :=
  match walk with
  | .process now =>
      i.slotMissed || decide (intentTimeout ≤ now - i.armedAt.getD i.registeredAt)
  | _ => true

def Walk.leaveDebt (walk : Walk) (p : Progress) : Progress :=
  match walk with
  | .process _ => if p.slotMissed then p else { p with consumed := false, timeoutPosted := true }
  | _ => p

/-- `_post_intent_locked` up to the poster, for the next intent of a walk. -/
def visit (walk : Walk) (k : Nat) (rest : List Nat) (w : World) : World :=
  match w.seq.registry.get? k with
  | none => { w with doing := .walking walk rest }
  | some i =>
      if walk.due intentTimeout i = false then { w with doing := .walking walk rest }
      else if w.seq.terminal && i.outcome.isNone then
        { w with
          seq := w.seq.progress k fun p => walk.leaveDebt
            { p with postFailed := true, consumed := true, outcome := some .terminal }
          doing := .walking walk rest }
      else
        { w with
          seq := w.seq.progress k fun p => { p with posting := true }
          topic := { w.topic with invoked := w.topic.invoked ++ [k] }
          doing := .sending (.intent k walk rest) [] }

def Sequencer.recorded (s : Sequencer) (k : Nat) : Bool :=
  ((s.registry.get? k).bind (·.outcome)).isSome

def Walk.missed (walk : Walk) (p : Progress) : Progress :=
  walk.leaveDebt <|
    if p.outcome.any (·.isCompensated) then { p with posting := false }
    else
      { p with
        posting := false
        postFailed := true
        outcome := some (.failed walk.outOfBand) }

def Walk.delivered (walk : Walk) (m : MsgId) (p : Progress) : Progress :=
  walk.leaveDebt
    { p with
      posting := false
      state := .posted
      consumed := true
      messageId := some m
      outcome := some (.posted m walk.outOfBand) }

/-- `_post_intent_locked` once the poster has returned, or raised something else than a
cancellation. -/
def resolvePost (walk : Walk) (k : Nat) (mid : Option MsgId) (s : Sequencer) : Sequencer :=
  match mid with
  | none => s.progress k walk.missed
  | some m =>
      if s.recorded k then s.progress k fun p => walk.leaveDebt { p with posting := false }
      else { s.sealNarrationLocked.progress k (walk.delivered m) with highWater := some m }

def interruptPost (walk : Walk) (k : Nat) (s : Sequencer) : Sequencer :=
  if s.recorded k then s.progress k fun p => { p with posting := false }
  else s.sealNarrationLocked.progress k fun p =>
    { p with
      posting := false
      postFailed := true
      consumed := true
      outcome := some (.interrupted walk.outOfBand) }

def World.prune (keep : SendIntent → Bool) (w : World) : World :=
  { w with
    seq := { w.seq with registry := w.seq.registry.prune keep, turnReplyTo := none }
    topic := { w.topic with
      gone := w.topic.gone ++ w.seq.registry.dropped keep
      hooks := w.topic.hooks ++ w.seq.registry.retiring keep } }

/-- The loop of a walk: the next intent, or the end. A drain ends only when nothing armed is
left to post, and it prunes in the same breath. -/
def proceed (walk : Walk) (rest : List Nat) (w : World) : World :=
  match rest with
  | k :: more => visit intentTimeout walk k more w
  | [] =>
      match walk with
      | .drain =>
          match w.seq.registry.armedUnposted with
          | [] =>
              let pruned := w.prune fun _ => false
              { pruned with seq := pruned.seq.sealNarrationLocked }.finish .nothing
          | ks => { w with doing := .walking .drain ks }
      | .block => w.finish (.block .posted)
      | _ => w.finish .nothing

/-- One locked look of `post_for_block`; the last look also marks the slot as missed. -/
def postForBlock (tool : Tool) (hash : String) (last : Bool) (w : World) : World :=
  match w.seq.registry.oldestMatchable tool hash with
  | some i =>
      match i.state with
      | .armed => visit intentTimeout .block i.seq [] w
      | .cancelled =>
          { w with seq := w.seq.progress i.seq fun p => { p with consumed := true } }.finish
            (.block .consumedCancelled)
      | .posted =>
          { w with seq := w.seq.sealNarrationLocked.progress i.seq fun p =>
            { p with consumed := true } }.finish (.block .debtConsumed)
      | .pending =>
          if last then
            { w with seq := w.seq.progress i.seq fun p => { p with slotMissed := true } }.finish
              (.block .slotTimeout)
          else w.finish (.block .hold)
  | none =>
      if tool.holdEligible = false then w.finish (.block .noMatch)
      else if last then w.finish (.block .slotTimeout)
      else w.finish (.block .hold)

/-- `terminalize` leaves what is resolved, posted or retired. -/
def abort (p : Progress) : Progress :=
  if p.consumed || p.postFailed || p.outcome.isSome || decide (p.state = .posted) then p
  else { p.cancel with postFailed := true, outcome := some .terminal }

def terminalize (w : World) : World :=
  if w.seq.terminal then w.finish .nothing
  else
    let aborted : Sequencer :=
      { w.seq with
        terminal := true
        registry := w.seq.registry.modifyAll abort }
    ({ w with seq := aborted }.prune (·.isLiveCompletionDebt)).finish .nothing

end Intents

section Steps

inductive Call where
  | registerIntent (rid : String) (tool : Tool) (hash : String) (onRetire : Bool)
  | armIntent (rid : String)
  | cancelIntent (rid : String)
  | recordIntentRefusal (rid error : String) (message : Option String)
  | recordIntentCancelledNowait (rid error : String) (message : Option String)
  | registerCompletionConsumption (rid hash : String)
  | setTurnReplyTo (mid : Option MsgId)
  | consumeTurnReplyTo
  | restoreTurnReplyTo (mid : Option MsgId)

def Call.run (s : Sequencer) : Call → Sequencer
  | .registerIntent rid tool hash onRetire => SequencerWriter.registerIntent rid tool hash onRetire s
  | .armIntent rid => SequencerWriter.armIntent rid s
  | .cancelIntent rid => SequencerWriter.cancelIntent rid s
  | .recordIntentRefusal rid error message =>
      SequencerWriter.recordIntentRefusal rid (.refused error message) s
  | .recordIntentCancelledNowait rid error message =>
      (SequencerWriter.recordIntentCancelledNowait rid (.refused error message) s).2
  | .registerCompletionConsumption rid hash =>
      SequencerWriter.registerCompletionConsumption rid hash s
  | .setTurnReplyTo mid => { s with turnReplyTo := mid }
  | .consumeTurnReplyTo => { s with turnReplyTo := none }
  | .restoreTurnReplyTo mid =>
      if mid.isSome && s.turnReplyTo.isNone then { s with turnReplyTo := mid } else s

inductive Task where
  | openNarration (text : String)
  | editNarrationIfLatest (m : MsgId) (text : String) (markup : Markup)
  | postUnlessAnchorOpen (text : String) (seam posts : Bool)
  | editSummary (m : MsgId) (text : String)
  | sealNarration
  | advanceHighWaterForInbound (o : Option MsgId)
  | postPlatformNotice
  | postCompletionNotice
  | postDiscrete (text : String) (markup : Markup) (revalidate budgeted : Bool)
  | editDiscrete (m : MsgId) (text : Option String) (markup : Markup) (revalidate : Bool)
  | postForBlock (tool : Tool) (hash : String) (last : Bool)
  | processIntentsOnce
  | flushArmedIntents
  | drainAndPruneTurn
  | terminalize

def Task.start (intentTimeout : Nat) (w : World) : Task → World
  | .openNarration text => SequencerWriter.openNarration text .caller w
  | .editNarrationIfLatest m text markup =>
      SequencerWriter.editNarrationIfLatest m text markup .caller w
  | .postUnlessAnchorOpen text seam posts =>
      SequencerWriter.postUnlessAnchorOpen text seam posts w
  | .editSummary m text => SequencerWriter.editSummary m text w
  | .sealNarration => { w with seq := w.seq.sealNarrationLocked }.finish .nothing
  | .advanceHighWaterForInbound o => SequencerWriter.advanceHighWaterForInbound o w
  | .postPlatformNotice => SequencerWriter.postPlatformNotice w
  | .postCompletionNotice => SequencerWriter.postCompletionNotice w
  | .postDiscrete text markup revalidate budgeted =>
      SequencerWriter.postDiscrete text markup revalidate budgeted w
  | .editDiscrete m text markup revalidate =>
      SequencerWriter.editDiscrete m text markup revalidate w
  | .postForBlock tool hash last => SequencerWriter.postForBlock intentTimeout tool hash last w
  | .processIntentsOnce =>
      { w with doing := .walking (.process w.seq.clock) w.seq.registry.armedUnposted }
  | .flushArmedIntents => { w with doing := .walking .flush w.seq.registry.armedUnposted }
  | .drainAndPruneTurn => { w with doing := .walking .drain [] }
  | .terminalize => SequencerWriter.terminalize w

/-- What the thing the locked call waits for does. `interrupted` is the cancellation of a task
during a send; at the other waits it is an exception like any other. -/
inductive Reply where
  | lands (gap : Nat)
  | returns (mid : Option MsgId)
  | raises
  | interrupted
  | timesOut
  | editReturns (ok : Bool)
  | seamReads (opened : Bool)
  | revalidates (yes : Bool)
  | compensates (mid : MsgId)
  | editsSummary (m : MsgId) (text : String) (ok : Bool)
  | relayOpens (text : String)
  | relayEdits (m : MsgId) (text : String) (markup : Markup)
  | relayEnds

def Send.sender : Send → Sender
  | .narration _ _ _ => .narration
  | .notice completion => if completion then .completion else .notice
  | .discrete _ _ _ => .discrete
  | .intent k _ _ => .intent k

def landed (what : Send) (ids : List MsgId) (gap : Nat) (w : World) : World :=
  let mid := w.topic.top + 1 + gap
  { w with
    topic := { w.topic with top := mid, sent := w.topic.sent ++ [(what.sender, mid)] }
    doing := .sending what (ids ++ [mid]) }

def returned (what : Send) (mid : Option MsgId) (w : World) : World :=
  match what with
  | .narration text replyTo origin =>
      { w with seq := openedNarration text replyTo mid w.seq }.back origin (.message mid)
  | .notice _ => { w with seq := postedNotice mid w.seq }.finish (.message mid)
  | .discrete text markup _ =>
      { w with seq := postedDiscrete text markup mid w.seq }.finish (.message mid)
  | .intent k walk rest =>
      { w with
        seq := resolvePost walk k mid w.seq
        topic := { w.topic with
          returned := w.topic.returned ++ mid.toList.map fun m => (k, m) }
        doing := .walking walk rest }

def raised (what : Send) (w : World) : World :=
  match what with
  | .narration _ _ .relay => w.back .relay .raised
  | .intent k walk rest =>
      { w with seq := resolvePost walk k none w.seq, doing := .walking walk rest }
  | _ => w.finish .raised

def interrupted (what : Send) (w : World) : World :=
  match what with
  | .narration _ _ .relay => w.back .relay .raised
  | .intent k walk _ => { w with seq := interruptPost walk k w.seq }.finish .raised
  | _ => w.finish .raised

def nestedSummary (m : MsgId) (text : String) (ok : Bool) (s : Sequencer) : Sequencer :=
  if s.editCache m = some (some text, .absent) then s
  else if ok then s.cache m (some (some text, .absent))
  else s.cache m none

def compensate (k : Nat) (mid : MsgId) (s : Sequencer) : Sequencer :=
  match s.registry.get? k with
  | some i => markIntentCompensated i.requestId mid s
  | none => s

def Reply.answer (w : World) : Doing → Reply → World
  | .sending what ids, .lands gap => landed what ids gap w
  | .sending what _, .returns mid => SequencerWriter.returned what mid w
  | .sending what _, .raises => SequencerWriter.raised what w
  | .sending what _, .interrupted => SequencerWriter.interrupted what w
  | .sending (.discrete _ _ true) _, .timesOut =>
      { w with seq := w.seq.sealNarrationLocked }.finish (.message none)
  | .sending (.intent k _ _) _, .compensates mid => { w with seq := compensate k mid w.seq }
  | .sending (.intent _ _ _) _, .editsSummary m text ok =>
      { w with seq := nestedSummary m text ok w.seq }
  | .editing what, .editReturns ok => edited what ok w
  | .editing what, .raises => editRaised what w
  | .seam text posts, .seamReads opened =>
      if opened then w.finish .held
      else if posts then { w with doing := .relay }
      else { w with doing := .sending (.narration text w.seq.turnReplyTo .fallback) [] }
  | .seam _ _, .raises => w.finish .raised
  | .relay, .relayOpens text => openNarration text .relay w
  | .relay, .relayEdits m text markup => editNarrationIfLatest m text markup .relay w
  | .relay, .relayEnds => w.finish .posted
  | .relay, .raises => w.finish .raised
  | .revalidatingPost text markup budgeted, .revalidates yes =>
      if yes then { w with doing := .sending (.discrete text markup budgeted) [] }
      else w.finish (.message none)
  | .revalidatingPost _ _ _, .raises => w.finish .raised
  | .revalidatingEdit m text markup, .revalidates yes =>
      if yes then gateDiscreteEdit m text markup w else w.finish (.edited false)
  | .revalidatingEdit _ _ _, .raises => w.finish .raised
  | _, _ => w

inductive Label where
  | call (c : Call)
  | operator (gap : Nat)
  | tick (n : Nat)
  | start (task : Task)
  | proceed
  | reply (r : Reply)

def step (intentTimeout : Nat) : Label → World → World
  | .call c, w => { w with seq := c.run w.seq }
  | .operator gap, w => { w with topic := { w.topic with top := w.topic.top + 1 + gap } }
  | .tick n, w => { w with seq := { w.seq with clock := w.seq.clock + n } }
  | .start task, w =>
      match w.doing with
      | .idle => task.start intentTimeout w
      | _ => w
  | .proceed, w =>
      match w.doing with
      | .walking walk rest => SequencerWriter.proceed intentTimeout walk rest w
      | _ => w
  | .reply r, w => r.answer w w.doing

/-- Between two intents of a walk the code does not wait, so nothing else happens there. -/
def scheduled : Label → World → Bool
  | .proceed, _ => true
  | _, w =>
      match w.doing with
      | .walking _ _ => false
      | _ => true

end Steps

section Frames
variable (s : Sequencer)

@[simp] theorem registry_sealNarrationLocked : s.sealNarrationLocked.registry = s.registry := by
  unfold Sequencer.sealNarrationLocked
  split <;> rfl

@[simp] theorem terminal_sealNarrationLocked : s.sealNarrationLocked.terminal = s.terminal := by
  unfold Sequencer.sealNarrationLocked
  split <;> rfl

@[simp] theorem narration_sealNarrationLocked : s.sealNarrationLocked.narrationMsgId = none := by
  unfold Sequencer.sealNarrationLocked
  split
  · rfl
  · assumption

@[simp] theorem registry_raiseHighWater (mid : MsgId) :
    (s.raiseHighWater mid).registry = s.registry := by
  unfold Sequencer.raiseHighWater
  split
  · split <;> rfl
  · rfl

@[simp] theorem terminal_raiseHighWater (mid : MsgId) :
    (s.raiseHighWater mid).terminal = s.terminal := by
  unfold Sequencer.raiseHighWater
  split
  · split <;> rfl
  · rfl

@[simp] theorem narration_raiseHighWater (mid : MsgId) :
    (s.raiseHighWater mid).narrationMsgId = s.narrationMsgId := by
  unfold Sequencer.raiseHighWater
  split
  · split <;> rfl
  · rfl

variable (mid : Option MsgId)

@[simp] theorem registry_openedNarration (text : String) (replyTo : Option MsgId) :
    (openedNarration text replyTo mid s).registry = s.registry := by
  cases mid <;> rfl

@[simp] theorem terminal_openedNarration (text : String) (replyTo : Option MsgId) :
    (openedNarration text replyTo mid s).terminal = s.terminal := by
  cases mid <;> rfl

@[simp] theorem registry_postedNotice : (postedNotice mid s).registry = s.registry := by
  cases mid <;> simp [postedNotice]

@[simp] theorem terminal_postedNotice : (postedNotice mid s).terminal = s.terminal := by
  cases mid <;> simp [postedNotice]

@[simp] theorem registry_postedDiscrete (text : String) (markup : Markup) :
    (postedDiscrete text markup mid s).registry = s.registry := by
  cases mid <;> simp [postedDiscrete, Sequencer.cache, Sequencer.registerDiscreteCache]

@[simp] theorem terminal_postedDiscrete (text : String) (markup : Markup) :
    (postedDiscrete text markup mid s).terminal = s.terminal := by
  cases mid <;> simp [postedDiscrete, Sequencer.cache, Sequencer.registerDiscreteCache]

@[simp] theorem registry_nestedSummary (m : MsgId) (text : String) (ok : Bool) :
    (nestedSummary m text ok s).registry = s.registry := by
  unfold nestedSummary
  split
  · rfl
  · split <;> rfl

@[simp] theorem terminal_nestedSummary (m : MsgId) (text : String) (ok : Bool) :
    (nestedSummary m text ok s).terminal = s.terminal := by
  unfold nestedSummary
  split
  · rfl
  · split <;> rfl

theorem recordIntentCancelledNowait_cases (rid : String) (outcome : Outcome) :
    (recordIntentCancelledNowait rid outcome s).1 ≠ .cancelled ∧
      (recordIntentCancelledNowait rid outcome s).2 = s ∨
    ∃ i, s.registry.byRequestId rid = some i ∧ i.posting = false ∧
      (recordIntentCancelledNowait rid outcome s).1 = .cancelled ∧
      (recordIntentCancelledNowait rid outcome s).2 =
        s.progress i.seq fun p => { p.cancel with outcome := some outcome } := by
  unfold recordIntentCancelledNowait
  split
  · exact .inl ⟨nofun, rfl⟩
  · rename_i i found
    split
    · exact .inl ⟨nofun, rfl⟩
    · rename_i live
      have idle : i.posting = false := by
        simp only [Bool.or_eq_true, not_or, Bool.not_eq_true] at live
        exact live.1.1
      split
      · exact .inr ⟨i, found, idle, rfl, rfl⟩
      · exact .inr ⟨i, found, idle, rfl, rfl⟩
      · exact .inl ⟨nofun, rfl⟩

end Frames

end Casa.SequencerWriter
