import Casa.VerdictOutcomes
import Casa.PythonValue
import Mathlib.Algebra.GroupWithZero.Nat

/-! Operator approval of protected tool calls: the single-use grant store and the
challenge coordinator (`authz_grants.py`), the turn classifier (`provenance.py`) and the
PreToolUse hook over them. Everything runs on one event loop, so a function between two
awaits is one step. -/

namespace Casa.AuthzGrants
open KeyedTable PythonValue VerdictBroker VerdictOutcomes

structure GrantKey where
  operatorId : Int
  chatId : Int
  enforcementRole : String
  artifactId : String
  toolName : String
  argsHash : String
  engagementId : String := ""
deriving DecidableEq, Repr

structure Grant (T : Type) where
  key : GrantKey
  expiresAt : T
  used : Bool := false

variable {T : Type}

/-- What `purge_chat`, `purge_role` and `purge_artifact` match. -/
inductive Purge where
  | chat (chatId : Int)
  | role (role : String)
  | artifact (artifactId : String)
deriving DecidableEq, Repr

def Purge.covers (p : Purge) (k : GrantKey) : Bool :=
  match p with
  | .chat id => k.chatId = id
  | .role name => k.enforcementRole = name
  | .artifact id => k.artifactId = id

abbrev GrantStore (T : Type) := Table (@Grant.key T)

namespace GrantStore

/-- `DEFAULT_GRANT_TTL_S`. -/
def defaultTtlS [NatCast T] : T := ((300 : Nat) : T)

def mint [Add T] (s : GrantStore T) (now : T) (key : GrantKey) (ttlS : T) : GrantStore T :=
  s.put { key := key, expiresAt := now + ttlS }

def consume [LinearOrder T] (s : GrantStore T) (now : T) (key : GrantKey) : Bool × GrantStore T :=
  match s.get? key with
  | none => (false, s)
  | some grant =>
      if grant.used ∨ grant.expiresAt ≤ now then (false, s)
      else (true, s.put { grant with used := true })

/-- `_purge`; the predicate may read the record of the key. -/
def purgeWhere (s : GrantStore T) (matched : Grant T → Bool) : Nat × GrantStore T :=
  ((s.rows.filter matched).length, s.filter fun grant => !matched grant)

def purge (s : GrantStore T) (p : Purge) : Nat × GrantStore T :=
  s.purgeWhere fun grant => p.covers grant.key

def sweep [LinearOrder T] (s : GrantStore T) (now : T) : Nat × GrantStore T :=
  s.purgeWhere fun grant => grant.expiresAt ≤ now

end GrantStore

/-- What a challenge is registered for. The consent flavours share the machinery; of their
keys only the two attributes that `cancel_matching` reads matter here. -/
inductive ChallengeKey where
  | grant (key : GrantKey)
  | consent (name : String) (artifactId plugin : Option String)
deriving DecidableEq, Repr

/-- `_Challenge`; `req` is the broker's request object. -/
structure Challenge where
  req : Nat
  key : ChallengeKey
  scope : String
  rid : String
  setupSettled : Bool := false
  requestSettled : Bool := false
deriving DecidableEq, Repr

/-- `meta["on_commit_sync"]`: the authz flavour mints, a consent flavour records elsewhere. -/
inductive CommitStep where
  | mint (key : GrantKey)
  | recordConsent
deriving DecidableEq, Repr

/-- What happened, for the record: commits that returned `True`, protected calls that were
let through, and purges. -/
inductive Entry (T : Type) where
  | committed (c : Claim) (time : T)
  | allowed (key : GrantKey) (time : T)
  | purged (p : Purge)

/-- The broker's desk, the grant store, the challenge objects, the coordinator's entries, the
commit steps attached to request objects, and the record, newest first. -/
structure Office (T : Type) where
  desk : Desk T
  grants : GrantStore T
  challenges : Table Challenge.req
  entries : Table (Prod.fst : ChallengeKey × Nat → ChallengeKey)
  steps : Table (Prod.fst : Nat × CommitStep → Nat)
  log : List (Entry T)

def Office.init : Office T := ⟨.init, .empty, .empty, .empty, .empty, []⟩

def challengeMaxChars : Nat := 3900

def challengeTtlS [NatCast T] : T := ((120 : Nat) : T)

def utf16Len (text : String) : Nat :=
  (text.toList.map fun c => if c.toNat < 0x10000 then 1 else 2).sum

/-- `ChallengeHandle`: an entry that exists already, a refusal, or a new challenge. -/
inductive ChallengeHandle where
  | existing (req : Nat)
  | refused (reason : String)
  | created (req : Nat)
deriving DecidableEq, Repr

section Coordinator
variable [LinearOrder T] [Add T] [Sub T] [Zero T] [NatCast T]

def challengeScope (chatId : Int) : String := "authz:" ++ toString chatId

def challengeBrokerKey (chatId : Int) (rid : String) : Key :=
  ⟨"resident_ask", challengeScope chatId, rid⟩

/-- The broker half of `register_challenge`, its commit step and the entry. -/
def Office.enter (o : Office T) (now : T) (key : ChallengeKey) (chatId operatorId : Int)
    (rid : String) (step : CommitStep) (timeoutS : T) : ChallengeHandle × Office T :=
  let brokerKey := challengeBrokerKey chatId rid
  let metadata : Meta := { operatorId := .int operatorId }
  let req := match o.desk.broker.register now brokerKey timeoutS metadata false with
    | .ok (.created id, _) | .ok (.existing id, _) => id
    | _ => o.desk.broker.nextId
  (.created req,
    { o with
      desk := o.desk.step (.register now brokerKey timeoutS metadata false)
      steps := o.steps.put (req, step)
      challenges := o.challenges.put
        { req := req, key := key, scope := challengeScope chatId, rid := rid }
      entries := o.entries.put (key, req) })

/-- `register_challenge`; `rid` is the `uuid4` it draws. -/
def Office.registerChallenge (o : Office T) (now : T) (key : ChallengeKey)
    (chatId operatorId : Int) (challengeText rid : String) (step : CommitStep)
    (timeoutS : Option T) : ChallengeHandle × Office T :=
  match o.entries.get? key with
  | some (_, req) => (.existing req, o)
  | none =>
      if challengeMaxChars < utf16Len challengeText then (.refused "args_too_large", o)
      else o.enter now key chatId operatorId rid step (timeoutS.getD challengeTtlS)

/-- `_maybe_remove` of the challenge object `id`. -/
def Office.maybeRemove (o : Office T) (id : Nat) : Office T :=
  match o.challenges.get? id with
  | some ch =>
      if ch.setupSettled && ch.requestSettled && o.entries.get? ch.key = some (ch.key, id) then
        { o with entries := o.entries.remove ch.key }
      else o
  | none => o

def Office.settleRequest (o : Office T) (id : Nat) : Office T :=
  match o.challenges.get? id with
  | some ch =>
      { o with challenges := o.challenges.put { ch with requestSettled := true } }.maybeRemove id
  | none => o

def Office.settleSetup (o : Office T) (id : Nat) : Office T :=
  match o.challenges.get? id with
  | some ch =>
      { o with challenges := o.challenges.put { ch with setupSettled := true } }.maybeRemove id
  | none => o

/-- The filters of `cancel_matching`; a challenge matches when one of those given does. -/
structure CancelFilter where
  role : Option String := none
  artifact : Option String := none
  chat : Option Int := none
  plugin : Option String := none

def CancelFilter.matched (f : CancelFilter) : ChallengeKey → Bool
  | .grant k =>
      f.role = some k.enforcementRole || f.artifact = some k.artifactId || f.chat = some k.chatId
  | .consent _ artifactId plugin =>
      (f.artifact.isSome && f.artifact = artifactId) || (f.plugin.isSome && f.plugin = plugin)

/-- The broker keys that `cancel_matching` cancels, in the order of the entries. -/
def Office.matching (o : Office T) (f : CancelFilter) : List Key :=
  (o.entries.rows.filter fun entry => f.matched entry.1).filterMap fun entry =>
    (o.challenges.get? entry.2).map fun ch => ⟨"resident_ask", ch.scope, ch.rid⟩

def Office.cancelMatching (o : Office T) (f : CancelFilter) : Office T :=
  { o with
    desk := (o.matching f).foldl (fun d key => d.step (.cancel key "challenge_cancelled")) o.desk }

/-- `settled_post` after its driver is done. -/
def Office.settledPost (o : Office T) (req : Nat) : String :=
  match (o.desk.broker.requests.get? req).bind PendingRequest.future with
  | none => "posted"
  | some .deliveryFailed => "delivery_failed"
  | some _ => "inactive"

/-- The tail of `_on_resident_callback`: the sync step runs right after a commit that
succeeded, with the option the claim was made for. -/
def Office.commit (o : Office T) (now : T) (c : Claim) : Office T :=
  let committed := { o with desk := o.desk.step (.commit c) }
  if (o.desk.broker.commit c).1 then
    let recorded := { committed with log := .committed c now :: o.log }
    match o.steps.get? c.req with
    | some (_, .mint key) =>
        if c.optionIndex = 0 then
          { recorded with grants := o.grants.mint now key GrantStore.defaultTtlS }
        else recorded
    | _ => recorded
  else committed

end Coordinator

section Provenance

/-- `strict_positive_id`. `int` may raise on text that only looks like digits. -/
def strictPositiveId (py : Builtins T) : Json T → Except String (Option Int)
  | .int n => .ok (if 0 < n then some n else none)
  | .str s =>
      if s ≠ "" ∧ s.toList.all py.isDigit then do
        let n ← py.int (.str s)
        return if 0 < n then some n else none
      else .ok none
  | _ => .ok none

inductive Transport where
  | dm | button | other
deriving DecidableEq, Repr

inductive Execution where
  | direct | delegated | engagement
deriving DecidableEq, Repr

/-- The attributes of an engagement record that the hook reads. -/
structure EngagementRecord (T : Type) where
  id : String
  kind : String
  status : String
  topicId : Json T
  origin : List (String × Json T)
  roleOrType : Option String

/-- `agent.origin_var` and `tools.engagement_var` of the running turn. -/
structure Turn (T : Type) where
  origin : List (String × Json T)
  engagement : Option (EngagementRecord T)

def isText (x : Json T) (text : String) : Bool :=
  match x with
  | .str s => s = text
  | _ => false

def Turn.transport (py : Builtins T) (turn : Turn T) : Except String Transport := do
  let get := Json.get turn.origin
  if isText (get "message_type") "channel_in" ∧ isText (get "channel") "telegram" ∧
      isText (get "source") "telegram" then
    match ← strictPositiveId py (get "chat_id") with
    | none => return .other
    | some _ =>
        match ← strictPositiveId py (get "user_id") with
        | none => return .other
        | some _ =>
            return match get "synthetic" with
              | .null => .dm
              | .str "button" => .button
              | _ => .other
  else return .other

def roleText : Json T → Option String
  | .str s => some s
  | _ => none

def Turn.execution (turn : Turn T) : Execution :=
  if turn.engagement.isSome then .engagement
  else if roleText (Json.get turn.origin "execution_role") ≠ roleText (Json.get turn.origin "role")
    then .delegated
  else .direct

end Provenance

section Denials

def denyEngagementUnavailable : String :=
  "not executed: this engagement cannot authorize a protected action " ++
    "(no reachable operator). Do NOT retry the call."

def denyUnsupportedOrigin : String :=
  "protected action requires operator confirmation over the Telegram DM " ++
    "(unsupported origin)"

def denyRoleMismatch : String := "execution-role mismatch"

def denyUnrenderable : String :=
  "arguments cannot be rendered for confirmation (unserializable / too " ++
    "large) — narrow the call"

def denyPending : String :=
  "not executed: operator authorization is already outstanding for this " ++
    "exact call. Produce NO user-facing narration and end your turn now."

def denyDeliveryFailed : String := "could not post the confirmation button — try again"

def denyInactive : String := "the confirmation expired before it could be delivered — call again"

def denyPosted : String :=
  "not executed: awaiting operator authorization. Produce NO user-facing " ++
    "narration and end your turn now. When authorization arrives, retry the " ++
    "SAME call with EXACTLY the same arguments."

def denyInternal : String := "internal authorization error — the call was not executed"

def denyNotOperator : String :=
  "not executed: this protected action requires authorization by the " ++
    "configured operator, and this conversation cannot provide it. Do NOT " ++
    "retry the call."

end Denials

/-- One row of `protected_map`. -/
structure Protected where
  artifactId : String
  summary : Option String
deriving DecidableEq, Repr

/-- `AuthzDeps` less the stores: `_user_id_is_operator` of the channel, when it has one, and the
display name. -/
structure AuthzDeps where
  isOperator : Option (Int → Except String Bool)
  displayName : Option String

def AuthzDeps.userIdIsOperator (deps : AuthzDeps) (userId : Int) : Except String Bool :=
  match deps.isOperator with
  | none => .ok false
  | some isOperator => isOperator userId

/-- The library functions the hook calls: `json.dumps` of the arguments in canonical form, the
hex digest of its UTF-8 bytes, and the rendering of a challenge. -/
structure Runtime (T : Type) where
  py : Builtins T
  canonicalArgsJson : Json T → Option String
  sha256 : String → Except String String
  renderChallengeMessage : (toolName role canonicalJson : String) →
    (summary displayName : Option String) → Except String String

/-- One invocation of a hook built by `make_resident_authz_hook`. -/
structure ToolCall (T : Type) where
  now : T
  role : String
  protectedMap : String → Option Protected
  deps : Option AuthzDeps
  turn : Turn T
  toolName : String
  toolInput : Json T
  rid : String

/-- What the hook answers. A passed-through and an allowed call are both `{}`; `posting` is a hook
that awaits `settled_post` before it denies. -/
inductive Decision where
  | passthrough
  | allow (key : GrantKey)
  | deny (reason : String)
  | posting (req : Nat)
deriving DecidableEq, Repr

section Hook
variable [LinearOrder T] [Add T] [Sub T] [Zero T] [NatCast T]

def Office.getOrCreate (rt : Runtime T) (call : ToolCall T) (prot : Protected)
    (displayName : Option String) (key : GrantKey) (canonicalJson : String) (o : Office T) :
    Except String (ChallengeHandle × Office T) :=
  match o.entries.get? (.grant key) with
  | some (_, req) => .ok (.existing req, o)
  | none => do
      let text ← rt.renderChallengeMessage call.toolName call.role canonicalJson prot.summary
        displayName
      return o.registerChallenge call.now (.grant key) key.chatId key.operatorId text call.rid
        (.mint key) none

def Office.authorize (rt : Runtime T) (call : ToolCall T) (prot : Protected) (deps : AuthzDeps)
    (operatorId chatId : Int) (engagementId : String) (o : Office T) :
    Except String (Decision × Office T) := do
  if ← deps.userIdIsOperator operatorId then
    match rt.canonicalArgsJson call.toolInput with
    | none => return (.deny denyUnrenderable, o)
    | some canonicalJson =>
        let argsHash ← rt.sha256 canonicalJson
        let key : GrantKey := ⟨operatorId, chatId, call.role, prot.artifactId, call.toolName,
          argsHash, engagementId⟩
        match o.grants.consume call.now key with
        | (true, grants) =>
            return (.allow key, { o with grants := grants, log := .allowed key call.now :: o.log })
        | (false, _) =>
            match ← o.getOrCreate rt call prot deps.displayName key canonicalJson with
            | (.refused _, o) => return (.deny denyUnrenderable, o)
            | (.existing _, o) => return (.deny denyPending, o)
            | (.created req, o) => return (.posting req, o)
  else return (.deny denyNotOperator, o)

def Office.authorizeEngagement (rt : Runtime T) (call : ToolCall T) (prot : Protected)
    (o : Office T) : Except String (Decision × Office T) := do
  let unavailable : Decision × Office T := (.deny denyEngagementUnavailable, o)
  match call.turn.engagement with
  | none => return unavailable
  | some rec =>
      if rec.id = "" ∨ rec.kind ≠ "specialist" ∨ rec.status ≠ "active" then return unavailable
      else
        match ← strictPositiveId rt.py rec.topicId with
        | none => return unavailable
        | some _ =>
            let operatorId ← strictPositiveId rt.py (Json.get rec.origin "user_id")
            let chatId ← strictPositiveId rt.py (Json.get rec.origin "chat_id")
            match operatorId, chatId, call.deps with
            | some operatorId, some chatId, some deps =>
                o.authorize rt call prot deps operatorId chatId rec.id
            | _, _, _ => return unavailable

def Office.authorizeDirect (rt : Runtime T) (call : ToolCall T) (prot : Protected)
    (transport : Transport) (o : Office T) : Except String (Decision × Office T) := do
  let unsupported : Decision × Office T := (.deny denyUnsupportedOrigin, o)
  if transport = .other then return unsupported
  else if roleText (Json.get call.turn.origin "execution_role") ≠ some call.role then
    return (.deny denyRoleMismatch, o)
  else
    match call.deps with
    | none => return unsupported
    | some deps =>
        let operatorId ← strictPositiveId rt.py (Json.get call.turn.origin "user_id")
        let chatId ← strictPositiveId rt.py (Json.get call.turn.origin "chat_id")
        match operatorId, chatId with
        | some operatorId, some chatId => o.authorize rt call prot deps operatorId chatId ""
        | _, _ => return unsupported

/-- `_hook` up to its one await. An exception that is not a cancellation denies. -/
def Office.hook (rt : Runtime T) (call : ToolCall T) (o : Office T) : Decision × Office T :=
  match call.protectedMap call.toolName with
  | none => (.passthrough, o)
  | some prot =>
      let decided : Except String (Decision × Office T) := do
        let transport ← call.turn.transport rt.py
        if call.turn.execution = .engagement then o.authorizeEngagement rt call prot
        else o.authorizeDirect rt call prot transport
      match decided with
      | .ok result => result
      | .error _ => (.deny denyInternal, o)

def Office.settledDenial (o : Office T) (req : Nat) : String :=
  match o.settledPost req with
  | "delivery_failed" => denyDeliveryFailed
  | "inactive" => denyInactive
  | _ => denyPosted

end Hook

end Casa.AuthzGrants
