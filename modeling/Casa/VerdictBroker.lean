import Casa.KeyedTable
import Mathlib.Data.List.Sort

/-! The verdict broker (`verdict_broker.py`). Request objects live in a heap of their
own, because a claim holds the object and every other operation finds it by key; timers
and tombstone callbacks are the handles the event loop still holds. -/

namespace Casa.VerdictBroker
open KeyedTable

structure Key where
  namespace_ : String
  scope : String
  requestId : String
deriving DecidableEq, Repr

/-- `_VALID_NAMESPACES`. -/
def validNamespace (s : String) : Bool :=
  ["permission", "engagement_ask", "resident_ask"].contains s

/-- A Python value where an identity is expected; `bool` is not an `int` here. -/
inductive Identity where
  | none
  | bool (b : Bool)
  | int (n : Int)
  | other (text : String)
deriving DecidableEq, Repr

inductive Outcome where
  | answered (optionIndex : Int) (actorId : Identity) (optionIndices : Option (List Int))
  | noAnswer
  | cancelled (reason : String)
  | deliveryFailed
deriving DecidableEq, Repr

def Outcome.isAnswered : Outcome → Bool
  | .answered _ _ _ => true
  | _ => false

/-- The keys of a request's `meta` that the broker reads or writes. -/
structure Meta where
  operatorId : Identity
  selected : Option (List Int) := none
  messageId : Option Int := none
deriving DecidableEq, Repr

inductive Setup where
  | absent | running | done
deriving DecidableEq, Repr

structure PendingRequest (T : Type) where
  id : Nat
  key : Key
  metadata : Meta
  future : Option Outcome := none
  timer : Option Nat := none
  deadline : T
  claimed : Option Nat := none
  hook : Bool := false
  hookFired : Bool := false
  setup : Setup := .absent

structure RetiredEntry where
  key : Key
  outcome : Outcome
  metadata : Meta
  entryId : Nat

/-- The token returned by `claim`; `req` is the request object it holds. -/
structure Claim where
  req : Nat
  token : Nat
  optionIndex : Int
  actorId : Identity
  optionIndices : Option (List Int)
deriving DecidableEq, Repr

def Claim.outcome (c : Claim) : Outcome := .answered c.optionIndex c.actorId c.optionIndices

structure Broker (T : Type) where
  live : Table (Prod.fst : Key × Nat → Key)
  retired : Table RetiredEntry.key
  requests : Table (@PendingRequest.id T)
  timers : Table (Prod.fst : Nat × Key → Nat)
  tombstonePops : List (Key × Nat)
  hookTasks : List (Nat × Outcome)
  nextId : Nat
  nextToken : Nat
  nextTimer : Nat

variable {T : Type}

def Broker.init : Broker T := ⟨.empty, .empty, .empty, .empty, [], [], 0, 0, 0⟩

namespace Broker

/-- `self._live.get(key)`, the object itself. -/
def liveRequest (b : Broker T) (key : Key) : Option (PendingRequest T) :=
  (b.live.get? key).bind fun entry => b.requests.get? entry.2

def store (b : Broker T) (req : PendingRequest T) : Broker T :=
  { b with requests := b.requests.put req }

/-- `_cancel_timer`; the request keeps no handle. -/
def cancelTimer (b : Broker T) (req : PendingRequest T) : Broker T :=
  match req.timer with
  | some handle =>
      { b with
        timers := b.timers.remove handle
        requests := b.requests.put { req with timer := none } }
  | none => b

def fireHook (b : Broker T) (req : PendingRequest T) (outcome : Outcome) : Broker T :=
  if req.hookFired || !req.hook then b
  else
    { b with
      requests := b.requests.put { req with hookFired := true },
      hookTasks := b.hookTasks ++ [(req.id, outcome)] }

/-- The request after `_cancel_timer` and `set_result`, if it was not done. -/
def resolved (req : PendingRequest T) (outcome : Outcome) : PendingRequest T :=
  { req with timer := none, future := some (req.future.getD outcome) }

/-- Popping the live entry, as `_finish` and `unregister` share it. -/
def settle (b : Broker T) (key : Key) (req : PendingRequest T) (outcome : Outcome) : Broker T :=
  (cancelTimer { b with live := b.live.remove key } req).store (resolved req outcome)

def finish (b : Broker T) (key : Key) (outcome : Outcome) : Broker T :=
  match b.liveRequest key with
  | none => b
  | some req =>
      let b := b.settle key req outcome
      let b :=
        { b with
          retired := b.retired.put ⟨key, outcome, req.metadata, req.id⟩,
          tombstonePops := b.tombstonePops ++ [(key, req.id)] }
      b.fireHook (resolved req outcome) outcome

def finishAll (b : Broker T) (keys : List Key) (outcome : Outcome) : Broker T :=
  keys.foldl (fun b key => b.finish key outcome) b

def scopeKeys (b : Broker T) (namespace_ scope : String) : List Key :=
  (b.live.rows.map Prod.fst).filter fun k => k.namespace_ = namespace_ ∧ k.scope = scope

/-- What `register` hands back: the request object and whether it is new. A retired key
yields an already resolved object that belongs to nobody else. -/
inductive Registration where
  | created (id : Nat)
  | existing (id : Nat)
  | retired (outcome : Outcome) (metadata : Meta)
deriving DecidableEq, Repr

section Registering
variable [Add T]

def enroll (b : Broker T) (now : T) (key : Key) (timeoutS : T) (metadata : Meta) : Broker T :=
  { b with
    requests := b.requests.put
      { id := b.nextId, key := key, metadata := metadata, timer := some b.nextTimer,
        deadline := now + timeoutS },
    live := b.live.put (key, b.nextId),
    timers := b.timers.put (b.nextTimer, key),
    nextId := b.nextId + 1,
    nextTimer := b.nextTimer + 1 }

def register (b : Broker T) (now : T) (key : Key) (timeoutS : T) (metadata : Meta)
    (supersede : Bool) : Except String (Registration × Broker T) :=
  if validNamespace key.namespace_ then
    match b.live.get? key, b.retired.get? key with
    | some (_, id), _ => .ok (.existing id, b)
    | none, some entry =>
        .ok (.retired entry.outcome entry.metadata, { b with nextId := b.nextId + 1 })
    | none, none =>
        let b :=
          if supersede then
            b.finishAll (b.scopeKeys key.namespace_ key.scope) (.cancelled "superseded")
          else b
        .ok (.created b.nextId, b.enroll now key timeoutS metadata)
  else .error ("invalid namespace: '" ++ key.namespace_ ++ "'")

end Registering

/-- `_on_timeout`, run from a handle the loop still holds. -/
def timeout (b : Broker T) (handle : Nat) : Broker T :=
  match b.timers.get? handle with
  | some (_, key) => { b with timers := b.timers.remove handle }.finish key .noAnswer
  | none => b

/-- `_pop_tombstone` of the entry retired for request `entryId`. -/
def popTombstone (b : Broker T) (key : Key) (entryId : Nat) : Broker T :=
  if (key, entryId) ∈ b.tombstonePops then
    let b := { b with tombstonePops := b.tombstonePops.erase (key, entryId) }
    if (b.retired.get? key).any (·.entryId = entryId) then
      { b with retired := b.retired.remove key }
    else b
  else b

def actorIsBound (metadata : Meta) (actorId : Identity) : Bool :=
  match metadata.operatorId, actorId with
  | .int expected, .int actor => 0 < expected ∧ actor = expected
  | _, _ => false

inductive ClaimRefusal where
  | forbidden | duplicate | stale
deriving DecidableEq, Repr

def claim (b : Broker T) (key : Key) (optionIndex : Int) (actorId : Identity)
    (optionIndices : Option (List Int)) : Except ClaimRefusal Claim × Broker T :=
  match b.liveRequest key with
  | some req =>
      if !actorIsBound req.metadata actorId then (.error .forbidden, b)
      else if req.claimed.isSome then (.error .duplicate, b)
      else
        let token := b.nextToken
        let b := cancelTimer { b with nextToken := token + 1 } req
        (.ok ⟨req.id, token, optionIndex, actorId, optionIndices⟩,
          b.store { req with claimed := some token, timer := none })
  | none =>
      match b.retired.get? key with
      | some entry => (.error (if entry.outcome.isAnswered then .duplicate else .stale), b)
      | none => (.error .stale, b)

/-- `req._claimed is claim.token` and the future is not done. -/
def holds (b : Broker T) (c : Claim) : Bool :=
  (b.requests.get? c.req).any fun req => req.claimed = some c.token ∧ req.future = none

def commit (b : Broker T) (c : Claim) : Bool × Broker T :=
  match b.requests.get? c.req with
  | some req => if b.holds c then (true, b.finish req.key c.outcome) else (false, b)
  | none => (false, b)

def abortClaim [LinearOrder T] [Sub T] [Zero T] (b : Broker T) (now : T) (c : Claim) : Broker T :=
  match b.requests.get? c.req with
  | some req =>
      if b.holds c then
        let freed := { req with claimed := none }
        if req.deadline - now ≤ 0 then (b.store freed).finish req.key .noAnswer
        else
          { b with
            requests := b.requests.put { freed with timer := some b.nextTimer },
            timers := b.timers.put (b.nextTimer, req.key),
            nextTimer := b.nextTimer + 1 }
      else b
  | none => b

/-- `selected.remove(idx)` or `append`, then `sort`. -/
def toggled (selected : List Int) (idx : Int) : List Int :=
  (if idx ∈ selected then selected.erase idx else selected ++ [idx]).insertionSort (· ≤ ·)

def toggleSelection (b : Broker T) (key : Key) (idx : Int) : Option (List Int) × Broker T :=
  match b.liveRequest key with
  | some req =>
      if req.claimed.isSome then (none, b)
      else
        let selected := toggled (req.metadata.selected.getD []) idx
        (some selected, b.store { req with metadata := { req.metadata with selected := selected } })
  | none => (none, b)

def unregister (b : Broker T) (key : Key) : Broker T :=
  match b.liveRequest key with
  | some req => b.settle key req .deliveryFailed
  | none => b

def cancel (b : Broker T) (key : Key) (reason : String) : Bool × Broker T :=
  if (b.live.get? key).isSome then (true, b.finish key (.cancelled reason)) else (false, b)

def cancelScope (b : Broker T) (namespace_ scope reason : String) : Nat × Broker T :=
  let keys := b.scopeKeys namespace_ scope
  (keys.length, b.finishAll keys (.cancelled reason))

def cancelAll (b : Broker T) (reason : String) : Nat × Broker T :=
  let keys := b.live.rows.map Prod.fst
  (keys.length, b.finishAll keys (.cancelled reason))

def setFinishHook (b : Broker T) (req : PendingRequest T) : Broker T :=
  let hooked := { req with hook := true }
  let b := b.store hooked
  match req.future with
  | some outcome => if req.hookFired then b else b.fireHook hooked outcome
  | none => b

/-- The synchronous part of `ensure_posted`: start the setup task once. -/
def ensurePosted (b : Broker T) (id : Nat) : Broker T :=
  match b.requests.get? id with
  | some req =>
      if req.setup = .absent ∧ req.future = none then b.store { req with setup := .running } else b
  | none => b

/-- `_run_setup` after its post: `posted` is absent when the post raised or gave no number. -/
def setupDone (b : Broker T) (id : Nat) (posted : Option Int) : Broker T :=
  match b.requests.get? id with
  | some req =>
      if req.setup = .running then
        let req := { req with setup := .done }
        match posted with
        | some mid =>
            b.setFinishHook { req with metadata := { req.metadata with messageId := some mid } }
        | none => (b.store req).unregister req.key
      else b
  | none => b

end Broker

end Casa.VerdictBroker
