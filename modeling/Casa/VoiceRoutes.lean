import Casa.KeyedTable
import Casa.PythonValue
import Mathlib.Logic.Function.Basic
import Mathlib.Order.Lattice

/-! Authenticated voice routes (`channels/voice/routes.py`): which websocket speaks for
which route id. A binding is an object with its own identity, so a re-registration of the
same route on the same socket is a different binding. -/

namespace Casa.VoiceRoutes
open PythonValue KeyedTable

variable {T : Type} [LinearOrder T] [Sub T]

/-- `_identifier` on text: stripped, not empty, at most 512 characters. -/
def identifier (value : String) : Option String :=
  let normalized := strip value
  if normalized = "" ∨ 512 < normalized.length then none else some normalized

/-- `_identifier` on a decoded value. -/
def identifierOf : Json T → Option String
  | .str value => identifier value
  | _ => none

/-- A frozen `BoundVoiceRoute`; `ref` is what `is` compares, `connection` names its socket. -/
structure BoundVoiceRoute where
  ref : Nat
  routeId : String
  role : String
  capabilities : List String
  jobControlId : String
  connection : Nat
deriving DecidableEq, Repr

/-- The fields of a `VoiceWsConnection` that only the route registry writes. -/
structure ConnectionFields where
  voiceRouteId : Option String := none
  voiceRouteRole : Option String := none
  voiceRouteCapabilities : List String := []
  voiceJobControlId : Option String := none
deriving DecidableEq, Repr

structure RouteMetadata (T : Type) where
  routeId : String
  role : String
  capabilities : List String
  lastSeen : T

/-- `voiceRole` says that a role is configured and allowed on the voice channel. -/
structure RouteSettings (T : Type) where
  secretPresent : Bool
  freshnessS : T
  voiceRole : String → Bool

structure Routes (T : Type) where
  connected : Table BoundVoiceRoute.routeId
  metadata : Table (@RouteMetadata.routeId T)
  fields : Nat → ConnectionFields
  nextRef : Nat

def Routes.init : Routes T := ⟨.empty, .empty, fun _ => {}, 0⟩

def routeProtocol : Int := 3

def routeCapabilities : List String := ["background_jobs", "endpoint_delivery", "voice_handoff"]

def validRequested : Json T → Bool
  | .arr items => items.all (fun item => match item with
      | .str name => name ∈ routeCapabilities
      | _ => false) && routeCapabilities.all (fun name => items.any (fun item => match item with
      | .str other => other = name
      | _ => false))
  | _ => false

def isSupportedProtocol : Json T → Bool
  | .int n => n = routeProtocol
  | _ => false

section Registry
variable (cfg : RouteSettings T) (routes : Routes T)

def clearConnectionFields (connection : Nat) : Routes T :=
  { routes with fields := Function.update routes.fields connection {} }

/-- `metadata.last_seen = now`, where there is metadata. -/
def seen (now : T) (routeId : String) : Routes T :=
  match routes.metadata.get? routeId with
  | some row => { routes with metadata := routes.metadata.put { row with lastSeen := now } }
  | none => routes

/-- The connected entry of the route a connection claims, when it is that connection's. -/
def ownBinding (connection : Nat) : Option BoundVoiceRoute :=
  ((routes.fields connection).voiceRouteId.bind routes.connected.get?).filter
    (fun bound => bound.connection = connection)

def clearConnectionBinding (now : T) (connection : Nat) : Routes T :=
  match ownBinding routes connection with
  | some bound => clearConnectionFields
      (seen { routes with connected := routes.connected.remove bound.routeId } now bound.routeId)
      connection
  | none => clearConnectionFields routes connection

def pruneExpiredMetadata (now : T) : Routes T :=
  { routes with
    metadata := routes.metadata.filter (fun row =>
      (routes.connected.get? row.routeId).isSome || !(cfg.freshnessS < now - row.lastSeen)) }

def bindRoute (cleared pruned now : T) (connection : Nat) (routeId role : String) :
    BoundVoiceRoute × Routes T :=
  let routes := pruneExpiredMetadata cfg (clearConnectionBinding routes cleared connection) pruned
  let routes := match routes.connected.get? routeId with
    | some old => if old.connection ≠ connection then clearConnectionFields routes old.connection
        else routes
    | none => routes
  let bound : BoundVoiceRoute :=
    ⟨routes.nextRef, routeId, role, routeCapabilities, routeId, connection⟩
  (bound,
    { connected := routes.connected.put bound
      metadata := routes.metadata.put ⟨routeId, role, routeCapabilities, now⟩
      fields := Function.update routes.fields connection
        ⟨some routeId, some role, routeCapabilities, some bound.jobControlId⟩
      nextRef := routes.nextRef + 1 })

def register (cleared pruned now : T) (connection : Nat) (frame : List (String × Json T)) :
    Option BoundVoiceRoute × Routes T :=
  match identifierOf (Json.get frame "route_id"), identifierOf (Json.get frame "agent_role") with
  | some routeId, some role =>
      if isSupportedProtocol (Json.get frame "protocol") && cfg.secretPresent &&
          cfg.voiceRole role && validRequested (Json.get frame "capabilities") then
        let result := bindRoute cfg routes cleared pruned now connection routeId role
        (some result.1, result.2)
      else (none, routes)
  | _, _ => (none, routes)

def touch (now : T) (connection : Nat) : Routes T :=
  match ownBinding routes connection with
  | some bound => seen routes now bound.routeId
  | none => routes

def disconnect (now : T) (connection : Nat) : Option BoundVoiceRoute × Routes T :=
  match (routes.fields connection).voiceRouteId with
  | none => (none, routes)
  | some _ => (ownBinding routes connection, clearConnectionBinding routes now connection)

end Registry

end Casa.VoiceRoutes
