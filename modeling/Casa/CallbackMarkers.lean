import Casa.KeyedTable
import Casa.OperationHistory
import Mathlib.Data.String.Basic

/-! The readiness markers of the callback reconcile: what should route, and the pass that retires
the markers which differ, swaps the overlay and publishes the rest. Reads and deletions succeed; a
directory or marker write may fail. The spool is wired and open. -/

namespace Casa.CallbackMarkers
open KeyedTable OperationTree

/-! ### What should route -/

def effectiveName (plugin declared : String) : String := "plg-" ++ plugin ++ "--" ++ declared

structure Callback where
  declared : String
  effective : String
deriving DecidableEq

/-- The names that `parse_and_validate` accepts without an error; an unreadable block is none. -/
structure CallbackSet (plugin : String) where
  names : List String
  nodup : names.Nodup
  unsplit : ¬ ['-', '-'] <:+: plugin.toList
  unended : ¬ ['-'] <:+ plugin.toList

def CallbackSet.callbacks {plugin : String} (set : CallbackSet plugin) : List Callback :=
  set.names.map fun declared => ⟨declared, effectiveName plugin declared⟩

structure ResolvedPlugin where
  name : String
  artifactId : String
  path : String
  manifest : Option (CallbackSet name)

structure PluginIssue where
  name : String
  reasonCode : String
  artifactId : Option String
deriving DecidableEq

/-- `ack_identity`, before it is hashed; the digest is one of the declared name. -/
structure Identity where
  plugin : String
  effective : String
  declared : String
deriving DecidableEq

structure OverlayEntry where
  plugin : String
  declared : String
  effective : String
  path : String
deriving DecidableEq

abbrev Overlay := Table OverlayEntry.effective

structure RoutedCallbacks where
  plugin : String
  artifactId : String
  path : String
  callbacks : List Callback
deriving DecidableEq

structure Pending where
  plugin : String
  artifactId : String
  callback : Callback
  identity : Identity
deriving DecidableEq

structure DesiredCallbacks where
  overlay : Overlay
  issues : List PluginIssue
  pending : List Pending
  routed : List RoutedCallbacks
  validIdentities : List Identity
  prunable : Bool
  baseUrl : Option String
  observed : List String

/-- What a pass resolves: names are unique in the registry, and each artifact lies under its own
plugin's name, with a discovery key of its own. -/
structure Resolution {Key : Type} (indexKey : String → Key) where
  registryValid : Bool
  issues : List PluginIssue
  plugins : List ResolvedPlugin
  named : (plugins.map ResolvedPlugin.name).Nodup
  apart : ∀ p ∈ plugins, ∀ q ∈ plugins, p.path ≠ "" → indexKey p.path = indexKey q.path →
    p.name = q.name

section Compute
variable (acked : Identity → Bool) (targets : String → List String) (liveRoles : List String)

def reachable (targets liveRoles : List String) : Bool :=
  targets.any fun t => liveRoles.contains t || "specialist:".isPrefixOf t

def identity (plugin : String) (cb : Callback) : Identity := ⟨plugin, cb.effective, cb.declared⟩

def overlayEntry (rp : ResolvedPlugin) (cb : Callback) : OverlayEntry :=
  ⟨rp.name, cb.declared, cb.effective, rp.path⟩

def issue (rp : ResolvedPlugin) (reasonCode : String) : PluginIssue :=
  ⟨rp.name, reasonCode, some rp.artifactId⟩

def route (rp : ResolvedPlugin) (callbacks : List Callback) (out : DesiredCallbacks) :
    DesiredCallbacks :=
  { out with
    overlay := (callbacks.map (overlayEntry rp)).foldl Table.put out.overlay
    routed := out.routed ++ [⟨rp.name, rp.artifactId, rp.path, callbacks⟩]
    issues := out.issues ++
      if out.baseUrl = none then [issue rp "callback_base_url_invalid"] else [] }

def await (rp : ResolvedPlugin) (unacked : List Callback) (out : DesiredCallbacks) :
    DesiredCallbacks :=
  { out with
    issues := out.issues ++ unacked.map fun _ => issue rp "callback_pending_ack"
    pending := out.pending ++
      unacked.map fun cb => ⟨rp.name, rp.artifactId, cb, identity rp.name cb⟩ }

def declare (rp : ResolvedPlugin) (callbacks : List Callback) (out : DesiredCallbacks) :
    DesiredCallbacks :=
  { out with validIdentities := out.validIdentities ++ callbacks.map (identity rp.name) }

def consider (out : DesiredCallbacks) (rp : ResolvedPlugin) : DesiredCallbacks :=
  match rp.manifest with
  | none => { out with issues := out.issues ++ [issue rp "callback_invalid"], prunable := false }
  | some set =>
      let callbacks := set.callbacks
      let unacked := callbacks.filter fun cb => !acked (identity rp.name cb)
      let seen := declare rp callbacks out
      if callbacks = [] then out
      else if reachable (targets rp.name) liveRoles = false then
        { seen with issues := seen.issues ++ [issue rp "callback_no_target"] }
      else if unacked = [] then route rp callbacks seen
      else await rp unacked seen

def computeDesired {Key : Type} {indexKey : String → Key} (baseUrl : Option String)
    (res : Resolution indexKey) : DesiredCallbacks :=
  let out : DesiredCallbacks := ⟨Table.empty, [], [], [], [], false, baseUrl, []⟩
  if res.registryValid then
    res.plugins.foldl (consider acked targets liveRoles)
      { out with
        observed := res.plugins.map ResolvedPlugin.name
        prunable := res.issues.isEmpty }
  else out

end Compute

/-! ### Payloads -/

/-- A ready payload, or with the plugin's directory an index payload. -/
structure MarkerPayload where
  baseUrl : String
  callbacks : List (Callback × String)
  pluginDir : Option String
deriving DecidableEq

def jsonEscape (c : Char) : List Char :=
  if c = '"' then ['\\', '"']
  else if c = '\\' then ['\\', '\\']
  else if c = '\n' then ['\\', 'n']
  else if c = '\r' then ['\\', 'r']
  else if c = '\t' then ['\\', 't']
  else if c.toNat = 8 then ['\\', 'b']
  else if c.toNat = 12 then ['\\', 'f']
  else if c.toNat < 0x20 then
    ['\\', 'u', '0', '0', Nat.digitChar (c.toNat / 16), Nat.digitChar (c.toNat % 16)]
  else [c]

def jsonString (s : String) : String := "\"" ++ String.ofList (s.toList.flatMap jsonEscape) ++ "\""

def jsonField (field : String × String) : String := jsonString field.1 ++ ":" ++ field.2

def jsonObject (fields : List (String × String)) : String :=
  "\x7b" ++ ",".intercalate (fields.map jsonField) ++ "\x7d"

def callbackField (cb : Callback × String) : String × String :=
  (cb.1.declared,
    jsonObject [("effective", jsonString cb.1.effective), ("redirect_uri", jsonString cb.2)])

def MarkerPayload.text (p : MarkerPayload) : String :=
  let callbacks := p.callbacks.mergeSort fun a b => a.1.declared ≤ b.1.declared
  jsonObject ([("base_url", jsonString p.baseUrl),
    ("callbacks", jsonObject (callbacks.map callbackField))] ++
    p.pluginDir.toList.map (fun dir => ("plugin_dir", jsonString dir)) ++ [("v", "1")])

def canonicalMarkerBytes (p : MarkerPayload) : ByteArray := p.text.toUTF8

/-- What the pass takes from the libraries: the joined redirect URI, the discovery key of a path,
and whether a body is the JSON text of an object, as what was written always is. -/
structure Platform (Key : Type) where
  redirectUri : String → String → String
  indexKey : String → Key
  object : ByteArray → Bool
  object_canonical : ∀ p, object (canonicalMarkerBytes p) = true

variable {Key : Type}

def readyPayload (sys : Platform Key) (baseUrl : String) (r : RoutedCallbacks) : MarkerPayload :=
  ⟨baseUrl, r.callbacks.map fun cb => (cb, sys.redirectUri baseUrl cb.effective), none⟩

def indexPayload (sys : Platform Key) (baseUrl : String) (r : RoutedCallbacks) : MarkerPayload :=
  { readyPayload sys baseUrl r with pluginDir := some r.plugin }

/-! ### The spool -/

inductive Entry where
  | file (body : ByteArray)
  | other

inductive Marker where
  | absent
  | invalid
  | present (raw : ByteArray)

/-- By the bytes. -/
instance : DecidableEq Marker
  | .absent, .absent => isTrue rfl
  | .invalid, .invalid => isTrue rfl
  | .present a, .present b => decidable_of_iff (a.data = b.data) (by
      rw [Marker.present.injEq, ByteArray.ext_iff])
  | .absent, .invalid => isFalse (by simp)
  | .absent, .present _ => isFalse (by simp)
  | .invalid, .absent => isFalse (by simp)
  | .invalid, .present _ => isFalse (by simp)
  | .present _, .absent => isFalse (by simp)
  | .present _, .invalid => isFalse (by simp)

def markerStateMaxBytes : ℕ := 2 ^ 16

def readEntry (sys : Platform Key) : Option Entry → Marker
  | none => .absent
  | some .other => .invalid
  | some (.file body) =>
      if markerStateMaxBytes < body.size then .invalid
      else if sys.object body then .present body else .invalid

abbrev Shelf (K : Type) := Table (Prod.fst : K × Entry → K)

section Shelf
variable {K : Type} [DecidableEq K]

def entryAt (shelf : Shelf K) (k : K) : Option Entry := (shelf.get? k).map Prod.snd

@[simp]
theorem entryAt_put (shelf : Shelf K) (k l : K) (e : Entry) :
    entryAt (shelf.put (k, e)) l = if k = l then some e else entryAt shelf l := by
  unfold entryAt
  rw [Table.get?_put]
  split <;> rfl

@[simp]
theorem entryAt_remove (shelf : Shelf K) (k l : K) :
    entryAt (shelf.remove k) l = if k = l then none else entryAt shelf l := by
  unfold entryAt
  rw [Table.get?_remove]
  split <;> rfl

theorem mem_shelf {shelf : Shelf K} {k : K} :
    k ∈ shelf.rows.map Prod.fst ↔ entryAt shelf k ≠ none := by
  unfold entryAt
  rw [Ne, Option.map_eq_none_iff, Table.get?_eq_none_iff, not_not]

end Shelf

def safeComponent (name : String) : Bool :=
  !(name == "" || name == "." || name == "..") &&
    name.toList.all fun c => c ≠ '/' && 0x20 ≤ c.toNat

def pluginDir (name : String) : Bool := safeComponent name && name.toList.head? ≠ some '.'

/-- The files, the live overlay and the issues of the pass; the last three fields are history: the
overlay has been swapped, a write has failed, and how many deletions and writes were asked for. -/
structure State (Key : Type) where
  ready : Shelf String
  index : Shelf Key
  live : Overlay
  issues : List PluginIssue
  swapped : Bool
  failed : Bool
  touched : ℕ

def spoolIssue (issues : List PluginIssue) (plugin : String) (artifactId : Option String) :
    List PluginIssue :=
  if issues.any fun i => i.name = plugin && i.reasonCode = "callback_spool_error" then issues
  else issues ++ [⟨plugin, "callback_spool_error", artifactId⟩]

inductive MarkerOp (Key : Type) where
  | publishedPlugins
  | indexKeys
  | readMarker (plugin : String)
  | readIndexMarker (path : String)
  | deleteReady (plugin : String)
  | deleteIndexKey (key : Key)
  | deleteIndexEntry (path : String)
  | spoolIssue (plugin : String) (artifactId : Option String)
  | replaceCallbackOverlay (overlay : Overlay)
  | ensurePluginDirs (plugin : String)
  | writeReady (plugin : String) (payload : MarkerPayload)
  | writeIndexEntry (path : String) (payload : MarkerPayload)

def MarkerOp.Answer : MarkerOp Key → Type
  | publishedPlugins => List String
  | indexKeys => List Key
  | readMarker _ | readIndexMarker _ => Marker
  | deleteReady _ | deleteIndexKey _ | deleteIndexEntry _ => Bool
  | ensurePluginDirs _ | writeReady _ _ | writeIndexEntry _ _ => Bool
  | spoolIssue _ _ | replaceCallbackOverlay _ => PUnit

def markerSig (Key : Type) : Signature := ⟨MarkerOp Key, MarkerOp.Answer⟩

namespace State

def touch (s : State Key) : State Key := { s with touched := s.touched + 1 }

def fail (s : State Key) : State Key := { s with failed := true }

variable [DecidableEq Key]

def publishedPlugins (s : State Key) : List String :=
  ((s.ready.rows.map Prod.fst).filter pluginDir).mergeSort fun a b => a ≤ b

def indexKeys (s : State Key) : List Key := s.index.rows.map Prod.fst

def readMarker (sys : Platform Key) (s : State Key) (plugin : String) : Marker :=
  if safeComponent plugin then readEntry sys (entryAt s.ready plugin) else .absent

def readIndexMarker (sys : Platform Key) (s : State Key) (path : String) : Marker :=
  readEntry sys (entryAt s.index (sys.indexKey path))

def putReady (s : State Key) (plugin : String) (payload : MarkerPayload) : State Key :=
  { s with ready := s.ready.put (plugin, .file (canonicalMarkerBytes payload)) }

def putIndex (s : State Key) (key : Key) (payload : MarkerPayload) : State Key :=
  { s with index := s.index.put (key, .file (canonicalMarkerBytes payload)) }

def dropReady (s : State Key) (plugin : String) : State Key :=
  { s with ready := s.ready.remove plugin }

def dropIndex (s : State Key) (key : Key) : State Key := { s with index := s.index.remove key }

/-! A name that no directory can have raises; the outside world decides whether a directory or
marker write fails. -/

def deleteReady (s : State Key) (plugin : String) : Bool × State Key :=
  if safeComponent plugin then (true, (s.dropReady plugin).touch) else (false, s.touch)

def deleteIndexKey (s : State Key) (key : Key) : Bool × State Key := (true, (s.dropIndex key).touch)

def ensurePluginDirs (s : State Key) (fails : Bool) (plugin : String) : Bool × State Key :=
  if fails || !pluginDir plugin then (false, s.fail.touch) else (true, s.touch)

def writeReady (s : State Key) (fails : Bool) (plugin : String) (payload : MarkerPayload) :
    Bool × State Key :=
  if fails || !safeComponent plugin then (false, s.fail.touch)
  else (true, (s.putReady plugin payload).touch)

def writeIndexEntry (s : State Key) (fails : Bool) (key : Key) (payload : MarkerPayload) :
    Bool × State Key :=
  if fails then (false, s.fail.touch) else (true, (s.putIndex key payload).touch)

end State

variable [DecidableEq Key] (sys : Platform Key)

def perform : Device (markerSig Key) Bool (State Key)
  | .publishedPlugins, _, s => (s.publishedPlugins, s)
  | .indexKeys, _, s => (s.indexKeys, s)
  | .readMarker plugin, _, s => (s.readMarker sys plugin, s)
  | .readIndexMarker path, _, s => (s.readIndexMarker sys path, s)
  | .deleteReady plugin, _, s => s.deleteReady plugin
  | .deleteIndexKey key, _, s => s.deleteIndexKey key
  | .deleteIndexEntry path, _, s => s.deleteIndexKey (sys.indexKey path)
  | .spoolIssue plugin artifactId, _, s =>
      (⟨⟩, { s with issues := CallbackMarkers.spoolIssue s.issues plugin artifactId })
  | .replaceCallbackOverlay overlay, _, s => (⟨⟩, { s with live := overlay, swapped := true })
  | .ensurePluginDirs plugin, fails, s => s.ensurePluginDirs fails plugin
  | .writeReady plugin payload, fails, s => s.writeReady fails plugin payload
  | .writeIndexEntry path payload, fails, s => s.writeIndexEntry fails (sys.indexKey path) payload

/-! ### The pass -/

abbrev MarkerProg (Key α : Type) := Prog (markerSig Key) α

def call (op : MarkerOp Key) : MarkerProg Key op.Answer := Prog.ask (S := markerSig Key) op

section Pass
variable (desired : DesiredCallbacks)

def DesiredCallbacks.base : Option String := desired.baseUrl.filter (· ≠ "")

def routedByPlugin : Table RoutedCallbacks.plugin :=
  match desired.base with
  | some _ => desired.routed.foldl Table.put Table.empty
  | none => Table.empty

def desiredKeys : List Key :=
  match desired.base with
  | some _ => (desired.routed.filter fun r => r.path ≠ "").map fun r => sys.indexKey r.path
  | none => []

def reportUnless (plugin : String) (artifactId : Option String) (gone : Bool) :
    MarkerProg Key PUnit :=
  if gone then pure ⟨⟩ else call (.spoolIssue plugin artifactId)

def retireOrphan (plugin : String) : MarkerProg Key PUnit :=
  if plugin ∈ (routedByPlugin desired).rows.map RoutedCallbacks.plugin then pure ⟨⟩
  else do
    let gone ← call (.deleteReady plugin)
    reportUnless plugin none gone

def retireOrphanKey (key : Key) : MarkerProg Key PUnit :=
  if key ∈ desiredKeys sys desired then pure ⟨⟩
  else do
    let _ ← call (.deleteIndexKey key)
    pure ⟨⟩

def retireOrphans : MarkerProg Key PUnit :=
  if desired.prunable then do
    let onDiskPlugins ← call .publishedPlugins
    let _ ← Prog.forEach (retireOrphan desired) onDiskPlugins
    let onDiskKeys ← call .indexKeys
    let _ ← Prog.forEach (retireOrphanKey sys desired) onDiskKeys
    pure ⟨⟩
  else pure ⟨⟩

/-- `(needs_republish, has_on_disk)`. -/
def classify (baseUrl : String) (r : RoutedCallbacks) (onReady onIndex : Marker) : Bool × Bool :=
  let readyOk := onReady = .present (canonicalMarkerBytes (readyPayload sys baseUrl r))
  let indexOk := onIndex = .present (canonicalMarkerBytes (indexPayload sys baseUrl r))
  if r.path = "" then (!readyOk, onReady ≠ .absent)
  else (!(readyOk && indexOk), onReady ≠ .absent || onIndex ≠ .absent)

def readIndex (r : RoutedCallbacks) : MarkerProg Key Marker :=
  if r.path = "" then pure .absent else call (.readIndexMarker r.path)

def pairState (baseUrl : String) (r : RoutedCallbacks) : MarkerProg Key (Bool × Bool) := do
  let onReady ← call (.readMarker r.plugin)
  let onIndex ← readIndex r
  pure (classify sys baseUrl r onReady onIndex)

def deleteIndex (r : RoutedCallbacks) : MarkerProg Key Bool :=
  if r.path = "" then pure true else call (.deleteIndexEntry r.path)

def retirePair (r : RoutedCallbacks) : MarkerProg Key PUnit := do
  let ready ← call (.deleteReady r.plugin)
  reportUnless r.plugin (some r.artifactId) ready
  let index ← deleteIndex r
  reportUnless r.plugin (some r.artifactId) index

def retireOnDisk (r : RoutedCallbacks) (onDisk : Bool) : MarkerProg Key PUnit :=
  if onDisk then retirePair r else pure ⟨⟩

def retireStale (r : RoutedCallbacks) (state : Bool × Bool) :
    MarkerProg Key (Option RoutedCallbacks) :=
  if state.1 then do
    retireOnDisk r state.2
    pure (some r)
  else pure none

def examine (r : RoutedCallbacks) : MarkerProg Key (Option RoutedCallbacks) := do
  let state ← pairState sys (desired.base.getD "") r
  retireStale r state

def preSwap : MarkerProg Key (List RoutedCallbacks) := do
  retireOrphans sys desired
  let results ← Prog.forEach (examine sys desired) (routedByPlugin desired).rows
  pure results.reduceOption

/-- `_guard`. -/
def guarded (r : RoutedCallbacks) (attempt : MarkerProg Key Bool) : MarkerProg Key Bool := do
  let ok ← attempt
  reportUnless r.plugin (some r.artifactId) ok
  pure ok

def publishReady (baseUrl : String) (r : RoutedCallbacks) (ok : Bool) : MarkerProg Key Bool :=
  if ok then guarded r (call (.writeReady r.plugin (readyPayload sys baseUrl r))) else pure ok

def publishIndex (baseUrl : String) (r : RoutedCallbacks) (ok : Bool) : MarkerProg Key Bool :=
  if ok && r.path ≠ "" then
    guarded r (call (.writeIndexEntry r.path (indexPayload sys baseUrl r)))
  else pure ok

def failClosed (r : RoutedCallbacks) (ok : Bool) : MarkerProg Key PUnit :=
  if ok then pure ⟨⟩
  else do
    let _ ← call (.deleteReady r.plugin)
    let _ ← deleteIndex r
    pure ⟨⟩

def publish (baseUrl : String) (r : RoutedCallbacks) : MarkerProg Key PUnit := do
  let ensured ← guarded r (call (.ensurePluginDirs r.plugin))
  let ready ← publishReady sys baseUrl r ensured
  let index ← publishIndex sys baseUrl r ready
  failClosed r index

def postSwap (republish : List RoutedCallbacks) : MarkerProg Key PUnit :=
  match desired.baseUrl with
  | none => pure ⟨⟩
  | some baseUrl => do
      let _ ← Prog.forEach (publish sys baseUrl) republish
      pure ⟨⟩

/-- The apply phase of `reconcile_plugin_callbacks`. -/
def pass : MarkerProg Key PUnit := do
  let republish ← preSwap sys desired
  call (.replaceCallbackOverlay desired.overlay)
  postSwap sys desired republish

end Pass

end Casa.CallbackMarkers
