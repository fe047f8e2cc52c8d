import Casa.StepRuns
import Mathlib.Logic.Function.Basic

/-! `SdkClientPool`: the entries of the pool, the locks they carry, the barriers of invalidations
and the calls in progress, each where it waits. A step is what runs between two suspensions; no
section under the pool lock suspends, so that lock is never found taken. Every waiter of an
entry lock may get it next, the deadlines of the shutdown may pass at any time, and what the
registry, the callers' callbacks and the clients answer is part of the label. -/

namespace Casa.ClientPool

/-- `ManagedSdkClient.state`. -/
inductive ClientState where
  | new
  | warm
  | inTurn
  | invalid
  | closed
deriving DecidableEq

/-- How `run_turn_locked` ends after `_invalidate`: it raises, or it returns with or without a
session id. -/
inductive Exit where
  | raises
  | returns (sid : Bool)
deriving DecidableEq

inductive Stage where
  /-- The disconnect of the old client. -/
  | flushing (resume : Bool)
  /-- `build_options`. -/
  | building (resume : Bool)
  | connecting (resume : Bool) (fresh : ℕ)
  /-- The disconnect after a connect that failed. -/
  | failing (fresh : ℕ)
  /-- `registry.touch`. -/
  | touching
  /-- The query and its messages. -/
  | running
  /-- `_cleanup_after_cancel`. -/
  | cleaning
  /-- `_invalidate`. -/
  | breaking (exit : Exit)
  /-- `on_success`. -/
  | publishing
  /-- The disconnect in `_drop`. -/
  | dropping
deriving DecidableEq

inductive Place where
  | stub
  | barred (barrier : ℕ)
  | wants (entry : ℕ)
  | holds (entry : ℕ) (stage : Stage)
deriving DecidableEq

/-- A call of `turn`. The floors are history: the clients and the registrations that are stale
for it. -/
structure Turn where
  key : String
  second : Bool
  place : Place
  floor : ℕ
  keyFloor : ℕ
deriving DecidableEq

/-- A call in progress; the marks are the numbers of clients and registrations when it began. -/
inductive Call where
  | turn (t : Turn)
  | closeKey (key : String) (mark : ℕ) (took : Option ℕ)
  | invalidateAll (mark : ℕ) (snap : ℕ → Bool)
  | aclose (snap : ℕ → Bool)

inductive Remover where
  | eviction (sweep : Bool)
  | reset
  | worker
  | drain
deriving DecidableEq

/-- Waiting for the entry lock, disconnecting under it, or disconnecting without it. -/
inductive Phase where
  | waiting
  | shutting
  | forced
deriving DecidableEq

structure Closer where
  remover : Remover
  phase : Phase
deriving DecidableEq

inductive Holder where
  | call (i : ℕ)
  | closer (e : ℕ)
deriving DecidableEq

/-- The pool. `ManagedSdkClient` objects are numbered as they are made, `lockOf` is the stub
whose lock an object carries, and the barrier of an invalidation is numbered as the entry it
closes. -/
structure Pool where
  next : ℕ
  keyOf : ℕ → String
  lockOf : ℕ → ℕ
  state : ℕ → ClientState
  /-- `_client` is set. -/
  client : ℕ → Bool
  connected : ℕ → Bool
  entries : String → Option ℕ
  barriers : String → Option ℕ
  resolved : ℕ → Bool
  locks : ℕ → Option Holder
  taken : ℕ → Option Closer
  nextCall : ℕ
  calls : ℕ → Option Call
  closing : Bool
  /-- An `aclose` has returned. -/
  shut : Bool
  /-- The number of registrations, and the one of each object. -/
  registrations : ℕ
  stamp : ℕ → ℕ
  /-- The clients made before an `invalidate_all` began that has returned, and for each key the
  registrations before a `close_key` began that has returned. -/
  outdated : ℕ
  keyOutdated : String → ℕ

def Pool.empty : Pool where
  next := 0
  keyOf _ := ""
  lockOf e := e
  state _ := .new
  client _ := false
  connected _ := false
  entries _ := none
  barriers _ := none
  resolved _ := false
  locks _ := none
  taken _ := none
  nextCall := 0
  calls _ := none
  closing := false
  shut := false
  registrations := 0
  stamp _ := 0
  outdated := 0
  keyOutdated _ := 0

inductive Answer where
  | ok
  | fail
  /-- A connect that has come up when it fails or is cancelled. -/
  | late
  /-- The registry: whether the turn resumes, and whether the entry is its conversation. -/
  | decision (resume same : Bool)
  /-- The last message: an error result, one that is retried, and a session id. -/
  | reply (errored retried sid : Bool)
deriving DecidableEq

inductive Label where
  | turn (key : String)
  | closeKey (key : String)
  | invalidateAll
  | aclose
  /-- `_evict`, from a cap or from the sweep. -/
  | evict (key : String) (sweep : Bool)
  | advance (i : ℕ) (a : Answer)
  | cancel (i : ℕ)
  /-- A closer of an entry goes on; its disconnect may fail. -/
  | close (e : ℕ) (ok : Bool)
  /-- The deadline of the shutdown for an entry. -/
  | force (e : ℕ)
  /-- The caller of an eviction is cancelled. -/
  | abandon (e : ℕ)
deriving DecidableEq

namespace Pool
variable (p : Pool)

section Parts

def setCall (i : ℕ) (c : Option Call) : Pool := { p with calls := Function.update p.calls i c }

def goto (i : ℕ) (t : Turn) (place : Place) : Pool := p.setCall i (some (.turn { t with place }))

def begin_ (c : Call) : Pool :=
  { p with calls := Function.update p.calls p.nextCall (some c), nextCall := p.nextCall + 1 }

def setLock (e : ℕ) (h : Option Holder) : Pool :=
  { p with locks := Function.update p.locks (p.lockOf e) h }

def setState (e : ℕ) (s : ClientState) : Pool := { p with state := Function.update p.state e s }

def setTaken (e : ℕ) (c : Option Closer) : Pool := { p with taken := Function.update p.taken e c }

def setConnected (e : ℕ) (b : Bool) : Pool :=
  { p with connected := Function.update p.connected e b }

/-- A turn leaves `async with entry.lock` for good. -/
def leave (i e : ℕ) : Pool := (p.setLock e none).setCall i none

def retry (i : ℕ) (t : Turn) : Pool :=
  if t.second then p.setCall i none
  else p.setCall i (some (.turn { t with second := true, place := .stub }))

def unregister (k : String) (e : ℕ) : Pool :=
  if p.entries k = some e then { p with entries := Function.update p.entries k none } else p

def register (k : String) (e : ℕ) : Pool :=
  { p with entries := Function.update p.entries k (some e), registrations := p.registrations + 1,
           stamp := Function.update p.stamp e p.registrations }

/-- A new `ManagedSdkClient` object. -/
def make (k : String) (lock : ℕ) (client : Bool) : Pool :=
  { p with next := p.next + 1, keyOf := Function.update p.keyOf p.next k,
           lockOf := Function.update p.lockOf p.next lock,
           state := Function.update p.state p.next .new,
           client := Function.update p.client p.next client,
           connected := Function.update p.connected p.next false }

/-- `_client` is taken out, in this state; `aclose` and `_invalidate` disconnect it next. -/
def unlink (e : ℕ) (s : ClientState) : Pool :=
  { p with state := Function.update p.state e s, client := Function.update p.client e false }

/-- Whether `aclose` of an object disconnects anything. -/
def closes (e : ℕ) : Bool := decide (p.state e ≠ .closed) && p.client e

def disconnected (e : ℕ) (a : Answer) : Pool :=
  if a = .fail then p else p.setConnected e false

@[simp]
theorem disconnected_calls (e : ℕ) (a : Answer) : (p.disconnected e a).calls = p.calls := by
  unfold disconnected
  split <;> rfl

def drop (i : ℕ) (t : Turn) (e : ℕ) : Pool :=
  let q := p.unregister t.key e
  if p.closes e then (q.unlink e .closed).goto i t (.holds e .dropping)
  else (q.unlink e .closed).leave i e

/-- `run_turn_locked`, up to the query. -/
def start (i : ℕ) (t : Turn) (e : ℕ) : Pool :=
  if p.state e = .warm then (p.setState e .inTurn).goto i t (.holds e .running) else p.drop i t e

/-- After `on_success`. -/
def finish (i : ℕ) (t : Turn) (e : ℕ) : Pool :=
  if p.state e = .warm then p.leave i e else p.drop i t e

/-- After `run_turn_locked`. -/
def returned (i : ℕ) (t : Turn) (e : ℕ) (sid : Bool) : Pool :=
  if sid then p.goto i t (.holds e .publishing) else p.finish i t e

def entryStub (i : ℕ) (t : Turn) : Pool :=
  if p.closing then p.setCall i none
  else
    match p.barriers t.key with
    | some b => p.goto i t (.barred b)
    | none =>
      match p.entries t.key with
      | some e => p.goto i t (.wants e)
      | none => ((p.make t.key p.next false).register t.key p.next).goto i t (.wants p.next)

def decide_ (i : ℕ) (t : Turn) (e : ℕ) (resume same : Bool) : Pool :=
  let q := p.setLock e (some (.call i))
  if p.state e = .warm ∧ resume = true ∧ same = true then q.goto i t (.holds e .touching)
  else if p.state e = .warm then
    (q.unlink e .closed).goto i t
      (.holds e (if p.client e then .flushing resume else .building resume))
  else q.goto i t (.holds e (.building resume))

def acquire (i : ℕ) (t : Turn) (e : ℕ) (resume same : Bool) : Pool :=
  if p.locks (p.lockOf e) ≠ none then p
  else if p.entries t.key ≠ some e then p.retry i t
  else if p.state e = .new ∨ p.state e = .warm then p.decide_ i t e resume same
  else (p.unregister t.key e).retry i t

def publish (i : ℕ) (t : Turn) (c : ℕ) (resume : Bool) : Pool :=
  let q := ((p.setState c .warm).setConnected c true).register t.key c
  if resume then q.goto i t (.holds c .touching) else q.start i t c

end Parts

section Steps

def advanceHolding (i : ℕ) (t : Turn) (e : ℕ) : Stage → Answer → Pool
  | .flushing resume, a => (p.disconnected e a).goto i t (.holds e (.building resume))
  | .building resume, .ok =>
      (p.make t.key (p.lockOf e) true).goto i t (.holds e (.connecting resume p.next))
  | .building _, _ => p.leave i e
  | .connecting resume c, .ok => p.publish i t c resume
  | .connecting _ c, .late =>
      ((p.unlink c .invalid).setConnected c true).goto i t (.holds e (.failing c))
  | .connecting _ c, _ => (p.unlink c .invalid).goto i t (.holds e (.failing c))
  | .failing c, a => (p.disconnected c a).leave i e
  | .touching, .ok => p.start i t e
  | .touching, _ => p.leave i e
  | .running, .reply false _ sid => (p.setState e .warm).returned i t e sid
  | .running, .reply true retried sid =>
      (p.unlink e .invalid).goto i t
        (.holds e (.breaking (if retried then .raises else .returns sid)))
  | .running, _ => (p.unlink e .invalid).goto i t (.holds e (.breaking .raises))
  | .cleaning, .ok => (p.setState e .warm).leave i e
  | .cleaning, _ => (p.unlink e .invalid).goto i t (.holds e (.breaking .raises))
  | .breaking .raises, a => (p.disconnected e a).drop i t e
  | .breaking (.returns sid), a => (p.disconnected e a).returned i t e sid
  | .publishing, .ok => p.finish i t e
  | .publishing, _ => p.drop i t e
  | .dropping, a => (p.disconnected e a).leave i e

def advanceTurn (i : ℕ) (t : Turn) (a : Answer) : Pool :=
  match t.place with
  | .stub => p.entryStub i t
  | .barred b => if p.resolved b then p.goto i t .stub else p
  | .wants e =>
    match a with
    | .decision resume same => p.acquire i t e resume same
    | _ => p
  | .holds e stage => p.advanceHolding i t e stage a

def cancelHolding (i : ℕ) (t : Turn) (e : ℕ) : Stage → Pool
  | .connecting _ c => (p.unlink c .invalid).goto i t (.holds e (.failing c))
  | .running => p.goto i t (.holds e .cleaning)
  | .cleaning => (p.unlink e .invalid).goto i t (.holds e (.breaking .raises))
  | .breaking _ => p.drop i t e
  | .publishing => p.drop i t e
  | _ => p.leave i e

def takenBy (e : ℕ) (r : Remover) : Bool := (p.taken e).any fun c => decide (c.remover = r)

def blocked (k : String) : Bool :=
  (p.barriers k).isSome ||
    (List.range p.next).any fun e => decide (p.keyOf e = k) && p.takenBy e .worker

/-- `close_key` takes the entry. -/
def pop (i : ℕ) (k : String) (mark : ℕ) : Pool :=
  if p.blocked k then p
  else
    match p.entries k with
    | none =>
      { p.setCall i none with
        keyOutdated := Function.update p.keyOutdated k (max (p.keyOutdated k) mark) }
    | some e =>
      ((p.unregister k e).setTaken e (some ⟨.reset, .waiting⟩)).setCall i
        (some (.closeKey k mark (some e)))

def finished (snap : ℕ → Bool) : Bool :=
  (List.range p.next).all fun e => !snap e || decide (p.taken e = none)

def advance (i : ℕ) (a : Answer) : Pool :=
  match p.calls i with
  | none => p
  | some (.turn t) => p.advanceTurn i t a
  | some (.closeKey k mark none) => p.pop i k mark
  | some (.closeKey k mark (some e)) =>
    if p.taken e = none then
      { p.setCall i none with
        keyOutdated := Function.update p.keyOutdated k (max (p.keyOutdated k) mark) }
    else p
  | some (.invalidateAll mark snap) =>
    if p.finished snap then { p.setCall i none with outdated := max p.outdated mark } else p
  | some (.aclose snap) =>
    if p.finished snap then { p.setCall i none with shut := true } else p

def abandon (e : ℕ) : Pool :=
  match p.taken e with
  | some ⟨_, .shutting⟩ => (p.setLock e none).setTaken e none
  | _ => p.setTaken e none

def abandonDrains (snap : ℕ → Bool) : Pool :=
  let gone e := snap e && p.takenBy e .drain
  { p with
    taken := fun e => if gone e then none else p.taken e
    locks := fun l =>
      match p.locks l with
      | some (.closer e) => if gone e then none else p.locks l
      | h => h }

def cancel (i : ℕ) : Pool :=
  match p.calls i with
  | none => p
  | some (.turn t) =>
    match t.place with
    | .holds e stage => p.cancelHolding i t e stage
    | _ => p.setCall i none
  | some (.closeKey _ _ none) => p.setCall i none
  | some (.closeKey _ _ (some e)) =>
    (if p.takenBy e .reset then p.abandon e else p).setCall i none
  | some (.invalidateAll _ _) => p.setCall i none
  | some (.aclose snap) => (p.abandonDrains snap).setCall i none

def registered (e : ℕ) : Bool := decide (p.entries (p.keyOf e) = some e)

def invalidateAll : Pool :=
  let q : Pool :=
    { p with
      entries := fun _ => none
      barriers := fun k => (p.entries k).orElse fun _ => p.barriers k
      taken := fun e => if p.registered e then some ⟨.worker, .waiting⟩ else p.taken e }
  q.begin_ (.invalidateAll p.next p.registered)

/-- `aclose`: the sweep is cancelled, and with it an eviction of the sweep that waits. -/
def aclose : Pool :=
  let q : Pool :=
    { p with
      closing := true
      entries := fun _ => none
      resolved := fun b => p.resolved b || decide (p.barriers (p.keyOf b) = some b)
      barriers := fun _ => none
      taken := fun e =>
        if p.registered e then some ⟨.drain, .waiting⟩
        else if p.taken e = some ⟨.eviction true, .waiting⟩ then none else p.taken e }
  q.begin_ (.aclose fun e => p.registered e || p.takenBy e .worker)

/-- `_evict`; what is evicted has been warm, so it is no stub. -/
def evict (k : String) (sweep : Bool) : Pool :=
  match p.entries k with
  | none => p
  | some e =>
    if p.lockOf e = e then p
    else (p.unregister k e).setTaken e (some ⟨.eviction sweep, .waiting⟩)

def releaseBarrier (e : ℕ) : Pool :=
  if p.barriers (p.keyOf e) = some e then
    { p with barriers := Function.update p.barriers (p.keyOf e) none,
             resolved := Function.update p.resolved e true }
  else p

def closeLocked (e : ℕ) (r : Remover) : Pool :=
  let q := if r = .worker then p.releaseBarrier e else p
  if p.closes e then
    ((q.unlink e .closed).setLock e (some (.closer e))).setTaken e (some ⟨r, .shutting⟩)
  else (q.unlink e .closed).setTaken e none

def close (e : ℕ) (ok : Bool) : Pool :=
  let a := if ok then Answer.ok else .fail
  match p.taken e with
  | none => p
  | some ⟨r, .waiting⟩ => if p.locks (p.lockOf e) = none then p.closeLocked e r else p
  | some ⟨_, .shutting⟩ => ((p.disconnected e a).setLock e none).setTaken e none
  | some ⟨_, .forced⟩ => (p.disconnected e a).setTaken e none

def force (e : ℕ) : Pool :=
  if p.taken e = some ⟨.drain, .waiting⟩ then
    if p.closes e then (p.unlink e .closed).setTaken e (some ⟨.drain, .forced⟩)
    else (p.unlink e .closed).setTaken e none
  else p

def abandonEviction (e : ℕ) : Pool :=
  match p.taken e with
  | some ⟨.eviction _, _⟩ => p.abandon e
  | _ => p

end Steps
end Pool

def step : Label → Pool → Pool
  | .turn key, p => p.begin_ (.turn ⟨key, false, .stub, p.outdated, p.keyOutdated key⟩)
  | .closeKey key, p => p.begin_ (.closeKey key p.registrations none)
  | .invalidateAll, p => p.invalidateAll
  | .aclose, p => p.aclose
  | .evict key sweep, p => p.evict key sweep
  | .advance i a, p => p.advance i a
  | .cancel i, p => p.cancel i
  | .close e ok, p => p.close e ok
  | .force e, p => p.force e
  | .abandon e, p => p.abandonEviction e

end Casa.ClientPool
