import Casa.StepRuns
import Mathlib.Logic.Function.Basic

/-! `SessionRegistry` and `session_saver` over one key: the entry, the lock of the registry, and the
calls in progress. A call that changes the entry does so when it gets the lock and keeps the lock
while the file is written; every waiter may get the lock next. What the transcript, the retain and
the writes answer is part of the label, and any call may be cancelled where it waits. -/

namespace Casa.SessionRegistry

/-- Who set `consolidated_at`. -/
inductive Claimant where
  | before
  | call (i : ℕ)
deriving DecidableEq

/-- An entry; it is `usable` if both of its provenances can be decoded. Its claim is
`consolidated_at`, and its number is history. -/
structure Entry where
  agent : String
  sid : Option String
  usable : Bool
  claim : Option Claimant
  registration : ℕ
deriving DecidableEq

/-- `snapshot_session_entry`: the session id of an entry that can be resumed. -/
def Entry.snapshot (e : Entry) : Option String :=
  e.sid.filter fun s => decide (s ≠ "" ∧ e.agent ≠ "")

/-- `save_session` by itself, or in `reset_channel`, which has seen this session id. -/
inductive Caller where
  | plain (expected : Option String)
  | reset (sid : String)
deriving DecidableEq

def Caller.expected : Caller → Option String
  | .plain expected => expected
  | .reset sid => some sid

inductive Stage where
  /-- `try_begin_save`. -/
  | begins
  /-- The write of the claim. -/
  | claiming (registration : ℕ)
  /-- The transcript, its items and the retain. -/
  | retaining (sid : String) (registration : ℕ)
  /-- `finish_save`, and its write. -/
  | finish (sid : String) (registration : ℕ)
  | finishing (sid : String) (registration : ℕ)
  /-- `clear_save_claim`, and its write; a shielded one settles a cancellation. -/
  | release (guard : Option String) (registration : ℕ) (shielded : Bool)
  | releasing (registration : ℕ) (shielded : Bool)
deriving DecidableEq

structure Save where
  caller : Caller
  stage : Stage
deriving DecidableEq

inductive Call where
  | register (agent sid : String) (writing : Bool)
  | touch (writing : Bool)
  | clearSession (writing : Bool)
  /-- `notify_reset`; the channel may be one that is never retained. -/
  | notifies (bank : Bool)
  | save (s : Save)
  /-- `remove` after the save of a reset, and the registration which that save claimed. -/
  | remove (sid : String) (claimed : Option ℕ) (writing : Bool)
deriving DecidableEq

inductive Event where
  | finished (i claimed registration : ℕ)
  | removed (i : ℕ) (claimed : Option ℕ) (registration : ℕ)
  | cleared (i : ℕ) (claim : Claimant)
  | failed (i : ℕ)
deriving DecidableEq

structure Registry where
  entry : Option Entry
  lock : Option ℕ
  registrations : ℕ
  nextCall : ℕ
  calls : ℕ → Option Call
  events : List Event

def Registry.loaded (stored : Option (String × Option String × Bool × Bool)) : Registry where
  entry := stored.map fun (agent, sid, usable, claimed) =>
    ⟨agent, sid, usable, if claimed then some .before else none, 0⟩
  lock := none
  registrations := 1
  nextCall := 0
  calls _ := none
  events := []

inductive Label where
  | register (agent sid : String)
  | touch
  | clearSession
  | save (expected : Option String) (bank : Bool)
  | reset (bank : Bool)
  /-- A call goes on; what it waits for may have failed. -/
  | advance (i : ℕ) (ok : Bool)
  | cancel (i : ℕ)
deriving DecidableEq

namespace Registry
variable (p : Registry)

section Parts

def setCall (i : ℕ) (c : Option Call) : Registry :=
  { p with calls := Function.update p.calls i c }

def begin_ (c : Call) : Registry :=
  { p with calls := Function.update p.calls p.nextCall (some c), nextCall := p.nextCall + 1 }

def setLock (h : Option ℕ) : Registry := { p with lock := h }

def setEntry (e : Option Entry) : Registry := { p with entry := e }

def happened (e : Event) : Registry := { p with events := e :: p.events }

def leave (i : ℕ) : Registry := (p.setLock none).setCall i none

def goto (i : ℕ) (caller : Caller) (stage : Stage) : Registry :=
  p.setCall i (some (.save ⟨caller, stage⟩))

/-- `save_session` raises. -/
def raise (i : ℕ) : Registry := (p.happened (.failed i)).setCall i none

/-- `save_session` returns; a reset goes on with `remove`. -/
def returned (i : ℕ) (caller : Caller) (claimed : Option ℕ) (ok : Bool) : Registry :=
  let q := if ok then p else p.happened (.failed i)
  match caller with
  | .plain _ => q.setCall i none
  | .reset sid => q.setCall i (some (.remove sid claimed false))

end Parts

section Operations

def register (i : ℕ) (agent sid : String) : Registry :=
  ({ p with
      entry := some ⟨agent, some sid, true, none, p.registrations⟩
      registrations := p.registrations + 1 }.setLock (some i)).setCall i
    (some (.register agent sid true))

def touch (i : ℕ) : Registry :=
  match p.entry with
  | none => p.setCall i none
  | some _ => (p.setLock (some i)).setCall i (some (.touch true))

/-- `clear_sdk_session`. -/
def clearSession (i : ℕ) : Registry :=
  match p.entry with
  | none => p.setCall i none
  | some e =>
    if e.sid = none then p.setCall i none
    else ((p.setEntry (some { e with sid := none })).setLock (some i)).setCall i
      (some (.clearSession true))

/-- `remove` with the session id of the snapshot. -/
def remove (i : ℕ) (sid : String) (claimed : Option ℕ) : Registry :=
  match p.entry with
  | none => p.setCall i none
  | some e =>
    if e.sid = some sid then
      (((p.setEntry none).happened (.removed i claimed e.registration)).setLock (some i)).setCall i
        (some (.remove sid claimed true))
    else p.setCall i none

def tryBeginSave (i : ℕ) (caller : Caller) : Registry :=
  match p.entry with
  | none => p.returned i caller none false
  | some e =>
    if e.claim = none then
      ((p.setEntry (some { e with claim := some (.call i) })).setLock (some i)).goto i caller
        (.claiming e.registration)
    else p.returned i caller none false

def claimed (i : ℕ) (caller : Caller) (r : ℕ) : Registry :=
  match p.entry.bind fun e => e.snapshot.filter fun _ => e.usable with
  | none => p.goto i caller (.release none r false)
  | some sid =>
    if caller.expected = none ∨ caller.expected = some sid then
      p.goto i caller (.retaining sid r)
    else p.goto i caller (.release none r false)

def finishSave (i : ℕ) (caller : Caller) (sid : String) (r : ℕ) : Registry :=
  match p.entry with
  | none => p.returned i caller (some r) true
  | some e =>
    if e.sid = some sid then
      (((p.setEntry none).happened (.finished i r e.registration)).setLock (some i)).goto i caller
        (.finishing sid r)
    else p.returned i caller (some r) true

/-- After `clear_save_claim`. -/
def released (i : ℕ) (caller : Caller) (r : ℕ) (shielded : Bool) : Registry :=
  if shielded then p.raise i else p.returned i caller (some r) false

def clearSaveClaim (i : ℕ) (caller : Caller) (guard : Option String) (r : ℕ) (shielded : Bool) :
    Registry :=
  match p.entry with
  | none => p.released i caller r shielded
  | some e =>
    match e.claim with
    | none => p.released i caller r shielded
    | some claim =>
      if guard = none ∨ e.sid = guard then
        (((p.setEntry (some { e with claim := none })).happened (.cleared i claim)).setLock
          (some i)).goto i caller (.releasing r shielded)
      else p.released i caller r shielded

end Operations

section Steps

def advanceSave (i : ℕ) (caller : Caller) (ok : Bool) : Stage → Registry
  | .begins => if p.lock = none then p.tryBeginSave i caller else p
  | .claiming r => if ok then (p.setLock none).claimed i caller r else (p.setLock none).raise i
  | .retaining sid r =>
      if ok then p.goto i caller (.finish sid r) else p.goto i caller (.release (some sid) r false)
  | .finish sid r => if p.lock = none then p.finishSave i caller sid r else p
  | .finishing sid r =>
      if ok then (p.setLock none).returned i caller (some r) true
      else (p.setLock none).goto i caller (.release (some sid) r false)
  | .release guard r shielded =>
      if p.lock = none then p.clearSaveClaim i caller guard r shielded else p
  | .releasing r shielded =>
      if ok then (p.setLock none).released i caller r shielded else (p.setLock none).raise i

/-- After `notify_reset`. -/
def reset (i : ℕ) (bank : Bool) : Registry :=
  match p.entry.bind Entry.snapshot with
  | none => p.setCall i none
  | some sid =>
    if bank then p.goto i (.reset sid) .begins else p.setCall i (some (.remove sid none false))

def advance (i : ℕ) (ok : Bool) : Registry :=
  match p.calls i with
  | none => p
  | some (.register agent sid false) => if p.lock = none then p.register i agent sid else p
  | some (.touch false) => if p.lock = none then p.touch i else p
  | some (.clearSession false) => if p.lock = none then p.clearSession i else p
  | some (.remove sid claimed false) => if p.lock = none then p.remove i sid claimed else p
  | some (.notifies bank) => p.reset i bank
  | some (.save s) => p.advanceSave i s.caller ok s.stage
  | some _ => p.leave i

def cancelSave (i : ℕ) (caller : Caller) : Stage → Registry
  | .begins => p.raise i
  | .claiming _ => (p.setLock none).raise i
  | .retaining sid r => p.goto i caller (.release (some sid) r true)
  | .finish sid r => p.goto i caller (.release (some sid) r true)
  | .finishing sid r => (p.setLock none).goto i caller (.release (some sid) r true)
  | .release _ _ shielded => if shielded then p else p.raise i
  | .releasing _ shielded => if shielded then p else (p.setLock none).raise i

def Call.writing : Call → Bool
  | .register _ _ writing => writing
  | .touch writing => writing
  | .clearSession writing => writing
  | .remove _ _ writing => writing
  | .save ⟨_, .claiming _⟩ => true
  | .save ⟨_, .finishing _ _⟩ => true
  | .save ⟨_, .releasing _ _⟩ => true
  | _ => false

def cancel (i : ℕ) : Registry :=
  match p.calls i with
  | none => p
  | some (.save s) => p.cancelSave i s.caller s.stage
  | some c => if Call.writing c then p.leave i else p.setCall i none

end Steps
end Registry

def step : Label → Registry → Registry
  | .register agent sid, p => p.begin_ (.register agent sid false)
  | .touch, p => p.begin_ (.touch false)
  | .clearSession, p => p.begin_ (.clearSession false)
  | .save expected bank, p =>
      if bank then p.begin_ (.save ⟨.plain expected, .begins⟩) else p
  | .reset bank, p => p.begin_ (.notifies bank)
  | .advance i ok, p => p.advance i ok
  | .cancel i, p => p.cancel i

end Casa.SessionRegistry
