import Casa.CallbackAttempts
import Casa.OperationTree

/-! The files of one flow in one plugin's callback spool (`callback_spool.py`), and the file
operations that casa performs on them, each with the faults it can have. The consumer's own
verbs are the three of the reference helpers: mint, collect and ack. -/

namespace Casa.CallbackSpool
open CallbackAttempts OperationTree

variable {H T M : Type}

/-- `SKEW_S`, `PENDING_TTL_S` and the other bounds, in seconds or entries. -/
def skewS : Nat := 300
def pendingTtlS : Nat := 1800
def resultTtlS : Nat := 900
def restoreGraceS : Nat := 60
def tempTtlS : Nat := 300
def maxPending : Nat := 256
def maxResults : Nat := 256
def maxAttempts : Nat := 2048
def maxCollect : Nat := 64

/-- An inode minted in `pending/`: `link` keeps its mtime, so a claim is the same inode. -/
structure Mint (T M : Type) where
  mtime : T
  metaInfo : Option M
deriving DecidableEq, Repr

/-- A result record: the transport keys of the mint, and its own mtime. What the redirect
carried is not read again by casa. -/
structure Result (T M : Type) where
  metaInfo : Option M
  mintedTs : T
  mtime : T
deriving DecidableEq, Repr

/-- What a file under `attempts/` holds: a record that validates, or anything else. -/
inductive AttemptFile (T M : Type) where
  | invalid
  | record (a : Attempt T M)
deriving DecidableEq, Repr

/-- Where the handler of a hash stands: inside `claim`, between `claim` and `publish_result`
(the in-flight set), inside `publish_result` after the link, and after a `FAILED_RECORDED`
that it will follow with `discard_claim`. -/
inductive Phase where
  | idle
  | taking
  | held
  | landed
  | recorded
deriving DecidableEq, Repr

/-- Everything of one hash: its files, its handler, the worker's snapshot, and below `doubt`
what happened so far, which no code reads. -/
structure Cell (T M : Type) where
  pending : Option (Mint T M) := none
  claim : Option (Mint T M) := none
  temp : Option (Result T M) := none
  result : Option (Result T M) := none
  held : List (Nat × Result T M) := []
  attempt : Option (AttemptFile T M) := none
  token : Option (AttemptFile T M) := none
  phase : Phase := .idle
  due : Option (Attempt T M) := none
  doubt : Bool := false
  minted : Bool := false
  created : Nat := 0
  spent : Nat := 0
  accepted : Nat := 0
  retired : Bool := false
  consumed : Bool := false
deriving DecidableEq, Repr

namespace Cell

def inFlight (c : Cell T M) : Bool := c.phase = .held || c.phase = .landed

def Done (c : Cell T M) : Prop := ∃ a, c.attempt = some (.record a) ∧ a.status.isDone = true

instance (c : Cell T M) : Decidable c.Done :=
  match found : c.attempt with
  | some (.record a) =>
      if done : a.status.isDone = true then isTrue ⟨a, found, done⟩
      else isFalse fun ⟨b, same, ended⟩ => by
        rw [found] at same
        cases same
        exact done ended
  | some .invalid => isFalse fun ⟨b, same, _⟩ => by rw [found] at same; cases same
  | none => isFalse fun ⟨b, same, _⟩ => by rw [found] at same; cases same

def Live (c : Cell T M) : Prop :=
  c.pending ≠ none ∨ c.claim ≠ none ∨ c.result ≠ none ∨ c.held ≠ []

def Bare (c : Cell T M) : Prop :=
  c.pending = none ∧ c.claim = none ∧ c.temp = none ∧ c.result = none ∧ c.held = [] ∧
    c.attempt = none

end Cell

section Consumer

inductive Verb (T M : Type) where
  | mint (m : Mint T M)
  | collect (uid : Nat)
  | ack

/-- `mint`, `collect` and `ack`. A state is minted once: its hash is new when it is. -/
def Cell.consumer (c : Cell T M) : Verb T M → Cell T M
  | .mint m => if c.minted then c else { c with pending := some m, minted := true }
  | .collect uid =>
      match c.result with
      | none => c
      | some r =>
          { c with result := none, held := (uid, r) :: c.held.filter fun e => e.1 ≠ uid }
  | .ack =>
      match c.attempt with
      | none => c
      | some file => { c with attempt := none, token := some file }

end Consumer

section Operations

/-- Where a record that is written comes from: an earlier record, or the artifacts alone. -/
inductive Origin where
  | record
  | artifacts
deriving DecidableEq, Repr

inductive Site where
  | ready
  | failed
  | settled (origin : Origin)
  | rebuilt
  | materialized (origin : Origin)
  | raised
  | inferred
  | evicted
  | accepted
  | merged
deriving DecidableEq, Repr

def Site.rebuilds : Site → Bool
  | .ready | .failed | .rebuilt | .settled .artifacts | .materialized .artifacts => true
  | _ => false

inductive Slot where
  | pending
  | claim
  | temp
  | result
  | held (uid : Nat)
  | attempt
  | token
deriving DecidableEq, Repr

/-- The file operations on one flow, with the two ends of the in-flight set and the worker's
snapshot. `probe` is a read whose failure the caller sees, and `prove` one in the proof step of
an ack teardown; `listHeld` is a listing whose failure shows nothing; `retire` is the unlink of
`_bound_attempts`. -/
inductive CellOp (T M : Type) where
  | look
  | probe
  | prove
  | listHeld
  | linkClaim
  | restore
  | linkResult
  | stage (metaInfo : Option M) (mintedTs : T)
  | unlink (slot : Slot)
  | retire
  | replace (site : Site) (a : Attempt T M)
  | fsync
  | syncDir
  | beginTeardown (opened : Bool)
  | enter
  | leave (recorded : Bool)
  | remember (due : Option (Attempt T M))

/-- `_link_once`: made, `EEXIST`, or any other error. -/
inductive LinkAnswer where
  | linked
  | exists_
  | failed
deriving DecidableEq, Repr

def CellOp.Answer : CellOp T M → Type
  | .look => Cell T M
  | .probe | .prove => Option (Cell T M)
  | .listHeld => List (Nat × Result T M)
  | .linkClaim | .restore | .linkResult => LinkAnswer
  | .stage _ _ | .unlink _ | .retire | .replace _ _ | .fsync | .syncDir => Bool
  | .beginTeardown _ | .enter | .leave _ | .remember _ => PUnit

def cellSig (T M : Type) : Signature := ⟨CellOp T M, CellOp.Answer⟩

/-- An entry of one of the four directories, as a listing names it. -/
inductive Entry (H : Type) where
  | pending (h : H)
  | claim (h : H)
  | temp (h : H)
  | result (h : H)
  | held (h : H) (uid : Nat)
  | attempt (h : H)
  | token (h : H)
deriving DecidableEq, Repr

/-- What the outside decides about one operation: whether it succeeds, the file system's
clock, the order in which a directory is listed, and whether a write that fails leaves a part
of the file. -/
structure Input (H T : Type) where
  ok : Bool
  clock : T
  names : List (Entry H) := []
  torn : Bool := false

def link {α : Type} (ok : Bool) (source target : Option α) : LinkAnswer :=
  match ok, source, target with
  | true, some _, none => .linked
  | true, some _, some _ => .exists_
  | _, _, _ => .failed

def Cell.has (c : Cell T M) : Slot → Bool
  | .pending => c.pending.isSome
  | .claim => c.claim.isSome
  | .temp => c.temp.isSome
  | .result => c.result.isSome
  | .held uid => c.held.any fun e => e.1 = uid
  | .attempt => c.attempt.isSome
  | .token => c.token.isSome

def Cell.drop (c : Cell T M) : Slot → Cell T M
  | .pending => { c with pending := none }
  | .claim => { c with claim := none }
  | .temp => { c with temp := none }
  | .result => { c with result := none }
  | .held uid => { c with held := c.held.filter fun e => e.1 ≠ uid }
  | .attempt => { c with attempt := none }
  | .token => { c with token := none, consumed := true }

/-- A rename over `attempts/<h>.json`; the worker's dispatch is counted when it is recorded. -/
def Cell.write (c : Cell T M) (site : Site) (a : Attempt T M) : Cell T M :=
  { c with
    attempt := some (.record a)
    spent := a.nudges
    accepted := if site = .accepted then c.accepted + 1 else c.accepted }

def runCell : Device (cellSig T M) (Input H T) (Cell T M)
  | .look, _, c => (c, c)
  | .probe, i, c => (if i.ok then some c else none, c)
  | .prove, i, c => if i.ok then (some c, c) else (none, { c with doubt := true })
  | .listHeld, i, c => (if i.ok then c.held else [], c)
  | .linkClaim, i, c =>
      match link i.ok c.pending c.claim with
      | .linked => (.linked, { c with claim := c.pending, phase := .taking })
      | answer => (answer, c)
  | .restore, i, c =>
      match link i.ok c.claim c.pending with
      | .linked => (.linked, { c with pending := c.claim })
      | answer => (answer, c)
  | .linkResult, i, c =>
      match link i.ok c.temp c.result with
      | .linked =>
          (.linked, { c with result := c.temp, created := c.created + 1, phase := .landed })
      | .exists_ => (.exists_, { c with phase := .landed })
      | .failed => (.failed, c)
  | .stage metaInfo mintedTs, i, c =>
      -- the name is created exclusively
      let fresh := { c with temp := some ⟨metaInfo, mintedTs, i.clock⟩ }
      (i.ok && c.temp.isNone, if c.temp.isNone && (i.ok || i.torn) then fresh else c)
  | .unlink slot, i, c => if i.ok && c.has slot then (true, c.drop slot) else (false, c)
  | .retire, i, c =>
      if i.ok && c.attempt.isSome then (true, { c with attempt := none, retired := true })
      else (false, c)
  | .replace site a, i, c =>
      let spared := if site = .accepted then { c with due := none } else c
      (i.ok, if i.ok then spared.write site a else spared)
  | .fsync, i, c => (i.ok, c)
  | .syncDir, i, c => (i.ok, if i.ok then c else { c with doubt := true })
  | .beginTeardown opened, _, c => (⟨⟩, { c with doubt := !opened })
  | .enter, _, c => (⟨⟩, { c with phase := .held })
  | .leave recorded, _, c => (⟨⟩, { c with phase := if recorded then .recorded else .idle })
  | .remember due, _, c => (⟨⟩, { c with due := due })

def Cell.crash (c : Cell T M) : Cell T M := { c with phase := .idle, due := none }

end Operations

end Casa.CallbackSpool
