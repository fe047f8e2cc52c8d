import Casa.CallbackSpool
import Mathlib.Data.List.Sort

/-! The code of the callback spool over its file operations: the handler's `claim`,
`publish_result` and `discard_claim`, the recovery pass, the attempts pass, the sweep, and the
delivery worker's updates (`callback_episodes.py`). The reports are left out, and with them
the best-effort fsyncs, which change nothing that a crash of the process leaves. -/

namespace Casa.CallbackPasses
open CallbackAttempts OperationTree CallbackSpool

variable {H T M β : Type}

abbrev CellProg (T M α : Type) := Prog (cellSig T M) α

section Calls

def look : CellProg T M (Cell T M) := Prog.ask (S := cellSig T M) .look
def probe : CellProg T M (Option (Cell T M)) := Prog.ask (S := cellSig T M) .probe
def prove : CellProg T M (Option (Cell T M)) := Prog.ask (S := cellSig T M) .prove
def listHeld : CellProg T M (List (Nat × Result T M)) := Prog.ask (S := cellSig T M) .listHeld
def linkClaim : CellProg T M LinkAnswer := Prog.ask (S := cellSig T M) .linkClaim
def restore : CellProg T M LinkAnswer := Prog.ask (S := cellSig T M) .restore
def linkResult : CellProg T M LinkAnswer := Prog.ask (S := cellSig T M) .linkResult
def unlink (slot : Slot) : CellProg T M Bool := Prog.ask (S := cellSig T M) (.unlink slot)
def retire : CellProg T M Bool := Prog.ask (S := cellSig T M) .retire
def fsync : CellProg T M Bool := Prog.ask (S := cellSig T M) .fsync
def syncDir : CellProg T M Bool := Prog.ask (S := cellSig T M) .syncDir
def enter : CellProg T M PUnit := Prog.ask (S := cellSig T M) .enter
def leave (recorded : Bool) : CellProg T M PUnit := Prog.ask (S := cellSig T M) (.leave recorded)

def stage (metaInfo : Option M) (mintedTs : T) : CellProg T M Bool :=
  Prog.ask (S := cellSig T M) (.stage metaInfo mintedTs)

def replace (site : Site) (a : Attempt T M) : CellProg T M Bool :=
  Prog.ask (S := cellSig T M) (.replace site a)

def beginTeardown (opened : Bool) : CellProg T M PUnit :=
  Prog.ask (S := cellSig T M) (.beginTeardown opened)

def remember (due : Option (Attempt T M)) : CellProg T M PUnit :=
  Prog.ask (S := cellSig T M) (.remember due)

/-- `_ArtifactDirs`: which of the three directories opened. -/
structure Dirs where
  pend : Bool
  results : Bool
  claims : Bool
deriving DecidableEq, Repr

def readIf (opened : Bool) (f : Cell T M → Option β) : CellProg T M (Option β) :=
  if opened then do
    let c ← look
    pure (f c)
  else pure none

/-- `_probe` and `_probe_collect`: present, confirmed absent, or unknown. -/
def probeAt (opened : Bool) (f : Cell T M → Bool) : CellProg T M (Option Bool) :=
  if opened then do
    match ← probe with
    | none => pure none
    | some c => pure (some (f c))
  else pure none

def proveAt (opened : Bool) (f : Cell T M → Bool) : CellProg T M (Option Bool) :=
  if opened then do
    match ← prove with
    | none => pure none
    | some c => pure (some (f c))
  else pure none

/-- `write_attempt`: a strict write may fail after the record became visible. -/
def writeAttempt (site : Site) (a : Attempt T M) (strict : Bool) : CellProg T M Bool := do
  let landed ← replace site a
  if landed && strict then fsync else pure landed

def collectPresent (dirs : Dirs) : CellProg T M Bool :=
  if dirs.results then do
    let held ← listHeld
    pure (!held.isEmpty)
  else pure false

end Calls

section Derivation
variable [LinearOrder T] [Add T] [NatCast T]

def mintSource (dirs : Dirs) : CellProg T M (Option (Mint T M)) := do
  let pend ← readIf dirs.pend (·.pending)
  match pend with
  | some m => pure (some m)
  | none => readIf dirs.claims (·.claim)

def deriveFromArtifacts (dirs : Dirs) (now : T) : CellProg T M (Attempt T M) := do
  let source ← mintSource dirs
  let result ← readIf dirs.results (·.result)
  -- the record is read after the stat, and a collect may come between the two
  let transport ← readIf (dirs.results && source.isNone && result.isSome) (·.result)
  let held ← collectPresent dirs
  let status := if result.isSome || held then Status.resultReady else .awaitingRedirect
  match source with
  | some m => pure (newAttempt (some m.mtime) status m.metaInfo held now)
  | none =>
      pure (newAttempt (transport.map (·.mintedTs)) status (transport.bind (·.metaInfo)) held now)

def deriveAttempt (dirs : Dirs) (now : T) : CellProg T M (Origin × Attempt T M) := do
  let c ← look
  match c.attempt with
  | some (.record a) => pure (.record, a)
  | _ =>
      let a ← deriveFromArtifacts dirs now
      pure (.artifacts, a)

def writeAhead (outcome : Outcome) (dirs : Dirs) (now : T) (claimed : Option Bool) :
    CellProg T M Bool := do
  let derived ← deriveAttempt dirs now
  writeAttempt (.settled derived.1) (terminalize derived.2 outcome now claimed) true

def carry (a : Attempt T M) : Option (AttemptFile T M) → Attempt T M
  | some (.record p) =>
      { a with metaInfo := a.metaInfo <|> p.metaInfo, mintedTs := a.mintedTs <|> p.mintedTs }
  | _ => a

def rewriteFromArtifacts (dirs : Dirs) (now : T) : CellProg T M (Option (Attempt T M)) := do
  let a ← deriveFromArtifacts dirs now
  let c ← look
  if ← writeAttempt .rebuilt (carry a c.attempt) false then pure (some (carry a c.attempt))
  else pure none

def repairAfterLostDeletion (dirs : Dirs) (now : T) : CellProg T M PUnit := do
  match ← probeAt dirs.results (·.result.isSome) with
  | none => pure ⟨⟩
  | some true =>
      let _ ← rewriteFromArtifacts dirs now
      pure ⟨⟩
  | some false =>
      if ← collectPresent dirs then
        let _ ← rewriteFromArtifacts dirs now
        pure ⟨⟩
      else pure ⟨⟩

def flowArtifactsLive (dirs : Dirs) : CellProg T M Bool := do
  let pend ← readIf dirs.pend (·.pending)
  if pend.isSome then pure true
  else
    let claim ← readIf dirs.claims (·.claim)
    if claim.isSome then pure true
    else
      let result ← readIf dirs.results (·.result)
      if result.isSome then pure true else collectPresent dirs

end Derivation

section Handler
variable [LinearOrder T] [Add T] [Sub T] [NatCast T]

/-- `_claim_locked`. A refusal leaves the claim to the recovery pass. A directory that does not
open, or has lost its identity, refuses as a link that fails does. -/
def claim (now : T) : CellProg T M PUnit := do
  match ← linkClaim with
  | .linked =>
      let _ ← unlink .pending
      let c ← look
      match c.claim with
      | none => leave false
      | some m =>
          if now + (skewS : T) < m.mtime ∨ (pendingTtlS : T) < now - m.mtime then leave false
          else enter
  | _ => pure ⟨⟩

/-- `_record_publish_failure`; `leave true` is the outcome `FAILED_RECORDED`. -/
def recordPublishFailure (a : Attempt T M) (now : T) : CellProg T M PUnit := do
  let recorded ← writeAttempt .failed (terminalize a .publishFailed now none) true
  leave recorded

/-- `_publish_locked` from its second step on, for a claim that was minted as `m`. -/
def publishLocked (m : Mint T M) (serializable : Bool) (now : T) : CellProg T M PUnit := do
  let a := newAttempt (some m.mtime) .resultReady m.metaInfo false now
  if !serializable then recordPublishFailure a now
  else if ← writeAttempt .ready a false then
    let _ ← unlink .temp
    if ← stage m.metaInfo m.mtime then
      match ← linkResult with
      | .failed =>
          let _ ← unlink .temp
          recordPublishFailure a now
      | _ =>
          let _ ← unlink .temp
          let _ ← unlink .claim
          leave false
    else
      let _ ← unlink .temp
      recordPublishFailure a now
  else leave false

/-- `publish_result`. The claim is the inode that was minted, so its stat is the handler's
`claim.mtime`. -/
def publishResult (serializable : Bool) (now : T) : CellProg T M PUnit := do
  match ← probe with
  | none => leave false
  | some c =>
      match c.claim with
      | none => leave false
      | some m => publishLocked m serializable now

def discardClaim : CellProg T M PUnit := do
  let _ ← unlink .claim
  leave false

end Handler

section Recovery
variable [LinearOrder T] [Add T] [Sub T] [NatCast T]

def expired (mtime now : T) (ttl : Nat) : Bool :=
  now + (skewS : T) < mtime || (ttl : T) < now - mtime

def recoverTemp (boot : Bool) : CellProg T M PUnit := do
  let c ← look
  if !boot && c.inFlight then pure ⟨⟩
  else
    let _ ← unlink .temp
    pure ⟨⟩

def recoverClaim (now : T) (boot : Bool) : CellProg T M PUnit := do
  let c ← look
  if !boot && c.inFlight then pure ⟨⟩
  else
    match c.claim with
    | none => pure ⟨⟩
    | some m =>
        let after ← look
        if after.result.isSome then
          -- custody has moved to `results/`
          let _ ← unlink .claim
          pure ⟨⟩
        else if expired m.mtime now pendingTtlS then
          if ← writeAhead .expired ⟨true, true, true⟩ now none then
            let _ ← unlink .claim
            pure ⟨⟩
          else pure ⟨⟩
        else if !boot && decide (now - m.mtime < (restoreGraceS : T)) then pure ⟨⟩
        else
          let d ← look
          match d.attempt with
          | some (.record a) =>
              if a.status.isDone then
                let _ ← unlink .claim
                pure ⟨⟩
              else restoreClaim
          | _ => restoreClaim
where
  restoreClaim : CellProg T M PUnit := do
    match ← restore with
    | .failed => pure ⟨⟩
    | _ =>
        let _ ← unlink .claim
        pure ⟨⟩

end Recovery

section Acks

/-- The strict fsyncs that end a deletion round; a directory that did not open has none. -/
def syncAll : List Bool → CellProg T M Bool
  | [] => pure true
  | opened :: rest => do
      if opened then
        if ← syncDir then syncAll rest else pure false
      else syncAll rest

def unlinkIf (opened : Bool) (slot : Slot) : CellProg T M PUnit :=
  if opened then do
    let _ ← unlink slot
    pure ⟨⟩
  else pure ⟨⟩

def heldNames (opened : Bool) : CellProg T M (List (Nat × Result T M)) :=
  if opened then listHeld else pure []

/-- `_teardown_once`: the holds are listed after the result is unlinked, so that a collect that
raced the unlink is seen. `false`: an fsync failed. -/
def teardownOnce (dirs : Dirs) : CellProg T M Bool := do
  unlinkIf dirs.pend .pending
  unlinkIf dirs.claims .claim
  unlinkIf dirs.claims .temp
  unlinkIf dirs.results .result
  let held ← heldNames dirs.results
  let _ ← Prog.forEach (fun e => unlink (.held e.1)) held
  let _ ← unlink .attempt
  syncAll [dirs.pend, dirs.claims, dirs.results, true]

def teardownProven (dirs : Dirs) : CellProg T M (Option Bool) := do
  let pend ← proveAt dirs.pend (·.pending.isSome)
  let claim ← proveAt dirs.claims (·.claim.isSome)
  let temp ← proveAt dirs.claims (·.temp.isSome)
  let result ← proveAt dirs.results (·.result.isSome)
  let held ← proveAt dirs.results (fun c => !c.held.isEmpty)
  let attempt ← proveAt true (·.attempt.isSome)
  match pend, claim, temp, result, held, attempt with
  | some a, some b, some c, some d, some e, some f => pure (some (!(a || b || c || d || e || f)))
  | _, _, _, _, _, _ => pure none

/-- `_teardown_flow`; the code allows two rounds. -/
def teardownFlow (dirs : Dirs) : Nat → CellProg T M Bool
  | 0 => pure false
  | rounds + 1 => do
      if ← teardownOnce dirs then
        match ← teardownProven dirs with
        | none => pure false
        | some true => pure true
        | some false => teardownFlow dirs rounds
      else pure false

/-- One receipt of `_consume_ack_tokens`. -/
def consumeAck (boot : Bool) (dirs : Dirs) : CellProg T M PUnit := do
  let c ← look
  if !boot && c.inFlight then pure ⟨⟩
  else
    beginTeardown (dirs.pend && dirs.results && dirs.claims)
    if ← teardownFlow dirs 2 then
      let _ ← unlink .token
      pure ⟨⟩
    else pure ⟨⟩

end Acks

section Attempts
variable [LinearOrder T] [Add T] [Sub T] [NatCast T]

def materialize (dirs : Dirs) (now : T) : CellProg T M (Option (Attempt T M)) := do
  let derived ← deriveAttempt dirs now
  if ← writeAttempt (.materialized derived.1) derived.2 false then pure (some derived.2)
  else pure none

def rebuildInvalid (dirs : Dirs) (now : T) : CellProg T M (Option (Attempt T M)) := do
  if ← flowArtifactsLive dirs then rewriteFromArtifacts dirs now
  else
    let c ← look
    match c.attempt with
    | some .invalid =>
        let _ ← unlink .attempt
        pure none
    | _ => pure none

def raiseClaimed (dirs : Dirs) (a : Attempt T M) : CellProg T M (Attempt T M) := do
  if a.claimed then pure a
  else if ← collectPresent dirs then
    if ← writeAttempt .raised { a with claimed := true } false then
      pure { a with claimed := true }
    else pure a
  else pure a

/-- One record of `_rederive_attempts`; `a` is what the pass has read or written of it. -/
def rederive (dirs : Dirs) (now : T) (a : Attempt T M) : CellProg T M (Attempt T M) :=
  match a.status with
  | .awaitingRedirect => pure a
  | .done _ => do
      if ← flowArtifactsLive dirs then rewrite else pure a
  | .resultReady => do
      if (← probeAt dirs.pend (·.pending.isSome)) = some true then
        if (← probeAt dirs.results (·.result.isSome)) = some false then
          if (← probeAt dirs.results (fun c => !c.held.isEmpty)) = some false then rewrite
          else raiseClaimed dirs a
        else raiseClaimed dirs a
      else raiseClaimed dirs a
where
  rewrite : CellProg T M (Attempt T M) := do
    let fresh ← rewriteFromArtifacts dirs now
    pure (fresh.getD a)

/-- One record of `_infer_receipts`: the probes are made in this order and the first that is
not a confirmed absence ends it. -/
def inferReceipt (dirs : Dirs) (now : T) (boot : Bool) (a : Attempt T M) :
    CellProg T M (Attempt T M) := do
  if a.status ≠ .resultReady then pure a
  else
    let c ← look
    if !boot && c.inFlight then pure a
    else if (← probeAt dirs.results (·.result.isSome)) ≠ some false then pure a
    else if (← probeAt dirs.results (fun c => !c.held.isEmpty)) ≠ some false then pure a
    else if (← probeAt dirs.claims (·.claim.isSome)) ≠ some false then pure a
    else if (← probeAt dirs.pend (·.pending.isSome)) ≠ some false then pure a
    else if ← writeAttempt .inferred (terminalize a .collected now none) false then
      pure (terminalize a .collected now none)
    else pure a

def evictAttempt (now : T) (a : Attempt T M) : CellProg T M PUnit := do
  if ← writeAttempt .evicted (terminalize a .evicted now none) true then
    let _ ← retire
    pure ⟨⟩
  else pure ⟨⟩

end Attempts

section Sweeping
variable [LinearOrder T] [Add T] [Sub T] [NatCast T]

def sweepPending (dirs : Dirs) (now : T) : CellProg T M (Option T) := do
  let c ← look
  match c.pending with
  | none => pure none
  | some m =>
      if expired m.mtime now pendingTtlS then
        if ← writeAhead .expired dirs now none then
          let _ ← unlink .pending
          pure none
        else pure none
      else pure (some m.mtime)

/-- `results/<h>.json`, or the hold of one consumer. -/
def Cell.resultAt (c : Cell T M) : Option Nat → Option (Result T M)
  | none => c.result
  | some uid => (c.held.find? fun e => e.1 = uid).map (·.2)

def resultSlot : Option Nat → Slot
  | none => .result
  | some uid => .held uid

def sweepResult (dirs : Dirs) (now : T) (hold : Option Nat) : CellProg T M (Option T) := do
  let c ← look
  match Cell.resultAt c hold with
  | none => pure none
  | some r =>
      if expired r.mtime now resultTtlS then
        if ← writeAhead .expiredUnread dirs now (if hold.isSome then some true else none) then
          if ← unlink (resultSlot hold) then pure none
          else
            repairAfterLostDeletion dirs now
            pure none
        else pure none
      else pure (some r.mtime)

/-- A victim of `_apply_cap`. -/
def capEntry (dirs : Dirs) (now : T) (slot : Slot) : CellProg T M PUnit := do
  if ← writeAhead .evicted dirs now none then
    if ← unlink slot then pure ⟨⟩ else repairAfterLostDeletion dirs now
  else pure ⟨⟩

/-- A victim of `_apply_collect_cap`. -/
def capHold (dirs : Dirs) (now : T) (uid : Nat) : CellProg T M PUnit := do
  if ← writeAhead .expiredUnread dirs now (some true) then
    let _ ← unlink (.held uid)
    pure ⟨⟩
  else pure ⟨⟩

def sweepTemp (now : T) : CellProg T M PUnit := do
  let c ← look
  if c.inFlight then pure ⟨⟩
  else
    match c.temp with
    | none => pure ⟨⟩
    | some r =>
        if expired r.mtime now tempTtlS then
          let _ ← unlink .temp
          pure ⟨⟩
        else pure ⟨⟩

end Sweeping

section Worker
variable [LinearOrder T] [Add T] [NatCast T]

/-- `_is_nudgeable` on a record that `list_attempts` returned. -/
def selectNudge (now : T) : CellProg T M PUnit := do
  let c ← look
  match c.attempt with
  | some (.record a) =>
      match a.nextNudgeTs with
      | none => remember none
      | some next =>
          if now < next ∨ maxNudges ≤ a.nudges ∨ a.status = .done .collected then remember none
          else
            let after ← look
            if a.status = .resultReady ∧ after.result = none then remember none
            else remember (some a)
  | _ => remember none

def updateAttemptNudge (site : Site) (merge : Attempt T M → Attempt T M) : CellProg T M Bool := do
  let c ← look
  match c.attempt with
  | some (.record a) => writeAttempt site (merge a) false
  | _ => pure false

/-- `_accept`; `anchorTs` is what `result_mtime` gave before. -/
def accept (now : T) (anchorTs : Option T) : CellProg T M PUnit := do
  let c ← look
  match c.due with
  | none => pure ⟨⟩
  | some due =>
      match nextNudgeAfterAccept due now anchorTs with
      | none => remember none
      | some next =>
          let _ ← updateAttemptNudge .accepted fun a =>
            { a with
              nudges := due.nudges + 1, lastNudgeTs := some now, nextNudgeTs := next
              deferrals := 0 }
          remember none

def defer (now : T) : CellProg T M PUnit := do
  let c ← look
  match c.due with
  | none => pure ⟨⟩
  | some due =>
      let _ ← updateAttemptNudge .merged fun a =>
        { a with
          nextNudgeTs := some (nextNudgeAfterReject due now), deferrals := due.deferrals + 1 }
      remember none

/-- The mark of `_exhaustion_note`. -/
def noteExhaustion : CellProg T M PUnit := do
  let _ ← updateAttemptNudge .merged fun a => { a with noted := true }
  pure ⟨⟩

end Worker

end Casa.CallbackPasses
