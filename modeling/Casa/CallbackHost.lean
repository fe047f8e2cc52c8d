import Casa.CallbackPasses
import Mathlib.Data.Fintype.Basic

/-! The passes over a whole plugin directory, and the process that runs them under the
spool's lock: one task at a time, file operation by file operation, while the consumer moves
between any two of them and the process may die at any point. -/

namespace Casa.CallbackHost
open CallbackAttempts OperationTree CallbackSpool CallbackPasses

variable {H T M α β γ : Type}

section Directories

inductive Dir where
  | pending
  | results
  | claims
  | attempts
deriving DecidableEq, Repr

def Entry.dir : Entry H → Dir
  | .pending _ => .pending
  | .claim _ | .temp _ => .claims
  | .result _ | .held _ _ => .results
  | .attempt _ | .token _ => .attempts

def Entry.key : Entry H → H
  | .pending h | .claim h | .temp h | .result h | .held h _ | .attempt h | .token h => h

def Entry.slot : Entry H → Slot
  | .pending _ => .pending
  | .claim _ => .claim
  | .temp _ => .temp
  | .result _ => .result
  | .held _ uid => .held uid
  | .attempt _ => .attempt
  | .token _ => .token

inductive SpoolOp where
  | openDir (dir : Dir)
  | list (dir : Dir)
deriving DecidableEq, Repr

def SpoolOp.Answer (H : Type) : SpoolOp → Type
  | .openDir _ => Bool
  | .list _ => List (Entry H)

def spoolSig (H : Type) : Signature := ⟨SpoolOp, SpoolOp.Answer H⟩

/-- `_open_dir` and `_listdir_quiet`: a listing that fails shows nothing, and one that does not
shows entries that exist, each once and in any order. -/
def survey [DecidableEq H] :
    (q : (spoolSig H).Op) → Input H T → (H → Cell T M) → (spoolSig H).Answer q
  | .openDir _, i, _ => i.ok
  | .list dir, i, s =>
      if i.ok then
        (i.names.filter fun e => decide (Entry.dir e = dir) &&
          (s (Entry.key e)).has (Entry.slot e)).dedup
      else ([] : List (Entry H))

abbrev SpoolProg (H T M α : Type) := Prog (keyed H (cellSig T M) (spoolSig H)) α

def openDir (dir : Dir) : SpoolProg H T M Bool :=
  Prog.survey (V := spoolSig H) (SpoolOp.openDir dir)

def list (dir : Dir) : SpoolProg H T M (List (Entry H)) :=
  Prog.survey (V := spoolSig H) (SpoolOp.list dir)

def forEachAt (key : β → H) (f : β → CellProg T M γ) (items : List β) :
    SpoolProg H T M (List γ) :=
  Prog.forEach (fun b => (f b).atKey (key b)) items

def pendingKey : Entry H → Option H
  | .pending h => some h
  | _ => none

def claimKey : Entry H → Option H
  | .claim h => some h
  | _ => none

def tempKey : Entry H → Option H
  | .temp h => some h
  | _ => none

def attemptKey : Entry H → Option H
  | .attempt h => some h
  | _ => none

def tokenKey : Entry H → Option H
  | .token h => some h
  | _ => none

def resultKey : Entry H → Option (H × Option Nat)
  | .result h => some (h, none)
  | .held h uid => some (h, some uid)
  | _ => none

def artifactKey : Entry H → Option H
  | .pending h | .claim h | .result h | .held h _ => some h
  | _ => none

end Directories

section Passes
variable [LinearOrder H] [LinearOrder T] [Add T] [Sub T] [NatCast T]

abbrev Records (H T M : Type) := List (H × Attempt T M)

def recoveryPass (now : T) (boot : Bool) : SpoolProg H T M PUnit := do
  if ← openDir .claims then
    if ← openDir .pending then
      if ← openDir .results then
        let names ← list .claims
        let _ ← forEachAt id (fun _ => recoverTemp boot) (names.filterMap tempKey)
        let _ ← forEachAt id (fun _ => recoverClaim now boot) (names.filterMap claimKey)
        pure ⟨⟩
      else pure ⟨⟩
    else pure ⟨⟩
  else pure ⟨⟩

/-- What one file of `_scan_attempts` reads as. -/
def readAttempt (h : H) : CellProg T M (H × Option (AttemptFile T M)) := do
  let c ← look
  pure (h, c.attempt)

def validOf : H × Option (AttemptFile T M) → Option (H × Attempt T M)
  | (h, some (.record a)) => some (h, a)
  | _ => none

def invalidOf : H × Option (AttemptFile T M) → Option H
  | (h, some .invalid) => some h
  | _ => none

def scanAttempts : SpoolProg H T M (Records H T M × List H) := do
  let names ← list .attempts
  let files ← forEachAt id readAttempt (names.filterMap attemptKey)
  pure ((files.filterMap validOf).insertionSort fun p q => p.1 ≤ q.1,
    (files.filterMap invalidOf).insertionSort fun h k => h ≤ k)

def listIf (opened : Bool) (dir : Dir) : SpoolProg H T M (List (Entry H)) :=
  if opened then list dir else pure []

def withKey (h : H) (p : CellProg T M (Option α)) : CellProg T M (Option (H × α)) := do
  let a ← p
  pure (a.map fun a => (h, a))

def materializeAttempts (dirs : Dirs) (now : T) (known : List H) :
    SpoolProg H T M (Records H T M) := do
  let pend ← listIf dirs.pend .pending
  let results ← listIf dirs.results .results
  let claims ← listIf dirs.claims .claims
  let union := ((pend ++ results ++ claims).filterMap artifactKey).dedup
  let missing := (union.filter fun h => h ∉ known).insertionSort fun h k => h ≤ k
  let fresh ← forEachAt id (fun h => withKey h (materialize dirs now)) missing
  pure fresh.reduceOption

def rederiveAttempts (dirs : Dirs) (now : T) (records : Records H T M) :
    SpoolProg H T M (Records H T M) :=
  forEachAt (·.1) (fun p => do
    let a ← rederive dirs now p.2
    pure (p.1, a)) (records.insertionSort fun p q => p.1 ≤ q.1)

def inferReceipts (dirs : Dirs) (now : T) (boot : Bool) (records : Records H T M) :
    SpoolProg H T M (Records H T M) :=
  forEachAt (·.1) (fun p => do
    let a ← inferReceipt dirs now boot p.2
    pure (p.1, a)) (records.insertionSort fun p q => p.1 ≤ q.1)

def aged (now : T) (a : Attempt T M) : Bool :=
  a.status.isDone &&
    match a.endedTs with
    | some ended => (attemptRetentionS : T) < now - ended
    | none => false

def before (clock : Attempt T M → Option T) (p q : H × Attempt T M) : Prop :=
  (clock p.2).getD ((0 : Nat) : T) < (clock q.2).getD ((0 : Nat) : T) ∨
    ((clock p.2).getD ((0 : Nat) : T) = (clock q.2).getD ((0 : Nat) : T) ∧ p.1 ≤ q.1)

instance (clock : Attempt T M → Option T) : DecidableRel (before (H := H) clock) :=
  fun _ _ => inferInstanceAs (Decidable (_ ∨ _))

/-- `_bound_attempts`: the retention bound, then the `MAX_ATTEMPTS` ladder. -/
def boundAttempts (now : T) (records : Records H T M) : SpoolProg H T M PUnit := do
  let _ ← forEachAt (·.1) (fun _ => retire) (records.filter fun p => aged now p.2)
  let retained := records.filter fun p => !aged now p.2
  let excess := retained.length - maxAttempts
  let terminal := (retained.filter fun p => p.2.status.isDone).insertionSort
    (before Attempt.endedTs)
  let gone ← forEachAt (·.1) (fun _ => retire) (terminal.take excess)
  let open_ := (retained.filter fun p => !p.2.status.isDone).insertionSort
    (before Attempt.mintedTs)
  let _ ← forEachAt (·.1) (fun p => evictAttempt now p.2)
    (open_.take (excess - gone.count true))
  pure ⟨⟩

def attemptsPass (now : T) (boot : Bool) : SpoolProg H T M PUnit := do
  let pend ← openDir .pending
  let results ← openDir .results
  let claims ← openDir .claims
  if ← openDir .attempts then
    let dirs : Dirs := ⟨pend, results, claims⟩
    let tokens ← list .attempts
    let _ ← forEachAt id (fun _ => consumeAck boot dirs)
      ((tokens.filterMap tokenKey).insertionSort fun h k => h ≤ k)
    let scanned ← scanAttempts
    let fresh ← materializeAttempts dirs now (scanned.1.map (·.1) ++ scanned.2)
    let rebuilt ← forEachAt id (fun h => withKey h (rebuildInvalid dirs now)) scanned.2
    let derived ← rederiveAttempts dirs now (scanned.1 ++ fresh ++ rebuilt.reduceOption)
    let settled ← inferReceipts dirs now boot derived
    boundAttempts now settled
  else pure ⟨⟩

/-- `live.sort` of `_apply_cap`: flows without an open attempt first, then by age. -/
def ranked (openAttempts : List H) (p q : T × H) : Prop :=
  (p.2 ∉ openAttempts ∧ q.2 ∈ openAttempts) ∨
    ((p.2 ∈ openAttempts ↔ q.2 ∈ openAttempts) ∧
      (p.1 < q.1 ∨ (p.1 = q.1 ∧ p.2 ≤ q.2)))

instance (openAttempts : List H) : DecidableRel (ranked (T := T) openAttempts) :=
  fun _ _ => inferInstanceAs (Decidable (_ ∨ _))

/-- Residue in a capped directory goes first and is counted with the rest, so it never changes
how many flows go; it is left out. -/
def applyCap (dirs : Dirs) (now : T) (slot : Slot) (cap : Nat) (openAttempts : List H)
    (live : List (T × H)) : SpoolProg H T M PUnit := do
  let victims := (live.insertionSort (ranked openAttempts)).take (live.length - cap)
  let _ ← forEachAt (·.2) (fun _ => capEntry dirs now slot) victims
  pure ⟨⟩

def olderHold (p q : T × H × Nat) : Prop :=
  p.1 < q.1 ∨ (p.1 = q.1 ∧ (p.2.1 < q.2.1 ∨ (p.2.1 = q.2.1 ∧ p.2.2 ≤ q.2.2)))

instance : DecidableRel (olderHold (T := T) (H := H)) :=
  fun _ _ => inferInstanceAs (Decidable (_ ∨ _))

def applyCollectCap (dirs : Dirs) (now : T) (held : List (T × H × Nat)) :
    SpoolProg H T M PUnit := do
  let victims := (held.insertionSort olderHold).take (held.length - maxCollect)
  let _ ← forEachAt (·.2.1) (fun v => capHold dirs now v.2.2) victims
  pure ⟨⟩

def sweepPendingDir (dirs : Dirs) (now : T) (openAttempts : List H) : SpoolProg H T M PUnit := do
  let names ← list .pending
  let kept ← forEachAt id (fun h => do
    let mtime ← sweepPending dirs now
    pure (mtime.map fun t => (t, h))) (names.filterMap pendingKey)
  applyCap dirs now .pending maxPending openAttempts kept.reduceOption

def sweepResultsDir (dirs : Dirs) (now : T) (openAttempts : List H) : SpoolProg H T M PUnit := do
  let names ← list .results
  let kept ← forEachAt (·.1) (fun e => do
    let mtime ← sweepResult dirs now e.2
    pure (mtime.map fun t => (t, e))) (names.filterMap resultKey)
  let live := kept.reduceOption
  applyCap dirs now .result maxResults openAttempts
    (live.filterMap fun e => if e.2.2.isNone then some (e.1, e.2.1) else none)
  applyCollectCap dirs now
    (live.filterMap fun e => e.2.2.map fun uid => (e.1, e.2.1, uid))

def ifOpen (opened : Bool) (p : SpoolProg H T M PUnit) : SpoolProg H T M PUnit :=
  if opened then p else pure ⟨⟩

def sweep (now : T) : SpoolProg H T M PUnit := do
  let pend ← openDir .pending
  let results ← openDir .results
  let claims ← openDir .claims
  let dirs : Dirs := ⟨pend, results, claims⟩
  let scanned ← scanAttempts
  let openAttempts := (scanned.1.filter fun p => !p.2.status.isDone).map (·.1)
  ifOpen pend (sweepPendingDir dirs now openAttempts)
  ifOpen results (sweepResultsDir dirs now openAttempts)
  let temps ← listIf claims .claims
  let _ ← forEachAt id (fun _ => sweepTemp now) (temps.filterMap tempKey)
  pure ⟨⟩

def selectNudgeable (now : T) : SpoolProg H T M PUnit := do
  let scanned ← scanAttempts
  let _ ← forEachAt id (fun _ => selectNudge now) (scanned.1.map (·.1))
  pure ⟨⟩

end Passes

section Tasks

inductive Task (H T : Type) where
  | claim (h : H) (now : T)
  | publishResult (h : H) (serializable : Bool) (now : T)
  | discardClaim (h : H)
  | recoveryPass (now : T) (boot : Bool)
  | attemptsPass (now : T) (boot : Bool)
  | sweep (now : T)
  | selectNudgeable (now : T)
  | accept (h : H) (now : T) (anchorTs : Option T)
  | defer (h : H) (now : T)
  | noteExhaustion (h : H)

variable [LinearOrder H] [LinearOrder T] [Add T] [Sub T] [NatCast T]

def program : Task H T → SpoolProg H T M PUnit
  | .claim h now => (claim now).atKey h
  | .publishResult h serializable now => (publishResult serializable now).atKey h
  | .discardClaim h => discardClaim.atKey h
  | .recoveryPass now boot => recoveryPass now boot
  | .attemptsPass now boot => attemptsPass now boot
  | .sweep now => sweep now
  | .selectNudgeable now => selectNudgeable now
  | .accept h now anchorTs => (accept now anchorTs).atKey h
  | .defer h now => (defer now).atKey h
  | .noteExhaustion h => noteExhaustion.atKey h

def spool : Host (keyed H (cellSig T M) (spoolSig H)) (Input H T) (H → Cell T M) (H × Verb T M)
    (Task H T) where
  run := keyedRun runCell survey
  env e s := Function.update s e.1 ((s e.1).consumer e.2)
  program := program
  crash s h := (s h).crash

abbrev SpoolConfig (H T M : Type) :=
  Config (keyed H (cellSig T M) (spoolSig H)) (H → Cell T M) (Task H T)

abbrev SpoolLabel (H T M : Type) := Label (H × Verb T M) (Task H T) (Input H T)

def emptySpool : SpoolConfig H T M := ⟨fun _ => {}, none⟩

/-- How the code calls its own tasks: the route handler runs `claim`, `publish_result` and
`discard_claim` of a request without a pause, the discard after `FAILED_RECORDED` only, and the
boot passes run before any handler exists. -/
def Task.ready (s : H → Cell T M) : Task H T → Prop
  | .claim h _ => (s h).phase = .idle
  | .publishResult h _ _ => (s h).phase = .held
  | .discardClaim h => (s h).phase = .recorded
  | .recoveryPass _ boot | .attemptsPass _ boot => boot = true → ∀ h, (s h).phase = .idle
  | _ => True

instance [Fintype H] (s : H → Cell T M) : ∀ task : Task H T, Decidable (task.ready s)
  | .claim h _ => inferInstanceAs (Decidable ((s h).phase = .idle))
  | .publishResult h _ _ => inferInstanceAs (Decidable ((s h).phase = .held))
  | .discardClaim h => inferInstanceAs (Decidable ((s h).phase = .recorded))
  | .recoveryPass _ boot | .attemptsPass _ boot =>
      inferInstanceAs (Decidable (boot = true → ∀ h, (s h).phase = .idle))
  | .sweep _ | .selectNudgeable _ | .accept _ _ _ | .defer _ _ | .noteExhaustion _ => isTrue trivial

def wellCalled : SpoolLabel H T M → SpoolConfig H T M → Prop
  | .start task, c => c.running.isNone = true → task.ready c.state
  | _, _ => True

instance [Fintype H] : ∀ (l : SpoolLabel H T M) (c : SpoolConfig H T M), Decidable (wellCalled l c)
  | .start task, c => inferInstanceAs (Decidable (c.running.isNone = true → task.ready c.state))
  | .env _, _ | .advance _, _ | .finish, _ | .crash, _ => isTrue trivial

end Tasks

end Casa.CallbackHost
