import Casa.EventSpool
import Mathlib.Data.List.Sort

/-! The code of the event spool over the files of one pair: the fold (reconstruct, repair,
open), the sweep, `ack` and `update_delivery_nudge`, and the process that runs them under the
spool's lock, one file operation after the other. Pairs share no file, so a pass over all of them
is these programs in a row. The reports are left out, and with them the best-effort fsyncs. -/

namespace Casa.EventPasses
open KeyedTable OperationTree EventSpool

variable {S U K T : Type}

abbrev PairProg (S U K T α : Type) := Prog (pairSig S U K T) α

section Calls

def enter (routed : List S) : PairProg S U K T PUnit := Prog.ask (S := pairSig S U K T) (.enter routed)
def openDir : PairProg S U K T Bool := Prog.ask (S := pairSig S U K T) .openDir
def readState : PairProg S U K T (Marker (Anchor S U T)) := Prog.ask (S := pairSig S U K T) .readState
def scan : PairProg S U K T (Records S K T × Bool) := Prog.ask (S := pairSig S U K T) .scan
def quarantineState : PairProg S U K T Bool := Prog.ask (S := pairSig S U K T) .quarantineState
def newToken : PairProg S U K T K := Prog.ask (S := pairSig S U K T) .newToken
def listEmissions : PairProg S U K T (List (U × T)) := Prog.ask (S := pairSig S U K T) .listEmissions
def listDelivery : PairProg S U K T (List S) := Prog.ask (S := pairSig S U K T) .listDelivery

def writeState (site : StateSite) (a : Anchor S U T) : PairProg S U K T Bool :=
  Prog.ask (S := pairSig S U K T) (.writeState site a)

def writeDelivery (site : DeliverySite) (s : S) (r : Record K T) : PairProg S U K T Bool :=
  Prog.ask (S := pairSig S U K T) (.writeDelivery site s r)

def reprove (names : List S) : PairProg S U K T Bool :=
  Prog.ask (S := pairSig S U K T) (.reprove names)

def unlinkEmission (disposal : Disposal) (u : U) : PairProg S U K T Bool :=
  Prog.ask (S := pairSig S U K T) (.unlinkEmission disposal u)

def readDelivery (s : S) : PairProg S U K T (Marker (Record K T)) :=
  Prog.ask (S := pairSig S U K T) (.readDelivery s)

def quarantineDelivery (s : S) : PairProg S U K T Bool :=
  Prog.ask (S := pairSig S U K T) (.quarantineDelivery s)

def unlinkDelivery (s : S) : PairProg S U K T Bool :=
  Prog.ask (S := pairSig S U K T) (.unlinkDelivery s)

def writeRemovalRecord (s : S) : PairProg S U K T Bool :=
  Prog.ask (S := pairSig S U K T) (.writeRemovalRecord s)

def unlinkAll (disposal : Disposal) (us : List U) : PairProg S U K T PUnit := do
  let _ ← Prog.forEach (fun u => unlinkEmission disposal u) us
  pure ⟨⟩

end Calls

section Fold
variable [LinearOrder S] [LinearOrder U] [LinearOrder T] [Add T] [NatCast T]

/-- `sorted` of a set. -/
def sorted (items : List S) : List S := items.dedup.insertionSort fun s t => s ≤ t

def lookup (records : Records S K T) (s : S) : Option (Record K T) :=
  (records.get? s).map fun e => e.2

def maxGen (records : Records S K T) : Nat :=
  (records.rows.map fun e => e.2.gen).foldr max 0

/-- The anchor that RECONSTRUCT writes: the members of the newest generation on record, and
nothing to unlink. -/
def rebuiltAnchor (records : Records S K T) (now : T) : Anchor S U T where
  gen := maxGen records
  cohort := sorted ((records.rows.filter fun e => e.2.gen = maxGen records).map fun e => e.1)
  folded := []
  openedTs := now

/-- What the rest of the pass works from: the anchor, or none yet; `failed` is
`reconstruct_failed`. -/
inductive Standing (S U T : Type) where
  | known (a : Option (Anchor S U T))
  | failed

/-- RECONSTRUCT. A file that does not validate is moved aside before it is overwritten. -/
def reconstruct (marker : Marker (Anchor S U T)) (records : Records S K T) (now : T) :
    PairProg S U K T (Standing S U T) :=
  match marker with
  | .present a => pure (.known (some a))
  | .unreadable => pure .failed
  | .absent =>
      if records.rows = [] then pure (.known none)
      else do
        if ← writeState .reconstructed (rebuiltAnchor records now) then
          pure (.known (some (rebuiltAnchor records now)))
        else pure .failed
  | .invalid =>
      if records.rows = [] then pure (.known none)
      else do
        if ← quarantineState then
          if ← writeState .reconstructed (rebuiltAnchor records now) then
            pure (.known (some (rebuiltAnchor records now)))
          else pure .failed
        else pure .failed

/-- The loop of REPAIR: a record of an older generation is minted anew. Only a write that reports
success enters the pass's own picture of the records. -/
def backfill (a : Anchor S U T) (now : T) :
    List S → Records S K T → PairProg S U K T (Records S K T × List S)
  | [], records => pure (records, [])
  | s :: rest, records =>
      match lookup records s with
      | none => backfill a now rest records
      | some r =>
          if r.gen < a.gen then do
            let token ← newToken
            let fresh := newRecord a.gen token now
            if ← writeDelivery .repaired s fresh then do
              let (records, changed) ← backfill a now rest (records.put (s, fresh))
              pure (records, s :: changed)
            else backfill a now rest records
          else backfill a now rest records

def fanOutComplete (a : Anchor S U T) (eligible : List S) (records : Records S K T) : Bool :=
  eligible.all fun s => (lookup records s).any fun r => r.gen = a.gen

def unlinkFolded (a : Anchor S U T) (names : List S) (complete : Bool) :
    PairProg S U K T PUnit :=
  if complete then do
    if ← reprove names then unlinkAll .folded a.folded else pure ⟨⟩
  else pure ⟨⟩

def eligible (a : Anchor S U T) (routed : List S) : List S :=
  sorted (a.cohort.filter fun s => routed.contains s)

def repair (a : Anchor S U T) (routed : List S) (now : T) (records : Records S K T) :
    PairProg S U K T (Records S K T × List S) := do
  let (records, changed) ← backfill a now (eligible a routed) records
  unlinkFolded a (eligible a routed) (fanOutComplete a (eligible a routed) records)
  pure (records, changed)

def older (e f : U × T) : Prop := e.2 < f.2 ∨ (e.2 = f.2 ∧ e.1 ≤ f.1)

instance : DecidableRel (older (U := U) (T := T)) := fun _ _ => inferInstanceAs (Decidable (_ ∨ _))

def byAge (emissions : List (U × T)) : List (U × T) := emissions.insertionSort older

/-- The records of a fresh generation, one write for each member, and whether all of them
succeeded. -/
def fanOut (a : Anchor S U T) (now : T) : List S → PairProg S U K T (List S × Bool)
  | [] => pure ([], true)
  | s :: rest => do
      let token ← newToken
      let wrote ← writeDelivery .opened s (newRecord a.gen token now)
      let (written, all) ← fanOut a now rest
      pure (if wrote then (s :: written, all) else (written, false))

def idle (records : Records S K T) : Bool := records.rows.all fun e => e.2.status ≠ .pending

def openedAnchor (curGen : Nat) (routed : List S) (emissions : List (U × T)) (now : T) :
    Anchor S U T where
  gen := curGen + 1
  cohort := sorted routed
  folded := ((byAge emissions).take foldBatchMax).map fun e => e.1
  openedTs := now

def openGeneration (curGen : Nat) (routed : List S) (now : T) (records : Records S K T) :
    PairProg S U K T (List S) := do
  let emissions ← listEmissions
  if emissions ≠ [] ∧ routed ≠ [] ∧ idle records = true then
    let a := openedAnchor curGen routed emissions now
    if ← writeState .opened a then do
      let (written, all) ← fanOut a now a.cohort
      unlinkFolded a written all
      pure written
    else pure []
  else pure []

/-- `_fold_one` and `_fold_one_locked`: the subscribers whose record is new. A pass that cannot
read everything defers the pair. -/
def foldOne (routed : List S) (now : T) : PairProg S U K T (List S) := do
  enter routed
  if ← openDir then
    let marker ← readState
    if marker.isUnreadable then pure []
    else do
      let (records, unreadable) ← scan
      if unreadable then pure []
      else
        match ← reconstruct marker records now with
        | .failed => pure []
        | .known none => openGeneration 0 routed now records
        | .known (some a) => do
            let (records, changed) ← repair a routed now records
            let opened ← openGeneration a.gen routed now records
            pure (changed ++ opened)
  else pure []

end Fold

section Sweep
variable [LinearOrder S] [LinearOrder U] [LinearOrder T]

/-- `_sweep_emissions`. The valve counts the files of all events of the emitter and takes the
oldest, so `overflow`, how many of them are this pair's, is for the others to decide. -/
def sweepEmissions (routed : List S) (overflow : Nat) : PairProg S U K T PUnit := do
  if ← openDir then
    let emissions ← listEmissions
    if routed = [] then unlinkAll .swept (emissions.map fun e => e.1)
    else unlinkAll .swept (((byAge emissions).take overflow).map fun e => e.1)
  else pure ⟨⟩

def retireUnrouted (routed installed : List S) (now : T) (s : S) (r : Record K T) :
    PairProg S U K T (Record K T) :=
  if routed.contains s = false ∧ r.status = .pending then do
    let ended := terminalize r (if installed.contains s then .revoked else .removed) now
    if ← writeDelivery .rewritten s ended then pure ended else pure r
  else pure r

/-- One name of `_sweep_delivery`; the answer is what `to_drop` gains. A quarantined file has
left its name, so what becomes of it is left out. -/
def sweepRecord (routed installed : List S) (now : T) (s : S) : PairProg S U K T (Option S) := do
  match ← readDelivery s with
  | .absent => pure none
  | .unreadable => pure none
  | .invalid =>
      let _ ← quarantineDelivery s
      pure none
  | .present r =>
      let r ← retireUnrouted routed installed now s r
      pure (if installed.contains s = false ∧ r.status ≠ .pending then some s else none)

/-- `_drop_removed_subscribers`: the removal record goes first. -/
def dropRemoved (s : S) : PairProg S U K T PUnit := do
  if ← writeRemovalRecord s then
    let _ ← unlinkDelivery s
    pure ⟨⟩
  else pure ⟨⟩

def sweepDelivery (routed installed : List S) (now : T) : PairProg S U K T PUnit := do
  if ← openDir then
    let names ← listDelivery
    let drops ← Prog.forEach (sweepRecord routed installed now)
      (names.insertionSort fun s t => s ≤ t)
    let _ ← Prog.forEach dropRemoved drops.reduceOption
    pure ⟨⟩
  else pure ⟨⟩

def sweep (routed installed : List S) (overflow : Nat) (now : T) : PairProg S U K T PUnit := do
  sweepEmissions routed overflow
  sweepDelivery routed installed now

end Sweep

section Updates
variable [LinearOrder S] [DecidableEq K] [DecidableEq T]

inductive AckAnswer (S : Type) where
  | acked (s : S)
  | alreadyDone (s : S)
  | noMatch
deriving DecidableEq, Repr

def ackAmong (token : K) (now : T) : List S → PairProg S U K T (AckAnswer S)
  | [] => pure .noMatch
  | s :: rest => do
      match ← readDelivery s with
      | .present r =>
          if r.ackToken = token then
            if r.status = .pending then do
              if ← writeDelivery .rewritten s (terminalize r .acked now) then pure (.acked s)
              else pure .noMatch
            else pure (.alreadyDone s)
          else ackAmong token now rest
      | _ => ackAmong token now rest

def ack (token : K) (now : T) : PairProg S U K T (AckAnswer S) := do
  if ← openDir then
    let names ← listDelivery
    ackAmong token now (names.insertionSort fun s t => s ≤ t)
  else pure .noMatch

/-- `update_delivery_nudge`. The mutator may do anything, raise included (`none`); what it
returns is refused when an identity key differs. -/
def updateDeliveryNudge (s : S) (gen : Nat) (mutator : Record K T → Option (Record K T)) :
    PairProg S U K T Bool := do
  match ← readDelivery s with
  | .present r =>
      if r.status = .pending ∧ r.gen = gen then
        match mutator r with
        | none => pure false
        | some merged =>
            if merged.gen = r.gen ∧ merged.ackToken = r.ackToken ∧
                merged.mintedTs = r.mintedTs then do
              if ← openDir then writeDelivery .rewritten s merged else pure false
            else pure false
      else pure false
  | _ => pure false

end Updates

section Tasks

/-- The tasks of the spool. `routed = none` is `ROUTING_UNAVAILABLE`. -/
inductive Task (S K T : Type) where
  | foldPass (routed : Option (List S)) (now : T)
  | sweep (routed : Option (List S)) (installed : List S) (registryValid : Bool) (overflow : Nat)
      (now : T)
  | ack (token : K) (now : T)
  | updateDeliveryNudge (s : S) (gen : Nat) (mutator : Record K T → Option (Record K T))

variable [LinearOrder S] [LinearOrder U] [DecidableEq K] [LinearOrder T] [Add T] [NatCast T]

/-- Without an authoritative routing nothing is folded, and the sweep only clears its own
temporaries. -/
def program : Task S K T → PairProg S U K T PUnit
  | .foldPass none _ => pure ⟨⟩
  | .foldPass (some routed) now => do
      let _ ← foldOne routed now
      pure ⟨⟩
  | .sweep (some routed) installed true overflow now => sweep routed installed overflow now
  | .sweep _ _ _ _ _ => pure ⟨⟩
  | .ack token now => do
      let _ ← ack token now
      pure ⟨⟩
  | .updateDeliveryNudge s gen mutator => do
      let _ ← updateDeliveryNudge s gen mutator
      pure ⟨⟩

def spool (bytes : Anchor S U T → Nat) :
    Host (pairSig S U K T) (Input S U K) (Pair S U K T) (Outside U T) (Task S K T) where
  run := runPair bytes
  env e p := p.outside e
  program := program
  crash p := p

abbrev PairConfig (S U K T : Type) := Config (pairSig S U K T) (Pair S U K T) (Task S K T)

abbrev PairLabel (S U K T : Type) := Label (Outside U T) (Task S K T) (Input S U K)

def emptyLedger : Ledger S U K T where
  state := none
  delivery := Table.empty
  born _ := []
  used := []
  routing := []
  opens := 0
  openings := []
  overlooked := false
  unreported := false
  repeated := false
  scribbled := false

def emptyPair : PairConfig S U K T := ⟨⟨Table.empty, [], emptyLedger⟩, none⟩

end Tasks

end Casa.EventPasses
