import Casa.KeyedTable
import Casa.OperationTree
import Mathlib.Order.Lattice
import Mathlib.Data.Nat.Cast.Defs
import Mathlib.Data.List.Dedup
import Mathlib.Algebra.GroupWithZero.Nat

/-! The files of one (emitter, event) pair of the event spool (`event_attempts.py` and
`event_spool.py`): the queued emissions, the generation anchor and one delivery record for
each subscriber, with the file operations casa performs on them and the faults each can have. -/

namespace Casa.EventSpool
open KeyedTable OperationTree

variable {S U K T : Type}

section Records

inductive Outcome where
  | acked
  | revoked
  | removed
  | exhausted
deriving DecidableEq, Repr

/-- `status` and `outcome` together: the validator accepts an outcome with `done` only, and
`done` with an outcome only. -/
inductive Status where
  | pending
  | done (outcome : Outcome)
deriving DecidableEq, Repr

/-- The delivery record of one subscriber. Its keys `v`, `emitter`, `event` and `subscriber` are
left out: the validator pins them to the file's name. -/
structure Record (K T : Type) where
  gen : Nat
  ackToken : K
  mintedTs : T
  status : Status
  nudges : Nat
  lastNudgeTs : Option T
  nextNudgeTs : Option T
  deferrals : Nat
  noted : Bool
  endedTs : Option T
deriving DecidableEq, Repr

/-- The first of `PHASE_OFFSETS` is zero. -/
def newRecord [Add T] [NatCast T] (gen : Nat) (ackToken : K) (now : T) : Record K T where
  gen := gen
  ackToken := ackToken
  mintedTs := now
  status := .pending
  nudges := 0
  lastNudgeTs := none
  nextNudgeTs := some (now + ((0 : Nat) : T))
  deferrals := 0
  noted := false
  endedTs := none

def terminalize (r : Record K T) (outcome : Outcome) (now : T) : Record K T :=
  if r.status = .pending then
    { r with status := .done outcome, endedTs := some now, nextNudgeTs := none }
  else r

@[simp] theorem terminalize_gen (r : Record K T) (outcome : Outcome) (now : T) :
    (terminalize r outcome now).gen = r.gen := by
  rw [terminalize]
  split <;> rfl

/-- The generation anchor under `state/`. -/
structure Anchor (S U T : Type) where
  gen : Nat
  cohort : List S
  folded : List U
  openedTs : T
deriving DecidableEq, Repr

/-- `FOLD_BATCH_MAX` and `MARKER_STATE_MAX_BYTES`. -/
def foldBatchMax : Nat := 64
def markerStateMaxBytes : Nat := 65536

variable [DecidableEq S]

/-- What a written anchor reads back as: `_read_marker_at` refuses a file over its bound, which
the writer does not know, and `_validate_state` a generation below one and a repeated member.
`bytes` is the length of the canonical encoding. -/
def Anchor.reads (bytes : Anchor S U T → Nat) (a : Anchor S U T) : Bool :=
  decide (bytes a ≤ markerStateMaxBytes) && decide (1 ≤ a.gen) && decide a.cohort.Nodup

end Records

section Files

/-- What a file under `state/` holds: what casa wrote, or anything else. -/
inductive StateFile (S U T : Type) where
  | scribbled
  | anchor (a : Anchor S U T)
deriving DecidableEq, Repr

inductive DeliveryFile (K T : Type) where
  | scribbled
  | record (r : Record K T)
deriving DecidableEq, Repr

abbrev Emissions (U T : Type) := Table (fun e : U × T => e.1)
abbrev Deliveries (S K T : Type) := Table (fun e : S × DeliveryFile K T => e.1)
abbrev Records (S K T : Type) := Table (fun e : S × Record K T => e.1)

/-- The anchor and the delivery records, and below them what happened so far, which no code
reads: the emissions that were queued when a subscriber's record was minted, the ack tokens of
all mints, the routed set of the latest fold pass, how many generations that pass opened, every
generation opened with the routed set of its pass. The last four say whether a scan missed the
records because its listing failed, whether REPAIR was told of a failure although its write
landed, whether a token came twice, and whether somebody else has written the anchor's file. -/
structure Ledger (S U K T : Type) where
  state : Option (StateFile S U T)
  delivery : Deliveries S K T
  born : S → List U
  used : List K
  routing : List S
  opens : Nat
  openings : List (Nat × List S)
  overlooked : Bool
  unreported : Bool
  repeated : Bool
  scribbled : Bool

/-- One pair: its queue, every token ever queued, and its ledger. -/
structure Pair (S U K T : Type) where
  emissions : Emissions U T
  emitted : List U
  ledger : Ledger S U K T

namespace Ledger
variable [DecidableEq S] (l : Ledger S U K T)

def anchor : Option (Anchor S U T) :=
  match l.state with
  | some (.anchor a) => some a
  | _ => none

def recordOf (s : S) : Option (Record K T) :=
  match l.delivery.get? s with
  | some (_, .record r) => some r
  | _ => none

def PendingAt (s : S) (gen : Nat) : Prop :=
  ∃ r, l.recordOf s = some r ∧ r.gen = gen ∧ r.status = .pending

instance (s : S) (gen : Nat) : Decidable (l.PendingAt s gen) :=
  decidable_of_iff
    ((l.recordOf s).any (fun r => decide (r.gen = gen) && decide (r.status = .pending)) = true) (by
      rw [Option.any_eq_true]
      simp only [Bool.and_eq_true, decide_eq_true_eq]
      rfl)

def gen : Nat := (l.anchor.map Anchor.gen).getD 0

end Ledger

end Files

section Operations

inductive StateSite where
  | reconstructed
  | opened
deriving DecidableEq, Repr

/-- The places that write a delivery record: REPAIR and OPEN of the fold mint one, the
others rewrite the one they have read. -/
inductive DeliverySite where
  | repaired
  | opened
  | rewritten
deriving DecidableEq, Repr

inductive Disposal where
  | folded
  | swept
deriving DecidableEq, Repr

/-- The operations on one pair. `enter` marks where an authoritative fold pass takes up the
pair; `scan` is `_scan_delivery_records`, `listDelivery` and `listEmissions` are the plain
listings. -/
inductive PairOp (S U K T : Type) where
  | enter (routed : List S)
  | openDir
  | readState
  | scan
  | quarantineState
  | writeState (site : StateSite) (a : Anchor S U T)
  | newToken
  | writeDelivery (site : DeliverySite) (s : S) (r : Record K T)
  | reprove (names : List S)
  | listEmissions
  | unlinkEmission (disposal : Disposal) (u : U)
  | listDelivery
  | readDelivery (s : S)
  | quarantineDelivery (s : S)
  | unlinkDelivery (s : S)
  | writeRemovalRecord (s : S)

/-- `Marker` after validation. -/
inductive Marker (α : Type) where
  | unreadable
  | absent
  | invalid
  | present (a : α)
deriving DecidableEq, Repr

def Marker.isUnreadable {α : Type} : Marker α → Bool
  | .unreadable => true
  | _ => false

def PairOp.Answer : PairOp S U K T → Type
  | .enter _ => PUnit
  | .readState => Marker (Anchor S U T)
  | .scan => Records S K T × Bool
  | .newToken => K
  | .listEmissions => List (U × T)
  | .listDelivery => List S
  | .readDelivery _ => Marker (Record K T)
  | _ => Bool

def pairSig (S U K T : Type) : Signature := ⟨PairOp S U K T, PairOp.Answer⟩

/-- What the system decides: whether the call reports success, whether a rename has landed,
which delivery files can be read, which emissions a listing shows, and a fresh token. -/
structure Input (S U K : Type) where
  ok : Bool
  landed : Bool
  reads : S → Bool
  sees : U → Bool
  token : K

def validRecord (reads : S → Bool) : S × DeliveryFile K T → Option (S × Record K T)
  | (s, .record r) => if reads s then some (s, r) else none
  | (_, .scribbled) => none

theorem validRecord_key (reads : S → Bool) (e : S × DeliveryFile K T) (f : S × Record K T)
    (h : validRecord reads e = some f) : f.1 = e.1 := by
  obtain ⟨s, file⟩ := e
  cases file with
  | scribbled => cases h
  | record r =>
    rw [validRecord] at h
    split at h
    · cases h; rfl
    · cases h

variable [DecidableEq S] [DecidableEq U] [DecidableEq K]

def validRecords (reads : S → Bool) (files : Deliveries S K T) : Records S K T :=
  files.pick (validRecord reads) (validRecord_key reads)

namespace Ledger
variable (l : Ledger S U K T)

def enter (routed : List S) : Ledger S U K T := { l with routing := routed, opens := 0 }

def scribble : Ledger S U K T := { l with state := some .scribbled, scribbled := true }

def writeState (a : Anchor S U T) : StateSite → Ledger S U K T
  | .reconstructed => { l with state := some (.anchor a) }
  | .opened =>
      { l with
        state := some (.anchor a)
        opens := l.opens + 1
        openings := (a.gen, l.routing) :: l.openings }

def writeDelivery (emitted : List U) (s : S) (r : Record K T) : DeliverySite → Ledger S U K T
  | .rewritten => { l with delivery := l.delivery.put (s, .record r) }
  | _ =>
      { l with
        delivery := l.delivery.put (s, .record r)
        born := fun t => if t = s then emitted else l.born t
        used := r.ackToken :: l.used }

end Ledger

def stateMarker (bytes : Anchor S U T → Nat) : Option (StateFile S U T) → Marker (Anchor S U T)
  | none => .absent
  | some .scribbled => .invalid
  | some (.anchor a) => if a.reads bytes then .present a else .invalid

def deliveryMarker : Option (S × DeliveryFile K T) → Marker (Record K T)
  | none => .absent
  | some (_, .scribbled) => .invalid
  | some (_, .record r) => .present r

/-- The operations. `_strict_replace_at` can fail before its rename or after it, so a write that
reports failure may have landed; a listing that fails shows nothing. -/
def runPair (bytes : Anchor S U T → Nat) :
    Device (pairSig S U K T) (Input S U K) (Pair S U K T)
  | .enter routed, _, p => ((⟨⟩ : PUnit), { p with ledger := p.ledger.enter routed })
  | .openDir, i, p => (i.ok, p)
  | .readState, i, p =>
      (if i.ok then stateMarker bytes p.ledger.state else Marker.unreadable, p)
  | .scan, i, p =>
      if i.ok then
        ((validRecords i.reads p.ledger.delivery,
          p.ledger.delivery.rows.any fun e => !i.reads e.1), p)
      else
        (((Table.empty, false) : Records S K T × Bool),
          { p with ledger := { p.ledger with overlooked := true } })
  | .quarantineState, i, p =>
      if i.ok then (true, { p with ledger := { p.ledger with state := none } }) else (false, p)
  | .writeState site a, i, p =>
      if i.landed then (i.ok, { p with ledger := p.ledger.writeState a site }) else (false, p)
  | .newToken, i, p =>
      (i.token,
        { p with
          ledger :=
            { p.ledger with repeated := p.ledger.repeated || decide (i.token ∈ p.ledger.used) } })
  | .writeDelivery site s r, i, p =>
      if i.landed then
        (i.ok,
          { p with
            ledger :=
              { p.ledger.writeDelivery p.emitted s r site with
                unreported := p.ledger.unreported || (decide (site = .repaired) && !i.ok) } })
      else (false, p)
  | .reprove names, i, p =>
      (i.ok && names.all fun s => (p.ledger.delivery.get? s).isSome, p)
  | .listEmissions, i, p =>
      ((if i.ok then p.emissions.rows.filter fun e => i.sees e.1 else [] : List (U × T)), p)
  | .unlinkEmission _ u, i, p =>
      if i.ok then
        ((p.emissions.get? u).isSome, { p with emissions := p.emissions.remove u })
      else (false, p)
  | .listDelivery, i, p =>
      ((if i.ok then p.ledger.delivery.rows.map fun e => e.1 else [] : List S), p)
  | .readDelivery s, i, p =>
      (if i.ok then deliveryMarker (p.ledger.delivery.get? s) else Marker.unreadable, p)
  | .quarantineDelivery s, i, p | .unlinkDelivery s, i, p =>
      if i.ok then
        ((p.ledger.delivery.get? s).isSome,
          { p with ledger := { p.ledger with delivery := p.ledger.delivery.remove s } })
      else (false, p)
  | .writeRemovalRecord _, i, p => (i.ok, p)

/-- What others do to the files: a plugin queues an emission, whose token is new when it does,
or something spoils the anchor's file. -/
inductive Outside (U T : Type) where
  | emit (u : U) (mtime : T)
  | scribble

def Pair.outside (p : Pair S U K T) : Outside U T → Pair S U K T
  | .emit u mtime =>
      if u ∈ p.emitted then p
      else { p with emissions := p.emissions.put (u, mtime), emitted := u :: p.emitted }
  | .scribble => { p with ledger := p.ledger.scribble }

end Operations

end Casa.EventSpool
