import Mathlib.Order.Lattice
import Mathlib.Data.Nat.Cast.Defs
import Mathlib.Algebra.GroupWithZero.Nat

/-! The per-flow attempt record of the callback spool and its nudge schedule
(`callback_attempts.py`). Clocks are any linear order with the few operations the code
uses; a record here is one that `validate_attempt` accepts. -/

namespace Casa.CallbackAttempts

variable {T M : Type}

inductive Outcome where
  | collected
  | expired
  | expiredUnread
  | publishFailed
  | evicted
deriving DecidableEq, Repr

/-- `status` and `outcome` together: the validator accepts an outcome with `done` only, and
`done` with an outcome only. -/
inductive Status where
  | awaitingRedirect
  | resultReady
  | done (outcome : Outcome)
deriving DecidableEq, Repr

def Status.isDone : Status → Bool
  | .done _ => true
  | _ => false

def maxNudges : Nat := 6

/-- `RESULT_PHASE_OFFSETS`, from the publish time of the result. -/
def resultPhaseOffsets : List Nat := [0, 60, 180, 480]

/-- `OUTCOME_PHASE_OFFSETS`, from `ended_ts`. -/
def outcomePhaseOffsets : List Nat := [1800, 7200]

def deferralBaseS : Nat := 60
def deferralCapS : Nat := 1800
def deferralMaxShift : Nat := 32

def attemptRetentionS : Nat := 7 * 24 * 3600

/-- The record of one flow. Its keys `v` and `state_hash` are left out: the validator pins
both to the file's name. -/
structure Attempt (T M : Type) where
  mintedTs : Option T
  status : Status
  claimed : Bool
  metaInfo : Option M
  nudges : Nat
  lastNudgeTs : Option T
  nextNudgeTs : Option T
  deferrals : Nat
  noted : Bool
  endedTs : Option T
deriving DecidableEq, Repr

section Clocks
variable [LinearOrder T] [Add T] [NatCast T]

def newAttempt (mintedTs : Option T) (status : Status) (metaInfo : Option M) (claimed : Bool)
    (now : T) : Attempt T M where
  mintedTs := mintedTs
  status := status
  claimed := claimed
  metaInfo := metaInfo
  nudges := 0
  lastNudgeTs := none
  nextNudgeTs := if status = .resultReady then some (now + ((0 : Nat) : T)) else none
  deferrals := 0
  noted := false
  endedTs := none

/-- A record that is terminal with this outcome already keeps its clock and its schedule. -/
def terminalize (a : Attempt T M) (outcome : Outcome) (now : T) (claimed : Option Bool) :
    Attempt T M :=
  let out := { a with claimed := claimed.getD a.claimed }
  if a.status = .done outcome then out
  else
    { out with
      status := .done outcome
      endedTs := some now
      nextNudgeTs :=
        if outcome ≠ .collected ∧ a.nudges < maxNudges then some (now + ((1800 : Nat) : T))
        else none }

/-- Outer `none`: a terminal record without `ended_ts` makes the addition raise. -/
def nextNudgeAfterAccept (a : Attempt T M) (now : T) (anchorTs : Option T) : Option (Option T) :=
  if a.status = .done .collected then some none
  else if maxNudges ≤ a.nudges + 1 then some none
  else
    match a.nextNudgeTs with
    | none => some none
    | some current =>
        if a.status.isDone then
          match a.endedTs with
          | none => none
          | some ended =>
              let slots := outcomePhaseOffsets.map fun (offset : Nat) => ended + (offset : T)
              some (slots.find? fun slot => current < slot)
        else
          match resultPhaseOffsets[a.nudges]?, resultPhaseOffsets[a.nudges + 1]? with
          | some here, some next =>
              match anchorTs with
              | some anchor => some (some (max now (anchor + (next : T))))
              | none => some (some (current + ((next - here : Nat) : T)))
          | _, _ => some none

def nextNudgeAfterReject (a : Attempt T M) (now : T) : T :=
  if deferralMaxShift ≤ a.deferrals then now + (deferralCapS : T)
  else now + ((min deferralCapS (deferralBaseS * 2 ^ a.deferrals) : Nat) : T)

end Clocks

section Facts
variable [Add T] [NatCast T]
variable (a : Attempt T M) (outcome : Outcome) (now : T) (claimed : Option Bool)

@[simp] theorem terminalize_status :
    (terminalize a outcome now claimed).status = .done outcome := by
  rw [terminalize]
  split
  · next same => exact same
  · rfl

@[simp] theorem terminalize_nudges : (terminalize a outcome now claimed).nudges = a.nudges := by
  rw [terminalize]
  split <;> rfl

end Facts

end Casa.CallbackAttempts
