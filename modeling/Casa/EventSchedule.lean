import Casa.CallbackAttempts
import Casa.EventSpool

/-! The nudge schedule of a delivery record (`event_attempts.py`): one ladder of offsets, all
counted from `minted_ts`, and the deferral of a rejected dispatch. -/

namespace Casa.EventSchedule
open EventSpool

variable {K T : Type} [LinearOrder T] [Add T] [NatCast T]

def phaseOffsets : List Nat := [0, 300, 1800, 7200, 21600, 86400]

/-- `MAX_NUDGES`, one for each offset. -/
def maxNudges : Nat := phaseOffsets.length

def deferralBaseS : Nat := 60
def deferralCapS : Nat := 1800
def deferralMaxShift : Nat := 32

def nextNudgeAfterAccept (r : Record K T) (now : T) : Option T :=
  if r.status ≠ .pending then none
  else if below : r.nudges + 1 < maxNudges then
    some (max now (r.mintedTs + (phaseOffsets.get ⟨r.nudges + 1, below⟩ : T)))
  else none

def nextNudgeAfterReject (r : Record K T) (now : T) : T :=
  if deferralMaxShift ≤ r.deferrals then now + (deferralCapS : T)
  else now + ((min deferralCapS (deferralBaseS * 2 ^ r.deferrals) : Nat) : T)

end Casa.EventSchedule
