import Casa.NudgeRules
import Casa.PythonValue

/-! The validators of the two ledgers, `validate_attempt` and `validate_record`: which JSON
objects they take for a record, and that what they take can be computed with. -/

namespace Casa.AttemptSchema
open PythonValue RoundedClock

/-- A Python `float`, by its value. -/
inductive Reading where
  | finite (q : ℚ)
  | nan
  | infinite (negative : Bool)

abbrev Value := Json Reading

def tsAbsMax : ℕ := 10 ^ 15

section Fields
variable {R : Rounding}

/-- A number within `TS_ABS_MAX` that is finite and no `bool`; or `None`, where it is allowed. -/
def isTs (allowNone : Bool) : Value → Bool
  | .null => allowNone
  | .int n => -(tsAbsMax : ℤ) ≤ n ∧ n ≤ tsAbsMax
  | .float (.finite q) => -(tsAbsMax : ℚ) ≤ q ∧ q ≤ tsAbsMax
  | _ => false

/-- A clock is its number, `int` and `float` alike. -/
def clock : Value → Option (Seconds R)
  | .int n => some ⟨n⟩
  | .float (.finite q) => some ⟨q⟩
  | _ => none

def ofClock : Option (Seconds R) → Value := Json.ofOption fun t => .float (.finite t.value)

/-- `obj["v"]` is a `1` that is no `bool`. -/
def isVersion : Value → Bool
  | .int n => n = 1
  | .float (.finite q) => q = 1
  | _ => false

def asText : Value → Option String
  | .str s => some s
  | _ => none

def asBool : Value → Option Bool
  | .bool b => some b
  | _ => none

/-- A non-negative `int`. -/
def asCount : Value → Option ℕ
  | .int (.ofNat n) => some n
  | _ => none

/-- `set(obj) == keys`. -/
def sameKeys (keys : List String) (fields : List (String × Value)) : Bool :=
  fields.all (fun f => f.1 ∈ keys) && keys.all fun key => (Json.field? fields key).isSome

/-- `re.match` of an expression that ends in `$`, which also stands before a last newline. -/
def matchesLine (form : List Char → Bool) (s : String) : Bool :=
  form s.toList || (s.toList.getLast? = some '\n' && form s.toList.dropLast)

theorem clock_ofClock (t : Option (Seconds R)) : clock (ofClock t) = t := by
  cases t <;> rfl

theorem isTs_ofClock (t : Option (Seconds R)) :
    isTs true (ofClock t) = true ↔ ∀ x, t = some x → x.Within tsAbsMax := by
  cases t with
  | none => exact ⟨fun _ => nofun, fun _ => rfl⟩
  | some t => simp [ofClock, Json.ofOption, isTs, Seconds.Within, abs_le]

theorem isTs_required (t : Seconds R) :
    isTs false (ofClock (some t)) = true ↔ t.Within tsAbsMax := by
  simp [ofClock, Json.ofOption, isTs, Seconds.Within, abs_le]

theorem within_of_isTs {allowNone : Bool} {x : Value} {t : Seconds R}
    (ok : isTs allowNone x = true) (read : clock x = some t) : t.Within tsAbsMax := by
  unfold clock at read
  split at read
  · next n =>
    obtain rfl := Option.some.inj read
    simp only [isTs, Bool.decide_and, Bool.and_eq_true, decide_eq_true_eq] at ok
    rw [Seconds.Within, abs_le]
    change -(tsAbsMax : ℚ) ≤ (n : ℚ) ∧ (n : ℚ) ≤ (tsAbsMax : ℚ)
    exact ⟨by exact_mod_cast ok.1, by exact_mod_cast ok.2⟩
  · obtain rfl := Option.some.inj read
    simp only [isTs, Bool.decide_and, Bool.and_eq_true, decide_eq_true_eq] at ok
    rw [Seconds.Within, abs_le]
    exact ok
  · cases read

end Fields

/-- Far enough from `TS_ABS_MAX` for every offset of a schedule. -/
def Roomy {R : Rounding} (t : Seconds R) : Prop := t.Within (tsAbsMax - 86400)

theorem Roomy.within {R : Rounding} {t : Seconds R} (h : Roomy t) : t.Within tsAbsMax :=
  Seconds.Within.mono h (Nat.sub_le ..)

theorem Roomy.add {R : Rounding} {t : Seconds R} (h : Roomy t) {offset : ℕ}
    (small : offset ≤ 86400) : (t + (offset : Seconds R)).Within tsAbsMax :=
  Seconds.Within.add h (by unfold tsAbsMax; omega) (by unfold tsAbsMax; omega)

/-! ### The consumer's `meta` -/

/-- What bounds the interpreter's JSON: the nesting its writer and its reader go into, and the
digits of an `int` it turns into text. -/
structure Limits where
  dumpsDepth : ℕ
  loadsDepth : ℕ
  intDigits : ℕ

mutual

def depth : Value → ℕ
  | .arr items => depthItems items + 1
  | .obj fields => depthFields fields + 1
  | _ => 0

def depthItems : List Value → ℕ
  | [] => 0
  | x :: rest => max (depth x) (depthItems rest)

def depthFields : List (String × Value) → ℕ
  | [] => 0
  | (_, x) :: rest => max (depth x) (depthFields rest)

end

mutual

def emittable (L : Limits) : Value → Bool
  | .int n => n.natAbs < 10 ^ L.intDigits
  | .float (.finite _) => true
  | .float _ => false
  | .arr items => emittableItems L items
  | .obj fields => emittableFields L fields
  | _ => true

def emittableItems (L : Limits) : List Value → Bool
  | [] => true
  | x :: rest => emittable L x && emittableItems L rest

def emittableFields (L : Limits) : List (String × Value) → Bool
  | [] => true
  | (_, x) :: rest => emittable L x && emittableFields L rest

end

/-- `_canonical_text` raises nothing. -/
def writableMeta (L : Limits) (x : Value) : Bool := depth x ≤ L.dumpsDepth && emittable L x

def safeMeta (L : Limits) (x : Value) : Option Value :=
  match x with
  | .null => none
  | x => if writableMeta L x && depth x ≤ L.loadsDepth then some x else none

theorem writableMeta_null (L : Limits) : writableMeta L .null = true := by
  simp [writableMeta, depth, emittable]

theorem safeMeta_again {L : Limits} {x m : Value} (h : safeMeta L x = some m) :
    safeMeta L m = some m ∧ writableMeta L m = true := by
  have same : x = m := by
    unfold safeMeta at h
    split at h
    · cases h
    · split at h
      · exact Option.some.inj h
      · cases h
  subst same
  refine ⟨h, ?_⟩
  unfold safeMeta at h
  split at h
  · cases h
  · split at h
    · next ok => exact (Bool.and_eq_true_iff.mp ok).1
    · cases h

/-! ### Authorization attempts -/

section Attempts
open CallbackAttempts
variable {R : Rounding}

def attemptKeys : List String :=
  ["v", "state_hash", "minted_ts", "status", "outcome", "claimed", "meta", "nudges",
    "last_nudge_ts", "next_nudge_ts", "deferrals", "noted", "ended_ts"]

def outcomeName : Outcome → String
  | .collected => "collected"
  | .expired => "expired"
  | .expiredUnread => "expired_unread"
  | .publishFailed => "publish_failed"
  | .evicted => "evicted"

def outcomes : List Outcome := [.collected, .expired, .expiredUnread, .publishFailed, .evicted]

/-- `_HASH_RE`. -/
def hashForm (cs : List Char) : Bool :=
  cs.length = 64 && cs.all fun c => c.isDigit || ('a' ≤ c && c ≤ 'f')

/-- The gates on `status` and `outcome`: an outcome stands with `done` only, and `done` with an
outcome only. An outcome that cannot be hashed raises, which refuses the record as well. -/
def readStatus : Value → Value → Option Status
  | .str "awaiting_redirect", .null => some .awaitingRedirect
  | .str "result_ready", .null => some .resultReady
  | .str "done", .str name => (outcomes.find? fun o => outcomeName o = name).map .done
  | _, _ => none

/-- A record of 13 keys; `v` is kept as it was written. -/
structure AttemptRow (R : Rounding) where
  v : Value
  stateHash : String
  attempt : Attempt (Seconds R) Value

def validateAttempt (L : Limits) (expectHash : Option String) : Value → Option (AttemptRow R)
  | .obj fields =>
      let get := Json.get fields
      let times := ["minted_ts", "last_nudge_ts", "next_nudge_ts", "ended_ts"]
      if sameKeys attemptKeys fields && isVersion (get "v") && times.all (isTs true <| get ·) &&
          writableMeta L (get "meta") then do
        let stateHash ← asText (get "state_hash")
        let status ← readStatus (get "status") (get "outcome")
        let claimed ← asBool (get "claimed")
        let noted ← asBool (get "noted")
        let nudges ← asCount (get "nudges")
        let deferrals ← asCount (get "deferrals")
        if matchesLine hashForm stateHash && expectHash.all (· = stateHash) then
          some ⟨get "v", stateHash, {
            mintedTs := clock (get "minted_ts")
            status, claimed
            metaInfo := safeMeta L (get "meta")
            nudges
            lastNudgeTs := clock (get "last_nudge_ts")
            nextNudgeTs := clock (get "next_nudge_ts")
            deferrals, noted
            endedTs := clock (get "ended_ts") }⟩
        else none
      else none
  | _ => none

def statusName : Status → String
  | .awaitingRedirect => "awaiting_redirect"
  | .resultReady => "result_ready"
  | .done _ => "done"

def ofOutcome : Status → Value
  | .done outcome => .str (outcomeName outcome)
  | _ => .null

def AttemptRow.fields (row : AttemptRow R) : List (String × Value) :=
  [("v", row.v), ("state_hash", .str row.stateHash), ("minted_ts", ofClock row.attempt.mintedTs),
    ("status", .str (statusName row.attempt.status)), ("outcome", ofOutcome row.attempt.status),
    ("claimed", .bool row.attempt.claimed), ("meta", row.attempt.metaInfo.getD .null),
    ("nudges", .int row.attempt.nudges), ("last_nudge_ts", ofClock row.attempt.lastNudgeTs),
    ("next_nudge_ts", ofClock row.attempt.nextNudgeTs), ("deferrals", .int row.attempt.deferrals),
    ("noted", .bool row.attempt.noted), ("ended_ts", ofClock row.attempt.endedTs)]

theorem readStatus_encode (status : Status) :
    readStatus (.str (statusName status)) (ofOutcome status) = some status := by
  cases status with
  | done outcome => cases outcome <;> rfl
  | _ => rfl

def Timely (a : Attempt (Seconds R) Value) : Prop :=
  ∀ t, a.mintedTs = some t ∨ a.lastNudgeTs = some t ∨ a.nextNudgeTs = some t ∨
    a.endedTs = some t → t.Within tsAbsMax

/-- What no update of the schedule touches is as the validator wants it. -/
structure AttemptRow.Shaped (L : Limits) (expectHash : Option String) (row : AttemptRow R) :
    Prop where
  version : isVersion row.v = true
  hash : matchesLine hashForm row.stateHash = true
  expected : expectHash.all (· = row.stateHash) = true
  carried : row.attempt.metaInfo = safeMeta L (row.attempt.metaInfo.getD .null) ∧
    writableMeta L (row.attempt.metaInfo.getD .null) = true

theorem sameKeys_fields (row : AttemptRow R) : sameKeys attemptKeys row.fields = true := by
  simp [sameKeys, attemptKeys, AttemptRow.fields]

theorem times_fields (row : AttemptRow R) :
    ["minted_ts", "last_nudge_ts", "next_nudge_ts", "ended_ts"].all
      (isTs true <| Json.get row.fields ·) = true ↔ Timely row.attempt := by
  simp only [List.all_cons, List.all_nil, Bool.and_true, Bool.and_eq_true, Json.get,
    AttemptRow.fields, Json.field?_cons, String.reduceEq, if_true, if_false, Option.getD_some,
    isTs_ofClock, Timely, or_imp, forall_and]

/-- Of a well-shaped record only the clocks can be refused, and what is accepted is the record. -/
theorem validate_fields {L : Limits} {expectHash : Option String} {row : AttemptRow R}
    (shaped : row.Shaped L expectHash) (timely : Timely row.attempt) :
    validateAttempt L expectHash (.obj row.fields) = some row := by
  obtain ⟨version, hash, expected, carried, writable⟩ := shaped
  have times := (times_fields row).mpr timely
  have v : Json.get row.fields "v" = row.v := rfl
  have info : Json.get row.fields "meta" = row.attempt.metaInfo.getD .null := by
    simp [Json.get, AttemptRow.fields]
  rw [validateAttempt]
  simp only [sameKeys_fields, times, v, info, version, writable, Bool.and_self, if_true]
  simp only [Json.get, AttemptRow.fields, Json.field?_cons, String.reduceEq, if_true, if_false,
    Option.getD_some, asText, asBool, asCount, readStatus_encode, clock_ofClock, ← carried]
  have identity : (matchesLine hashForm row.stateHash &&
      expectHash.all (· = row.stateHash)) = true := by rw [hash, expected, Bool.and_self]
  exact if_pos identity

theorem timely_of_valid {L : Limits} {expectHash : Option String} (row : AttemptRow R)
    {new : AttemptRow R} (ok : validateAttempt L expectHash (.obj row.fields) = some new) :
    Timely row.attempt := by
  apply (times_fields row).mp
  rw [validateAttempt] at ok
  split at ok
  · next gates =>
    simp only [Bool.and_eq_true] at gates
    exact gates.1.2
  · cases ok

theorem shaped_of_valid {L : Limits} {expectHash : Option String} {obj : Value}
    {row : AttemptRow R} (ok : validateAttempt L expectHash obj = some row) :
    row.Shaped L expectHash ∧ Timely row.attempt := by
  unfold validateAttempt at ok
  split at ok
  · next fields =>
    dsimp only at ok
    split at ok
    · next gates =>
      obtain ⟨stateHash, -, ok⟩ := Option.bind_eq_some_iff.mp ok
      obtain ⟨status, -, ok⟩ := Option.bind_eq_some_iff.mp ok
      obtain ⟨claimed, -, ok⟩ := Option.bind_eq_some_iff.mp ok
      obtain ⟨noted, -, ok⟩ := Option.bind_eq_some_iff.mp ok
      obtain ⟨nudges, -, ok⟩ := Option.bind_eq_some_iff.mp ok
      obtain ⟨deferrals, -, ok⟩ := Option.bind_eq_some_iff.mp ok
      split at ok
      · next identity =>
        obtain rfl := Option.some.inj ok
        simp only [Bool.and_eq_true, List.all_cons, List.all_nil] at gates identity
        obtain ⟨⟨⟨-, version⟩, minted, last, next, ended, -⟩, writable⟩ := gates
        refine ⟨⟨version, identity.1, identity.2, ?_⟩, ?_⟩
        · cases info : safeMeta L (Json.get fields "meta") with
          | none => exact ⟨rfl, writableMeta_null L⟩
          | some m => exact ⟨(safeMeta_again info).1.symm, (safeMeta_again info).2⟩
        · rintro t (read | read | read | read)
          · exact within_of_isTs minted read
          · exact within_of_isTs last read
          · exact within_of_isTs next read
          · exact within_of_isTs ended read
      · cases ok
    · cases ok
  · cases ok

def AttemptRow.put (row : AttemptRow R) (a : Attempt (Seconds R) Value) : AttemptRow R :=
  { row with attempt := a }

theorem accepted_put {L : Limits} {expectHash : Option String} {row : AttemptRow R}
    (shaped : row.Shaped L expectHash) {a : Attempt (Seconds R) Value}
    (same : a.metaInfo = row.attempt.metaInfo) :
    (validateAttempt (R := R) L expectHash (.obj (row.put a).fields)).isSome ↔ Timely a := by
  constructor
  · intro ok
    obtain ⟨new, valid⟩ := Option.isSome_iff_exists.mp ok
    exact timely_of_valid (row.put a) valid
  · intro timely
    have again : (row.put a).Shaped L expectHash := by
      refine ⟨shaped.version, shaped.hash, shaped.expected, ?_⟩
      simp only [AttemptRow.put, same]
      exact shaped.carried
    rw [validate_fields again timely]
    rfl

/-- What the module promises about a validated record: the schedule raises nothing, and each
record its callers write is accepted again. -/
structure AttemptRow.Safe (L : Limits) (expectHash : Option String) (row : AttemptRow R) :
    Prop where
  total : ∀ now anchorTs, (nextNudgeAfterAccept row.attempt now anchorTs).isSome
  accept : ∀ now anchorTs next, Roomy now → (∀ t, anchorTs = some t → Roomy t) →
    nextNudgeAfterAccept row.attempt now anchorTs = some next →
    (validateAttempt (R := R) L expectHash (.obj
      (row.put (NudgeRules.Callback.acceptUpdate row.attempt now next row.attempt)).fields)).isSome
  defer : ∀ now, Roomy now →
    (validateAttempt (R := R) L expectHash
      (.obj (row.put (NudgeRules.Callback.deferUpdate row.attempt now row.attempt)).fields)).isSome
  terminal : ∀ outcome now claimed, Roomy now →
    (validateAttempt (R := R) L expectHash
      (.obj (row.put (terminalize row.attempt outcome now claimed)).fields)).isSome

/-- An accepted dispatch can go on from here: a record that ended has the clock its schedule is
counted from, and the slot the record's own clocks lead to is in range. -/
def Schedulable (a : Attempt (Seconds R) Value) : Prop :=
  a.status ≠ .done .collected → a.nudges + 1 < maxNudges → ∀ current, a.nextNudgeTs = some current →
    if a.status.isDone then
      ∃ ended, a.endedTs = some ended ∧
        (current < ended + ((1800 : ℕ) : Seconds R) →
          (ended + ((1800 : ℕ) : Seconds R)).Within tsAbsMax) ∧
        (ended + ((1800 : ℕ) : Seconds R) ≤ current → current < ended + ((7200 : ℕ) : Seconds R) →
          (ended + ((7200 : ℕ) : Seconds R)).Within tsAbsMax)
    else
      ∀ here next, resultPhaseOffsets[a.nudges]? = some here →
        resultPhaseOffsets[a.nudges + 1]? = some next →
        (current + ((next - here : ℕ) : Seconds R)).Within tsAbsMax

theorem timely_accept {a : Attempt (Seconds R) Value} (timely : Timely a) {now : Seconds R}
    (room : Roomy now) (next : Option (Seconds R)) :
    Timely (NudgeRules.Callback.acceptUpdate a now next a) ↔
      ∀ t, next = some t → t.Within tsAbsMax := by
  constructor
  · intro new t at_
    exact new t (.inr (.inr (.inl at_)))
  · rintro fits t (minted | last | sched | ended)
    · exact timely t (.inl minted)
    · obtain rfl := Option.some.inj last
      exact room.within
    · exact fits t sched
    · exact timely t (.inr (.inr (.inr ended)))

theorem deferral_small (deferrals : ℕ) : min deferralCapS (deferralBaseS * 2 ^ deferrals) ≤ 86400 :=
  (Nat.min_le_left ..).trans (by decide)

theorem timely_defer {a : Attempt (Seconds R) Value} (timely : Timely a) {now : Seconds R}
    (room : Roomy now) : Timely (NudgeRules.Callback.deferUpdate a now a) := by
  rintro t (minted | last | sched | ended)
  · exact timely t (.inl minted)
  · exact timely t (.inr (.inl last))
  · obtain rfl := Option.some.inj sched
    rw [nextNudgeAfterReject]
    split
    · exact room.add (by decide)
    · exact room.add (deferral_small _)
  · exact timely t (.inr (.inr (.inr ended)))

theorem timely_terminalize {a : Attempt (Seconds R) Value} (timely : Timely a) {now : Seconds R}
    (room : Roomy now) (outcome : Outcome) (claimed : Option Bool) :
    Timely (terminalize a outcome now claimed) := by
  unfold terminalize
  split
  · exact timely
  · rintro t (minted | last | sched | ended)
    · exact timely t (.inl minted)
    · exact timely t (.inr (.inl last))
    · simp only [Option.ite_none_right_eq_some, Option.some.injEq] at sched
      rw [← sched.2]
      exact room.add (by decide)
    · obtain rfl := Option.some.inj ended
      exact room.within

section Slots
variable {a : Attempt (Seconds R) Value} (live : a.status ≠ .done .collected)
  (left : a.nudges + 1 < maxNudges) {current : Seconds R} (sched : a.nextNudgeTs = some current)
  (now : Seconds R) (anchorTs : Option (Seconds R))
include live left sched

/-- After the end of the flow the next slot is the first one later than the one just spent. -/
theorem accept_ended (ended : a.status.isDone = true) :
    nextNudgeAfterAccept a now anchorTs = a.endedTs.map fun ended =>
      if current < ended + ((1800 : ℕ) : Seconds R) then some (ended + ((1800 : ℕ) : Seconds R))
      else if current < ended + ((7200 : ℕ) : Seconds R) then
        some (ended + ((7200 : ℕ) : Seconds R))
      else none := by
  rw [nextNudgeAfterAccept, if_neg live, if_neg (Nat.not_le.mpr left), sched]
  simp only [ended, if_true]
  cases a.endedTs with
  | none => rfl
  | some ended =>
    simp only [outcomePhaseOffsets, List.map_cons, List.map_nil, List.find?_cons, List.find?_nil,
      Option.map_some]
    by_cases first : current < ended + ((1800 : ℕ) : Seconds R)
    · simp only [first, decide_true, if_true]
    · by_cases second : current < ended + ((7200 : ℕ) : Seconds R) <;>
        simp only [first, second, decide_true, decide_false, if_true, if_false]

/-- Before it, the next slot is counted from the result's own clock if that is still there. -/
theorem accept_open (open_ : a.status.isDone ≠ true) {here next : ℕ}
    (atHere : resultPhaseOffsets[a.nudges]? = some here)
    (atNext : resultPhaseOffsets[a.nudges + 1]? = some next) :
    nextNudgeAfterAccept a now anchorTs = some (match anchorTs with
      | some anchor => some (max now (anchor + (next : Seconds R)))
      | none => some (current + ((next - here : ℕ) : Seconds R))) := by
  rw [nextNudgeAfterAccept, if_neg live, if_neg (Nat.not_le.mpr left), sched]
  simp only [if_neg open_, atHere, atNext]
  cases anchorTs <;> rfl

theorem accept_spent (open_ : a.status.isDone ≠ true)
    (none_ : resultPhaseOffsets[a.nudges + 1]? = none) :
    nextNudgeAfterAccept a now anchorTs = some none := by
  rw [nextNudgeAfterAccept, if_neg live, if_neg (Nat.not_le.mpr left), sched]
  simp only [if_neg open_, none_]
  cases resultPhaseOffsets[a.nudges]? <;> rfl

end Slots

theorem accept_idle {a : Attempt (Seconds R) Value} (now : Seconds R)
    (anchorTs : Option (Seconds R))
    (idle : a.status = .done .collected ∨ maxNudges ≤ a.nudges + 1 ∨ a.nextNudgeTs = none) :
    nextNudgeAfterAccept a now anchorTs = some none := by
  unfold nextNudgeAfterAccept
  split
  · rfl
  · split
    · rfl
    · next live left =>
      rw [(idle.resolve_left live).resolve_left left]

theorem offset_small {n next : ℕ} (found : resultPhaseOffsets[n]? = some next) :
    next ≤ 86400 := by
  have mem := List.mem_of_getElem? found
  simp only [resultPhaseOffsets, List.mem_cons, List.not_mem_nil, or_false] at mem
  omega

theorem offset_before {n next : ℕ} (found : resultPhaseOffsets[n + 1]? = some next) :
    ∃ here, resultPhaseOffsets[n]? = some here := by
  obtain ⟨below, -⟩ := List.getElem?_eq_some_iff.mp found
  exact ⟨_, List.getElem?_eq_getElem (Nat.lt_of_succ_lt below)⟩

theorem Schedulable.slot {a : Attempt (Seconds R) Value} (ok : Schedulable a) (now : Seconds R)
    (anchorTs : Option (Seconds R)) :
    ∃ next, nextNudgeAfterAccept a now anchorTs = some next ∧
      (Roomy now → (∀ t, anchorTs = some t → Roomy t) →
        ∀ t, next = some t → t.Within tsAbsMax) := by
  by_cases idle : a.status = .done .collected ∨ maxNudges ≤ a.nudges + 1 ∨ a.nextNudgeTs = none
  · exact ⟨none, accept_idle now anchorTs idle, fun _ _ => nofun⟩
  · simp only [not_or, Nat.not_le] at idle
    obtain ⟨live, left, some_⟩ := idle
    obtain ⟨current, sched⟩ := Option.ne_none_iff_exists'.mp some_
    have able := ok live left current sched
    by_cases ended : a.status.isDone = true
    · rw [if_pos ended] at able
      obtain ⟨at_, set_, first, second⟩ := able
      refine ⟨_, by rw [accept_ended live left sched now anchorTs ended, set_]; rfl,
        fun _ _ t found => ?_⟩
      dsimp only at found
      split at found
      · next early =>
        obtain rfl := Option.some.inj found
        exact first early
      · next missed =>
        simp only [Option.ite_none_right_eq_some, Option.some.injEq] at found
        obtain ⟨later, rfl⟩ := found
        exact second (not_lt.mp missed) later
    · rw [if_neg ended] at able
      cases atNext : resultPhaseOffsets[a.nudges + 1]? with
      | none =>
        exact ⟨none, accept_spent live left sched now anchorTs ended atNext, fun _ _ => nofun⟩
      | some next =>
        obtain ⟨here, atHere⟩ := offset_before atNext
        refine ⟨_, accept_open live left sched now anchorTs ended atHere atNext,
          fun room anchored t found => ?_⟩
        cases anchorTs with
        | none =>
          obtain rfl := Option.some.inj found
          exact able here next atHere atNext
        | some anchor =>
          obtain rfl := Option.some.inj found
          exact room.within.max ((anchored _ rfl).add (offset_small atNext))

/-- A validated record keeps the promise exactly when an accepted dispatch can go on from it. -/
theorem safe_iff {L : Limits} {expectHash : Option String} {row : AttemptRow R}
    (shaped : row.Shaped L expectHash) (timely : Timely row.attempt) :
    row.Safe L expectHash ↔ Schedulable row.attempt := by
  constructor
  · intro safe live left current sched
    have room : Roomy (⟨0⟩ : Seconds R) := by simp [Roomy, Seconds.Within]
    have fits : ∀ next, nextNudgeAfterAccept row.attempt ⟨0⟩ none = some next →
        ∀ t, next = some t → t.Within tsAbsMax := by
      intro next found
      have accepted := safe.accept ⟨0⟩ none next room nofun found
      rw [accepted_put shaped] at accepted
      · exact (timely_accept timely room next).mp accepted
      · rfl
    split
    · next ended =>
      have total := safe.total ⟨0⟩ none
      rw [accept_ended live left sched _ _ ended] at total fits
      cases set_ : row.attempt.endedTs with
      | none =>
        rw [set_] at total
        cases total
      | some at_ =>
        have slot := fits _ (by rw [set_]; rfl)
        refine ⟨at_, rfl, fun early => ?_, fun missed later => ?_⟩
        · exact slot _ (if_pos early)
        · exact slot _ ((if_neg (not_lt.mpr missed)).trans (if_pos later))
    · next open_ =>
      intro here next atHere atNext
      exact fits _ (accept_open live left sched ⟨0⟩ none open_ atHere atNext) _ rfl
  · intro able
    refine ⟨fun now anchorTs => ?_, fun now anchorTs next room anchored found => ?_,
      fun now room => ?_, fun outcome now claimed room => ?_⟩
    · obtain ⟨next, found, -⟩ := able.slot now anchorTs
      rw [found]
      rfl
    · obtain ⟨slot, found', fits⟩ := able.slot now anchorTs
      obtain rfl : slot = next := Option.some.inj (found'.symm.trans found)
      rw [accepted_put shaped]
      · exact (timely_accept timely room slot).mpr (fits room anchored)
      · rfl
    · rw [accepted_put shaped]
      · exact timely_defer timely room
      · rfl
    · rw [accepted_put shaped]
      · exact timely_terminalize timely room outcome claimed
      · unfold terminalize
        split <;> rfl

end Attempts

/-! ### Event deliveries -/

section Records
open EventSpool EventSchedule
variable {R : Rounding}

def recordKeys : List String :=
  ["v", "emitter", "event", "subscriber", "gen", "ack_token", "minted_ts", "status", "outcome",
    "nudges", "last_nudge_ts", "next_nudge_ts", "deferrals", "noted", "ended_ts"]

def eventOutcomeName : Outcome → String
  | .acked => "acked"
  | .revoked => "revoked"
  | .removed => "removed"
  | .exhausted => "exhausted"

def eventOutcomes : List Outcome := [.acked, .revoked, .removed, .exhausted]

def isLower (c : Char) : Bool := 'a' ≤ c && c ≤ 'z'

def isSlug (c : Char) : Bool := isLower c || c.isDigit || c = '-'

/-- `[a-z0-9][a-z0-9-]*`. -/
def slugForm : List Char → Bool
  | [] => false
  | c :: cs => (isLower c || c.isDigit) && cs.all isSlug

/-- `_OWNED_PLUGIN_NAME_RE`: two slugs around the first dot, of at most 32 and 40 characters. -/
def ownedForm (cs : List Char) : Bool :=
  let slug := cs.takeWhile (· ≠ '.')
  match cs.dropWhile (· ≠ '.') with
  | [] => false
  | _ :: name => slugForm slug && slug.length ≤ 32 && slugForm name && name.length ≤ 40

def validPluginRef (s : String) : Bool := matchesLine slugForm s || matchesLine ownedForm s

/-- `_EVENT_RE`. -/
def eventForm (cs : List Char) : Bool :=
  cs ≠ [] && cs.all fun c => c.isAlphanum || c = '_' || c = '-'

def validEvent (s : String) : Bool :=
  matchesLine eventForm s && !s.toList.tails.any "--".toList.isPrefixOf && !"-".isPrefixOf s &&
    !"-".toList.isSuffixOf s.toList && !"plg-".isPrefixOf s

def readEventStatus : Value → Value → Option Status
  | .str "pending", .null => some .pending
  | .str "done", .str name => (eventOutcomes.find? fun o => eventOutcomeName o = name).map .done
  | _, _ => none

/-- A record of 15 keys; `v` is kept as it was written. -/
structure RecordRow (R : Rounding) where
  v : Value
  emitter : String
  event : String
  subscriber : String
  record : Record String (Seconds R)

/-- The identity a caller read the record under, where it gives one. -/
structure Expected where
  emitter : Option String
  event : Option String
  subscriber : Option String

def validateRecord (expect : Expected) : Value → Option (RecordRow R)
  | .obj fields =>
      let get := Json.get fields
      if sameKeys recordKeys fields && isVersion (get "v") && isTs false (get "minted_ts") &&
          ["last_nudge_ts", "next_nudge_ts", "ended_ts"].all (isTs true <| get ·) then do
        let emitter ← asText (get "emitter")
        let event ← asText (get "event")
        let subscriber ← asText (get "subscriber")
        let ackToken ← asText (get "ack_token")
        let gen ← asCount (get "gen")
        let status ← readEventStatus (get "status") (get "outcome")
        let noted ← asBool (get "noted")
        let nudges ← asCount (get "nudges")
        let deferrals ← asCount (get "deferrals")
        let mintedTs ← clock (get "minted_ts")
        if validPluginRef emitter && expect.emitter.all (· = emitter) && validEvent event &&
            expect.event.all (· = event) && validPluginRef subscriber &&
            expect.subscriber.all (· = subscriber) && ackToken ≠ "" then
          some ⟨get "v", emitter, event, subscriber, {
            gen, ackToken, mintedTs, status, nudges
            lastNudgeTs := clock (get "last_nudge_ts")
            nextNudgeTs := clock (get "next_nudge_ts")
            deferrals, noted
            endedTs := clock (get "ended_ts") }⟩
        else none
      else none
  | _ => none

def eventStatusName : Status → String
  | .pending => "pending"
  | .done _ => "done"

def ofEventOutcome : Status → Value
  | .done outcome => .str (eventOutcomeName outcome)
  | .pending => .null

def RecordRow.fields (row : RecordRow R) : List (String × Value) :=
  [("v", row.v), ("emitter", .str row.emitter), ("event", .str row.event),
    ("subscriber", .str row.subscriber), ("gen", .int row.record.gen),
    ("ack_token", .str row.record.ackToken), ("minted_ts", ofClock (some row.record.mintedTs)),
    ("status", .str (eventStatusName row.record.status)),
    ("outcome", ofEventOutcome row.record.status), ("nudges", .int row.record.nudges),
    ("last_nudge_ts", ofClock row.record.lastNudgeTs),
    ("next_nudge_ts", ofClock row.record.nextNudgeTs), ("deferrals", .int row.record.deferrals),
    ("noted", .bool row.record.noted), ("ended_ts", ofClock row.record.endedTs)]

theorem readEventStatus_encode (status : Status) :
    readEventStatus (.str (eventStatusName status)) (ofEventOutcome status) = some status := by
  cases status with
  | done outcome => cases outcome <;> rfl
  | pending => rfl

def TimelyRecord (r : Record String (Seconds R)) : Prop :=
  r.mintedTs.Within tsAbsMax ∧
    ∀ t, r.lastNudgeTs = some t ∨ r.nextNudgeTs = some t ∨ r.endedTs = some t → t.Within tsAbsMax

/-- What no update of the schedule touches is as the validator wants it. -/
structure RecordRow.Shaped (expect : Expected) (row : RecordRow R) : Prop where
  version : isVersion row.v = true
  identity : (validPluginRef row.emitter && expect.emitter.all (· = row.emitter) &&
    validEvent row.event && expect.event.all (· = row.event) && validPluginRef row.subscriber &&
    expect.subscriber.all (· = row.subscriber) && row.record.ackToken ≠ "") = true

theorem sameKeys_recordFields (row : RecordRow R) : sameKeys recordKeys row.fields = true := by
  simp [sameKeys, recordKeys, RecordRow.fields]

theorem times_recordFields (row : RecordRow R) :
    (isTs false (Json.get row.fields "minted_ts") = true ∧
      ["last_nudge_ts", "next_nudge_ts", "ended_ts"].all
        (isTs true <| Json.get row.fields ·) = true) ↔ TimelyRecord row.record := by
  simp only [List.all_cons, List.all_nil, Bool.and_true, Bool.and_eq_true, Json.get,
    RecordRow.fields, Json.field?_cons, String.reduceEq, if_true, if_false, Option.getD_some,
    isTs_ofClock, isTs_required, TimelyRecord, or_imp, forall_and]

theorem validate_recordFields {expect : Expected} {row : RecordRow R} (shaped : row.Shaped expect)
    (timely : TimelyRecord row.record) :
    validateRecord expect (.obj row.fields) = some row := by
  obtain ⟨version, identity⟩ := shaped
  obtain ⟨minted, times⟩ := (times_recordFields row).mpr timely
  have v : Json.get row.fields "v" = row.v := rfl
  rw [validateRecord]
  simp only [sameKeys_recordFields, minted, times, v, version, Bool.and_self, if_true]
  simp only [Json.get, RecordRow.fields, Json.field?_cons, String.reduceEq, if_true, if_false,
    Option.getD_some, asText, asBool, asCount, readEventStatus_encode, clock_ofClock]
  exact if_pos identity

theorem timely_of_validRecord {expect : Expected} (row : RecordRow R) {new : RecordRow R}
    (ok : validateRecord expect (.obj row.fields) = some new) : TimelyRecord row.record := by
  apply (times_recordFields row).mp
  rw [validateRecord] at ok
  split at ok
  · next gates =>
    simp only [Bool.and_eq_true] at gates
    exact ⟨gates.1.2, gates.2⟩
  · cases ok

theorem shaped_of_validRecord {expect : Expected} {obj : Value} {row : RecordRow R}
    (ok : validateRecord expect obj = some row) :
    row.Shaped expect ∧ TimelyRecord row.record := by
  unfold validateRecord at ok
  split at ok
  · next fields =>
    dsimp only at ok
    split at ok
    · next gates =>
      obtain ⟨emitter, -, ok⟩ := Option.bind_eq_some_iff.mp ok
      obtain ⟨event, -, ok⟩ := Option.bind_eq_some_iff.mp ok
      obtain ⟨subscriber, -, ok⟩ := Option.bind_eq_some_iff.mp ok
      obtain ⟨ackToken, -, ok⟩ := Option.bind_eq_some_iff.mp ok
      obtain ⟨gen, -, ok⟩ := Option.bind_eq_some_iff.mp ok
      obtain ⟨status, -, ok⟩ := Option.bind_eq_some_iff.mp ok
      obtain ⟨noted, -, ok⟩ := Option.bind_eq_some_iff.mp ok
      obtain ⟨nudges, -, ok⟩ := Option.bind_eq_some_iff.mp ok
      obtain ⟨deferrals, -, ok⟩ := Option.bind_eq_some_iff.mp ok
      obtain ⟨mintedTs, read, ok⟩ := Option.bind_eq_some_iff.mp ok
      split at ok
      · next identity =>
        obtain rfl := Option.some.inj ok
        simp only [Bool.and_eq_true, List.all_cons, List.all_nil] at gates
        obtain ⟨⟨⟨-, version⟩, minted⟩, last, next, ended, -⟩ := gates
        refine ⟨⟨version, identity⟩, within_of_isTs minted read, ?_⟩
        rintro t (at_ | at_ | at_)
        · exact within_of_isTs last at_
        · exact within_of_isTs next at_
        · exact within_of_isTs ended at_
      · cases ok
    · cases ok
  · cases ok

def RecordRow.put (row : RecordRow R) (r : Record String (Seconds R)) : RecordRow R :=
  { row with record := r }

theorem accepted_putRecord {expect : Expected} {row : RecordRow R} (shaped : row.Shaped expect)
    {r : Record String (Seconds R)} (same : r.ackToken = row.record.ackToken) :
    (validateRecord (R := R) expect (.obj (row.put r).fields)).isSome ↔ TimelyRecord r := by
  constructor
  · intro ok
    obtain ⟨new, valid⟩ := Option.isSome_iff_exists.mp ok
    exact timely_of_validRecord (row.put r) valid
  · intro timely
    have again : (row.put r).Shaped expect := by
      refine ⟨shaped.version, ?_⟩
      simp only [RecordRow.put, same]
      exact shaped.identity
    rw [validate_recordFields again timely]
    rfl

/-- What the module promises about a validated record: each record its callers write is accepted
again. The functions of this schedule raise nothing, they are total. -/
structure RecordRow.Safe (expect : Expected) (row : RecordRow R) : Prop where
  accept : ∀ now, Roomy now →
    (validateRecord (R := R) expect
      (.obj (row.put (NudgeRules.Event.acceptUpdate row.record now row.record)).fields)).isSome
  defer : ∀ now, Roomy now →
    (validateRecord (R := R) expect
      (.obj (row.put (NudgeRules.Event.deferUpdate row.record now row.record)).fields)).isSome
  terminal : ∀ outcome now, Roomy now →
    (validateRecord (R := R) expect
      (.obj (row.put (terminalize row.record outcome now)).fields)).isSome

def LadderInRange (r : Record String (Seconds R)) : Prop :=
  r.status = .pending → ∀ offset, phaseOffsets[r.nudges + 1]? = some offset →
    (r.mintedTs + (offset : Seconds R)).Within tsAbsMax

theorem timely_terminalizeRecord {r : Record String (Seconds R)} (timely : TimelyRecord r)
    {now : Seconds R} (room : Roomy now) (outcome : Outcome) :
    TimelyRecord (terminalize r outcome now) := by
  unfold terminalize
  split
  · refine ⟨timely.1, ?_⟩
    rintro t (last | sched | ended)
    · exact timely.2 t (.inl last)
    · cases sched
    · obtain rfl := Option.some.inj ended
      exact room.within
  · exact timely

theorem timely_deferRecord {r : Record String (Seconds R)} (timely : TimelyRecord r)
    {now : Seconds R} (room : Roomy now) :
    TimelyRecord (NudgeRules.Event.deferUpdate r now r) := by
  refine ⟨timely.1, ?_⟩
  rintro t (last | sched | ended)
  · exact timely.2 t (.inl last)
  · obtain rfl := Option.some.inj sched
    rw [nextNudgeAfterReject]
    split
    · exact room.add (by decide)
    · exact room.add (deferral_small _)
  · exact timely.2 t (.inr (.inr ended))

theorem timely_acceptRecord {r : Record String (Seconds R)} (timely : TimelyRecord r)
    {now : Seconds R} (room : Roomy now) :
    TimelyRecord (NudgeRules.Event.acceptUpdate r now r) ↔
      ∀ t, nextNudgeAfterAccept r now = some t → t.Within tsAbsMax := by
  unfold NudgeRules.Event.acceptUpdate
  cases scheduled : nextNudgeAfterAccept r now with
  | none =>
    refine ⟨fun _ => nofun, fun _ => ?_⟩
    have ended := timely_terminalizeRecord timely room .exhausted
    refine ⟨ended.1, ?_⟩
    rintro t (last | sched | over_)
    · obtain rfl := Option.some.inj last
      exact room.within
    · exact ended.2 t (.inr (.inl sched))
    · exact ended.2 t (.inr (.inr over_))
  | some slot =>
    constructor
    · intro new t found
      exact new.2 t (.inr (.inl found))
    · intro fits
      refine ⟨timely.1, ?_⟩
      rintro t (last | sched | ended)
      · obtain rfl := Option.some.inj last
        exact room.within
      · exact fits t sched
      · exact timely.2 t (.inr (.inr ended))

theorem terminalize_ackToken (r : Record String (Seconds R)) (outcome : Outcome)
    (now : Seconds R) : (terminalize r outcome now).ackToken = r.ackToken := by
  unfold terminalize
  split <;> rfl

theorem acceptUpdate_ackToken (due r : Record String (Seconds R)) (now : Seconds R) :
    (NudgeRules.Event.acceptUpdate due now r).ackToken = r.ackToken := by
  unfold NudgeRules.Event.acceptUpdate
  split
  · exact terminalize_ackToken ..
  · rfl

theorem ladder_slots (r : Record String (Seconds R)) (now : Seconds R) :
    nextNudgeAfterAccept r now =
      if r.status = .pending then
        (phaseOffsets[r.nudges + 1]?).map fun (offset : ℕ) =>
          max now (r.mintedTs + (offset : Seconds R))
      else none := by
  unfold nextNudgeAfterAccept
  by_cases pending : r.status = .pending
  · rw [if_neg (not_not.mpr pending), if_pos pending]
    by_cases below : r.nudges + 1 < maxNudges
    · rw [dif_pos below, List.getElem?_eq_getElem below]
      rfl
    · rw [dif_neg below, List.getElem?_eq_none (Nat.not_lt.mp below)]
      rfl
  · rw [if_pos pending, if_neg pending]

theorem safe_record_iff {expect : Expected} {row : RecordRow R} (shaped : row.Shaped expect)
    (timely : TimelyRecord row.record) : row.Safe expect ↔ LadderInRange row.record := by
  constructor
  · intro safe pending offset found
    have room : Roomy (⟨0⟩ : Seconds R) := by simp [Roomy, Seconds.Within]
    have accepted := safe.accept ⟨0⟩ room
    rw [accepted_putRecord shaped (acceptUpdate_ackToken ..), timely_acceptRecord timely room,
      ladder_slots, if_pos pending, found] at accepted
    have slot := accepted _ rfl
    have high := (abs_le.mp slot).2
    rw [Seconds.value_max] at high
    exact abs_le.mpr ⟨timely.1.add_low (by unfold tsAbsMax; omega), (le_max_right ..).trans high⟩
  · intro able
    refine ⟨fun now room => ?_, fun now room => ?_, fun outcome now room => ?_⟩
    · rw [accepted_putRecord shaped (acceptUpdate_ackToken ..), timely_acceptRecord timely room,
        ladder_slots]
      intro t scheduled
      simp only [Option.ite_none_right_eq_some, Option.map_eq_some_iff] at scheduled
      obtain ⟨pending, offset, found, rfl⟩ := scheduled
      exact room.within.max (able pending offset found)
    · rw [accepted_putRecord shaped]
      · exact timely_deferRecord timely room
      · rfl
    · rw [accepted_putRecord shaped (terminalize_ackToken ..)]
      exact timely_terminalizeRecord timely room outcome

end Records

section Promise
variable {R : Rounding}

/-- Whatever the validators accept can be computed with exactly where the record's own clocks lead
to a slot in range, and an ended attempt with a schedule says when it ended. -/
theorem safe_to_compute :
    (∀ (L : Limits) (expectHash : Option String) (obj : Value) (row : AttemptRow R),
      validateAttempt L expectHash obj = some row →
        (row.Safe L expectHash ↔ Schedulable row.attempt)) ∧
    (∀ (expect : Expected) (obj : Value) (row : RecordRow R),
      validateRecord expect obj = some row → (row.Safe expect ↔ LadderInRange row.record)) := by
  constructor
  · intro L expectHash obj row valid
    obtain ⟨shaped, timely⟩ := shaped_of_valid valid
    exact safe_iff shaped timely
  · intro expect obj row valid
    obtain ⟨shaped, timely⟩ := shaped_of_validRecord valid
    exact safe_record_iff shaped timely

def pythonLimits : Limits := ⟨1000, 1000, 4300⟩

/-- An attempt with nothing dispatched yet, its next nudge at second five and no clock of its
end. -/
def dueAtFive (status : CallbackAttempts.Status) : AttemptRow .exact where
  v := .int 1
  stateHash := "0123456789abcdef0123456789abcdef0123456789abcdef0123456789abcdef"
  attempt :=
    { mintedTs := none, status, claimed := false, metaInfo := none, nudges := 0, lastNudgeTs := none
      nextNudgeTs := some ⟨5⟩, deferrals := 0, noted := false, endedTs := none }

theorem dueAtFive_valid (status : CallbackAttempts.Status) :
    validateAttempt pythonLimits none (.obj (dueAtFive status).fields) =
      some (dueAtFive status) := by
  apply validate_fields
  · have hash : matchesLine hashForm
        "0123456789abcdef0123456789abcdef0123456789abcdef0123456789abcdef" = true := by
      decide +kernel
    exact ⟨rfl, hash, rfl, rfl, writableMeta_null _⟩
  · rintro t (minted | last | sched | ended)
    · cases minted
    · cases last
    · obtain rfl := Option.some.inj sched
      decide +kernel
    · cases ended

/-- A result waiting for its first nudge keeps the promise. -/
theorem waiting_safe : (dueAtFive .resultReady).Safe pythonLimits none := by
  refine (safe_to_compute.1 pythonLimits none _ _ (dueAtFive_valid .resultReady)).mpr ?_
  intro live left current sched
  rw [if_neg (by decide)]
  intro here next atHere atNext
  obtain rfl := Option.some.inj sched
  obtain rfl := Option.some.inj atHere
  obtain rfl := Option.some.inj atNext
  decide +kernel

/-- An expired attempt that does not say when it ended is accepted, and the schedule raises on
it. -/
theorem endless_raises :
    validateAttempt pythonLimits none (.obj (dueAtFive (.done .expired)).fields) =
      some (dueAtFive (.done .expired)) ∧
    CallbackAttempts.nextNudgeAfterAccept (dueAtFive (.done .expired)).attempt ⟨10⟩ none = none ∧
    ¬ (dueAtFive (.done .expired)).Safe pythonLimits none := by
  have raises : CallbackAttempts.nextNudgeAfterAccept
      (dueAtFive (.done .expired)).attempt ⟨10⟩ none = none := by decide +kernel
  refine ⟨dueAtFive_valid (.done .expired), raises, fun safe => ?_⟩
  have total := safe.total ⟨10⟩ none
  rw [raises] at total
  cases total

end Promise

end Casa.AttemptSchema
