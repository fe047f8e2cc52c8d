import Casa.EventSchedule
import Casa.RoundedClock
import Mathlib.Data.List.Basic

/-! What happens to one ledger record over its life: the delivery worker selects it, dispatches
the snapshot it took, and writes down what the bus said, while the spool ends the record under
it (`callback_episodes.py`, `event_episodes.py`). -/

namespace Casa.NudgeRules
open RoundedClock

variable {K M T A : Type}

/-- The record in the ledger, and the snapshot of it that a dispatch is under way for. -/
structure Delivery (A : Type) where
  record : A
  due : Option A

namespace Callback
open CallbackAttempts
variable [LinearOrder T] [Add T] [NatCast T]

/-- `_is_nudgeable`; `present` is `has_result`. -/
def isNudgeable (a : Attempt T M) (now : T) (present : Bool) : Bool :=
  match a.nextNudgeTs with
  | none => false
  | some next =>
      next ≤ now && a.nudges < maxNudges && a.status ≠ .done .collected &&
        (a.status ≠ .resultReady || present)

inductive Move (T : Type) where
  | select (now : T) (present : Bool)
  | accept (now : T) (anchorTs : Option T)
  | defer (now : T)
  | terminalize (outcome : Outcome) (now : T) (claimed : Option Bool)

/-- The fields `_accept` writes. -/
def acceptUpdate (due : Attempt T M) (now : T) (next : Option T) (a : Attempt T M) :
    Attempt T M :=
  { a with nudges := due.nudges + 1, lastNudgeTs := some now, nextNudgeTs := next, deferrals := 0 }

/-- The fields `_defer` writes. -/
def deferUpdate (due : Attempt T M) (now : T) (a : Attempt T M) : Attempt T M :=
  { a with nextNudgeTs := some (nextNudgeAfterReject due now), deferrals := due.deferrals + 1 }

def step : Move T → Delivery (Attempt T M) → Delivery (Attempt T M)
  | .select now present, d =>
      { d with due := if isNudgeable d.record now present then some d.record else none }
  | .accept now anchorTs, d =>
      match d.due with
      | none => d
      | some due =>
          match nextNudgeAfterAccept due now anchorTs with
          | none => ⟨d.record, none⟩
          | some next => ⟨acceptUpdate due now next d.record, none⟩
  | .defer now, d =>
      match d.due with
      | none => d
      | some due => ⟨deferUpdate due now d.record, none⟩
  | .terminalize outcome now claimed, d =>
      { d with record := CallbackAttempts.terminalize d.record outcome now claimed }

def run (ls : List (Move T)) (d : Delivery (Attempt T M)) : Delivery (Attempt T M) :=
  ls.foldl (fun d l => step l d) d

/-- What `new_attempt` built, before the worker saw it. -/
def start (mintedTs : Option T) (status : Status) (metaInfo : Option M) (claimed : Bool) (now : T) :
    Delivery (Attempt T M) :=
  ⟨newAttempt mintedTs status metaInfo claimed now, none⟩

/-- The worker works within the budget, and on the count the ledger has. -/
structure Kept (d : Delivery (Attempt T M)) : Prop where
  budget : d.record.nudges ≤ maxNudges
  spent : d.record.nudges = maxNudges → d.record.nextNudgeTs = none
  due : ∀ a, d.due = some a → a.nudges = d.record.nudges ∧ a.nudges < maxNudges

omit [LinearOrder T] in
theorem kept_start (mintedTs : Option T) (status : Status) (metaInfo : Option M) (claimed : Bool)
    (now : T) : Kept (start mintedTs status metaInfo claimed now) :=
  ⟨Nat.zero_le _, nofun, fun _ due => by cases due⟩

omit [Add T] [NatCast T] in
theorem nudges_of_nudgeable {a : Attempt T M} {now : T} {present : Bool}
    (h : isNudgeable a now present = true) : a.nudges < maxNudges := by
  unfold isNudgeable at h
  split at h
  · cases h
  · simp only [Bool.and_eq_true, decide_eq_true_eq] at h
    exact h.1.1.2

theorem exhausted {a : Attempt T M} {now : T} {anchorTs next : Option T}
    (last : a.nudges + 1 = maxNudges) (h : nextNudgeAfterAccept a now anchorTs = some next) :
    next = none := by
  unfold nextNudgeAfterAccept at h
  split at h
  · exact (Option.some.inj h).symm
  · rw [if_pos (Nat.le_of_eq last.symm)] at h
    exact (Option.some.inj h).symm

omit [LinearOrder T] in
theorem terminalize_spent {a : Attempt T M} (outcome : Outcome) (now : T) (claimed : Option Bool)
    (spent : a.nudges = maxNudges) (none_ : a.nextNudgeTs = none) :
    (CallbackAttempts.terminalize a outcome now claimed).nextNudgeTs = none := by
  unfold CallbackAttempts.terminalize
  split
  · exact none_
  · exact if_neg fun h => absurd h.2 (Nat.not_lt.mpr (Nat.le_of_eq spent.symm))

theorem Kept.step {d : Delivery (Attempt T M)} (kept : Kept d) (l : Move T) :
    Kept (step l d) ∧ d.record.nudges ≤ (Callback.step l d).record.nudges := by
  cases l with
  | select now present =>
    refine ⟨⟨kept.budget, kept.spent, fun a taken => ?_⟩, Nat.le_refl _⟩
    simp only [Callback.step, Option.ite_none_right_eq_some, Option.some.injEq] at taken
    obtain ⟨nudgeable, rfl⟩ := taken
    exact ⟨rfl, nudges_of_nudgeable nudgeable⟩
  | accept now anchorTs =>
    simp only [Callback.step]
    split
    · exact ⟨kept, Nat.le_refl _⟩
    · next due taken =>
      obtain ⟨same, below⟩ := kept.due due taken
      split
      · exact ⟨⟨kept.budget, kept.spent, fun _ due => by cases due⟩, Nat.le_refl _⟩
      · next next scheduled =>
        refine ⟨⟨below, fun last => exhausted last scheduled, fun _ due => by cases due⟩, ?_⟩
        rw [← same]
        exact Nat.le_succ _
  | defer now =>
    simp only [Callback.step]
    split
    · exact ⟨kept, Nat.le_refl _⟩
    · next due taken =>
      obtain ⟨same, below⟩ := kept.due due taken
      refine ⟨⟨kept.budget, fun spent => ?_, fun _ due => by cases due⟩, Nat.le_refl _⟩
      exact absurd (same.trans spent) (Nat.ne_of_lt below)
  | terminalize outcome now claimed =>
    simp only [Callback.step]
    refine ⟨⟨?_, fun spent => ?_, fun a taken => ?_⟩, ?_⟩
    · rw [terminalize_nudges]
      exact kept.budget
    · rw [terminalize_nudges] at spent
      exact terminalize_spent outcome now claimed spent (kept.spent spent)
    · rw [terminalize_nudges]
      exact kept.due a taken
    · rw [terminalize_nudges]

theorem Kept.run {d : Delivery (Attempt T M)} (kept : Kept d) (ls : List (Move T)) :
    Kept (run ls d) ∧ d.record.nudges ≤ (Callback.run ls d).record.nudges := by
  induction ls generalizing d with
  | nil => exact ⟨kept, Nat.le_refl _⟩
  | cons l rest ih =>
    obtain ⟨next, more⟩ := kept.step l
    obtain ⟨last, evenMore⟩ := ih next
    exact ⟨last, more.trans evenMore⟩

theorem Kept.stays_spent {d : Delivery (Attempt T M)} (kept : Kept d)
    (spent : d.record.nudges = maxNudges) (ls : List (Move T)) :
    (Callback.run ls d).record.nextNudgeTs = none := by
  obtain ⟨last, more⟩ := kept.run ls
  exact last.spent (Nat.le_antisymm last.budget (spent ▸ more))

/-- The move does not give a record another outcome than `collected`. -/
def Move.keepsCollected : Move T → Bool
  | .terminalize outcome _ _ => outcome = .collected
  | _ => true

structure AtRest (d : Delivery (Attempt T M)) : Prop where
  collected : d.record.status = .done .collected
  unscheduled : d.record.nextNudgeTs = none
  idle : d.due = none

theorem AtRest.step {d : Delivery (Attempt T M)} (rest : AtRest d) {l : Move T}
    (keeps : l.keepsCollected = true) : AtRest (step l d) := by
  obtain ⟨collected, unscheduled, idle⟩ := rest
  cases l with
  | select now present =>
    refine ⟨collected, unscheduled, ?_⟩
    simp [Callback.step, isNudgeable, unscheduled]
  | accept now anchorTs =>
    simp only [Callback.step, idle]
    exact ⟨collected, unscheduled, idle⟩
  | defer now =>
    simp only [Callback.step, idle]
    exact ⟨collected, unscheduled, idle⟩
  | terminalize outcome now claimed =>
    obtain rfl : outcome = .collected := by simpa [Move.keepsCollected] using keeps
    refine ⟨terminalize_status .., ?_, idle⟩
    simp only [Callback.step, CallbackAttempts.terminalize, if_pos collected]
    exact unscheduled

theorem AtRest.run {d : Delivery (Attempt T M)} (rest : AtRest d) {ls : List (Move T)}
    (keeps : ∀ l ∈ ls, l.keepsCollected = true) : AtRest (run ls d) := by
  induction ls generalizing d with
  | nil => exact rest
  | cons l more ih =>
    rw [List.forall_mem_cons] at keeps
    exact ih (rest.step keeps.1) keeps.2

omit [LinearOrder T] in
theorem collected_unscheduled {a : Attempt T M} (open_ : a.status ≠ .done .collected) (now : T)
    (claimed : Option Bool) :
    (CallbackAttempts.terminalize a .collected now claimed).nextNudgeTs = none := by
  rw [CallbackAttempts.terminalize, if_neg open_]
  rfl

theorem collected_not_selected {d : Delivery (Attempt T M)}
    (collected : d.record.status = .done .collected) (now : T) (present : Bool) :
    (step (.select now present) d).due = none := by
  simp only [step, isNudgeable, collected]
  split <;> simp

end Callback

namespace Event
open EventSpool EventSchedule
variable [LinearOrder T] [Add T] [NatCast T]

def isNudgeable (r : Record K T) (now : T) : Bool :=
  match r.nextNudgeTs with
  | none => false
  | some next => next ≤ now && r.nudges < maxNudges && r.status = .pending

inductive Move (T : Type) where
  | select (now : T)
  | accept (now : T)
  | defer (now : T)
  | terminalize (outcome : Outcome) (now : T)

/-- `_exhaust` and `_advance`, the mutators of `_accept`. -/
def acceptUpdate (due : Record K T) (now : T) (r : Record K T) : Record K T :=
  match nextNudgeAfterAccept due now with
  | none =>
      { EventSpool.terminalize r .exhausted now with
        nudges := due.nudges + 1, lastNudgeTs := some now, deferrals := 0, noted := true }
  | some next =>
      { r with
        nudges := due.nudges + 1, lastNudgeTs := some now, nextNudgeTs := some next
        deferrals := 0 }

/-- The mutator of `_defer`. -/
def deferUpdate (due : Record K T) (now : T) (r : Record K T) : Record K T :=
  { r with nextNudgeTs := some (nextNudgeAfterReject due now), deferrals := due.deferrals + 1 }

/-- The gate of `update_delivery_nudge`. -/
def updateDeliveryNudge (gen : Nat) (mutator : Record K T → Record K T) (r : Record K T) :
    Record K T :=
  if r.status = .pending ∧ r.gen = gen then mutator r else r

def step : Move T → Delivery (Record K T) → Delivery (Record K T)
  | .select now, d => { d with due := if isNudgeable d.record now then some d.record else none }
  | .accept now, d =>
      match d.due with
      | none => d
      | some due => ⟨updateDeliveryNudge due.gen (acceptUpdate due now) d.record, none⟩
  | .defer now, d =>
      match d.due with
      | none => d
      | some due => ⟨updateDeliveryNudge due.gen (deferUpdate due now) d.record, none⟩
  | .terminalize outcome now, d =>
      { d with record := EventSpool.terminalize d.record outcome now }

def run (ls : List (Move T)) (d : Delivery (Record K T)) : Delivery (Record K T) :=
  ls.foldl (fun d l => step l d) d

def start (gen : Nat) (ackToken : K) (now : T) : Delivery (Record K T) :=
  ⟨newRecord gen ackToken now, none⟩

/-- The worker works within the budget and on the count the ledger has, and an ended record has
no schedule. -/
structure Kept (d : Delivery (Record K T)) : Prop where
  budget : d.record.nudges ≤ maxNudges
  spent : d.record.nudges = maxNudges → d.record.status ≠ .pending
  ended : d.record.status ≠ .pending → d.record.nextNudgeTs = none
  due : ∀ r, d.due = some r →
    r.nudges = d.record.nudges ∧ r.nudges < maxNudges ∧ r.status = .pending ∧
      r.gen = d.record.gen

omit [LinearOrder T] in
theorem kept_start (gen : Nat) (ackToken : K) (now : T) : Kept (start gen ackToken now) :=
  ⟨Nat.zero_le _, nofun, fun h => absurd rfl h, nofun⟩

omit [Add T] [NatCast T] in
theorem of_nudgeable {r : Record K T} {now : T} (h : isNudgeable r now = true) :
    r.nudges < maxNudges ∧ r.status = .pending := by
  unfold isNudgeable at h
  split at h
  · cases h
  · simp only [Bool.and_eq_true, decide_eq_true_eq] at h
    exact ⟨h.1.2, h.2⟩

omit [LinearOrder T] [Add T] [NatCast T] in
@[simp] theorem terminalize_nudges (r : Record K T) (outcome : Outcome) (now : T) :
    (EventSpool.terminalize r outcome now).nudges = r.nudges := by
  rw [EventSpool.terminalize]
  split <;> rfl

omit [LinearOrder T] [Add T] [NatCast T] in
theorem terminalize_ended (r : Record K T) (outcome : Outcome) (now : T) :
    (EventSpool.terminalize r outcome now).status ≠ .pending := by
  rw [EventSpool.terminalize]
  split
  · simp
  · assumption

omit [LinearOrder T] [Add T] [NatCast T] in
theorem terminalize_unscheduled {r : Record K T} (outcome : Outcome) (now : T)
    (ended : r.status ≠ .pending → r.nextNudgeTs = none) :
    (EventSpool.terminalize r outcome now).nextNudgeTs = none := by
  rw [EventSpool.terminalize]
  split
  · rfl
  · next done => exact ended done

theorem Kept.accept {d : Delivery (Record K T)} {due : Record K T} (kept : Kept d)
    (taken : d.due = some due) (now : T) (pending : d.record.status = .pending) :
    Kept ⟨acceptUpdate due now d.record, none⟩ := by
  obtain ⟨-, below, live, -⟩ := kept.due due taken
  unfold acceptUpdate
  split
  · have ended := terminalize_ended d.record .exhausted now
    have unscheduled := terminalize_unscheduled .exhausted now kept.ended
    exact ⟨below, fun _ => ended, fun _ => unscheduled, nofun⟩
  · next next scheduled =>
    have more : due.nudges + 1 < maxNudges := by
      unfold nextNudgeAfterAccept at scheduled
      rw [if_neg (not_not.mpr live)] at scheduled
      split at scheduled
      · assumption
      · cases scheduled
    exact ⟨below, fun last => absurd last (Nat.ne_of_lt more),
      fun ended => absurd pending ended, nofun⟩

omit [LinearOrder T] [Add T] [NatCast T] in
theorem Kept.update {d : Delivery (Record K T)} (kept : Kept d) (gen : Nat)
    {mutator : Record K T → Record K T}
    (through : d.record.status = .pending → Kept ⟨mutator d.record, none⟩) :
    Kept ⟨updateDeliveryNudge gen mutator d.record, none⟩ := by
  unfold updateDeliveryNudge
  split
  · next open_ => exact through open_.1
  · exact ⟨kept.budget, kept.spent, kept.ended, nofun⟩

theorem Kept.step {d : Delivery (Record K T)} (kept : Kept d) (l : Move T) : Kept (step l d) := by
  cases l with
  | select now =>
    refine ⟨kept.budget, kept.spent, kept.ended, fun r taken => ?_⟩
    simp only [Event.step, Option.ite_none_right_eq_some, Option.some.injEq] at taken
    obtain ⟨nudgeable, rfl⟩ := taken
    obtain ⟨below, live⟩ := of_nudgeable nudgeable
    exact ⟨rfl, below, live, rfl⟩
  | accept now =>
    simp only [Event.step]
    split
    · exact kept
    · next due taken => exact kept.update due.gen (kept.accept taken now)
  | defer now =>
    simp only [Event.step]
    split
    · exact kept
    · next due taken =>
      refine kept.update due.gen fun pending => ?_
      exact ⟨kept.budget, kept.spent, fun ended => absurd pending ended, nofun⟩
  | terminalize outcome now =>
    simp only [Event.step]
    have ended := terminalize_ended d.record outcome now
    have unscheduled := terminalize_unscheduled outcome now kept.ended
    refine ⟨?_, fun _ => ended, fun _ => unscheduled, fun r taken => ?_⟩
    · rw [terminalize_nudges]
      exact kept.budget
    · rw [terminalize_nudges, terminalize_gen]
      exact kept.due r taken

theorem Kept.run {d : Delivery (Record K T)} (kept : Kept d) (ls : List (Move T)) :
    Kept (run ls d) := by
  induction ls generalizing d with
  | nil => exact kept
  | cons l rest ih => exact ih (kept.step l)

omit [LinearOrder T] [Add T] [NatCast T] in
theorem update_ended {r : Record K T} (ended : r.status ≠ .pending) (gen : Nat)
    (mutator : Record K T → Record K T) : updateDeliveryNudge gen mutator r = r :=
  if_neg fun h => ended h.1

theorem step_ended {d : Delivery (Record K T)} (ended : d.record.status ≠ .pending) (l : Move T) :
    (step l d).record = d.record := by
  cases l with
  | select now => rfl
  | accept now =>
    simp only [step]
    split
    · rfl
    · exact update_ended ended ..
  | defer now =>
    simp only [step]
    split
    · rfl
    · exact update_ended ended ..
  | terminalize outcome now =>
    simp only [step, EventSpool.terminalize, if_neg ended]

theorem run_ended {d : Delivery (Record K T)} (ended : d.record.status ≠ .pending)
    (ls : List (Move T)) : (run ls d).record = d.record := by
  induction ls generalizing d with
  | nil => rfl
  | cons l rest ih =>
    have same := step_ended ended l
    exact (ih (by rwa [same])).trans same

end Event

section Redelivery
variable {R : Rounding}

theorem deferral_bounds (now : Seconds R) (deferrals : Nat) :
    let next := if 32 ≤ deferrals then now + ((1800 : Nat) : Seconds R)
      else now + ((min 1800 (60 * 2 ^ deferrals) : Nat) : Seconds R)
    now + ((60 : Nat) : Seconds R) ≤ next ∧ next ≤ now + ((1800 : Nat) : Seconds R) := by
  intro next
  have grown : 60 ≤ 60 * 2 ^ deferrals := Nat.le_mul_of_pos_right _ (Nat.two_pow_pos _)
  by_cases saturated : 32 ≤ deferrals
  · simp only [next, if_pos saturated]
    exact ⟨Seconds.add_natCast_mono now (by decide), le_refl _⟩
  · simp only [next, if_neg saturated]
    exact ⟨Seconds.add_natCast_mono now (le_min (by decide) grown),
      Seconds.add_natCast_mono now (min_le_left ..)⟩

/-- Redelivery is bounded, whatever the worker and the spool do to a record in whatever order. A
collected callback attempt stays without a schedule until it is given another outcome, once no
dispatch that was selected before is still to be written down; an ended event record stays as it
is forever. -/
theorem redelivery_bounded :
    (∀ (mintedTs : Option (Seconds R)) (status : CallbackAttempts.Status) (metaInfo : Option M)
      (claimed : Bool) (now : Seconds R) (ls ms : List (Callback.Move (Seconds R))),
      let d := Callback.run ls (Callback.start mintedTs status metaInfo claimed now)
      let e := Callback.run ms d
      d.record.nudges ≤ CallbackAttempts.maxNudges ∧
      (d.record.nudges = CallbackAttempts.maxNudges → e.record.nextNudgeTs = none) ∧
      (d.record.status ≠ .done .collected → ∀ t c,
        (Callback.step (.terminalize .collected t c) d).record.nextNudgeTs = none) ∧
      (d.record.status = .done .collected →
        (∀ t present, (Callback.step (.select t present) d).due = none) ∧
        (d.record.nextNudgeTs = none → d.due = none →
          (∀ l ∈ ms, l.keepsCollected = true) → e.record.nextNudgeTs = none)) ∧
      (∀ due t, d.due = some due → ∃ next,
        (Callback.step (.defer t) d).record =
          { d.record with nextNudgeTs := some next, deferrals := due.deferrals + 1 } ∧
        t + ((60 : Nat) : Seconds R) ≤ next ∧ next ≤ t + ((1800 : Nat) : Seconds R))) ∧
    (∀ (gen : Nat) (ackToken : K) (now : Seconds R) (ls ms : List (Event.Move (Seconds R))),
      let d := Event.run ls (Event.start gen ackToken now)
      let e := Event.run ms d
      d.record.nudges ≤ EventSchedule.maxNudges ∧
      (d.record.nudges = EventSchedule.maxNudges → e.record.nextNudgeTs = none) ∧
      (d.record.status ≠ .pending → e.record = d.record ∧ e.record.nextNudgeTs = none) ∧
      (∀ due t, d.due = some due → d.record.status = .pending → ∃ next,
        (Event.step (.defer t) d).record =
          { d.record with nextNudgeTs := some next, deferrals := due.deferrals + 1 } ∧
        t + ((60 : Nat) : Seconds R) ≤ next ∧ next ≤ t + ((1800 : Nat) : Seconds R))) := by
  refine ⟨fun mintedTs status metaInfo claimed now ls ms => ?_, fun gen ackToken now ls ms => ?_⟩
  · intro d e
    have kept : Callback.Kept d := ((Callback.kept_start ..).run ls).1
    refine ⟨kept.budget, fun spent => kept.stays_spent spent ms,
      fun open_ t c => Callback.collected_unscheduled open_ t c, fun collected => ⟨?_, ?_⟩, ?_⟩
    · exact Callback.collected_not_selected collected
    · exact fun none_ idle keeps => (Callback.AtRest.run ⟨collected, none_, idle⟩ keeps).unscheduled
    · intro due t taken
      refine ⟨_, ?_, deferral_bounds t due.deferrals⟩
      simp only [Callback.step, taken]
      rfl
  · intro d e
    have kept : Event.Kept d := (Event.kept_start ..).run ls
    have rests : d.record.status ≠ .pending →
        e.record = d.record ∧ e.record.nextNudgeTs = none := by
      intro ended
      have same : e.record = d.record := Event.run_ended ended ms
      exact ⟨same, same ▸ kept.ended ended⟩
    refine ⟨kept.budget, fun spent => (rests (kept.spent spent)).2, rests, ?_⟩
    intro due t taken pending
    refine ⟨_, ?_, deferral_bounds t due.deferrals⟩
    have same := (kept.due due taken).2.2.2.symm
    simp only [Event.step, taken, Event.updateDeliveryNudge]
    rw [if_pos ⟨pending, same⟩]
    rfl

def waiting : Delivery (CallbackAttempts.Attempt (Seconds .exact) Unit) :=
  Callback.start none .resultReady none false ⟨100⟩

def sixDispatches : List (Callback.Move (Seconds .exact)) :=
  [100, 160, 280, 580].flatMap (fun t => [.select ⟨t⟩ true, .accept ⟨t⟩ (some ⟨100⟩)]) ++
    .terminalize .expired ⟨1000⟩ none ::
      [2800, 8200].flatMap (fun t => [.select ⟨t⟩ false, .accept ⟨t⟩ none])

theorem six_dispatches_silent :
    (Callback.run sixDispatches waiting).record.nudges = 6 ∧
      ∀ ms, (Callback.run ms (Callback.run sixDispatches waiting)).record.nextNudgeTs = none := by
  have spent : (Callback.run sixDispatches waiting).record.nudges = 6 := by decide +kernel
  exact ⟨spent, fun ms => ((redelivery_bounded (K := Unit)).1 none .resultReady none false ⟨100⟩
    sixDispatches ms).2.1 spent⟩

/-- Another outcome gives a collected record a schedule again, and so does a dispatch that was
selected before the record was collected. -/
theorem collected_rescheduled :
    (¬ ∀ (ls ms : List (Callback.Move (Seconds .exact))),
      (Callback.run ls waiting).record.status = .done .collected →
      (Callback.run ls waiting).record.nextNudgeTs = none →
      (Callback.run ms (Callback.run ls waiting)).record.nextNudgeTs = none) ∧
    ∃ ls : List (Callback.Move (Seconds .exact)),
      (Callback.run ls waiting).record.status = .done .collected ∧
        (Callback.run ls waiting).record.nextNudgeTs ≠ none := by
  constructor
  · intro claim
    have again := claim [.terminalize .collected ⟨110⟩ none] [.terminalize .evicted ⟨120⟩ none]
      (by decide +kernel) (by decide +kernel)
    exact absurd again (by decide +kernel)
  · exact ⟨[.select ⟨100⟩ true, .terminalize .collected ⟨110⟩ none, .accept ⟨111⟩ (some ⟨100⟩)],
      by decide +kernel, by decide +kernel⟩

end Redelivery

end Casa.NudgeRules
