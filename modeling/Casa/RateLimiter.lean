import Mathlib.Algebra.Order.Field.Rat
import Mathlib.Algebra.Order.Group.Unbundled.Abs
import Mathlib.Data.List.Infix
import Mathlib.Logic.Function.Basic
import Mathlib.Tactic.FieldSimp
import Mathlib.Tactic.Linarith
import Mathlib.Tactic.Ring

/-! Token buckets that are dropped once they are full (`rate_limit.py`), over exact time. -/

namespace Casa.RateLimiter

structure RateDecision where
  allowed : Bool
  shouldNotify : Bool
  retryAfterS : ℚ
deriving DecidableEq, Repr

structure TokenBucket where
  tokens : ℚ
  last : ℚ
  notified : Bool
deriving DecidableEq, Repr

structure Limits where
  capacity : ℤ
  windowS : ℚ

section Source
variable (limits : Limits)

def Limits.refillPerS : ℚ :=
  if 0 < limits.capacity ∧ 0 < limits.windowS then limits.capacity / limits.windowS else 0

def TokenBucket.fresh (now : ℚ) : TokenBucket := ⟨max 0 limits.capacity, now, false⟩

def TokenBucket.refilled (bucket : TokenBucket) (now : ℚ) : ℚ :=
  min limits.capacity
    (bucket.tokens + max 0 (now - bucket.last) * max 0 limits.refillPerS)

def TokenBucket.check (bucket : TokenBucket) (now : ℚ) : RateDecision × TokenBucket :=
  if limits.capacity ≤ 0 then (⟨true, false, 0⟩, bucket)
  else
    let tokens := bucket.refilled limits now
    if 1 ≤ tokens then (⟨true, false, 0⟩, ⟨tokens - 1, now, false⟩)
    else
      let refillPerS := max 0 limits.refillPerS
      (⟨false, !bucket.notified, if 0 < refillPerS then (1 - tokens) / refillPerS else 60⟩,
        ⟨tokens, now, true⟩)

def sweepIntervalChecks : ℕ := 1024

/-- One call of `check`, with the readings of the clock that it can make: of the sweep, of a new
bucket, and of the bucket's own check. -/
structure Call (K : Type) where
  key : K
  swept : ℚ
  created : ℚ
  now : ℚ

variable {K : Type}

structure Limiter (K : Type) where
  buckets : K → Option TokenBucket
  checksSinceSweep : ℕ

def Limiter.init : Limiter K := ⟨fun _ => none, 0⟩

def sweep (now : ℚ) (buckets : K → Option TokenBucket) : K → Option TokenBucket :=
  if limits.windowS ≤ 0 then buckets
  else fun key => (buckets key).filter fun bucket => !decide (limits.windowS ≤ now - bucket.last)

def Limiter.due (limiter : Limiter K) : Bool :=
  decide (sweepIntervalChecks ≤ limiter.checksSinceSweep + 1)

def Limiter.current (limiter : Limiter K) (now : ℚ) : K → Option TokenBucket :=
  if limiter.due then sweep limits now limiter.buckets else limiter.buckets

variable [DecidableEq K]

def Limiter.check (call : Call K) (limiter : Limiter K) : RateDecision × Limiter K :=
  if limits.capacity ≤ 0 then (⟨true, false, 0⟩, limiter)
  else
    let buckets := limiter.current limits call.swept
    let result :=
      ((buckets call.key).getD (.fresh limits call.created)).check limits call.now
    (result.1, ⟨Function.update buckets call.key (some result.2),
      if limiter.due then 0 else limiter.checksSinceSweep + 1⟩)

def checkKept (call : Call K) (kept : K → TokenBucket) : RateDecision × (K → TokenBucket) :=
  let result := (kept call.key).check limits call.now
  (result.1, Function.update kept call.key result.2)

def decisions {S : Type} (check : Call K → S → RateDecision × S) :
    S → List (Call K) → List (Call K × RateDecision)
  | _, [] => []
  | s, call :: rest => (call, (check call s).1) :: decisions check (check call s).2 rest

def Onward : ℚ → List (Call K) → Prop
  | _, [] => True
  | clock, call :: rest =>
      clock ≤ call.swept ∧ call.swept ≤ call.created ∧ call.created ≤ call.now ∧
        Onward call.now rest

end Source

/-! ### One bucket -/

section Bucket
variable {limits : Limits} (some_ : 1 ≤ limits.capacity) (window : 0 < limits.windowS)

def refill (limits : Limits) (stretch : ℚ) : ℚ := stretch * limits.capacity / limits.windowS

structure TokenBucket.Sound (limits : Limits) (clock : ℚ) (bucket : TokenBucket) : Prop where
  nonneg : 0 ≤ bucket.tokens
  bounded : bucket.tokens ≤ limits.capacity
  past : bucket.last ≤ clock

def TokenBucket.Full (limits : Limits) (clock : ℚ) (bucket : TokenBucket) : Prop :=
  (limits.capacity : ℚ) ≤ bucket.tokens + refill limits (clock - bucket.last)

include some_ window

theorem refilled_eq {bucket : TokenBucket} {now : ℚ} (past : bucket.last ≤ now) :
    bucket.refilled limits now =
      min (limits.capacity : ℚ) (bucket.tokens + refill limits (now - bucket.last)) := by
  have rate : limits.refillPerS = limits.capacity / limits.windowS :=
    if_pos ⟨by omega, window⟩
  have positive : (0 : ℚ) ≤ limits.capacity / limits.windowS :=
    div_nonneg (by exact_mod_cast (by omega : 0 ≤ limits.capacity)) window.le
  rw [TokenBucket.refilled, rate, max_eq_right positive, max_eq_right (sub_nonneg.mpr past),
    refill, mul_div_assoc]

theorem refill_mono {s t : ℚ} (le : s ≤ t) : refill limits s ≤ refill limits t := by
  have capacity : (0 : ℚ) ≤ limits.capacity := by exact_mod_cast (by omega : 0 ≤ limits.capacity)
  unfold refill
  gcongr

theorem check_cases {bucket : TokenBucket} {now : ℚ} (past : bucket.last ≤ now) :
    ∃ tokens, tokens = min (limits.capacity : ℚ)
        (bucket.tokens + refill limits (now - bucket.last)) ∧
      ((1 ≤ tokens ∧ bucket.check limits now = (⟨true, false, 0⟩, ⟨tokens - 1, now, false⟩)) ∨
        (tokens < 1 ∧ ∃ wait, bucket.check limits now =
          (⟨false, !bucket.notified, wait⟩, ⟨tokens, now, true⟩))) := by
  refine ⟨_, rfl, ?_⟩
  rw [← refilled_eq some_ window past, TokenBucket.check, if_neg (by omega)]
  rcases le_or_gt 1 (bucket.refilled limits now) with enough | short
  · exact .inl ⟨enough, if_pos enough⟩
  · exact .inr ⟨short, _, if_neg short.not_ge⟩

theorem TokenBucket.Sound.check {bucket : TokenBucket} {clock now : ℚ}
    (sound : bucket.Sound limits clock) (on : clock ≤ now) :
    (bucket.check limits now).2.Sound limits now := by
  have past := sound.past.trans on
  have capacity : (1 : ℚ) ≤ limits.capacity := by exact_mod_cast some_
  have gain := refill_mono some_ window (sub_nonneg.mpr past)
  rw [show refill limits 0 = 0 by simp [refill]] at gain
  have nonneg := sound.nonneg
  obtain ⟨tokens, held, ⟨enough, result⟩ | ⟨short, wait, result⟩⟩ :=
    check_cases some_ window past
  · rw [result]
    have most : tokens ≤ limits.capacity := held ▸ min_le_left _ _
    exact ⟨by linarith, by linarith, le_rfl⟩
  · rw [result]
    have least : 0 ≤ tokens := held ▸ le_min (by linarith) (by linarith)
    exact ⟨least, by linarith, le_rfl⟩

theorem check_full {bucket : TokenBucket} {clock now : ℚ} (full : bucket.Full limits clock)
    (past : bucket.last ≤ clock) (on : clock ≤ now) :
    bucket.check limits now = (⟨true, false, 0⟩, ⟨limits.capacity - 1, now, false⟩) := by
  have gain := refill_mono some_ window (sub_le_sub_right on bucket.last)
  have capacity : (1 : ℚ) ≤ limits.capacity := by exact_mod_cast some_
  unfold TokenBucket.Full at full
  obtain ⟨tokens, held, ⟨-, result⟩ | ⟨short, -⟩⟩ :=
    check_cases some_ window (past.trans on : bucket.last ≤ now)
  · rw [result, held, min_eq_left (by linarith)]
  · rw [held, min_eq_left (by linarith)] at short
    linarith

/-! ### Dropped buckets -/

variable {K : Type}

/-- The limiter holds the buckets that are kept, except for some that are full. -/
structure Mirrors (limits : Limits) (clock : ℚ) (buckets : K → Option TokenBucket)
    (kept : K → TokenBucket) : Prop where
  sound : ∀ k, (kept k).Sound limits clock
  held : ∀ k bucket, buckets k = some bucket → bucket = kept k
  full : ∀ k, buckets k = none → (kept k).Full limits clock

theorem Mirrors.wait {clock now : ℚ} {buckets : K → Option TokenBucket} {kept : K → TokenBucket}
    (mirrors : Mirrors limits clock buckets kept) (on : clock ≤ now) :
    Mirrors limits now buckets kept where
  sound k := { mirrors.sound k with past := (mirrors.sound k).past.trans on }
  held := mirrors.held
  full k gone := (mirrors.full k gone).trans
    (add_le_add_right (refill_mono some_ window (sub_le_sub_right on _)) _)

theorem Mirrors.sweep {clock : ℚ} {buckets : K → Option TokenBucket} {kept : K → TokenBucket}
    (mirrors : Mirrors limits clock buckets kept) :
    Mirrors limits clock (sweep limits clock buckets) kept := by
  rw [RateLimiter.sweep, if_neg window.not_ge]
  refine ⟨mirrors.sound, fun k bucket found => mirrors.held k bucket ?_, fun k gone => ?_⟩
  · exact (Option.filter_eq_some_iff.mp found).1
  · cases old : buckets k with
    | none => exact mirrors.full k old
    | some bucket =>
      have idle : limits.windowS ≤ clock - bucket.last := by simpa [old] using gone
      have gain := refill_mono some_ window idle
      rw [show refill limits limits.windowS = limits.capacity by
        rw [refill, mul_comm, mul_div_assoc, div_self window.ne', mul_one]] at gain
      have nonneg := (mirrors.sound k).nonneg
      rw [← mirrors.held k bucket old] at nonneg ⊢
      unfold TokenBucket.Full
      linarith

omit window in
theorem Mirrors.fresh (start : ℚ) :
    Mirrors (K := K) limits start (fun _ => none) (fun _ => .fresh limits start) := by
  have capacity : (0 : ℚ) ≤ limits.capacity := by exact_mod_cast (by omega : 0 ≤ limits.capacity)
  have full : max 0 (limits.capacity : ℚ) = limits.capacity := max_eq_right capacity
  refine ⟨fun _ => ⟨le_max_left _ _, full.le, le_rfl⟩, fun _ _ found => ?_, fun _ _ => ?_⟩
  · cases found
  · simp [TokenBucket.Full, TokenBucket.fresh, refill, full]

variable [DecidableEq K]

theorem Mirrors.check {clock : ℚ} {limiter : Limiter K} {kept : K → TokenBucket}
    (mirrors : Mirrors limits clock limiter.buckets kept) {call : Call K}
    (first : clock ≤ call.swept) (second : call.swept ≤ call.created)
    (third : call.created ≤ call.now) :
    (limiter.check limits call).1 = (checkKept limits call kept).1 ∧
      Mirrors limits call.now (limiter.check limits call).2.buckets
        (checkKept limits call kept).2 := by
  rw [Limiter.check, if_neg (by omega), checkKept]
  have swept : Mirrors limits call.swept (limiter.current limits call.swept) kept := by
    have waited := mirrors.wait some_ window first
    unfold Limiter.current
    split
    · exact waited.sweep some_ window
    · exact waited
  generalize limiter.current limits call.swept = buckets at swept ⊢
  have same : ((buckets call.key).getD (.fresh limits call.created)).check limits call.now =
      (kept call.key).check limits call.now := by
    cases old : buckets call.key with
    | some bucket => rw [Option.getD_some, swept.held _ _ old]
    | none =>
      have new := Mirrors.fresh (K := K) some_ call.created
      rw [Option.getD_none,
        check_full some_ window (new.full call.key rfl) (new.sound call.key).past third,
        check_full some_ window (swept.full _ old) (swept.sound _).past (second.trans third)]
  have later := swept.wait some_ window (second.trans third)
  simp only [same]
  refine ⟨trivial, fun k => ?_, fun k bucket found => ?_, fun k gone => ?_⟩
  · by_cases here : k = call.key
    · subst here
      simpa using (swept.sound _).check some_ window (second.trans third)
    · simpa [here] using later.sound k
  · by_cases here : k = call.key
    · subst here
      simpa [same, eq_comm] using found
    · simpa [here] using later.held k bucket (by simpa [here] using found)
  · by_cases here : k = call.key
    · subst here
      simp at gone
    · simpa [here] using later.full k (by simpa [here] using gone)

theorem decisions_eq {clock : ℚ} {limiter : Limiter K} {kept : K → TokenBucket}
    (mirrors : Mirrors limits clock limiter.buckets kept) {calls : List (Call K)}
    (onward : Onward clock calls) :
    decisions (Limiter.check limits) limiter calls = decisions (checkKept limits) kept calls := by
  induction calls generalizing clock limiter kept with
  | nil => rfl
  | cons call rest ih =>
    obtain ⟨first, second, third, onward⟩ := onward
    obtain ⟨same, mirrors⟩ := mirrors.check some_ window first second third
    rw [decisions, decisions, same, ih mirrors onward]

/-! ### What the buckets pay for -/

/-- Of the checks counted so far, in an interval, each has been paid for. -/
structure Paid (limits : Limits) (a b n : ℚ) (bucket : TokenBucket) : Prop where
  early : bucket.last < a → n = 0
  paid : n + bucket.tokens ≤ limits.capacity + refill limits (max bucket.last a - a)
  total : n ≤ limits.capacity + refill limits (b - a)

def Counted (a b now : ℚ) (decision : RateDecision) : Prop :=
  decision.allowed = true ∧ a ≤ now ∧ now ≤ b

instance (a b now : ℚ) (decision : RateDecision) : Decidable (Counted a b now decision) :=
  inferInstanceAs (Decidable (_ ∧ _ ∧ _))

theorem Paid.check {a b n clock now : ℚ} {bucket : TokenBucket} (paid : Paid limits a b n bucket)
    (sound : bucket.Sound limits clock) (on : clock ≤ now) (interval : a ≤ b) :
    Paid limits a b
      (n + if Counted a b now (bucket.check limits now).1 then 1 else 0)
      (bucket.check limits now).2 := by
  have nonneg := (sound.check some_ window on).nonneg
  -- What is in the bucket after the refill is paid for up to now.
  have held : ∀ tokens, tokens = min (limits.capacity : ℚ)
        (bucket.tokens + refill limits (now - bucket.last)) →
      n + tokens ≤ limits.capacity + refill limits (max now a - a) := by
    intro tokens held
    rcases lt_or_ge bucket.last a with before | since
    · have gain := refill_mono some_ window (sub_nonneg.mpr (le_max_right now a))
      rw [show refill limits 0 = 0 by simp [refill]] at gain
      have most : tokens ≤ limits.capacity := held ▸ min_le_left _ _
      rw [paid.early before]
      linarith
    · have le := paid.paid
      have past := sound.past.trans on
      rw [max_eq_left since] at le
      rw [max_eq_left (since.trans past)]
      have most : tokens ≤ bucket.tokens + refill limits (now - bucket.last) :=
        held ▸ min_le_right _ _
      have sum : refill limits (now - bucket.last) + refill limits (bucket.last - a) =
          refill limits (now - a) := by
        unfold refill
        ring
      linarith
  have within : now ≤ b → refill limits (max now a - a) ≤ refill limits (b - a) :=
    fun le => refill_mono some_ window (sub_le_sub_right (max_le le interval) a)
  obtain ⟨tokens, at_, ⟨enough, result⟩ | ⟨short, wait, result⟩⟩ :=
    check_cases some_ window (sound.past.trans on)
  · have bound := held tokens at_
    rw [result] at nonneg ⊢
    simp only at nonneg
    by_cases counted : a ≤ now ∧ now ≤ b
    · have le := within counted.2
      rw [if_pos ⟨rfl, counted⟩]
      exact ⟨fun before => absurd before counted.1.not_gt, by simp only; linarith, by linarith⟩
    · rw [if_neg fun c => counted c.2, add_zero]
      refine ⟨fun before => ?_, by simp only; linarith, paid.total⟩
      exact paid.early ((sound.past.trans on).trans_lt before)
  · have bound := held tokens at_
    rw [result, if_neg (show ¬ Counted a b now ⟨false, _, wait⟩ from fun c => by cases c.1),
      add_zero]
    exact ⟨fun before => paid.early ((sound.past.trans on).trans_lt before), bound, paid.total⟩

def admitted (k : K) (a b : ℚ) (log : List (Call K × RateDecision)) : ℕ :=
  log.countP fun entry => decide (entry.1.key = k ∧ Counted a b entry.1.now entry.2)

theorem admitted_le {a b n clock : ℚ} {kept : K → TokenBucket} (k : K)
    (sound : ∀ k, (kept k).Sound limits clock) (paid : Paid limits a b n (kept k))
    (interval : a ≤ b) {calls : List (Call K)} (onward : Onward clock calls) :
    n + admitted k a b (decisions (checkKept limits) kept calls) ≤
      limits.capacity + refill limits (b - a) := by
  induction calls generalizing clock kept n with
  | nil => simpa [admitted, decisions] using paid.total
  | cons call rest ih =>
    obtain ⟨first, second, third, onward⟩ := onward
    have on := first.trans (second.trans third)
    have sound' : ∀ k, ((checkKept limits call kept).2 k).Sound limits call.now := by
      intro j
      by_cases here : j = call.key
      · subst here
        simpa [checkKept] using (sound _).check some_ window on
      · simpa [checkKept, here] using { sound j with past := (sound j).past.trans on }
    rw [decisions, admitted, List.countP_cons, ← admitted]
    by_cases here : call.key = k
    · subst here
      have step := paid.check some_ window (sound _) on interval
      have rest := ih sound' (by simpa [checkKept] using step) onward
      simp only [checkKept, true_and, decide_eq_true_eq] at rest ⊢
      push_cast
      linarith
    · have rest := ih sound' (by simpa [checkKept, Ne.symm here] using paid) onward
      simpa [here] using rest

/-! ### Notices -/

def notices (k : K) (log : List (Call K × RateDecision)) : ℕ :=
  log.countP fun entry => decide (entry.1.key = k) && !entry.2.allowed && entry.2.shouldNotify

omit some_ window in
theorem check_refused {bucket : TokenBucket} {now : ℚ}
    (refused : (bucket.check limits now).1.allowed = false) :
    (bucket.check limits now).1.shouldNotify = !bucket.notified ∧
      (bucket.check limits now).2.notified = true := by
  unfold TokenBucket.check at refused ⊢
  split
  · next off => simp [off] at refused
  · next on =>
    simp only [if_neg on] at refused ⊢
    split
    · next enough => simp [enough] at refused
    · exact ⟨rfl, rfl⟩

omit some_ window in
theorem notices_le {k : K} {kept : K → TokenBucket} {calls : List (Call K)}
    {between after : List (Call K × RateDecision)}
    (log : decisions (checkKept limits) kept calls = between ++ after)
    (refused : ∀ entry ∈ between, entry.1.key = k → entry.2.allowed = false) :
    notices k between ≤ if (kept k).notified then 0 else 1 := by
  induction calls generalizing kept between with
  | nil =>
    have none_ := (List.append_eq_nil_iff.mp log.symm).1
    simp [none_, notices]
  | cons call rest ih =>
    cases between with
    | nil => simp [notices]
    | cons entry between =>
      obtain ⟨rfl, tail⟩ := List.cons.inj log
      rw [List.forall_mem_cons] at refused
      have later := ih tail refused.2
      rw [notices, List.countP_cons, ← notices]
      by_cases here : call.key = k
      · subst here
        have no := refused.1 rfl
        obtain ⟨asks, asked⟩ := check_refused no
        simp only [checkKept, Function.update_self, asked, if_true, Nat.le_zero_eq] at later
        simp only [checkKept] at no
        cases before : (kept call.key).notified <;> simp [later, checkKept, no, asks, before]
      · simp only [checkKept, Function.update_of_ne (Ne.symm here)] at later
        simpa [here] using later

omit [DecidableEq K] some_ window in
theorem decisions_suffix {S : Type} {check : Call K → S → RateDecision × S} {s : S}
    {calls : List (Call K)} {before after : List (Call K × RateDecision)}
    (log : decisions check s calls = before ++ after) :
    ∃ s' calls', decisions check s' calls' = after := by
  induction before generalizing s calls with
  | nil => exact ⟨s, calls, log⟩
  | cons entry before ih =>
    cases calls with
    | nil => cases log
    | cons call rest => exact ih (List.cons.inj log).2

/-- Dropping full buckets changes no decision; a key is allowed no more than its capacity and what
comes in meanwhile, and one notice at most between two checks that are allowed. -/
theorem rate_limit (start : ℚ) {calls : List (Call K)} (onward : Onward start calls) :
    let log := decisions (Limiter.check limits) .init calls
    log = decisions (checkKept limits) (fun _ => .fresh limits start) calls ∧
      (∀ k a b, a ≤ b → (admitted k a b log : ℚ) ≤
        limits.capacity + (b - a) * limits.capacity / limits.windowS) ∧
      ∀ k before between after, log = before ++ between ++ after →
        (∀ entry ∈ between, entry.1.key = k → entry.2.allowed = false) →
        notices k between ≤ 1 := by
  intro log
  have mirrors : Mirrors limits start (Limiter.init : Limiter K).buckets _ :=
    Mirrors.fresh some_ start
  have same := decisions_eq some_ window mirrors onward
  refine ⟨same, fun k a b interval => ?_, fun k before between after split refused => ?_⟩
  · have full : (TokenBucket.fresh limits start).tokens = limits.capacity :=
      max_eq_right (by exact_mod_cast (by omega : 0 ≤ limits.capacity))
    have gain : ∀ {stretch : ℚ}, 0 ≤ stretch → 0 ≤ refill limits stretch := fun le => by
      simpa [refill] using (refill_mono some_ window le : refill limits 0 ≤ refill limits _)
    have paid : Paid limits a b 0 (TokenBucket.fresh limits start) := by
      have capacity : (0 : ℚ) ≤ limits.capacity := by
        exact_mod_cast (by omega : 0 ≤ limits.capacity)
      have later := gain (sub_nonneg.mpr (le_max_right start a))
      have whole := gain (sub_nonneg.mpr interval)
      refine ⟨fun _ => rfl, ?_, by linarith⟩
      rw [full]
      exact by simpa [TokenBucket.fresh] using later
    have bound := admitted_le some_ window k mirrors.sound paid interval onward
    rw [← same] at bound
    simpa [refill] using bound
  · obtain ⟨kept, calls', rest⟩ := decisions_suffix (same.symm.trans (split.trans
      (List.append_assoc before between after)))
    have most := notices_le rest refused
    split_ifs at most <;> omega

end Bucket

def fourCalls : List (Call String) :=
  [⟨"a", 0, 0, 0⟩, ⟨"a", 1, 1, 1⟩, ⟨"a", 1, 1, 2⟩, ⟨"a", 70, 70, 75⟩]

theorem rate_limit_four :
    decisions (Limiter.check ⟨2, 60⟩) .init fourCalls =
        decisions (checkKept ⟨2, 60⟩) (fun _ => .fresh ⟨2, 60⟩ 0) fourCalls ∧
      (admitted "a" 0 30 (decisions (Limiter.check ⟨2, 60⟩) .init fourCalls) : ℚ) ≤
        (2 : ℤ) + (30 - 0) * (2 : ℤ) / 60 := by
  have onward : Onward 0 fourCalls := by norm_num [fourCalls, Onward]
  have limited := rate_limit (by decide : 1 ≤ (⟨2, 60⟩ : Limits).capacity) (by norm_num) 0 onward
  exact ⟨limited.1, limited.2.1 "a" 0 30 (by norm_num)⟩

section Waiting
variable {limits : Limits} (some_ : 1 ≤ limits.capacity) (window : 0 < limits.windowS)
include some_ window

/-- When the bucket has its next token. -/
def TokenBucket.ready (limits : Limits) (bucket : TokenBucket) : ℚ :=
  bucket.last + (1 - bucket.tokens) * limits.windowS / limits.capacity

theorem check_ready {bucket : TokenBucket} {now : ℚ} (past : bucket.last ≤ now) :
    ((bucket.check limits now).1.allowed = true ↔ bucket.ready limits ≤ now) ∧
      ((bucket.check limits now).1.allowed = false →
        (bucket.check limits now).1.retryAfterS = bucket.ready limits - now ∧
          (bucket.check limits now).2.ready limits = bucket.ready limits) := by
  have capacity : (1 : ℚ) ≤ limits.capacity := by exact_mod_cast some_
  have positive : (0 : ℚ) < limits.capacity := by linarith
  have level : 1 ≤ bucket.tokens + refill limits (now - bucket.last) ↔
      bucket.ready limits ≤ now := by
    rw [TokenBucket.ready, refill, ← le_sub_iff_add_le', div_le_iff₀ positive,
      ← sub_le_iff_le_add', le_div_iff₀ window]
  have gain : 0 < (limits.capacity : ℚ) / limits.windowS := div_pos positive window
  have rate : max 0 limits.refillPerS = limits.capacity / limits.windowS := by
    rw [Limits.refillPerS, if_pos ⟨by omega, window⟩, max_eq_right gain.le]
  have held := refilled_eq some_ window past
  unfold TokenBucket.check
  simp only [if_neg (show ¬ limits.capacity ≤ 0 by omega), rate, if_pos gain]
  by_cases enough : 1 ≤ bucket.refilled limits now
  · rw [if_pos enough]
    rw [held, le_min_iff] at enough
    simpa using level.mp enough.2
  · rw [if_neg enough]
    have short : bucket.refilled limits now = bucket.tokens + refill limits (now - bucket.last) := by
      rw [held, min_def] at enough ⊢
      split_ifs at enough ⊢
      · exact absurd capacity enough
      · rfl
    rw [short, level] at enough
    refine ⟨by simpa using enough, fun _ => ⟨?_, ?_⟩⟩
    · simp only [short, TokenBucket.ready, refill]
      field_simp
      ring
    · simp only [short, TokenBucket.ready, refill]
      field_simp
      ring

variable {K : Type} [DecidableEq K]

theorem sound_checkKept {kept : K → TokenBucket} {clock : ℚ} {call : Call K}
    (sound : ∀ k, (kept k).Sound limits clock) (on : clock ≤ call.now) (k : K) :
    ((checkKept limits call kept).2 k).Sound limits call.now := by
  by_cases here : k = call.key
  · subst here
    simpa [checkKept] using (sound _).check some_ window on
  · simpa [checkKept, here] using { sound k with past := (sound k).past.trans on }

theorem allowed_when_ready {kept : K → TokenBucket} {clock : ℚ} {calls : List (Call K)}
    (sound : ∀ k, (kept k).Sound limits clock) (onward : Onward clock calls)
    {between after : List (Call K × RateDecision)} {last : Call K × RateDecision}
    (log : decisions (checkKept limits) kept calls = between ++ last :: after)
    (refused : ∀ entry ∈ between, entry.1.key = last.1.key → entry.2.allowed = false) :
    last.2.allowed = true ↔ (kept last.1.key).ready limits ≤ last.1.now := by
  induction calls generalizing clock kept between with
  | nil => simp [decisions] at log
  | cons call rest ih =>
    obtain ⟨first, second, third, onward⟩ := onward
    have on := first.trans (second.trans third)
    cases between with
    | nil =>
      obtain ⟨rfl, -⟩ := List.cons.inj log
      exact (check_ready some_ window ((sound _).past.trans on)).1
    | cons entry between =>
      obtain ⟨rfl, tail⟩ := List.cons.inj log
      rw [List.forall_mem_cons] at refused
      rw [ih (sound_checkKept some_ window sound on) onward tail refused.2]
      by_cases here : call.key = last.1.key
      · have no := refused.1 here
        rw [← here]
        simp only [checkKept, Function.update_self]
        rw [((check_ready some_ window ((sound _).past.trans on)).2 no).2]
      · simp only [checkKept, Function.update_of_ne (Ne.symm here)]

theorem retry_kept {kept : K → TokenBucket} {clock : ℚ} {calls : List (Call K)}
    (sound : ∀ k, (kept k).Sound limits clock) (onward : Onward clock calls)
    {before between after : List (Call K × RateDecision)} {first last : Call K × RateDecision}
    (log : decisions (checkKept limits) kept calls = before ++ first :: (between ++ last :: after))
    (same : last.1.key = first.1.key) (refused : first.2.allowed = false)
    (still : ∀ entry ∈ between, entry.1.key = first.1.key → entry.2.allowed = false) :
    0 < first.2.retryAfterS ∧
      (last.2.allowed = true ↔ first.1.now + first.2.retryAfterS ≤ last.1.now) := by
  induction before generalizing clock calls kept with
  | nil =>
    cases calls with
    | nil => cases log
    | cons call rest =>
      obtain ⟨one, two, three, onward⟩ := onward
      have on := one.trans (two.trans three)
      obtain ⟨rfl, tail⟩ := List.cons.inj log
      obtain ⟨allowed, waits⟩ := check_ready some_ window ((sound call.key).past.trans on)
      obtain ⟨wait, ready⟩ := waits refused
      have late : ¬ (kept call.key).ready limits ≤ call.now := fun early => by
        cases refused.symm.trans (allowed.mpr early)
      have next := allowed_when_ready some_ window (sound_checkKept some_ window sound on) onward
        tail fun entry inside own => still entry inside (own.trans same)
      simp only [same, checkKept, Function.update_self, ready] at next
      simp only [checkKept, wait]
      exact ⟨by linarith, next.trans (by rw [add_sub_cancel])⟩
  | cons entry before ih =>
    cases calls with
    | nil => cases log
    | cons call rest =>
      obtain ⟨one, two, three, onward⟩ := onward
      exact ih (sound_checkKept some_ window sound (one.trans (two.trans three))) onward
        (List.cons.inj log).2

end Waiting

def threeCalls : List (Call String) := [⟨"a", 0, 0, 0⟩, ⟨"a", 20, 20, 20⟩, ⟨"a", 70, 70, 70⟩]

end Casa.RateLimiter
