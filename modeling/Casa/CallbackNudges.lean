import Casa.CallbackLawful

/-! The redelivery budget of a flow. The worker counts an accepted dispatch in the record it
took its snapshot of; whatever builds the record from the artifacts starts at zero. -/

namespace Casa.CallbackNudges
open CallbackAttempts OperationTree CallbackSpool CallbackPasses CallbackHost CallbackLicence
open CallbackLawful StepRuns

variable {H T M : Type} {c d : Cell T M}

/-- The counter of `attempts/<hash>.json`. -/
def recordedNudges (c : Cell T M) : Option Nat :=
  match c.attempt with
  | some (.record a) => some a.nudges
  | _ => none

def writesAnew : CellOp T M → Bool
  | .replace site _ => site.rebuilds
  | _ => false

def Frugal (op : CellOp T M) (_ : Input H T) (c : Cell T M) : Prop :=
  writesAnew op = true → c.accepted = 0

instance (op : CellOp T M) (i : Input H T) (c : Cell T M) : Decidable (Frugal op i c) :=
  inferInstanceAs (Decidable (writesAnew op = true → c.accepted = 0))

def Budget (c : Cell T M) : Prop :=
  c.spent = c.accepted ∧ c.accepted ≤ maxNudges ∧
    ∀ due, c.due = some due → due.nudges = c.accepted ∧ c.accepted < maxNudges

theorem Budget.consumer {v : Verb T M} (budget : Budget c) : Budget (c.consumer v) := by
  unfold Budget
  rwa [consumer_spent, consumer_accepted, consumer_due]

theorem nudges_of_continues {a p : Attempt T M} (h : Continues a c p) : a.nudges = c.spent :=
  h.2.trans h.1.2

/-- A write that goes on with the schedule, or starts one, writes what was accepted so far. -/
theorem nudges_of_write {site : Site} {a : Attempt T M} (budget : Budget c)
    (licence : WriteLicence a c site) (frugal : site.rebuilds = true → c.accepted = 0)
    (other : site ≠ .accepted) : a.nudges = c.accepted := by
  have zero : a.nudges = 0 → site.rebuilds = true → a.nudges = c.accepted := by
    intro none anew
    rw [none, frugal anew]
  cases site with
  | ready => exact zero licence.2.1 rfl
  | failed => exact zero licence.2.1 rfl
  | settled origin =>
    cases origin with
    | record => exact licence.1.trans budget.1
    | artifacts => exact zero licence.1 rfl
  | rebuilt => exact zero licence.2.1 rfl
  | materialized origin =>
    cases origin with
    | record => exact licence.2.trans budget.1
    | artifacts => exact zero licence.2.1 rfl
  | raised =>
    obtain ⟨p, continues, -⟩ := licence
    exact (nudges_of_continues continues).trans budget.1
  | inferred =>
    obtain ⟨p, continues, -⟩ := licence
    exact (nudges_of_continues continues).trans budget.1
  | evicted =>
    obtain ⟨p, continues, -⟩ := licence
    exact (nudges_of_continues continues).trans budget.1
  | accepted => exact absurd rfl other
  | merged =>
    obtain ⟨p, continues, -⟩ := licence
    exact (nudges_of_continues continues).trans budget.1

theorem Budget.effect {op : CellOp T M} {i : Input H T} (budget : Budget c)
    (licensed : Licence op c) (frugal : Frugal op i c) (effect : Effect c op d) :
    Budget d ∧ c.accepted ≤ d.accepted := by
  obtain ⟨spent, most, due⟩ := budget
  have same : Budget c ∧ c.accepted ≤ c.accepted := ⟨⟨spent, most, due⟩, Nat.le_refl _⟩
  cases effect with
  | wrote site a other =>
    have nudges := nudges_of_write ⟨spent, most, due⟩ licensed.2 (fun anew => frugal anew) other
    rw [Cell.write, if_neg other]
    exact ⟨⟨nudges, most, due⟩, Nat.le_refl _⟩
  | counted a =>
    obtain ⟨p, taken, -, found, nudges, -⟩ := licensed.2
    obtain ⟨sum, below⟩ := due taken found
    refine ⟨⟨?_, below, fun _ due => by cases due⟩, Nat.le_succ _⟩
    change a.nudges = c.accepted + 1
    rw [nudges, sum]
  | spared a => exact ⟨⟨spent, most, fun _ due => by cases due⟩, Nat.le_refl _⟩
  | remembered due =>
    refine ⟨⟨spent, most, fun taken found => ?_⟩, Nat.le_refl _⟩
    obtain ⟨nudges, below⟩ := licensed taken found
    have sum : taken.nudges = c.accepted := nudges.trans spent
    exact ⟨sum, sum ▸ below⟩
  | dropped slot there => cases slot <;> exact same
  | _ => exact same

theorem recordedNudges_eq (wf : Wf c) {n : Nat} (h : recordedNudges c = some n) : n = c.spent := by
  unfold recordedNudges at h
  split at h
  · next a present =>
    cases h
    exact wf.spent a present
  · cases h

variable [LinearOrder H] [LinearOrder T] [Add T] [Sub T] [NatCast T]

theorem budget_of_runs (h : H) {ls : List (SpoolLabel H T M)} {c d : SpoolConfig H T M}
    (run : Runs spool.step (fun l c => wellCalled l c ∧ Minds Frugal h l c) c ls d)
    (lawed : Lawed c) (budget : Budget (c.state h)) :
    Budget (d.state h) ∧ (c.state h).accepted ≤ (d.state h).accepted := by
  refine cell_invariant (J := fun x => Budget x ∧ (c.state h).accepted ≤ x.accepted)
    (fun l c ok => ok.1) ?_ ?_ ?_ run lawed ⟨budget, Nat.le_refl _⟩
  · intro c v _ _ held
    exact ⟨held.1.consumer, by rw [consumer_accepted]; exact held.2⟩
  · exact fun c _ _ held => ⟨⟨held.1.1, held.1.2.1, fun _ due => by cases due⟩, held.2⟩
  · intro c task op i d ok next _ licensed effect held
    obtain ⟨kept, more⟩ := held.1.effect licensed (ok.2.op next) effect
    exact ⟨kept, held.2.trans more⟩

/-- The counter of a flow never goes back and the dispatches accepted for it stay within the
budget, in every run that builds no record anew after the first of them. -/
theorem budget_not_refunded (h : H) {ls ms : List (SpoolLabel H T M)} {c d : SpoolConfig H T M}
    (first : Runs spool.step (fun l c => wellCalled l c ∧ Minds Frugal h l c) emptySpool ls c)
    (second : Runs spool.step (fun l c => wellCalled l c ∧ Minds Frugal h l c) c ms d) :
    (d.state h).accepted ≤ maxNudges ∧
      ∀ n m, recordedNudges (c.state h) = some n → recordedNudges (d.state h) = some m → n ≤ m := by
  have called : ∀ l (c : SpoolConfig H T M),
      wellCalled l c ∧ Minds Frugal h l c → wellCalled l c := fun l c ok => ok.1
  have lawedC := lawed_of_runs called first lawed_empty
  have lawedD := lawed_of_runs called second lawedC
  have budgetC := (budget_of_runs h first lawed_empty ⟨rfl, Nat.zero_le _, fun _ due => by cases due⟩).1
  obtain ⟨budgetD, more⟩ := budget_of_runs h second lawedC budgetC
  refine ⟨budgetD.2.1, fun n m before after => ?_⟩
  rw [recordedNudges_eq (lawedC.inv h) before, recordedNudges_eq (lawedD.inv h) after, budgetC.1,
    budgetD.1]
  exact more

section Refunded

def nudged : List (SpoolLabel Bool Int Unit) :=
  [.env (false, .mint ⟨100, none⟩), .start (.claim false 101)] ++ succeed false 101 4 ++
    [.finish, .start (.publishResult false true 101)] ++ succeed false 101 8 ++
    [.finish, .start (.selectNudgeable 110)] ++ succeed false 110 8 ++
    [.finish, .start (.accept false 110 (some 101))] ++ succeed false 110 8 ++ [.finish]

def swept : List (SpoolLabel Bool Int Unit) :=
  [.start (.sweep 1100)] ++ succeed false 1100 11

def nudgedSpool : SpoolConfig Bool Int Unit :=
  nudged.foldl (fun c l => spool.step l c) emptySpool

theorem swept_not_refunded : ∃ d : SpoolConfig Bool Int Unit,
    Runs spool.step (fun l c => wellCalled l c ∧ Minds Frugal false l c) nudgedSpool swept d ∧
      recordedNudges (nudgedSpool.state false) = some 1 ∧
      recordedNudges (d.state false) = some 1 ∧ (d.state false).accepted ≤ maxNudges := by
  have first : Legal spool.step (fun l c => wellCalled l c ∧ Minds Frugal false l c)
      (emptySpool : SpoolConfig Bool Int Unit) nudged := by decide +kernel
  have second : Legal spool.step (fun l c => wellCalled l c ∧ Minds Frugal false l c)
      nudgedSpool swept := by decide +kernel
  exact ⟨_, second.runs, by decide +kernel, by decide +kernel,
    (budget_not_refunded false first.runs second.runs).1⟩

/-- The unlink that the record authorized fails, and the repair derives the record again. -/
def undeleted : List (SpoolLabel Bool Int Unit) :=
  nudged ++ swept ++ [.advance ⟨false, 1100, [], false⟩] ++ succeed false 1100 7

theorem repair_refunds : ∃ (c : SpoolConfig Bool Int Unit) (l : SpoolLabel Bool Int Unit),
    Runs spool.step wellCalled emptySpool undeleted c ∧
      recordedNudges (c.state false) = some 1 ∧
      recordedNudges ((spool.step l c).state false) = some 0 :=
  ⟨_, .advance ⟨true, 1100, [], false⟩, Legal.runs (by decide +kernel), by decide +kernel,
    by decide +kernel⟩

end Refunded

end Casa.CallbackNudges
