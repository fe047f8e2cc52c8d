import Casa.CallbackLawful

/-! What follows a `FAILED_RECORDED`. The recovery pass completes the deletion of a claim whose
record is terminal, so the flow is over for as long as the record stays terminal beside the
claim; the attempts pass has the opposite rule for the same two files. -/

namespace Casa.CallbackFailure
open CallbackAttempts OperationTree CallbackSpool CallbackPasses CallbackHost CallbackLicence
open CallbackLawful StepRuns

variable {H T M : Type} {c d : Cell T M}

def unmakes : CellOp T M → Bool
  | .retire | .unlink .attempt => true
  | .replace .rebuilt _ | .replace (.materialized .artifacts) _ => true
  | _ => false

def Outlives (op : CellOp T M) (_ : Input H T) (c : Cell T M) : Prop :=
  unmakes op = true → c.claim = none

instance (op : CellOp T M) (i : Input H T) (c : Cell T M) : Decidable (Outlives op i c) :=
  inferInstanceAs (Decidable (unmakes op = true → c.claim = none))

def Unacked (h : H) : SpoolLabel H T M → SpoolConfig H T M → Prop
  | .env (k, .ack), c => k = h → (c.state h).claim = none
  | _, _ => True

instance [DecidableEq H] (h : H) :
    ∀ (l : SpoolLabel H T M) (c : SpoolConfig H T M), Decidable (Unacked h l c)
  | .env (k, v), c =>
      match v with
      | .ack => inferInstanceAs (Decidable (k = h → (c.state h).claim = none))
      | .mint _ | .collect _ => isTrue trivial
  | .start _, _ | .advance _, _ | .finish, _ | .crash, _ => isTrue trivial

/-- The flow has no pending file and no handler, and its claim, if it is still there, stands
beside a terminal record. -/
def Over (c : Cell T M) : Prop :=
  c.minted = true ∧ c.pending = none ∧ Away c ∧ (c.claim = none ∨ c.Done)

theorem Over.consumer {v : Verb T M} (finished : Over c)
    (unacked : v = .ack → c.claim = none) : Over (c.consumer v) := by
  obtain ⟨minted, pending, away, rest⟩ := finished
  refine ⟨consumer_minted minted, ?_, ?_, ?_⟩
  · rcases consumer_pending (c := c) (v := v) with same | no
    · exact same.trans pending
    · rw [minted] at no
      cases no
  · unfold Away
    rwa [consumer_phase]
  · rw [consumer_claim]
    rcases rest with gone | done
    · exact .inl gone
    · by_cases ack : v = .ack
      · exact .inl (unacked ack)
      · right
        unfold Cell.Done
        rwa [(consumer_unacked ack).1]

theorem done_of_snapshot {a : Attempt T M} (done : c.Done) (snap : Snapshot a c) :
    a.status.isDone = true := by
  obtain ⟨b, present, ended⟩ := done
  rcases snap.1 with same | ⟨gone, -⟩
  · rw [present] at same
    cases same
    exact ended
  · rw [present] at gone
    cases gone

theorem done_of_write {site : Site} {a : Attempt T M} (away : Away c)
    (ended : ∀ p, Snapshot p c → p.status.isDone = true) (licence : WriteLicence a c site)
    (first : site ≠ .rebuilt) (second : site ≠ .materialized .artifacts) : a.status.isDone = true := by
  have free : c.phase ≠ .held := by
    rcases away with phase | phase <;> rw [phase] <;> nofun
  cases site with
  | ready => exact absurd licence.1 free
  | failed => exact absurd licence.1 free
  | settled origin =>
    cases origin <;> obtain ⟨-, o, -, status⟩ := licence <;> rw [status] <;> rfl
  | rebuilt => exact absurd rfl first
  | materialized origin =>
    cases origin with
    | record => exact ended a licence
    | artifacts => exact absurd rfl second
  | raised =>
    obtain ⟨p, continues, status⟩ := licence
    rw [status]
    exact ended p continues.1
  | inferred =>
    obtain ⟨p, continues, undone, -⟩ := licence
    rw [ended p continues.1] at undone
    cases undone
  | evicted =>
    obtain ⟨p, -, status⟩ := licence
    rw [status]
    rfl
  | accepted =>
    obtain ⟨p, due, snap, -, -, status⟩ := licence
    rw [status]
    exact ended p snap
  | merged =>
    obtain ⟨p, continues, status⟩ := licence
    rw [status]
    exact ended p continues.1

theorem Over.effect {op : CellOp T M} {i : Input H T} (finished : Over c) (licensed : Licence op c)
    (outlives : Outlives op i c) (effect : Effect c op d) : Over d := by
  obtain ⟨minted, pending, away, rest⟩ := finished
  have same : Over c := ⟨minted, pending, away, rest⟩
  have free : c.phase ≠ .taking ∧ c.phase ≠ .held := by
    rcases away with phase | phase <;> rw [phase] <;> exact ⟨nofun, nofun⟩
  have wrote : ∀ site a, WriteLicence a c site →
      (site = .rebuilt ∨ site = .materialized .artifacts → c.claim = none) →
      Over (c.write site a) := by
    intro site a licence spared
    refine ⟨minted, pending, away, ?_⟩
    by_cases gone : c.claim = none
    · exact .inl gone
    · have done := rest.resolve_left gone
      refine .inr ⟨a, rfl, done_of_write away (fun p => done_of_snapshot done) licence ?_ ?_⟩
      · exact fun anew => gone (spared (.inl anew))
      · exact fun anew => gone (spared (.inr anew))
  cases effect with
  | claimed there => exact absurd pending there
  | restored =>
    rcases rest with gone | done
    · exact absurd gone licensed.2.1
    · exact absurd done licensed.2.2.2
  | published => exact absurd licensed free.2
  | anomalous => exact absurd licensed free.2
  | entered => exact absurd licensed free.1
  | left recorded =>
    refine ⟨minted, pending, ?_, rest⟩
    cases recorded
    · exact .inl rfl
    · exact .inr rfl
  | dropped slot there =>
    cases slot with
    | pending => exact ⟨minted, rfl, away, rest⟩
    | claim => exact ⟨minted, pending, away, .inl rfl⟩
    | attempt => exact ⟨minted, pending, away, .inl (outlives rfl)⟩
    | _ => exact same
  | retired there => exact ⟨minted, pending, away, .inl (outlives rfl)⟩
  | wrote site a other =>
    refine wrote site a licensed.2 ?_
    rintro (rfl | rfl)
    · exact outlives rfl
    · exact outlives rfl
  | counted a => exact wrote .accepted a licensed.2 (by simp)
  | _ => exact same

variable [LinearOrder H] [LinearOrder T] [Add T] [Sub T] [NatCast T]

section Reopened

/-- A redirect whose result cannot be serialized, up to the end of `publish_result`. -/
def refused : List (SpoolLabel Bool Int Unit) :=
  [.env (false, .mint ⟨100, none⟩), .start (.claim false 101)] ++ succeed false 101 4 ++
    [.finish, .start (.publishResult false false 101)] ++ succeed false 101 4 ++ [.finish]

def recovered : List (SpoolLabel Bool Int Unit) :=
  [.crash, .start (.recoveryPass 120 true)] ++ succeed false 120 20 ++
    [.finish, .start (.attemptsPass 121 true)] ++ succeed false 121 60 ++ [.finish]

def refusedSpool : SpoolConfig Bool Int Unit :=
  refused.foldl (fun c l => spool.step l c) emptySpool

theorem refused_recorded : (refusedSpool.state false).phase = .recorded ∧
    (refusedSpool.state false).Done ∧ (refusedSpool.state false).pending = none :=
  ⟨by decide +kernel, by decide +kernel, by decide +kernel⟩

/-- The attempts pass comes first: it reopens the record beside the claim, and the recovery pass
then hands the state its second life. -/
def reopened : List (SpoolLabel Bool Int Unit) :=
  [.crash, .start (.attemptsPass 120 true)] ++ succeed false 120 60 ++
    [.finish, .start (.recoveryPass 121 true)] ++ succeed false 121 20 ++ [.finish]

end Reopened

end Casa.CallbackFailure
