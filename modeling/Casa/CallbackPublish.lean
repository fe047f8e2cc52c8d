import Casa.CallbackLawful

/-! How often the name `results/<hash>.json` is created. Custody moves from `pending/` to
`.claims/` and on to `results/`; the one way back is the restore arm of the recovery pass, and
it looks at the result's name only. -/

namespace Casa.CallbackPublish
open CallbackAttempts OperationTree CallbackSpool CallbackPasses CallbackHost CallbackLicence
open CallbackLawful StepRuns

variable {H T M : Type} {c d : Cell T M}

def restores : CellOp T M → Bool
  | .restore => true
  | _ => false

def enters : CellOp T M → Bool
  | .enter => true
  | _ => false

/-- A claim goes back to `pending/` only while no result of it was ever published, and a handler
goes on with its claim only after the pending name is gone. -/
def Onward (op : CellOp T M) (_ : Input H T) (c : Cell T M) : Prop :=
  (restores op = true → c.created = 0) ∧ (enters op = true → c.pending = none)

instance (op : CellOp T M) (i : Input H T) (c : Cell T M) : Decidable (Onward op i c) :=
  inferInstanceAs (Decidable ((_ = true → c.created = 0) ∧ (_ = true → c.pending = none)))

def Once (c : Cell T M) : Prop :=
  c.created ≤ 1 ∧ (c.minted = false → c.created = 0) ∧ (c.pending ≠ none → c.created = 0) ∧
    (c.phase = .taking → c.created = 0) ∧ (c.phase = .held → c.created = 0 ∧ c.pending = none)

theorem Once.consumer {v : Verb T M} (once : Once c) (wf : Wf c) : Once (c.consumer v) := by
  obtain ⟨most, unminted, pending, taking, held⟩ := once
  have minted : (c.consumer v).minted = false → c.minted = false := by
    intro no
    by_contra yes
    rw [consumer_minted (Bool.not_eq_false _ ▸ yes)] at no
    cases no
  refine ⟨by rwa [consumer_created], fun no => ?_, fun there => ?_, ?_, fun busy => ?_⟩
  · rw [consumer_created]
    exact unminted (minted no)
  · rw [consumer_created]
    rcases consumer_pending (c := c) (v := v) with same | no
    · exact pending (same ▸ there)
    · exact unminted no
  · rwa [consumer_created, consumer_phase]
  · rw [consumer_phase] at busy
    rw [consumer_created]
    refine ⟨(held busy).1, ?_⟩
    rcases consumer_pending (c := c) (v := v) with same | no
    · exact same.trans (held busy).2
    · rcases (wf.fresh no).2.2.1 with away | away <;> rw [busy] at away <;> cases away

theorem Once.crash (once : Once c) : Once c.crash :=
  ⟨once.1, once.2.1, once.2.2.1, nofun, nofun⟩

theorem Once.drop {slot : Slot} (once : Once c) : Once (c.drop slot) := by
  cases slot with
  | pending => exact ⟨once.1, once.2.1, fun some_ => absurd rfl some_, once.2.2.2.1,
      fun busy => ⟨(once.2.2.2.2 busy).1, rfl⟩⟩
  | _ => exact once

theorem Once.effect {op : CellOp T M} {i : Input H T} (once : Once c) (wf : Wf c)
    (licensed : Licence op c) (onward : Onward op i c) (effect : Effect c op d) : Once d := by
  obtain ⟨most, unminted, pending, taking, held⟩ := once
  have same : Once c := ⟨most, unminted, pending, taking, held⟩
  cases effect with
  | claimed there => exact ⟨most, unminted, pending, fun _ => pending there, nofun⟩
  | restored =>
    refine ⟨most, unminted, fun _ => onward.1 rfl, taking, fun busy => ?_⟩
    rcases licensed.1 with away | away <;> rw [show c.phase = .held from busy] at away <;>
      cases away
  | published =>
    obtain ⟨zero, gone⟩ := held licensed
    have minted : c.minted ≠ false := fun no => by
      rcases (wf.fresh no).2.2.1 with away | away <;> rw [licensed] at away <;> cases away
    exact ⟨by simp [zero], fun no => absurd no minted, fun there => absurd gone there, nofun, nofun⟩
  | anomalous => exact ⟨most, unminted, pending, nofun, nofun⟩
  | entered => exact ⟨most, unminted, pending, nofun, fun _ => ⟨taking licensed, onward.2 rfl⟩⟩
  | left recorded => refine ⟨most, unminted, pending, ?_, ?_⟩ <;> cases recorded <;> nofun
  | dropped slot there => exact same.drop
  | _ => exact same

variable [LinearOrder H] [LinearOrder T] [Add T] [Sub T] [NatCast T]

/-- However claims, publishes, passes, sweeps, consumers and crashes interleave, a state has at
most one result, as long as every step of its flow goes onward. -/
theorem published_once (h : H) {ls : List (SpoolLabel H T M)} {d : SpoolConfig H T M}
    (run : Runs spool.step (fun l c => wellCalled l c ∧ Minds Onward h l c) emptySpool ls d) :
    (d.state h).created ≤ 1 := by
  have once : Once (d.state h) := by
    refine cell_invariant (fun l c ok => ok.1) ?_ ?_ ?_ run lawed_empty ?_
    · exact fun c v _ wf once => once.consumer wf
    · exact fun c _ _ once => once.crash
    · exact fun c task op i d ok next wf licensed effect once =>
        once.effect wf licensed (ok.2.op next) effect
    · exact ⟨Nat.zero_le 1, fun _ => rfl, fun _ => rfl, nofun, nofun⟩
  exact once.1

section Collected

def redirected : List (SpoolLabel Bool Int Unit) :=
  [.env (false, .mint ⟨100, none⟩), .start (.claim false 101)] ++ succeed false 101 4 ++
    [.finish, .start (.publishResult false true 101)] ++ succeed false 101 5

theorem redirected_published_once : ∃ d : SpoolConfig Bool Int Unit,
    Runs spool.step (fun l c => wellCalled l c ∧ Minds Onward false l c) emptySpool redirected d ∧
      0 < (d.state false).created ∧ (d.state false).created ≤ 1 := by
  have legal : Legal spool.step (fun l c => wellCalled l c ∧ Minds Onward false l c)
      (emptySpool : SpoolConfig Bool Int Unit) redirected := by decide +kernel
  exact ⟨_, legal.runs, by decide +kernel, published_once false legal.runs⟩

/-- The process dies before the claim is unlinked, the consumer collects, and the redirect is
replayed after the recovery pass at boot. -/
def replayed : List (SpoolLabel Bool Int Unit) :=
  redirected ++ [.crash, .env (false, .collect 7), .start (.recoveryPass 120 true)] ++
    succeed false 120 11 ++ [.finish, .start (.claim false 121)] ++ succeed false 121 4 ++
    [.finish, .start (.publishResult false true 121)] ++ succeed false 121 5

theorem collected_then_published_again : ∃ d : SpoolConfig Bool Int Unit,
    Runs spool.step wellCalled emptySpool replayed d ∧ (d.state false).created = 2 :=
  ⟨_, Legal.runs (by decide +kernel), by decide +kernel⟩

end Collected

end Casa.CallbackPublish
