import Casa.CallbackFailure

/-! The ledger of the flows on the side of casa alone: before the consumer takes part, a flow
that was minted has an artifact, or a terminal record that says why not, or had one. -/

namespace Casa.CallbackLedger
open CallbackAttempts OperationTree CallbackSpool CallbackPasses CallbackHost CallbackLicence
open CallbackLawful CallbackFailure StepRuns

variable {H T M : Type} {c d : Cell T M}

def Artifact (c : Cell T M) : Prop := c.pending ≠ none ∨ c.claim ≠ none ∨ c.result ≠ none

def Closed (c : Cell T M) : Prop := c.Done ∨ (c.attempt = none ∧ c.retired = true)

instance (c : Cell T M) : Decidable (Artifact c) := inferInstanceAs (Decidable (_ ∨ _ ∨ _))

instance (c : Cell T M) : Decidable (Closed c) := inferInstanceAs (Decidable (_ ∨ _ ∧ _))

def reopens : CellOp T M → Bool
  | .replace .rebuilt _ | .replace (.materialized .artifacts) _ => true
  | _ => false

/-- No pass builds a record anew between a `FAILED_RECORDED` and the discard it authorizes. -/
def Undisturbed (op : CellOp T M) (_ : Input H T) (c : Cell T M) : Prop :=
  reopens op = true → c.phase ≠ .recorded

instance (op : CellOp T M) (i : Input H T) (c : Cell T M) : Decidable (Undisturbed op i c) :=
  inferInstanceAs (Decidable (reopens op = true → c.phase ≠ .recorded))

def Unserved (h : H) : SpoolLabel H T M → Prop
  | .env (k, .collect _) | .env (k, .ack) => k ≠ h
  | _ => True

instance [DecidableEq H] (h : H) : ∀ l : SpoolLabel H T M, Decidable (Unserved h l)
  | .env (k, v) =>
      match v with
      | .collect _ | .ack => inferInstanceAs (Decidable (k ≠ h))
      | .mint _ => isTrue trivial
  | .start _ | .advance _ | .finish | .crash => isTrue trivial

structure Accounted (c : Cell T M) : Prop where
  unheld : c.held = []
  unacked : c.token = none
  readable : c.attempt ≠ some .invalid
  traced : c.minted = true → Artifact c ∨ Closed c
  recorded : c.phase = .recorded → Closed c
  uncollected : ∀ a, c.attempt = some (.record a) → a.status ≠ .done .collected

section
variable (acc : Accounted c)
include acc

theorem Accounted.done (settled : Settled c) : c.Done :=
  settled.resolve_right fun token => token acc.unacked

theorem Accounted.artifact (live : c.Live) : Artifact c := by
  rcases live with live | live | live | live
  · exact .inl live
  · exact .inr (.inl live)
  · exact .inr (.inr live)
  · exact absurd acc.unheld live

theorem Accounted.present {p : Attempt T M} (snap : Snapshot p c) : c.attempt = some (.record p) :=
  snap.1.resolve_right fun gone => gone.2 acc.unacked

theorem Accounted.mint {m : Mint T M} : Accounted (c.consumer (.mint m)) := by
  simp only [Cell.consumer]
  split
  · exact acc
  · exact ⟨acc.unheld, acc.unacked, acc.readable, fun _ => .inl (.inl (Option.some_ne_none _)), acc.recorded,
      acc.uncollected⟩

theorem Accounted.crash : Accounted c.crash :=
  ⟨acc.unheld, acc.unacked, acc.readable, acc.traced, nofun, acc.uncollected⟩

theorem Accounted.phase {phase : Phase} (recorded : phase = .recorded → Closed c) :
    Accounted { c with phase := phase } :=
  ⟨acc.unheld, acc.unacked, acc.readable, acc.traced, recorded, acc.uncollected⟩

theorem Accounted.drop {slot : Slot} (licence : UnlinkLicence c slot)
    (there : c.has slot = true) : Accounted (c.drop slot) := by
  have closed : Settled c → Closed c := fun settled => .inl (acc.done settled)
  cases slot with
  | pending =>
    refine ⟨acc.unheld, acc.unacked, acc.readable, fun _ => ?_, acc.recorded, acc.uncollected⟩
    rcases licence with ⟨-, claimed⟩ | settled
    · exact .inl (.inr (.inl claimed))
    · exact .inr (closed settled)
  | claim =>
    refine ⟨acc.unheld, acc.unacked, acc.readable, fun _ => ?_, acc.recorded, acc.uncollected⟩
    rcases licence.2.2 with result | held | pending | settled | recorded
    · exact .inl (.inr (.inr result))
    · exact absurd acc.unheld held
    · exact .inl (.inl pending)
    · exact .inr (closed settled)
    · exact .inr (acc.recorded recorded)
  | temp => exact ⟨acc.unheld, acc.unacked, acc.readable, acc.traced, acc.recorded, acc.uncollected⟩
  | result =>
    exact ⟨acc.unheld, acc.unacked, acc.readable, fun _ => .inr (closed licence), acc.recorded,
      acc.uncollected⟩
  | held uid =>
    rw [Cell.has, acc.unheld] at there
    cases there
  | attempt =>
    rcases licence with token | invalid
    · exact absurd acc.unacked token
    · exact absurd invalid acc.readable
  | token =>
    rw [Cell.has, acc.unacked] at there
    cases there

theorem write_accounted (wf : Wf c) {site : Site} {a : Attempt T M}
    (active : Active c) (licence : WriteLicence a c site) :
    a.status ≠ .done .collected ∧ (Artifact c ∨ a.status.isDone = true) := by
  have kept : ∀ p, Snapshot p c → a.status = p.status →
      a.status ≠ .done .collected ∧ (Artifact c ∨ a.status.isDone = true) := by
    intro p snap status
    have present := acc.present snap
    refine ⟨status ▸ acc.uncollected p present, ?_⟩
    rcases acc.traced active.1 with artifact | ⟨b, same, done⟩ | ⟨gone, -⟩
    · exact .inl artifact
    · rw [present] at same
      cases same
      exact .inr (status ▸ done)
    · rw [present] at gone
      cases gone
  have anew : Anew a → a.status ≠ .done .collected := by
    rintro ⟨-, undone⟩ status
    rw [status] at undone
    cases undone
  have claimed : c.phase = .held → Artifact c := fun held => .inr (.inl (wf.claimed (.inr held)))
  cases site with
  | ready => exact ⟨anew licence.2, .inl (claimed licence.1)⟩
  | failed => exact ⟨by rw [licence.2.2]; nofun, .inl (claimed licence.1)⟩
  | settled origin =>
    have ended : ∃ o, o ≠ .collected ∧ a.status = .done o := by
      cases origin <;> exact licence.2
    obtain ⟨o, other, status⟩ := ended
    refine ⟨fun same => other ?_, .inr (by rw [status]; rfl)⟩
    rw [status] at same
    exact Status.done.inj same
  | rebuilt => exact ⟨anew licence.2, .inl (acc.artifact licence.1)⟩
  | materialized origin =>
    cases origin with
    | record => exact kept a licence rfl
    | artifacts => exact ⟨anew licence.2, .inl (acc.artifact licence.1)⟩
  | raised =>
    obtain ⟨p, continues, status⟩ := licence
    exact kept p continues.1 status
  | inferred =>
    obtain ⟨p, continues, undone, dead⟩ := licence
    have present := acc.present continues.1
    rcases acc.traced active.1 with artifact | ⟨b, same, done⟩ | ⟨gone, -⟩
    · refine absurd ?_ dead
      rcases artifact with live | live | live
      · exact .inl live
      · exact .inr (.inl live)
      · exact .inr (.inr (.inl live))
    · rw [present] at same
      cases same
      rw [done] at undone
      cases undone
    · rw [present] at gone
      cases gone
  | evicted =>
    obtain ⟨p, -, status⟩ := licence
    exact ⟨by rw [status]; nofun, .inr (by rw [status]; rfl)⟩
  | accepted =>
    obtain ⟨p, due, snap, -, -, status⟩ := licence
    exact kept p snap status
  | merged =>
    obtain ⟨p, continues, status⟩ := licence
    exact kept p continues.1 status

theorem Accounted.write (wf : Wf c) {site : Site} {a : Attempt T M}
    (active : Active c) (licence : WriteLicence a c site)
    (calm : c.phase = .recorded → site ≠ .rebuilt ∧ site ≠ .materialized .artifacts) :
    Accounted (c.write site a) := by
  obtain ⟨uncollected, traced⟩ := write_accounted acc wf active licence
  refine ⟨acc.unheld, acc.unacked, nofun, fun _ => ?_, fun recorded => ?_, ?_⟩
  · exact traced.imp id fun done => .inl ⟨a, rfl, done⟩
  · have away : Away c := .inr recorded
    refine .inl ⟨a, rfl, done_of_write away (fun p snap => ?_) licence (calm recorded).1
      (calm recorded).2⟩
    rcases acc.recorded recorded with done | ⟨gone, -⟩
    · exact done_of_snapshot done snap
    · rw [acc.present snap] at gone
      cases gone
  · rintro b ⟨⟩
    exact uncollected

theorem Accounted.effect (wf : Wf c) {op : CellOp T M} {i : Input H T}
    (licensed : Licence op c) (undisturbed : Undisturbed op i c) (effect : Effect c op d) :
    Accounted d := by
  have blank : ∀ d : Cell T M, d.held = c.held → d.token = c.token → d.attempt = c.attempt →
      d.phase ≠ .recorded → Artifact d → Accounted d := by
    intro d held token attempt phase artifact
    exact ⟨held.trans acc.unheld, token.trans acc.unacked, attempt ▸ acc.readable,
      fun _ => .inl artifact, fun recorded => absurd recorded phase, attempt ▸ acc.uncollected⟩
  have wrote : ∀ site a, WriteLicence a c site → Active c →
      (site = .rebuilt ∨ site = .materialized .artifacts → c.phase ≠ .recorded) →
      Accounted (c.write site a) := by
    intro site a licence active spared
    refine acc.write wf active licence fun recorded => ⟨?_, ?_⟩
    · exact fun anew => spared (.inl anew) recorded
    · exact fun anew => spared (.inr anew) recorded
  cases effect with
  | nothing op => exact acc
  | claimed there => exact blank _ rfl rfl rfl nofun (.inl there)
  | restored =>
    exact ⟨acc.unheld, acc.unacked, acc.readable, fun _ => .inl (.inr (.inl licensed.2.1)),
      acc.recorded, acc.uncollected⟩
  | published => exact blank _ rfl rfl rfl nofun (.inr (.inl (wf.claimed (.inr licensed))))
  | anomalous => exact blank _ rfl rfl rfl nofun (.inr (.inl (wf.claimed (.inr licensed))))
  | dropped slot there => exact acc.drop licensed there
  | retired there =>
    exact ⟨acc.unheld, acc.unacked, nofun, fun _ => .inr (.inr ⟨rfl, rfl⟩),
      fun _ => .inr ⟨rfl, rfl⟩, fun _ h => by cases h⟩
  | wrote site a other =>
    refine wrote site a licensed.2 licensed.1 ?_
    rintro (rfl | rfl)
    · exact undisturbed rfl
    · exact undisturbed rfl
  | counted a =>
    have kept := wrote .accepted a licensed.2 licensed.1 (by simp)
    exact ⟨kept.unheld, kept.unacked, kept.readable, kept.traced, kept.recorded, kept.uncollected⟩
  | entered => exact acc.phase nofun
  | left recorded =>
    refine acc.phase fun yes => ?_
    cases recorded with
    | true => exact .inl (acc.done (licensed rfl))
    | false => cases yes
  | _ => exact ⟨acc.unheld, acc.unacked, acc.readable, acc.traced, acc.recorded, acc.uncollected⟩

end

variable [LinearOrder H] [LinearOrder T] [Add T] [Sub T] [NatCast T]

/-- On the side of casa alone, whatever fails and wherever the process dies, a flow that was
minted has an artifact, or a terminal record, or had one that a bound removed; and no record
claims a receipt. -/
theorem flow_accounted (h : H) {ls : List (SpoolLabel H T M)} {d : SpoolConfig H T M}
    (run : Runs spool.step (fun l c => wellCalled l c ∧ Unserved h l ∧ Minds Undisturbed h l c)
      emptySpool ls d) :
    ((d.state h).minted = true → Artifact (d.state h) ∨ Closed (d.state h)) ∧
      ∀ a, (d.state h).attempt = some (.record a) → a.status ≠ .done .collected := by
  have acc : Accounted (d.state h) := by
    refine cell_invariant (fun l c ok => ok.1) ?_ ?_ ?_ run lawed_empty ?_
    · rintro c v ok - acc
      cases v with
      | mint m => exact acc.mint
      | collect uid => exact absurd rfl ok.2.1
      | ack => exact absurd rfl ok.2.1
    · exact fun c _ _ acc => acc.crash
    · exact fun c task op i d ok next wf licensed effect acc =>
        acc.effect wf licensed (ok.2.2.op next) effect
    · exact ⟨rfl, rfl, nofun, nofun, nofun, fun _ h => by cases h⟩
  exact ⟨acc.traced, acc.uncollected⟩

section Disturbed

/-- An attempts pass between the `FAILED_RECORDED` and its discard. -/
def disturbed : List (SpoolLabel Bool Int Unit) :=
  refused ++ [.start (.attemptsPass 120 false)] ++ succeed false 120 60 ++
    [.finish, .start (.discardClaim false)] ++ succeed false 121 2 ++ [.finish]

def discarded : List (SpoolLabel Bool Int Unit) :=
  refused ++ [.start (.discardClaim false)] ++ succeed false 121 2 ++
    [.finish, .start (.attemptsPass 122 false)] ++ succeed false 122 60 ++ [.finish]

theorem discarded_accounted : ∃ d : SpoolConfig Bool Int Unit,
    Runs spool.step (fun l c => wellCalled l c ∧ Unserved false l ∧ Minds Undisturbed false l c)
      emptySpool discarded d ∧ (d.state false).minted = true ∧
      (Artifact (d.state false) ∨ Closed (d.state false)) := by
  have legal : Legal spool.step (fun l c => wellCalled l c ∧ Unserved false l ∧
      Minds Undisturbed false l c) (emptySpool : SpoolConfig Bool Int Unit) discarded := by
    decide +kernel
  have minted : ((discarded.foldl (fun c l => spool.step l c)
      (emptySpool : SpoolConfig Bool Int Unit)).state false).minted = true := by decide +kernel
  exact ⟨_, legal.runs, minted, (flow_accounted false legal.runs).1 minted⟩

/-- The flow ends with an open record and nothing else. -/
theorem disturbed_unaccounted : ∃ d : SpoolConfig Bool Int Unit,
    Runs spool.step (fun l c => wellCalled l c ∧ Unserved false l) emptySpool disturbed d ∧
      (d.state false).minted = true ∧ ¬(Artifact (d.state false) ∨ Closed (d.state false)) :=
  ⟨_, Legal.runs (by decide +kernel), by decide +kernel, by decide +kernel⟩

end Disturbed

end Casa.CallbackLedger
