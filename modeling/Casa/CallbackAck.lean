import Casa.CallbackLawful

/-! The end of a flow: a receipt is consumed after every file of the flow is proven gone, and
nothing of the flow comes back; a teardown that cannot be proven keeps the receipt. -/

namespace Casa.CallbackAck
open CallbackAttempts OperationTree CallbackSpool CallbackPasses CallbackHost CallbackLicence
open CallbackLawful StepRuns

variable {H T M : Type} {c d : Cell T M}

/-- An artifact directory did not open, was not listed or stat'ed in the proof step, or was not
fsynced. -/
def Fault : CellOp T M → Input H T → Prop
  | .beginTeardown opened, _ => opened = false
  | .prove, i | .syncDir, i => i.ok = false
  | _, _ => False

def begins : CellOp T M → Bool
  | .beginTeardown _ => true
  | _ => false

def SameRound (op : CellOp T M) (_ : Input H T) (_ : Cell T M) : Prop := begins op = false

instance (op : CellOp T M) (i : Input H T) (c : Cell T M) : Decidable (SameRound op i c) :=
  inferInstanceAs (Decidable (begins op = false))

def Doubted (c : Cell T M) : Prop := c.token ≠ none ∧ c.doubt = true

theorem Doubted.consumer {v : Verb T M} (doubted : Doubted c) : Doubted (c.consumer v) := by
  refine ⟨?_, by rw [consumer_doubt]; exact doubted.2⟩
  rcases consumer_attempt (c := c) (v := v) with ⟨-, token⟩ | ⟨-, -, token⟩
  · rw [token]
    exact doubted.1
  · exact token

theorem doubted_of_fault {op : CellOp T M} {i : Input H T} (there : c.token ≠ none)
    (fault : Fault op i) : Doubted (runCell op i c).2 := by
  cases op with
  | beginTeardown opened =>
    cases fault
    exact ⟨there, rfl⟩
  | prove =>
    simp only [runCell, show i.ok = false from fault]
    exact ⟨there, rfl⟩
  | syncDir =>
    simp only [runCell, show i.ok = false from fault]
    exact ⟨there, rfl⟩
  | _ => exact fault.elim

theorem Doubted.effect {op : CellOp T M} {i : Input H T} (doubted : Doubted c)
    (licensed : Licence op c) (round : SameRound op i c) (effect : Effect c op d) :
    Doubted d := by
  cases effect with
  | began opened => cases round
  | dropped slot there =>
    cases slot with
    | token =>
      have sure := licensed.2.2
      rw [doubted.2] at sure
      cases sure
    | _ => exact doubted
  | unproven => exact ⟨doubted.1, rfl⟩
  | unsynced => exact ⟨doubted.1, rfl⟩
  | _ => exact doubted

/-- A receipt that is consumed stays consumed, and the one operation that takes a receipt away
consumes it. -/
theorem consumed_of_effect {op : CellOp T M} (effect : Effect c op d) :
    (c.consumed = true → d.consumed = true) ∧
      (c.token ≠ none → d.token = none → d.consumed = true) := by
  cases effect with
  | dropped slot there =>
    cases slot with
    | token => exact ⟨fun _ => rfl, fun _ _ => rfl⟩
    | _ => exact ⟨id, fun some_ gone => absurd gone some_⟩
  | _ => exact ⟨id, fun some_ gone => absurd gone some_⟩

variable [LinearOrder H] [LinearOrder T] [Add T] [Sub T] [NatCast T]

theorem consumed_of_step {c : SpoolConfig H T M} {h : H} (lawed : Lawed c) (l : SpoolLabel H T M)
    (there : (c.state h).token ≠ none) (gone : ((spool.step l c).state h).token = none) :
    ((spool.step l c).state h).consumed = true := by
  rcases step_cell (h := h) lawed l with same | ⟨v, rfl, same⟩ | ⟨rfl, same⟩ |
    ⟨task, op, i, rfl, -, -, same⟩
  · rw [same] at gone
    exact absurd gone there
  · rw [same] at gone
    rcases consumer_attempt (c := c.state h) (v := v) with ⟨-, token⟩ | ⟨-, -, token⟩
    · exact absurd (token ▸ gone) there
    · exact absurd gone token
  · rw [same] at gone
    exact absurd gone there
  · rw [same] at gone ⊢
    exact (consumed_of_effect (run_effect op i _)).2 there gone

/-- From the step that consumes a receipt on, no file of the flow exists and no handler is
between its claim and its publish; and once a directory has failed a teardown, the receipt
stays until a new teardown begins. -/
theorem ack_final (h : H) {ls : List (SpoolLabel H T M)} {c : SpoolConfig H T M}
    (run : Runs spool.step wellCalled emptySpool ls c) (there : (c.state h).token ≠ none) :
    (∀ l ms d, wellCalled l c → ((spool.step l c).state h).token = none →
      Runs spool.step wellCalled (spool.step l c) ms d →
      (d.state h).Bare ∧ (d.state h).token = none ∧ Away (d.state h)) ∧
    (∀ task op i ms d, c.next = some (task, .inl (h, op)) → Fault op i →
      Runs spool.step (fun l c => wellCalled l c ∧ Minds SameRound h l c)
        (spool.step (.advance i) c) ms d → (d.state h).token ≠ none) := by
  have lawed : Lawed c := lawed_of_runs (fun _ _ ok => ok) run lawed_empty
  have lawedStep : ∀ l, wellCalled l c → Lawed (spool.step l c) :=
    fun l ok => lawed.step lawful l (ready_of_called ok)
  constructor
  · intro l ms d ok gone rest
    have consumed := consumed_of_step lawed l there gone
    have last : (d.state h).consumed = true := by
      refine cell_invariant (J := fun x => x.consumed = true) (fun _ _ ok => ok) ?_ ?_ ?_ rest
        (lawedStep l ok) consumed
      · intro c v _ _ held
        rw [consumer_consumed]
        exact held
      · exact fun c _ _ held => held
      · exact fun c task op i d _ _ _ _ effect held => (consumed_of_effect effect).1 held
    have lawedD := lawed_of_runs (fun _ _ ok => ok) rest (lawedStep l ok)
    exact (lawedD.inv h).consumed last
  · intro task op i ms d next fault rest
    have doubted : Doubted (d.state h) := by
      refine cell_invariant (J := Doubted) (fun _ _ ok => ok.1) ?_ ?_ ?_ rest
        (lawedStep _ trivial) (step_op next ▸ doubted_of_fault there fault)
      · exact fun c v _ _ held => held.consumer
      · exact fun c _ _ held => held
      · exact fun c task op i d ok next _ licensed effect held =>
          held.effect licensed (ok.2.op next) effect
    exact doubted.1

section Acknowledged

/-- A flow is minted and recorded and its consumer gives it up; the pass that follows is in the
proof step, `n` operations after its start. -/
def givenUp (n : Nat) : List (SpoolLabel Bool Int Unit) :=
  [.env (false, .mint ⟨100, none⟩), .start (.attemptsPass 101 false)] ++ succeed false 101 40 ++
    [.finish, .env (false, .ack), .start (.attemptsPass 102 false)] ++ succeed false 102 n

def givenUpSpool (n : Nat) : SpoolConfig Bool Int Unit :=
  (givenUp n).foldl (fun c l => spool.step l c) emptySpool

/-- The last operation of the proof succeeds and the receipt goes, or it fails and the receipt
stays. -/
theorem givenUp_final :
    (((spool.step (.advance ⟨true, 102, [], false⟩) (givenUpSpool 23)).state false).Bare ∧
      ((spool.step (.advance ⟨true, 102, [], false⟩) (givenUpSpool 23)).state false).token = none) ∧
    ((spool.step (.advance ⟨false, 102, [], false⟩) (givenUpSpool 22)).state false).token ≠ none := by
  have proven : Legal spool.step wellCalled (emptySpool : SpoolConfig Bool Int Unit)
      (givenUp 23) := by decide +kernel
  have probing : Legal spool.step wellCalled (emptySpool : SpoolConfig Bool Int Unit)
      (givenUp 22) := by decide +kernel
  have first := (ack_final false proven.runs (by decide +kernel)).1
    (.advance ⟨true, 102, [], false⟩) [] _ trivial (by decide +kernel) (.nil _)
  have asked : (givenUpSpool 22).next = some (.attemptsPass 102 false, .inl (false, .prove)) := rfl
  have second := (ack_final false probing.runs (by decide +kernel)).2
    _ _ ⟨false, 102, [], false⟩ [] _ asked rfl (.nil _)
  exact ⟨⟨first.1, first.2.1⟩, second⟩

end Acknowledged

end Casa.CallbackAck
