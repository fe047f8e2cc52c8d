import Casa.EventSpecs

/-! When a fold pass removes an emission and when it opens a generation. The pass decides both
from its own picture of the delivery records, and the one thing that makes this picture wrong
while every directory can be listed is a back-fill of REPAIR whose write has landed but reports
a failure. -/

namespace Casa.EventFold
open KeyedTable OperationTree EventSpool EventPasses EventLicence EventSpecs StepRuns

variable {S U K T : Type}

section Conditions

def atOperation (φ : PairOp S U K T → Input S U K → Bool) :
    PairLabel S U K T → PairConfig S U K T → Bool
  | .advance i, c =>
      match c.next with
      | some (_, op) => φ op i
      | none => true
  | _, _ => true

def lists : PairOp S U K T → Input S U K → Bool
  | .scan, i => i.ok
  | _, _ => true

def unspoilt : PairLabel S U K T → Bool
  | .env .scribble => false
  | _ => true

def reportsBackfill : PairOp S U K T → Input S U K → Bool
  | .writeDelivery .repaired _ _, i => !i.landed || i.ok
  | _, _ => true

/-- The runs in question: writes and fsyncs may fail anywhere, the process may die anywhere. -/
def InScope (l : PairLabel S U K T) (c : PairConfig S U K T) : Prop :=
  unspoilt l = true ∧ atOperation lists l c = true

def Reported (l : PairLabel S U K T) (c : PairConfig S U K T) : Prop :=
  atOperation reportsBackfill l c = true

instance (l : PairLabel S U K T) (c : PairConfig S U K T) : Decidable (InScope l c) :=
  inferInstanceAs (Decidable (_ ∧ _))

instance (l : PairLabel S U K T) (c : PairConfig S U K T) : Decidable (Reported l c) :=
  inferInstanceAs (Decidable (_ = true))

theorem atOperation_next {φ : PairOp S U K T → Input S U K → Bool} {i : Input S U K}
    {c : PairConfig S U K T} {task : Task S K T} {op : PairOp S U K T}
    (h : atOperation φ (.advance i) c = true) (asked : c.next = some (task, op)) :
    φ op i = true := by
  rw [atOperation, asked] at h
  exact h

end Conditions

section Disposals

def folding : PairOp S U K T → Prop
  | .unlinkEmission disposal _ => disposal = .folded
  | _ => True

theorem within_unlinkFolded {a : Anchor S U T} {names : List S} {complete : Bool} :
    (unlinkFolded (K := K) a names complete).Within folding := by
  rw [unlinkFolded]
  split
  · refine (Prog.within_ask trivial).bind fun ok => ?_
    cases ok with
    | false => exact Prog.within_pure _
    | true =>
      refine (Prog.within_forEach _ fun u => ?_).bind fun _ => Prog.within_pure _
      exact Prog.within_ask rfl
  · exact Prog.within_pure _

theorem within_fanOut [Add T] [NatCast T] {a : Anchor S U T} {now : T} (todo : List S) :
    (fanOut (U := U) (K := K) a now todo).Within folding := by
  induction todo with
  | nil => exact Prog.within_pure _
  | cons s rest ih =>
    refine (Prog.within_ask trivial).bind fun token => ?_
    refine (Prog.within_ask trivial).bind fun ok => ?_
    exact ih.bind fun _ => Prog.within_pure _

variable [LinearOrder S]

theorem within_backfill [Add T] [NatCast T] {a : Anchor S U T} {now : T} (todo : List S)
    (records : Records S K T) : (backfill (U := U) a now todo records).Within folding := by
  induction todo generalizing records with
  | nil => exact Prog.within_pure _
  | cons s rest ih =>
    rw [backfill]
    split
    · exact ih records
    · split
      · refine (Prog.within_ask trivial).bind fun token => ?_
        refine (Prog.within_ask trivial).bind fun ok => ?_
        cases ok with
        | false => exact ih records
        | true => exact (ih _).bind fun _ => Prog.within_pure _
      · exact ih records

theorem within_reconstruct {marker : Marker (Anchor S U T)} {records : Records S K T} {now : T} :
    (reconstruct (K := K) marker records now).Within folding := by
  have rebuild (a : Anchor S U T) : (do
      if ← writeState (K := K) .reconstructed a then pure (Standing.known (some a))
      else pure Standing.failed : PairProg S U K T (Standing S U T)).Within folding := by
    refine (Prog.within_ask trivial).bind fun ok => ?_
    cases ok <;> exact Prog.within_pure _
  cases marker with
  | present a => exact Prog.within_pure _
  | unreadable => exact Prog.within_pure _
  | absent =>
    rw [reconstruct]
    split
    · exact Prog.within_pure _
    · exact rebuild _
  | invalid =>
    rw [reconstruct]
    split
    · exact Prog.within_pure _
    · refine (Prog.within_ask trivial).bind fun ok => ?_
      cases ok with
      | false => exact Prog.within_pure _
      | true => exact rebuild _

variable [LinearOrder U] [LinearOrder T] [Add T] [NatCast T] {routed : List S} {now : T}

theorem within_openGeneration {curGen : Nat} {records : Records S K T} :
    (openGeneration (U := U) curGen routed now records).Within folding := by
  refine (Prog.within_ask trivial).bind fun shown => ?_
  dsimp only
  split
  · refine (Prog.within_ask trivial).bind fun ok => ?_
    cases ok with
    | false => exact Prog.within_pure _
    | true =>
      refine (within_fanOut _).bind fun out => ?_
      exact within_unlinkFolded.bind fun _ => Prog.within_pure _
  · exact Prog.within_pure _

theorem within_foldOne : (foldOne (U := U) (K := K) routed now).Within folding := by
  refine (Prog.within_ask trivial).bind fun _ => ?_
  refine (Prog.within_ask trivial).bind fun opened => ?_
  cases opened with
  | false => exact Prog.within_pure _
  | true =>
    refine (Prog.within_ask trivial).bind fun marker => ?_
    dsimp only
    split
    · exact Prog.within_pure _
    · refine (Prog.within_ask trivial).bind fun out => ?_
      obtain ⟨records, unreadable⟩ := out
      cases unreadable with
      | true => exact Prog.within_pure _
      | false =>
        refine within_reconstruct.bind fun standing => ?_
        cases standing with
        | failed => exact Prog.within_pure _
        | known found =>
          cases found with
          | none => exact within_openGeneration
          | some a =>
            refine Prog.Within.bind ?_ fun out =>
              within_openGeneration.bind fun _ => Prog.within_pure _
            refine (within_backfill _ _).bind fun out => ?_
            exact within_unlinkFolded.bind fun _ => Prog.within_pure _

variable [DecidableEq K]

theorem within_program (task : Task S K T) : (program (U := U) task).Within fun op =>
    ∀ routed now, task = .foldPass routed now → folding op := by
  cases task with
  | foldPass routed now =>
    cases routed with
    | none => exact Prog.within_pure _
    | some routed =>
      refine Prog.Within.bind ?_ fun _ => Prog.within_pure _
      exact within_foldOne.mono fun op held _ _ _ => held
  | _ => exact Prog.within_of_forall (by simp) _

end Disposals

section Runs
variable [LinearOrder S] [LinearOrder U] [DecidableEq K] [LinearOrder T] [Add T] [NatCast T]
variable {bytes : Anchor S U T → Nat} {c d : PairConfig S U K T} {ls : List (PairLabel S U K T)}

structure Truthful (l : Ledger S U K T) : Prop where
  listed : l.overlooked = false
  reported : l.unreported = false
  unspoilt : l.scribbled = false

omit [LinearOrder T] [Add T] [NatCast T] in
theorem Truthful.effect {p q : Pair S U K T} {op : PairOp S U K T} {i : Input S U K}
    (held : Truthful p.ledger) (listed : lists op i = true)
    (reported : reportsBackfill op i = true) (same : q = (runPair bytes op i p).2) :
    Truthful q.ledger := by
  obtain ⟨overlooked, unreported, scribbled⟩ := held
  subst same
  cases op with
  | scan =>
    have ok : i.ok = true := listed
    simp only [runPair, ok, if_true]
    exact ⟨overlooked, unreported, scribbled⟩
  | writeState site a =>
    simp only [runPair]
    split
    · cases site <;> exact ⟨overlooked, unreported, scribbled⟩
    · exact ⟨overlooked, unreported, scribbled⟩
  | writeDelivery site s r =>
    simp only [runPair]
    split
    · next landed =>
      have quiet : (decide (site = .repaired) && !i.ok) = false := by
        cases site with
        | repaired =>
          have ok : (!i.landed || i.ok) = true := reported
          simpa [landed] using ok
        | _ => rfl
      refine ⟨?_, ?_, ?_⟩
      · cases site <;> exact overlooked
      · rw [quiet, unreported]
        rfl
      · cases site <;> exact scribbled
    · exact ⟨overlooked, unreported, scribbled⟩
  | quarantineState =>
    simp only [runPair]
    split <;> exact ⟨overlooked, unreported, scribbled⟩
  | unlinkEmission disposal u =>
    simp only [runPair]
    split <;> exact ⟨overlooked, unreported, scribbled⟩
  | quarantineDelivery s =>
    simp only [runPair]
    split <;> exact ⟨overlooked, unreported, scribbled⟩
  | unlinkDelivery s =>
    simp only [runPair]
    split <;> exact ⟨overlooked, unreported, scribbled⟩
  | _ => exact ⟨overlooked, unreported, scribbled⟩

theorem truthful_of_runs
    (run : Runs (spool bytes).step (fun l c => InScope l c ∧ Reported l c) emptyPair ls d) :
    Lawed bytes d ∧ Truthful d.state.ledger := by
  refine run.invariant (I := fun d => Lawed bytes d ∧ Truthful d.state.ledger) ?_
    ⟨lawed_empty, ⟨rfl, rfl, rfl⟩⟩
  rintro l c ⟨scope, reported⟩ ⟨lawed, truthful⟩
  refine ⟨lawed.step l, Guarded.keeps (J := fun p => Truthful p.ledger) lawed l truthful ?_
    (fun _ => truthful) ?_⟩
  · rintro e rfl
    cases e with
    | emit u mtime =>
      change Truthful (c.state.outside (.emit u mtime)).ledger
      rw [Pair.outside]
      split <;> exact truthful
    | scribble => cases scope.1
  · rintro task op i rfl asked -
    exact truthful.effect (atOperation_next scope.2 asked) (atOperation_next reported asked) rfl

/-- In every run in which no back-fill lands while it reports a failure: a fold pass removes an
emission only when every routed member of the generation that folded it has a record of that
generation, minted after the emission was queued; it opens one generation at most; and it opens
one only when no record is pending. -/
theorem folded_covered
    (run : Runs (spool bytes).step (fun l c => InScope l c ∧ Reported l c) emptyPair ls d) :
    d.state.ledger.opens ≤ 1 ∧
      (∀ routed now disposal u,
        d.next = some (.foldPass routed now, .unlinkEmission disposal u) →
          Covered d.state.ledger u) ∧
      ∀ task a, d.next = some (task, .writeState .opened a) →
        ∀ s r, d.state.ledger.recordOf s = some r → r.status ≠ .pending := by
  obtain ⟨lawed, truthful⟩ := truthful_of_runs run
  refine ⟨lawed.inv.opens, fun routed now disposal u asked => ?_, fun task a asked s r found => ?_⟩
  · have folded : disposal = .folded :=
      next_of_within (within_program (U := U)) run rfl asked routed now rfl
    subst folded
    have licence : Licence bytes (.unlinkEmission .folded u) d.state := lawed.licensed asked
    exact licence truthful.listed truthful.reported truthful.unspoilt
  · have licence : OpenLicence bytes a d.state := lawed.licensed asked
    exact licence.idle truthful.listed truthful.reported s r found

end Runs

section Unreported

/-- The length of the encoding with an event name of four characters, subscriber names of six,
and clocks and generations of one digit. -/
def encodedLength (a : Anchor Nat Nat Nat) : Nat :=
  68 + 8 * a.cohort.length + (a.cohort.length - 1) + 10 * a.folded.length + (a.folded.length - 1)

def fine (token : Nat) : PairLabel Nat Nat Nat Nat :=
  .advance ⟨true, true, fun _ => true, fun _ => true, token⟩

def delivered : List (PairLabel Nat Nat Nat Nat) :=
  [.env (.emit 0 10), .start (.foldPass (some [7]) 11)] ++ List.replicate 9 (fine 100)

theorem delivered_covered : ∃ d : PairConfig Nat Nat Nat Nat,
    Runs (spool encodedLength).step (fun l c => InScope l c ∧ Reported l c) emptyPair delivered d ∧
      d.next = some (.foldPass (some [7]) 11, .unlinkEmission .folded 0) ∧
      Covered d.state.ledger 0 := by
  have legal : Legal (spool encodedLength).step (fun l c => InScope l c ∧ Reported l c)
      (emptyPair : PairConfig Nat Nat Nat Nat) delivered := by decide +kernel
  have asked : (delivered.foldl (fun c l => (spool encodedLength).step l c) emptyPair).next =
      some (.foldPass (some [7]) 11, .unlinkEmission .folded 0) := rfl
  exact ⟨_, legal.runs, asked, (folded_covered legal.runs).2.1 _ _ _ _ asked⟩

/-- The delivery is acked, a second emission comes, and the process dies after the anchor of
its generation is written. The next pass repairs: its back-fill lands but the fsync after it
fails. -/
def reopened : List (PairLabel Nat Nat Nat Nat) :=
  delivered ++ [fine 100, .finish, .start (.ack 100 12)] ++ List.replicate 4 (fine 100) ++
    [.finish, .env (.emit 1 13), .start (.foldPass (some [7]) 14)] ++
    List.replicate 8 (fine 101) ++ [.crash, .start (.foldPass (some [7]) 15)] ++
    List.replicate 5 (fine 101) ++
    [.advance ⟨false, true, fun _ => true, fun _ => true, 102⟩, fine 102]

theorem reopened_while_pending : ∃ d : PairConfig Nat Nat Nat Nat,
    Runs (spool encodedLength).step InScope emptyPair reopened d ∧
      (∃ a, d.next = some (.foldPass (some [7]) 15, .writeState .opened a)) ∧
      ∃ r, d.state.ledger.recordOf 7 = some r ∧ r.status = .pending :=
  ⟨_, Legal.runs (by decide +kernel), ⟨_, rfl⟩, _, rfl, by decide +kernel⟩

end Unreported

end Casa.EventFold
