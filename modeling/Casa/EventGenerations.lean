import Casa.EventRevocation

/-! The generations of the delivery records. The anchor may be spoilt at any moment and is then
rebuilt from the records; a directory that can be listed and ack tokens that are never handed
out twice are all that is asked of the system. -/

namespace Casa.EventGenerations
open KeyedTable OperationTree EventSpool EventPasses EventLicence EventSpecs EventFold StepRuns

variable {S U K T : Type} [LinearOrder S]

section Conditions
variable [DecidableEq K]

/-- `uuid4` never repeats itself. -/
def newTokens (l : Ledger S U K T) : PairOp S U K T → Input S U K → Bool
  | .newToken, i => decide (i.token ∉ l.used)
  | _, _ => true

def Regular (l : PairLabel S U K T) (c : PairConfig S U K T) : Prop :=
  atOperation lists l c = true ∧ atOperation (newTokens c.state.ledger) l c = true

instance (l : PairLabel S U K T) (c : PairConfig S U K T) : Decidable (Regular l c) :=
  inferInstanceAs (Decidable (_ ∧ _))

end Conditions

section Steps
variable [LinearOrder U] [DecidableEq K] {bytes : Anchor S U T → Nat} {p q : Pair S U K T}
variable {op : PairOp S U K T} {i : Input S U K}

structure Orderly (l : Ledger S U K T) : Prop where
  listed : l.overlooked = false
  once : l.repeated = false

theorem Orderly.run (held : Orderly p.ledger) (listed : lists op i = true)
    (new : newTokens p.ledger op i = true) : Orderly (runPair bytes op i p).2.ledger := by
  obtain ⟨overlooked, repeated⟩ := held
  cases op with
  | scan =>
    have ok : i.ok = true := listed
    simp only [runPair, ok, if_true]
    exact ⟨overlooked, repeated⟩
  | newToken =>
    have fresh : i.token ∉ p.ledger.used := of_decide_eq_true new
    refine ⟨overlooked, ?_⟩
    change (p.ledger.repeated || decide (i.token ∈ p.ledger.used)) = false
    rw [repeated, decide_eq_false fresh]
    rfl
  | writeState site a =>
    simp only [runPair]
    split
    · cases site <;> exact ⟨overlooked, repeated⟩
    · exact ⟨overlooked, repeated⟩
  | writeDelivery site s r =>
    simp only [runPair]
    split
    · cases site <;> exact ⟨overlooked, repeated⟩
    · exact ⟨overlooked, repeated⟩
  | quarantineState =>
    simp only [runPair]
    split <;> exact ⟨overlooked, repeated⟩
  | unlinkEmission disposal u =>
    simp only [runPair]
    split <;> exact ⟨overlooked, repeated⟩
  | quarantineDelivery s =>
    simp only [runPair]
    split <;> exact ⟨overlooked, repeated⟩
  | unlinkDelivery s =>
    simp only [runPair]
    split <;> exact ⟨overlooked, repeated⟩
  | _ => exact ⟨overlooked, repeated⟩

/-- What becomes of a record in one step: it stays as it is, it is rewritten while it is pending,
or a fresh one of a later generation takes its place. -/
inductive Succeeds (used : List K) (r : Record K T) : Record K T → Prop
  | same : Succeeds used r r
  | rewritten {r' : Record K T} (pending : r.status = .pending) (gen : r'.gen = r.gen)
      (token : r'.ackToken = r.ackToken) : Succeeds used r r'
  | minted {r' : Record K T} (gen : r.gen < r'.gen) (pending : r'.status = .pending)
      (token : r'.ackToken ∉ used) : Succeeds used r r'

theorem succeeds_effect (orderly : Orderly p.ledger) (lic : Licence bytes op p)
    (effect : Effect p op q) {s : S} {r r' : Record K T} (before : p.ledger.recordOf s = some r)
    (after : q.ledger.recordOf s = some r') : Succeeds p.ledger.used r r' := by
  have still : p.ledger.recordOf s = some r' → Succeeds p.ledger.used r r' := by
    intro same
    rw [before] at same
    cases same
    exact .same
  cases effect with
  | anchored site a =>
    rw [recordOf_writeState] at after
    exact still after
  | quarantinedDelivery t =>
    rw [recordOf_remove] at after
    split at after
    · cases after
    · exact still after
  | dropped t =>
    rw [recordOf_remove] at after
    split at after
    · cases after
    · exact still after
  | wrote site t new ok =>
    change (p.ledger.writeDelivery p.emitted t new site).recordOf s = some r' at after
    rw [recordOf_writeDelivery] at after
    split at after
    · next hit =>
      subst hit
      cases after
      have minted {a : Anchor S U T} (mint : MintLicence a t r' p.ledger) :
          Succeeds p.ledger.used r r' :=
        .minted (mint.gen ▸ mint.newer orderly.listed r before) mint.pending
          (mint.fresh orderly.once)
      cases site with
      | rewritten =>
        obtain ⟨r₀, old, pending, gen, token⟩ := lic
        rw [before] at old
        cases old
        exact .rewritten pending gen token
      | repaired =>
        obtain ⟨a, mint, -⟩ := lic
        exact minted mint
      | opened =>
        obtain ⟨a, mint, -⟩ := lic
        exact minted mint
    · exact still after
  | _ => exact still after

/-- The token belongs to one record at most, the one it was minted for. -/
structure Bears (token : K) (s : S) (gen : Nat) (l : Ledger S U K T) : Prop where
  used : token ∈ l.used
  only : ∀ t r, l.recordOf t = some r → r.ackToken = token → t = s ∧ r.gen = gen

theorem Bears.effect {token : K} {s : S} {gen : Nat} (orderly : Orderly p.ledger)
    (bears : Bears token s gen p.ledger) (lic : Licence bytes op p) (effect : Effect p op q) :
    Bears token s gen q.ledger := by
  have shrink : ∀ t, Bears token s gen { p.ledger with delivery := p.ledger.delivery.remove t } := by
    refine fun t => ⟨bears.used, fun t' r found => ?_⟩
    rw [recordOf_remove] at found
    split at found
    · cases found
    · exact bears.only t' r found
  cases effect with
  | nothing op => exact bears
  | entered routed => exact ⟨bears.used, bears.only⟩
  | overlooked => exact ⟨bears.used, bears.only⟩
  | handed token => exact ⟨bears.used, bears.only⟩
  | quarantined => exact ⟨bears.used, bears.only⟩
  | unlinked disposal u => exact bears
  | quarantinedDelivery t => exact shrink t
  | dropped t => exact shrink t
  | anchored site a => cases site <;> exact ⟨bears.used, bears.only⟩
  | wrote site t r ok =>
    have minted {a : Anchor S U T} (mint : MintLicence a t r p.ledger) {m : Ledger S U K T}
        (used : m.used = r.ackToken :: p.ledger.used)
        (records : ∀ t', m.recordOf t' = if t = t' then some r else p.ledger.recordOf t') :
        Bears token s gen m := by
      refine ⟨used ▸ List.mem_cons_of_mem _ bears.used, fun t' r' found same => ?_⟩
      rw [records] at found
      split at found
      · cases found
        exact absurd (same ▸ bears.used) (mint.fresh orderly.once)
      · exact bears.only t' r' found same
    cases site with
    | repaired =>
      obtain ⟨a, mint, -⟩ := lic
      exact minted mint rfl (recordOf_writeDelivery p.emitted t · r .repaired)
    | opened =>
      obtain ⟨a, mint, -⟩ := lic
      exact minted mint rfl (recordOf_writeDelivery p.emitted t · r .opened)
    | rewritten =>
      obtain ⟨r₀, old, -, level, kept⟩ := lic
      refine ⟨bears.used, fun t' r' found same => ?_⟩
      change (p.ledger.writeDelivery p.emitted t r .rewritten).recordOf t' = some r' at found
      rw [recordOf_writeDelivery] at found
      split at found
      · next hit =>
        subst hit
        cases found
        rw [level]
        exact bears.only t r₀ old (kept ▸ same)
      · exact bears.only t' r' found same

end Steps

section Acks

def acking (token : K) : PairOp S U K T → Prop
  | .writeDelivery site _ r => site = .rewritten ∧ r.ackToken = token
  | .openDir | .listDelivery | .readDelivery _ => True
  | _ => False

theorem within_ack [DecidableEq K] [DecidableEq T] (token : K) (now : T) :
    (ack (S := S) (U := U) token now).Within (acking token) := by
  refine (Prog.within_ask trivial).bind fun opened => ?_
  cases opened with
  | false => exact Prog.within_pure _
  | true =>
    refine (Prog.within_ask trivial).bind fun names => ?_
    generalize names.insertionSort (fun s t => s ≤ t) = order
    induction order with
    | nil => exact Prog.within_pure _
    | cons s rest ih =>
      refine (Prog.within_ask trivial).bind fun marker => ?_
      cases marker with
      | present r =>
        dsimp only
        split
        · next bears =>
          split
          · refine (Prog.within_ask ⟨rfl, (terminalize_token r _).trans bears⟩).bind fun ok => ?_
            cases ok <;> exact Prog.within_pure _
          · exact Prog.within_pure _
        · exact ih
      | _ => exact ih

variable [LinearOrder U] [DecidableEq K] [LinearOrder T] [Add T] [NatCast T]

theorem within_acks (task : Task S K T) : (program (U := U) task).Within fun op =>
    ∀ token now, task = .ack token now → acking token op := by
  cases task with
  | ack token now =>
    refine Prog.Within.bind ?_ fun _ => Prog.within_pure _
    refine (within_ack token now).mono fun op held token' now' same => ?_
    cases same
    exact held
  | _ => exact Prog.within_of_forall (by simp) _

end Acks

section Runs
variable [LinearOrder U] [DecidableEq K] [LinearOrder T] [Add T] [NatCast T]
variable {bytes : Anchor S U T → Nat} {c d : PairConfig S U K T} {ls ms : List (PairLabel S U K T)}
variable {l : PairLabel S U K T}

theorem orderly_step (lawed : Lawed bytes c) (ok : Regular l c)
    (held : Orderly c.state.ledger) :
    Orderly ((spool bytes).step l c).state.ledger := by
  refine Guarded.keeps (m := spool bytes) (J := fun p => Orderly p.ledger) lawed l held ?_
    (fun _ => held) ?_
  · rintro e rfl
    change Orderly (c.state.outside e).ledger
    cases e with
    | emit u mtime =>
      rw [Pair.outside]
      split <;> exact held
    | scribble => exact ⟨held.listed, held.once⟩
  · rintro task op i rfl asked -
    exact held.run (atOperation_next ok.1 asked) (atOperation_next ok.2 asked)

theorem orderly_of_runs (run : Runs (spool bytes).step Regular c ls d)
    (start : Lawed bytes c ∧ Orderly c.state.ledger) :
    Lawed bytes d ∧ Orderly d.state.ledger :=
  run.invariant (I := fun d => Lawed bytes d ∧ Orderly d.state.ledger)
    (fun l _ ok held => ⟨held.1.step l, orderly_step held.1 ok held.2⟩) start

theorem succeeds_step (lawed : Lawed bytes d) (orderly : Orderly d.state.ledger) {s : S}
    {r r' : Record K T} (before : d.state.ledger.recordOf s = some r)
    (after : ((spool bytes).step l d).state.ledger.recordOf s = some r') :
    Succeeds d.state.ledger.used r r' := by
  have still : d.state.ledger.recordOf s = some r' → Succeeds d.state.ledger.used r r' := by
    intro same
    rw [before] at same
    cases same
    exact .same
  rcases lawed.step_cases l with ⟨e, rfl, same⟩ | same | ⟨task, op, i, rfl, asked, lic, effect⟩
  · rw [same] at after
    cases e with
    | emit u mtime =>
      rw [Pair.outside] at after
      split at after <;> exact still after
    | scribble => exact still after
  · rw [same] at after
    exact still after
  · exact succeeds_effect orderly lic effect before after

theorem bears_of_runs (run : Runs (spool bytes).step Regular c ls d)
    (start : Lawed bytes c ∧ Orderly c.state.ledger) {token : K} {s : S} {gen : Nat}
    (bears : Bears token s gen c.state.ledger) : Bears token s gen d.state.ledger := by
  have all : (Lawed bytes d ∧ Orderly d.state.ledger) ∧ Bears token s gen d.state.ledger := by
    refine run.invariant (I := fun d => (Lawed bytes d ∧ Orderly d.state.ledger) ∧
      Bears token s gen d.state.ledger) ?_ ⟨start, bears⟩
    rintro l d ok ⟨⟨lawed, orderly⟩, bears⟩
    refine ⟨⟨lawed.step l, orderly_step lawed ok orderly⟩, ?_⟩
    rcases lawed.step_cases l with ⟨e, rfl, same⟩ | same | ⟨task, op, i, rfl, asked, lic, effect⟩
    · rw [same]
      cases e with
      | emit u mtime =>
        rw [Pair.outside]
        split <;> exact bears
      | scribble => exact ⟨bears.used, bears.only⟩
    · rw [same]
      exact bears
    · exact bears.effect orderly lic effect
  exact all.2

/-- In every run: no record is ahead of an anchor that reads; a record's generation never
decreases; a terminal record stays as it is until a fresh pending one of a later generation with
an unused token takes its place; and an ack with the token of an earlier generation changes
nothing. -/
theorem generations_monotone (first : Runs (spool bytes).step Regular emptyPair ls c)
    (second : Runs (spool bytes).step Regular c ms d) :
    (∀ a, d.state.ledger.anchor = some a → a.reads bytes = true →
        ∀ s r, d.state.ledger.recordOf s = some r → r.gen ≤ a.gen) ∧
      (∀ l s r r', d.state.ledger.recordOf s = some r →
        ((spool bytes).step l d).state.ledger.recordOf s = some r' →
          r.gen ≤ r'.gen ∧
          (r.status ≠ .pending → r' = r ∨
            r.gen < r'.gen ∧ r'.status = .pending ∧ r'.ackToken ∉ d.state.ledger.used ∧
              r.ackToken ∈ d.state.ledger.used)) ∧
      ∀ s r r', c.state.ledger.recordOf s = some r → d.state.ledger.recordOf s = some r' →
        r.gen < r'.gen → ∀ now op, d.next = some (.ack r.ackToken now, op) →
          ∀ i, (runPair bytes op i d.state).2 = d.state := by
  have start := orderly_of_runs first ⟨lawed_empty, ⟨rfl, rfl⟩⟩
  obtain ⟨lawed, orderly⟩ := orderly_of_runs second start
  refine ⟨fun a there _ => lawed.inv.bound orderly.listed a there, ?_, ?_⟩
  · intro l s r r' before after
    cases succeeds_step lawed orderly before after with
    | same => exact ⟨le_rfl, fun _ => .inl rfl⟩
    | rewritten pending gen token => exact ⟨gen.ge, fun done => absurd pending done⟩
    | minted gen pending token =>
      exact ⟨gen.le, fun _ => .inr ⟨gen, pending, token, lawed.inv.used s r before⟩⟩
  · intro s r r' before now_ newer now op asked i
    have bears : Bears r.ackToken s r.gen c.state.ledger := by
      refine ⟨start.1.inv.used s r before, fun t q found same => ?_⟩
      have owner := start.1.inv.distinct start.2.once t s q r found before same
      subst owner
      rw [before] at found
      cases found
      exact ⟨rfl, rfl⟩
    have only := (bears_of_runs second start bears).only
    have asks : acking r.ackToken op :=
      next_of_within (within_acks (U := U)) (first.append second) rfl asked _ _ rfl
    cases op with
    | writeDelivery site t q =>
      obtain ⟨rfl, token⟩ := asks
      obtain ⟨r₀, old, -, -, kept⟩ : DeliveryLicence t q d.state.ledger .rewritten :=
        lawed.licensed asked
      obtain ⟨rfl, level⟩ := only t r₀ old (kept ▸ token)
      rw [now_] at old
      cases old
      exact absurd level newer.ne'
    | openDir => rfl
    | listDelivery => rfl
    | readDelivery t => rfl
    | _ => exact asks.elim

/-- A delivery that is acked; a second emission that is delivered with a new token, and the old
token once more. -/
def ackedTwice : List (PairLabel Nat Nat Nat Nat) × List (PairLabel Nat Nat Nat Nat) :=
  (delivered ++ [fine 100, .finish, .start (.ack 100 12)] ++ List.replicate 4 (fine 100) ++
      [.finish],
    [.env (.emit 1 13), .start (.foldPass (some [7]) 14)] ++ List.replicate 12 (fine 101) ++
      [.finish, .start (.ack 100 15)] ++ List.replicate 2 (fine 102))

theorem ackedTwice_ignored : ∃ c d : PairConfig Nat Nat Nat Nat,
    Runs (spool encodedLength).step Regular emptyPair ackedTwice.1 c ∧
      Runs (spool encodedLength).step Regular c ackedTwice.2 d ∧
      ¬c.state.ledger.PendingAt 7 1 ∧ d.state.ledger.PendingAt 7 2 ∧
      d.next = some (.ack 100 15, .readDelivery 7) ∧
      ∀ i, (runPair encodedLength (.readDelivery 7) i d.state).2 = d.state := by
  have first : Legal (spool encodedLength).step Regular
      (emptyPair : PairConfig Nat Nat Nat Nat) ackedTwice.1 := by decide +kernel
  have second : Legal (spool encodedLength).step Regular
      (ackedTwice.1.foldl (fun c l => (spool encodedLength).step l c) emptyPair) ackedTwice.2 := by
    decide +kernel
  exact ⟨_, _, first.runs, second.runs, by decide +kernel, by decide +kernel, rfl,
    (generations_monotone first.runs second.runs).2.2 7 _ _ rfl rfl (by decide +kernel) _ _ rfl⟩

end Runs

end Casa.EventGenerations
