import Casa.EventFold

/-! Whether a subscriber that lost its route can be woken for a generation that was opened
before. REPAIR mints a record for every member of the cohort whose record is older than the
anchor, and it cannot know what the routing was in between; so the question is whether a pass
ever starts while such a member is out. -/

namespace Casa.EventRevocation
open KeyedTable OperationTree EventSpool EventPasses EventLicence EventSpecs EventFold StepRuns

variable {S U K T : Type} [LinearOrder S]

section Conditions
variable {bytes : Anchor S U T → Nat}

/-- Every member of the cohort that is out has its record of the current generation, or
none. -/
def settledFor (routed : List S) (l : Ledger S U K T) : Bool :=
  l.anchor.all fun a =>
    a.cohort.all fun s => routed.contains s || (l.recordOf s).all fun r => a.gen ≤ r.gen

/-- No pass starts while a member of the cohort that is out lacks its record of the current
generation, and no anchor outgrows what can be read back. -/
def prompt (bytes : Anchor S U T → Nat) : PairOp S U K T → Ledger S U K T → Bool
  | .enter routed, l => settledFor routed l
  | .writeState .opened a, _ => decide (bytes a ≤ markerStateMaxBytes)
  | _, _ => true

def Prompt (bytes : Anchor S U T → Nat) (l : PairLabel S U K T) (c : PairConfig S U K T) : Prop :=
  unspoilt l = true ∧ atOperation (fun op _ => prompt bytes op c.state.ledger) l c = true

instance (l : PairLabel S U K T) (c : PairConfig S U K T) : Decidable (Prompt bytes l c) :=
  inferInstanceAs (Decidable (_ ∧ _))

end Conditions

section Generations
variable {bytes : Anchor S U T → Nat} {p q : Pair S U K T} {op : PairOp S U K T}

/-- In such runs the anchor on disk is always one that OPEN wrote for its routed set. -/
structure Anchored (bytes : Anchor S U T → Nat) (l : Ledger S U K T) : Prop where
  clean : l.scribbled = false
  reads : ∀ a, l.anchor = some a → a.reads bytes = true
  audience : ∀ a, l.anchor = some a → ∃ R, (a.gen, R) ∈ l.openings ∧ ∀ s ∈ a.cohort, s ∈ R
  records : ∀ s r, l.recordOf s = some r → l.anchor ≠ none
  past : ∀ e ∈ l.openings, e.1 ≤ l.gen

omit [LinearOrder S] in
theorem gen_of_anchor {l : Ledger S U K T} {a : Anchor S U T} (there : l.anchor = some a) :
    l.gen = a.gen := by
  rw [Ledger.gen, there]
  rfl

theorem Anchored.absent {l : Ledger S U K T} (h : Anchored bytes l) (unread : Unread bytes l) :
    l.anchor = none := by
  cases there : l.anchor with
  | none => rfl
  | some a =>
    have yes := h.reads a there
    rw [unread a there] at yes
    cases yes

theorem Anchored.lt_opened (h : Anchored bytes p.ledger) {a : Anchor S U T}
    (lic : OpenLicence bytes a p) : p.ledger.gen < a.gen := by
  cases there : p.ledger.anchor with
  | none =>
    rw [Ledger.gen, there]
    exact lic.positive
  | some b =>
    have next := lic.next b there (h.reads b there)
    rw [gen_of_anchor there]
    omega

theorem Anchored.shrink {l m : Ledger S U K T} (h : Anchored bytes l)
    (scribbled : m.scribbled = l.scribbled) (anchor : m.anchor = l.anchor)
    (openings : m.openings = l.openings)
    (records : ∀ s r, m.recordOf s = some r → ∃ t r', l.recordOf t = some r') :
    Anchored bytes m := by
  refine ⟨scribbled.trans h.clean, ?_, ?_, ?_, ?_⟩
  · rw [anchor]
    exact h.reads
  · rw [anchor, openings]
    exact h.audience
  · intro s r found
    obtain ⟨t, r', before⟩ := records s r found
    rw [anchor]
    exact h.records t r' before
  · rw [openings, Ledger.gen, anchor]
    exact h.past

theorem Anchored.effect [DecidableEq U] [DecidableEq K] (h : Anchored bytes p.ledger) (lic : Licence bytes op p)
    (fits : prompt bytes op p.ledger = true) (effect : Effect p op q) :
    Anchored bytes q.ledger := by
  have same : ∀ {m : Ledger S U K T}, m.scribbled = p.ledger.scribbled →
      m.anchor = p.ledger.anchor → m.openings = p.ledger.openings →
      (∀ s r, m.recordOf s = some r → p.ledger.recordOf s = some r) → Anchored bytes m :=
    fun {m} scribbled anchor openings records =>
      h.shrink scribbled anchor openings fun s r found => ⟨s, r, records s r found⟩
  cases effect with
  | nothing op => exact h
  | entered routed => exact same rfl rfl rfl fun _ _ found => found
  | overlooked => exact same rfl rfl rfl fun _ _ found => found
  | handed token => exact same rfl rfl rfl fun _ _ found => found
  | unlinked disposal u => exact h
  | quarantined => exact same rfl (h.absent lic).symm rfl fun _ _ found => found
  | quarantinedDelivery s =>
    refine same rfl rfl rfl fun t r found => ?_
    rw [recordOf_remove] at found
    split at found
    · cases found
    · exact found
  | dropped s =>
    refine same rfl rfl rfl fun t r found => ?_
    rw [recordOf_remove] at found
    split at found
    · cases found
    · exact found
  | anchored site a =>
    cases site with
    | reconstructed =>
      obtain ⟨s, r, found⟩ := lic.some_
      exact absurd (h.absent lic.unread) (h.records s r found)
    | opened =>
      have newer := h.lt_opened lic
      refine ⟨h.clean, ?_, ?_, ?_, ?_⟩
      · intro b there
        rw [anchor_writeState] at there
        cases there
        have room : bytes a ≤ markerStateMaxBytes := of_decide_eq_true fits
        have distinct : decide a.cohort.Nodup = true := decide_eq_true lic.nodup
        simp only [Anchor.reads, decide_eq_true room, decide_eq_true lic.positive, distinct,
          Bool.and_self]
      · intro b there
        rw [anchor_writeState] at there
        cases there
        exact ⟨p.ledger.routing, List.mem_cons_self, lic.routed⟩
      · intro s r _ none
        rw [anchor_writeState] at none
        cases none
      · intro e mem
        rw [gen_of_anchor (anchor_writeState a .opened)]
        rcases List.mem_cons.mp mem with rfl | mem
        · exact le_rfl
        · exact (h.past e mem).trans newer.le
  | wrote site s r ok =>
    have there : p.ledger.anchor ≠ none := by
      cases site with
      | rewritten =>
        obtain ⟨r₀, old, -⟩ := lic
        exact h.records s r₀ old
      | repaired =>
        obtain ⟨a, mint, -⟩ := lic
        exact mint.stands.there h.clean ▸ Option.some_ne_none a
      | opened =>
        obtain ⟨a, mint, -⟩ := lic
        exact mint.stands.there h.clean ▸ Option.some_ne_none a
    have fields : (p.ledger.writeDelivery p.emitted s r site).scribbled = p.ledger.scribbled ∧
        (p.ledger.writeDelivery p.emitted s r site).openings = p.ledger.openings := by
      cases site <;> exact ⟨rfl, rfl⟩
    have anchor := anchor_writeDelivery (l := p.ledger) p.emitted s r site
    have body : Anchored bytes (p.ledger.writeDelivery p.emitted s r site) := by
      refine ⟨fields.1.trans h.clean, ?_, ?_, fun _ _ _ => anchor ▸ there, ?_⟩
      · rw [anchor]
        exact h.reads
      · rw [anchor, fields.2]
        exact h.audience
      · rw [fields.2, Ledger.gen, anchor]
        exact h.past
    exact ⟨body.clean, body.reads, body.audience, body.records, body.past⟩

end Generations

section Revocation
variable {bytes : Anchor S U T → Nat} {s : S} {floor : Nat}

/-- Since a pass saw `s` out at generation `floor`: nothing can bring it a record of that
generation any more. -/
structure Out (s : S) (floor : Nat) (l : Ledger S U K T) : Prop where
  gen : floor ≤ l.gen
  opens : 1 ≤ l.opens → floor < l.gen
  stale : l.gen = floor → ∀ a, l.anchor = some a → s ∈ a.cohort →
    ∀ r, l.recordOf s = some r → a.gen ≤ r.gen

theorem out_of_enter {l : Ledger S U K T} {routed : List S} (settled : settledFor routed l = true)
    (unrouted : s ∉ routed) : Out s l.gen (l.enter routed) := by
  refine ⟨le_rfl, fun some_ => absurd some_ (Nat.not_succ_le_zero 0), fun _ a there member r found => ?_⟩
  change l.anchor = some a at there
  rw [settledFor, there] at settled
  have each := List.all_eq_true.mp settled s member
  have away : routed.contains s = false := by simpa using unrouted
  rw [away, Bool.false_or] at each
  change l.recordOf s = some r at found
  rw [found] at each
  exact of_decide_eq_true each

variable [LinearOrder U] [DecidableEq K]

theorem Out.effect {p q : Pair S U K T} {op : PairOp S U K T} (out : Out s floor p.ledger)
    (h : Anchored bytes p.ledger) (lic : Licence bytes op p) (effect : Effect p op q) :
    Out s floor q.ledger := by
  have shrink : ∀ t, Out s floor { p.ledger with delivery := p.ledger.delivery.remove t } := by
    refine fun t => ⟨out.gen, out.opens, fun level a there member r found => ?_⟩
    rw [recordOf_remove] at found
    split at found
    · cases found
    · exact out.stale level a there member r found
  cases effect with
  | nothing op => exact out
  | entered routed => exact ⟨out.gen, fun some_ => absurd some_ (Nat.not_succ_le_zero 0), out.stale⟩
  | overlooked => exact ⟨out.gen, out.opens, out.stale⟩
  | handed token => exact ⟨out.gen, out.opens, out.stale⟩
  | unlinked disposal u => exact out
  | quarantinedDelivery t => exact shrink t
  | dropped t => exact shrink t
  | quarantined =>
    have absent := h.absent lic
    have gen : p.ledger.gen = 0 := by
      rw [Ledger.gen, absent]
      rfl
    have low : floor ≤ 0 := gen ▸ out.gen
    refine ⟨low, fun some_ => ?_, fun _ a there => (Option.some_ne_none _ there.symm).elim⟩
    have above := out.opens some_
    rw [gen] at above
    exact absurd above (Nat.not_lt_zero floor)
  | anchored site a =>
    cases site with
    | reconstructed =>
      obtain ⟨t, r, found⟩ := lic.some_
      exact absurd (h.absent lic.unread) (h.records t r found)
    | opened =>
      have above : floor < a.gen := out.gen.trans_lt (h.lt_opened lic)
      have gen := gen_of_anchor (anchor_writeState (l := p.ledger) a .opened)
      refine ⟨gen ▸ above.le, fun _ => gen ▸ above, fun level => ?_⟩
      rw [gen] at level
      exact absurd level above.ne'
  | wrote site t r ok =>
    have anchor := anchor_writeDelivery (l := p.ledger) p.emitted t r site
    have gen : (p.ledger.writeDelivery p.emitted t r site).gen = p.ledger.gen := by
      rw [Ledger.gen, anchor]
      rfl
    have opens : (p.ledger.writeDelivery p.emitted t r site).opens = p.ledger.opens := by
      cases site <;> rfl
    have body : Out s floor (p.ledger.writeDelivery p.emitted t r site) := by
      refine ⟨gen ▸ out.gen, fun some_ => gen ▸ out.opens (opens ▸ some_), ?_⟩
      intro level a there member q found
      rw [anchor] at there
      rw [recordOf_writeDelivery] at found
      split at found
      · next hit =>
        subst hit
        cases found
        cases site with
        | rewritten =>
          obtain ⟨r₀, old, -, same, -⟩ := lic
          rw [same]
          exact out.stale (gen ▸ level) a there member r₀ old
        | repaired =>
          obtain ⟨b, mint, -⟩ := lic
          rw [mint.gen, mint.stands.only a there]
        | opened =>
          obtain ⟨b, mint, -⟩ := lic
          rw [mint.gen, mint.stands.only a there]
      · exact out.stale (gen ▸ level) a there member q found
    exact ⟨body.gen, body.opens, body.stale⟩

theorem created_above {p q : Pair S U K T} {op : PairOp S U K T} {g : Nat}
    (out : Out s floor p.ledger) (h : Anchored bytes p.ledger) (lic : Licence bytes op p)
    (effect : Effect p op q) (created : q.ledger.PendingAt s g)
    (new : ¬p.ledger.PendingAt s g) :
    floor < g ∧ ∃ R, (g, R) ∈ q.ledger.openings ∧ s ∈ R := by
  obtain ⟨r, found, gen, pending⟩ := created
  have unchanged : p.ledger.recordOf s ≠ some r := fun old => new ⟨r, old, gen, pending⟩
  cases effect with
  | anchored site a =>
    rw [recordOf_writeState] at found
    exact absurd found unchanged
  | quarantinedDelivery t =>
    rw [recordOf_remove] at found
    split at found
    · cases found
    · exact absurd found unchanged
  | dropped t =>
    rw [recordOf_remove] at found
    split at found
    · cases found
    · exact absurd found unchanged
  | wrote site t r' ok =>
    change (p.ledger.writeDelivery p.emitted t r' site).recordOf s = some r at found
    rw [recordOf_writeDelivery] at found
    split at found
    · next hit =>
      subst hit
      cases found
      -- the mint is at the anchor's generation, for a member of its cohort
      have minted {a : Anchor S U T} (mint : MintLicence a t r p.ledger)
          (above : floor < p.ledger.gen) {m : Ledger S U K T}
          (openings : m.openings = p.ledger.openings) :
          floor < g ∧ ∃ R, (g, R) ∈ m.openings ∧ t ∈ R := by
        have there := mint.stands.there h.clean
        obtain ⟨R, logged, within⟩ := h.audience a there
        rw [gen_of_anchor there] at above
        rw [openings, ← gen, mint.gen]
        exact ⟨above, R, logged, within t mint.member⟩
      cases site with
      | rewritten =>
        obtain ⟨r₀, old, live, same, -⟩ := lic
        exact absurd ⟨r₀, old, same ▸ gen, live⟩ new
      | repaired =>
        obtain ⟨a, mint, -, r₀, old, stale⟩ := lic
        refine minted mint (lt_of_le_of_ne out.gen fun level => ?_) rfl
        have there := mint.stands.there h.clean
        have kept := out.stale level.symm a there mint.member r₀ old
        omega
      | opened =>
        obtain ⟨a, mint, some_⟩ := lic
        exact minted mint (out.opens some_) rfl
    · exact absurd found unchanged
  | _ => exact absurd found unchanged

end Revocation

section Runs
variable [LinearOrder U] [DecidableEq K] [LinearOrder T] [Add T] [NatCast T]
variable {bytes : Anchor S U T → Nat} {c d : PairConfig S U K T} {ls ms : List (PairLabel S U K T)}
variable {l : PairLabel S U K T} {s : S}

theorem anchored_step (lawed : Lawed bytes c) (ok : Prompt bytes l c)
    (h : Anchored bytes c.state.ledger) :
    Anchored bytes ((spool bytes).step l c).state.ledger := by
  rcases lawed.step_cases l with ⟨e, rfl, same⟩ | same | ⟨task, op, i, rfl, asked, lic, effect⟩
  · rw [same]
    cases e with
    | emit u mtime =>
      rw [Pair.outside]
      split <;> exact h
    | scribble => cases ok.1
  · rw [same]
    exact h
  · exact h.effect lic (atOperation_next ok.2 asked) effect

theorem anchored_of_runs (run : Runs (spool bytes).step (Prompt bytes) emptyPair ls d) :
    Lawed bytes d ∧ Anchored bytes d.state.ledger := by
  refine run.invariant (I := fun d => Lawed bytes d ∧ Anchored bytes d.state.ledger)
    (fun l c ok held => ⟨held.1.step l, anchored_step held.1 ok held.2⟩) ⟨lawed_empty, ?_⟩
  exact ⟨rfl, fun _ there => (Option.some_ne_none _ there.symm).elim,
    fun _ there => (Option.some_ne_none _ there.symm).elim,
    fun _ _ found => (Option.some_ne_none _ found.symm).elim,
    fun _ mem => absurd mem List.not_mem_nil⟩

theorem out_of_runs {task : Task S K T} {routed : List S} {i : Input S U K}
    (before : Lawed bytes c ∧ Anchored bytes c.state.ledger)
    (pass : c.next = some (task, .enter routed)) (unrouted : s ∉ routed)
    (after : Runs (spool bytes).step (Prompt bytes) c (.advance i :: ms) d) :
    Lawed bytes d ∧ Anchored bytes d.state.ledger ∧
      Out s c.state.ledger.gen d.state.ledger := by
  obtain ⟨lawed, anchored⟩ := before
  cases after with
  | cons ok rest =>
    have entered : ((spool bytes).step (.advance i) c).state.ledger =
        c.state.ledger.enter routed := by
      obtain ⟨p, running⟩ := c
      cases running with
      | none => cases pass
      | some at_ =>
        obtain ⟨task', prog⟩ := at_
        cases prog with
        | done a => cases pass
        | call op next =>
          cases pass
          rfl
    refine rest.invariant (I := fun d => Lawed bytes d ∧ Anchored bytes d.state.ledger ∧
      Out s c.state.ledger.gen d.state.ledger) ?_ ⟨lawed.step _, anchored_step lawed ok anchored,
        entered ▸ out_of_enter (atOperation_next ok.2 pass) unrouted⟩
    rintro l d ok ⟨lawed, anchored, out⟩
    refine ⟨lawed.step l, anchored_step lawed ok anchored, ?_⟩
    rcases lawed.step_cases l with ⟨e, rfl, same⟩ | same | ⟨task, op, j, rfl, asked, lic, effect⟩
    · rw [same]
      cases e with
      | emit u mtime =>
        rw [Pair.outside]
        split <;> exact out
      | scribble => cases ok.1
    · rw [same]
      exact out
    · exact out.effect anchored lic effect

/-- In every run whose passes start with the members that are out settled: once a pass has seen
`s` out, a step that gives it a pending record gives it one of a generation opened later, by a
pass that routed `s`. -/
theorem revocation_final {task : Task S K T} {routed : List S} {i : Input S U K} {g g' : Nat}
    (before : Runs (spool bytes).step (Prompt bytes) emptyPair ls c)
    (pass : c.next = some (task, .enter routed)) (unrouted : s ∉ routed)
    (opened : g ≤ c.state.ledger.gen)
    (after : Runs (spool bytes).step (Prompt bytes) c (.advance i :: ms) d)
    (ok : Prompt bytes l d) (new : ¬d.state.ledger.PendingAt s g')
    (created : ((spool bytes).step l d).state.ledger.PendingAt s g') :
    g < g' ∧ ∃ R, (g', R) ∈ ((spool bytes).step l d).state.ledger.openings ∧
      (g', R) ∉ c.state.ledger.openings ∧ s ∈ R := by
  have start := anchored_of_runs before
  obtain ⟨lawed, anchored, out⟩ := out_of_runs start pass unrouted after
  have above : c.state.ledger.gen < g' ∧
      ∃ R, (g', R) ∈ ((spool bytes).step l d).state.ledger.openings ∧ s ∈ R := by
    rcases lawed.step_cases l with ⟨e, rfl, same⟩ | same | ⟨task, op, j, rfl, asked, lic, effect⟩
    · rw [same] at created
      cases e with
      | emit u mtime =>
        rw [Pair.outside] at created
        split at created <;> exact absurd created new
      | scribble => cases ok.1
    · rw [same] at created
      exact absurd created new
    · exact created_above out anchored lic effect created new
  obtain ⟨later, R, logged, within⟩ := above
  refine ⟨opened.trans_lt later, R, logged, fun past => ?_, within⟩
  exact absurd (start.2.past _ past) later.not_ge

end Runs

section Undone

/-- The delivery is acked and a pass runs while nobody is routed; a second emission comes with
the subscriber back, and its generation reaches the write of its record. -/
def returned : List (PairLabel Nat Nat Nat Nat) × List (PairLabel Nat Nat Nat Nat) :=
  (delivered ++ [fine 100, .finish, .start (.ack 100 12)] ++ List.replicate 4 (fine 100) ++
      [.finish, .start (.foldPass (some []) 13)],
    List.replicate 7 (fine 101) ++ [.finish, .env (.emit 1 14), .start (.foldPass (some [7]) 15)] ++
      List.replicate 9 (fine 101))

/-- The second generation opens, the process dies before the subscriber has its record, and one
pass runs while it is out. -/
def regranted : List (PairLabel Nat Nat Nat Nat) × List (PairLabel Nat Nat Nat Nat) :=
  (delivered ++ [fine 100, .finish, .start (.ack 100 12)] ++ List.replicate 4 (fine 100) ++
      [.finish, .env (.emit 1 13), .start (.foldPass (some [7]) 14)] ++ List.replicate 8 (fine 101) ++
      [.crash, .start (.foldPass (some []) 15)],
    List.replicate 7 (fine 101) ++ [.finish, .start (.foldPass (some [7]) 16)] ++
      List.replicate 5 (fine 101))

theorem returned_woken : ∃ c d : PairConfig Nat Nat Nat Nat,
    Runs (spool encodedLength).step (Prompt encodedLength) emptyPair returned.1 c ∧
      c.next = some (.foldPass (some []) 13, .enter []) ∧ c.state.ledger.gen = 1 ∧
      Runs (spool encodedLength).step (Prompt encodedLength) c returned.2 d ∧
      ¬d.state.ledger.PendingAt 7 2 ∧
      ((spool encodedLength).step (fine 101) d).state.ledger.PendingAt 7 2 ∧
      1 < 2 ∧ ∃ R, (2, R) ∈ ((spool encodedLength).step (fine 101) d).state.ledger.openings ∧
        (2, R) ∉ c.state.ledger.openings ∧ 7 ∈ R := by
  have before : Legal (spool encodedLength).step (Prompt encodedLength)
      (emptyPair : PairConfig Nat Nat Nat Nat) returned.1 := by decide +kernel
  have after : Legal (spool encodedLength).step (Prompt encodedLength)
      (returned.1.foldl (fun c l => (spool encodedLength).step l c) emptyPair) returned.2 := by
    decide +kernel
  exact ⟨_, _, before.runs, rfl, rfl, after.runs, by decide +kernel, by decide +kernel,
    revocation_final before.runs rfl (by decide) le_rfl after.runs (l := fine 101)
      (by decide +kernel) (by decide +kernel) (by decide +kernel)⟩

theorem regranted_woken : ∃ c d : PairConfig Nat Nat Nat Nat,
    Runs (spool encodedLength).step InScope emptyPair regranted.1 c ∧
      c.next = some (.foldPass (some []) 15, .enter []) ∧ c.state.ledger.gen = 2 ∧
      Runs (spool encodedLength).step InScope c regranted.2 d ∧
      ¬d.state.ledger.PendingAt 7 2 ∧
      ((spool encodedLength).step (fine 101) d).state.ledger.PendingAt 7 2 := by
  have before : Legal (spool encodedLength).step InScope
      (emptyPair : PairConfig Nat Nat Nat Nat) regranted.1 := by decide +kernel
  have after : Legal (spool encodedLength).step InScope
      (regranted.1.foldl (fun c l => (spool encodedLength).step l c) emptyPair) regranted.2 := by
    decide +kernel
  exact ⟨_, _, before.runs, rfl, rfl, after.runs, by decide +kernel, by decide +kernel⟩

end Undone

end Casa.EventRevocation
