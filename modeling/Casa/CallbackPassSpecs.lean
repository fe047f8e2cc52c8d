import Casa.CallbackSpecs

/-! The specifications of the passes, flow by flow. A pass leaves the handler of a flow alone
and, its ack phase apart, never ends the flow: `Kin` says so. -/

namespace Casa.CallbackPassSpecs
open CallbackAttempts OperationTree CallbackSpool CallbackPasses CallbackHost CallbackLicence
open CallbackSpecs

variable {H T M α β : Type} {P : Cell T M → Prop} {c₀ : Cell T M}

theorem away_of_rest (rest : Rest c₀) (free : c₀.phase ≠ .held) : Away c₀ := by
  obtain ⟨taking, landed⟩ := rest
  unfold Away
  cases phase : c₀.phase with
  | idle => exact .inl rfl
  | recorded => exact .inr rfl
  | taking => exact absurd phase taking
  | held => exact absurd phase free
  | landed => exact absurd phase landed

theorem away_of_check {seen : Cell T M} {boot : Bool} (rest : Rest c₀)
    (live : boot = true → c₀.phase ≠ .held) (kin : Kin c₀ seen)
    (check : ¬(!boot && seen.inFlight) = true) : Away c₀ := by
  refine away_of_rest rest ?_
  cases boot with
  | true => exact live rfl
  | false =>
    intro held
    refine check ?_
    simp [Cell.inFlight, kin.1, held]

section Recovery

theorem spec_recoverTemp {boot : Bool} :
    Yields H T M (Kin c₀) (recoverTemp boot) (fun _ c => Kin c₀ c) := by
  refine (spec_look (Q := fun _ c => Kin c₀ c) (stable_kin c₀) (fun _ => stable_kin c₀)
    fun _ _ held => held).bind fun seen => ?_
  split
  · exact spec_pure (stable_kin c₀) fun _ _ held => held
  · exact spec_unlink_done (stable_kin c₀) (by simp) (fun _ _ _ => trivial) fun _ held => held

theorem spec_unlinkClaim (away : Away c₀) (stable : Lasts H T M P)
    (kin : ∀ c, P c → Kin c₀ c)
    (ground : ∀ c, P c → c.result ≠ none ∨ c.held ≠ [] ∨ c.pending ≠ none ∨ Settled c) :
    Yields H T M P (do let _ ← unlink .claim; pure ⟨⟩ : CellProg T M PUnit)
      (fun _ c => Kin c₀ c) := by
  refine spec_unlink_done stable (by simp) (fun c _ held => ?_) kin
  have away' := (kin c held).away away
  refine ⟨?_, ?_, ?_⟩
  · rcases away' with phase | phase <;> simp [phase]
  · rcases away' with phase | phase <;> simp [phase]
  · rcases ground c held with h | h | h | h
    · exact .inl h
    · exact .inr (.inl h)
    · exact .inr (.inr (.inl h))
    · exact .inr (.inr (.inr (.inl h)))

theorem spec_restoreClaim (away : Away c₀) :
    Yields H T M
      (fun c => Kin c₀ c ∧ c.claim ≠ none ∧ c.result = none ∧ ¬c.Done)
      (recoverClaim.restoreClaim : CellProg T M PUnit) (fun _ c => Kin c₀ c) := by
  have restored : Yields H T M
      (fun c => Kin c₀ c ∧ c.claim ≠ none ∧ c.result = none ∧ ¬c.Done) restore
      (fun answer c => Kin c₀ c ∧ (answer = .failed ∨ c.pending ≠ none)) := by
    refine spec_ask (S := cellSig T M) ?_ (fun answer => ?_) fun c _ held => ⟨?_, fun i => ?_⟩
    · exact (stable_kin c₀).and ((stable_claim (· ≠ none)).and
        (stable_unpublished.and stable_undone))
    · exact (stable_kin c₀).and ((stable_const _).or stable_pending)
    · exact ⟨held.1.away away, held.2⟩
    · simp only [runCell]
      split
      · next linked => exact ⟨held.1, .inr held.2.1⟩
      · next answer other =>
        refine ⟨held.1, ?_⟩
        cases same : link i.ok c.claim c.pending with
        | failed => exact .inl rfl
        | exists_ => exact .inr (link_target same)
        | linked => exact absurd same other
  refine restored.bind fun answer => ?_
  cases answer with
  | failed => exact spec_pure (stable_kin c₀) fun _ _ held => held.1
  | _ =>
    refine spec_unlinkClaim away ((stable_kin c₀).and ((stable_const _).or stable_pending))
      (fun _ held => held.1) fun c held => ?_
    rcases held.2 with no | there
    · cases no
    · exact .inr (.inr (.inl there))

variable [LinearOrder T] [Add T] [Sub T] [NatCast T]

theorem spec_recoverClaim {now : T} {boot : Bool} (rest : Rest c₀)
    (live : boot = true → c₀.phase ≠ .held) :
    Yields H T M (Kin c₀) (recoverClaim now boot) (fun _ c => Kin c₀ c) := by
  have kin : Lasts H T M (Kin c₀) := stable_kin c₀
  have claimed : Lasts H T M (fun c => Kin c₀ c ∧ c.claim ≠ none) :=
    kin.and (stable_claim (· ≠ none))
  have finished : Yields H T M (Kin c₀) (pure ⟨⟩ : CellProg T M PUnit)
      (fun _ c => Kin c₀ c) := spec_pure kin fun _ _ held => held
  refine (spec_look (Q := fun seen c => Kin c₀ c ∧ Kin c₀ seen ∧ c.claim = seen.claim) kin
    (fun seen => kin.and ((stable_const _).and (stable_claim (· = seen.claim))))
    fun c _ held => ⟨held, held, rfl⟩).bind fun seen => ?_
  split
  · exact finished.pre fun _ _ held => held.1
  next check =>
  refine Spec.pre (P := fun c => Kin c₀ seen ∧ Kin c₀ c ∧ c.claim = seen.claim)
    (spec_of fun kinSeen => ?_) fun c _ held => ⟨held.2.1, held.1, held.2.2⟩
  have away := away_of_check rest live kinSeen check
  split
  · exact finished.pre fun _ _ held => held.1
  next m found =>
  refine ((spec_look (Q := fun after c => (Kin c₀ c ∧ c.claim ≠ none) ∧
      (after.result.isSome = true → c.result ≠ none ∨ c.held ≠ []) ∧
      (¬after.result.isSome = true → c.result = none)) claimed (fun after => ?_) ?_).pre
    fun c _ held => ⟨held.1, by rw [held.2, found]; nofun⟩).bind fun after => ?_
  · exact claimed.and ((Stable.imp fun _ => stable_published).and
      (.imp fun _ => stable_unpublished))
  · refine fun c _ held => ⟨held, fun there => ?_, fun absent => ?_⟩
    · exact .inl (Option.isSome_iff_ne_none.mp there)
    · simpa using absent
  split
  · next there =>
    exact (spec_unlinkClaim away (kin.and stable_published) (fun _ held => held.1)
      fun c held => held.2.imp_right .inl).pre fun c _ held => ⟨held.1.1, held.2.1 there⟩
  next absent =>
  split
  · refine ((spec_writeAhead (by simp)).pre fun c wf held =>
      ⟨held.1.1, wf.active_of_live (.inr (.inl held.1.2))⟩).bind fun b => ?_
    split
    · next yes =>
      exact (spec_unlinkClaim away (kin.and stable_settled) (fun _ held => held.1)
        fun c held => .inr (.inr (.inr held.2))).pre fun c _ held => ⟨held.1, held.2 yes⟩
    · exact finished.pre fun _ _ held => held.1
  split
  · exact finished.pre fun _ _ held => held.1.1
  refine ((spec_look (Q := fun d c => (Kin c₀ c ∧ c.claim ≠ none ∧ c.result = none) ∧
      (d.Done → Settled c) ∧ (¬d.Done → ¬c.Done)) (P := fun c => Kin c₀ c ∧ c.claim ≠ none ∧
      c.result = none) ?_ (fun d => ?_) ?_).pre
    fun c _ held => ⟨held.1.1, held.1.2, held.2.2 absent⟩).bind fun d => ?_
  · exact kin.and ((stable_claim (· ≠ none)).and stable_unpublished)
  · exact (kin.and ((stable_claim (· ≠ none)).and stable_unpublished)).and
      ((Stable.imp fun _ => stable_settled).and (.imp fun _ => stable_undone))
  · exact fun c _ held => ⟨held, .inl, id⟩
  have restored : ¬d.Done → Yields H T M
      (fun c => (Kin c₀ c ∧ c.claim ≠ none ∧ c.result = none) ∧ (d.Done → Settled c) ∧
        (¬d.Done → ¬c.Done)) (recoverClaim.restoreClaim : CellProg T M PUnit)
      (fun _ c => Kin c₀ c) :=
    fun undone => (spec_restoreClaim away).pre fun c _ held =>
      ⟨held.1.1, held.1.2.1, held.1.2.2, held.2.2 undone⟩
  split
  · next a present =>
    split
    · next done =>
      exact (spec_unlinkClaim away (kin.and stable_settled) (fun _ held => held.1)
        fun c held => .inr (.inr (.inr held.2))).pre
        fun c _ held => ⟨held.1.1, held.2.1 ⟨a, present, done⟩⟩
    · next undone =>
      refine restored ?_
      rintro ⟨b, same, done⟩
      cases present.symm.trans same
      exact undone done
  · next other =>
    refine restored ?_
    rintro ⟨a, present, -⟩
    exact other a present

end Recovery

section Acks
variable {phase : Phase} {all : Bool}

/-- The receipt is there and the handler of the flow is `phase`. -/
def Receipted (phase : Phase) (c : Cell T M) : Prop := c.token ≠ none ∧ c.phase = phase

/-- No directory has failed the teardown since it began with `all` of them open. -/
def Tearing (phase : Phase) (all : Bool) (c : Cell T M) : Prop :=
  Receipted phase c ∧ c.doubt = !all

theorem stable_receipted : Lasts H T M (Receipted phase) :=
  stable_token.and (stable_phased phase)

theorem stable_tearing : Lasts H T M (Tearing phase all) :=
  stable_receipted.and (stable_doubt (· = !all))

theorem spec_unlinkIf {opened : Bool} {slot : Slot} (away : phase = .idle ∨ phase = .recorded)
    (other : slot ≠ .token) :
    Yields H T M (Tearing phase all) (unlinkIf opened slot)
      (fun _ c => Tearing phase all c) := by
  rw [unlinkIf]
  split
  · have gone : Yields H T M (Tearing phase all) (unlink slot)
        (fun _ c => Tearing phase all c) := by
      refine spec_unlink stable_tearing (fun _ => stable_tearing) ?_ ?_ fun _ _ held => held
      · rintro c _ ⟨⟨token, same⟩, -⟩
        cases slot with
        | pending => exact .inr (.inr token)
        | claim =>
          refine ⟨?_, ?_, .inr (.inr (.inr (.inl (.inr token))))⟩
          · rcases away with rfl | rfl <;> simp [same]
          · rcases away with rfl | rfl <;> simp [same]
        | temp => trivial
        | result => exact .inr token
        | held uid => exact .inr token
        | attempt => exact .inl token
        | token => exact absurd rfl other
      · intro c _ held
        cases slot with
        | token => exact absurd rfl other
        | _ => exact held
    exact gone.bind fun _ => spec_pure stable_tearing fun _ _ held => held
  · exact spec_pure stable_tearing fun _ _ held => held

theorem spec_syncAll (opened : List Bool) :
    Yields H T M (Tearing phase all) (syncAll opened)
      (fun b c => Receipted phase c ∧ (b = true → Tearing phase all c)) := by
  have kept : ∀ b : Bool, Lasts H T M
      (fun c => Receipted phase c ∧ (b = true → Tearing phase all c)) :=
    fun b => stable_receipted.and (.imp fun _ => stable_tearing)
  induction opened with
  | nil => exact spec_pure (kept true) fun c _ held => ⟨held.1, fun _ => held⟩
  | cons first rest ih =>
    cases first with
    | false => exact ih
    | true =>
      have synced : Yields H T M (Tearing phase all) syncDir
          (fun b c => Receipted phase c ∧ (b = true → Tearing phase all c)) := by
        refine spec_ask (S := cellSig T M) stable_tearing kept fun c _ held =>
          ⟨trivial, fun i => ?_⟩
        simp only [runCell]
        split
        · exact ⟨held.1, fun _ => held⟩
        · next failed => exact ⟨held.1, fun yes => absurd yes failed⟩
      refine synced.bind fun b => ?_
      cases b with
      | true => exact ih.pre fun c _ held => held.2 rfl
      | false =>
        exact spec_pure (kept false) fun c _ held =>
          ⟨held.1, fun no => absurd no Bool.false_ne_true⟩

theorem spec_unlinkHolds (holds : List (Nat × Result T M)) :
    Yields H T M (Tearing phase all)
      (Prog.forEach (fun e => unlink (.held e.1)) holds) (fun _ c => Tearing phase all c) := by
  induction holds with
  | nil => exact spec_pure stable_tearing fun _ _ held => held
  | cons e rest ih =>
    have gone : Yields H T M (Tearing phase all) (unlink (.held e.1))
        (fun _ c => Tearing phase all c) :=
      spec_unlink stable_tearing (fun _ => stable_tearing) (fun c _ held => .inr held.1.1)
        (fun _ _ held => held) fun _ _ held => held
    refine gone.bind fun _ => ih.bind fun _ => ?_
    exact spec_pure stable_tearing fun _ _ held => held

theorem spec_teardownOnce {dirs : Dirs} (away : phase = .idle ∨ phase = .recorded) :
    Yields H T M (Tearing phase all) (teardownOnce dirs)
      (fun b c => Receipted phase c ∧ (b = true → Tearing phase all c)) := by
  refine (spec_unlinkIf away (by simp)).bind fun _ => ?_
  refine (spec_unlinkIf away (by simp)).bind fun _ => ?_
  refine (spec_unlinkIf away (by simp)).bind fun _ => ?_
  refine (spec_unlinkIf away (by simp)).bind fun _ => ?_
  have listed : Yields H T M (Tearing phase all) (heldNames dirs.results)
      (fun _ c => Tearing phase all c) := by
    rw [heldNames]
    split
    · exact spec_ask (S := cellSig T M) stable_tearing (fun _ => stable_tearing)
        fun c _ held => ⟨trivial, fun _ => held⟩
    · exact spec_pure stable_tearing fun _ _ held => held
  refine listed.bind fun holds => (spec_unlinkHolds holds).bind fun _ => ?_
  have forgotten : Yields H T M (Tearing phase all) (unlink .attempt)
      (fun _ c => Tearing phase all c) :=
    spec_unlink stable_tearing (fun _ => stable_tearing) (fun c _ held => .inl held.1.1)
      (fun _ _ held => held) fun _ _ held => held
  exact forgotten.bind fun _ => spec_syncAll _

/-- The proof step so far: `K` says that every probe was answered, `F` what they showed. -/
def Probed (phase : Phase) (all : Bool) (K : Prop) (F : Cell T M → Prop) (c : Cell T M) : Prop :=
  Receipted phase c ∧ (K → c.doubt = !all) ∧ F c

theorem stable_probed {K : Prop} {F : Cell T M → Prop} (stable : Lasts H T M F) :
    Lasts H T M (Probed phase all K F) :=
  stable_receipted.and ((Stable.imp fun _ => stable_doubt (· = !all)).and stable)

/-- What a probe shows: it was made if it was answered, and `G` if it found nothing. -/
def Shown (opened : Bool) (G : Cell T M → Prop) (answer : Option Bool) (c : Cell T M) : Prop :=
  (answer.isSome = true → opened = true) ∧ (answer = some false → G c)

theorem stable_shown (opened : Bool) {G : Cell T M → Prop} (stable : Lasts H T M G)
    (answer : Option Bool) : Lasts H T M (Shown opened G answer) :=
  (stable_const _).and (.imp fun _ => stable)

theorem shown_none {opened : Bool} {G : Cell T M → Prop} {c : Cell T M} :
    Shown opened G none c := ⟨nofun, nofun⟩

theorem spec_proveAt {opened : Bool} {f : Cell T M → Bool} {K : Prop} {F G : Cell T M → Prop}
    (stable : Lasts H T M F) (kept : Lasts H T M G)
    (blind : ∀ c, F c → F { c with doubt := true })
    (h : ∀ c, Wf c → Receipted phase c → F c → f c = false → G c) :
    Yields H T M (Probed phase all K F) (proveAt opened f)
      (fun r => Probed phase all (K ∧ r.isSome = true) (fun c => F c ∧ Shown opened G r c)) := by
  have post : ∀ r : Option Bool, Lasts H T M
      (Probed phase all (K ∧ r.isSome = true) (fun c => F c ∧ Shown opened G r c)) :=
    fun r => stable_probed (stable.and (stable_shown _ kept r))
  cases opened with
  | false =>
    exact spec_pure (post none) fun c _ held =>
      ⟨held.1, fun no => absurd no.2 Bool.false_ne_true, held.2.2, shown_none⟩
  | true =>
    have asked : Yields H T M (Probed phase all K F) prove
        (fun seen => Probed phase all (K ∧ (seen.map f).isSome = true)
          (fun c => F c ∧ Shown true G (seen.map f) c)) := by
      refine spec_ask (S := cellSig T M) (stable_probed stable) (fun _ => post _) fun c wf held =>
        ⟨trivial, fun i => ?_⟩
      simp only [runCell]
      split
      · refine ⟨held.1, fun both => held.2.1 both.1, held.2.2, fun _ => rfl, fun no => ?_⟩
        exact h c wf held.1 held.2.2 (Option.some.inj no)
      · exact ⟨held.1, fun no => absurd no.2 Bool.false_ne_true, blind c held.2.2, shown_none⟩
    refine asked.bind fun seen => ?_
    cases seen with
    | none => exact spec_pure (post none) fun _ _ held => held
    | some seen => exact spec_pure (post _) fun _ _ held => held

/-- What the proof step shows: every directory answered, and when it says so nothing is left. -/
def Proven (phase : Phase) (all : Bool) (dirs : Dirs) (answer : Option Bool) (c : Cell T M) :
    Prop :=
  Receipted phase c ∧ ∀ b, answer = some b →
    Tearing phase all c ∧ (dirs.pend && dirs.results && dirs.claims) = true ∧
      (b = true → c.Bare ∧ c.minted = true)

theorem stable_proven {dirs : Dirs} (answer : Option Bool) :
    Lasts H T M (Proven phase all dirs answer) := by
  refine stable_receipted.and fun s t wf moved held b same => ?_
  obtain ⟨tearing, opened, bare⟩ := held b same
  exact ⟨stable_tearing (H := H) s t wf moved tearing, opened,
    fun yes => stable_gone (H := H) s t wf moved (bare yes)⟩

theorem stable_unattempted : Lasts H T M (fun c => c.attempt = none) := by
  refine stable_of fun c v _ held => ?_
  rcases consumer_attempt (c := c) (v := v) with ⟨same, -⟩ | ⟨-, none, -⟩
  · exact same.trans held
  · exact none

theorem stable_temp (φ : Option (Result T M) → Prop) :
    Lasts H T M (fun c => φ c.temp) :=
  stable_of fun c v _ held => by rwa [consumer_temp]

theorem spec_teardownProven {dirs : Dirs} :
    Yields H T M (Tearing phase all) (teardownProven dirs)
      (Proven phase all dirs) := by
  have none_of : ∀ {γ : Type} {o : Option γ}, o.isSome = false → o = none :=
    fun h => Option.not_isSome_iff_eq_none.mp (by rw [h]; exact Bool.false_ne_true)
  have f1 : Lasts H T M (fun _ => True) := stable_const True
  refine ((spec_proveAt (K := True) (F := fun _ => True)
    (G := fun c => c.pending = none ∧ c.minted = true) f1 stable_unpended (fun _ _ => trivial)
    fun c wf held _ no => ⟨none_of no, wf.minted_of fun all => held.1 all.2⟩).pre
    fun c _ held => ⟨held.1, fun _ => held.2, trivial⟩).bind fun r1 => ?_
  have f2 := f1.and (stable_shown dirs.pend stable_unpended r1)
  refine (spec_proveAt (G := fun c => c.claim = none) f2 (stable_claim (· = none))
    (fun _ held => held) fun c _ _ _ no => none_of no).bind fun r2 => ?_
  have f3 := f2.and (stable_shown dirs.claims (stable_claim (· = none)) r2)
  refine (spec_proveAt (G := fun c => c.temp = none) f3 (stable_temp (· = none))
    (fun _ held => held) fun c _ _ _ no => none_of no).bind fun r3 => ?_
  have f4 := f3.and (stable_shown dirs.claims (stable_temp (· = none)) r3)
  refine (spec_proveAt (G := fun c => c.result = none) f4 stable_unpublished
    (fun _ held => held) fun c _ _ _ no => none_of no).bind fun r4 => ?_
  have f5 := f4.and (stable_shown dirs.results stable_unpublished r4)
  -- with no result left to collect, no hold can appear any more
  have holdless : Lasts H T M
      (fun c => r4 = some false → c.result = none ∧ c.held = []) := .imp fun _ => stable_uncollected
  refine (spec_proveAt (G := fun c => r4 = some false → c.result = none ∧ c.held = []) f5
    holdless (fun _ held => held)
    fun c _ _ held no absent => ⟨held.2.2 absent, by simpa using no⟩).bind fun r5 => ?_
  have f6 := f5.and (stable_shown dirs.results holdless r5)
  refine (spec_proveAt (G := fun c => c.attempt = none) f6 stable_unattempted
    (fun _ held => held) fun c _ _ _ no => none_of no).bind fun r6 => ?_
  split
  · next a b c d e f =>
    refine spec_pure (stable_proven _) fun cell _ held => ?_
    obtain ⟨receipted, undoubted, ⟨⟨⟨⟨⟨⟨-, p1⟩, p2⟩, p3⟩, p4⟩, p5⟩, p6⟩⟩ := held
    refine ⟨receipted, fun answer same => ⟨⟨receipted, undoubted (by simp)⟩, ?_, fun yes => ?_⟩⟩
    · simp [p1.1 rfl, p2.1 rfl, p4.1 rfl]
    · cases same
      simp only [Bool.not_eq_true', Bool.or_eq_false_iff] at yes
      obtain ⟨⟨⟨⟨⟨rfl, rfl⟩, rfl⟩, rfl⟩, rfl⟩, rfl⟩ := yes
      exact ⟨⟨(p1.2 rfl).1, p2.2 rfl, p3.2 rfl, p4.2 rfl, (p5.2 rfl rfl).2, p6.2 rfl⟩, (p1.2 rfl).2⟩
  · exact spec_pure (stable_proven _) fun cell _ held => ⟨held.1, nofun⟩

/-- The outcome of a teardown: `true` only with every directory answered and nothing left. -/
def TornDown (phase : Phase) (all : Bool) (dirs : Dirs) (b : Bool) (c : Cell T M) : Prop :=
  c.phase = phase ∧ (b = true → Proven phase all dirs (some true) c)

theorem stable_tornDown {dirs : Dirs} (b : Bool) :
    Lasts H T M (TornDown phase all dirs b) :=
  (stable_phased phase).and (.imp fun _ => stable_proven _)

theorem spec_teardownFlow {dirs : Dirs} (away : phase = .idle ∨ phase = .recorded)
    (rounds : Nat) :
    Yields H T M (Tearing phase all) (teardownFlow dirs rounds)
      (TornDown phase all dirs) := by
  have failed : ∀ {P : Cell T M → Prop}, (∀ c, P c → c.phase = phase) →
      Yields H T M P (pure false : CellProg T M Bool) (TornDown phase all dirs) :=
    fun same => spec_pure (stable_tornDown false) fun c _ held => ⟨same c held, nofun⟩
  induction rounds with
  | zero => exact failed fun c held => held.1.2
  | succ rounds ih =>
    refine (spec_teardownOnce away).bind fun b => ?_
    cases b with
    | false => exact failed fun c held => held.1.2
    | true =>
      refine (spec_teardownProven.pre fun c _ held => held.2 rfl).bind fun answer => ?_
      rcases answer with _ | _ | _
      · exact failed fun c held => held.1.2
      · exact ih.pre fun c _ held => (held.2 false rfl).1
      · exact spec_pure (stable_tornDown true) fun c _ held => ⟨held.1.2, fun _ => held⟩

def Calm (boot : Bool) (c : Cell T M) : Prop := Rest c ∧ (boot = true → c.phase ≠ .held)

theorem stable_calm {boot : Bool} : Lasts H T M (Calm boot) :=
  stable_rest.and (.imp fun _ => stable_phase (· ≠ .held))

theorem calm_of_phase {boot : Bool} {c d : Cell T M} (same : d.phase = c.phase)
    (h : Calm boot c) : Calm boot d := by
  unfold Calm Rest
  rwa [same]

theorem spec_consumeAck {boot : Bool} {dirs : Dirs} :
    Yields H T M (fun c => c.token ≠ none ∧ Calm boot c) (consumeAck boot dirs)
      (fun _ c => Calm boot c) := by
  refine (spec_look (Q := fun seen c => Calm boot seen ∧ Receipted seen.phase c)
    (stable_token.and stable_calm) (fun seen => (stable_const _).and stable_receipted)
    fun c _ held => ⟨held.2, held.1, rfl⟩).bind fun seen => ?_
  refine spec_of fun calm => ?_
  have finish : ∀ {P : Cell T M → Prop}, (∀ c, P c → c.phase = seen.phase) →
      Yields H T M P (pure ⟨⟩ : CellProg T M PUnit) (fun _ c => Calm boot c) :=
    fun same => spec_pure stable_calm fun c _ held => calm_of_phase (same c held) calm
  split
  · exact finish fun c held => held.2
  next check =>
  have away : Away seen := away_of_check calm.1 calm.2 (Kin.refl seen) check
  have begun : Yields H T M (Receipted seen.phase)
      (beginTeardown (dirs.pend && dirs.results && dirs.claims))
      (fun _ c => Tearing seen.phase (dirs.pend && dirs.results && dirs.claims) c) :=
    spec_ask (S := cellSig T M) stable_receipted (fun _ => stable_tearing) fun c _ held =>
      ⟨trivial, fun _ => ⟨held, rfl⟩⟩
  refine begun.bind fun _ => (spec_teardownFlow away 2).bind fun b => ?_
  cases b with
  | false => exact finish fun c held => held.1
  | true =>
    have consumed : Yields H T M
        (TornDown seen.phase (dirs.pend && dirs.results && dirs.claims) dirs true) (unlink .token)
        (fun _ c => c.phase = seen.phase) := by
      refine spec_unlink (stable_tornDown true) (fun _ => stable_phased _) ?_
        (fun _ _ held => held.1) fun _ _ held => held.1
      intro c _ held
      obtain ⟨⟨-, undoubted⟩, opened, bare⟩ := (held.2 rfl).2 true rfl
      refine ⟨(bare rfl).1, ?_, ?_⟩
      · unfold Away
        rwa [held.1]
      · rw [undoubted, opened, Bool.not_true]
    exact consumed.bind fun _ => finish fun c held => held

end Acks

section Ledger

theorem settled_of_snapshot {a : Attempt T M} {c : Cell T M} (snap : Snapshot a c)
    (done : a.status.isDone = true) : Settled c := by
  rcases snap.1 with present | ⟨-, acked⟩
  · exact .inl ⟨a, present, done⟩
  · exact .inr acked

theorem stable_record (a : Attempt T M) :
    Lasts H T M (fun c => Kin c₀ c ∧ Snapshot a c) :=
  (stable_kin c₀).and (stable_snapshot a)

theorem spec_retire (stable : Lasts H T M P) (kin : ∀ c, P c → Kin c₀ c)
    (settled : ∀ c, P c → Settled c) :
    Yields H T M P retire (fun _ c => Kin c₀ c) := by
  refine spec_ask (S := cellSig T M) stable (fun _ => stable_kin c₀) fun c _ held =>
    ⟨settled c held, fun i => ?_⟩
  simp only [runCell]
  split <;> exact kin c held

theorem spec_writeOn {site : Site} {a b : Attempt T M} (other : site ≠ .accepted)
    (licence : ∀ c, Wf c → Snapshot a c → WriteLicence b c site) :
    Yields H T M (fun c => Kin c₀ c ∧ Snapshot a c)
      (do if ← writeAttempt site b false then pure b else pure a : CellProg T M (Attempt T M))
      (fun x c => Kin c₀ c ∧ Snapshot x c) := by
  refine (spec_writeAttempt (Q := Kin c₀) (stable_record a) (stable_kin c₀)
    (fun c wf held => ⟨wf.active_of_snapshot held.2, licence c wf held.2⟩) other
    fun c held => write_kin held.1).bind fun wrote => ?_
  cases wrote with
  | true =>
    exact spec_pure (stable_record b) fun c _ held => ⟨held.2.elim (·.2) (·.1), held.1 rfl⟩
  | false =>
    refine spec_pure (stable_record a) fun c _ held => ?_
    rcases held.2 with ⟨impossible, -⟩ | same
    · simp at impossible
    · exact same

theorem spec_raiseClaimed {dirs : Dirs} {a : Attempt T M} :
    Yields H T M (fun c => Kin c₀ c ∧ Snapshot a c) (raiseClaimed dirs a)
      (fun b c => Kin c₀ c ∧ Snapshot b c) := by
  have same : Yields H T M (fun c => Kin c₀ c ∧ Snapshot a c)
      (pure a : CellProg T M (Attempt T M)) (fun b c => Kin c₀ c ∧ Snapshot b c) :=
    spec_pure (stable_record a) fun _ _ held => held
  unfold raiseClaimed
  split
  · exact same
  refine (spec_collectPresent (stable_record a)).bind fun b => ?_
  split
  · refine Spec.pre (spec_writeOn (by simp) fun c _ snap => ?_) fun _ _ held => held.1
    exact ⟨a, ⟨snap, rfl⟩, rfl⟩
  · exact same.pre fun _ _ held => held.1

theorem spec_confirm {opened : Bool} {f : Cell T M → Bool} {F G : Cell T M → Prop}
    {a : Attempt T M} {k : CellProg T M (Attempt T M)}
    (stable : Lasts H T M F) (kept : Lasts H T M G)
    (h : ∀ c, Wf c → Snapshot a c → F c → f c = false → G c)
    (next : Yields H T M (fun c => (Kin c₀ c ∧ Snapshot a c) ∧ G c) k
      (fun b c => Kin c₀ c ∧ Snapshot b c)) :
    Yields H T M (fun c => (Kin c₀ c ∧ Snapshot a c) ∧ F c)
      (do if (← probeAt opened f) ≠ some false then pure a else k)
      (fun b c => Kin c₀ c ∧ Snapshot b c) := by
  have record : Lasts H T M (fun c => Kin c₀ c ∧ Snapshot a c) := stable_record a
  refine (spec_probeAt (Q := fun r c => (Kin c₀ c ∧ Snapshot a c) ∧ (r = some false → G c))
    (record.and stable) (fun r => record.and (.imp fun _ => kept))
    (fun c _ held => ⟨held.1, nofun⟩)
    fun c wf held => ⟨held.1, fun no => h c wf held.1.2 held.2 (Option.some.inj no)⟩).bind
    fun r => ?_
  split
  · exact spec_pure record fun c _ held => held.1
  · next confirmed =>
    exact next.pre fun c _ held => ⟨held.1, held.2 (not_not.mp confirmed)⟩

variable [Add T] [NatCast T]

theorem spec_materialize {dirs : Dirs} {now : T} :
    Yields H T M (fun c => Kin c₀ c ∧ c.Live) (materialize dirs now)
      (fun r c => Kin c₀ c ∧ ∀ a, r = some a → Snapshot a c) := by
  have pre : Lasts H T M (fun c => Kin c₀ c ∧ c.Live) :=
    (stable_kin c₀).and stable_live
  have kept : ∀ r : Option (Attempt T M), Lasts H T M
      (fun c => Kin c₀ c ∧ ∀ a, r = some a → Snapshot a c) :=
    fun r => (stable_kin c₀).and fun s t wf moved held a same =>
      stable_snapshot (H := H) a s t wf moved (held a same)
  refine (spec_deriveAttempt pre).bind fun x => ?_
  refine (spec_writeAttempt (Q := Kin c₀) (pre.and (stable_derived x)) (stable_kin c₀) ?_
    (by simp) fun c held => write_kin held.1.1).bind fun wrote => ?_
  · obtain ⟨origin, a⟩ := x
    intro c wf held
    refine ⟨wf.active_of_live held.1.2, ?_⟩
    cases origin with
    | record => exact held.2
    | artifacts => exact ⟨held.1.2, held.2⟩
  cases wrote with
  | true =>
    refine spec_pure (kept _) fun c _ held => ⟨held.2.elim (·.2) (·.1.1), ?_⟩
    rintro a ⟨⟩
    exact held.1 rfl
  | false => exact spec_pure (kept none) fun c _ held => ⟨held.2.elim (·.2) (·.1.1), fun _ h => by cases h⟩

theorem spec_rebuildInvalid {dirs : Dirs} {now : T} :
    Yields H T M (Kin c₀) (rebuildInvalid dirs now)
      (fun r c => Kin c₀ c ∧ ∀ a, r = some a → Snapshot a c) := by
  have kept : Lasts H T M
      (fun c => Kin c₀ c ∧ ∀ a, (none : Option (Attempt T M)) = some a → Snapshot a c) :=
    (stable_kin c₀).and (stable_of fun _ _ _ _ => fun _ h => by cases h)
  have nothing : Yields H T M (Kin c₀)
      (pure none : CellProg T M (Option (Attempt T M)))
      (fun r c => Kin c₀ c ∧ ∀ a, r = some a → Snapshot a c) :=
    spec_pure kept fun c _ held => ⟨held, fun _ h => by cases h⟩
  refine (spec_flowArtifactsLive (stable_kin c₀)).bind fun live => ?_
  split
  · next yes =>
    exact ((spec_rewriteFromArtifacts (P := fun _ => True) (stable_const _)).pre
      fun c _ held => ⟨held.1, held.2 yes, trivial⟩).post fun r c _ held => ⟨held.1, held.2.2⟩
  refine ((spec_look (P := Kin c₀) (Q := fun seen c => Kin c₀ c ∧
    (seen.attempt = some .invalid → c.token ≠ none ∨ c.attempt = some .invalid)) (stable_kin c₀)
    (fun seen => (stable_kin c₀).and (.imp fun _ => stable_unreadable))
    fun c _ held => ⟨held, .inr⟩).pre fun c _ held => held.1).bind fun seen => ?_
  split
  · next found =>
    have gone : Yields H T M
        (fun c => Kin c₀ c ∧ (c.token ≠ none ∨ c.attempt = some .invalid)) (unlink .attempt)
        (fun _ c => Kin c₀ c) :=
      spec_unlink_kin ((stable_kin c₀).and stable_unreadable) (by simp) (fun c _ held => held.2)
        fun c held => held.1
    exact (gone.pre fun c _ held => ⟨held.1, held.2 found⟩).bind fun _ => nothing
  · exact nothing.pre fun c _ held => held.1

theorem spec_rederive_rewrite {dirs : Dirs} {now : T} {a : Attempt T M} :
    Yields H T M (fun c => Kin c₀ c ∧ c.Live ∧ Snapshot a c)
      (rederive.rewrite dirs now a) (fun b c => Kin c₀ c ∧ Snapshot b c) := by
  refine (spec_rewriteFromArtifacts (stable_snapshot a)).bind fun r => ?_
  cases r with
  | none => exact spec_pure (stable_record a) fun c _ held => ⟨held.1, held.2.1 rfl⟩
  | some b => exact spec_pure (stable_record b) fun c _ held => ⟨held.1, held.2.2 b rfl⟩

theorem spec_rederive {dirs : Dirs} {now : T} {a : Attempt T M} :
    Yields H T M (fun c => Kin c₀ c ∧ Snapshot a c) (rederive dirs now a)
      (fun b c => Kin c₀ c ∧ Snapshot b c) := by
  have record : Lasts H T M (fun c => Kin c₀ c ∧ Snapshot a c) := stable_record a
  have raised : ∀ {P : Cell T M → Prop}, (∀ c, P c → Kin c₀ c ∧ Snapshot a c) →
      Yields H T M P (raiseClaimed dirs a) (fun b c => Kin c₀ c ∧ Snapshot b c) :=
    fun known => spec_raiseClaimed.pre fun c _ held => known c held
  unfold rederive
  split
  · exact spec_pure record fun _ _ held => held
  · refine (spec_flowArtifactsLive record).bind fun live => ?_
    split
    · next yes =>
      exact spec_rederive_rewrite.pre fun c _ held => ⟨held.1.1, held.2 yes, held.1.2⟩
    · exact spec_pure record fun _ _ held => held.1
  · -- the flow rewound: its pending file is live again
    have live : ∀ r : Option Bool, Lasts H T M
        (fun c => (Kin c₀ c ∧ Snapshot a c) ∧ (r = some true → c.Live)) :=
      fun r => record.and (.imp fun _ => stable_live)
    refine (spec_probeAt (Q := fun r c => (Kin c₀ c ∧ Snapshot a c) ∧ (r = some true → c.Live))
      record live (fun c _ held => ⟨held, nofun⟩) fun c _ held => ⟨held, fun yes => ?_⟩).bind
      fun pend => ?_
    · exact .inl (Option.isSome_iff_ne_none.mp (Option.some.inj yes))
    split
    · next yes =>
      have rewound : Lasts H T M (fun c => Kin c₀ c ∧ c.Live ∧ Snapshot a c) :=
        (stable_kin c₀).and (stable_live.and (stable_snapshot a))
      have quiet : ∀ (f : Cell T M → Bool), Yields H T M
          (fun c => Kin c₀ c ∧ c.Live ∧ Snapshot a c) (probeAt dirs.results f)
          (fun _ c => Kin c₀ c ∧ c.Live ∧ Snapshot a c) :=
        fun f => spec_probeAt rewound (fun _ => rewound) (fun _ _ held => held)
          fun _ _ held => held
      refine ((quiet _).pre fun c _ held => ⟨held.1.1, held.2 yes, held.1.2⟩).bind fun result => ?_
      split
      · refine (quiet _).bind fun hold => ?_
        split
        · exact spec_rederive_rewrite
        · exact raised fun c held => ⟨held.1, held.2.2⟩
      · exact raised fun c held => ⟨held.1, held.2.2⟩
    · exact raised fun c held => held.1

theorem spec_inferReceipt {dirs : Dirs} {now : T} {boot : Bool} {a : Attempt T M} :
    Yields H T M (fun c => Kin c₀ c ∧ Snapshot a c) (inferReceipt dirs now boot a)
      (fun b c => Kin c₀ c ∧ Snapshot b c) := by
  have record : Lasts H T M (fun c => Kin c₀ c ∧ Snapshot a c) := stable_record a
  have none_of : ∀ {γ : Type} {o : Option γ}, o.isSome = false → o = none :=
    fun h => Option.not_isSome_iff_eq_none.mp (by rw [h]; exact Bool.false_ne_true)
  unfold inferReceipt
  split
  · exact spec_pure record fun _ _ held => held
  next ready =>
  have ready : a.status = .resultReady := not_not.mp ready
  refine (spec_look (Q := fun _ c => Kin c₀ c ∧ Snapshot a c) record (fun _ => record)
    fun _ _ held => held).bind fun seen => ?_
  split
  · exact spec_pure record fun _ _ held => held
  refine Spec.pre (P := fun c => (Kin c₀ c ∧ Snapshot a c) ∧ True) ?_ fun c _ held => ⟨held, trivial⟩
  refine spec_confirm (G := fun c => c.result = none) (stable_const _) stable_unpublished
    (fun c _ _ _ no => none_of no) ?_
  refine spec_confirm (G := fun c => c.result = none ∧ c.held = []) stable_unpublished
    stable_uncollected (fun c _ _ held no => ⟨held, by simpa using no⟩) ?_
  refine spec_confirm (G := fun c => (c.result = none ∧ c.held = []) ∧ c.claim = none)
    stable_uncollected (stable_uncollected.and (stable_claim (· = none)))
    (fun c _ _ held no => ⟨held, none_of no⟩) ?_
  have gone : Lasts H T M
      (fun c => ((c.result = none ∧ c.held = []) ∧ c.claim = none) ∧
        c.pending = none ∧ c.minted = true) :=
    (stable_uncollected.and (stable_claim (· = none))).and stable_unpended
  refine spec_confirm (G := fun c => ((c.result = none ∧ c.held = []) ∧ c.claim = none) ∧
      c.pending = none ∧ c.minted = true) (stable_uncollected.and (stable_claim (· = none))) gone
    (fun c wf snap held no => ⟨held, none_of no, (wf.active_of_snapshot snap).1⟩) ?_
  refine (spec_writeAttempt (Q := Kin c₀) (record.and gone) (stable_kin c₀) ?_ (by simp)
    fun c held => write_kin held.1.1).bind fun wrote => ?_
  · rintro c wf ⟨⟨-, snap⟩, ⟨⟨result, hold⟩, claim⟩, pending, -⟩
    refine ⟨wf.active_of_snapshot snap, a, ⟨snap, terminalize_nudges ..⟩, by rw [ready]; rfl, ?_⟩
    rintro (live | live | live | live)
    · exact live pending
    · exact live claim
    · exact live result
    · exact live hold
  cases wrote with
  | true =>
    exact spec_pure (stable_record _) fun c _ held => ⟨held.2.elim (·.2) (·.1.1), held.1 rfl⟩
  | false =>
    refine spec_pure record fun c _ held => ?_
    rcases held.2 with ⟨impossible, -⟩ | same
    · simp at impossible
    · exact same.1

theorem spec_evictAttempt {now : T} {a : Attempt T M} :
    Yields H T M (fun c => Kin c₀ c ∧ Snapshot a c) (evictAttempt now a)
      (fun _ c => Kin c₀ c) := by
  refine (spec_writeAttempt (Q := Kin c₀) (stable_record a) (stable_kin c₀) ?_ (by simp)
    fun c held => write_kin held.1).bind fun wrote => ?_
  · exact fun c wf held => ⟨wf.active_of_snapshot held.2, a, ⟨held.2, terminalize_nudges ..⟩,
      terminalize_status ..⟩
  split
  · next yes =>
    refine ((spec_retire ((stable_kin c₀).and stable_settled) (fun _ held => held.1)
      fun _ held => held.2).pre fun c _ held => ⟨held.2.elim (·.2) (·.1), ?_⟩).bind fun _ =>
        spec_pure (stable_kin c₀) fun _ _ held => held
    exact settled_of_snapshot (held.1 yes) (by rw [terminalize_status]; rfl)
  · exact spec_pure (stable_kin c₀) fun c _ held => held.2.elim (·.2) (·.1)

end Ledger

section Sweeping

theorem spec_sweepTemp [LinearOrder T] [Add T] [Sub T] [NatCast T] {now : T} :
    Yields H T M (Kin c₀) (sweepTemp now) (fun _ c => Kin c₀ c) := by
  refine (spec_look (Q := fun _ c => Kin c₀ c) (stable_kin c₀) (fun _ => stable_kin c₀)
    fun _ _ held => held).bind fun seen => ?_
  have finished : Yields H T M (Kin c₀) (pure ⟨⟩ : CellProg T M PUnit)
      (fun _ c => Kin c₀ c) := spec_pure (stable_kin c₀) fun _ _ held => held
  split
  · exact finished
  split
  · exact finished
  split
  · exact spec_unlink_done (stable_kin c₀) (by simp) (fun _ _ _ => trivial) fun _ held => held
  · exact finished

theorem spec_unlinkSettled (slot : Slot) (other : slot ≠ .token)
    (free : ∀ c : Cell T M, Settled c → UnlinkLicence c slot) :
    Yields H T M (fun c => Kin c₀ c ∧ Settled c) (unlink slot)
      (fun _ c => Kin c₀ c) :=
  spec_unlink_kin ((stable_kin c₀).and stable_settled) other (fun c _ held => free c held.2)
    fun _ held => held.1

def Kept (c₀ : Cell T M) (r : Option α) (c : Cell T M) : Prop :=
  Kin c₀ c ∧ (r.isSome = true → Active c)

theorem stable_kept (r : Option α) : Lasts H T M (Kept c₀ r) :=
  (stable_kin c₀).and (.imp fun _ => stable_active)

theorem spec_kept_none : Yields H T M (Kin c₀)
    (pure none : CellProg T M (Option α)) (Kept c₀) :=
  spec_pure (stable_kept none) fun _ _ held => ⟨held, nofun⟩

theorem live_of_resultAt {c : Cell T M} {hold : Option Nat} {r : Result T M}
    (found : Cell.resultAt c hold = some r) : c.Live := by
  cases hold with
  | none => exact .inr (.inr (.inl (by rw [show c.result = some r from found]; nofun)))
  | some uid =>
    refine .inr (.inr (.inr fun empty => ?_))
    simp [Cell.resultAt, empty] at found

theorem unlinkLicence_resultSlot {c : Cell T M} (hold : Option Nat) (settled : Settled c) :
    UnlinkLicence c (resultSlot hold) := by
  cases hold <;> exact settled

theorem resultSlot_ne_token (hold : Option Nat) : resultSlot hold ≠ .token := by
  cases hold <;> nofun

variable [Add T] [NatCast T]

theorem spec_capEntry {slot : Slot} {dirs : Dirs} {now : T} (other : slot ≠ .token)
    (free : ∀ c : Cell T M, Settled c → UnlinkLicence c slot) :
    Yields H T M (fun c => Kin c₀ c ∧ Active c) (capEntry dirs now slot)
      (fun _ c => Kin c₀ c) := by
  refine (spec_writeAhead (by simp)).bind fun b => ?_
  split
  · next yes =>
    refine ((spec_unlinkSettled slot other free).pre fun c _ held => ⟨held.1, held.2 yes⟩).bind
      fun gone => ?_
    split
    · exact spec_pure (stable_kin c₀) fun _ _ held => held
    · exact spec_repairAfterLostDeletion
  · exact spec_pure (stable_kin c₀) fun _ _ held => held.1

theorem spec_capHold {dirs : Dirs} {now : T} {uid : Nat} :
    Yields H T M (fun c => Kin c₀ c ∧ Active c) (capHold dirs now uid)
      (fun _ c => Kin c₀ c) := by
  refine (spec_writeAhead (by simp)).bind fun b => ?_
  split
  · next yes =>
    refine ((spec_unlinkSettled (.held uid) (by simp) fun _ settled => settled).pre
      fun c _ held => ⟨held.1, held.2 yes⟩).bind fun _ => ?_
    exact spec_pure (stable_kin c₀) fun _ _ held => held
  · exact spec_pure (stable_kin c₀) fun _ _ held => held.1

variable [LinearOrder T] [Sub T]

theorem spec_sweepPending {dirs : Dirs} {now : T} :
    Yields H T M (Kin c₀) (sweepPending dirs now) (Kept c₀) := by
  refine (spec_look (Q := fun seen c => Kin c₀ c ∧ (seen.pending ≠ none → Active c))
    (stable_kin c₀) (fun seen => (stable_kin c₀).and (.imp fun _ => stable_active))
    fun c wf held => ⟨held, fun there => wf.active_of_live (.inl there)⟩).bind fun seen => ?_
  split
  · exact spec_kept_none.pre fun c _ held => held.1
  next m found =>
  have there : seen.pending ≠ none := by rw [found]; nofun
  split
  · refine ((spec_writeAhead (by simp)).pre fun c _ held => ⟨held.1, held.2 there⟩).bind
      fun b => ?_
    split
    · next yes =>
      exact ((spec_unlinkSettled .pending (by simp) fun _ settled => .inr settled).pre
        fun c _ held => ⟨held.1, held.2 yes⟩).bind fun _ => spec_kept_none
    · exact spec_kept_none.pre fun c _ held => held.1
  · exact spec_pure (stable_kept _) fun c _ held => ⟨held.1, fun _ => held.2 there⟩

theorem spec_sweepResult {dirs : Dirs} {now : T} {hold : Option Nat} :
    Yields H T M (Kin c₀) (sweepResult dirs now hold) (Kept c₀) := by
  refine (spec_look (Q := fun seen c => Kin c₀ c ∧ (seen.Live → Active c))
    (stable_kin c₀) (fun seen => (stable_kin c₀).and (.imp fun _ => stable_active))
    fun c wf held => ⟨held, wf.active_of_live⟩).bind fun seen => ?_
  split
  · exact spec_kept_none.pre fun c _ held => held.1
  next r found =>
  have there := live_of_resultAt found
  split
  · refine ((spec_writeAhead (by simp)).pre fun c _ held => ⟨held.1, held.2 there⟩).bind
      fun b => ?_
    split
    · next yes =>
      refine ((spec_unlinkSettled _ (resultSlot_ne_token hold)
        fun _ settled => unlinkLicence_resultSlot hold settled).pre
        fun c _ held => ⟨held.1, held.2 yes⟩).bind fun gone => ?_
      split
      · exact spec_kept_none
      · exact spec_repairAfterLostDeletion.bind fun _ => spec_kept_none
    · exact spec_kept_none.pre fun c _ held => held.1
  · exact spec_pure (stable_kept _) fun c _ held => ⟨held.1, fun _ => held.2 there⟩

end Sweeping

section Worker

theorem spec_forget :
    Yields H T M (Kin c₀) (remember none) (fun _ c => Kin c₀ c) :=
  spec_ask (S := cellSig T M) (stable_kin c₀) (fun _ => stable_kin c₀) fun _ _ held =>
    ⟨fun _ same => (by cases same), fun _ => held⟩

theorem spec_lookRecord {due : Option (Attempt T M)} :
    Yields H T M (fun c => Kin c₀ c ∧ c.due = due) look
      (fun seen c => (Kin c₀ c ∧ c.due = due) ∧
        ∀ a, seen.attempt = some (.record a) → Snapshot a c) := by
  have pre := (stable_kin (H := H) c₀).and (stable_due (· = due))
  refine spec_look pre (fun seen => pre.and fun s t wf moved held a same =>
    stable_snapshot (H := H) a s t wf moved (held a same)) fun c wf held => ⟨held, ?_⟩
  exact fun a present => ⟨.inl present, wf.spent a present⟩

theorem spec_replace_kin {site : Site} {a : Attempt T M} (stable : Lasts H T M P)
    (kin : ∀ c, P c → Kin c₀ c)
    (licence : ∀ c, Wf c → P c → Active c ∧ WriteLicence a c site) :
    Yields H T M P (writeAttempt site a false) (fun _ c => Kin c₀ c) := by
  have wrote : Yields H T M P (replace site a) (fun _ c => Kin c₀ c) := by
    refine spec_ask (S := cellSig T M) stable (fun _ => stable_kin c₀) fun c wf held =>
      ⟨licence c wf held, fun i => ?_⟩
    simp only [runCell]
    split <;> split <;> exact kin c held
  refine wrote.bind fun b => ?_
  rw [Bool.and_false, if_neg Bool.false_ne_true]
  exact spec_pure (stable_kin c₀) fun _ _ held => held

theorem spec_updateMerged {merge : Attempt T M → Attempt T M}
    (nudges : ∀ a, (merge a).nudges = a.nudges) (status : ∀ a, (merge a).status = a.status) :
    Yields H T M (Kin c₀) (updateAttemptNudge .merged merge)
      (fun _ c => Kin c₀ c) := by
  refine Spec.bind (Q := fun seen c => Kin c₀ c ∧
    ∀ a, seen.attempt = some (.record a) → Snapshot a c) ?_ fun seen => ?_
  · refine spec_look (stable_kin c₀) (fun seen => (stable_kin c₀).and
      fun s t wf moved held a same => stable_snapshot (H := H) a s t wf moved (held a same))
      fun c wf held => ⟨held, fun a present => ⟨.inl present, wf.spent a present⟩⟩
  split
  · next a found =>
    refine Spec.pre (P := fun c => Kin c₀ c ∧ Snapshot a c)
      (spec_replace_kin (stable_record a) (fun _ held => held.1) fun c wf held => ?_)
      fun c _ held => ⟨held.1, held.2 a found⟩
    exact ⟨wf.active_of_snapshot held.2, a, ⟨held.2, nudges a⟩, status a⟩
  · exact spec_pure (stable_kin c₀) fun _ _ held => held.1

theorem spec_updateAccepted {merge : Attempt T M → Attempt T M} {due : Attempt T M}
    (nudges : ∀ a, (merge a).nudges = due.nudges + 1)
    (status : ∀ a, (merge a).status = a.status) :
    Yields H T M (fun c => Kin c₀ c ∧ c.due = some due)
      (updateAttemptNudge .accepted merge) (fun _ c => Kin c₀ c) := by
  refine spec_lookRecord.bind fun seen => ?_
  split
  · next a found =>
    refine Spec.pre (P := fun c => (Kin c₀ c ∧ c.due = some due) ∧ Snapshot a c)
      (spec_replace_kin ?_ (fun _ held => held.1.1) fun c wf held => ?_)
      fun c _ held => ⟨held.1, held.2 a found⟩
    · exact ((stable_kin c₀).and (stable_due (· = some due))).and (stable_snapshot a)
    · exact ⟨wf.active_of_snapshot held.2, a, due, held.2, held.1.2, nudges a, status a⟩
  · exact spec_pure (stable_kin c₀) fun _ _ held => held.1.1

theorem spec_noteExhaustion :
    Yields H T M (Kin c₀) noteExhaustion (fun _ c => Kin c₀ c) :=
  Spec.bind (Q := fun _ c => Kin c₀ c) (spec_updateMerged (fun _ => rfl) fun _ => rfl) fun _ =>
    spec_pure (stable_kin c₀) fun _ _ held => held

theorem spec_lookDue :
    Yields H T M (Kin c₀) look (fun seen c => Kin c₀ c ∧ c.due = seen.due) :=
  spec_look (stable_kin c₀) (fun seen => (stable_kin c₀).and (stable_due (· = seen.due)))
    fun _ _ held => ⟨held, rfl⟩

theorem stable_spent (φ : Nat → Prop) : Lasts H T M (fun c => φ c.spent) :=
  stable_of fun c v _ held => by rwa [consumer_spent]

theorem spec_remember {a : Attempt T M} (budget : a.nudges < maxNudges) :
    Yields H T M (fun c => Kin c₀ c ∧ a.nudges = c.spent) (remember (some a))
      (fun _ c => Kin c₀ c) := by
  refine spec_ask (S := cellSig T M) ((stable_kin c₀).and (stable_spent (a.nudges = ·)))
    (fun _ => stable_kin c₀) fun c _ held => ⟨?_, fun _ => held.1⟩
  rintro b ⟨⟩
  exact ⟨held.2, budget⟩

theorem spec_selectNudge [LinearOrder T] {now : T} :
    Yields H T M (Kin c₀) (selectNudge now) (fun _ c => Kin c₀ c) := by
  have noted : ∀ a : Attempt T M,
      Lasts H T M (fun c => Kin c₀ c ∧ a.nudges = c.spent) :=
    fun a => (stable_kin c₀).and (stable_spent (a.nudges = ·))
  refine (spec_look (Q := fun seen c => Kin c₀ c ∧
    ∀ a, seen.attempt = some (.record a) → a.nudges = c.spent) (stable_kin c₀)
    (fun seen => (stable_kin c₀).and fun s t wf moved held a present =>
      stable_spent (H := H) (a.nudges = ·) s t wf moved (held a present))
    fun c wf held => ⟨held, wf.spent⟩).bind fun seen => ?_
  split
  · next a found =>
    refine Spec.pre (P := fun c => Kin c₀ c ∧ a.nudges = c.spent) ?_
      fun c _ held => ⟨held.1, held.2 a found⟩
    split
    · exact spec_forget.pre fun _ _ held => held.1
    split
    · exact spec_forget.pre fun _ _ held => held.1
    · next open_ =>
      rw [not_or, not_or, Nat.not_le] at open_
      refine (spec_look (Q := fun _ c => Kin c₀ c ∧ a.nudges = c.spent) (noted a)
        (fun _ => noted a) fun _ _ held => held).bind fun after => ?_
      split
      · exact spec_forget.pre fun _ _ held => held.1
      · exact spec_remember open_.2.1
  · exact spec_forget.pre fun _ _ held => held.1

variable [Add T] [NatCast T]

theorem spec_defer {now : T} :
    Yields H T M (Kin c₀) (defer now) (fun _ c => Kin c₀ c) := by
  refine spec_lookDue.bind fun seen => ?_
  split
  · exact spec_pure (stable_kin c₀) fun _ _ held => held.1
  · refine Spec.pre ?_ fun _ _ held => held.1
    refine Spec.bind (Q := fun _ c => Kin c₀ c) ?_ fun _ => spec_forget
    exact spec_updateMerged (fun _ => rfl) fun _ => rfl

variable [LinearOrder T]

theorem spec_accept {now : T} {anchorTs : Option T} :
    Yields H T M (Kin c₀) (accept now anchorTs) (fun _ c => Kin c₀ c) := by
  refine spec_lookDue.bind fun seen => ?_
  split
  · exact spec_pure (stable_kin c₀) fun _ _ held => held.1
  next due found =>
  rw [found]
  split
  · exact spec_forget.pre fun _ _ held => held.1
  · refine Spec.bind (Q := fun _ c => Kin c₀ c) ?_ fun _ => spec_forget
    exact spec_updateAccepted (fun _ => rfl) fun _ => rfl

end Worker

end Casa.CallbackPassSpecs
