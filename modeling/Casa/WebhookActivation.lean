import Casa.WebhookSecrets

/-! What an activation leaves behind. `ensure_secret_for_identity` looks at the live secret and at
the binding only, and a retirement is best effort: a `.next` of the old identity that outlives it
can be promoted into the new one. Where no activation writes its binding beside such a `.next`, a
secret that was left behind is gone for good. -/

namespace Casa.WebhookActivation
open StepRuns OperationTree FallibleTree WebhookSecrets

/-- An activation writes its binding beside a `.next` of another identity. -/
def careless : FileOp → Bool → Store → Bool
  | .bind identity, false, s => s.next.any fun v => s.foreign identity v
  | _, _, _ => false

def careful : Label PEmpty Task Bool → Config fileSig Store Task → Bool
  | .advance fails, c => c.next.all fun asked => !careless asked.2 fails c.state
  | _, _ => true

def performCareful : Device fileSig Bool Store := fun op fails s =>
  perform op (fails || careless op fails s) s

def carefulProcess : Host fileSig Bool Store PEmpty Task :=
  { process with run := performCareful }

theorem step_careful {l : Label PEmpty Task Bool} {c : Config fileSig Store Task}
    (ok : careful l c = true) : process.step l c = carefulProcess.step l c := by
  refine process.step_congr fun fails task op now next => ?_
  subst now
  have spared : careless op fails c.state = false := by simpa [careful, next] using ok
  simp only [performCareful, spared, Bool.or_false, process]

/-- No slot holds a secret that was left behind, or one foreign to the binding. -/
structure Fresh (s : Store) : Prop where
  held : ∀ slot v, s.get slot = some v → v < s.minted ∧ s.dead v = false
  own : ∀ slot v b, s.get slot = some v → s.ident = some b → s.foreign b v = false
  known : ∀ v, s.dead v = true → v < s.minted
  mark : s.mark ≤ s.minted

theorem fresh_empty : Fresh Store.empty where
  held slot v there := by cases slot <;> cases there
  own slot v b there := by cases slot <;> cases there
  known v dead := by cases dead
  mark := Nat.le_refl 0

theorem Fresh.shrink {s t : Store} (h : Fresh s)
    (slots : ∀ slot v, t.get slot = some v → ∃ slot', s.get slot' = some v)
    (ident : ∀ b, t.ident = some b → s.ident = some b) (minted : t.minted = s.minted)
    (boundAt : t.boundAt = s.boundAt) (mintedBy : t.mintedBy = s.mintedBy)
    (dead : t.dead = s.dead) (mark : t.mark ≤ t.minted) : Fresh t where
  held slot v there := by
    obtain ⟨slot', found⟩ := slots slot v there
    rw [minted, dead]
    exact h.held slot' v found
  own slot v b there bound := by
    obtain ⟨slot', found⟩ := slots slot v there
    have own := h.own slot' v b found (ident b bound)
    rw [Store.foreign, boundAt, mintedBy]
    exact own
  known v gone := by
    rw [minted]
    rw [dead] at gone
    exact h.known v gone
  mark := mark

theorem fresh_remove {s : Store} (h : Fresh s) (file : File) : Fresh (s.remove file) := by
  cases file with
  | state =>
    exact h.shrink (fun slot v there => ⟨slot, by cases slot <;> exact there⟩)
      (fun _ bound => bound) rfl rfl rfl rfl h.mark
  | ident =>
    exact h.shrink (fun slot v there => ⟨slot, by cases slot <;> exact there⟩) nofun
      rfl rfl rfl rfl h.mark
  | slot gone =>
    have slots : ∀ slot v, (s.put gone none).get slot = some v →
        ∃ slot', s.get slot' = some v := by
      intro slot v there
      refine ⟨slot, ?_⟩
      cases gone with
      | live =>
        cases slot with
        | live => cases there
        | next => exact there
      | next =>
        cases slot with
        | live => exact there
        | next => cases there
    cases gone <;> exact h.shrink slots (fun _ bound => bound) rfl rfl rfl rfl h.mark

theorem foreign_publish {s : Store} {slot : Slot} {activation : Option Identity} {b : Identity}
    {v : ℕ} (old : v < s.minted) :
    (s.publish slot activation).foreign b v = s.foreign b v := by
  have apart : v ≠ s.minted := Nat.ne_of_lt old
  have frame (t : Store) (boundAt : t.boundAt = Function.update s.boundAt s.minted s.ident)
      (mintedBy : t.mintedBy = Function.update s.mintedBy s.minted activation) :
      t.foreign b v = s.foreign b v := by
    simp only [Store.foreign, boundAt, mintedBy, Function.update_of_ne apart]
  simp only [Store.publish]
  split
  · cases slot <;> exact frame _ rfl rfl
  · exact frame _ rfl rfl

theorem own_publish {s : Store} {slot : Slot} {activation : Option Identity} {b : Identity}
    (bound : s.ident = some b) : (s.publish slot activation).foreign b s.minted = false := by
  have frame (t : Store) (boundAt : t.boundAt = Function.update s.boundAt s.minted s.ident) :
      t.foreign b s.minted = false := by
    simp [Store.foreign, boundAt, bound]
  simp only [Store.publish]
  split
  · cases slot <;> exact frame _ rfl
  · exact frame _ rfl

theorem slot_publish {s : Store} {slot slot' : Slot} {activation : Option Identity} {v : ℕ}
    (there : (s.publish slot activation).get slot' = some v) :
    v = s.minted ∨ s.get slot' = some v := by
  simp only [Store.publish] at there
  split at there
  · cases slot with
    | live =>
      cases slot' with
      | live => exact .inl (Option.some.inj there).symm
      | next => exact .inr there
    | next =>
      cases slot' with
      | live => exact .inr there
      | next => exact .inl (Option.some.inj there).symm
  · cases slot' <;> exact .inr there

theorem frame_publish (s : Store) (slot : Slot) (activation : Option Identity) :
    (s.publish slot activation).ident = s.ident ∧
      (s.publish slot activation).minted = s.minted + 1 ∧
      (s.publish slot activation).mark = s.mark ∧
      (s.publish slot activation).dead = s.dead := by
  simp only [Store.publish]
  split
  · cases slot <;> exact ⟨rfl, rfl, rfl, rfl⟩
  · exact ⟨rfl, rfl, rfl, rfl⟩

theorem fresh_publish {s : Store} (h : Fresh s) (slot : Slot) (activation : Option Identity) :
    Fresh (s.publish slot activation) := by
  obtain ⟨ident, minted, mark, dead⟩ := frame_publish s slot activation
  constructor
  · intro slot' v there
    rw [minted, dead]
    rcases slot_publish there with rfl | old
    · refine ⟨Nat.lt_succ_self _, ?_⟩
      cases gone : s.dead s.minted with
      | false => rfl
      | true => exact absurd (h.known _ gone) (Nat.lt_irrefl _)
    · obtain ⟨lt, alive⟩ := h.held slot' v old
      exact ⟨Nat.lt_succ_of_lt lt, alive⟩
  · intro slot' v b there bound
    rw [ident] at bound
    rcases slot_publish there with rfl | old
    · exact own_publish bound
    · rw [foreign_publish (h.held slot' v old).1]
      exact h.own slot' v b old bound
  · intro v gone
    rw [dead] at gone
    rw [minted]
    exact Nat.lt_succ_of_lt (h.known v gone)
  · rw [mark, minted]
    exact Nat.le_succ_of_le h.mark

def Ours (identity : Identity) (s : Store) : Prop :=
  ∀ v, s.live = some v → s.foreign identity v = false

/-- A binding is written beside a live secret of its own, and an activation returns a secret that
is bound. -/
def licence : FileOp → Store → Prop
  | .bind identity, s => Ours identity s
  | .activated identity, s => s.ident = some identity
  | _, _ => True

theorem fresh_bind {s : Store} {identity : Identity} (h : Fresh s) (ours : Ours identity s)
    (careful : careless (.bind identity) false s = false) :
    Fresh { s with ident := some identity } := by
  have own : ∀ slot v, s.get slot = some v → s.foreign identity v = false := by
    intro slot v there
    cases slot with
    | live => exact ours v there
    | next =>
      have next : s.next = some v := there
      simpa [careless, next] using careful
  constructor
  · intro slot v there
    exact h.held slot v (by cases slot <;> exact there)
  · intro slot v b there bound
    cases bound
    exact own slot v (by cases slot <;> exact there)
  · exact h.known
  · exact h.mark

theorem fresh_activated {s : Store} {identity : Identity} (h : Fresh s)
    (bound : s.ident = some identity) : Fresh (s.activated identity) := by
  constructor
  · intro slot v there
    have found : s.get slot = some v := by cases slot <;> exact there
    obtain ⟨lt, alive⟩ := h.held slot v found
    refine ⟨lt, ?_⟩
    simp [Store.activated, alive, h.own slot v identity found bound]
  · intro slot v b there known
    exact h.own slot v b (by cases slot <;> exact there) known
  · intro v gone
    simp only [Store.activated, Bool.or_eq_true, Bool.and_eq_true, decide_eq_true_eq] at gone
    rcases gone with before | ⟨lt, -⟩
    · exact h.known v before
    · exact Nat.lt_of_lt_of_le lt h.mark
  · exact h.mark

theorem fresh_rename {s : Store} (h : Fresh s) (fails : Bool) :
    Fresh (perform .rename fails s).2 := by
  cases fails with
  | true => exact h
  | false =>
    cases next : s.next with
    | none =>
      have same : (perform .rename false s).2 = s := by simp [perform, next]
      rw [same]
      exact h
    | some v =>
      have renamed : (perform .rename false s).2 = { s with live := some v, next := none } := by
        simp [perform, next]
      rw [renamed]
      refine h.shrink (fun slot w there => ?_) (fun _ bound => bound) rfl rfl rfl rfl h.mark
      cases slot with
      | next => cases there
      | live =>
        cases there
        exact ⟨.next, next⟩

theorem fresh_perform {op : FileOp} {fails : Bool} {s : Store} (h : Fresh s)
    (may : licence op s) : Fresh (performCareful op fails s).2 := by
  cases op with
  | bind identity =>
    cases fails with
    | true => exact h
    | false =>
      cases spared : careless (.bind identity) false s with
      | true =>
        have same : (performCareful (.bind identity) false s).2 = s := by
          simp [performCareful, perform, spared]
        rw [same]
        exact h
      | false =>
        have bound : (performCareful (.bind identity) false s).2 =
            { s with ident := some identity } := by
          simp [performCareful, perform, spared]
        rw [bound]
        exact fresh_bind h may spared
  | activated identity => exact fresh_activated h may
  | rename =>
    have same : performCareful .rename fails s = perform .rename fails s := by
      cases fails <;> rfl
    rw [same]
    exact fresh_rename h fails
  | enter =>
    exact h.shrink (fun slot v there => ⟨slot, by cases slot <;> exact there⟩)
      (fun _ bound => bound) rfl rfl rfl rfl (Nat.le_refl _)
  | unlink file =>
    cases fails with
    | true => exact h
    | false => exact fresh_remove h file
  | publish slot activation =>
    cases fails with
    | true => exact h
    | false => exact fresh_publish h slot activation
  | setState phase =>
    cases fails with
    | true => exact h
    | false =>
      exact h.shrink (fun slot v there => ⟨slot, by cases slot <;> exact there⟩)
        (fun _ bound => bound) rfl rfl rfl rfl h.mark
  | read slot => exact h
  | readIdent => exact h
  | readState => exact h
  | exists_ slot => exact h
  | fsync => exact h

section Scripts
variable {α β : Type} {P : Store → Prop}

/-- The proof rule at these files; what an exception leaves is of no interest. -/
abbrev Holds (P : Store → Prop) (p : FileScript α) (Q : α → Store → Prop) : Prop :=
  Triple performCareful Fresh licence (fun h may => fresh_perform h may) P p Q (fun _ _ => True)

abbrev Calm (p : FileScript α) : Prop := Holds (fun _ => True) p (fun _ _ => True)

theorem holds_call {op : FileOp} {Q : op.Answer → Store → Prop}
    (h : ∀ s, P s → licence op s ∧
      ∀ fails a, (performCareful op fails s).1 = .ok a → Q a (performCareful op fails s).2) :
    Holds P (call op) Q := by
  refine triple_ask fun s _ held => ⟨(h s held).1, fun fails => ?_⟩
  cases answer : (performCareful op fails s).1 with
  | error e => trivial
  | ok a => exact (h s held).2 fails a answer

theorem calm_call {op : FileOp} (free : ∀ s, licence op s) : Calm (call op) :=
  holds_call fun s _ => ⟨free s, fun _ _ _ => trivial⟩

theorem calm_pure (a : α) : Calm (pure a : FileScript α) := triple_pure fun _ _ _ => trivial

theorem Calm.bind {p : FileScript α} {k : α → FileScript β} (h : Calm p)
    (next : ∀ a, Calm (k a)) : Calm (p >>= k) := Triple.bind h next

theorem calm_tolerant {p : FileScript PUnit} (h : Calm p) : Calm (tolerant p) :=
  Triple.rescue h fun _ => calm_pure _

theorem calm_unlink (file : File) : Calm (unlink file) :=
  calm_tolerant (calm_call fun _ => trivial)

theorem calm_read (slot : Slot) : Calm (read slot) := calm_call fun _ => trivial

theorem calm_fsync : Calm fsync := calm_call fun _ => trivial

theorem calm_publish (slot : Slot) (activation : Option Identity) :
    Calm (publish slot activation) := by
  have linked : Calm (call (.publish slot activation)) := calm_call fun _ => trivial
  exact linked.bind fun _ => calm_fsync

theorem calm_retireSecret : Calm retireSecret :=
  (calm_unlink _).bind fun _ => (calm_unlink _).bind fun _ => (calm_unlink _).bind fun _ =>
    (calm_unlink _).bind fun _ => calm_tolerant calm_fsync

theorem calm_ensureSecret (activation : Option Identity) : Calm (ensureSecret activation) := by
  refine (calm_read .live).bind fun found => ?_
  cases found with
  | some v => exact calm_pure _
  | none => exact (calm_publish .live activation).bind fun _ => calm_read .live

theorem calm_secretBoundToIdentity (identity : Identity) :
    Calm (secretBoundToIdentity identity) := by
  refine (calm_read .live).bind fun found => ?_
  cases found with
  | none => exact calm_pure _
  | some v =>
    have bound : Calm readIdent := calm_call fun _ => trivial
    exact bound.bind fun _ => calm_pure _

theorem calm_writeState (phase : Phase) : Calm (writeState phase) := by
  have renamed : Calm (call (.setState phase)) := calm_call fun _ => trivial
  exact renamed.bind fun _ => calm_fsync

theorem calm_clearState : Calm clearState := (calm_unlink .state).bind fun _ => calm_fsync

theorem calm_rotationBegin (owner : Owner) : Calm (rotationBegin owner) := by
  cases owner with
  | provider => exact (calm_writeState .awaitingNext).bind fun _ => calm_pure _
  | casa =>
    refine (calm_read .next).bind fun found => ?_
    have written : Calm (do writeState .staged; pure Phase.staged) :=
      (calm_writeState .staged).bind fun _ => calm_pure _
    cases found with
    | some v => exact written
    | none => exact (calm_publish .next none).bind fun _ => written

theorem calm_rename : Calm (call .rename) := calm_call fun _ => trivial

theorem calm_rotationPromote : Calm rotationPromote := by
  have found : Calm readState := calm_call fun _ => trivial
  exact found.bind fun _ => (calm_writeState .promote).bind fun _ => calm_rename.bind fun _ =>
    calm_fsync.bind fun _ => calm_clearState

theorem calm_rotationRecover : Calm rotationRecover := by
  have found : Calm readState := calm_call fun _ => trivial
  have cleared : Calm (do clearState; pure (none : Option Phase)) :=
    calm_clearState.bind fun _ => calm_pure _
  refine found.bind fun phase => ?_
  cases phase with
  | none => exact calm_pure _
  | some phase =>
    cases phase with
    | awaitingNext => exact calm_pure _
    | staged =>
      refine (calm_read .next).bind fun next => ?_
      cases next with
      | some v => exact calm_pure _
      | none => exact cleared
    | promote =>
      have there : Calm (exists_ .next) := calm_call fun _ => trivial
      refine there.bind fun there => ?_
      cases there with
      | false => exact cleared
      | true => exact calm_rename.bind fun _ => calm_fsync.bind fun _ => cleared

theorem holds_read (slot : Slot) : Holds P (read slot) (fun a s => P s ∧ a = s.get slot) := by
  refine holds_call fun s held => ⟨trivial, fun fails a answer => ?_⟩
  have same : performCareful (.read slot) fails s = (.ok (s.get slot), s) := rfl
  rw [same] at answer ⊢
  cases answer
  exact ⟨held, rfl⟩

theorem holds_readIdent : Holds P readIdent (fun a s => P s ∧ a = s.ident) := by
  refine holds_call fun s held => ⟨trivial, fun fails a answer => ?_⟩
  have same : performCareful .readIdent fails s = (.ok s.ident, s) := rfl
  rw [same] at answer ⊢
  cases answer
  exact ⟨held, rfl⟩

theorem holds_fsync : Holds P fsync (fun _ => P) :=
  holds_call fun _ held => ⟨trivial, fun _ _ _ => held⟩

theorem ours_publish {s : Store} {identity : Identity} (absent : s.live = none) :
    Ours identity (s.publish .live (some identity)) := by
  have published : s.publish .live (some identity) =
      { s with
        live := some s.minted
        minted := s.minted + 1
        boundAt := Function.update s.boundAt s.minted s.ident
        mintedBy := Function.update s.mintedBy s.minted (some identity) } := by
    simp [Store.publish, Store.get, absent, Store.put]
  rw [published]
  intro v there
  cases there
  simp [Store.foreign]

theorem holds_ensureSecret (identity : Identity) :
    Holds (fun s => s.live = none) (ensureSecret (some identity)) (fun _ => Ours identity) := by
  refine Triple.bind (holds_read .live) fun found => ?_
  cases found with
  | some v =>
    refine triple_pure fun s _ known => ?_
    have live : some v = s.live := known.2
    rw [known.1] at live
    cases live
  | none =>
    refine Triple.bind (Q := fun _ => Ours identity) ?_ fun _ =>
      (holds_read .live).post (fun _ _ _ held => held.1) fun _ _ _ _ => trivial
    refine Triple.bind (Q := fun _ => Ours identity) ?_ fun _ => holds_fsync
    refine holds_call fun s known => ⟨trivial, fun fails a answer => ?_⟩
    cases fails with
    | true => cases answer
    | false => exact ours_publish known.1

theorem holds_writeIdent (identity : Identity) :
    Holds (Ours identity) (writeIdent identity)
      (fun bound s => bound = true → s.ident = some identity) := by
  refine Triple.rescue (E := fun _ _ => True) ?_ fun _ => triple_pure fun _ _ _ => nofun
  refine Triple.bind (Q := fun _ s => s.ident = some identity) ?_ fun _ =>
    Triple.bind holds_fsync fun _ => triple_pure fun _ _ bound _ => bound
  refine holds_call fun s ours => ⟨ours, fun fails a answer => ?_⟩
  cases failed : fails || careless (.bind identity) fails s with
  | true =>
    have same : performCareful (.bind identity) fails s = (.error ⟨⟩, s) := by
      simp [performCareful, perform, failed]
    rw [same] at answer
    cases answer
  | false =>
    have same : performCareful (.bind identity) fails s =
        (.ok ⟨⟩, { s with ident := some identity }) := by
      simp [performCareful, perform, failed]
    rw [same]

theorem holds_activated (identity : Identity) (v : ℕ) :
    Holds (fun s => s.ident = some identity)
      (do
        call (.activated identity)
        pure (some v))
      (fun _ _ => True) :=
  Triple.bind (Q := fun _ _ => True) (holds_call fun _ bound => ⟨bound, fun _ _ _ => trivial⟩)
    fun _ => calm_pure _

theorem holds_rekey (identity : Identity) :
    Holds (fun s => s.live = none) (rekey identity) (fun _ _ => True) := by
  refine Triple.bind (holds_ensureSecret identity) fun got => ?_
  cases got with
  | none => exact triple_pure fun _ _ _ => trivial
  | some v =>
    refine Triple.bind (holds_writeIdent identity) fun bound => ?_
    cases bound with
    | true => exact Triple.pre (holds_activated identity v) fun s _ known => known rfl
    | false => exact Triple.pre (calm_retireSecret.bind fun _ => calm_pure _) fun _ _ _ => trivial

theorem calm_ensureSecretForIdentity (identity : Identity) :
    Calm (ensureSecretForIdentity identity) := by
  have entered : Calm (call .enter) := calm_call fun _ => trivial
  refine entered.bind fun _ => ?_
  refine Triple.bind (holds_read .live) fun found => ?_
  cases found with
  | none => exact Triple.pre (holds_rekey identity) fun s _ known => known.2.symm
  | some v =>
    refine Triple.bind holds_readIdent fun bound => ?_
    by_cases ours : bound = some identity
    · simp only [ours, if_true]
      exact Triple.pre (holds_activated identity v) fun s _ known => known.2.symm
    · simp only [ours, if_false]
      refine Triple.bind (Q := fun _ _ => True)
        (Triple.pre calm_retireSecret fun _ _ _ => trivial) fun _ => ?_
      refine Triple.bind (holds_read .live) fun left => ?_
      cases left with
      | some w => exact triple_pure fun _ _ _ => trivial
      | none => exact Triple.pre (holds_rekey identity) fun s _ known => known.2.symm

theorem calm_task (task : Task) : Calm task.script := by
  cases task with
  | activate identity => exact (calm_ensureSecretForIdentity identity).bind fun _ => calm_pure _
  | bound identity => exact (calm_secretBoundToIdentity identity).bind fun _ => calm_pure _
  | retire => exact calm_retireSecret
  | ensure => exact (calm_ensureSecret none).bind fun _ => calm_pure _
  | begin_ owner => exact (calm_rotationBegin owner).bind fun _ => calm_pure _
  | promote => exact calm_rotationPromote
  | recover => exact calm_rotationRecover.bind fun _ => calm_pure _

end Scripts

section Process

abbrev discipline : Discipline performCareful :=
  sequential Fresh licence fun h may => fresh_perform h may

theorem lawful_process :
    Lawful carefulProcess discipline (fun _ => True) (fun _ _ => True) where
  stable := stable_sequential _
  env := fun e => e.elim
  program := fun task => by
    refine Spec.bind (Q := fun _ _ => True) (Spec.post (Spec.pre (calm_task task)
      fun _ _ _ => trivial) fun _ _ _ _ => trivial) fun _ => ?_
    exact spec_pure (stable_sequential _) fun _ _ _ => trivial
  crash := fun s inv => ⟨inv, trivial⟩

def initial : Config fileSig Store Task := ⟨Store.empty, none⟩

/-- Once an activation has returned a secret, those minted before it under another binding are
neither live nor staged again: in every run of the calls, with any operation failing and a crash
anywhere, in which no activation writes its binding beside a `.next` of another identity. -/
theorem dead_stay_dead {ls : List (Label PEmpty Task Bool)} {c : Config fileSig Store Task}
    (run : Runs process.step (fun l c => careful l c = true) initial ls c) {v : ℕ}
    (dead : c.state.dead v = true) : c.state.live ≠ some v ∧ c.state.next ≠ some v := by
  have start : Guarded (m := carefulProcess) discipline (fun _ => True) initial :=
    ⟨fresh_empty, fun _ => trivial, nofun⟩
  have kept := guarded_of_runs lawful_process (run.congr fun _ _ ok => step_careful ok)
    (fun _ _ _ _ => trivial) start
  have fresh : Fresh c.state := kept.inv
  refine ⟨fun live => ?_, fun next => ?_⟩
  · have alive := (fresh.held .live v live).2
    rw [dead] at alive
    cases alive
  · have alive := (fresh.held .next v next).2
    rw [dead] at alive
    cases alive

def whole (task : Task) : List (Label PEmpty Task Bool) :=
  .start task :: List.replicate 20 (.advance false) ++ [.finish]

def retiredWhole : List (Label PEmpty Task Bool) :=
  whole (.activate "a") ++ whole (.begin_ .casa) ++ whole .retire ++ whole (.activate "b")

theorem retired_stay_dead :
    ∃ c, Runs process.step (fun l c => careful l c = true) initial retiredWhole c ∧
      c.state.ident = some "b" ∧ c.state.live = some 2 ∧
      c.state.dead 1 = true ∧ c.state.live ≠ some 1 ∧ c.state.next ≠ some 1 := by
  have legal : Legal process.step (fun l c => careful l c = true) initial retiredWhole := by
    decide +kernel
  have dead : (retiredWhole.foldl (fun c l => process.step l c) initial).state.dead 1 = true := by
    decide +kernel
  refine ⟨_, legal.runs, ?_, ?_, dead, dead_stay_dead legal.runs dead⟩
  · decide +kernel
  · decide +kernel

def retiredHalf : List (Label PEmpty Task Bool) :=
  whole (.activate "a") ++ whole (.begin_ .casa) ++ [.start .retire, .advance false, .crash] ++
    whole (.activate "b")

/-- The staged secret of the old identity outlives the activation of the new one, and the next
promotion makes it the live secret. -/
theorem staged_revives :
    ∃ c d, Runs process.step (fun _ _ => True) initial retiredHalf c ∧
      Runs process.step (fun _ _ => True) c (whole .promote) d ∧
      c.running = none ∧ c.state.ident = some "b" ∧ c.state.boundAt 1 = some "a" ∧
      c.state.dead 1 = true ∧ c.state.next = some 1 ∧ c.state.state = some .staged ∧
      d.state.ident = some "b" ∧ d.state.live = some 1 := by
  refine ⟨_, _, Runs.foldl (fun _ _ _ => trivial) _, Runs.foldl (fun _ _ _ => trivial) _,
    Option.isNone_iff_eq_none.mp ?_, ?_, ?_, ?_, ?_, ?_, ?_, ?_⟩
  · decide +kernel
  · decide +kernel
  · decide +kernel
  · decide +kernel
  · decide +kernel
  · decide +kernel
  · decide +kernel
  · decide +kernel

end Process

end Casa.WebhookActivation
