import Casa.SecretRotation

/-! The rotation of a secret, whatever its files and wherever a call dies. A promotion persists its
phase before it knows that there is a `.next`, and renames one that was never checked: where a
promotion finds a valid `.next`, and so does the recovery of one, the live secret stays valid and a
call that raises changes nothing. -/

namespace Casa.RotationSafety
open StepRuns OperationTree FallibleTree SecretRotation

section Condition
variable (owner : Owner)

/-- A promotion is begun, or carried out, without a valid `.next`. -/
def careless : FileOp → Store → Bool
  | .setState .promote _, s => (readFinal owner s.next).isNone
  | .rename, s => (readFinal owner s.next).isNone && s.next.isSome
  | _, _ => false

def careful : Label PEmpty Task Token → Config fileSig Store Task → Bool
  | .advance _, c => c.next.all fun asked => !careless owner asked.2 c.state
  | _, _ => true

def performCareful : Device fileSig Token Store
  | .setState phase o, token, s =>
    if careless owner (.setState phase o) s then (.error .fileNotFound, s)
    else perform (.setState phase o) token s
  | .rename, token, s =>
    if careless owner .rename s then (.error .fileNotFound, s) else perform .rename token s
  | op, token, s => perform op token s

def carefulProcess : Host fileSig Token Store PEmpty Task :=
  { process owner with run := performCareful owner }

variable {owner}

theorem performCareful_eq {op : FileOp} {token : Token} {s : Store}
    (spared : careless owner op s = false) :
    performCareful owner op token s = perform op token s := by
  cases op with
  | setState phase o => simp only [performCareful, spared, Bool.false_eq_true, if_false]
  | rename => simp only [performCareful, spared, Bool.false_eq_true, if_false]
  | _ => rfl

theorem step_careful {l : Label PEmpty Task Token} {c : Config fileSig Store Task}
    (ok : careful owner l c = true) : (process owner).step l c = (carefulProcess owner).step l c := by
  refine (process owner).step_congr fun token task op now next => performCareful_eq ?_
  subst now
  simpa [careful, next] using ok

end Condition

section Rotation
variable (owner : Owner)

/-- The live secret is valid, and a staged rotation was staged for this owner. -/
structure Sound (s : Store) : Prop where
  live : (readFinal owner s.live).isSome = true
  staged : ∀ o, s.state = some (.record .staged o) → o = none ∨ o = some owner

/-- Where an operation may be asked for: the rename in a promotion, the end of a call that raised
where nothing has changed, and the end of a recovery that found a staged rotation where `.next` is
valid. -/
def licence : FileOp → Store → Prop
  | .setState phase o, _ => phase = .staged → o = owner
  | .rename, s => s.phase = some .promote
  | .ended _ (.error _), s => s.kept = s.before
  | .ended task (.ok phase), s =>
    task = .recover → phase = some .staged → (readFinal owner s.next).isSome = true
  | _, _ => True

variable {owner}

theorem publish_frame (s : Store) (value : Bytes) :
    (s.publish value).live = s.live ∧ (s.publish value).state = s.state := by
  unfold Store.publish
  split <;> exact ⟨rfl, rfl⟩

theorem Sound.congr {s t : Store} (h : Sound owner s) (live : t.live = s.live)
    (state : t.state = s.state) : Sound owner t :=
  ⟨by rw [live]; exact h.live, by rw [state]; exact h.staged⟩

theorem sound_perform {op : FileOp} {token : Token} {s : Store} (h : Sound owner s)
    (may : licence owner op s) : Sound owner (performCareful owner op token s).2 := by
  cases op with
  | setState phase o =>
    simp only [performCareful]
    split
    · exact h
    · refine ⟨h.live, ?_⟩
      rintro o' ⟨⟩
      exact .inr (congrArg some (may rfl))
  | rename =>
    simp only [performCareful]
    split
    · exact h
    · rename_i spared
      cases next : s.next with
      | none =>
        have same : (perform .rename token s).2 = s := by simp only [perform, next]
        rw [same]
        exact h
      | some value =>
        have renamed : (perform .rename token s).2 =
            { s with live := some value, next := none } := by
          simp only [perform, next]
        rw [renamed]
        refine ⟨?_, h.staged⟩
        simp only [careless, next, Option.isSome_some, Bool.and_true, Bool.not_eq_true,
          Option.isNone_eq_false_iff] at spared
        exact spared
  | unlinkState => exact ⟨h.live, nofun⟩
  | mintNext => exact h.congr (publish_frame s _).1 (publish_frame s _).2
  | publishNext value => exact h.congr (publish_frame s _).1 (publish_frame s _).2
  | enter => exact h.congr rfl rfl
  | readNext => exact h
  | readState => exact h
  | existsNext => exact h
  | fsync => exact h
  | ended task result => exact h

abbrev Holds {α : Type} (owner : Owner) (P : Store → Prop) (p : FileScript α)
    (Q : α → Store → Prop) (E : Failure → Store → Prop) : Prop :=
  Triple (performCareful owner) (Sound owner) (licence owner)
    (fun h may => sound_perform h may) P p Q E

def Same (s : Store) : Prop := s.kept = s.before

/-- What the caller is told: only where nothing has changed does a call raise. -/
abbrev Raises : Failure → Store → Prop := fun _ => Same

section Scripts
variable {P : Store → Prop} {α : Type}

theorem holds_quiet {op : FileOp} {Q : op.Answer → Store → Prop}
    (h : ∀ s, Sound owner s → P s → licence owner op s ∧
      ∀ token, ∃ a, (performCareful owner op token s).1 = .ok a ∧
        Q a (performCareful owner op token s).2) :
    Holds owner P (call op) Q Raises := by
  refine triple_ask fun s inv held => ⟨(h s inv held).1, fun token => ?_⟩
  obtain ⟨a, answer, post⟩ := (h s inv held).2 token
  rw [answer]
  exact post

theorem holds_fsync : Holds owner P (call .fsync) (fun _ => P) Raises :=
  holds_quiet fun _ _ held => ⟨trivial, fun _ => ⟨⟨⟩, rfl, held⟩⟩

theorem holds_readNext :
    Holds owner P (call .readNext) (fun a s => P s ∧ a = s.next) Raises :=
  holds_quiet fun s _ held => ⟨trivial, fun _ => ⟨s.next, rfl, held, rfl⟩⟩

theorem holds_mintNext : Holds owner P (call .mintNext) (fun _ _ => True) Raises :=
  holds_quiet fun _ _ _ => ⟨trivial, fun _ => ⟨⟨⟩, rfl, trivial⟩⟩

theorem holds_publishNext (value : Bytes) :
    Holds owner P (call (.publishNext value)) (fun _ _ => True) Raises :=
  holds_quiet fun _ _ _ => ⟨trivial, fun _ => ⟨⟨⟩, rfl, trivial⟩⟩

theorem holds_clearState : Holds owner P clearState (fun _ _ => True) Raises := by
  have cleared : Holds owner P (call .unlinkState) (fun _ _ => True) Raises :=
    holds_quiet fun _ _ _ => ⟨trivial, fun _ => ⟨⟨⟩, rfl, trivial⟩⟩
  exact cleared.bind fun _ => holds_fsync

theorem holds_writeState {phase : Phase} {o : Owner} (other : phase ≠ .promote)
    (own : phase = .staged → o = owner) :
    Holds owner P (writeState phase o) (fun _ _ => True) Raises := by
  have written : Holds owner P (call (.setState phase o)) (fun _ _ => True) Raises := by
    refine holds_quiet fun s _ _ => ⟨own, fun token => ?_⟩
    have spared : careless owner (.setState phase o) s = false := by
      cases phase with
      | promote => exact absurd rfl other
      | _ => rfl
    rw [performCareful_eq spared]
    exact ⟨⟨⟩, rfl, trivial⟩
  exact written.bind fun _ => holds_fsync

theorem holds_staged :
    Holds owner P (do writeState .staged owner; pure (some Phase.staged)) (fun _ _ => True)
      Raises := by
  have written : Holds owner P (writeState .staged owner) (fun _ _ => True) Raises :=
    holds_writeState (by nofun) fun _ => rfl
  exact written.bind fun _ => triple_pure fun _ _ _ => trivial

theorem holds_rotationBegin : Holds owner P (rotationBegin owner) (fun _ _ => True) Raises := by
  cases owner with
  | provider =>
    have written : Holds .provider P (writeState .awaitingNext .provider) (fun _ _ => True)
        Raises := holds_writeState (by nofun) (by nofun)
    exact written.bind fun _ => triple_pure fun _ _ _ => trivial
  | casa =>
    refine holds_readNext.bind fun file => ?_
    cases readFinal .casa file with
    | some value => exact holds_staged
    | none => exact holds_mintNext.bind fun _ => holds_fsync.bind fun _ => holds_staged

theorem holds_rotationImportNext (value : Bytes) :
    Holds owner Same (rotationImportNext value owner) (fun _ _ => True) Raises := by
  unfold rotationImportNext
  split
  · refine holds_readNext.bind fun file => ?_
    cases readFinal owner file with
    | some existing =>
      change Holds owner _ (if existing = value then _ else Script.raise .secretConflict) _ _
      split
      · exact holds_staged
      · exact triple_raise fun _ _ held => held.1
    | none => exact (holds_publishNext value).bind fun _ => holds_fsync.bind fun _ => holds_staged
  · exact triple_raise fun _ _ held => held

/-- The record that is read is what is on disk; a malformed one is idle, before and after. -/
theorem holds_readState :
    Holds owner Same readState
      (fun st s => Same s ∧ ∀ phase o, st = some (phase, o) → s.state = some (.record phase o))
      Raises := by
  refine Triple.bind (Q := fun a s => Same s ∧ a = s.state)
    (holds_quiet fun s _ held => ⟨trivial, fun _ => ⟨s.state, rfl, held, rfl⟩⟩) fun file => ?_
  cases file with
  | none => exact triple_pure fun s _ held => ⟨held.1, nofun⟩
  | some file =>
    cases file with
    | record phase o =>
      refine triple_pure fun s _ held => ⟨held.1, ?_⟩
      rintro phase' o' ⟨⟩
      exact held.2.symm
    | malformed =>
      refine Triple.bind (Q := fun _ => Same) (holds_quiet fun s _ held => ?_) fun _ =>
        triple_pure fun s _ held => ⟨held, nofun⟩
      refine ⟨trivial, fun _ => ⟨⟨⟩, rfl, ?_⟩⟩
      obtain ⟨same, malformed⟩ := held
      have idle : s.phase = none := by simp only [Store.phase, ← malformed]
      have kept : s.kept = (s.live, s.next, none) := by rw [Store.kept, idle]
      exact kept.symm.trans same

theorem holds_rename :
    Holds owner (fun s => s.phase = some .promote ∧ s.next.isSome = true ∧
        ((readFinal owner s.next).isNone = true → Same s)) (call .rename)
      (fun _ _ => True) Raises := by
  refine triple_ask fun s _ held => ⟨held.1, fun token => ?_⟩
  obtain ⟨value, next⟩ := Option.isSome_iff_exists.mp held.2.1
  cases spared : careless owner .rename s with
  | true =>
    have failed : performCareful owner .rename token s = (.error .fileNotFound, s) := by
      simp only [performCareful, spared, if_true]
    rw [failed]
    simp only [careless, Bool.and_eq_true] at spared
    exact held.2.2 spared.1
  | false =>
    rw [performCareful_eq spared]
    have renamed : perform .rename token s =
        (.ok ⟨⟩, { s with live := some value, next := none }) := by
      simp only [perform, next]
    rw [renamed]
    trivial

theorem holds_promotion :
    Holds owner (fun s => s.phase = some .promote ∧ s.next.isSome = true ∧
        ((readFinal owner s.next).isNone = true → Same s))
      (do
        call .rename
        call .fsync
        clearState
        pure (none : Option Phase))
      (fun phase _ => phase = none) Raises :=
  holds_rename.bind fun _ => holds_fsync.bind fun _ => holds_clearState.bind fun _ =>
    triple_pure fun _ _ _ => rfl

theorem holds_rotationPromote :
    Holds owner Same rotationPromote (fun _ _ => True) Raises := by
  refine holds_readState.bind fun st => ?_
  refine Triple.bind (Q := fun _ s => s.phase = some .promote ∧
    (readFinal owner s.next).isSome = true) ?_ fun _ => ?_
  · refine Triple.bind ?_ fun _ => holds_fsync
    refine triple_ask fun s _ held => ⟨nofun, fun token => ?_⟩
    cases spared : careless owner (.setState .promote ((st.bind Prod.snd).getD .casa)) s with
    | true =>
      have failed : performCareful owner (.setState .promote ((st.bind Prod.snd).getD .casa))
          token s = (.error .fileNotFound, s) := by
        simp only [performCareful, spared, if_true]
      rw [failed]
      exact held.1
    | false =>
      rw [performCareful_eq spared]
      simp only [careless, Option.isNone_eq_false_iff] at spared
      exact ⟨rfl, spared⟩
  · refine Triple.post (Triple.pre holds_promotion fun s _ held => ⟨held.1, ?_, fun invalid => ?_⟩)
      (fun _ _ _ _ => trivial) fun _ _ _ held => held
    · cases next : s.next with
      | none =>
        have valid := held.2
        rw [next] at valid
        cases valid
      | some value => rfl
    · rw [Option.isNone_iff_eq_none] at invalid
      have valid := held.2
      rw [invalid] at valid
      cases valid

theorem holds_rotationRecover :
    Holds owner Same (rotationRecover owner)
      (fun phase s => phase = some Phase.staged → (readFinal owner s.next).isSome = true) Raises := by
  refine holds_readState.bind fun st => ?_
  cases st with
  | none => exact triple_pure fun _ _ _ => nofun
  | some st =>
    obtain ⟨phase, o⟩ := st
    cases phase with
    | awaitingNext => exact triple_pure fun _ _ _ => nofun
    | staged =>
      refine holds_readNext.bind fun file => ?_
      cases found : readFinal (o.getD owner) file with
      | none => exact holds_clearState.bind fun _ => triple_pure fun _ _ _ => nofun
      | some value =>
        refine triple_pure fun s inv held _ => ?_
        obtain ⟨⟨-, state⟩, rfl⟩ := held
        have own : o.getD owner = owner := by
          rcases inv.staged o (state .staged o rfl) with rfl | rfl <;> rfl
        rw [own] at found
        rw [found]
        rfl
    | promote =>
      refine Triple.bind (Q := fun there s => (Same s ∧ s.phase = some .promote) ∧
        there = s.next.isSome) (holds_quiet fun s _ held => ?_) fun there => ?_
      · have phase : s.phase = some .promote := by
          simp only [Store.phase, held.2 .promote o rfl]
        exact ⟨trivial, fun _ => ⟨s.next.isSome, rfl, ⟨held.1, phase⟩, rfl⟩⟩
      cases there with
      | false => exact holds_clearState.bind fun _ => triple_pure fun _ _ _ => nofun
      | true =>
        refine Triple.post (Triple.pre holds_promotion fun s _ held =>
          ⟨held.1.2, held.2.symm, fun _ => held.1.1⟩) (fun phase s _ idle => ?_)
          fun _ _ _ held => held
        rw [idle]
        nofun

theorem holds_script (task : Task) :
    Holds owner Same (task.script owner)
      (fun phase s => task = .recover → phase = some Phase.staged →
        (readFinal owner s.next).isSome = true) Raises := by
  cases task with
  | begin_ =>
    exact holds_rotationBegin.post (fun _ _ _ _ => nofun) fun _ _ _ held => held
  | importNext value =>
    exact (holds_rotationImportNext value).post (fun _ _ _ _ => nofun) fun _ _ _ held => held
  | promote =>
    exact holds_rotationPromote.post (fun _ _ _ _ => nofun) fun _ _ _ held => held
  | recover =>
    exact holds_rotationRecover.post (fun _ _ _ held _ => held) fun _ _ _ held => held

theorem holds_body (task : Task) :
    Holds owner (fun _ => True) (task.body owner)
      (fun phase s => task = .recover → phase = some Phase.staged →
        (readFinal owner s.next).isSome = true) Raises := by
  refine Triple.bind (Q := fun _ => Same) ?_ fun _ => holds_script task
  exact holds_quiet fun s _ _ => ⟨trivial, fun _ => ⟨⟨⟩, rfl, rfl⟩⟩

end Scripts

section Process

abbrev discipline (owner : Owner) : Discipline (performCareful owner) :=
  sequential (Sound owner) (licence owner) fun h may => sound_perform h may

theorem lawful_process :
    Lawful (carefulProcess owner) (discipline owner) (fun _ => True) (fun _ _ => True) where
  stable := stable_sequential _
  env := fun e => e.elim
  program := fun task => by
    have ended : Spec (discipline owner) (fun _ => True) (task.program owner)
        (fun _ _ => True) := by
      refine Spec.bind (holds_body task) fun result => ?_
      rintro s inv held t rfl
      refine ⟨?_, fun _ u _ => trivial⟩
      cases result with
      | error e => exact held
      | ok phase => exact held
    exact ended.pre fun _ _ _ => trivial
  crash := fun s inv => ⟨inv, trivial⟩

section Renames
variable {α β : Type} {φ : fileSig.Op → Prop}

theorem within_bind {p : FileScript α} {k : α → FileScript β} (h : Prog.Within φ p)
    (next : ∀ a, Prog.Within φ (k a)) : Prog.Within φ (p >>= k : FileScript β) := by
  refine Prog.Within.bind h fun r => ?_
  cases r with
  | ok a => exact next a
  | error e => trivial

theorem within_call {op : FileOp} (h : φ op) : Prog.Within φ (call op) :=
  Prog.within_ask (S := fileSig) h

theorem within_ite {c : Prop} [Decidable c] {p q : FileScript α} (h : Prog.Within φ p)
    (h' : Prog.Within φ q) : Prog.Within φ (if c then p else q) := by
  by_cases yes : c
  · exact (if_pos yes).symm ▸ h
  · exact (if_neg yes).symm ▸ h'

theorem within_writeState (phase : Phase) (o : Owner) (h : φ (.setState phase o))
    (synced : φ .fsync) : Prog.Within φ (writeState phase o) :=
  within_bind (within_call h) fun _ => within_call synced

end Renames

theorem within_program (task : Task) :
    (task.program owner).Within fun op : FileOp =>
      op = FileOp.rename → task = .promote ∨ task = .recover := by
  have staged (o : Owner) : Prog.Within (fun op : FileOp => op = FileOp.rename →
      task = .promote ∨ task = .recover)
      (do writeState .staged o; pure (some Phase.staged) : FileScript (Option Phase)) :=
    within_bind (within_writeState _ _ nofun nofun) fun _ => trivial
  refine Prog.Within.bind (within_bind (within_call nofun) fun _ => ?_) fun r =>
    ⟨nofun, fun _ => trivial⟩
  cases task with
  | promote => exact Prog.within_of_forall (fun _ _ => .inl rfl) _
  | recover => exact Prog.within_of_forall (fun _ _ => .inr rfl) _
  | begin_ =>
    cases owner with
    | provider => exact within_bind (within_writeState _ _ nofun nofun) fun _ => trivial
    | casa =>
      refine within_bind (within_call nofun) fun file => ?_
      cases readFinal .casa file with
      | some value => exact staged .casa
      | none =>
        exact within_bind (within_call nofun) fun _ => within_bind (within_call nofun) fun _ =>
          staged .casa
  | importNext value =>
    change Prog.Within _ (rotationImportNext value owner)
    unfold rotationImportNext
    split
    · refine within_bind (within_call nofun) fun file => ?_
      cases readFinal owner file with
      | some existing =>
        exact within_ite (staged owner) trivial
      | none =>
        exact within_bind (within_call nofun) fun _ => within_bind (within_call nofun) fun _ =>
          staged owner
    · trivial

def Begins (owner : Owner) (s : Store) : Prop := Sound owner s

theorem rename_of_live {l : Label PEmpty Task Token} {c : Config fileSig Store Task}
    (changed : ((process owner).step l c).state.live ≠ c.state.live) :
    ∃ task, c.next = some (task, FileOp.rename) ∧
      ((process owner).step l c).state.live = c.state.next := by
  obtain ⟨s, running⟩ := c
  cases l with
  | env e => exact e.elim
  | crash => exact absurd rfl changed
  | start task => cases running <;> exact absurd rfl changed
  | finish =>
    cases running with
    | none => exact absurd rfl changed
    | some held =>
      obtain ⟨task, p⟩ := held
      cases p <;> exact absurd rfl changed
  | advance token =>
    cases running with
    | none => exact absurd rfl changed
    | some held =>
      obtain ⟨task, p⟩ := held
      cases p with
      | done a => exact absurd rfl changed
      | call op next =>
        change (perform op token s).2.live ≠ s.live at changed
        change ∃ task', some (task, op) = some (task', FileOp.rename) ∧
          (perform op token s).2.live = s.next
        cases op with
        | rename =>
          refine ⟨task, rfl, ?_⟩
          cases staged : s.next with
          | none =>
            have same : (perform .rename token s).2 = s := by simp only [perform, staged]
            rw [same] at changed
            exact absurd rfl changed
          | some value => simp only [perform, staged]
        | mintNext => exact absurd (publish_frame s _).1 changed
        | publishNext value => exact absurd (publish_frame s _).1 changed
        | _ => exact absurd rfl changed

/-- A rotation is atomic: in every run of the four calls, with a crash anywhere, in which a
promotion and the recovery of one find a valid `.next`, the live secret is valid; it changes only
in a promotion or in the recovery of one, to what `.next` held; a recovery says that a rotation is
staged only where `.next` is valid; and where a call raises, the secrets and the phase are what
they were when it began. -/
theorem rotation_atomic {s : Store} (begins : Begins owner s)
    {ls : List (Label PEmpty Task Token)} {c : Config fileSig Store Task}
    (run : Runs (process owner).step (fun l c => careful owner l c = true) ⟨s, none⟩ ls c) :
    (readFinal owner c.state.live).isSome = true ∧
      (∀ l, ((process owner).step l c).state.live ≠ c.state.live →
        ∃ task, c.next = some (task, FileOp.rename) ∧ (task = .promote ∨ task = .recover) ∧
          c.state.phase = some .promote ∧
          ((process owner).step l c).state.live = c.state.next) ∧
      (c.next = some (.recover, FileOp.ended .recover (.ok (some .staged))) →
        (readFinal owner c.state.next).isSome = true) ∧
      (∀ task e, c.next = some (task, FileOp.ended task (.error e)) →
        c.state.kept = c.state.before) := by
  have start : Guarded (m := carefulProcess owner) (discipline owner) (fun _ => True)
      ⟨s, none⟩ := ⟨begins, fun _ => trivial, nofun⟩
  have guarded := guarded_of_runs lawful_process (run.congr fun _ _ ok => step_careful ok)
    (fun _ _ _ _ => trivial) start
  have inv : Sound owner c.state := guarded.inv
  refine ⟨inv.live, fun l changed => ?_, fun asked => guarded.licensed asked rfl rfl,
    fun task e asked => guarded.licensed asked⟩
  obtain ⟨task, asked, moved⟩ := rename_of_live changed
  refine ⟨task, asked, ?_, guarded.licensed asked, moved⟩
  exact next_of_within (m := process owner) within_program run rfl asked rfl

def token : Token := ⟨List.replicate 43 65, by decide⟩

def liveSecret : Bytes := List.replicate 43 66

def idleStore : Store := ⟨some liveSecret, none, none, (none, none, none)⟩

def whole (task : Task) : List (Label PEmpty Task Token) :=
  .start task :: List.replicate 12 (.advance token) ++ [.finish]

def recovered : List (Label PEmpty Task Token) :=
  whole .begin_ ++ [.start .promote, .advance token, .advance token, .advance token, .crash] ++
    whole .recover

theorem recovered_atomic :
    ∃ c, Runs (process .casa).step (fun l c => careful .casa l c = true) ⟨idleStore, none⟩
        recovered c ∧
      c.state.live = some token.raw ∧ c.state.phase = none ∧
      (readFinal .casa c.state.live).isSome = true := by
  have legal : Legal (process .casa).step (fun l c => careful .casa l c = true)
      ⟨idleStore, none⟩ recovered := by
    decide +kernel
  refine ⟨_, legal.runs, ?_, ?_, (rotation_atomic ⟨?_, ?_⟩ legal.runs).1⟩
  · decide +kernel
  · decide +kernel
  · decide +kernel
  · intro o staged
    cases staged

/-- A promotion without `.next`, in the middle of a rotation that waits for its provider: it
raises, and the phase is not what it was. -/
def promotedEarly : List (Label PEmpty Task Token) :=
  whole .begin_ ++ .start .promote :: List.replicate 5 (.advance token)

theorem raise_changes_phase :
    ∃ c, Runs (process .provider).step (fun _ _ => True) ⟨idleStore, none⟩ promotedEarly c ∧
      c.next.map Prod.fst = some .promote ∧
      (∃ e, c.next.map Prod.snd = some (FileOp.ended .promote (.error e))) ∧
      c.state.before = (some liveSecret, none, some .awaitingNext) ∧
      c.state.kept = (some liveSecret, none, some .promote) := by
  refine ⟨_, Runs.foldl (fun _ _ _ => trivial) _, ?_, ⟨.fileNotFound, ?_⟩, ?_, ?_⟩
  · decide +kernel
  · rfl
  · decide +kernel
  · decide +kernel

end Process

end Rotation

end Casa.RotationSafety
