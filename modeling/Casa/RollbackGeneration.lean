import Casa.InstanceDir

/-! The rollback generation of an instance directory. Between tasks `active.prior.yaml` holds
what the last change of `active.yaml` replaced, and a copy that is left over is a copy of the
active tuple; while the rename is due, the copy is what has been replaced. A fault that strikes
where the rename is due leaves neither, and the reconcile of the next boot does not look. -/

namespace Casa.RollbackGeneration
open OperationTree FallibleTree StepRuns InstanceDir

variable {image : Image}

/-- A copy left over is a copy of the active tuple, and the prior tuple is the one replaced
last. -/
structure Rested (s : Dir) : Prop where
  copy : ∀ t, s.pending = some (.tuple t) → s.active = some (.tuple t)
  prior : ∀ b, s.before = some b → s.prior = some (.tuple b)
  moved : ∀ b, s.before = some b → s.active ≠ some (.tuple b)
  there : s.before.isSome = true → s.active.isSome = true

def Rotating (s : Dir) : Prop :=
  ∃ b c, s.before = some b ∧ s.pending = some (.tuple b) ∧ s.active = some (.tuple c) ∧ c ≠ b

def Consistent (s : Dir) : Prop :=
  s.torn = true ∨ s.due = false ∧ Rested s ∨ s.due = true ∧ Rotating s

def Resting (s : Dir) : Prop := s.torn = true ∨ s.due = false

def Copied (t : InstanceTuple) (s : Dir) : Prop :=
  ∀ x, s.active = some x → ∃ b, x = .tuple b ∧ s.pending = some (.tuple b) ∧ t ≠ b

/-- Where an operation may be asked for: the rename when it is due, nothing else then, and the
new active tuple over a copied old one. -/
def licence : FileOp → Dir → Prop
  | .rotate, s => s.torn = true ∨ s.due = true
  | .installActive t, s => s.torn = true ∨ s.due = false ∧ Copied t s
  | _, s => Resting s

theorem tear_torn {s : Dir} (torn : s.torn = true) : s.tear.torn = true := by
  simp [Dir.tear, torn]

theorem Rested.congr {s t : Dir} (h : Rested s) (active : t.active = s.active)
    (pending : ∀ x, t.pending = some (.tuple x) → s.active = some (.tuple x))
    (prior : t.prior = s.prior) (before : t.before = s.before) : Rested t := by
  constructor
  · intro x held
    rw [active]
    exact pending x held
  · rw [prior, before]
    exact h.prior
  · rw [active, before]
    exact h.moved
  · rw [active, before]
    exact h.there

theorem consistent_rest {s : Dir} (h : Consistent s) (resting : Resting s) :
    s.torn = true ∨ s.due = false ∧ Rested s := by
  rcases h with torn | rest | ⟨due, -⟩
  · exact .inl torn
  · exact .inr rest
  · rcases resting with torn | free
    · exact .inl torn
    · rw [due] at free
      cases free

theorem consistent_aside {s t : Dir} (h : Consistent s) (resting : Resting s)
    (torn : t.torn = s.torn) (due : t.due = s.due) (active : t.active = s.active)
    (pending : ∀ x, t.pending = some (.tuple x) → s.pending = some (.tuple x) ∨
      s.active = some (.tuple x))
    (prior : t.prior = s.prior) (before : t.before = s.before) : Consistent t := by
  rcases consistent_rest h resting with broken | ⟨free, rest⟩
  · exact .inl (torn.trans broken)
  · refine .inr (.inl ⟨due.trans free, rest.congr active (fun x held => ?_) prior before⟩)
    rcases pending x held with old | now
    · exact rest.copy x old
    · exact now

theorem consistent_installActive {s : Dir} {t : InstanceTuple} (h : Consistent s)
    (may : licence (.installActive t) s) : Consistent (s.installActive t) := by
  rcases may with torn | ⟨free, copied⟩
  · refine .inl ?_
    unfold Dir.installActive
    split <;> exact torn
  rcases consistent_rest h (.inr free) with torn | ⟨-, rest⟩
  · refine .inl ?_
    unfold Dir.installActive
    split <;> exact torn
  cases now : s.active with
  | none =>
    have first : s.before = none := by
      cases before : s.before with
      | none => rfl
      | some b =>
        have active := rest.there (by rw [before]; rfl)
        rw [now] at active
        cases active
    have installed : s.installActive t = { s with active := some (.tuple t) } := by
      simp [Dir.installActive, now]
    rw [installed]
    refine .inr (.inl ⟨free, fun x held => ?_, fun b known => ?_, fun b known => ?_, fun _ => rfl⟩)
    · have active := rest.copy x held
      rw [now] at active
      cases active
    · rw [first] at known
      cases known
    · rw [first] at known
      cases known
  | some x =>
    obtain ⟨b, rfl, pending, other⟩ := copied x now
    have installed : s.installActive t =
        { s with active := some (.tuple t), before := some b, due := true } := by
      simp [Dir.installActive, now]
    rw [installed]
    exact .inr (.inr ⟨rfl, b, t, rfl, pending, rfl, other⟩)

theorem consistent_rotate {s : Dir} (h : Consistent s) (may : licence .rotate s) :
    Consistent s.rotate := by
  rcases h with torn | ⟨free, rest⟩ | ⟨due, b, c, before, pending, active, other⟩
  · exact .inl torn
  · rcases may with torn | due
    · exact .inl torn
    · rw [free] at due
      cases due
  · refine .inr (.inl ⟨rfl, nofun, fun x known => ?_, fun x known => ?_, fun _ => ?_⟩)
    · cases before.symm.trans known
      exact pending
    · cases before.symm.trans known
      change s.active ≠ _
      rw [active]
      intro same
      cases same
      exact other rfl
    · change s.active.isSome = true
      rw [active]
      rfl

theorem consistent_tear {s : Dir} (h : Consistent s) : Consistent s.tear := by
  rcases h with torn | ⟨free, rest⟩ | ⟨due, -⟩
  · exact .inl (tear_torn torn)
  · exact .inr (.inl ⟨rfl, rest.copy, rest.prior, rest.moved, rest.there⟩)
  · exact .inl (by simp [Dir.tear, due])

theorem consistent_perform {op : FileOp} {i : Option Fault} {s : Dir} (h : Consistent s)
    (may : licence op s) : Consistent (perform image op i s).2 := by
  cases i with
  | some e =>
    cases op with
    | rotate => exact consistent_tear h
    | _ => exact h
  | none =>
    cases op with
    | load f =>
      have same : (perform image (.load f) none s).2 = s := by
        simp only [perform]
        split <;> rfl
      rw [same]
      exact h
    | installActive t => exact consistent_installActive h may
    | rotate => exact consistent_rotate h may
    | exists_ f => exact h
    | aside => exact h
    | installDesired t =>
      exact consistent_aside h may rfl rfl rfl (fun x held => .inl held) rfl rfl
    | truncatePending => exact consistent_aside h may rfl rfl rfl nofun rfl rfl
    | fillPending => exact consistent_aside h may rfl rfl rfl (fun x held => .inr held) rfl rfl
    | unlinkDesired =>
      exact consistent_aside h may rfl rfl rfl (fun x held => .inl held) rfl rfl
    | unlinkPending => exact consistent_aside h may rfl rfl rfl nofun rfl rfl

section Scripts
variable {α β : Type} {P : Dir → Prop}

abbrev Holds (image : Image) (P : Dir → Prop) (p : DirScript α) (Q : α → Dir → Prop)
    (E : Fault → Dir → Prop) : Prop :=
  Triple (perform image) Consistent licence (fun h may => consistent_perform h may) P p Q E

abbrev Calm (image : Image) (p : DirScript α) : Prop :=
  Holds image Resting p (fun _ => Resting) (fun _ => Resting)

theorem torn_perform {op : FileOp} {i : Option Fault} {s : Dir} (torn : s.torn = true) :
    (perform image op i s).2.torn = true := by
  cases i with
  | some e =>
    cases op with
    | rotate => exact tear_torn torn
    | _ => exact torn
  | none =>
    cases op with
    | load f =>
      simp only [perform]
      split <;> exact torn
    | installActive t =>
      simp only [perform, Dir.installActive]
      split <;> exact torn
    | _ => exact torn

theorem holds_torn (p : DirScript α) :
    Holds image (fun s => s.torn = true) p (fun _ s => s.torn = true)
      (fun _ s => s.torn = true) := by
  intro s inv torn
  clear inv
  induction p generalizing s with
  | done r =>
    rintro t rfl
    cases r <;> exact torn
  | call op next ih =>
    rintro t rfl
    refine ⟨?_, fun i => ih _ _ (torn_perform torn)⟩
    cases op <;> exact .inl torn

theorem holds_aside (rests : ∀ s, P s → Resting s) :
    Holds image P aside (fun _ => P) (fun _ => P) := by
  refine triple_ask fun s _ held => ⟨rests s held, fun i => ?_⟩
  cases i <;> exact held

theorem holds_exists (rests : ∀ s, P s → Resting s) (f : File) :
    Holds image P (exists_ f) (fun b s => P s ∧ b = (s.get f).isSome) (fun _ => P) := by
  refine triple_ask fun s _ held => ⟨rests s held, fun i => ?_⟩
  cases i with
  | some e => exact held
  | none => exact ⟨held, rfl⟩

theorem holds_load (rests : ∀ s, P s → Resting s) (f : File) :
    Holds image P (load f) (fun a s => P s ∧ s.get f = a.map Content.tuple) (fun _ => P) := by
  refine triple_ask fun s _ held => ⟨rests s held, fun i => ?_⟩
  cases i with
  | some e => exact held
  | none =>
    simp only [perform]
    split
    · rename_i absent
      exact ⟨held, absent⟩
    · exact held
    · rename_i t found
      cases verified : image.verifyInstanceTuple t with
      | error e => exact held
      | ok u =>
        cases verifyInstanceTuple_eq verified
        exact ⟨held, found⟩

theorem calm_call (op : FileOp) (plain : ∀ s, Resting s → licence op s ∧
    ∀ i, Resting (perform image op i s).2) : Calm image (call op) := by
  refine triple_ask fun s _ held => ⟨(plain s held).1, fun i => ?_⟩
  have after := (plain s held).2 i
  cases answer : (perform image op i s).1 with
  | ok a => exact after
  | error e => exact after

theorem calm_aside : Calm image aside := holds_aside fun _ held => held

theorem calm_unlinkDesired : Calm image unlinkDesired :=
  calm_call _ fun s held => ⟨held, fun i => by cases i <;> exact held⟩

theorem calm_unlinkPending : Calm image unlinkPending :=
  calm_call _ fun s held => ⟨held, fun i => by cases i <;> exact held⟩

theorem calm_when {c : Bool} {p : DirScript PUnit} (h : Calm image p) :
    Calm image (when_ c p) := by
  unfold when_
  split
  · exact h
  · exact triple_pure fun _ _ held => held

theorem holds_tolerant {p : DirScript PUnit} {Q : Dir → Prop}
    (h : Holds image P p (fun _ => Q) (fun _ => Q)) :
    Holds image P (tolerant p) (fun _ => Q) (fun _ => Q) := by
  refine Triple.rescue h fun e => ?_
  by_cases os : e = .os
  · rw [if_pos os]
    exact triple_pure fun _ _ held => held
  · rw [if_neg os]
    exact triple_raise fun _ _ held => held

theorem holds_prepare (rests : ∀ s, P s → Resting s) :
    Holds image P prepare (fun _ => P) (fun _ => P) :=
  (holds_aside rests).bind fun _ => (holds_aside rests).bind fun _ => holds_aside rests

theorem calm_stageDesired (t : InstanceTuple) : Calm image (stageDesired t) :=
  (holds_prepare fun _ held => held).bind fun _ =>
    calm_call _ fun s held => ⟨held, fun i => by cases i <;> exact held⟩

theorem calm_discardDesired : Calm image discardDesired := by
  refine (holds_exists (fun _ held => held) .desired).bind fun there => ?_
  refine Triple.pre (calm_when ?_) fun s _ held => held.1
  exact calm_aside.bind fun _ => calm_aside.bind fun _ => calm_unlinkDesired

def Found (current : Option InstanceTuple) (s : Dir) : Prop :=
  s.torn = true ∨ s.due = false ∧ s.active = current.map .tuple

theorem Found.rests {current : Option InstanceTuple} {s : Dir} (h : Found current s) :
    Resting s := h.imp_right fun known => known.1

def Saved (b : InstanceTuple) (s : Dir) : Prop :=
  s.torn = true ∨ s.due = false ∧ s.active = some (.tuple b) ∧ s.pending = some (.tuple b)

theorem Saved.rests {b : InstanceTuple} {s : Dir} (h : Saved b s) : Resting s :=
  h.imp_right fun known => known.1

theorem holds_copyToTemp (b : InstanceTuple) :
    Holds image (Found (some b)) copyToTemp (fun _ => Saved b) (fun _ => Resting) := by
  refine Triple.bind (Q := fun _ => Found (some b))
    ((holds_aside fun _ held => held.rests).post (fun _ _ _ held => held)
      fun _ _ _ held => held.rests) fun _ => ?_
  refine Triple.bind (Q := fun _ => Found (some b)) (triple_ask fun s _ held => ⟨held.rests, ?_⟩)
    fun _ => ?_
  · intro i
    cases i with
    | some e => exact held.rests
    | none => exact held
  refine Triple.bind (Q := fun _ => Saved b) (triple_ask fun s _ held => ⟨held.rests, ?_⟩)
    fun _ => ?_
  · intro i
    cases i with
    | some e => exact held.rests
    | none => exact held.imp_right fun known => ⟨known.1, known.2, known.2⟩
  exact (holds_aside fun _ held => held.rests).post (fun _ _ _ held => held)
    fun _ _ _ held => held.rests

def Ready (current : Option InstanceTuple) (s : Dir) : Prop :=
  match current with
  | some b => Saved b s
  | none => Found none s

theorem Ready.rests {current : Option InstanceTuple} {s : Dir} (h : Ready current s) :
    Resting s := by
  cases current with
  | none => exact Found.rests h
  | some b => exact Saved.rests h

theorem holds_writeActive {current : Option InstanceTuple} {t : InstanceTuple}
    (new : current ≠ some t) :
    Holds image (Ready current) (writeActive t)
      (fun _ s => s.torn = true ∨ s.due = current.isSome) (fun _ => Resting) := by
  refine Triple.bind (Q := fun _ => Ready current)
    ((holds_prepare fun _ held => held.rests).post (fun _ _ _ held => held)
      fun _ _ _ held => held.rests) fun _ => ?_
  refine triple_ask fun s _ held => ?_
  cases current with
  | none =>
    rcases held with torn | ⟨free, active⟩
    · refine ⟨.inl torn, fun i => ?_⟩
      cases i with
      | some e => exact .inl torn
      | none =>
        refine .inl ?_
        simp only [perform, Dir.installActive]
        split <;> exact torn
    · have absent : s.active = none := active
      refine ⟨.inr ⟨free, fun x now => by rw [absent] at now; cases now⟩, fun i => ?_⟩
      cases i with
      | some e => exact .inr free
      | none => exact .inr (by simp [perform, Dir.installActive, absent, free])
  | some b =>
    rcases held with torn | ⟨free, active, pending⟩
    · refine ⟨.inl torn, fun i => ?_⟩
      cases i with
      | some e => exact .inl torn
      | none =>
        refine .inl ?_
        simp only [perform, Dir.installActive]
        split <;> exact torn
    · have other : t ≠ b := fun same => new (congrArg some same.symm)
      refine ⟨.inr ⟨free, fun x now => ⟨b, ?_, pending, other⟩⟩, fun i => ?_⟩
      · exact Option.some.inj (now.symm.trans active)
      · cases i with
        | some e => exact .inr free
        | none => exact .inr (by simp [perform, Dir.installActive, active])

theorem holds_rotate :
    Holds image (fun s => s.torn = true ∨ s.due = true) rotate (fun _ => Resting)
      (fun _ => Resting) := by
  refine triple_ask fun s _ held => ⟨held, fun i => ?_⟩
  cases i with
  | some e => exact .inr rfl
  | none => exact .inr rfl

theorem calm_replaceActive {current : Option InstanceTuple} {candidate : InstanceTuple}
    (new : current ≠ some candidate) :
    Holds image (Found current) (replaceActive candidate) (fun _ => Resting) (fun _ => Resting) := by
  refine Triple.bind (Q := fun there s => s.torn = true ∨
      there = current.isSome ∧ Found current s)
    ((holds_exists (fun _ held => held.rests) .active).post ?_ fun _ _ _ held => held.rests)
    fun there => ?_
  · rintro there s - ⟨torn | ⟨free, active⟩, answer⟩
    · exact .inl torn
    · refine .inr ⟨?_, .inr ⟨free, active⟩⟩
      rw [answer, Dir.get, active, Option.isSome_map]
  refine triple_or ((holds_torn _).post (fun _ _ _ => .inl) fun _ _ _ => .inl) ?_
  refine triple_of fun known => ?_
  subst known
  have saved : Holds image (Found current) (when_ current.isSome copyToTemp)
      (fun _ => Ready current) (fun _ => Resting) := by
    cases current with
    | none => exact triple_pure fun _ _ held => held
    | some b => exact holds_copyToTemp b
  refine saved.bind fun _ => ?_
  refine Triple.bind (Q := fun _ s => s.torn = true ∨ s.due = current.isSome) ?_ fun _ => ?_
  · refine (holds_writeActive new).rescue fun e => ?_
    exact (calm_when calm_unlinkPending).bind fun _ => triple_raise fun _ _ held => held
  refine Triple.bind (Q := fun _ => Resting) ?_ fun _ => holds_tolerant calm_unlinkDesired
  cases current with
  | none => exact triple_pure fun _ _ held => held
  | some b => exact holds_tolerant holds_rotate

theorem calm_finishRotation (candidate : InstanceTuple) :
    Holds image (Found (some candidate)) (finishRotation candidate) (fun _ => Resting)
      (fun _ => Resting) := by
  refine Triple.bind (Q := fun _ => Found (some candidate))
    ((holds_exists (fun _ held => held.rests) .pending).post (fun _ _ _ held => held.1)
      fun _ _ _ held => held.rests) fun there => ?_
  refine Triple.bind (Q := fun _ => Resting) ?_ fun _ => calm_unlinkDesired
  unfold when_
  split
  swap
  · exact triple_pure fun _ _ held => held.rests
  refine Triple.bind (Q := fun a s => Found (some candidate) s ∧
      (a.isSome = true → s.pending = a.map .tuple)) ?_ fun a => ?_
  · refine Triple.rescue (E := fun _ => Found (some candidate))
      ((holds_load (fun _ held => held.rests) .pending).post
        (fun _ _ _ held => ⟨held.1, fun _ => held.2⟩) fun _ _ _ held => held) fun e => ?_
    by_cases other : e = .other
    · rw [if_pos other]
      exact triple_raise fun _ _ held => held.rests
    · rw [if_neg other]
      exact triple_pure fun _ _ held => ⟨held, nofun⟩
  split
  · rename_i differs
    simp only [Bool.and_eq_true, decide_eq_true_eq] at differs
    obtain ⟨some_, new⟩ := differs
    obtain ⟨t, rfl⟩ := Option.isSome_iff_exists.mp some_
    refine Triple.pre (P := fun s => s.torn = true) ((holds_torn _).post (fun _ _ _ => .inl)
      fun _ _ _ => .inl) ?_
    rintro s inv ⟨torn | ⟨free, active⟩, pending⟩
    · exact torn
    -- a copy that loads is a copy of the active tuple
    rcases consistent_rest inv (.inr free) with torn | ⟨-, rest⟩
    · exact torn
    · have same := rest.copy t (pending some_)
      rw [active] at same
      cases same
      exact absurd rfl new
  · exact Triple.pre calm_unlinkPending fun _ _ held => held.1.rests

theorem calm_commitDesiredToActive : Calm image commitDesiredToActive := by
  refine Triple.bind (Q := fun _ => Resting)
    ((holds_load (fun _ held => held) .desired).post (fun _ _ _ held => held.1)
      fun _ _ _ held => held) fun staged => ?_
  cases staged with
  | none => exact triple_raise fun _ _ held => held
  | some candidate =>
    refine Triple.bind (Q := fun current => Found current)
      ((holds_load (fun _ held => held) .active).post (fun current s _ held => ?_)
        fun _ _ _ held => held) fun current => ?_
    · exact held.1.imp_right fun free => ⟨free, held.2⟩
    refine Triple.bind (Q := fun _ => Resting) ?_ fun _ => triple_pure fun _ _ held => held
    unfold promote
    split
    · rename_i same
      rw [same]
      exact holds_tolerant (calm_finishRotation candidate)
    · rename_i new
      exact calm_replaceActive new

theorem calm_attempt (r : Reconcile) (active staged : Option InstanceTuple) :
    Calm image (r.attempt image active staged) := by
  refine Triple.bind (Q := fun _ => Resting)
    (triple_lift fun s _ held => by cases r.propose image _ <;> exact held) fun proposal => ?_
  obtain ⟨persona, candidate, root⟩ := proposal
  simp only
  split
  · exact (calm_when calm_discardDesired).bind fun _ => triple_pure fun _ _ held => held
  · refine Triple.bind (Q := fun _ => Resting)
      (triple_lift fun s _ held => by cases r.checkPersonaRequirements _ <;> exact held) fun _ => ?_
    refine Triple.bind (Q := fun _ => Resting)
      (triple_lift fun s _ held => by cases r.candidateValidator _ _ <;> exact held) fun _ => ?_
    split
    · exact (calm_stageDesired _).bind fun _ => calm_commitDesiredToActive
    · exact triple_pure fun _ _ held => held

theorem calm_reconcileResidentBinding (r : Reconcile) :
    Calm image (reconcileResidentBinding image r) := by
  have loads (f : File) : Calm image (load f) :=
    (holds_load (fun _ held => held) f).post (fun _ _ _ held => held.1) fun _ _ _ held => held
  refine (loads .active).bind fun active => (loads .desired).bind fun staged => ?_
  refine (calm_attempt r active staged).rescue fun e => ?_
  split
  · refine (calm_when calm_discardDesired).bind fun _ => ?_
    cases active with
    | none => exact triple_raise fun _ _ held => held
    | some t => exact triple_pure fun _ _ held => held
  · exact triple_raise fun _ _ held => held

theorem calm_task (task : Task) : Calm image (task.script image) := by
  cases task with
  | stage t => exact calm_stageDesired t
  | commit => exact calm_commitDesiredToActive.bind fun _ => triple_pure fun _ _ held => held
  | discard => exact calm_discardDesired
  | reconcile r =>
    exact (calm_reconcileResidentBinding r).bind fun _ => triple_pure fun _ _ held => held

end Scripts

section Process

def isRotate : FileOp → Bool
  | .rotate => true
  | _ => false

/-- No crash and no failing operation where the next operation renames the copy over
`active.prior.yaml`. -/
def spared : Label PEmpty Task (Option Fault) → Config fileSig Dir Task → Bool
  | .crash, c => c.next.all fun asked => !isRotate asked.2
  | .advance (some _), c => c.next.all fun asked => !isRotate asked.2
  | _, _ => true

def opened (active desired prior : Option Content) : Dir :=
  { active, desired, prior, pending := none }

abbrev discipline (image : Image) : Discipline (perform image) :=
  sequential Consistent licence fun h may => consistent_perform h may

theorem lawful_process (image : Image) :
    Lawful (process image) (discipline image) Resting (fun _ _ => True) where
  stable := stable_sequential _
  env := fun e => e.elim
  program := fun task => by
    refine Spec.bind (Q := fun _ => Resting) (Spec.post (Spec.pre (@calm_task image task)
      fun s _ held => held.1) ?_) fun _ => spec_pure (stable_sequential _) fun _ _ held => held
    intro r s _ held
    cases r <;> exact held
  crash := fun s inv => ⟨consistent_tear inv, .inr rfl⟩

theorem perform_torn (image : Image) (op : FileOp) (i : Option Fault) (s : Dir)
    (spared : i = none ∨ op ≠ .rotate) : (perform image op i s).2.torn = s.torn := by
  cases i with
  | some e =>
    cases op with
    | rotate => exact absurd rfl (spared.resolve_left nofun)
    | _ => rfl
  | none =>
    cases op with
    | load f =>
      simp only [perform]
      split <;> rfl
    | installActive t =>
      simp only [perform, Dir.installActive]
      split <;> rfl
    | _ => rfl

theorem resting_of_licence {op : FileOp} {s : Dir} (may : licence op s) (other : op ≠ .rotate) :
    Resting s := by
  cases op with
  | rotate => exact absurd rfl other
  | installActive t => exact may.imp_right fun known => known.1
  | _ => exact may

theorem resting_of_spared {c : Config fileSig Dir Task}
    (guarded : Guarded (m := process image) (discipline image) Resting c)
    (ok : spared .crash c = true) : Resting c.state := by
  obtain ⟨s, running⟩ := c
  cases running with
  | none => exact guarded.idle rfl
  | some held =>
    obtain ⟨task, p⟩ := held
    cases p with
    | done a => exact guarded.busy task _ rfl s rfl
    | call op next =>
      have other : op ≠ FileOp.rotate := by
        rintro rfl
        cases ok
      exact resting_of_licence (guarded.busy task _ rfl s rfl).1 other

theorem whole_step {l : Label PEmpty Task (Option Fault)} {c : Config fileSig Dir Task}
    (ok : spared l c = true)
    (guarded : Guarded (m := process image) (discipline image) Resting c)
    (whole : c.state.torn = false) : ((process image).step l c).state.torn = false := by
  cases l with
  | env e => exact e.elim
  | crash =>
    have resting := resting_of_spared guarded ok
    rcases resting with torn | free
    · rw [whole] at torn
      cases torn
    · change c.state.tear.torn = false
      simp [Dir.tear, whole, free]
  | start task =>
    obtain ⟨s, running⟩ := c
    cases running <;> exact whole
  | finish =>
    obtain ⟨s, running⟩ := c
    cases running with
    | none => exact whole
    | some held =>
      obtain ⟨task, p⟩ := held
      cases p <;> exact whole
  | advance i =>
    obtain ⟨s, running⟩ := c
    cases running with
    | none => exact whole
    | some held =>
      obtain ⟨task, p⟩ := held
      cases p with
      | done a => exact whole
      | call op next =>
        refine (perform_torn image op i s ?_).trans whole
        cases i with
        | none => exact .inl rfl
        | some e =>
          right
          rintro rfl
          cases ok

/-- Between tasks, `active.prior.yaml` holds the tuple that the last change of `active.yaml`
replaced, and that is not the active tuple: in every run of the four operations, with a crash or
a failing operation anywhere but at the rename of the copy. -/
theorem prior_is_replaced {active desired prior : Option Content}
    {ls : List (Label PEmpty Task (Option Fault))} {c : Config fileSig Dir Task}
    (run : Runs (process image).step (fun l c => spared l c = true)
      ⟨opened active desired prior, none⟩ ls c)
    (idle : c.running = none) {b : InstanceTuple} (replaced : c.state.before = some b) :
    c.state.prior = some (.tuple b) ∧ c.state.active ≠ some (.tuple b) := by
  have start : Guarded (m := process image) (discipline image) Resting
      ⟨opened active desired prior, none⟩ := by
    refine ⟨.inr (.inl ⟨rfl, nofun, nofun, nofun, nofun⟩), fun _ => .inr rfl, fun _ _ h => by cases h⟩
  have kept := run.invariant
    (I := fun c => Guarded (m := process image) (discipline image) Resting c ∧
      c.state.torn = false)
    (fun l c ok held => ⟨held.1.step (lawful_process image) l fun _ _ _ => trivial,
      whole_step ok held.1 held.2⟩) ⟨start, rfl⟩
  obtain ⟨guarded, whole⟩ := kept
  rcases consistent_rest guarded.inv (guarded.idle idle) with torn | ⟨-, rest⟩
  · rw [whole] at torn
    cases torn
  · exact ⟨rest.prior b replaced, rest.moved b replaced⟩

def plainImage : Image where
  checksumJson inputs := inputs.personaId ++ "@" ++ inputs.personaVersion
  rendererVersion := "casa-persona-renderer/1.0.0"
  emptyConfigDigest := "sha256:0"
  tupleSchema _ := true
  bindingSchema _ := true

def butler : RoleSlot := ⟨"resident:assistant", "assistant", "sha256:1", true⟩

def persona (id : String) : PersonaPack := ⟨id, "1.0.0", "sha256:" ++ id⟩

def pinned (id : String) : InstanceTuple where
  root := some id
  binding := plainImage.build butler (persona id) .override_ none (some id)
  configSnapshot := []
  configDigest := "sha256:0"

def bootReconcile : Reconcile where
  role := butler
  imageDefaultRef := none
  imageDefaultPersonaLoader _ := .error .value
  overridePersonaLoader ref := .ok (persona (if ref = "b@1.0.0" then "b" else "c"))
  checkPersonaRequirements _ := .ok ⟨⟩
  candidateValidator _ _ := .ok ⟨⟩
  commit := true

def whole (task : Task) : List (Label PEmpty Task (Option Fault)) :=
  .start task :: List.replicate 20 (.advance none) ++ [.finish]

theorem prior_after_swap :
    ∃ c, Runs (process plainImage).step (fun l c => spared l c = true)
        ⟨opened none none none, none⟩
        (whole (.stage (pinned "a")) ++ whole .commit ++ whole (.stage (pinned "b")) ++
          whole (.reconcile bootReconcile)) c ∧
      c.state.before = some (pinned "a") ∧ c.state.prior = some (.tuple (pinned "a")) := by
  have legal : Legal (process plainImage).step (fun l c => spared l c = true)
      ⟨opened none none none, none⟩
      (whole (.stage (pinned "a")) ++ whole .commit ++ whole (.stage (pinned "b")) ++
        whole (.reconcile bootReconcile)) := by
    decide +kernel
  have replaced : ((whole (.stage (pinned "a")) ++ whole .commit ++ whole (.stage (pinned "b")) ++
      whole (.reconcile bootReconcile)).foldl (fun c l => (process plainImage).step l c)
      ⟨opened none none none, none⟩).state.before = some (pinned "a") := by
    decide +kernel
  refine ⟨_, legal.runs, replaced, (prior_is_replaced legal.runs ?_ replaced).1⟩
  exact Option.isNone_iff_eq_none.mp (by decide +kernel)

/-- A second swap, with a crash after the new active tuple has been renamed into place; the
reconcile of the next boot finds the candidate active already and returns. -/
def crashAtRotation : List (Label PEmpty Task (Option Fault)) :=
  whole (.stage (pinned "a")) ++ whole .commit ++ whole (.stage (pinned "b")) ++ whole .commit ++
    whole (.stage (pinned "c")) ++ .start .commit :: List.replicate 11 (.advance none) ++
    .crash :: whole (.reconcile bootReconcile)

theorem prior_stale_after_crash :
    ∃ c, Runs (process plainImage).step (fun _ _ => True) ⟨opened none none none, none⟩
        crashAtRotation c ∧
      c.running = none ∧ c.state.active = some (.tuple (pinned "c")) ∧
      c.state.before = some (pinned "b") ∧ c.state.prior = some (.tuple (pinned "a")) ∧
      pinned "a" ≠ pinned "b" := by
  refine ⟨_, Runs.foldl (fun _ _ _ => trivial) _, Option.isNone_iff_eq_none.mp ?_, ?_, ?_, ?_, ?_⟩
  · decide +kernel
  · decide +kernel
  · decide +kernel
  · decide +kernel
  · decide

end Process

end Casa.RollbackGeneration
