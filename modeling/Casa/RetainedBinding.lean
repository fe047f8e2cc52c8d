import Casa.RollbackGeneration

/-! What `reconcile_resident_binding` returns where a valid `active.yaml` is in place. The
guarded body and the handler that retains the active tuple are run under plans that say which
of their writes and unlinks fail; `fate` follows the body through such a plan. -/

namespace Casa.RetainedBinding
open OperationTree FallibleTree InstanceDir RollbackGeneration

variable {image : Image} {plan : ℕ → Bool} {n : ℕ} {s : Dir}

def mayFail : FileOp → Bool
  | .exists_ _ => false
  | .load _ => false
  | _ => true

def strike (image : Image) : Device fileSig Bool Dir :=
  fun op fails s => perform image op (if fails && mayFail op then some .os else none) s

theorem strike_read (op : FileOp) (reads : mayFail op = false) (fails : Bool) (s : Dir) :
    strike image op fails s = perform image op none s := by
  simp [strike, reads]

theorem strike_clear (op : FileOp) (s : Dir) :
    strike image op false s = perform image op none s := by
  simp [strike]

theorem strike_fails (op : FileOp) (may : mayFail op = true) (s : Dir) :
    strike image op true s = perform image op (some .os) s := by
  simp [strike, may]

/-- Whether one of the `k` operations from the `n`-th on fails. -/
def struck (plan : ℕ → Bool) (n k : ℕ) : Bool := (List.range' n k).any plan

theorem struck_succ (plan : ℕ → Bool) (n k : ℕ) :
    struck plan n (k + 1) = (plan n || struck plan (n + 1) k) := by
  simp [struck, List.range'_succ]

theorem struck_add (plan : ℕ → Bool) (n k l : ℕ) :
    struck plan n (k + l) = (struck plan n k || struck plan (n + k) l) := by
  rw [struck, ← List.range'_append_1, List.any_append]
  rfl

theorem struck_zero (plan : ℕ → Bool) (n : ℕ) : struck plan n 0 = false := rfl

/-- The program stops with an `OSError`, and leaves a state of this kind. -/
def Stops {α : Type} (image : Image) (p : DirScript α) (plan : ℕ → Bool) (n : ℕ) (s : Dir)
    (R : Dir → Prop) : Prop :=
  ∃ m t, p.exec (strike image) plan n s = (.error .os, m, t) ∧ R t

section Rules
variable {α β : Type} {p : DirScript α} {k : α → DirScript β} {R : Dir → Prop}

theorem Stops.bind (h : Stops image p plan n s R) : Stops image (p >>= k) plan n s R := by
  obtain ⟨m, t, ran, left⟩ := h
  exact ⟨m, t, exec_bind_error ran, left⟩

theorem Stops.after {a : α} {m : ℕ} {t : Dir}
    (ran : p.exec (strike image) plan n s = (.ok a, m, t)) (h : Stops image (k a) plan m t R) :
    Stops image (p >>= k) plan n s R := by
  obtain ⟨m', u, ran', left⟩ := h
  exact ⟨m', u, (exec_bind_ok ran).trans ran', left⟩

theorem Stops.mono {R' : Dir → Prop} (h : Stops image p plan n s R) (weaker : ∀ t, R t → R' t) :
    Stops image p plan n s R' := by
  obtain ⟨m, t, ran, left⟩ := h
  exact ⟨m, t, ran, weaker t left⟩

end Rules

section Operations

theorem exec_exists (f : File) :
    (exists_ f).exec (strike image) plan n s = (.ok (s.get f).isSome, n + 1, s) := by
  rw [exists_, call, exec_ask, strike_read _ rfl]
  rfl

/-- What `load_instance_tuple` makes of a file. -/
def readFile (image : Image) (s : Dir) (f : File) : Except Fault (Option InstanceTuple) :=
  match s.get f with
  | none => .ok none
  | some (.garbage e) => .error e
  | some (.tuple t) => (image.verifyInstanceTuple t).map some

theorem exec_load (f : File) :
    (load f).exec (strike image) plan n s = (readFile image s f, n + 1, s) := by
  rw [load, call, exec_ask, strike_read _ rfl, readFile]
  simp only [perform]
  cases held : s.get f with
  | none => rfl
  | some c => cases c <;> rfl

theorem readFile_tuple {f : File} {t : InstanceTuple} (held : s.get f = some (.tuple t)) :
    readFile image s f = (image.verifyInstanceTuple t).map some := by
  rw [readFile, held]

theorem exec_load_tuple {f : File} {t : InstanceTuple} (held : s.get f = some (.tuple t)) :
    (load f).exec (strike image) plan n s =
      ((image.verifyInstanceTuple t).map some, n + 1, s) := by
  rw [exec_load, readFile_tuple held]

theorem exec_clear (op : FileOp) (clear : plan n = false) :
    (call op).exec (strike image) plan n s =
      ((perform image op none s).1, n + 1, (perform image op none s).2) := by
  rw [call, exec_ask, clear, strike_clear]

theorem call_struck (op : FileOp) (fails : plan n = true) (may : mayFail op = true) :
    Stops image (call op) plan n s fun t => t.active = s.active ∧ t.desired = s.desired := by
  refine ⟨n + 1, (perform image op (some .os) s).2, ?_, ?_⟩
  · rw [call, exec_ask, fails, strike_fails op may]
    cases op <;> rfl
  · cases op <;> exact ⟨rfl, rfl⟩

theorem exec_aside (clear : plan n = false) :
    aside.exec (strike image) plan n s = (.ok ⟨⟩, n + 1, s) := exec_clear .aside clear

theorem aside_struck (fails : plan n = true) :
    Stops image aside plan n s fun t => t.active = s.active ∧ t.desired = s.desired :=
  call_struck .aside fails rfl

end Operations

section Scripts

theorem exec_prepare (clear : struck plan n 3 = false) :
    prepare.exec (strike image) plan n s = (.ok ⟨⟩, n + 3, s) := by
  simp only [struck_succ, struck_zero, Bool.or_eq_false_iff] at clear
  obtain ⟨first, second, third, -⟩ := clear
  rw [prepare, exec_bind_ok (exec_aside first), exec_bind_ok (exec_aside second)]
  exact exec_aside third

theorem prepare_struck (fails : struck plan n 3 = true) :
    Stops image prepare plan n s fun t => t.active = s.active ∧ t.desired = s.desired := by
  simp only [struck_succ, struck_zero, Bool.or_false, Bool.or_eq_true] at fails
  cases first : plan n with
  | true => exact (aside_struck first).bind
  | false =>
    refine Stops.after (exec_aside first) ?_
    cases second : plan (n + 1) with
    | true => exact (aside_struck second).bind
    | false =>
      refine Stops.after (exec_aside second) (aside_struck ?_)
      simpa [first, second] using fails

theorem exec_stageDesired {t : InstanceTuple} (clear : struck plan n 4 = false) :
    (stageDesired t).exec (strike image) plan n s =
      (.ok ⟨⟩, n + 4, { s with desired := some (.tuple t) }) := by
  simp only [struck_succ, struck_zero, Bool.or_eq_false_iff] at clear
  obtain ⟨first, second, third, last, -⟩ := clear
  rw [stageDesired, exec_bind_ok (exec_prepare (by simp [struck_succ, struck_zero, *]))]
  exact exec_clear (.installDesired t) last

theorem stageDesired_struck {t : InstanceTuple} (fails : struck plan n 4 = true) :
    Stops image (stageDesired t) plan n s
      fun u => u.active = s.active ∧ u.desired = s.desired := by
  cases before : struck plan n 3 with
  | true => exact (prepare_struck before).bind
  | false =>
    refine Stops.after (exec_prepare before) (call_struck _ ?_ rfl)
    simp only [struck_succ, struck_zero, Bool.or_false, Bool.or_eq_false_iff] at fails before
    simpa [before] using fails

theorem exec_writeActive {t b : InstanceTuple} (active : s.active = some (.tuple b))
    (clear : struck plan n 4 = false) :
    (writeActive t).exec (strike image) plan n s = (.ok ⟨⟩, n + 4,
      { s with active := some (.tuple t), before := some b, due := true }) := by
  simp only [struck_succ, struck_zero, Bool.or_eq_false_iff] at clear
  obtain ⟨first, second, third, last, -⟩ := clear
  rw [writeActive, exec_bind_ok (exec_prepare (by simp [struck_succ, struck_zero, *])),
    exec_clear _ last]
  simp [perform, Dir.installActive, active]
  rfl

theorem writeActive_struck {t : InstanceTuple} (fails : struck plan n 4 = true) :
    Stops image (writeActive t) plan n s
      fun u => u.active = s.active ∧ u.desired = s.desired := by
  cases before : struck plan n 3 with
  | true => exact (prepare_struck before).bind
  | false =>
    refine Stops.after (exec_prepare before) (call_struck _ ?_ rfl)
    simp only [struck_succ, struck_zero, Bool.or_false, Bool.or_eq_false_iff] at fails before
    simpa [before] using fails

theorem exec_copyToTemp (clear : struck plan n 4 = false) :
    copyToTemp.exec (strike image) plan n s =
      (.ok ⟨⟩, n + 4, { s with pending := s.active }) := by
  simp only [struck_succ, struck_zero, Bool.or_eq_false_iff] at clear
  obtain ⟨first, second, third, last, -⟩ := clear
  rw [copyToTemp, exec_bind_ok (exec_aside first), exec_bind_ok (exec_clear _ second),
    exec_bind_ok (exec_clear _ third)]
  exact exec_aside last

theorem copyToTemp_struck (fails : struck plan n 4 = true) :
    Stops image copyToTemp plan n s fun u => u.active = s.active ∧ u.desired = s.desired := by
  simp only [struck_succ, struck_zero, Bool.or_false, Bool.or_eq_true] at fails
  cases first : plan n with
  | true => exact (aside_struck first).bind
  | false =>
    refine Stops.after (exec_aside first) ?_
    cases second : plan (n + 1) with
    | true => exact (call_struck _ second rfl).bind
    | false =>
      refine Stops.after (exec_clear _ second) ?_
      cases third : plan (n + 2) with
      | true => exact (call_struck _ third rfl).bind
      | false =>
        refine Stops.after (exec_clear _ third) (aside_struck ?_)
        simpa [first, second, third] using fails

theorem exec_tolerant {p : DirScript PUnit} {R : Dir → Prop}
    (h : (∃ m t, p.exec (strike image) plan n s = (.ok ⟨⟩, m, t) ∧ R t) ∨
      Stops image p plan n s R) :
    ∃ m t, (tolerant p).exec (strike image) plan n s = (.ok ⟨⟩, m, t) ∧ R t := by
  rcases h with ⟨m, t, ran, left⟩ | ⟨m, t, ran, left⟩
  · exact ⟨m, t, exec_rescue_ok ran, left⟩
  · refine ⟨m, t, (exec_rescue_error ran).trans ?_, left⟩
    rw [if_pos rfl]
    rfl

theorem exec_tolerant_rotate :
    ∃ m t, (tolerant rotate).exec (strike image) plan n s = (.ok ⟨⟩, m, t) ∧
      t.active = s.active := by
  refine exec_tolerant ?_
  cases fails : plan n with
  | false => exact .inl ⟨_, _, exec_clear .rotate fails, rfl⟩
  | true => exact .inr ((call_struck .rotate fails rfl).mono fun t left => left.1)

theorem exec_tolerant_unlinkDesired :
    ∃ m t, (tolerant unlinkDesired).exec (strike image) plan n s = (.ok ⟨⟩, m, t) ∧
      t.active = s.active := by
  refine exec_tolerant ?_
  cases fails : plan n with
  | false => exact .inl ⟨_, _, exec_clear .unlinkDesired fails, rfl⟩
  | true => exact .inr ((call_struck .unlinkDesired fails rfl).mono fun t left => left.1)

theorem exec_replaceActive {candidate b : InstanceTuple} (active : s.active = some (.tuple b))
    (clear : struck plan (n + 1) 8 = false) :
    ∃ m t, (replaceActive candidate).exec (strike image) plan n s = (.ok ⟨⟩, m, t) ∧
      t.active = some (.tuple candidate) := by
  have split := struck_add plan (n + 1) 4 4
  rw [clear, eq_comm, Bool.or_eq_false_iff] at split
  have there : (s.get .active).isSome = true := by rw [Dir.get, active]; rfl
  have wrote := @exec_writeActive image plan (n + 5) { s with pending := s.active } candidate b
    active split.2
  obtain ⟨m, t, rotated, kept⟩ := @exec_tolerant_rotate image plan (n + 9) { s with
    pending := s.active, active := some (.tuple candidate), before := some b, due := true }
  obtain ⟨m', u, unlinked, kept'⟩ := @exec_tolerant_unlinkDesired image plan m t
  refine ⟨m', u, ?_, kept'.trans kept⟩
  rw [replaceActive, exec_bind_ok (exec_exists .active), there]
  rw [when_, if_pos rfl, exec_bind_ok (exec_copyToTemp split.1)]
  rw [exec_bind_ok (exec_rescue_ok wrote)]
  rw [when_, if_pos rfl, exec_bind_ok rotated]
  exact unlinked

theorem replaceActive_struck {candidate b : InstanceTuple} (active : s.active = some (.tuple b))
    (fails : struck plan (n + 1) 8 = true) :
    Stops image (replaceActive candidate) plan n s
      fun u => u.active = s.active ∧ u.desired = s.desired := by
  have there : (s.get .active).isSome = true := by rw [Dir.get, active]; rfl
  refine Stops.after (exec_exists .active) ?_
  rw [there, when_, if_pos rfl]
  have split := struck_add plan (n + 1) 4 4
  rw [fails, eq_comm, Bool.or_eq_true] at split
  cases copied : struck plan (n + 1) 4 with
  | true => exact (copyToTemp_struck copied).bind
  | false =>
    refine Stops.after (exec_copyToTemp copied) (Stops.bind ?_)
    have writes := split.resolve_left (by rw [copied]; exact Bool.false_ne_true)
    obtain ⟨m, t, ran, left⟩ := @writeActive_struck image plan _ { s with pending := s.active }
      candidate writes
    rw [Stops, exec_rescue_error ran]
    cases unlink : plan m with
    | true =>
      obtain ⟨m', u, failed, left'⟩ := @call_struck image plan m t .unlinkPending unlink rfl
      refine ⟨m', u, exec_bind_error failed, left'.1.trans left.1, left'.2.trans left.2⟩
    | false =>
      refine ⟨m + 1, _, exec_bind_ok (exec_clear .unlinkPending unlink), left.1, left.2⟩

theorem exec_discardDesired_absent (absent : s.desired = none) :
    discardDesired.exec (strike image) plan n s = (.ok ⟨⟩, n + 1, s) := by
  rw [discardDesired, exec_bind_ok (exec_exists .desired), Dir.get, absent]
  rfl

theorem exec_discardDesired (there : s.desired.isSome = true)
    (clear : struck plan (n + 1) 3 = false) :
    discardDesired.exec (strike image) plan n s =
      (.ok ⟨⟩, n + 4, { s with desired := none }) := by
  simp only [struck_succ, struck_zero, Bool.or_eq_false_iff] at clear
  obtain ⟨first, second, third, -⟩ := clear
  rw [discardDesired, exec_bind_ok (exec_exists .desired), Dir.get, there, when_, if_pos rfl]
  rw [exec_bind_ok (exec_aside first), exec_bind_ok (exec_aside second)]
  exact exec_clear .unlinkDesired third

theorem discardDesired_struck (there : s.desired.isSome = true)
    (fails : struck plan (n + 1) 3 = true) :
    Stops image discardDesired plan n s
      fun u => u.active = s.active ∧ u.desired = s.desired := by
  simp only [struck_succ, struck_zero, Bool.or_false, Bool.or_eq_true] at fails
  refine Stops.after (exec_exists .desired) ?_
  rw [Dir.get, there, when_, if_pos rfl]
  cases first : plan (n + 1) with
  | true => exact (aside_struck first).bind
  | false =>
    refine Stops.after (exec_aside first) ?_
    cases second : plan (n + 2) with
    | true => exact (aside_struck second).bind
    | false =>
      refine Stops.after (exec_aside second) (call_struck .unlinkDesired ?_ rfl)
      simpa [first, second] using fails

section Commit
variable {candidate b : InstanceTuple} (desired : s.desired = some (.tuple candidate))
  (active : s.active = some (.tuple b)) (valid : image.verifyInstanceTuple b = .ok b)
  (new : b ≠ candidate)

include desired in
theorem exec_commit_rejected {e : Fault} (rejected : image.verifyInstanceTuple candidate = .error e) :
    commitDesiredToActive.exec (strike image) plan n s = (.error e, n + 1, s) := by
  have read := @exec_load_tuple image plan n s .desired candidate desired
  rw [rejected] at read
  exact exec_bind_error read

include desired active valid new in
theorem exec_commit_promote (accepted : image.verifyInstanceTuple candidate = .ok candidate) :
    commitDesiredToActive.exec (strike image) plan n s =
      (do replaceActive candidate; pure candidate : DirScript InstanceTuple).exec (strike image)
        plan (n + 2) s := by
  have read := @exec_load_tuple image plan n s .desired candidate desired
  have current := @exec_load_tuple image plan (n + 1) s .active b active
  rw [accepted] at read
  rw [valid] at current
  rw [commitDesiredToActive, exec_bind_ok read, exec_bind_ok current, promote, if_neg]
  exact fun same => new (Option.some.inj same)

end Commit

end Scripts

section Body

def tupleOf (candidate : BindingRecord) (root : Option String) : InstanceTuple where
  root
  binding := candidate
  configSnapshot := []
  configDigest := candidate.effectiveConfigDigest

/-- How the guarded body ends: with the active tuple or another one, with a `ValueError` or an
`OSError` while `desired.yaml` is there or not, or with another exception. -/
inductive Fate where
  | kept
  | changed
  | refused (there : Bool)
  | escaped
deriving DecidableEq

def failed (e : Fault) (there : Bool) : Fate :=
  if e = .value ∨ e = .os then .refused there else .escaped

def fate (image : Image) (r : Reconcile) (plan : ℕ → Bool) (active : InstanceTuple)
    (staged : Option InstanceTuple) : Fate :=
  match r.propose image (Reconcile.source (some active) staged) with
  | .error e => failed e staged.isSome
  | .ok (persona, candidate, root) =>
    if active.binding.bindingDigest = candidate.bindingDigest then
      if staged.isSome && r.commit && struck plan 1 3 then .refused true else .kept
    else
      match r.checkPersonaRequirements persona, r.candidateValidator persona candidate with
      | .error e, _ => failed e staged.isSome
      | .ok _, .error e => failed e staged.isSome
      | .ok _, .ok _ =>
        if r.commit = false then .changed
        else if struck plan 0 4 then .refused staged.isSome
        else match image.verifyInstanceTuple (tupleOf candidate root) with
          | .error e => failed e true
          | .ok _ => if struck plan 7 8 then .refused true else .changed

def Ended (image : Image) (r : Reconcile) (active : InstanceTuple) (s : Dir) :
    Fate → Except Fault InstanceTuple → Dir → Prop
  | .kept, x, t => x = .ok active ∧ t.active = s.active ∧ (r.commit = false → t = s)
  | .changed, x, t => ∃ u, x = .ok u ∧
      (r.commit = true → t.active = some (.tuple u) ∧ image.verifyInstanceTuple u = .ok u) ∧
      (r.commit = false → t = s)
  | .refused there, x, t => ∃ e, x = .error e ∧ (e = .value ∨ e = .os) ∧
      t.active = s.active ∧ t.desired.isSome = there ∧ (r.commit = false → t = s)
  | .escaped, x, _ => ∃ e, x = .error e ∧ ¬ (e = .value ∨ e = .os)

theorem ended_failed {r : Reconcile} {active : InstanceTuple} {t : Dir} (e : Fault) {there : Bool}
    (kept : t.active = s.active) (present : t.desired.isSome = there)
    (alone : r.commit = false → t = s) :
    Ended image r active s (failed e there) (.error e) t := by
  unfold failed
  split
  · rename_i caught
    exact ⟨e, rfl, caught, kept, present, alone⟩
  · rename_i other
    exact ⟨e, rfl, other⟩

theorem ended_same {r : Reconcile} {a : InstanceTuple} {staged : Option InstanceTuple}
    (desired : s.desired = staged.map Content.tuple) :
    ∃ x m t, (do
        when_ (staged.isSome && r.commit) discardDesired
        pure a : DirScript InstanceTuple).exec (strike image) plan 0 s = (x, m, t) ∧
      Ended image r a s (if staged.isSome && r.commit && struck plan 1 3 then .refused true
        else .kept) x t := by
  cases both : staged.isSome && r.commit with
  | false => exact ⟨.ok a, 0, s, rfl, rfl, rfl, fun _ => rfl⟩
  | true =>
    obtain ⟨present, commit⟩ := Bool.and_eq_true_iff.mp both
    have there : s.desired.isSome = true := by rw [desired, Option.isSome_map, present]
    rw [when_, if_pos rfl, Bool.true_and]
    cases fails : struck plan 1 3 with
    | false =>
      refine ⟨.ok a, _, _, exec_bind_ok (exec_discardDesired there fails), rfl, rfl, fun no => ?_⟩
      rw [commit] at no
      cases no
    | true =>
      obtain ⟨m, t, ran, left⟩ := @discardDesired_struck image plan 0 s there fails
      refine ⟨.error .os, m, t, exec_bind_error ran, .os, rfl, .inr rfl, left.1, ?_, fun no => ?_⟩
      · rw [left.2, there]
      · rw [commit] at no
        cases no

theorem ended_new {r : Reconcile} {a c : InstanceTuple} {staged : Option InstanceTuple}
    (active : s.active = some (.tuple a)) (valid : image.verifyInstanceTuple a = .ok a)
    (desired : s.desired = staged.map Content.tuple) (new : a ≠ c) (commit : r.commit = true) :
    ∃ x m t, (do
        stageDesired c
        commitDesiredToActive : DirScript InstanceTuple).exec (strike image) plan 0 s = (x, m, t) ∧
      Ended image r a s (if struck plan 0 4 then .refused staged.isSome
        else match image.verifyInstanceTuple c with
          | .error e => failed e true
          | .ok _ => if struck plan 7 8 then .refused true else .changed) x t := by
  have writes (t : Dir) : r.commit = false → t = s := by
    intro no
    rw [commit] at no
    cases no
  cases fails : struck plan 0 4 with
  | true =>
    obtain ⟨m, t, ran, left⟩ := @stageDesired_struck image plan 0 s c fails
    refine ⟨.error .os, m, t, exec_bind_error ran, .os, rfl, .inr rfl, left.1, ?_, writes t⟩
    rw [left.2, desired, Option.isSome_map]
  | false =>
    rw [exec_bind_ok (exec_stageDesired fails), if_neg Bool.false_ne_true]
    cases verified : image.verifyInstanceTuple c with
    | error e =>
      exact ⟨_, _, _, exec_commit_rejected rfl verified, ended_failed e rfl rfl (writes _)⟩
    | ok u =>
      cases verifyInstanceTuple_eq verified
      have promoted := @exec_commit_promote image plan 4 { s with desired := some (.tuple c) } c a
        rfl active valid new verified
      rw [Nat.zero_add, promoted]
      cases replaced : struck plan 7 8 with
      | true =>
        obtain ⟨m, t, ran, left⟩ := @replaceActive_struck image plan 6
          { s with desired := some (.tuple c) } c a active replaced
        refine ⟨.error .os, m, t, exec_bind_error ran, .os, rfl, .inr rfl, left.1, ?_, writes t⟩
        rw [left.2]
        rfl
      | false =>
        obtain ⟨m, t, ran, left⟩ := @exec_replaceActive image plan 6
          { s with desired := some (.tuple c) } c a active replaced
        exact ⟨.ok c, m, t, exec_bind_ok ran, c, rfl, fun _ => ⟨left, verified⟩, writes t⟩

theorem ended_attempt {r : Reconcile} {a : InstanceTuple} {staged : Option InstanceTuple}
    (active : s.active = some (.tuple a)) (valid : image.verifyInstanceTuple a = .ok a)
    (desired : s.desired = staged.map Content.tuple) :
    ∃ x m t, (r.attempt image (some a) staged).exec (strike image) plan 0 s = (x, m, t) ∧
      Ended image r a s (fate image r plan a staged) x t := by
  have present : s.desired.isSome = staged.isSome := by rw [desired, Option.isSome_map]
  unfold fate
  cases proposal : r.propose image (Reconcile.source (some a) staged) with
  | error e =>
    refine ⟨.error e, 0, s, ?_, ended_failed e rfl present fun _ => rfl⟩
    rw [Reconcile.attempt, proposal]
    exact exec_bind_error rfl
  | ok found =>
    obtain ⟨persona, candidate, root⟩ := found
    rw [Reconcile.attempt, proposal]
    simp only
    rw [exec_bind_ok (exec_lift _)]
    simp only [Option.filter]
    by_cases same : a.binding.bindingDigest = candidate.bindingDigest
    · simp only [same, decide_true, if_true]
      exact ended_same desired
    · simp only [same, decide_false, Bool.false_eq_true, if_false]
      cases required : r.checkPersonaRequirements persona with
      | error e =>
        exact ⟨.error e, 0, s, exec_bind_error rfl, ended_failed e rfl present fun _ => rfl⟩
      | ok _ =>
      cases compiled : r.candidateValidator persona candidate with
      | error e =>
        refine ⟨.error e, 0, s, ?_, ended_failed e rfl present fun _ => rfl⟩
        rw [exec_bind_ok (exec_lift _)]
        exact exec_bind_error rfl
      | ok _ =>
        rw [exec_bind_ok (exec_lift _), exec_bind_ok (exec_lift _)]
        cases commit : r.commit with
        | false => exact ⟨.ok _, 0, s, rfl, _, rfl, fun yes => absurd yes (by simp [commit]), fun _ => rfl⟩
        | true =>
          have new : a ≠ tupleOf candidate root := by
            rintro rfl
            exact same rfl
          exact ended_new active valid desired new commit

end Body

section Boot

def recover (r : Reconcile) (active : Option InstanceTuple) (e : Fault) :
    DirScript InstanceTuple :=
  if e = .value ∨ e = .os then do
    when_ r.commit discardDesired
    match active with
    | none => Script.raise .value
    | some t => pure t
  else Script.raise e

theorem reconcileResidentBinding_eq (image : Image) (r : Reconcile) :
    reconcileResidentBinding image r = (do
      let active ← load .active
      let staged ← load .desired
      (r.attempt image active staged).rescue (recover r active)) := rfl

def outcome {α : Type} (ran : Except Fault α × ℕ × Dir) : Except Fault α × Dir := (ran.1, ran.2.2)

/-- `reconcile_resident_binding`, with the failures of its guarded body and those of its handler
each counted from its start. -/
def boot (image : Image) (r : Reconcile) (body handler : ℕ → Bool) (s : Dir) :
    Except Fault InstanceTuple × Dir :=
  match readFile image s .active with
  | .error e => (.error e, s)
  | .ok active =>
  match readFile image s .desired with
  | .error e => (.error e, s)
  | .ok staged =>
  match (r.attempt image active staged).exec (strike image) body 0 s with
  | (.ok u, _, t) => (.ok u, t)
  | (.error e, _, t) => outcome ((recover r active e).exec (strike image) handler 0 t)

theorem boot_error {r : Reconcile} {body handler : ℕ → Bool} {e : Fault}
    (fails : readFile image s .active = .error e ∨
      ∃ active, readFile image s .active = .ok active ∧ readFile image s .desired = .error e) :
    boot image r body handler s = (.error e, s) ∧
      outcome ((reconcileResidentBinding image r).exec (strike image) plan 0 s) =
        (.error e, s) := by
  have loadActive := @exec_load image plan 0 s .active
  have loadStaged := @exec_load image plan 1 s .desired
  rw [reconcileResidentBinding_eq]
  rcases fails with first | ⟨active, first, second⟩
  · rw [first] at loadActive
    rw [exec_bind_error loadActive, boot, first]
    exact ⟨rfl, rfl⟩
  · rw [first] at loadActive
    rw [second] at loadStaged
    rw [exec_bind_ok loadActive, exec_bind_error loadStaged, boot, first, second]
    exact ⟨rfl, rfl⟩

end Boot

section Retained

/-- The function returns a tuple: the one in `active.yaml`, where it may write, and nothing has
changed where it may not. -/
def Retained (image : Image) (r : Reconcile) (s : Dir) (out : Except Fault InstanceTuple × Dir) :
    Prop :=
  ∃ t, out.1 = .ok t ∧
    (r.commit = true → out.2.active = some (.tuple t) ∧ image.verifyInstanceTuple t = .ok t) ∧
    (r.commit = false → out.2 = s)

/-- `desired.yaml` is absent or loads, the body raises nothing but a `ValueError` or an
`OSError`, and where it raises one while `desired.yaml` is there, no operation of the handler's
`discard_desired` fails. -/
def Recoverable (image : Image) (r : Reconcile) (body handler : ℕ → Bool) (a : InstanceTuple)
    (s : Dir) : Prop :=
  ∃ staged, readFile image s .desired = .ok staged ∧ fate image r body a staged ≠ .escaped ∧
    (r.commit = true → fate image r body a staged = .refused true → struck handler 1 3 = false)

theorem readFile_ok {f : File} {x : Option InstanceTuple} (read : readFile image s f = .ok x) :
    s.get f = x.map Content.tuple := by
  unfold readFile at read
  cases held : s.get f with
  | none =>
    rw [held] at read
    cases read
    rfl
  | some c =>
    rw [held] at read
    cases c with
    | garbage e => cases read
    | tuple t =>
      simp only at read
      cases verified : image.verifyInstanceTuple t with
      | error e =>
        rw [verified] at read
        cases read
      | ok u =>
        cases verifyInstanceTuple_eq verified
        rw [verified] at read
        cases read
        rfl

theorem exec_recover_other {r : Reconcile} {active : Option InstanceTuple} {e : Fault}
    {handler : ℕ → Bool} {t : Dir} (other : ¬ (e = .value ∨ e = .os)) :
    outcome ((recover r active e).exec (strike image) handler 0 t) = (.error e, t) := by
  unfold recover
  rw [if_neg other]
  rfl

section Handler
variable {r : Reconcile} {a : InstanceTuple} {e : Fault} {handler : ℕ → Bool} {t : Dir}
  (caught : e = .value ∨ e = .os)

include caught

theorem exec_recover_idle (idle : r.commit = false) :
    outcome ((recover r (some a) e).exec (strike image) handler 0 t) = (.ok a, t) := by
  rw [recover, if_pos caught, idle]
  rfl

theorem exec_recover_clear (commit : r.commit = true)
    (clear : t.desired.isSome = true → struck handler 1 3 = false) :
    ∃ u, outcome ((recover r (some a) e).exec (strike image) handler 0 t) = (.ok a, u) ∧
      u.active = t.active := by
  rw [recover, if_pos caught, commit, when_, if_pos rfl]
  cases there : t.desired with
  | none =>
    rw [exec_bind_ok (exec_discardDesired_absent there)]
    exact ⟨t, rfl, rfl⟩
  | some c =>
    have present : t.desired.isSome = true := by rw [there]; rfl
    rw [exec_bind_ok (exec_discardDesired present (clear present))]
    exact ⟨_, rfl, rfl⟩

theorem exec_recover_struck (commit : r.commit = true) (there : t.desired.isSome = true)
    (fails : struck handler 1 3 = true) :
    (outcome ((recover r (some a) e).exec (strike image) handler 0 t)).1 = .error .os := by
  rw [recover, if_pos caught, commit, when_, if_pos rfl]
  obtain ⟨m, u, ran, -⟩ := @discardDesired_struck image handler 0 t there fails
  rw [exec_bind_error ran]
  rfl

end Handler

/-- Where `active.yaml` is valid, the boot keeps a tuple in every case in which it can recover,
and in no other. -/
theorem boot_retains_iff (image : Image) (r : Reconcile) (body handler : ℕ → Bool)
    {a : InstanceTuple} {s : Dir} (active : s.active = some (.tuple a))
    (valid : image.verifyInstanceTuple a = .ok a) :
    Retained image r s (boot image r body handler s) ↔
      Recoverable image r body handler a s := by
  have readActive : readFile image s .active = .ok (some a) := by
    rw [@readFile_tuple image s .active a active, valid]
    rfl
  cases readStaged : readFile image s .desired with
  | error e =>
    rw [(@boot_error image body s r body handler e (.inr ⟨_, readActive, readStaged⟩)).1]
    constructor
    · rintro ⟨t, returned, -⟩
      cases returned
    · rintro ⟨staged, read, -⟩
      rw [readStaged] at read
      cases read
  | ok staged =>
  obtain ⟨x, m, t, ran, ended⟩ := @ended_attempt image body s r a staged active valid
    (readFile_ok readStaged)
  have recoverable : Recoverable image r body handler a s ↔
      fate image r body a staged ≠ .escaped ∧
        (r.commit = true → fate image r body a staged = .refused true →
          struck handler 1 3 = false) := by
    constructor
    · rintro ⟨staged', read, rest⟩
      rw [readStaged] at read
      cases read
      exact rest
    · exact fun rest => ⟨staged, readStaged, rest⟩
  rw [recoverable]
  simp only [boot, readActive, readStaged, ran]
  generalize fate image r body a staged = f at *
  cases f with
  | kept =>
    obtain ⟨rfl, left, alone⟩ := ended
    refine iff_of_true ⟨a, rfl, fun _ => ⟨left.trans active, valid⟩, alone⟩ ⟨nofun, nofun⟩
  | changed =>
    obtain ⟨u, rfl, wrote, alone⟩ := ended
    exact iff_of_true ⟨u, rfl, wrote, alone⟩ ⟨nofun, nofun⟩
  | escaped =>
    obtain ⟨e, rfl, other⟩ := ended
    refine iff_of_false ?_ fun rest => rest.1 rfl
    change ¬ Retained image r s (outcome _)
    rw [exec_recover_other other]
    rintro ⟨u, returned, -⟩
    cases returned
  | refused there =>
    obtain ⟨e, rfl, caught, left, present, alone⟩ := ended
    change Retained image r s (outcome _) ↔ _
    cases commit : r.commit with
    | false =>
      rw [exec_recover_idle caught commit]
      refine iff_of_true ⟨a, rfl, fun yes => ?_, fun _ => alone commit⟩ ⟨nofun, fun yes => nomatch yes⟩
      rw [commit] at yes
      cases yes
    | true =>
      have reduced : (Fate.refused there ≠ .escaped ∧ (true = true → Fate.refused there =
          .refused true → struck handler 1 3 = false)) ↔
          (t.desired.isSome = true → struck handler 1 3 = false) := by
        rw [present]
        simp
      rw [reduced]
      constructor
      · rintro ⟨u, returned, -⟩ there
        by_contra fails
        have struck := @exec_recover_struck image r a e handler t caught commit there
          (Bool.not_eq_false _ ▸ fails)
        rw [struck] at returned
        cases returned
      · intro clear
        obtain ⟨u, handled, same⟩ := @exec_recover_clear image r a e handler t caught commit clear
        rw [handled]
        refine ⟨a, rfl, fun _ => ⟨(same.trans left).trans active, valid⟩, fun no => ?_⟩
        rw [commit] at no
        cases no

/-- A boot without a staged change, whose override is no longer what was approved. -/
theorem retained_without_desired :
    Retained plainImage bootReconcile (opened (some (.tuple (pinned "a"))) none none)
      (boot plainImage bootReconcile (fun _ => true) (fun _ => true)
        (opened (some (.tuple (pinned "a"))) none none)) :=
  (boot_retains_iff plainImage bootReconcile (fun _ => true) (fun _ => true) rfl rfl).mpr
    ⟨none, rfl, by decide, by decide⟩

/-- A staged file that is not YAML: its reading is not guarded. -/
theorem raised_by_malformed_desired :
    plainImage.verifyInstanceTuple (pinned "a") = .ok (pinned "a") ∧
      ¬ Retained plainImage bootReconcile
        (opened (some (.tuple (pinned "a"))) (some (.garbage .yaml)) none)
        (boot plainImage bootReconcile (fun _ => false) (fun _ => false)
          (opened (some (.tuple (pinned "a"))) (some (.garbage .yaml)) none)) := by
  refine ⟨rfl, ?_⟩
  rintro ⟨t, returned, -⟩
  have raised : (boot plainImage bootReconcile (fun _ => false) (fun _ => false)
      (opened (some (.tuple (pinned "a"))) (some (.garbage .yaml)) none)).1 = .error .yaml := rfl
  rw [raised] at returned
  cases returned

end Retained

end Casa.RetainedBinding
