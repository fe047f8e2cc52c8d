import Casa.OperationHistory
import Casa.ServiceSources

/-! One prune makes the sources compilable, if no crash has left half a directory: the prune knows
of the references between the two directories of a pair, not of what a directory must hold. -/

namespace Casa.SourceRepair
open StepRuns OperationTree FallibleTree ServiceSources

variable {Id : Type} [DecidableEq Id]

/-- Every directory has what a service needs, every reference is returned, every logger is named by
its main directory. -/
structure Compilable (t : SourceTree Id) : Prop where
  entries : ∀ s d, t s = some d → d.standalone = true
  producers : ∀ s d target, t s = some d → d.producerFor = some target →
    ∃ l dl, target = some l ∧ t l = some dl ∧ dl.consumerFor = some (some s)
  loggers : ∀ e d, t (.log e) = some d →
    ∃ m, t (.main e) = some m ∧ m.producerFor = some (some (.log e))

/-- The main directory is not half, and if it has a `producer-for` then that names the logger, which
is not half either. -/
structure Mendable (t : SourceTree Id) (e : Id) : Prop where
  main : ∀ m, t (.main e) = some m → m.standalone = true
  named : ∀ m target, t (.main e) = some m → m.producerFor = some target → target = some (.log e)
  logger : ∀ m target l, t (.main e) = some m → m.producerFor = some target →
    t (.log e) = some l →
      l.standalone = true ∧ l.consumerFor = some (some (.main e)) ∧ l.producerFor = none

/-- Both directories of the pair are whole and name each other. -/
structure Intact (t : SourceTree Id) (e : Id) : Prop where
  main : ∃ m, t (.main e) = some m ∧ m.standalone = true ∧ m.producerFor = some (some (.log e))
  log : ∃ l, t (.log e) = some l ∧ l.standalone = true ∧
    l.consumerFor = some (some (.main e)) ∧ l.producerFor = none

/-! ### The prune -/

section Prune
variable {t : SourceTree Id} {e : Id} {s s' : Service Id} {order : List (Service Id)}

def Settled (t : SourceTree Id) : Service Id → Prop
  | .log e => ∀ l, t (.log e) = some l → ∃ m target, t (.main e) = some m ∧
      m.producerFor = some target
  | .main e => ∀ m target, t (.main e) = some m → m.producerFor = some target →
      ∃ l, t (.log e) = some l

omit [DecidableEq Id] in
theorem compilable_of_settled (mendable : ∀ e, Mendable t e) (settled : ∀ s, Settled t s) :
    Compilable t where
  entries s d found := by
    cases s with
    | main e => exact (mendable e).main d found
    | log e =>
      obtain ⟨m, target, main, produces⟩ := settled (.log e) d found
      exact ((mendable e).logger m target d main produces found).1
  producers s d target found produces := by
    cases s with
    | main e =>
      obtain ⟨l, log⟩ := settled (.main e) d target found produces
      obtain rfl := (mendable e).named d target found produces
      exact ⟨.log e, l, rfl, log, ((mendable e).logger d _ l found produces log).2.1⟩
    | log e =>
      obtain ⟨m, target', main, produces'⟩ := settled (.log e) d found
      have none := ((mendable e).logger m target' d main produces' found).2.2
      exact absurd (none.symm.trans produces) (Option.some_ne_none target).symm
  loggers e d found := by
    obtain ⟨m, target, main, produces⟩ := settled (.log e) d found
    obtain rfl := (mendable e).named m target main produces
    exact ⟨m, main, produces⟩

theorem pruneEntry_other (apart : s' ≠ s) : pruneEntry t s s' = t s' := by
  unfold pruneEntry
  cases found : t s with
  | none => rfl
  | some d =>
    cases s with
    | log e =>
      change (if _ then t else t.set (.log e) none) s' = t s'
      split
      · rfl
      · exact set_other apart none
    | main e =>
      cases produces : d.producerFor with
      | none => simp only [produces]
      | some target =>
        cases target with
        | none => simp only [produces]
        | some l =>
          simp only [produces]
          split
          · rfl
          · exact set_other apart _

theorem pruneEntry_log : pruneEntry t (.log e) (.log e) =
    if ((t (.main e)).bind Dir.producerFor).isSome then t (.log e) else none := by
  unfold pruneEntry
  cases found : t (.log e) with
  | none =>
    change t (.log e) = _
    rw [found]
    split <;> rfl
  | some d =>
    change (if _ then t else t.set (.log e) none) (.log e) = _
    split
    · exact found
    · exact set_self _ _ _

theorem pruneEntry_main {m : Dir Id} (main : t (.main e) = some m)
    (named : ∀ target, m.producerFor = some target → target = some (.log e)) :
    pruneEntry t (.main e) (.main e) =
      some (if (t (.log e)).isSome then m else m.without .producerFor) := by
  have same (none : m.producerFor = none) : m.without .producerFor = m := by
    cases m
    cases none
    rfl
  unfold pruneEntry
  rw [main]
  cases produces : m.producerFor with
  | none =>
    simp only [produces]
    rw [main, same produces]
    split <;> rfl
  | some target =>
    obtain rfl := named target produces
    simp only [produces]
    by_cases logger : (t (.log e)).isSome = true
    · rw [if_pos logger, if_pos logger, main]
    · rw [if_neg logger, if_neg logger]
      refine (set_self _ _ _).trans ?_
      rw [main]
      rfl

theorem pruneEntry_main_log : pruneEntry t (.main e) (.log e) = t (.log e) :=
  pruneEntry_other (by simp)

theorem pruneEntry_log_main : pruneEntry t (.log e) (.main e) = t (.main e) :=
  pruneEntry_other (by simp)

theorem pruneEntry_main_none (main : t (.main e) = none) : pruneEntry t (.main e) = t := by
  unfold pruneEntry
  rw [main]

omit [DecidableEq Id] in
theorem Mendable.congr {u : SourceTree Id} (h : Mendable t e) (main : u (.main e) = t (.main e))
    (log : u (.log e) = t (.log e)) : Mendable u e :=
  ⟨main ▸ h.main, main ▸ h.named, main ▸ log ▸ h.logger⟩

omit [DecidableEq Id] in
theorem mendable_of_unnamed {m : Dir Id} (main : t (.main e) = some m)
    (whole : m.standalone = true) (unnamed : m.producerFor = none) : Mendable t e where
  main m' found := Option.some.inj (main.symm.trans found) ▸ whole
  named m' target found produces := by
    obtain rfl := Option.some.inj (main.symm.trans found)
    exact absurd (unnamed.symm.trans produces) (Option.some_ne_none target).symm
  logger m' target l found produces _ := by
    obtain rfl := Option.some.inj (main.symm.trans found)
    exact absurd (unnamed.symm.trans produces) (Option.some_ne_none target).symm

omit [DecidableEq Id] in
theorem mendable_of_absent (main : t (.main e) = none) : Mendable t e where
  main m found := absurd (main.symm.trans found) (Option.some_ne_none m).symm
  named m _ found _ := absurd (main.symm.trans found) (Option.some_ne_none m).symm
  logger m _ _ found _ _ := absurd (main.symm.trans found) (Option.some_ne_none m).symm

theorem mendable_pruneEntry (h : Mendable t e) (s : Service Id) :
    Mendable (pruneEntry t s) e := by
  by_cases atMain : s = .main e
  · subst atMain
    cases main : t (.main e) with
    | none => rwa [pruneEntry_main_none main]
    | some m =>
      have turned := pruneEntry_main main fun target => h.named m target main
      by_cases logger : (t (.log e)).isSome = true
      · rw [if_pos logger] at turned
        exact h.congr (turned.trans main.symm) pruneEntry_main_log
      · rw [if_neg logger] at turned
        exact mendable_of_unnamed turned (h.main m main) rfl
  · have main : pruneEntry t s (.main e) = t (.main e) := pruneEntry_other fun eq => atMain eq.symm
    by_cases atLog : s = .log e
    · subst atLog
      refine ⟨main ▸ h.main, main ▸ h.named, fun m target l found produces log => ?_⟩
      rw [main] at found
      rw [pruneEntry_log, found] at log
      change (if m.producerFor.isSome then _ else _) = _ at log
      rw [produces] at log
      exact h.logger m target l found produces log
    · exact h.congr main (pruneEntry_other fun eq => atLog eq.symm)

theorem settled_turn (h : ∀ e, Mendable t e) (s : Service Id) : Settled (pruneEntry t s) s := by
  cases s with
  | main e =>
    intro m target found produces
    cases main : t (.main e) with
    | none =>
      rw [pruneEntry_main_none main, main] at found
      cases found
    | some m' =>
      rw [pruneEntry_main main fun target => (h e).named m' target main] at found
      rw [pruneEntry_main_log]
      by_cases logger : (t (.log e)).isSome = true
      · exact Option.isSome_iff_exists.mp logger
      · rw [if_neg logger] at found
        cases found
        cases produces
  | log e =>
    intro l found
    rw [pruneEntry_log] at found
    rw [pruneEntry_log_main]
    cases main : t (.main e) with
    | none =>
      rw [main] at found
      cases found
    | some m =>
      rw [main] at found
      change (if m.producerFor.isSome then _ else _) = _ at found
      cases produces : m.producerFor with
      | none =>
        rw [produces] at found
        cases found
      | some target => exact ⟨m, target, rfl, produces⟩

theorem settled_pruneEntry (h : ∀ e, Mendable t e) (settled : Settled t s) (s' : Service Id) :
    Settled (pruneEntry t s') s := by
  by_cases same : s' = s
  · exact same ▸ settled_turn h s
  cases s with
  | main e =>
    have main : pruneEntry t s' (.main e) = t (.main e) :=
      pruneEntry_other fun eq => same eq.symm
    intro m target found produces
    rw [main] at found
    obtain ⟨l, log⟩ := settled m target found produces
    by_cases atLog : s' = .log e
    · subst atLog
      rw [pruneEntry_log, found]
      change ∃ l, (if m.producerFor.isSome then _ else _) = _
      rw [produces]
      exact ⟨l, log⟩
    · rw [pruneEntry_other fun eq => atLog eq.symm]
      exact ⟨l, log⟩
  | log e =>
    have log : pruneEntry t s' (.log e) = t (.log e) :=
      pruneEntry_other fun eq => same eq.symm
    intro l found
    rw [log] at found
    obtain ⟨m, target, main, produces⟩ := settled l found
    by_cases atMain : s' = .main e
    · subst atMain
      rw [pruneEntry_main main fun target => (h e).named m target main, found]
      exact ⟨m, target, rfl, produces⟩
    · rw [pruneEntry_other fun eq => atMain eq.symm]
      exact ⟨m, target, main, produces⟩

theorem prune_settled (h : ∀ e, Mendable t e)
    (rest : ∀ s, s ∈ order ∨ Settled t s) :
    (∀ e, Mendable (prune order t) e) ∧ ∀ s, Settled (prune order t) s := by
  induction order generalizing t with
  | nil => exact ⟨h, fun s => (rest s).resolve_left List.not_mem_nil⟩
  | cons s order ih =>
    refine ih (fun e => mendable_pruneEntry (h e) s) fun s' => ?_
    cases rest s' with
    | inl listed =>
      cases List.mem_cons.mp listed with
      | inl head => exact .inr (head ▸ settled_turn h s)
      | inr later => exact .inl later
    | inr settled => exact .inr (settled_pruneEntry h settled s)

theorem prune_mendable (h : ∀ e, Mendable t e) (e : Id) : Mendable (prune order t) e := by
  induction order generalizing t with
  | nil => exact h e
  | cons s order ih => exact ih fun e => mendable_pruneEntry (h e) s

def Lists (order : List (Service Id)) (t : SourceTree Id) : Prop := ∀ s d, t s = some d → s ∈ order

theorem prune_compilable (h : ∀ e, Mendable t e) (lists : Lists order t) :
    Compilable (prune order t) := by
  obtain ⟨mendable, settled⟩ := @prune_settled _ _ t order h fun s => by
    by_cases listed : s ∈ order
    · exact .inl listed
    · refine .inr ?_
      cases s with
      | main e => exact fun m _ found _ => absurd (lists _ m found) listed
      | log e => exact fun l found => absurd (lists _ l found) listed
  exact compilable_of_settled mendable settled

/-- The main directory names its logger, and the logger exists. -/
structure Paired (t : SourceTree Id) (e : Id) : Prop where
  main : ∃ m, t (.main e) = some m ∧ m.producerFor = some (some (.log e))
  log : ∃ l, t (.log e) = some l

theorem pruneEntry_paired (h : Paired t e) (s : Service Id) :
    pruneEntry t s (.main e) = t (.main e) ∧ pruneEntry t s (.log e) = t (.log e) := by
  obtain ⟨⟨m, main, produces⟩, l, log⟩ := h
  constructor
  · by_cases atMain : s = .main e
    · subst atMain
      rw [pruneEntry_main main fun target eq => Option.some.inj (eq.symm.trans produces), log, main]
      rfl
    · exact pruneEntry_other fun eq => atMain eq.symm
  · by_cases atLog : s = .log e
    · subst atLog
      rw [pruneEntry_log, main]
      change (if m.producerFor.isSome then _ else _) = _
      rw [produces]
      rfl
    · exact pruneEntry_other fun eq => atLog eq.symm

theorem prune_paired (h : Paired t e) :
    prune order t (.main e) = t (.main e) ∧ prune order t (.log e) = t (.log e) := by
  induction order generalizing t with
  | nil => exact ⟨rfl, rfl⟩
  | cons s order ih =>
    obtain ⟨main, log⟩ := pruneEntry_paired h s
    have still : Paired (pruneEntry t s) e := ⟨main ▸ h.main, log ▸ h.log⟩
    exact ⟨(ih still).1.trans main, (ih still).2.trans log⟩

omit [DecidableEq Id] in
theorem Intact.paired (h : Intact t e) : Paired t e := by
  obtain ⟨⟨m, main, _, produces⟩, l, log, _⟩ := h
  exact ⟨⟨m, main, produces⟩, l, log⟩

end Prune

/-! ### The calls -/

section Calls
variable {e : Id} {s : Service Id} {t u : SourceTree Id} {d : Dir Id}

def serial : Discipline (perform : Device (fsSig Id) Listing (SourceTree Id)) :=
  sequential (fun _ => True) (fun _ _ => True) fun _ _ => trivial

theorem stable_serial (P : SourceTree Id → Prop) : Stable serial P := stable_sequential P

theorem spec_call {op : FsOp Id} {P : SourceTree Id → Prop} {Q : op.Answer → SourceTree Id → Prop}
    (h : ∀ t, P t → ∀ i, Q (perform op i t).1 (perform op i t).2) :
    Spec serial P (call op) Q :=
  spec_ask (S := fsSig Id) (stable_serial _) (fun _ => stable_serial _) fun t _ held =>
    ⟨trivial, h t held⟩

theorem spec_still {α : Type} {a : α} {P : SourceTree Id → Prop} {Q : α → SourceTree Id → Prop}
    (h : ∀ t, P t → Q a t) : Spec serial P (pure a) Q :=
  spec_pure (stable_serial _) fun t _ => h t

theorem revise_set (t : SourceTree Id) (s : Service Id) (d : Dir Id) (f : Dir Id → Dir Id) :
    (t.set s (some d)).revise s f = t.set s (some (f d)) := by
  unfold SourceTree.revise
  rw [set_self]
  exact Function.update_idem _ _ _

structure Plain (d : Dir Id) : Prop where
  whole : d.standalone = true
  producerFor : d.producerFor = none
  consumerFor : d.consumerFor = none

/-- The tree `t` with a plain directory at `s`. -/
def Filled (t : SourceTree Id) (s : Service Id) (u : SourceTree Id) : Prop :=
  ∃ d, Plain d ∧ u = t.set s (some d)

theorem spec_create (entry : Entry) (d : Dir Id) :
    Spec serial (fun u => u = t.set s (some d)) (call (.create s entry))
      (fun _ u => u = t.set s (some (d.create entry))) := by
  refine spec_call ?_
  rintro u rfl i
  exact revise_set t s d _

theorem spec_write (content : Content Id) (d : Dir Id) :
    Spec serial (fun u => u = t.set s (some d)) (call (.write s content))
      (fun _ u => u = t.set s (some (d.write content))) := by
  refine spec_call ?_
  rintro u rfl i
  exact revise_set t s d _

theorem spec_writeText (content : Content Id) (d : Dir Id) :
    Spec serial (fun u => u = t.set s (some d)) (writeText s content)
      (fun _ u => u = t.set s (some ((d.create content.entry).write content))) :=
  (spec_create _ d).bind fun _ => spec_write content _

theorem spec_fillLongrun (runScript : String) (dependsOn : List String) :
    Spec serial (fun u => u = t.set s (some .empty)) (fillLongrun s runScript dependsOn)
      (fun _ => Filled t s) := by
  refine (spec_writeText _ _).bind fun _ => (spec_writeText _ _).bind fun _ => ?_
  refine (spec_create _ _).bind fun _ => ?_
  refine Spec.bind (Q := fun _ => Filled t s) ?_ fun _ => spec_still fun u held => held
  refine (spec_forEach_keeps (stable_serial (Filled t s)) dependsOn fun dep _ => ?_).pre ?_
  · refine spec_call ?_
    rintro u ⟨d, plain, rfl⟩ i
    refine ⟨d.touch dep, ⟨?_, plain.producerFor, plain.consumerFor⟩, revise_set _ _ _ _⟩
    have whole := plain.whole
    unfold Dir.standalone Dir.touch at *
    rwa [Option.isSome_map]
  · rintro u _ rfl
    exact ⟨_, ⟨rfl, rfl, rfl⟩, rfl⟩

theorem spec_emitLongrun {runScript : String} {dependsOn : List String}
    {next : Script Id PUnit} {Q : SourceTree Id → Prop} (there : t s ≠ none → Q t)
    (filled : Spec serial (Filled t s) next (fun _ => Q)) :
    Spec serial (fun u => u = t) (emitLongrun s runScript dependsOn next) (fun _ => Q) := by
  unfold emitLongrun
  refine Spec.bind (Q := fun (fresh : Bool) u =>
    if fresh then u = t.set s (some .empty) else u = t ∧ t s ≠ none) (spec_call ?_) fun fresh => ?_
  · rintro u rfl i
    change if (u.mkdir s).1 then (u.mkdir s).2 = _ else (u.mkdir s).2 = u ∧ _
    unfold SourceTree.mkdir
    by_cases taken : (u s).isSome = true
    · simp only [taken, if_true, Bool.false_eq_true, if_false, true_and]
      exact Option.isSome_iff_ne_none.mp taken
    · simp only [taken, Bool.false_eq_true, if_false, if_true]
  · refine spec_ite (fun yes => ?_) fun no => ?_
    · refine ((spec_fillLongrun runScript dependsOn).bind fun _ => filled).pre fun u _ held => ?_
      rwa [if_pos yes] at held
    · refine spec_still fun u held => ?_
      rw [if_neg no] at held
      obtain ⟨rfl, taken⟩ := held
      exact there taken

omit [DecidableEq Id] in
theorem mendable_all {e : Id} (h : ∀ e, Mendable t e)
    (outside : ∀ s : Service Id, s.engagement ≠ e → u s = t s) (own : Mendable u e) (e' : Id) :
    Mendable u e' := by
  by_cases same : e' = e
  · exact same ▸ own
  · exact (h e').congr (outside (.main e') same) (outside (.log e') same)

theorem outside_set {s s' : Service Id} (apart : s'.engagement ≠ s.engagement)
    (d : Option (Dir Id)) : t.set s d s' = t s' :=
  set_other (fun same => apart (congrArg Service.engagement same)) d

theorem mendable_filled (h : ∀ e, Mendable t e) (plain : Plain d) (e' : Id) :
    Mendable (t.set (.main e) (some d)) e' :=
  mendable_all h (fun _ apart => outside_set apart _)
    (mendable_of_unnamed (set_self _ _ _) plain.whole plain.producerFor) e'

theorem mendable_pair {l : Dir Id} (h : ∀ e, Mendable t e) (plain : Plain d) (plainL : Plain l)
    (e' : Id) : Mendable ((t.set (.log e) (some (l.write (.consumerFor (.main e))))).set (.main e)
      (some (d.write (.producerFor (.log e))))) e' := by
  refine mendable_all (e := e) h (fun s apart => ?_) ?_ e'
  · rw [outside_set apart, outside_set apart]
  have main : ((t.set (.log e) (some (l.write (.consumerFor (.main e))))).set (.main e)
      (some (d.write (.producerFor (.log e))))) (.main e) =
        some (d.write (.producerFor (.log e))) := set_self _ _ _
  have log : ((t.set (.log e) (some (l.write (.consumerFor (.main e))))).set (.main e)
      (some (d.write (.producerFor (.log e))))) (.log e) =
        some (l.write (.consumerFor (.main e))) :=
    (set_other (by simp) _).trans (set_self _ _ _)
  refine ⟨fun m found => ?_, fun m target found produces => ?_,
    fun m target l' found _ logger => ?_⟩
  · obtain rfl := Option.some.inj (main.symm.trans found)
    exact plain.whole
  · obtain rfl := Option.some.inj (main.symm.trans found)
    exact (Option.some.inj produces).symm
  · obtain rfl := Option.some.inj (log.symm.trans logger)
    exact ⟨plainL.whole, rfl, plainL.producerFor⟩

theorem spec_writeServiceDir (runScript : String) (dependsOn : List String)
    (logRunScript : Option String) (h : ∀ e, Mendable t e) :
    Spec serial (fun u => u = t) (writeServiceDir e runScript dependsOn logRunScript)
      (fun _ u => ∀ e, Mendable u e) := by
  refine spec_emitLongrun (fun _ => h) (spec_each ?_)
  rintro _ _ ⟨d, plain, rfl⟩
  cases logRunScript with
  | none => exact spec_still fun u held => held ▸ mendable_filled h plain
  | some script =>
    refine spec_emitLongrun (fun _ => mendable_filled h plain) (spec_each ?_)
    rintro _ _ ⟨l, plainL, rfl⟩
    refine (spec_writeText _ l).bind fun _ => ?_
    have moved : (t.set (.main e) (some d)).set (.log e) (some (l.write (.consumerFor (.main e)))) =
        (t.set (.log e) (some (l.write (.consumerFor (.main e))))).set (.main e) (some d) :=
      Function.update_comm (by simp) _ _ _
    refine ((spec_writeText _ d).pre fun u _ held => held.trans moved).post fun _ u _ held => ?_
    have pair : u = (t.set (.log e) (some (l.write (.consumerFor (.main e))))).set (.main e)
      (some (d.write (.producerFor (.log e)))) := held
    rw [pair]
    exact mendable_pair h plain plainL

/-! Removing a directory removes it, in whatever order it is listed. -/

/-- The directory `s` is all that has moved. -/
def Around (t : SourceTree Id) (s : Service Id) (P : Option (Dir Id) → Prop) (u : SourceTree Id) : Prop :=
  P (u s) ∧ ∀ s', s' ≠ s → u s' = t s'

theorem Around.revise {P P' : Option (Dir Id) → Prop} {f : Dir Id → Dir Id}
    (h : Around t s P u) (turns : ∀ d, P d → P' (d.map f)) : Around t s P' (u.revise s f) := by
  refine ⟨?_, fun s' apart => (set_other apart _).trans (h.2 s' apart)⟩
  unfold SourceTree.revise
  rw [set_self]
  exact turns _ h.1

def Holds (rest : List Entry) (d : Option (Dir Id)) : Prop :=
  ∃ dir, d = some dir ∧ ∀ entry, dir.has entry = true → entry ∈ rest

/-- The same while `dependencies.d` is emptied. -/
def HoldsNames (rest : List Entry) (names : List String) (d : Option (Dir Id)) : Prop :=
  ∃ dir, d = some dir ∧ (∀ entry, dir.has entry = true → entry ∈ Entry.dependencies :: rest) ∧
    ∀ deps, dir.dependencies = some deps → ∀ dep ∈ deps, dep ∈ names

omit [DecidableEq Id] in
theorem holds_without {rest : List Entry} {entry : Entry} {d : Option (Dir Id)}
    (h : Holds (entry :: rest) d) : Holds rest (d.map (·.without entry)) := by
  obtain ⟨dir, rfl, held⟩ := h
  refine ⟨dir.without entry, rfl, fun entry' has => ?_⟩
  have both : dir.has entry' = true ∧ entry' ≠ entry := by
    cases entry <;> cases entry' <;> simp_all [Dir.has, Dir.without]
  exact (List.mem_cons.mp (held entry' both.1)).resolve_left both.2

omit [DecidableEq Id] in
theorem holdsNames_unlink {rest : List Entry} {name : String} {names : List String}
    {d : Option (Dir Id)} (h : HoldsNames rest (name :: names) d) :
    HoldsNames rest names (d.map (·.unlinkDependency name)) := by
  obtain ⟨dir, rfl, held, deps⟩ := h
  refine ⟨dir.unlinkDependency name, rfl, fun entry has => held entry ?_,
    fun more same dep mem => ?_⟩
  · cases entry <;> simpa [Dir.has, Dir.unlinkDependency] using has
  · cases old : dir.dependencies with
    | none =>
      rw [Dir.unlinkDependency, old] at same
      cases same
    | some all =>
      rw [Dir.unlinkDependency, old] at same
      cases same
      obtain ⟨kept, apart⟩ := List.mem_filter.mp mem
      exact (List.mem_cons.mp (deps all old dep kept)).resolve_left (of_decide_eq_true apart)

omit [DecidableEq Id] in
theorem holds_rmdirDependencies {rest : List Entry} {d : Option (Dir Id)}
    (h : HoldsNames rest [] d) : Holds rest (d.map Dir.rmdirDependencies) := by
  obtain ⟨dir, rfl, held, deps⟩ := h
  refine ⟨dir.rmdirDependencies, rfl, fun entry has => ?_⟩
  have gone : dir.rmdirDependencies.dependencies = none := by
    unfold Dir.rmdirDependencies
    cases old : dir.dependencies with
    | none => rw [if_neg nofun, old]
    | some all =>
      have empty : all = [] := List.eq_nil_iff_forall_not_mem.mpr fun dep mem =>
        List.not_mem_nil (deps all old dep mem)
      rw [empty, if_pos rfl]
  have both : dir.has entry = true ∧ entry ≠ .dependencies := by
    have same : entry ≠ .dependencies → dir.rmdirDependencies.has entry = dir.has entry := by
      intro other
      unfold Dir.rmdirDependencies
      split
      · cases entry <;> first | rfl | exact absurd rfl other
      · rfl
    have other : entry ≠ .dependencies := by
      rintro rfl
      rw [Dir.has, gone] at has
      cases has
    exact ⟨same other ▸ has, other⟩
  exact (List.mem_cons.mp (held entry both.1)).resolve_left both.2

theorem mem_arrange {α : Type} [DecidableEq α] {order items : List α} {a : α} :
    a ∈ arrange order items ↔ a ∈ items := by
  unfold arrange
  by_cases listed : a ∈ order <;> simp [listed]

theorem spec_removeEntry (entry : Entry) (rest : List Entry) :
    Spec serial (Around t s (Holds (entry :: rest))) (removeEntry s entry)
      (fun _ => Around t s (Holds rest)) := by
  cases entry with
  | dependencies =>
    refine Spec.bind (Q := fun (deps : List String) => Around t s (HoldsNames rest deps))
      (spec_call fun u held i => ?_) fun deps => ?_
    · obtain ⟨⟨dir, found, listed⟩, others⟩ := held
      refine ⟨⟨dir, found, listed, fun all same dep mem => mem_arrange.mpr ?_⟩, others⟩
      rw [found, Option.bind_some, same]
      exact mem
    · have each (name : String) (names : List String) :
          Spec serial (Around t s (HoldsNames rest (name :: names)))
            (call (.unlinkDependency s name)) (fun _ => Around t s (HoldsNames rest names)) :=
        spec_call fun u held i => held.revise fun d h => holdsNames_unlink h
      have last : Spec serial (Around t s (HoldsNames rest [])) (call (.rmdirDependencies s))
          (fun _ => Around t s (Holds rest)) :=
        spec_call fun u held i => held.revise fun d h => holds_rmdirDependencies h
      exact (spec_forEach_rest (fun names _ => Around t s (HoldsNames rest names)) deps
        (fun _ _ => stable_serial _) fun name names _ _ => each name names).bind fun _ => last
  | type => exact spec_call fun u held i => held.revise fun d h => holds_without h
  | run => exact spec_call fun u held i => held.revise fun d h => holds_without h
  | producerFor => exact spec_call fun u held i => held.revise fun d h => holds_without h
  | consumerFor => exact spec_call fun u held i => held.revise fun d h => holds_without h

theorem spec_rmtree (found : t s = some d) :
    Spec serial (fun u => u = t) (rmtree s) (fun _ => Around t s (· = none)) := by
  refine Spec.bind (Q := fun (entries : List Entry) => Around t s (Holds entries))
    (spec_call ?_) fun entries => ?_
  · rintro u rfl i
    refine ⟨⟨d, found, fun entry has => mem_arrange.mpr ?_⟩, fun _ _ => rfl⟩
    rw [found]
    refine List.mem_filter.mpr ⟨?_, has⟩
    cases entry <;> decide
  refine (spec_forEach_rest (fun rest _ => Around t s (Holds rest)) entries
    (fun _ _ => stable_serial _) fun entry rest _ _ => spec_removeEntry entry rest).bind fun _ => ?_
  refine spec_call fun u held i => ?_
  obtain ⟨⟨dir, here, listed⟩, others⟩ := held
  have empty : dir.entries = [] :=
    List.filter_eq_nil_iff.mpr fun entry _ has => List.not_mem_nil (listed entry has)
  change Around t s (· = none) (u.rmdir s)
  unfold SourceTree.rmdir
  rw [here, if_pos (by rw [Option.map_some, empty]; rfl)]
  exact ⟨set_self _ _ _, fun s' apart => (set_other apart _).trans (others s' apart)⟩

theorem spec_removeDir :
    Spec serial (fun u => u = t) (removeDir s) (fun _ => Around t s (· = none)) := by
  refine Spec.bind (Q := fun (found : Bool) u => u = t ∧ found = (t s).isSome) (spec_call ?_)
    fun found => ?_
  · rintro u rfl i
    exact ⟨rfl, rfl⟩
  refine spec_ite (fun yes => ?_) fun no => ?_
  · intro u inv held
    obtain ⟨d, here⟩ := Option.isSome_iff_exists.mp (held.2.symm.trans yes)
    exact spec_rmtree here u inv held.1
  · refine spec_still fun u held => ?_
    obtain ⟨rfl, same⟩ := held
    exact ⟨Option.not_isSome_iff_eq_none.mp fun some => no (same.trans some), fun _ _ => rfl⟩

theorem spec_removeServiceDir (h : ∀ e, Mendable t e) :
    Spec serial (fun u => u = t) (removeServiceDir e) (fun _ u => ∀ e, Mendable u e) := by
  refine spec_removeDir.bind fun _ => spec_each fun v _ logger => ?_
  refine (spec_removeDir (t := v)).post fun _ u _ main => ?_
  refine mendable_all (e := e) h (fun s apart => ?_) (mendable_of_absent main.1)
  have first : v s = t s := logger.2 s fun same => apart (same ▸ rfl)
  exact (main.2 s fun same => apart (same ▸ rfl)).trans first

theorem spec_call_script (asked : Call Id) (h : ∀ e, Mendable t e) :
    Spec serial (fun u => u = t) asked.script (fun _ u => ∀ e, Mendable u e) := by
  cases asked with
  | write e runScript dependsOn logRunScript => exact spec_writeServiceDir _ _ _ h
  | remove e => exact spec_removeServiceDir h
  | prune order =>
    refine spec_call ?_
    rintro u rfl i
    exact prune_mendable h

end Calls

/-! ### Runs -/

section Runs
variable {c d : Config (fsSig Id) (SourceTree Id) (Call Id)} {ls : List (Label PEmpty (Call Id) Listing)}

def careful : Label PEmpty (Call Id) Listing → Config (fsSig Id) (SourceTree Id) (Call Id) → Prop
  | .crash, c => ∀ e, Mendable c.state e
  | _, _ => True

def spotless (Id : Type) [DecidableEq Id] : Host (fsSig Id) Listing (SourceTree Id) PEmpty (Call Id) :=
  { sources Id with crash := fun _ _ => none }

theorem spotless_lawful : Lawful (spotless Id) serial (fun t => ∀ e, Mendable t e)
    (fun _ _ => True) where
  stable := stable_serial _
  env e := e.elim
  program asked := spec_each fun _ _ held => spec_call_script asked held.1
  crash _ _ := ⟨trivial, fun _ => mendable_of_absent rfl⟩

theorem step_spotless {l : Label PEmpty (Call Id) Listing} (spared : l ≠ .crash) :
    (sources Id).step l c = (spotless Id).step l c := by
  obtain ⟨t, running⟩ := c
  cases l with
  | env e => exact e.elim
  | crash => exact absurd rfl spared
  | start asked => cases running <;> rfl
  | finish =>
    cases running with
    | none => rfl
    | some held =>
      obtain ⟨asked, p⟩ := held
      cases p <;> rfl
  | advance i =>
    cases running with
    | none => rfl
    | some held =>
      obtain ⟨asked, p⟩ := held
      cases p <;> rfl

abbrev Sound (c : Config (fsSig Id) (SourceTree Id) (Call Id)) : Prop :=
  Guarded (m := spotless Id) serial (fun t => ∀ e, Mendable t e) c

theorem sound_of_runs (run : Runs (sources Id).step careful c ls d) (h : Sound c) : Sound d := by
  refine run.invariant (I := Sound) (fun l c ok held => ?_) h
  by_cases crash : l = .crash
  · subst crash
    exact ⟨trivial, fun _ => ok, nofun⟩
  · rw [step_spotless crash]
    exact Guarded.step spotless_lawful held l fun _ _ _ => trivial

theorem sound_start : Sound (start : Config (fsSig Id) (SourceTree Id) (Call Id)) :=
  ⟨trivial, fun _ _ => mendable_of_absent rfl, nofun⟩

/-- With no half directory at any crash, one prune makes the sources compilable, in whatever order
they are listed, and leaves every intact pair alone. -/
theorem sources_repaired (run : Runs (sources Id).step careful start ls d)
    (idle : d.running = none) (order : List (Service Id)) (lists : Lists order d.state) :
    Compilable (prune order d.state) ∧ ∀ e, Intact d.state e →
      prune order d.state (.main e) = d.state (.main e) ∧
        prune order d.state (.log e) = d.state (.log e) :=
  ⟨prune_compilable ((sound_of_runs run sound_start).idle idle) lists,
    fun _ intact => prune_paired intact.paired⟩

end Runs

/-! ### Two engagements -/

def advances (n : ℕ) : List (Label PEmpty (Call Bool) Listing) :=
  List.replicate n (.advance ⟨[], []⟩)

def writeCall : Call Bool := .write true "exec" ["base"] (some "s6-log")

def half : Config (fsSig Bool) (SourceTree Bool) (Call Bool) :=
  (.start writeCall :: advances 9).foldl (fun c l => (sources Bool).step l c) start

def halfCrash : Config (fsSig Bool) (SourceTree Bool) (Call Bool) := (sources Bool).step .crash half

theorem half_mendable (e : Bool) : Mendable half.state e := by
  cases e with
  | true => exact mendable_of_unnamed rfl rfl rfl
  | false => exact mendable_of_absent rfl

theorem half_run : Runs (sources Bool).step careful start
    ((.start writeCall :: advances 9) ++ [.crash]) halfCrash := by
  have calls : Runs (sources Bool).step careful start (.start writeCall :: advances 9) half :=
    Runs.foldl (fun l mem _ => by
      cases List.mem_cons.mp mem with
      | inl head => exact head ▸ trivial
      | inr later => exact (List.eq_of_mem_replicate later) ▸ trivial) _
  exact calls.append (.cons half_mendable (.nil _))

theorem half_lists : Lists [.log true, .main true] halfCrash.state := by
  rintro (e | e) d found <;> cases e
  · cases found
  · exact List.mem_cons_of_mem _ List.mem_cons_self
  · cases found
  · exact List.mem_cons_self

theorem half_repaired : Compilable (prune [.log true, .main true] halfCrash.state) ∧
    ∀ e, Intact halfCrash.state e →
      prune [.log true, .main true] halfCrash.state (.main e) = halfCrash.state (.main e) ∧
        prune [.log true, .main true] halfCrash.state (.log e) = halfCrash.state (.log e) :=
  sources_repaired half_run rfl _ half_lists

def tornRun : List (Label PEmpty (Call Bool) Listing) :=
  [.start writeCall, .advance ⟨[], []⟩, .crash]

def torn : Config (fsSig Bool) (SourceTree Bool) (Call Bool) :=
  tornRun.foldl (fun c l => (sources Bool).step l c) start

/-- The empty directory stays, and no compile succeeds. -/
theorem torn_stays : Runs (sources Bool).step (fun _ _ => True) start tornRun torn ∧
    torn.running = none ∧ Lists [.main true] torn.state ∧
      ¬ Compilable (prune [.main true] torn.state) := by
  refine ⟨Runs.foldl (fun _ _ _ => trivial) _, rfl, ?_, fun compilable => ?_⟩
  · rintro (e | e) d found <;> cases e <;> first | exact List.mem_cons_self | cases found
  · have whole := compilable.entries (.main true) .empty rfl
    cases whole

end Casa.SourceRepair
