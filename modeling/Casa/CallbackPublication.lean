import Casa.CallbackRouting

/-! The second half of the marker pass and the pass as a whole: whatever was on disk and whichever
writes fail, each plugin ends with its desired markers or with none. A pass with no failed write is
repeated without a deletion or a write, unless a payload is longer than the reader takes. -/

namespace Casa.CallbackPublication
open KeyedTable OperationTree FallibleTree CallbackMarkers CallbackReadiness CallbackRouting

variable {Key : Type} [DecidableEq Key] (sys : Platform Key)

/-- Every marker on disk is the desired one of a plugin that is routed. -/
structure Consistent (desired : DesiredCallbacks) (s : State Key) : Prop where
  ready : ∀ plugin e, pluginDir plugin = true → entryAt s.ready plugin = some e →
    ∃ r ∈ desired.routed, ∃ b, desired.base = some b ∧ r.plugin = plugin ∧
      e = .file (canonicalMarkerBytes (readyPayload sys b r))
  index : ∀ key e, entryAt s.index key = some e →
    ∃ r ∈ desired.routed, ∃ b, desired.base = some b ∧ r.path ≠ "" ∧ sys.indexKey r.path = key ∧
      e = .file (canonicalMarkerBytes (indexPayload sys b r))

def Readable (b : String) (r : RoutedCallbacks) : Prop :=
  (canonicalMarkerBytes (readyPayload sys b r)).size ≤ markerStateMaxBytes ∧
    (r.path ≠ "" → (canonicalMarkerBytes (indexPayload sys b r)).size ≤ markerStateMaxBytes)

def publishes : MarkerOp Key → Option String
  | .ensurePluginDirs plugin => some plugin
  | .writeReady plugin _ => some plugin
  | .writeIndexEntry _ payload => payload.pluginDir
  | _ => none

def swaps : MarkerOp Key → Bool
  | .replaceCallbackOverlay _ => true
  | _ => false

/-- From the swap on the markers agree with the overlay, and writes come only then, for a plugin
that the overlay routes. -/
structure Licensed (desired : DesiredCallbacks) (op : MarkerOp Key) (s : State Key) : Prop where
  consistent : s.swapped = true ∨ swaps op = true → Consistent sys desired s
  live : ∀ plugin, publishes op = some plugin → s.swapped = true ∧ s.live = desired.overlay ∧
    ∃ r ∈ desired.routed, r.plugin = plugin ∧ Routes s.live r

section PostSwap
variable {sys} {desired : DesiredCallbacks} {b : String} {q r : RoutedCallbacks} {s t u : State Key}

omit [DecidableEq Key] in
theorem swaps_of_soon {op : MarkerOp Key} (soon : late op = false) : swaps op = false := by
  cases op <;> first | rfl | cases soon

omit [DecidableEq Key] in
theorem publishes_of_soon {op : MarkerOp Key} (soon : late op = false) : publishes op = none := by
  cases op <;> first | rfl | cases soon

theorem licensed_early (op : MarkerOp Key) (s : State Key) (soon : late op = false)
    (early : s.swapped = false) : Licensed sys desired op s where
  consistent h := by
    cases h with
    | inl swapped => exact absurd (early.symm.trans swapped) Bool.false_ne_true
    | inr swaps => exact absurd ((swaps_of_soon soon).symm.trans swaps) Bool.false_ne_true
  live plugin loud :=
    absurd ((publishes_of_soon soon).symm.trans loud) (Option.some_ne_none plugin).symm

theorem consistent_of_settled (routing : Routing sys desired) (swept : Swept sys desired s)
    (settled : ∀ r ∈ (routedByPlugin desired).rows,
      Whole sys (desired.base.getD "") r s ∨ Gone sys r s) : Consistent sys desired s where
  ready p e dir found := by
    obtain ⟨r, mem, rfl⟩ := List.mem_map.mp (swept.ready p dir (found ▸ Option.some_ne_none e))
    obtain ⟨⟨b, base⟩, routed⟩ := (mem_routedByPlugin routing).mp mem
    refine ⟨r, routed, b, base, rfl, ?_⟩
    cases settled r mem with
    | inl whole =>
      have body := whole.ready
      rw [base] at body
      exact Option.some.inj (found.symm.trans body)
    | inr gone => exact absurd (found.symm.trans (gone.ready dir)) (Option.some_ne_none e)
  index k e found := by
    obtain ⟨⟨b, base⟩, r, routed, path, key⟩ :=
      mem_desiredKeys.mp (swept.index k (found ▸ Option.some_ne_none e))
    subst key
    refine ⟨r, routed, b, base, path, rfl, ?_⟩
    cases settled r ((mem_routedByPlugin routing).mpr ⟨⟨b, base⟩, routed⟩) with
    | inl whole =>
      have body := whole.index path
      rw [base] at body
      exact Option.some.inj (found.symm.trans body)
    | inr gone => exact absurd (found.symm.trans (gone.index path)) (Option.some_ne_none e)

theorem Consistent.step (h : Consistent sys desired s) (base : desired.base = some b)
    (mem : r ∈ desired.routed) (only : Only sys r s t)
    (ready : pluginDir r.plugin = true → ∀ e, entryAt t.ready r.plugin = some e →
      entryAt s.ready r.plugin = some e ∨ e = .file (canonicalMarkerBytes (readyPayload sys b r)))
    (index : r.path ≠ "" → ∀ e, entryAt t.index (sys.indexKey r.path) = some e →
      entryAt s.index (sys.indexKey r.path) = some e ∨
        e = .file (canonicalMarkerBytes (indexPayload sys b r))) : Consistent sys desired t where
  ready p e dir found := by
    by_cases same : r.plugin = p
    · subst same
      exact (ready dir e found).elim (h.ready _ e dir) fun eq => ⟨r, mem, b, base, rfl, eq⟩
    · exact h.ready p e dir ((only.ready p same).symm.trans found)
  index k e found := by
    by_cases own : r.path ≠ "" ∧ sys.indexKey r.path = k
    · obtain ⟨path, rfl⟩ := own
      exact (index path e found).elim (h.index _ e) fun eq => ⟨r, mem, b, base, path, rfl, eq⟩
    · exact h.index k e ((only.index k fun path same => own ⟨path, same⟩).symm.trans found)

variable (sys desired) in
/-- The publication of a plugin under way, from the state `s`. -/
structure Writing (r : RoutedCallbacks) (s t : State Key) : Prop where
  only : Only sys r s t
  consistent : Consistent sys desired t
  failed : s.failed = true → t.failed = true

variable (sys desired) in
/-- A step of it has succeeded with the fact `done`, or a write has failed. -/
structure Wrote (r : RoutedCallbacks) (s : State Key) (done : State Key → Prop) (ok : Bool)
    (t : State Key) : Prop where
  writing : Writing sys desired r s t
  done : ok = true → done t
  lost : ok = false → t.failed = true

theorem spec_after {op : MarkerOp Key} {P : State Key → Prop} {Q : op.Answer → State Key → Prop}
    (silent : publishes op = none) (consistent : ∀ t, P t → Consistent sys desired t)
    (h : ∀ t, P t → ∀ fails, Q (perform sys op fails t).1 (perform sys op fails t).2) :
    Spec (passes sys (Licensed sys desired)) P (call op) Q :=
  spec_call fun t held => ⟨⟨fun _ => consistent t held, fun plugin loud =>
    absurd (silent.symm.trans loud) (Option.some_ne_none plugin).symm⟩, h t held⟩

theorem spec_guarded {attempt : MarkerProg Key Bool} {P : State Key → Prop}
    {Q : Bool → State Key → Prop}
    (h : Spec (passes sys (Licensed sys desired)) P attempt Q)
    (consistent : ∀ ok t, Q ok t → Consistent sys desired t)
    (deaf : ∀ ok t issues, Q ok t → Q ok { t with issues := issues }) :
    Spec (passes sys (Licensed sys desired)) P (guarded r attempt) Q := by
  refine h.bind fun ok => ?_
  refine Spec.bind (Q := fun _ => Q ok) ?_ fun _ => spec_still fun t held => held
  unfold reportUnless
  refine spec_ite (fun _ => spec_still fun t held => held) fun _ => ?_
  exact spec_after rfl (consistent ok) fun t held _ => deaf ok t _ held

theorem Writing.deaf (h : Writing sys desired r s t) (issues : List PluginIssue) :
    Writing sys desired r s { t with issues := issues } :=
  ⟨⟨h.only.ready, h.only.index, h.only.live, h.only.swapped⟩,
    ⟨h.consistent.ready, h.consistent.index⟩, h.failed⟩

theorem Wrote.deaf {done : State Key → Prop} {ok : Bool} (h : Wrote sys desired r s done ok t)
    (same : ∀ t issues, done t → done { t with issues := issues }) (issues : List PluginIssue) :
    Wrote sys desired r s done ok { t with issues := issues } :=
  ⟨h.writing.deaf issues, fun yes => same t issues (h.done yes), h.lost⟩

theorem Wrote.skip {done done' : State Key → Prop} (h : Wrote sys desired r s done false t) :
    Wrote sys desired r s done' false t :=
  ⟨h.writing, fun yes => absurd yes Bool.false_ne_true, h.lost⟩

theorem Writing.fails {done : State Key → Prop} (h : Writing sys desired r s t) :
    Wrote sys desired r s done false t.fail.touch where
  writing := ⟨⟨h.only.ready, h.only.index, h.only.live, h.only.swapped⟩,
    ⟨h.consistent.ready, h.consistent.index⟩, fun _ => rfl⟩
  done yes := absurd yes Bool.false_ne_true
  lost _ := rfl

theorem Writing.dirs (h : Writing sys desired r s t) (fails : Bool) :
    Wrote sys desired r s (fun _ => pluginDir r.plugin = true)
      (t.ensurePluginDirs fails r.plugin).1 (t.ensurePluginDirs fails r.plugin).2 := by
  unfold State.ensurePluginDirs
  by_cases lost : (fails || !pluginDir r.plugin) = true
  · rw [if_pos lost]
    exact h.fails
  · rw [if_neg lost]
    have dir : pluginDir r.plugin = true := by
      simp only [Bool.or_eq_true, Bool.not_eq_true', not_or] at lost
      exact eq_true_of_ne_false lost.2
    exact ⟨⟨⟨h.only.ready, h.only.index, h.only.live, h.only.swapped⟩,
      ⟨h.consistent.ready, h.consistent.index⟩, h.failed⟩, fun _ => dir, nofun⟩

variable (sys) in
structure HasReady (b : String) (r : RoutedCallbacks) (t : State Key) : Prop where
  dir : pluginDir r.plugin = true
  ready : entryAt t.ready r.plugin = some (.file (canonicalMarkerBytes (readyPayload sys b r)))

section
variable (h : Writing sys desired r s t) (base : desired.base = some b) (mem : r ∈ desired.routed)
include h base mem

theorem Writing.ready (dir : pluginDir r.plugin = true) (fails : Bool) :
    Wrote sys desired r s (HasReady sys b r)
      (t.writeReady fails r.plugin (readyPayload sys b r)).1
      (t.writeReady fails r.plugin (readyPayload sys b r)).2 := by
  unfold State.writeReady
  by_cases lost : (fails || !safeComponent r.plugin) = true
  · rw [if_pos lost]
    exact h.fails
  · rw [if_neg lost]
    have put (p : String) : entryAt (t.ready.put (r.plugin, .file (canonicalMarkerBytes
        (readyPayload sys b r)))) p = _ := entryAt_put _ _ _ _
    have only : Only sys r t (t.putReady r.plugin (readyPayload sys b r)).touch :=
      ⟨fun p away => (put p).trans (if_neg away), fun _ _ => rfl, rfl, rfl⟩
    have now := (put r.plugin).trans (if_pos rfl)
    refine ⟨⟨h.only.trans only, ?_, h.failed⟩, fun _ => ⟨dir, now⟩, nofun⟩
    refine h.consistent.step base mem only (fun _ e found => .inr ?_) fun _ e found => .inl found
    exact Option.some.inj (found.symm.trans now)

theorem Writing.index (path : r.path ≠ "") (had : HasReady sys b r t) (fails : Bool) :
    Wrote sys desired r s (Whole sys b r)
      (t.writeIndexEntry fails (sys.indexKey r.path) (indexPayload sys b r)).1
      (t.writeIndexEntry fails (sys.indexKey r.path) (indexPayload sys b r)).2 := by
  unfold State.writeIndexEntry
  cases fails with
  | true => exact h.fails
  | false =>
    have put (k : Key) : entryAt (t.index.put (sys.indexKey r.path, .file (canonicalMarkerBytes
        (indexPayload sys b r)))) k = _ := entryAt_put _ _ _ _
    have only : Only sys r t (t.putIndex (sys.indexKey r.path) (indexPayload sys b r)).touch :=
      ⟨fun _ _ => rfl, fun k away => (put k).trans (if_neg (away path)), rfl, rfl⟩
    have now := (put (sys.indexKey r.path)).trans (if_pos rfl)
    refine ⟨⟨h.only.trans only, ?_, h.failed⟩,
      fun _ => ⟨Bool.and_elim_left had.dir, had.ready, fun _ => now⟩, nofun⟩
    refine h.consistent.step base mem only (fun _ e found => .inl found) fun _ e found => .inr ?_
    exact Option.some.inj (found.symm.trans now)

theorem Writing.unready : Writing sys desired r s (t.deleteReady r.plugin).2 ∧
      (pluginDir r.plugin = true → entryAt (t.deleteReady r.plugin).2.ready r.plugin = none) ∧
      (t.deleteReady r.plugin).2.failed = t.failed := by
  have unready : Unready sys r t (t.deleteReady r.plugin).2 := deleteReady_unready r t false
  refine ⟨⟨h.only.trans unready.only, ?_, fun was => unready.failed.trans (h.failed was)⟩,
    unready.ready, unready.failed⟩
  refine h.consistent.step base mem unready.only (fun dir e found => ?_) fun path e found => .inl ?_
  · exact absurd (found.symm.trans (unready.ready dir)) (Option.some_ne_none e)
  · have same : (t.deleteReady r.plugin).2.index = t.index := by
      unfold State.deleteReady
      split <;> rfl
    exact same ▸ found

theorem Writing.gone (path : r.path ≠ "")
    (unready : pluginDir r.plugin = true → entryAt t.ready r.plugin = none) :
    Writing sys desired r s (t.deleteIndexKey (sys.indexKey r.path)).2 ∧
      Gone sys r (t.deleteIndexKey (sys.indexKey r.path)).2 := by
  have first : Unready sys r t t := ⟨.refl, unready, rfl⟩
  have retired : Retired sys r t (t.deleteIndexKey (sys.indexKey r.path)).2 :=
    first.retired path false
  refine ⟨⟨h.only.trans retired.only, ?_, fun was => retired.failed.trans (h.failed was)⟩,
    retired.gone⟩
  refine h.consistent.step base mem retired.only (fun _ e found => .inl found)
    fun path e found => ?_
  exact absurd (found.symm.trans (retired.gone.index path)) (Option.some_ne_none e)

end

theorem spec_write {op : MarkerOp Key} {P : State Key → Prop} {Q : op.Answer → State Key → Prop}
    (routing : Routing sys desired) (mem : r ∈ desired.routed) (loud : publishes op = some r.plugin)
    (swapped : s.swapped = true) (live : s.live = desired.overlay)
    (writing : ∀ t, P t → Writing sys desired r s t)
    (h : ∀ t, P t → ∀ fails, Q (perform sys op fails t).1 (perform sys op fails t).2) :
    Spec (passes sys (Licensed sys desired)) P (call op) Q := by
  refine spec_call fun t held => ⟨⟨fun _ => (writing t held).consistent, fun plugin h => ?_⟩,
    h t held⟩
  have only := (writing t held).only
  refine ⟨only.swapped.trans swapped, only.live.trans live, r, mem,
    Option.some.inj (loud.symm.trans h), ?_⟩
  rw [only.live, live]
  exact routing.routes r mem

variable (sys desired) in
/-- What the publication of a plugin has done to the state `s`. -/
structure Settled (b : String) (r : RoutedCallbacks) (s t : State Key) : Prop where
  writing : Writing sys desired r s t
  ends : Whole sys b r t ∨ (Gone sys r t ∧ t.failed = true)

theorem spec_failClosed (base : desired.base = some b) (mem : r ∈ desired.routed) (ok : Bool) :
    Spec (passes sys (Licensed sys desired)) (Wrote sys desired r s (Whole sys b r) ok)
      (failClosed r ok) (fun _ t => Settled sys desired b r s t) := by
  unfold failClosed
  refine spec_ite (fun yes => ?_) fun no => ?_
  · exact spec_still fun t held => ⟨held.writing, .inl (held.done yes)⟩
  have lost := eq_false_of_ne_true no
  refine Spec.bind (Q := fun (_ : Bool) t => Writing sys desired r s t ∧
    (pluginDir r.plugin = true → entryAt t.ready r.plugin = none) ∧ t.failed = true)
    (spec_after rfl (fun t held => held.writing.consistent) fun t held _ => ?_) fun _ => ?_
  · obtain ⟨writing, ready, failed⟩ := held.writing.unready base mem
    exact ⟨writing, ready, failed.trans (held.lost lost)⟩
  refine Spec.bind (Q := fun (_ : Bool) t => Settled sys desired b r s t) ?_ fun _ =>
    spec_still fun t held => held
  unfold deleteIndex
  refine spec_ite (fun pathless => ?_) fun path => ?_
  · exact spec_still fun t held => ⟨held.1, .inr ⟨⟨held.2.1, fun path => absurd pathless path⟩,
      held.2.2⟩⟩
  · refine spec_after rfl (fun t held => held.1.consistent) fun t held _ => ?_
    obtain ⟨writing, gone⟩ := held.1.gone base mem path held.2.1
    exact ⟨writing, .inr ⟨gone, held.2.2⟩⟩

theorem spec_publish (routing : Routing sys desired) (base : desired.base = some b)
    (mem : r ∈ desired.routed) (swapped : s.swapped = true) (live : s.live = desired.overlay)
    (consistent : Consistent sys desired s) :
    Spec (passes sys (Licensed sys desired)) (fun t => t = s) (publish sys b r)
      (fun _ t => Settled sys desired b r s t) := by
  have start : Writing sys desired r s s := ⟨.refl, consistent, id⟩
  refine Spec.bind (Q := Wrote sys desired r s fun _ => pluginDir r.plugin = true)
    (spec_guarded (spec_write routing mem rfl swapped live ?_ ?_)
      (fun _ t held => held.writing.consistent)
      fun ok t issues held => held.deaf (fun _ _ dir => dir) issues) fun ensured => ?_
  · rintro t rfl
    exact start
  · rintro t rfl fails
    exact start.dirs fails
  refine Spec.bind (Q := Wrote sys desired r s (HasReady sys b r)) ?_ fun ready => ?_
  · unfold publishReady
    refine spec_ite (fun yes => ?_) fun no => ?_
    · refine spec_guarded (spec_write routing mem rfl swapped live (fun t held => held.writing)
        fun t held fails => held.writing.ready base mem (held.done yes) fails)
        (fun _ t held => held.writing.consistent) fun ok t issues held => ?_
      exact held.deaf (fun _ _ had => ⟨had.dir, had.ready⟩) issues
    · rw [eq_false_of_ne_true no]
      exact spec_still fun t held => held.skip
  refine Spec.bind (Q := Wrote sys desired r s (Whole sys b r)) ?_ fun index =>
    spec_failClosed base mem index
  unfold publishIndex
  refine spec_ite (fun yes => ?_) fun no => ?_
  · obtain ⟨ok, path⟩ := (Bool.and_eq_true _ _).mp yes
    refine spec_guarded (spec_write routing mem rfl swapped live (fun t held => held.writing)
      fun t held fails => held.writing.index base mem (of_decide_eq_true path) (held.done ok) fails)
      (fun _ t held => held.writing.consistent) fun ok t issues held => ?_
    exact held.deaf (fun _ _ whole => ⟨whole.safe, whole.ready, whole.index⟩) issues
  · refine spec_still fun t held => ⟨held.writing, fun ok => ?_, held.lost⟩
    have had := held.done ok
    refine ⟨Bool.and_elim_left had.dir, had.ready, fun path => ?_⟩
    exact absurd ((Bool.and_eq_true _ _).mpr ⟨ok, decide_eq_true path⟩) no

variable (sys desired) in
/-- The plugins that are still to be published are listed in `rest`. -/
structure Publishing (rest : List RoutedCallbacks) (t : State Key) : Prop where
  swapped : t.swapped = true
  live : t.live = desired.overlay
  swept : Swept sys desired t
  settled : ∀ r ∈ (routedByPlugin desired).rows, Whole sys (desired.base.getD "") r t ∨
    (Gone sys r t ∧ (t.failed = true ∨ r ∈ rest))

theorem Publishing.consistent (routing : Routing sys desired) {rest : List RoutedCallbacks}
    (h : Publishing sys desired rest t) : Consistent sys desired t :=
  consistent_of_settled routing h.swept fun r mem => (h.settled r mem).imp_right And.left

theorem Publishing.step (routing : Routing sys desired) {rest : List RoutedCallbacks}
    (h : Publishing sys desired (q :: rest) s) (mem : q ∈ (routedByPlugin desired).rows)
    (done : Settled sys desired (desired.base.getD "") q s t) :
    Publishing sys desired rest t where
  swapped := done.writing.only.swapped.trans h.swapped
  live := done.writing.only.live.trans h.live
  swept := h.swept.frame routing mem done.writing.only
  settled r routed := by
    by_cases same : r = q
    · subst same
      exact done.ends.imp_right fun gone => ⟨gone.1, .inl gone.2⟩
    · have apart : Apart sys q r := routing.plugins_apart ((mem_routedByPlugin routing).mp mem).2
        ((mem_routedByPlugin routing).mp routed).2 fun eq => same eq.symm
      cases h.settled r routed with
      | inl whole => exact .inl (whole.frame done.writing.only apart)
      | inr gone =>
        refine .inr ⟨gone.1.frame done.writing.only apart, ?_⟩
        exact gone.2.imp done.writing.failed fun listed =>
          (List.mem_cons.mp listed).resolve_left same

theorem spec_postSwap (routing : Routing sys desired) {republish : List RoutedCallbacks}
    (known : ∀ r ∈ republish, r ∈ (routedByPlugin desired).rows) :
    Spec (passes sys (Licensed sys desired)) (Publishing sys desired republish)
      (postSwap sys desired republish) (fun _ => Publishing sys desired []) := by
  unfold postSwap
  cases url : desired.baseUrl with
  | none =>
    refine spec_still fun t held => ⟨held.swapped, held.live, held.swept, fun r mem => ?_⟩
    obtain ⟨⟨b, base⟩, _⟩ := (mem_routedByPlugin routing).mp mem
    rw [DesiredCallbacks.base, url] at base
    cases base
  | some u =>
    refine Spec.bind (Q := fun _ => Publishing sys desired []) ?_ fun _ =>
      spec_still fun t held => held
    refine spec_forEach_rest (fun rest _ => Publishing sys desired rest) republish
      (fun _ _ => stable_sequential _) fun q rest _ mem => spec_each fun s _ held => ?_
    obtain ⟨⟨b, base⟩, routed⟩ := (mem_routedByPlugin routing).mp (known q mem)
    have value : desired.base.getD "" = b := by rw [base]; rfl
    have same : u = b := by
      have kept := base
      rw [DesiredCallbacks.base, url] at kept
      exact Option.some.inj (Option.filter_eq_some_iff.mp kept).1
    subst same
    refine (spec_publish routing base routed held.swapped held.live
      (held.consistent routing)).post fun _ t _ done => ?_
    exact held.step routing (known q mem) (value ▸ done)

theorem spec_pass (routing : Routing sys desired) (prunable : desired.prunable = true)
    (early : s.swapped = false) :
    Spec (passes sys (Licensed sys desired)) (fun t => t = s) (CallbackMarkers.pass sys desired)
      (fun _ => Publishing sys desired []) := by
  refine (spec_preSwap (fun swapped => swapped = false) licensed_early routing prunable
    early).bind fun republish => ?_
  refine Spec.bind (Q := fun (_ : PUnit) t => (∀ r ∈ republish, r ∈ (routedByPlugin desired).rows) ∧
    Publishing sys desired republish t) (spec_call fun t held => ?_) fun _ =>
      spec_of fun known => spec_postSwap routing known
  have consistent : Consistent sys desired t :=
    consistent_of_settled routing held.swept fun r mem => (held.settled r mem).imp_right And.left
  refine ⟨⟨fun _ => consistent, fun _ loud => ?_⟩, fun _ => ⟨held.known, rfl, rfl,
    ⟨held.swept.ready, held.swept.index⟩, fun r mem => ?_⟩⟩
  · cases loud
  refine (held.settled r mem).imp (fun whole => ⟨whole.safe, whole.ready, whole.index⟩) ?_
  exact fun gone => ⟨⟨gone.1.ready, gone.1.index⟩, .inr gone.2⟩

end PostSwap

/-! ### The pass again -/

section Again
variable {sys} {desired : DesiredCallbacks} {b : String} {q r : RoutedCallbacks} {s t : State Key}

variable (sys) in
abbrev anywhere : Discipline (S := markerSig Key) (perform sys) := passes sys fun _ _ => True

def anytime (_ : Bool) : Prop := True

omit [DecidableEq Key] in
theorem free_anywhere (op : MarkerOp Key) (s : State Key) (_ : late op = false)
    (_ : anytime s.swapped) : (fun (_ : MarkerOp Key) (_ : State Key) => True) op s := trivial

theorem spec_retireOrphans_still (swept : Swept sys desired s) :
    Spec (anywhere sys) (fun t => t = s) (retireOrphans sys desired) (fun _ t => t = s) := by
  unfold retireOrphans
  refine spec_ite (fun _ => ?_) fun _ => spec_still fun t held => held
  refine Spec.bind (Q := fun (listed : List String) t =>
    listed ⊆ (routedByPlugin desired).rows.map RoutedCallbacks.plugin ∧ t = s)
    (spec_call ?_) fun listed => spec_of fun routed => ?_
  · rintro t rfl
    refine ⟨trivial, fun _ => ⟨fun p mem => ?_, rfl⟩⟩
    have found := List.mem_filter.mp (List.mem_mergeSort.mp mem)
    exact swept.ready p found.2 (mem_shelf.mp found.1)
  refine (spec_forEach_keeps (C := anywhere sys) (stable_passes _) listed
    fun p mem => ?_).bind fun _ => ?_
  · unfold retireOrphan
    rw [if_pos (routed mem)]
    exact spec_still fun t held => held
  refine Spec.bind (Q := fun (keys : List Key) t => keys ⊆ desiredKeys sys desired ∧ t = s)
    (spec_call ?_) fun keys => spec_of fun routed => ?_
  · rintro t rfl
    exact ⟨trivial, fun _ => ⟨fun k mem => swept.index k (mem_shelf.mp mem), rfl⟩⟩
  refine (spec_forEach_keeps (C := anywhere sys) (stable_passes _) keys
    fun k mem => ?_).bind fun _ => spec_still fun t held => held
  unfold retireOrphanKey
  rw [if_pos (routed mem)]
  exact spec_still fun t held => held

theorem readMarker_whole (whole : Whole sys b r s) : s.readMarker sys r.plugin =
    readEntry sys (some (.file (canonicalMarkerBytes (readyPayload sys b r)))) := by
  unfold State.readMarker
  rw [if_pos whole.safe, whole.ready]

theorem classify_whole (whole : Whole sys b r s) (readable : Readable sys b r) :
    (classify sys b r (s.readMarker sys r.plugin) (indexRead sys r s)).1 = false := by
  rw [readMarker_whole whole, readEntry_canonical readable.1]
  unfold classify indexRead
  by_cases pathless : r.path = ""
  · simp [pathless]
  · have index : s.readIndexMarker sys r.path =
        .present (canonicalMarkerBytes (indexPayload sys b r)) := by
      unfold State.readIndexMarker
      rw [whole.index pathless, readEntry_canonical (readable.2 pathless)]
    simp [pathless, index]

theorem classify_unreadable (whole : Whole sys b r s) (long : ¬ Readable sys b r) :
    classify sys b r (s.readMarker sys r.plugin) (indexRead sys r s) = (true, true) := by
  rw [readMarker_whole whole]
  by_cases readyLong : markerStateMaxBytes < (canonicalMarkerBytes (readyPayload sys b r)).size
  · rw [readEntry_long readyLong]
    unfold classify
    by_cases pathless : r.path = "" <;> simp [pathless]
  · have fits := Nat.not_lt.mp readyLong
    have path : r.path ≠ "" := fun pathless => long ⟨fits, fun path => absurd pathless path⟩
    have indexLong : markerStateMaxBytes < (canonicalMarkerBytes (indexPayload sys b r)).size :=
      Nat.lt_of_not_le fun le => long ⟨fits, fun _ => le⟩
    have index : s.readIndexMarker sys r.path = .invalid := by
      unfold State.readIndexMarker
      rw [whole.index path, readEntry_long indexLong]
    rw [readEntry_canonical fits]
    unfold classify indexRead
    simp [path, index]

theorem spec_examine_still (base : desired.base = some b) (whole : Whole sys b r s)
    (readable : Readable sys b r) :
    Spec (anywhere sys) (fun t => t = s) (examine sys desired r) (fun g t => g = none ∧ t = s) := by
  have value : desired.base.getD "" = b := by rw [base]; rfl
  unfold examine
  rw [value]
  refine (spec_pairState free_anywhere trivial).bind fun state => ?_
  unfold retireStale
  refine spec_ite (fun needs => ?_) fun _ => spec_still fun t held => ⟨rfl, held.1⟩
  intro t _ held
  have unchanged : state.1 = false := held.2 ▸ classify_whole whole readable
  exact absurd (unchanged.symm.trans needs) Bool.false_ne_true

theorem spec_pass_still (routing : Routing sys desired) (swept : Swept sys desired s)
    (whole : ∀ r ∈ (routedByPlugin desired).rows, Whole sys (desired.base.getD "") r s)
    (readable : ∀ r ∈ (routedByPlugin desired).rows, Readable sys (desired.base.getD "") r) :
    Spec (anywhere sys) (fun t => t = s) (CallbackMarkers.pass sys desired) (fun _ t => t.touched = s.touched) := by
  unfold CallbackMarkers.pass preSwap
  refine Spec.bind (Q := fun (republish : List RoutedCallbacks) t => republish = [] ∧ t = s) ?_
    fun republish => spec_of fun none => ?_
  · refine (spec_retireOrphans_still swept).bind fun _ => ?_
    refine Spec.bind (Q := fun results t => results.reduceOption = [] ∧ t = s) ?_ fun results =>
      spec_still fun t held => held
    refine (spec_forEach_rest (fun _ results t => results.reduceOption = [] ∧ t = s)
      (routedByPlugin desired).rows (fun _ _ => stable_passes _)
      fun r rest results mem => spec_of fun none => ?_).pre fun t _ held => ⟨rfl, held⟩
    obtain ⟨⟨b, base⟩, _⟩ := (mem_routedByPlugin routing).mp mem
    have value : desired.base.getD "" = b := by rw [base]; rfl
    refine (spec_examine_still base (value ▸ whole r mem) (value ▸ readable r mem)).post ?_
    rintro g t _ ⟨rfl, same⟩
    exact ⟨by rw [List.reduceOption_append, none]; rfl, same⟩
  subst none
  refine Spec.bind (Q := fun (_ : PUnit) t => t.touched = s.touched) (spec_call ?_) fun _ => ?_
  · rintro t rfl
    exact ⟨trivial, fun _ => rfl⟩
  · unfold postSwap
    cases desired.baseUrl with
    | none => exact spec_still fun t held => held
    | some u =>
      exact (spec_still (Q := fun (_ : List PUnit) t => t.touched = s.touched)
        fun t held => held).bind fun _ => spec_still fun t held => held

theorem touched_le (op : MarkerOp Key) (fails : Bool) (s : State Key) :
    s.touched ≤ (perform sys op fails s).2.touched := by
  cases op with
  | deleteReady plugin =>
    change s.touched ≤ (s.deleteReady plugin).2.touched
    unfold State.deleteReady
    split <;> exact Nat.le_succ _
  | ensurePluginDirs plugin =>
    change s.touched ≤ (s.ensurePluginDirs fails plugin).2.touched
    unfold State.ensurePluginDirs
    split <;> exact Nat.le_succ _
  | writeReady plugin payload =>
    change s.touched ≤ (s.writeReady fails plugin payload).2.touched
    unfold State.writeReady
    split <;> exact Nat.le_succ _
  | writeIndexEntry path payload =>
    change s.touched ≤ (s.writeIndexEntry fails _ payload).2.touched
    unfold State.writeIndexEntry
    split <;> exact Nat.le_succ _
  | deleteIndexKey key => exact Nat.le_succ _
  | deleteIndexEntry path => exact Nat.le_succ _
  | _ => exact Nat.le_refl _

theorem spec_touched {α : Type} (n : ℕ) (p : MarkerProg Key α) :
    Spec (anywhere sys) (fun t => n ≤ t.touched) p (fun _ t => n ≤ t.touched) :=
  spec_any (stable_passes _) (fun _ _ _ _ => trivial)
    (fun op fails t _ held => Nat.le_trans held (touched_le op fails t)) p

theorem spec_examine_long (base : desired.base = some b) (whole : Whole sys b r s)
    (long : ¬ Readable sys b r) :
    Spec (anywhere sys) (fun t => t = s) (examine sys desired r)
      (fun _ t => s.touched + 1 ≤ t.touched) := by
  have value : desired.base.getD "" = b := by rw [base]; rfl
  unfold examine
  rw [value]
  refine (spec_pairState free_anywhere trivial).bind fun state => ?_
  have both (t : State Key) (held : t = s ∧ state = classify sys b r (s.readMarker sys r.plugin)
      (indexRead sys r s)) : state = (true, true) :=
    held.2.trans (classify_unreadable whole long)
  unfold retireStale
  refine spec_ite (fun _ => ?_) fun no t _ held => absurd (congrArg Prod.fst (both t held)) no
  refine Spec.bind (Q := fun _ t => s.touched + 1 ≤ t.touched) ?_ fun _ =>
    spec_still fun t held => held
  unfold retireOnDisk
  refine spec_ite (fun _ => ?_) fun no t _ held => absurd (congrArg Prod.snd (both t held)) no
  refine Spec.bind (Q := fun (_ : Bool) t => s.touched + 1 ≤ t.touched) (spec_call ?_) fun _ =>
    spec_touched _ _
  rintro t ⟨rfl, _⟩
  refine ⟨trivial, fun _ => ?_⟩
  change t.touched + 1 ≤ (t.deleteReady r.plugin).2.touched
  unfold State.deleteReady
  split <;> exact Nat.le_refl _

theorem spec_pass_long (routing : Routing sys desired) (swept : Swept sys desired s)
    (base : desired.base = some b) (mem : r ∈ desired.routed) (whole : Whole sys b r s)
    (long : ¬ Readable sys b r) :
    Spec (anywhere sys) (fun t => t = s) (CallbackMarkers.pass sys desired)
      (fun _ t => s.touched + 1 ≤ t.touched) := by
  have listed := (mem_routedByPlugin routing).mpr ⟨⟨b, base⟩, mem⟩
  unfold CallbackMarkers.pass preSwap
  refine Spec.bind (Q := fun (_ : List RoutedCallbacks) t => s.touched + 1 ≤ t.touched) ?_
    fun _ => spec_touched _ _
  refine (spec_retireOrphans_still swept).bind fun _ => ?_
  refine Spec.bind (Q := fun _ t => s.touched + 1 ≤ t.touched) ?_ fun _ =>
    spec_still fun t held => held
  refine ((spec_forEach_rest (fun rest _ t => s.touched + 1 ≤ t.touched ∨
    (r ∈ rest ∧ Whole sys b r t ∧ s.touched ≤ t.touched)) (routedByPlugin desired).rows
    (fun _ _ => stable_passes _) fun q rest results memQ => ?_).pre fun t _ same => ?_).post
    fun _ t _ held => held.resolve_right fun left => absurd left.1 List.not_mem_nil
  · refine spec_or ((spec_touched _ _).post fun _ t _ held => .inl held) ?_
    refine spec_each fun t _ held => ?_
    by_cases same : q = r
    · subst same
      refine (spec_examine_long base held.2.1 long).post fun _ u _ grown => .inl ?_
      exact Nat.le_trans (Nat.succ_le_succ held.2.2) grown
    · have apart : Apart sys q r :=
        routing.plugins_apart ((mem_routedByPlugin routing).mp memQ).2 mem same
      refine ((spec_examine free_anywhere base trivial).and
        ((spec_touched t.touched _).pre fun u _ eq => ?_)).post fun g u _ done => .inr ?_
      · exact eq ▸ Nat.le_refl _
      · refine ⟨(List.mem_cons.mp held.1).resolve_left fun eq => same eq.symm,
          held.2.1.frame done.1.only apart, Nat.le_trans held.2.2 done.2⟩
  · exact .inr ⟨listed, same ▸ whole, same ▸ Nat.le_refl _⟩

end Again

/-! ### The whole -/

def found (ready : CallbackMarkers.Shelf String) (index : CallbackMarkers.Shelf Key) (live : Overlay) (issues : List PluginIssue) :
    State Key := ⟨ready, index, live, issues, false, false, 0⟩

section Whole
variable (desired : DesiredCallbacks) (plan : ℕ → Bool)

def afterPass (s : State Key) : State Key := ((CallbackMarkers.pass sys desired).outcome (perform sys) plan 0 s).2

def passEvents (s : State Key) : List (Event (markerSig Key) (State Key)) :=
  (CallbackMarkers.pass sys desired).events (perform sys) plan 0 s

/-- Markers are never half-published by the pass from `s`, in which the writes of the plan fail. -/
structure NeverHalf (s : State Key) : Prop where
  paired : ∀ plugin, pluginDir plugin = true →
    (entryAt (afterPass sys desired plan s).ready plugin = none ∧
      ∀ r ∈ desired.routed, r.plugin = plugin → r.path ≠ "" →
        entryAt (afterPass sys desired plan s).index (sys.indexKey r.path) = none) ∨
    ∃ b, desired.base = some b ∧ ∃ r ∈ desired.routed, r.plugin = plugin ∧
      Whole sys b r (afterPass sys desired plan s)
  covered : ∀ key, entryAt (afterPass sys desired plan s).index key ≠ none →
    (∃ b, desired.base = some b) ∧ ∃ r ∈ desired.routed, r.path ≠ "" ∧ sys.indexKey r.path = key
  agrees : ∀ e ∈ passEvents sys desired plan s, e.before.swapped = true ∨ swaps e.op = true →
    Consistent sys desired e.before
  ends : Consistent sys desired (afterPass sys desired plan s)
  written : ∀ e ∈ passEvents sys desired plan s, ∀ plugin, publishes e.op = some plugin →
    e.before.swapped = true ∧ e.before.live = desired.overlay ∧
      ∃ r ∈ desired.routed, r.plugin = plugin ∧ Routes e.before.live r
  repeated : (afterPass sys desired plan s).failed = false → ∀ plan',
    (afterPass sys desired plan' (afterPass sys desired plan s)).touched =
      (afterPass sys desired plan s).touched

variable {sys desired plan} {s : State Key}

theorem pass_publishing (routing : Routing sys desired) (prunable : desired.prunable = true)
    (early : s.swapped = false) :
    (∀ e ∈ passEvents sys desired plan s, Licensed sys desired e.op e.before) ∧
      Publishing sys desired [] (afterPass sys desired plan s) := by
  have sound : (∀ e ∈ passEvents sys desired plan s, True ∧ Licensed sys desired e.op e.before) ∧
      True ∧ Publishing sys desired [] (afterPass sys desired plan s) :=
    (spec_pass routing prunable early).sound trivial rfl 0
  exact ⟨fun e mem => (sound.1 e mem).2, sound.2.2⟩

theorem Publishing.paired (routing : Routing sys desired) (h : Publishing sys desired [] s)
    {plugin : String} (dir : pluginDir plugin = true) :
    (entryAt s.ready plugin = none ∧ ∀ r ∈ desired.routed, r.plugin = plugin → r.path ≠ "" →
        entryAt s.index (sys.indexKey r.path) = none) ∨
      ∃ b, desired.base = some b ∧ ∃ r ∈ desired.routed, r.plugin = plugin ∧ Whole sys b r s := by
  by_cases own : ∃ r ∈ (routedByPlugin desired).rows, r.plugin = plugin
  · obtain ⟨r, mem, rfl⟩ := own
    obtain ⟨⟨b, base⟩, routed⟩ := (mem_routedByPlugin routing).mp mem
    have value : desired.base.getD "" = b := by rw [base]; rfl
    cases h.settled r mem with
    | inl whole => exact .inr ⟨b, base, r, routed, rfl, value ▸ whole⟩
    | inr gone =>
      refine .inl ⟨gone.1.ready dir, fun q memQ same path => ?_⟩
      have eq : q = r := List.inj_on_of_nodup_map routing.named memQ routed same
      subst eq
      exact gone.1.index path
  · refine .inl ⟨?_, fun r mem same path => ?_⟩
    · by_contra found
      obtain ⟨r, mem, same⟩ := List.mem_map.mp (h.swept.ready plugin dir found)
      exact own ⟨r, mem, same⟩
    · by_contra found
      obtain ⟨base, _⟩ := mem_desiredKeys.mp (h.swept.index _ found)
      exact own ⟨r, (mem_routedByPlugin routing).mpr ⟨base, mem⟩, same⟩

theorem Publishing.whole (h : Publishing sys desired [] s) (fine : s.failed = false) :
    ∀ r ∈ (routedByPlugin desired).rows, Whole sys (desired.base.getD "") r s := by
  intro r mem
  refine (h.settled r mem).resolve_right fun gone => ?_
  cases gone.2 with
  | inl failed => exact absurd (fine.symm.trans failed) Bool.false_ne_true
  | inr listed => exact absurd listed List.not_mem_nil

theorem repeated_of_readable (routing : Routing sys desired) (h : Publishing sys desired [] s)
    (fine : s.failed = false)
    (readable : ∀ b, desired.base = some b → ∀ r ∈ desired.routed, Readable sys b r) :
    (afterPass sys desired plan s).touched = s.touched := by
  have fits : ∀ r ∈ (routedByPlugin desired).rows, Readable sys (desired.base.getD "") r := by
    intro r mem
    obtain ⟨⟨b, base⟩, routed⟩ := (mem_routedByPlugin routing).mp mem
    have value : desired.base.getD "" = b := by rw [base]; rfl
    exact value ▸ readable b base r routed
  have sound : (∀ e ∈ passEvents sys desired plan s, True ∧ True) ∧ True ∧
      (afterPass sys desired plan s).touched = s.touched :=
    (spec_pass_still routing h.swept (h.whole fine) fits).sound trivial rfl 0
  exact sound.2.2

theorem not_repeated_of_long (routing : Routing sys desired) (h : Publishing sys desired [] s)
    (fine : s.failed = false) {b : String} (base : desired.base = some b) {r : RoutedCallbacks}
    (mem : r ∈ desired.routed) (long : ¬ Readable sys b r) :
    s.touched < (afterPass sys desired plan s).touched := by
  have value : desired.base.getD "" = b := by rw [base]; rfl
  have listed := (mem_routedByPlugin routing).mpr ⟨⟨b, base⟩, mem⟩
  have sound : (∀ e ∈ passEvents sys desired plan s, True ∧ True) ∧ True ∧
      s.touched + 1 ≤ (afterPass sys desired plan s).touched :=
    (spec_pass_long routing h.swept base mem (value ▸ h.whole fine r listed) long).sound
      trivial rfl 0
  exact sound.2.2

theorem neverHalf_iff (routing : Routing sys desired) (prunable : desired.prunable = true)
    (early : s.swapped = false) : NeverHalf sys desired plan s ↔
      ((afterPass sys desired plan s).failed = false →
        ∀ b, desired.base = some b → ∀ r ∈ desired.routed, Readable sys b r) := by
  obtain ⟨licensed, ends⟩ := @pass_publishing _ _ sys desired plan s routing prunable early
  refine ⟨fun claim fine b base r mem => ?_, fun readable => ?_⟩
  · by_contra long
    have grown := @not_repeated_of_long _ _ sys desired plan _ routing ends fine b base r mem long
    exact absurd (claim.repeated fine plan) (Nat.ne_of_gt grown)
  · exact {
      paired := fun plugin dir => ends.paired routing dir
      covered := fun key kept => mem_desiredKeys.mp (ends.swept.index key kept)
      agrees := fun e mem => (licensed e mem).consistent
      ends := ends.consistent routing
      written := fun e mem => (licensed e mem).live
      repeated := fun fine plan' => repeated_of_readable routing ends fine (readable fine) }

/-- Whatever is found on disk and whichever writes fail, the markers of a clean computation are
never half-published, if some write fails or the reader takes every payload that is written; with
neither, the next pass retires and writes again. -/
theorem markers_never_half (acked : Identity → Bool) (targets : String → List String)
    (liveRoles : List String) (baseUrl : Option String) (res : Resolution sys.indexKey)
    (prunable : (computeDesired acked targets liveRoles baseUrl res).prunable = true)
    (ready : CallbackMarkers.Shelf String) (index : CallbackMarkers.Shelf Key) (live : Overlay) :
    let desired := computeDesired acked targets liveRoles baseUrl res
    NeverHalf sys desired plan (found ready index live desired.issues) ↔
      ((afterPass sys desired plan (found ready index live desired.issues)).failed = false →
        ∀ b, desired.base = some b → ∀ r ∈ desired.routed, Readable sys b r) :=
  neverHalf_iff (computeDesired_routing baseUrl res) prunable rfl

end Whole

/-! ### A plugin with one callback -/

def idPlatform : Platform String :=
  ⟨fun b e => b ++ "/callback/" ++ e, id, fun _ => true, fun _ => rfl⟩

def tokenSet : CallbackSet "mail" :=
  ⟨["token"], by decide, by decide +kernel, by decide +kernel⟩

def mailPlugin : ResolvedPlugin := ⟨"mail", "a1", "/store/mail/a1", some tokenSet⟩

def mailResolution : Resolution idPlatform.indexKey where
  registryValid := true
  issues := []
  plugins := [mailPlugin]
  named := by decide
  apart p memP q memQ _ _ := by rw [List.mem_singleton.mp memP, List.mem_singleton.mp memQ]

def mailDesired (baseUrl : String) : DesiredCallbacks :=
  computeDesired (fun _ => true) (fun _ => ["resident:butler"]) ["resident:butler"] (some baseUrl)
    mailResolution

/-- A directory in place of another plugin's marker, an entry of a path that has moved. -/
def mailFound : State String :=
  found (Table.empty.put ("post", .other)) (Table.empty.put ("/store/mail/a0", .other)) Table.empty
    (mailDesired "https://casa.example").issues

/-- Every other write fails. -/
theorem mail_never_half :
    NeverHalf idPlatform (mailDesired "https://casa.example") (fun n => n % 2 = 0) mailFound ↔
      ((afterPass idPlatform (mailDesired "https://casa.example") (fun n => n % 2 = 0)
          mailFound).failed = false →
        ∀ b, (mailDesired "https://casa.example").base = some b →
          ∀ r ∈ (mailDesired "https://casa.example").routed, Readable idPlatform b r) :=
  markers_never_half _ _ _ _ mailResolution rfl _ _ _

/-! ### Long payloads -/

theorem length_le_utf8 (cs : List Char) : cs.length ≤ (String.ofList cs).utf8ByteSize := by
  induction cs with
  | nil => exact Nat.zero_le _
  | cons c rest ih =>
    have size : (String.ofList (c :: rest)).utf8ByteSize =
        c.utf8Size + (String.ofList rest).utf8ByteSize := by
      rw [← List.singleton_append, String.ofList_append, String.utf8ByteSize_append]
      exact congrArg (· + _) String.utf8ByteSize_singleton
    rw [size, List.length_cons]
    have pos := c.utf8Size_pos
    omega

theorem length_le_flatMap (cs : List Char) : cs.length ≤ (cs.flatMap jsonEscape).length := by
  induction cs with
  | nil => exact Nat.zero_le _
  | cons c rest ih =>
    rw [List.flatMap_cons, List.length_append, List.length_cons]
    have one : 1 ≤ (jsonEscape c).length := by
      unfold jsonEscape
      grind
    omega

theorem length_le_jsonString (t : String) : t.length ≤ (jsonString t).utf8ByteSize := by
  unfold jsonString
  rw [String.utf8ByteSize_append, String.utf8ByteSize_append]
  have chars := length_le_flatMap t.toList
  have bytes := length_le_utf8 (t.toList.flatMap jsonEscape)
  rw [String.length_toList] at chars
  omega

theorem length_le_canonical (p : MarkerPayload) :
    p.baseUrl.length ≤ (canonicalMarkerBytes p).size := by
  change _ ≤ p.text.utf8ByteSize
  have base := length_le_jsonString p.baseUrl
  unfold MarkerPayload.text jsonObject
  simp only [List.cons_append, List.map_cons, String.intercalate_cons_cons, jsonField,
    String.utf8ByteSize_append]
  omega

/-- With names that a directory can have, a pass in which no write is made to fail has none. -/
theorem fine_of_plan {Key : Type} [DecidableEq Key] {sys : Platform Key}
    {desired : DesiredCallbacks} {s : State Key} (routing : Routing sys desired)
    (prunable : desired.prunable = true)
    (early : s.swapped = false) (fine : s.failed = false)
    (dirs : ∀ r ∈ desired.routed, pluginDir r.plugin = true) :
    (afterPass sys desired (fun _ => false) s).failed = false := by
  have licensed := (@pass_publishing _ _ sys desired (fun _ => false) s routing prunable early).1
  refine outcome_keeps (P := fun t => t.failed = false) false _ 0 s fine fun e mem held => ?_
  have dir (plugin : String) (loud : publishes e.op = some plugin) : pluginDir plugin = true := by
    obtain ⟨_, _, r, routed, rfl, _⟩ := (licensed e mem).live plugin loud
    exact dirs r routed
  obtain ⟨op, t⟩ := e
  cases op with
  | deleteReady plugin =>
    change (t.deleteReady plugin).2.failed = false
    unfold State.deleteReady
    split <;> exact held
  | ensurePluginDirs plugin =>
    change (t.ensurePluginDirs false plugin).2.failed = false
    unfold State.ensurePluginDirs
    rw [dir plugin rfl]
    exact held
  | writeReady plugin payload =>
    change (t.writeReady false plugin payload).2.failed = false
    unfold State.writeReady
    rw [Bool.and_elim_left (dir plugin rfl)]
    exact held
  | _ => exact held

def longUrl : String := "https://" ++ String.ofList (List.replicate 70000 'a')

theorem longUrl_length : longUrl.length = 70008 := by
  have host : (String.ofList (List.replicate 70000 'a')).length = 70000 := by
    rw [String.length_ofList, List.length_replicate]
  unfold longUrl
  rw [String.length_append, host]
  rfl

theorem long_base : (mailDesired longUrl).base = some longUrl := by
  have url : (mailDesired longUrl).baseUrl = some longUrl := rfl
  have long : longUrl ≠ "" := by
    intro empty
    have lengths := longUrl_length
    rw [empty] at lengths
    cases lengths
  unfold DesiredCallbacks.base
  rw [url]
  exact Option.filter_some_pos (decide_eq_true long)

/-- No write fails, and still the second pass retires what the first has written. -/
theorem long_rewritten : ¬ NeverHalf idPlatform (mailDesired longUrl) (fun _ => false)
    (found Table.empty Table.empty Table.empty []) := by
  have routing : Routing idPlatform (mailDesired longUrl) := computeDesired_routing _ mailResolution
  have routed : (mailDesired longUrl).routed =
      [⟨"mail", "a1", "/store/mail/a1", tokenSet.callbacks⟩] := rfl
  intro claim
  have fine := fine_of_plan (s := found Table.empty Table.empty Table.empty []) routing rfl rfl rfl
    fun r mem => by
      rw [routed] at mem
      rw [List.mem_singleton.mp mem]
      decide +kernel
  have readable := (neverHalf_iff routing rfl rfl).mp claim fine longUrl long_base _
    (routed ▸ List.mem_singleton_self _)
  have long := length_le_canonical (readyPayload idPlatform longUrl
    ⟨"mail", "a1", "/store/mail/a1", tokenSet.callbacks⟩)
  have length : 70008 ≤ 65536 := longUrl_length ▸ Nat.le_trans long readable.1
  exact absurd length (by decide)

end Casa.CallbackPublication
