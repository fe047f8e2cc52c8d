import Casa.CallbackMarkers

/-! The first half of the marker pass: it retires what is not routed and every pair that is not
already the desired one, so that the swap finds no marker that disagrees with the new overlay. -/

namespace Casa.CallbackReadiness
open KeyedTable OperationTree FallibleTree CallbackMarkers

variable {Key : Type} [DecidableEq Key] (sys : Platform Key)

/-! ### What the markers say -/

/-- The plugin's markers are the desired ones; a pathless plugin has no index entry. -/
structure Whole (baseUrl : String) (r : RoutedCallbacks) (s : State Key) : Prop where
  safe : safeComponent r.plugin = true
  ready : entryAt s.ready r.plugin = some (.file (canonicalMarkerBytes (readyPayload sys baseUrl r)))
  index : r.path ≠ "" → entryAt s.index (sys.indexKey r.path) =
    some (.file (canonicalMarkerBytes (indexPayload sys baseUrl r)))

structure Gone (r : RoutedCallbacks) (s : State Key) : Prop where
  ready : pluginDir r.plugin = true → entryAt s.ready r.plugin = none
  index : r.path ≠ "" → entryAt s.index (sys.indexKey r.path) = none

def Routes (overlay : Overlay) (r : RoutedCallbacks) : Prop :=
  r.callbacks ≠ [] ∧ ∀ cb ∈ r.callbacks,
    overlay.get? cb.effective = some ⟨r.plugin, cb.declared, cb.effective, r.path⟩

def late : MarkerOp Key → Bool
  | .replaceCallbackOverlay _ => true
  | .ensurePluginDirs _ => true
  | .writeReady _ _ => true
  | .writeIndexEntry _ _ => true
  | _ => false

/-- What a computation of the desired state promises about its routed plugins. -/
structure Routing (desired : DesiredCallbacks) : Prop where
  named : (desired.routed.map RoutedCallbacks.plugin).Nodup
  apart : ∀ r ∈ desired.routed, ∀ q ∈ desired.routed, r.path ≠ "" →
    sys.indexKey r.path = sys.indexKey q.path → r.plugin = q.plugin
  routes : ∀ r ∈ desired.routed, Routes desired.overlay r

/-! ### One plugin at a time -/

/-- Only the markers of this plugin have moved, and the overlay has not. -/
structure Only (r : RoutedCallbacks) (s t : State Key) : Prop where
  ready : ∀ p, r.plugin ≠ p → entryAt t.ready p = entryAt s.ready p
  index : ∀ k, (r.path ≠ "" → sys.indexKey r.path ≠ k) → entryAt t.index k = entryAt s.index k
  live : t.live = s.live
  swapped : t.swapped = s.swapped

section Frames
variable {sys} {desired : DesiredCallbacks} {b : String} {q r : RoutedCallbacks} {s t u : State Key}

theorem Only.refl : Only sys r s s := ⟨fun _ _ => rfl, fun _ _ => rfl, rfl, rfl⟩

theorem Only.trans (first : Only sys r s t) (second : Only sys r t u) : Only sys r s u where
  ready p away := (second.ready p away).trans (first.ready p away)
  index k away := (second.index k away).trans (first.index k away)
  live := second.live.trans first.live
  swapped := second.swapped.trans first.swapped

variable (sys) in
structure Apart (q r : RoutedCallbacks) : Prop where
  plugin : q.plugin ≠ r.plugin
  path : r.path ≠ "" → q.path ≠ "" → sys.indexKey q.path ≠ sys.indexKey r.path

omit [DecidableEq Key] in
theorem Routing.plugins_apart (routing : Routing sys desired) (memQ : q ∈ desired.routed)
    (memR : r ∈ desired.routed) (differ : q ≠ r) : Apart sys q r := by
  have names : q.plugin ≠ r.plugin := fun same =>
    differ (List.inj_on_of_nodup_map routing.named memQ memR same)
  exact ⟨names, fun _ path same => names (routing.apart q memQ r memR path same)⟩

theorem Whole.frame (whole : Whole sys b r s) (only : Only sys q s t)
    (apart : Apart sys q r) : Whole sys b r t where
  safe := whole.safe
  ready := (only.ready _ apart.plugin).trans whole.ready
  index path := (only.index _ (apart.path path)).trans (whole.index path)

theorem Gone.frame (gone : Gone sys r s) (only : Only sys q s t)
    (apart : Apart sys q r) : Gone sys r t where
  ready dir := (only.ready _ apart.plugin).trans (gone.ready dir)
  index path := (only.index _ (apart.path path)).trans (gone.index path)

end Frames

/-! ### Before the swap -/

/-- One process, no rivals; `licence` is what is known wherever an operation is asked for. -/
def passes (licence : MarkerOp Key → State Key → Prop) :
    Discipline (S := markerSig Key) (perform sys) :=
  sequential (fun _ => True) licence fun _ _ => trivial

section PreSwap
variable {sys} {desired : DesiredCallbacks} {b : String} {q r : RoutedCallbacks} {s t : State Key}
variable {licence : MarkerOp Key → State Key → Prop} {stage : Bool → Prop}

theorem stable_passes (P : State Key → Prop) : Stable (passes sys licence) P := stable_sequential P

theorem spec_call {op : MarkerOp Key} {P : State Key → Prop}
    {Q : op.Answer → State Key → Prop}
    (h : ∀ s, P s → licence op s ∧
      ∀ fails, Q (perform sys op fails s).1 (perform sys op fails s).2) :
    Spec (passes sys licence) P (call op) Q :=
  spec_ask (S := markerSig Key) (stable_sequential _) (fun _ => stable_sequential _)
    fun s _ => h s

theorem spec_still {α : Type} {a : α} {P : State Key → Prop} {Q : α → State Key → Prop}
    (h : ∀ s, P s → Q a s) : Spec (passes sys licence) P (pure a) Q :=
  spec_pure (stable_sequential _) fun s _ => h s

variable (free : ∀ op s, late op = false → stage s.swapped → licence op s)
include free

theorem spec_reportUnless {P : State Key → Prop} (plugin : String) (artifactId : Option String)
    (gone : Bool) (staged : ∀ s, P s → stage s.swapped)
    (deaf : ∀ s issues, P s → P { s with issues := issues }) :
    Spec (passes sys licence) P (reportUnless plugin artifactId gone) (fun _ => P) := by
  unfold reportUnless
  refine spec_ite (fun _ => spec_still fun s held => held) fun _ => ?_
  exact spec_call fun s held => ⟨free _ s rfl (staged s held), fun _ => deaf s _ held⟩

variable (sys) in
/-- What deleting the ready marker has done to the state `s`. -/
structure Unready (r : RoutedCallbacks) (s t : State Key) : Prop where
  only : Only sys r s t
  ready : pluginDir r.plugin = true → entryAt t.ready r.plugin = none
  failed : t.failed = s.failed

variable (sys) in
/-- What retiring a pair has done to the state `s`. -/
structure Retired (r : RoutedCallbacks) (s t : State Key) : Prop where
  only : Only sys r s t
  gone : Gone sys r t
  failed : t.failed = s.failed

omit free in
theorem deleteReady_unready (r : RoutedCallbacks) (s : State Key) (fails : Bool) :
    Unready sys r s (perform sys (.deleteReady r.plugin) fails s).2 := by
  change Unready sys r s (s.deleteReady r.plugin).2
  unfold State.deleteReady
  by_cases safe : safeComponent r.plugin = true
  · rw [if_pos safe]
    refine ⟨⟨fun p away => ?_, fun _ _ => rfl, rfl, rfl⟩, fun _ => ?_, rfl⟩
    · exact (entryAt_remove _ _ _).trans (if_neg away)
    · exact (entryAt_remove _ _ _).trans (if_pos rfl)
  · rw [if_neg safe]
    refine ⟨⟨fun _ _ => rfl, fun _ _ => rfl, rfl, rfl⟩, fun dir => ?_, rfl⟩
    exact absurd (Bool.and_elim_left dir) safe

omit free in
theorem Unready.retired (unready : Unready sys r s t) (path : r.path ≠ "") (fails : Bool) :
    Retired sys r s (perform sys (.deleteIndexEntry r.path) fails t).2 where
  only := by
    refine ⟨unready.only.ready, fun k away => ?_, unready.only.live, unready.only.swapped⟩
    have kept := unready.only.index k away
    exact ((entryAt_remove _ _ _).trans (if_neg (away path))).trans kept
  gone := ⟨unready.ready, fun _ => (entryAt_remove _ _ _).trans (if_pos rfl)⟩
  failed := unready.failed

theorem spec_retirePair (staged : stage s.swapped) :
    Spec (passes sys licence) (fun t => t = s) (retirePair r)
      (fun _ t => Retired sys r s t) := by
  refine (spec_call (Q := fun _ t => Unready sys r s t) ?_).bind fun _ => ?_
  · rintro t rfl
    exact ⟨free _ t rfl staged, deleteReady_unready r t⟩
  refine (spec_reportUnless (P := fun t => Unready sys r s t) free _ _ _
    (fun t held => held.only.swapped ▸ staged) fun t issues held =>
      ⟨⟨held.only.ready, held.only.index, held.only.live, held.only.swapped⟩,
      held.ready, held.failed⟩).bind fun _ => ?_
  refine Spec.bind (Q := fun _ t => Retired sys r s t) ?_ fun _ =>
    spec_reportUnless free _ _ _ (fun t held => held.only.swapped ▸ staged)
      fun t issues held => ⟨⟨held.only.ready, held.only.index, held.only.live, held.only.swapped⟩,
        ⟨held.gone.ready, held.gone.index⟩, held.failed⟩
  unfold deleteIndex
  refine spec_ite (fun pathless => ?_) fun path => ?_
  · exact spec_still fun t held => ⟨held.only, ⟨held.ready, fun path => absurd pathless path⟩,
      held.failed⟩
  · exact spec_call fun t held => ⟨free _ t rfl (held.only.swapped ▸ staged), held.retired path⟩

end PreSwap

section Reading
variable {sys} {b : String} {r : RoutedCallbacks} {s : State Key} {e : Option Entry}

omit [DecidableEq Key] in
theorem entry_of_present {raw : ByteArray} (h : readEntry sys e = .present raw) :
    e = some (.file raw) := by
  cases e with
  | none => cases h
  | some e =>
    cases e with
    | other => cases h
    | file body =>
      simp only [readEntry] at h
      split at h
      · cases h
      · split at h
        · exact congrArg (fun raw => some (Entry.file raw)) (Marker.present.inj h)
        · cases h

omit [DecidableEq Key] in
theorem none_of_absent (h : readEntry sys e = .absent) : e = none := by
  cases e with
  | none => rfl
  | some e =>
    cases e with
    | other => cases h
    | file body =>
      simp only [readEntry] at h
      split at h
      · cases h
      · split at h <;> cases h

omit [DecidableEq Key] in
theorem readEntry_canonical {p : MarkerPayload}
    (fits : (canonicalMarkerBytes p).size ≤ markerStateMaxBytes) :
    readEntry sys (some (.file (canonicalMarkerBytes p))) = .present (canonicalMarkerBytes p) := by
  simp only [readEntry, if_neg (Nat.not_lt.mpr fits), sys.object_canonical, if_true]

omit [DecidableEq Key] in
theorem readEntry_long {body : ByteArray} (long : markerStateMaxBytes < body.size) :
    readEntry sys (some (.file body)) = .invalid := by
  simp only [readEntry, if_pos long]

def indexRead (sys : Platform Key) (r : RoutedCallbacks) (s : State Key) : Marker :=
  if r.path = "" then .absent else s.readIndexMarker sys r.path

theorem whole_of_classify
    (h : (classify sys b r (s.readMarker sys r.plugin) (indexRead sys r s)).1 = false) :
    Whole sys b r s := by
  have both : s.readMarker sys r.plugin = .present (canonicalMarkerBytes (readyPayload sys b r)) ∧
      (r.path ≠ "" → s.readIndexMarker sys r.path =
        .present (canonicalMarkerBytes (indexPayload sys b r))) := by
    unfold classify indexRead at h
    by_cases pathless : r.path = ""
    · rw [if_pos pathless] at h
      exact ⟨by simpa using h, fun path => absurd pathless path⟩
    · rw [if_neg pathless, if_neg pathless] at h
      have fine := by simpa using h
      exact ⟨fine.1, fun _ => fine.2⟩
  obtain ⟨ready, index⟩ := both
  unfold State.readMarker at ready
  split at ready
  · exact ⟨‹_›, entry_of_present ready, fun path => entry_of_present (index path)⟩
  · cases ready

theorem gone_of_classify
    (h : (classify sys b r (s.readMarker sys r.plugin) (indexRead sys r s)).2 = false) :
    Gone sys r s := by
  have both : s.readMarker sys r.plugin = .absent ∧
      (r.path ≠ "" → s.readIndexMarker sys r.path = .absent) := by
    unfold classify indexRead at h
    by_cases pathless : r.path = ""
    · rw [if_pos pathless] at h
      exact ⟨by simpa using h, fun path => absurd pathless path⟩
    · rw [if_neg pathless, if_neg pathless] at h
      have fine := by simpa using h
      exact ⟨fine.1, fun _ => fine.2⟩
  obtain ⟨ready, index⟩ := both
  refine ⟨fun dir => ?_, fun path => none_of_absent (index path)⟩
  unfold State.readMarker at ready
  rw [if_pos (Bool.and_elim_left dir)] at ready
  exact none_of_absent ready

end Reading

section Examination
variable {sys} {desired : DesiredCallbacks} {b : String} {q r : RoutedCallbacks} {s t : State Key}
variable {licence : MarkerOp Key → State Key → Prop} {stage : Bool → Prop}
variable (free : ∀ op s, late op = false → stage s.swapped → licence op s)

variable (sys) in
/-- What the examination of a plugin has done to the state `s`. -/
structure Examined (b : String) (r : RoutedCallbacks) (s : State Key)
    (result : Option RoutedCallbacks) (t : State Key) : Prop where
  only : Only sys r s t
  failed : t.failed = s.failed
  ends : (result = none ∧ Whole sys b r t) ∨ (result = some r ∧ Gone sys r t)

include free

theorem spec_pairState (staged : stage s.swapped) :
    Spec (passes sys licence) (fun t => t = s) (pairState sys b r) (fun state t =>
      t = s ∧ state = classify sys b r (s.readMarker sys r.plugin) (indexRead sys r s)) := by
  refine Spec.bind (Q := fun (m : Marker) t => t = s ∧ m = s.readMarker sys r.plugin)
    (spec_call ?_) fun m => ?_
  · rintro t rfl
    exact ⟨free _ t rfl staged, fun _ => ⟨rfl, rfl⟩⟩
  refine Spec.bind (Q := fun (n : Marker) t => (t = s ∧ m = s.readMarker sys r.plugin) ∧
    n = indexRead sys r s) ?_ fun n => ?_
  · unfold readIndex indexRead
    refine spec_ite (fun pathless => ?_) fun path => ?_
    · exact spec_still fun t held => ⟨held, (if_pos pathless).symm⟩
    · refine spec_call fun t held => ⟨free _ t rfl (held.1 ▸ staged), fun _ => ⟨held, ?_⟩⟩
      rw [if_neg path, ← held.1]
      rfl
  · refine spec_still fun t held => ⟨held.1.1, ?_⟩
    rw [held.1.2, held.2]

theorem spec_examine (base : desired.base = some b) (staged : stage s.swapped) :
    Spec (passes sys licence) (fun t => t = s) (examine sys desired r)
      (fun result t => Examined sys b r s result t) := by
  have value : desired.base.getD "" = b := by rw [base]; rfl
  unfold examine
  rw [value]
  refine (spec_pairState free staged).bind fun state => ?_
  unfold retireStale
  refine spec_ite (fun needs => ?_) fun fine => ?_
  · refine Spec.bind (Q := fun _ t => Retired sys r s t) ?_ fun _ =>
      spec_still fun t held => ⟨held.only, held.failed, .inr ⟨rfl, held.gone⟩⟩
    unfold retireOnDisk
    refine spec_ite (fun onDisk => ?_) fun nothing => ?_
    · exact (spec_retirePair free staged).pre fun t _ held => held.1
    · refine spec_still fun t held => ?_
      obtain ⟨rfl, read⟩ := held
      refine ⟨.refl, gone_of_classify (b := b) ?_, rfl⟩
      rw [← read]
      exact eq_false_of_ne_true nothing
  · refine spec_still fun t held => ?_
    obtain ⟨rfl, read⟩ := held
    refine ⟨.refl, rfl, .inl ⟨rfl, whole_of_classify ?_⟩⟩
    rw [← read]
    exact eq_false_of_ne_true fine

end Examination

/-- No marker is left of a plugin or a path that is not routed. -/
structure Swept (desired : DesiredCallbacks) (s : State Key) : Prop where
  ready : ∀ p, pluginDir p = true → entryAt s.ready p ≠ none →
    p ∈ (routedByPlugin desired).rows.map RoutedCallbacks.plugin
  index : ∀ k, entryAt s.index k ≠ none → k ∈ desiredKeys sys desired

section Sweep
variable {sys} {desired : DesiredCallbacks} {s : State Key}
variable {licence : MarkerOp Key → State Key → Prop} {stage : Bool → Prop}

variable (desired) in
/-- The ready markers of orphans are gone, but for those still listed. -/
structure SweptReady (listed : List String) (s t : State Key) : Prop where
  failed : t.failed = s.failed
  swapped : t.swapped = s.swapped
  ready : ∀ p, pluginDir p = true → entryAt t.ready p ≠ none →
    p ∈ (routedByPlugin desired).rows.map RoutedCallbacks.plugin ∨ p ∈ listed

variable (sys desired) in
structure SweptIndex (listed : List Key) (s t : State Key) : Prop where
  plugins : SweptReady desired [] s t
  index : ∀ k, entryAt t.index k ≠ none → k ∈ desiredKeys sys desired ∨ k ∈ listed

omit [DecidableEq Key] in
theorem SweptReady.skip {p : String} {rest : List String} {t : State Key}
    (h : SweptReady desired (p :: rest) s t)
    (routed : p ∈ (routedByPlugin desired).rows.map RoutedCallbacks.plugin) :
    SweptReady desired rest s t where
  failed := h.failed
  swapped := h.swapped
  ready q dir found := by
    cases h.ready q dir found with
    | inl known => exact .inl known
    | inr later =>
      cases List.mem_cons.mp later with
      | inl same => exact .inl (same ▸ routed)
      | inr later => exact .inr later

omit [DecidableEq Key] in
theorem SweptReady.drop {p : String} {rest : List String} {t : State Key}
    (h : SweptReady desired (p :: rest) s t) (dir : pluginDir p = true) :
    SweptReady desired rest s (t.deleteReady p).2 := by
  unfold State.deleteReady
  rw [if_pos (Bool.and_elim_left dir)]
  refine ⟨h.failed, h.swapped, fun q dirQ found => ?_⟩
  change entryAt (t.ready.remove p) q ≠ none at found
  rw [entryAt_remove] at found
  by_cases same : p = q
  · rw [if_pos same] at found
    exact absurd rfl found
  · rw [if_neg same] at found
    exact (h.ready q dirQ found).imp_right fun later =>
      (List.mem_cons.mp later).resolve_left fun eq => same eq.symm

theorem SweptIndex.skip {k : Key} {rest : List Key} {t : State Key}
    (h : SweptIndex sys desired (k :: rest) s t) (routed : k ∈ desiredKeys sys desired) :
    SweptIndex sys desired rest s t where
  plugins := h.plugins
  index l found := by
    cases h.index l found with
    | inl known => exact .inl known
    | inr later =>
      cases List.mem_cons.mp later with
      | inl same => exact .inl (same ▸ routed)
      | inr later => exact .inr later

theorem SweptIndex.drop {k : Key} {rest : List Key} {t : State Key}
    (h : SweptIndex sys desired (k :: rest) s t) :
    SweptIndex sys desired rest s (t.deleteIndexKey k).2 := by
  refine ⟨⟨h.plugins.failed, h.plugins.swapped, h.plugins.ready⟩, fun l found => ?_⟩
  change entryAt (t.index.remove k) l ≠ none at found
  rw [entryAt_remove] at found
  by_cases same : k = l
  · rw [if_pos same] at found
    exact absurd rfl found
  · rw [if_neg same] at found
    exact (h.index l found).imp_right fun later =>
      (List.mem_cons.mp later).resolve_left fun eq => same eq.symm

variable (free : ∀ op s, late op = false → stage s.swapped → licence op s)
include free

theorem spec_retireOrphan {p : String} {rest : List String} (staged : stage s.swapped)
    (dir : pluginDir p = true) :
    Spec (passes sys licence) (SweptReady desired (p :: rest) s) (retireOrphan desired p)
      (fun _ => SweptReady desired rest s) := by
  unfold retireOrphan
  refine spec_ite (fun routed => ?_) fun orphan => ?_
  · exact spec_still fun t held => held.skip routed
  · refine Spec.bind (Q := fun (_ : Bool) => SweptReady desired rest s) (spec_call fun t held =>
      ⟨free _ t rfl (held.swapped ▸ staged), fun _ => held.drop dir⟩) fun _ => ?_
    exact spec_reportUnless free _ _ _ (fun t held => held.swapped ▸ staged)
      fun t issues held => ⟨held.failed, held.swapped, held.ready⟩

theorem spec_retireOrphanKey {k : Key} {rest : List Key} (staged : stage s.swapped) :
    Spec (passes sys licence) (SweptIndex sys desired (k :: rest) s) (retireOrphanKey sys desired k)
      (fun _ => SweptIndex sys desired rest s) := by
  unfold retireOrphanKey
  refine spec_ite (fun routed => ?_) fun orphan => ?_
  · exact spec_still fun t held => held.skip routed
  · refine Spec.bind (Q := fun (_ : Bool) => SweptIndex sys desired rest s) (spec_call fun t held =>
      ⟨free _ t rfl (held.plugins.swapped ▸ staged), fun _ => held.drop⟩) fun _ => ?_
    exact spec_still fun t held => held

theorem spec_retireOrphans (prunable : desired.prunable = true) (staged : stage s.swapped) :
    Spec (passes sys licence) (fun t => t = s) (retireOrphans sys desired)
      (fun _ t => Swept sys desired t ∧ t.failed = s.failed ∧ t.swapped = s.swapped) := by
  unfold retireOrphans
  rw [if_pos prunable]
  refine Spec.bind (Q := fun (listed : List String) t =>
    (∀ p ∈ listed, pluginDir p = true) ∧ SweptReady desired listed s t)
    (spec_call ?_) fun listed => spec_of fun dirs => ?_
  · rintro t rfl
    refine ⟨free _ t rfl staged, fun _ => ⟨fun p mem => ?_, rfl, rfl, fun p dir found => ?_⟩⟩
    · exact List.of_mem_filter (List.mem_mergeSort.mp mem)
    · exact .inr (List.mem_mergeSort.mpr (List.mem_filter.mpr ⟨mem_shelf.mpr found, dir⟩))
  refine (spec_forEach_rest (fun rest _ => SweptReady desired rest s) listed
    (fun _ _ => stable_sequential _) fun p rest _ mem =>
      spec_retireOrphan free staged (dirs p mem)).bind fun _ => ?_
  refine Spec.bind (Q := fun (keys : List Key) t => SweptIndex sys desired keys s t)
    (spec_call fun t held => ?_) fun keys => ?_
  · refine ⟨free _ t rfl (held.swapped ▸ staged), fun _ => ⟨held, fun k found => ?_⟩⟩
    exact .inr (mem_shelf.mpr found)
  refine (spec_forEach_rest (fun rest _ => SweptIndex sys desired rest s) keys
    (fun _ _ => stable_sequential _) fun k rest _ _ =>
      spec_retireOrphanKey free staged).bind fun _ => ?_
  refine spec_still fun t held => ⟨⟨fun p dir found => ?_, fun k found => ?_⟩,
    held.plugins.failed, held.plugins.swapped⟩
  · exact (held.plugins.ready p dir found).resolve_right List.not_mem_nil
  · exact (held.index k found).resolve_right List.not_mem_nil

end Sweep

section Swap
variable {sys} {desired : DesiredCallbacks} {b : String} {q r : RoutedCallbacks} {s t : State Key}
variable {licence : MarkerOp Key → State Key → Prop} {stage : Bool → Prop}

omit [DecidableEq Key] in
theorem mem_routedByPlugin (routing : Routing sys desired) :
    r ∈ (routedByPlugin desired).rows ↔ (∃ b, desired.base = some b) ∧ r ∈ desired.routed := by
  unfold routedByPlugin
  cases base : desired.base with
  | none =>
    refine ⟨fun mem => ?_, fun ⟨⟨b, h⟩, _⟩ => ?_⟩
    · cases mem
    · cases h
  | some b =>
    have rows : (desired.routed.foldl Table.put Table.empty).rows = desired.routed :=
      Table.rows_foldl_put routing.named
    change r ∈ (desired.routed.foldl Table.put Table.empty).rows ↔ _
    rw [rows]
    exact ⟨fun mem => ⟨⟨b, rfl⟩, mem⟩, And.right⟩

omit [DecidableEq Key] in
theorem mem_desiredKeys {k : Key} : k ∈ desiredKeys sys desired ↔
    (∃ b, desired.base = some b) ∧ ∃ r ∈ desired.routed, r.path ≠ "" ∧ sys.indexKey r.path = k := by
  unfold desiredKeys
  cases desired.base with
  | none => simp
  | some b => simp [and_assoc]

theorem Swept.frame (routing : Routing sys desired) (swept : Swept sys desired s)
    (mem : q ∈ (routedByPlugin desired).rows) (only : Only sys q s t) : Swept sys desired t where
  ready p dir found := by
    by_cases same : q.plugin = p
    · exact same ▸ List.mem_map_of_mem mem
    · exact swept.ready p dir (only.ready p same ▸ found)
  index k found := by
    by_cases own : q.path ≠ "" ∧ sys.indexKey q.path = k
    · obtain ⟨base, routed⟩ := (mem_routedByPlugin routing).mp mem
      exact mem_desiredKeys.mpr ⟨base, q, routed, own⟩
    · exact swept.index k (only.index k (fun path same => own ⟨path, same⟩) ▸ found)

variable (sys desired) in
/-- The plugins that are still to be examined are listed in `rest`; the others have their markers,
or they have none and are to be published. -/
structure Examining (rest : List RoutedCallbacks) (results : List (Option RoutedCallbacks))
    (s t : State Key) : Prop where
  swept : Swept sys desired t
  failed : t.failed = s.failed
  swapped : t.swapped = s.swapped
  known : ∀ r, some r ∈ results → r ∈ (routedByPlugin desired).rows
  examined : ∀ r ∈ (routedByPlugin desired).rows, r ∈ rest ∨
    Whole sys (desired.base.getD "") r t ∨ (Gone sys r t ∧ some r ∈ results)

theorem Examining.step (routing : Routing sys desired) {u : State Key}
    {rest : List RoutedCallbacks} {results : List (Option RoutedCallbacks)}
    {g : Option RoutedCallbacks} (h : Examining sys desired (q :: rest) results s t)
    (mem : q ∈ (routedByPlugin desired).rows)
    (done : Examined sys (desired.base.getD "") q t g u) :
    Examining sys desired rest (results ++ [g]) s u where
  swept := h.swept.frame routing mem done.only
  failed := done.failed.trans h.failed
  swapped := done.only.swapped.trans h.swapped
  known r found := by
    cases List.mem_append.mp found with
    | inl old => exact h.known r old
    | inr new =>
      have same : some r = g := List.mem_singleton.mp new
      cases done.ends with
      | inl whole => exact absurd (same.trans whole.1) nofun
      | inr gone => exact Option.some.inj (same.trans gone.1) ▸ mem
  examined r routed := by
    by_cases same : r = q
    · subst same
      refine .inr ?_
      cases done.ends with
      | inl whole => exact .inl whole.2
      | inr gone =>
        exact .inr ⟨gone.2, List.mem_append_right _ (List.mem_singleton.mpr gone.1.symm)⟩
    · have apart : Apart sys q r := routing.plugins_apart ((mem_routedByPlugin routing).mp mem).2
        ((mem_routedByPlugin routing).mp routed).2 fun eq => same eq.symm
      cases h.examined r routed with
      | inl listed => exact .inl ((List.mem_cons.mp listed).resolve_left same)
      | inr held =>
        refine .inr (held.imp (fun whole => whole.frame done.only apart) fun gone => ?_)
        exact ⟨gone.1.frame done.only apart, List.mem_append_left _ gone.2⟩

variable (sys desired) in
structure Prepared (republish : List RoutedCallbacks) (s t : State Key) : Prop where
  swept : Swept sys desired t
  failed : t.failed = s.failed
  swapped : t.swapped = s.swapped
  known : ∀ r ∈ republish, r ∈ (routedByPlugin desired).rows
  settled : ∀ r ∈ (routedByPlugin desired).rows,
    Whole sys (desired.base.getD "") r t ∨ (Gone sys r t ∧ r ∈ republish)

variable (free : ∀ op s, late op = false → stage s.swapped → licence op s)
include free

variable (stage) in
theorem spec_preSwap (routing : Routing sys desired) (prunable : desired.prunable = true)
    (staged : stage s.swapped) :
    Spec (passes sys licence) (fun t => t = s) (preSwap sys desired)
      (fun republish t => Prepared sys desired republish s t) := by
  refine (spec_retireOrphans free prunable staged).bind fun _ => ?_
  refine Spec.bind (Q := fun results t => Examining sys desired [] results s t) ?_
    fun results => ?_
  · refine (spec_forEach_rest (fun rest results t => Examining sys desired rest results s t)
      (routedByPlugin desired).rows (fun _ _ => stable_sequential _)
      fun q rest results mem => ?_).pre fun t _ held => ?_
    · refine spec_each fun t _ held => ?_
      obtain ⟨⟨b, base⟩, _⟩ := (mem_routedByPlugin routing).mp mem
      have value : desired.base.getD "" = b := by rw [base]; rfl
      refine (spec_examine free base (held.swapped ▸ staged)).post fun g u _ done => ?_
      exact held.step routing mem (value ▸ done)
    · refine ⟨held.1, held.2.1, held.2.2, fun r found => ?_, fun r mem => .inl mem⟩
      cases found
  · refine spec_still fun t held => ⟨held.swept, held.failed, held.swapped, fun r mem => ?_,
      fun r mem => ?_⟩
    · exact held.known r (List.reduceOption_mem_iff.mp mem)
    · refine ((held.examined r mem).resolve_left List.not_mem_nil).imp_right fun gone => ?_
      exact ⟨gone.1, List.reduceOption_mem_iff.mpr gone.2⟩

end Swap

end Casa.CallbackReadiness
