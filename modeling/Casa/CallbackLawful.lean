import Casa.CallbackPassSpecs
import Mathlib.Data.List.Dedup

/-! Every task of the spool asks only for operations that are licensed, so a run is a
sequence of licensed operations, consumer moves and crashes. -/

namespace Casa.CallbackLawful
open CallbackAttempts OperationTree CallbackSpool CallbackPasses CallbackHost CallbackLicence
open CallbackSpecs CallbackPassSpecs StepRuns

variable {H T M α β γ : Type} [LinearOrder H]

abbrev law (H T M : Type) [LinearOrder H] :
    Discipline (keyedRun (H := H) (runCell (H := H) (T := T) (M := M)) survey) :=
  (discipline H T M).keyed survey

section Listing

def Seen : Entry H → Cell T M → Prop
  | .pending _, c | .claim _, c | .result _, c | .held _ _, c => c.Live
  | .token _, c => c.token ≠ none
  | .temp _, _ | .attempt _, _ => True

omit [LinearOrder H] in
theorem seen_of_has {e : Entry H} {c : Cell T M} (h : c.has (Entry.slot e) = true) : Seen e c := by
  cases e with
  | pending h' => exact .inl (Option.isSome_iff_ne_none.mp h)
  | claim h' => exact .inr (.inl (Option.isSome_iff_ne_none.mp h))
  | result h' => exact .inr (.inr (.inl (Option.isSome_iff_ne_none.mp h)))
  | held h' uid =>
    refine .inr (.inr (.inr fun empty => ?_))
    change (c.held.any fun e => e.1 = uid) = true at h
    rw [empty] at h
    cases h
  | token h' => exact Option.isSome_iff_ne_none.mp h
  | temp h' => trivial
  | attempt h' => trivial

omit [LinearOrder H] in
theorem stable_seen (e : Entry H) : Lasts H T M (Seen e) := by
  cases e with
  | token h => exact stable_token
  | temp h => exact stable_const True
  | attempt h => exact stable_const True
  | _ => exact stable_live

variable {P : (H → Cell T M) → Prop}

theorem spec_openDir {dir : Dir} (stable : Stable (law H T M) P) :
    Spec (law H T M) P (openDir dir) (fun _ s => P s) :=
  spec_survey (V := spoolSig H) stable (fun _ => stable) fun _ _ held _ => held

def Listing (dir : Dir) (es : List (Entry H)) (s : H → Cell T M) : Prop :=
  es.Nodup ∧ (∀ e ∈ es, Entry.dir e = dir) ∧ ∀ e ∈ es, Seen e (s (Entry.key e))

theorem stable_listing {dir : Dir} (es : List (Entry H)) :
    Stable (law H T M) (Listing dir es) :=
  fun _ _ inv moved held => ⟨held.1, held.2.1, fun e mem =>
    stable_seen e _ _ (inv _) (moved _) (held.2.2 e mem)⟩

theorem spec_list {dir : Dir} (stable : Stable (law H T M) P) :
    Spec (law H T M) P (list dir) (fun es s => P s ∧ Listing dir es s) := by
  refine spec_survey (V := spoolSig H) stable (fun es => stable.and (stable_listing es))
    fun s _ held i => ⟨held, ?_⟩
  change Listing dir (if i.ok = true then _ else ([] : List (Entry H))) s
  split
  · refine ⟨List.nodup_dedup _, fun e mem => ?_, fun e mem => ?_⟩
    · rw [List.mem_dedup, List.mem_filter, Bool.and_eq_true] at mem
      exact of_decide_eq_true mem.2.1
    · rw [List.mem_dedup, List.mem_filter, Bool.and_eq_true] at mem
      exact seen_of_has mem.2.2
  · exact ⟨List.nodup_nil, List.forall_mem_nil _, List.forall_mem_nil _⟩

theorem spec_listIf {opened : Bool} {dir : Dir} (stable : Stable (law H T M) P) :
    Spec (law H T M) P (listIf opened dir) (fun es s => P s ∧ Listing dir es s) := by
  rw [listIf]
  split
  · exact spec_list stable
  · exact spec_pure (stable.and (stable_listing _)) fun s _ held =>
      ⟨held, List.nodup_nil, List.forall_mem_nil _, List.forall_mem_nil _⟩

omit [LinearOrder H] in
theorem nodup_keys {f : Entry H → Option α} {es : List (Entry H)} (nodup : es.Nodup)
    (inj : ∀ e d a, f e = some a → f d = some a → e = d) : (es.filterMap f).Nodup :=
  nodup.filterMap fun e d a first second => inj e d a first second

omit [LinearOrder H] in
theorem live_of_listing {dir : Dir} {es : List (Entry H)} {s : H → Cell T M}
    (listing : Listing dir es s) {e : Entry H} (mem : e ∈ es) {h : H}
    (named : artifactKey e = some h) : (s h).Live := by
  have seen := listing.2.2 e mem
  cases e <;> cases named <;> exact seen

end Listing

section Loops
variable {boot : Bool}

def AllCalm (boot : Bool) (s : H → Cell T M) : Prop := ∀ h, Calm boot (s h)

theorem stable_allCalm : Stable (law H T M) (AllCalm boot) :=
  fun _ _ inv moved held h => stable_calm (H := H) _ _ (inv h) (moved h) (held h)

theorem spec_calmLoop {key : β → H} {f : β → CellProg T M γ} (items : List β)
    (body : ∀ b c, Calm boot c → Yields H T M (Kin c) (f b) (fun _ d => Kin c d)) :
    Spec (law H T M) (AllCalm boot) (forEachAt key f items) (fun _ s => AllCalm boot s) := by
  refine (spec_forEach_kin (B := fun _ _ _ => True) (F := fun _ c => Calm boot c) Kin.refl
    (fun c d _ moved => kin_of_drift moved) (fun b c calm => ?_) (fun _ _ _ _ _ held => held)
    items (fun _ _ _ held => held) fun _ c d kin held => calm_of_phase kin.1 held).post
    fun _ s _ held => held.1
  exact (body b c calm).post fun _ d _ kin => ⟨kin, trivial⟩

theorem spec_knownLoop {key : β → H} {f : β → CellProg T M γ} {A : β → Cell T M → Prop}
    {B : β → γ → Cell T M → Prop} (items : List β) (kept : Records H T M)
    (body : ∀ b c₀, Calm boot c₀ → Yields H T M (fun c => Kin c₀ c ∧ A b c) (f b)
      (fun g c => Calm boot c ∧ B b g c))
    (before : ∀ b, Lasts H T M (A b))
    (after : ∀ b g, Lasts H T M (B b g)) (distinct : (items.map key).Nodup)
    (apart : ∀ p ∈ kept, p.1 ∉ items.map key) :
    Spec (law H T M)
      (fun s => AllCalm boot s ∧ (∀ b ∈ items, A b (s (key b))) ∧ ∀ p ∈ kept, Snapshot p.2 (s p.1))
      (forEachAt key f items)
      (fun gs s => AllCalm boot s ∧ List.Forall₂ (fun b g => B b g (s (key b))) items gs ∧
        ∀ p ∈ kept, Snapshot p.2 (s p.1)) := by
  have spared : ∀ h, Lasts H T M
      (fun c => Calm boot c ∧ ∀ p ∈ kept, p.1 = h → Snapshot p.2 c) :=
    fun h => stable_calm.and fun s t inv moved held p mem same =>
      stable_snapshot (H := H) p.2 s t inv moved (held p mem same)
  have loop : Spec (law H T M) _ (forEachAt key f items) _ := spec_forEach (f := f)
    (A := fun b c => Calm boot c ∧ A b c) (B := fun b g c => Calm boot c ∧ B b g c)
    (F := fun h c => Calm boot c ∧ ∀ p ∈ kept, p.1 = h → Snapshot p.2 c)
    (fun b c inv held => body b c held.1 c inv ⟨Kin.refl c, held.2⟩)
    (fun b => stable_calm.and (before b)) (fun b g => stable_calm.and (after b g)) items distinct
    spared
  refine (loop.pre ?_).post ?_
  · rintro s - ⟨calm, known, snaps⟩
    refine ⟨fun b mem => ⟨calm _, known b mem⟩, fun h _ => ⟨calm h, ?_⟩⟩
    rintro p mem rfl
    exact snaps p mem
  · rintro gs s - ⟨done, rest⟩
    refine ⟨fun h => ?_, done.imp fun b g both => both.2, fun p mem =>
      (rest p.1 (apart p mem)).2 p mem rfl⟩
    by_cases mem : h ∈ items.map key
    · obtain ⟨b, inside, rfl⟩ := List.mem_map.mp mem
      obtain ⟨g, -, both⟩ := forall₂_left done inside
      exact both.1
    · exact (rest h mem).1

end Loops

section Scan
variable {boot : Bool}

structure Known (boot : Bool) (records : Records H T M) (s : H → Cell T M) : Prop where
  calm : AllCalm boot s
  distinct : (records.map (·.1)).Nodup
  snap : ∀ p ∈ records, Snapshot p.2 (s p.1)

theorem stable_snaps (records : Records H T M) :
    Stable (law H T M) (fun s => ∀ p ∈ records, Snapshot p.2 (s p.1)) :=
  fun _ _ inv moved held p mem =>
    stable_snapshot (H := H) p.2 _ _ (inv _) (moved _) (held p mem)

omit [LinearOrder H] in
theorem Known.perm {records others : Records H T M} {s : H → Cell T M} (known : Known boot records s)
    (perm : others.Perm records) : Known boot others s where
  calm := known.calm
  distinct := (perm.map _).nodup_iff.mpr known.distinct
  snap p mem := known.snap p (perm.mem_iff.mp mem)

omit [LinearOrder H] in
theorem Known.sublist {records others : Records H T M} {s : H → Cell T M}
    (known : Known boot records s) (sub : others.Sublist records) : Known boot others s where
  calm := known.calm
  distinct := known.distinct.sublist (sub.map _)
  snap p mem := known.snap p (sub.subset mem)

def Scanned (boot : Bool) (x : Records H T M × List H) (s : H → Cell T M) : Prop :=
  AllCalm boot s ∧ (x.1.map (·.1) ++ x.2).Nodup ∧ ∀ p ∈ x.1, Snapshot p.2 (s p.1)

theorem stable_scanned (x : Records H T M × List H) : Stable (law H T M) (Scanned boot x) :=
  stable_allCalm.and ((stable_const _).and (stable_snaps x.1))

omit [LinearOrder H] in
theorem mem_of_validOf {g : H × Option (AttemptFile T M)} {p : H × Attempt T M}
    (h : validOf g = some p) : g = (p.1, some (.record p.2)) := by
  obtain ⟨h', _ | _ | a⟩ := g <;> cases h
  rfl

omit [LinearOrder H] in
theorem mem_of_invalidOf {g : H × Option (AttemptFile T M)} {h : H}
    (found : invalidOf g = some h) : g = (h, some .invalid) := by
  obtain ⟨h', _ | _ | a⟩ := g <;> cases found
  rfl

omit [LinearOrder H] in
theorem scan_distinct {files : List (H × Option (AttemptFile T M))}
    (distinct : files.Pairwise fun g d => g.1 ≠ d.1) :
    ((files.filterMap validOf).map (·.1) ++ files.filterMap invalidOf).Nodup := by
  induction files with
  | nil => exact List.nodup_nil
  | cons g rest ih =>
    rw [List.pairwise_cons] at distinct
    have tail := ih distinct.2
    have valid : ∀ p ∈ rest.filterMap validOf, g.1 ≠ p.1 := by
      intro p mem
      obtain ⟨d, inside, found⟩ := List.mem_filterMap.mp mem
      have apart := distinct.1 d inside
      rwa [mem_of_validOf found] at apart
    have invalid : ∀ h ∈ rest.filterMap invalidOf, g.1 ≠ h := by
      intro h mem
      obtain ⟨d, inside, found⟩ := List.mem_filterMap.mp mem
      have apart := distinct.1 d inside
      rwa [mem_of_invalidOf found] at apart
    have new : g.1 ∉ (rest.filterMap validOf).map (·.1) ++ rest.filterMap invalidOf := by
      intro mem
      rcases List.mem_append.mp mem with mem | mem
      · obtain ⟨p, inside, same⟩ := List.mem_map.mp mem
        exact valid p inside same.symm
      · exact invalid g.1 mem rfl
    obtain ⟨h, _ | _ | a⟩ := g
    · exact tail
    · change ((rest.filterMap validOf).map (·.1) ++ h :: rest.filterMap invalidOf).Nodup
      rw [List.nodup_middle, List.nodup_cons]
      exact ⟨new, tail⟩
    · exact List.nodup_cons.mpr ⟨new, tail⟩

theorem spec_scanAttempts :
    Spec (law H T M) (AllCalm boot) scanAttempts (Scanned boot) := by
  refine (spec_list stable_allCalm).bind fun names => ?_
  have read : ∀ h : H, ∀ c₀ : Cell T M, Calm boot c₀ → Yields H T M
      (fun c => Kin c₀ c ∧ True) (readAttempt h)
      (fun g c => Calm boot c ∧ g.1 = h ∧ ∀ a, g.2 = some (.record a) → Snapshot a c) := by
    intro h c₀ calm
    have snaps : ∀ file : Option (AttemptFile T M), Lasts H T M
        (fun c => Calm boot c ∧ ∀ a, file = some (.record a) → Snapshot a c) :=
      fun file => stable_calm.and fun s t inv moved held a same =>
        stable_snapshot (H := H) a s t inv moved (held a same)
    refine (spec_look (Q := fun seen c => Calm boot c ∧
      ∀ a, seen.attempt = some (.record a) → Snapshot a c) ((stable_kin c₀).and (stable_const _))
      (fun seen => snaps _) fun c wf held => ⟨calm_of_phase held.1.1 calm, fun a present =>
        ⟨.inl present, wf.spent a present⟩⟩).bind fun seen => ?_
    refine spec_pure ?_ fun c _ held => ⟨held.1, rfl, held.2⟩
    exact fun s t inv moved held =>
      ⟨(snaps seen.attempt s t inv moved ⟨held.1, held.2.2⟩).1, rfl,
        (snaps seen.attempt s t inv moved ⟨held.1, held.2.2⟩).2⟩
  refine Spec.pre (P := fun s => names.Nodup ∧ AllCalm boot s) (spec_of fun nodup => ?_)
    fun s _ held => ⟨held.2.1, held.1⟩
  have keys : ((names.filterMap attemptKey).map id).Nodup := by
    rw [List.map_id]
    refine nodup_keys nodup fun e d a first second => ?_
    cases e <;> cases d <;> cases first <;> cases second
    rfl
  refine Spec.bind (Q := fun files s => AllCalm boot s ∧
    List.Forall₂ (fun h g => g.1 = h ∧ ∀ a, g.2 = some (.record a) → Snapshot a (s (id h)))
      (names.filterMap attemptKey) files) ?_ fun files => ?_
  · refine ((spec_knownLoop (A := fun _ _ => True) (B := fun h g c => g.1 = h ∧
      ∀ a, g.2 = some (.record a) → Snapshot a c) _ [] read (fun _ => stable_const _)
      (fun h g => ?_) keys (by simp)).pre fun s _ held => ⟨held, fun _ _ => trivial, List.forall_mem_nil _⟩).post
      fun gs s _ held => ⟨held.1, held.2.1⟩
    exact (stable_const _).and fun s t inv moved held a same =>
      stable_snapshot (H := H) a s t inv moved (held a same)
  · refine spec_pure (stable_scanned _) fun s _ held => ⟨held.1, ?_, fun p mem => ?_⟩
    · have same : names.filterMap attemptKey = files.map (·.1) := by
        rw [← List.forall₂_eq_eq_eq, List.forall₂_map_right_iff]
        exact held.2.imp fun h g both => both.1.symm
      rw [List.map_id, same] at keys
      refine (((List.perm_insertionSort _ _).map _).append
        (List.perm_insertionSort _ _)).nodup_iff.mpr ?_
      exact scan_distinct (List.pairwise_map.mp keys)
    · rw [List.mem_insertionSort] at mem
      obtain ⟨g, inside, found⟩ := List.mem_filterMap.mp mem
      obtain ⟨h, -, same, snap⟩ := forall₂_right held.2 inside
      rw [mem_of_validOf found] at same snap
      cases same
      exact snap p.2 rfl

end Scan

section RecordLoops
variable {boot : Bool}

theorem spec_freshLoop {p : CellProg T M (Option (Attempt T M))} {A : Cell T M → Prop}
    (body : ∀ c₀, Yields H T M (fun c => Kin c₀ c ∧ A c) p
      (fun r c => Kin c₀ c ∧ ∀ a, r = some a → Snapshot a c))
    (stable : Lasts H T M A) (items : List H) (kept : Records H T M)
    (distinct : (kept.map (·.1) ++ items).Nodup) :
    Spec (law H T M)
      (fun s => AllCalm boot s ∧ (∀ h ∈ items, A (s h)) ∧ ∀ p ∈ kept, Snapshot p.2 (s p.1))
      (forEachAt id (fun h => withKey h p) items)
      (fun gs s => (gs.reduceOption.map (·.1)).Sublist items ∧
        Known boot (kept ++ gs.reduceOption) s) := by
  obtain ⟨first, second, apart⟩ := List.nodup_append'.mp distinct
  have written : ∀ (h : H) (r : Option (H × Attempt T M)), Lasts H T M
      (fun c => ∀ x, r = some x → x.1 = h ∧ Snapshot x.2 c) :=
    fun h r s t inv moved held x same =>
      ⟨(held x same).1, stable_snapshot (H := H) x.2 s t inv moved (held x same).2⟩
  have turn : ∀ (h : H) c₀, Calm boot c₀ → Yields H T M (fun c => Kin c₀ c ∧ A c)
      (withKey h p) (fun r c => Calm boot c ∧ ∀ x, r = some x → x.1 = h ∧ Snapshot x.2 c) := by
    intro h c₀ calm
    refine (body c₀).bind fun a => spec_pure (stable_calm.and (written h _)) ?_
    rintro c - ⟨kin, snap⟩
    refine ⟨calm_of_phase kin.1 calm, fun x same => ?_⟩
    cases a with
    | none => cases same
    | some a =>
      cases same
      exact ⟨rfl, snap a rfl⟩
  refine (spec_knownLoop items kept turn (fun _ => stable) written (by simpa using second)
    fun x mem inside => ?_).post ?_
  · rw [List.map_id'] at inside
    exact apart (List.mem_map_of_mem mem) inside
  · rintro gs s - ⟨calm, done, snaps⟩
    have keys : (gs.reduceOption.map (·.1)).Sublist (items.map id) :=
      keys_sublist (done.imp fun h r post x same => (post x same).1)
    rw [List.map_id] at keys
    refine ⟨keys, calm, ?_, fun x mem => ?_⟩
    · rw [List.map_append]
      exact distinct.sublist ((List.Sublist.refl _).append keys)
    · rcases List.mem_append.mp mem with mem | mem
      · exact snaps x mem
      · obtain ⟨h, -, post⟩ := forall₂_right done (List.reduceOption_mem_iff.mp mem)
        obtain ⟨same, snap⟩ := post x rfl
        rw [same]
        exact snap

theorem spec_recordLoop {f : Attempt T M → CellProg T M (Attempt T M)}
    (body : ∀ c₀ a, Yields H T M (fun c => Kin c₀ c ∧ Snapshot a c) (f a)
      (fun b c => Kin c₀ c ∧ Snapshot b c)) (records : Records H T M) :
    Spec (law H T M) (Known boot records)
      (forEachAt (·.1) (fun p => do
        let a ← f p.2
        pure (p.1, a)) records)
      (Known boot) := by
  have written : ∀ p x : H × Attempt T M, Lasts H T M
      (fun c => x.1 = p.1 ∧ Snapshot x.2 c) :=
    fun p x => (stable_const _).and (stable_snapshot x.2)
  refine Spec.pre (P := fun s => (records.map (·.1)).Nodup ∧ Known boot records s)
    (spec_of fun distinct => ?_) fun s _ known => ⟨known.distinct, known⟩
  refine ((spec_knownLoop (A := fun p => Snapshot p.2)
    (B := fun p x c => x.1 = p.1 ∧ Snapshot x.2 c) records [] (fun p c₀ calm => ?_)
    (fun p => stable_snapshot p.2) written distinct (by simp)).pre
    fun s _ known => ⟨known.calm, known.snap, List.forall_mem_nil _⟩).post ?_
  · refine (body c₀ p.2).bind fun a => spec_pure (stable_calm.and (written p (p.1, a))) ?_
    exact fun c _ held => ⟨calm_of_phase held.1.1 calm, rfl, held.2⟩
  · rintro gs s - ⟨calm, done, -⟩
    refine ⟨calm, ?_, fun x mem => ?_⟩
    · have same : records.map (·.1) = gs.map (·.1) := by
        rw [← List.forall₂_eq_eq_eq, List.forall₂_map_left_iff, List.forall₂_map_right_iff]
        exact done.imp fun p x both => both.1.symm
      exact same ▸ distinct
    · obtain ⟨p, -, same, snap⟩ := forall₂_right done mem
      rw [same]
      exact snap

theorem spec_dropLoop {f : H × Attempt T M → CellProg T M γ} (items kept : Records H T M)
    (body : ∀ p ∈ items, ∀ c₀, Yields H T M (fun c => Kin c₀ c ∧ Snapshot p.2 c) (f p)
      (fun _ c => Kin c₀ c)) :
    Spec (law H T M) (Known boot (items ++ kept)) (forEachAt (·.1) f items)
      (fun _ s => Known boot kept s) := by
  refine Spec.pre (P := fun s => ((items ++ kept).map (·.1)).Nodup ∧ Known boot (items ++ kept) s)
    (spec_of fun distinct => ?_) fun s _ known => ⟨known.distinct, known⟩
  rw [List.map_append] at distinct
  obtain ⟨first, second, apart⟩ := List.nodup_append'.mp distinct
  refine ((spec_knownLoop (A := fun p c => p ∈ items ∧ Snapshot p.2 c) (B := fun _ _ _ => True)
    items kept (fun p c₀ (calm : Calm boot c₀) => ?_)
    (fun p => (stable_const _).and (stable_snapshot p.2))
    (fun _ _ => stable_const _) first fun p mem inside =>
      apart inside (List.mem_map_of_mem mem)).pre ?_).post ?_
  · refine Spec.pre (P := fun c => p ∈ items ∧ Kin c₀ c ∧ Snapshot p.2 c)
      (spec_of fun mem => ?_) fun c _ held => ⟨held.2.1, held.1, held.2.2⟩
    exact (body p mem c₀).post fun _ c _ kin => ⟨calm_of_phase kin.1 calm, trivial⟩
  · exact fun s _ known => ⟨known.calm, fun p mem =>
      ⟨mem, known.snap p (List.mem_append_left _ mem)⟩, fun p mem =>
      known.snap p (List.mem_append_right _ mem)⟩
  · exact fun gs s _ held => ⟨held.1, second, held.2.2⟩

omit [LinearOrder H] in
theorem spec_retireDone {a : Attempt T M} (done : a.status.isDone = true) (c₀ : Cell T M) :
    Yields H T M (fun c => Kin c₀ c ∧ Snapshot a c) retire (fun _ c => Kin c₀ c) :=
  spec_retire (stable_record a) (fun _ held => held.1) fun _ held =>
    settled_of_snapshot held.2 done

end RecordLoops

section SweepLoops
variable {boot : Bool}

/-- Handlers are calm, and the flows in `hashes` are not over. -/
def Ongoing (boot : Bool) (hashes : List H) (s : H → Cell T M) : Prop :=
  AllCalm boot s ∧ ∀ h ∈ hashes, Active (s h)

theorem stable_ongoing (hashes : List H) : Stable (law H T M) (Ongoing boot hashes) :=
  stable_allCalm.and (stable_all fun _ _ => stable_active)

theorem spec_sweepLoop {key : β → H} {f : β → CellProg T M (Option T)}
    (body : ∀ b c, Yields H T M (Kin c) (f b) (Kept c)) (items : List β) :
    Spec (law H T M) (AllCalm boot)
      (forEachAt key (fun b => do
        let mtime ← f b
        pure (mtime.map fun t => (t, b))) items)
      (fun gs s => Ongoing boot (gs.reduceOption.map fun x => key x.2) s) := by
  refine (spec_forEach_kin (A := fun _ _ => True)
    (B := fun b r c => ∀ x, r = some x → x.2 = b ∧ Active c) (F := fun _ c => Calm boot c) Kin.refl
    (fun c d _ moved => kin_of_drift moved) (fun b c _ => ?_) ?_ items (fun _ _ _ _ => trivial)
    fun _ c d kin held => calm_of_phase kin.1 held).post ?_
  · refine (body b c).bind fun mtime => spec_pure ?_ fun d _ held => ⟨held.1, ?_⟩
    · exact (stable_kin c).and fun s t inv moved held x same =>
        ⟨(held x same).1, stable_active (H := H) s t inv moved (held x same).2⟩
    · intro x same
      cases mtime with
      | none => cases same
      | some t =>
        cases same
        exact ⟨rfl, held.2 rfl⟩
  · exact fun b r c d kin held x same => ⟨(held x same).1, kin.active (held x same).2⟩
  · rintro gs s - ⟨calm, done⟩
    refine ⟨calm, fun h mem => ?_⟩
    obtain ⟨x, inside, rfl⟩ := List.mem_map.mp mem
    obtain ⟨b, -, post⟩ := forall₂_right done (List.reduceOption_mem_iff.mp inside)
    obtain ⟨same, active⟩ := post x rfl
    rw [same]
    exact active

theorem spec_capLoop {key : β → H} {f : β → CellProg T M γ} (hashes : List H) (items : List β)
    (body : ∀ b c, Yields H T M (fun d => Kin c d ∧ Active d) (f b)
      (fun _ d => Kin c d)) (within : ∀ b ∈ items, key b ∈ hashes) :
    Spec (law H T M) (Ongoing boot hashes) (forEachAt key f items)
      (fun _ s => Ongoing boot hashes s) := by
  refine ((spec_forEach_kin (A := fun _ c => Active c) (B := fun _ _ _ => True)
    (F := fun h c => Calm boot c ∧ (h ∈ hashes → Active c)) Kin.refl
    (fun c d _ moved => kin_of_drift moved) (fun b c active => ?_) (fun _ _ _ _ _ held => held)
    items (fun b mem c held => held.2 (within b mem)) fun h c d kin held =>
      ⟨calm_of_phase kin.1 held.1, fun mem => kin.active (held.2 mem)⟩).pre
    fun s _ held h => ⟨held.1 h, held.2 h⟩).post
    fun _ s _ held => ⟨fun h => (held.1 h).1, fun h => (held.1 h).2⟩
  exact ((body b c).pre fun d _ kin => ⟨kin, kin.active active⟩).post fun _ d _ kin =>
    ⟨kin, trivial⟩

theorem spec_ifOpen {opened : Bool} {p : SpoolProg H T M PUnit}
    (h : Spec (law H T M) (AllCalm boot) p (fun _ s => AllCalm boot s)) :
    Spec (law H T M) (AllCalm boot) (ifOpen opened p) (fun _ s => AllCalm boot s) := by
  unfold ifOpen
  split
  · exact h
  · exact spec_pure stable_allCalm fun _ _ held => held

end SweepLoops

section Passes
variable {boot : Bool} {now : T} {dirs : Dirs}

theorem spec_selectNudgeable [LinearOrder T] :
    Spec (law H T M) (AllCalm boot) (selectNudgeable now) (fun _ s => AllCalm boot s) := by
  refine spec_scanAttempts.bind fun scanned => Spec.pre ?_ fun s _ held => held.1
  refine (spec_calmLoop _ fun _ _ _ => spec_selectNudge).bind fun _ => ?_
  exact spec_pure stable_allCalm fun _ _ held => held

variable [Add T] [NatCast T]

theorem spec_materializeAttempts (x : Records H T M × List H) :
    Spec (law H T M) (Scanned boot x) (materializeAttempts dirs now (x.1.map (·.1) ++ x.2))
      (fun fresh => Scanned boot (x.1 ++ fresh, x.2)) := by
  refine (spec_listIf (stable_scanned x)).bind fun pend => ?_
  refine (spec_listIf ((stable_scanned x).and (stable_listing pend))).bind fun results => ?_
  refine (spec_listIf (((stable_scanned x).and (stable_listing pend)).and
    (stable_listing results))).bind fun claims => ?_
  set union := ((pend ++ results ++ claims).filterMap artifactKey).dedup
  set known := x.1.map (·.1) ++ x.2 with eq
  set missing := (union.filter fun h => h ∉ known).insertionSort fun h k => h ≤ k
  have inside : ∀ h ∈ missing, h ∈ union ∧ h ∉ known := by
    intro h mem
    rw [List.mem_insertionSort, List.mem_filter] at mem
    exact ⟨mem.1, of_decide_eq_true mem.2⟩
  have once : missing.Nodup :=
    (List.perm_insertionSort _ _).nodup_iff.mpr ((List.nodup_dedup _).filter _)
  refine Spec.pre (P := fun s => known.Nodup ∧ AllCalm boot s ∧ (∀ h ∈ missing, (s h).Live) ∧
    ∀ p ∈ x.1, Snapshot p.2 (s p.1)) (spec_of fun distinct => ?_) ?_
  · have apart : known.Disjoint missing := fun h mem out => (inside h out).2 mem
    have both : (known ++ missing).Nodup := List.nodup_append'.mpr ⟨distinct, once, apart⟩
    have first : (x.1.map (·.1) ++ missing).Nodup :=
      both.sublist ((List.sublist_append_left _ _).append (List.Sublist.refl _))
    refine (spec_freshLoop (fun c₀ => spec_materialize) stable_live missing x.1 first).bind
      fun gs => spec_pure (stable_scanned _) fun s _ held => ⟨held.2.calm, ?_, held.2.snap⟩
    have keys : (x.1.map (·.1) ++ gs.reduceOption.map (·.1) ++ x.2).Perm
        (known ++ gs.reduceOption.map (·.1)) := by
      rw [eq, List.append_assoc, List.append_assoc]
      exact List.Perm.append_left _ List.perm_append_comm
    rw [List.map_append]
    exact keys.nodup_iff.mpr (both.sublist ((List.Sublist.refl _).append held.1))
  · rintro s - ⟨⟨⟨scanned, listed⟩, listed'⟩, listed''⟩
    refine ⟨scanned.2.1, scanned.1, fun h mem => ?_, scanned.2.2⟩
    obtain ⟨e, named, found⟩ := List.mem_filterMap.mp (List.mem_dedup.mp (inside h mem).1)
    rcases List.mem_append.mp named with named | named
    · rcases List.mem_append.mp named with named | named
      · exact live_of_listing listed named found
      · exact live_of_listing listed' named found
    · exact live_of_listing listed'' named found

theorem spec_rebuildLoop (records : Records H T M) (broken : List H) :
    Spec (law H T M) (Scanned boot (records, broken))
      (forEachAt id (fun h => withKey h (rebuildInvalid dirs now)) broken)
      (fun gs => Known boot (records ++ gs.reduceOption)) := by
  refine Spec.pre (P := fun s => (records.map (·.1) ++ broken).Nodup ∧ AllCalm boot s ∧
    (∀ h ∈ broken, True) ∧ ∀ p ∈ records, Snapshot p.2 (s p.1)) (spec_of fun distinct => ?_)
    fun s _ scanned => ⟨scanned.2.1, scanned.1, fun _ _ => trivial, scanned.2.2⟩
  exact (spec_freshLoop (A := fun _ => True) (fun c₀ => spec_rebuildInvalid.pre
    fun c _ held => held.1) (stable_const True) broken records distinct).post
    fun gs s _ held => held.2

theorem spec_rederiveAttempts (records : Records H T M) :
    Spec (law H T M) (Known boot records) (rederiveAttempts dirs now records) (Known boot) :=
  (spec_recordLoop (fun _ _ => spec_rederive) _).pre fun _ _ known =>
    known.perm (List.perm_insertionSort _ _)

theorem spec_inferReceipts (records : Records H T M) :
    Spec (law H T M) (Known boot records) (inferReceipts dirs now boot records) (Known boot) :=
  (spec_recordLoop (fun _ _ => spec_inferReceipt) _).pre fun _ _ known =>
    known.perm (List.perm_insertionSort _ _)

variable [LinearOrder T]

theorem spec_applyCap (slot : Slot) (cap : Nat) {openAttempts : List H} (other : slot ≠ .token)
    (free : ∀ c : Cell T M, Settled c → UnlinkLicence c slot) (hashes : List H)
    (live : List (T × H)) (within : ∀ e ∈ live, e.2 ∈ hashes) :
    Spec (law H T M) (Ongoing boot hashes) (applyCap dirs now slot cap openAttempts live)
      (fun _ s => Ongoing boot hashes s) := by
  refine (spec_capLoop hashes _ (fun _ _ => spec_capEntry other free) fun e mem => ?_).bind
    fun _ => spec_pure (stable_ongoing _) fun _ _ held => held
  have inside := List.mem_of_mem_take mem
  rw [List.mem_insertionSort] at inside
  exact within e inside

theorem spec_applyCollectCap (hashes : List H) (held : List (T × H × Nat))
    (within : ∀ e ∈ held, e.2.1 ∈ hashes) :
    Spec (law H T M) (Ongoing boot hashes) (applyCollectCap dirs now held)
      (fun _ s => Ongoing boot hashes s) := by
  refine (spec_capLoop hashes _ (fun _ _ => spec_capHold) fun e mem => ?_).bind
    fun _ => spec_pure (stable_ongoing _) fun _ _ held => held
  have inside := List.mem_of_mem_take mem
  rw [List.mem_insertionSort] at inside
  exact within e inside

variable [Sub T]

theorem spec_recoveryPass :
    Spec (law H T M) (AllCalm boot) (recoveryPass now boot) (fun _ s => AllCalm boot s) := by
  have calm : Stable (law H T M) (AllCalm boot) := stable_allCalm
  have finished : Spec (law H T M) (AllCalm boot) (pure ⟨⟩ : SpoolProg H T M PUnit)
      (fun _ s => AllCalm boot s) := spec_pure calm fun _ _ held => held
  refine (spec_openDir calm).bind fun claims => ?_
  split
  · refine (spec_openDir calm).bind fun pend => ?_
    split
    · refine (spec_openDir calm).bind fun results => ?_
      split
      · refine (spec_list calm).bind fun names => Spec.pre ?_ fun s _ held => held.1
        refine (spec_calmLoop _ fun _ _ _ => spec_recoverTemp).bind fun _ => ?_
        exact (spec_calmLoop _ fun _ _ calm => spec_recoverClaim calm.1 calm.2).bind fun _ => finished
      · exact finished
    · exact finished
  · exact finished

omit [Add T] in
theorem isDone_of_aged {a : Attempt T M} (old : aged now a = true) : a.status.isDone = true := by
  rw [aged, Bool.and_eq_true] at old
  exact old.1

theorem spec_boundAttempts (records : Records H T M) :
    Spec (law H T M) (Known boot records) (boundAttempts now records)
      (fun _ s => AllCalm boot s) := by
  have split : ∀ (l : Records H T M) (p : H × Attempt T M → Bool),
      (l.filter p ++ l.filter fun x => !p x).Perm l := fun l p => List.filter_append_perm p l
  -- the aged ones go, the retained ones stay known
  refine ((spec_dropLoop (records.filter fun p => aged now p.2)
    (records.filter fun p => !aged now p.2) fun p mem c₀ => spec_retireDone
      (isDone_of_aged (List.mem_filter.mp mem).2) c₀).pre
    fun s _ known => known.perm (split records fun p => aged now p.2)).bind fun _ => ?_
  dsimp only
  set retained := records.filter fun p => !aged now p.2
  set terminal := (retained.filter fun p => p.2.status.isDone).insertionSort
    (before Attempt.endedTs)
  set open_ := (retained.filter fun p => !p.2.status.isDone).insertionSort
    (before Attempt.mintedTs)
  generalize retained.length - maxAttempts = excess
  have parts : (terminal ++ open_).Perm retained :=
    ((List.perm_insertionSort _ _).append (List.perm_insertionSort _ _)).trans
      (split retained fun p => p.2.status.isDone)
  refine ((spec_dropLoop (terminal.take excess) open_
    fun p mem c₀ => spec_retireDone ?_ c₀).pre fun s _ known => (known.perm parts).sublist
      ((List.take_sublist _ _).append (List.Sublist.refl _))).bind fun gone => ?_
  · have inside := List.mem_of_mem_take mem
    rw [List.mem_insertionSort, List.mem_filter] at inside
    exact inside.2
  · refine ((spec_dropLoop (open_.take (excess - gone.count true)) []
      fun p _ c₀ => spec_evictAttempt).pre fun s _ (known : Known boot open_ s) => ?_).bind
      fun _ => spec_pure stable_allCalm fun s _ known => known.calm
    rw [List.append_nil]
    exact known.sublist (List.take_sublist _ _)

theorem spec_attemptsPass :
    Spec (law H T M) (AllCalm boot) (attemptsPass now boot) (fun _ s => AllCalm boot s) := by
  have calm : Stable (law H T M) (AllCalm boot) := stable_allCalm
  refine (spec_openDir calm).bind fun pend => ?_
  refine (spec_openDir calm).bind fun results => ?_
  refine (spec_openDir calm).bind fun claims => ?_
  refine (spec_openDir calm).bind fun attempts => ?_
  split
  · refine (spec_list calm).bind fun tokens => ?_
    set receipts := (tokens.filterMap tokenKey).insertionSort fun h k => h ≤ k
    refine Spec.bind (Q := fun _ s => AllCalm boot s) ?_ fun _ => ?_
    · refine Spec.pre (P := fun s => receipts.Nodup ∧ AllCalm boot s ∧
        (∀ h ∈ receipts, (s h).token ≠ none) ∧
        ∀ p ∈ ([] : Records H T M), Snapshot p.2 (s p.1)) (spec_of fun distinct => ?_) ?_
      · refine (spec_knownLoop (A := fun _ c => c.token ≠ none) (B := fun _ _ _ => True)
          receipts [] (fun h c₀ calm => ?_) (fun _ => stable_token) (fun _ _ => stable_const _)
          (by simpa using distinct) (by simp)).post fun _ s _ held => held.1
        refine Spec.post (spec_consumeAck.pre fun c _ held =>
          ⟨held.2, calm_of_phase held.1.1 calm⟩) fun _ c _ held => ⟨held, trivial⟩
      · rintro s - ⟨calm, nodup, -, seen⟩
        refine ⟨(List.perm_insertionSort _ _).nodup_iff.mpr (nodup_keys nodup ?_), calm,
          fun h mem => ?_, List.forall_mem_nil _⟩
        · intro e d a first second
          cases e <;> cases d <;> cases first <;> cases second
          rfl
        · rw [List.mem_insertionSort] at mem
          obtain ⟨e, inside, named⟩ := List.mem_filterMap.mp mem
          have there := seen e inside
          cases e <;> cases named
          exact there
    refine spec_scanAttempts.bind fun scanned => ?_
    refine (spec_materializeAttempts scanned).bind fun fresh => ?_
    refine (spec_rebuildLoop (scanned.1 ++ fresh) scanned.2).bind fun rebuilt => ?_
    refine (spec_rederiveAttempts _).bind fun derived => ?_
    refine (spec_inferReceipts derived).bind fun settled => ?_
    exact spec_boundAttempts settled
  · exact spec_pure calm fun _ _ held => held

theorem spec_sweepPendingDir {openAttempts : List H} :
    Spec (law H T M) (AllCalm boot) (sweepPendingDir dirs now openAttempts)
      (fun _ s => AllCalm boot s) := by
  refine (spec_list stable_allCalm).bind fun names => Spec.pre ?_ fun s _ held => held.1
  refine (spec_sweepLoop (fun _ _ => spec_sweepPending) _).bind fun kept => ?_
  generalize maxPending = cap
  refine (spec_applyCap .pending cap (by simp) (fun _ settled => .inr settled) _ _
    fun e mem => ?_).post fun _ s _ held => held.1
  exact List.mem_map_of_mem mem

theorem spec_sweepResultsDir {openAttempts : List H} :
    Spec (law H T M) (AllCalm boot) (sweepResultsDir dirs now openAttempts)
      (fun _ s => AllCalm boot s) := by
  refine (spec_list stable_allCalm).bind fun names => Spec.pre ?_ fun s _ held => held.1
  refine (spec_sweepLoop (fun _ _ => spec_sweepResult) _).bind fun kept => ?_
  dsimp only
  generalize maxResults = cap
  refine (spec_applyCap .result cap (by simp) (fun _ settled => settled) _ _ fun e mem => ?_).bind
    fun _ => (spec_applyCollectCap _ _ fun e mem => ?_).post fun _ s _ held => held.1
  · obtain ⟨x, inside, named⟩ := List.mem_filterMap.mp mem
    split at named
    · cases named
      exact List.mem_map_of_mem inside
    · cases named
  · obtain ⟨x, inside, named⟩ := List.mem_filterMap.mp mem
    obtain ⟨uid, -, rfl⟩ := Option.map_eq_some_iff.mp named
    exact List.mem_map_of_mem inside

theorem spec_sweep :
    Spec (law H T M) (AllCalm boot) (sweep now) (fun _ s => AllCalm boot s) := by
  have calm : Stable (law H T M) (AllCalm boot) := stable_allCalm
  refine (spec_openDir calm).bind fun pend => ?_
  refine (spec_openDir calm).bind fun results => ?_
  refine (spec_openDir calm).bind fun claims => ?_
  refine spec_scanAttempts.bind fun scanned => Spec.pre ?_ fun s _ held => held.1
  refine (spec_ifOpen spec_sweepPendingDir).bind fun _ => ?_
  refine (spec_ifOpen spec_sweepResultsDir).bind fun _ => ?_
  refine (spec_listIf calm).bind fun temps => Spec.pre ?_ fun s _ held => held.1
  refine (spec_calmLoop _ fun _ _ _ => spec_sweepTemp).bind fun _ => ?_
  exact spec_pure calm fun _ _ held => held

end Passes

section Runs

/-- No handler is inside `claim` or `publish_result`. -/
def AtRest (s : H → Cell T M) : Prop := ∀ h, Rest (s h)

omit [LinearOrder H] in
theorem allCalm_of_ready {boot : Bool} {s : H → Cell T M} (rest : AtRest s)
    (ready : boot = true → ∀ h, (s h).phase = .idle) : AllCalm boot s :=
  fun h => ⟨rest h, fun yes => by rw [ready yes h]; nofun⟩

theorem spec_alone {P : Cell T M → Prop} {p : CellProg T M PUnit} (h : H)
    (spec : Yields H T M P p (fun _ c => Rest c)) :
    Spec (law H T M) (fun s => AtRest s ∧ P (s h)) (p.atKey h) (fun _ s => AtRest s) := by
  refine ((spec.atKey (F := fun _ => Rest) fun _ _ => stable_rest).pre ?_).post ?_
  · exact fun s _ held => ⟨held.2, fun k _ => held.1 k⟩
  · intro _ s _ held k
    by_cases same : k = h
    · rw [same]
      exact held.1
    · exact held.2 k same

theorem spec_worker {p : CellProg T M PUnit} (h : H)
    (spec : ∀ c₀, Yields H T M (Kin c₀) p (fun _ c => Kin c₀ c)) :
    Spec (law H T M) AtRest (p.atKey h) (fun _ s => AtRest s) := by
  refine (spec_alone h fun c wf rest => ?_).pre fun s _ held => ⟨held, held h⟩
  refine (spec c c wf (Kin.refl c)).mono wf fun _ d _ kin => ?_
  unfold Rest
  rw [kin.1]
  exact rest

variable [LinearOrder T] [Add T] [Sub T] [NatCast T]

theorem lawful : Lawful (spool (H := H) (T := T) (M := M)) (law H T M) AtRest
    (fun task s => task.ready s) where
  stable _ _ inv moved held h := stable_rest (H := H) _ _ (inv h) (moved h) (held h)
  env e s _ h := by
    change drift (s h) (Function.update s e.1 ((s e.1).consumer e.2) h)
    by_cases same : h = e.1
    · subst same
      rw [Function.update_self]
      exact .single ⟨e.2, rfl⟩
    · rw [Function.update_of_ne same]
      exact .refl
  program := by
    have calm : ∀ {p : SpoolProg H T M PUnit} (boot : Bool) {P : (H → Cell T M) → Prop},
        Spec (law H T M) (AllCalm boot) p (fun _ s => AllCalm boot s) →
        (∀ s, P s → boot = true → ∀ h, (s h).phase = .idle) →
        Spec (law H T M) (fun s => AtRest s ∧ P s) p (fun _ s => AtRest s) :=
      fun boot P spec ready => (spec.pre fun s _ held => allCalm_of_ready held.1 (ready s held.2)).post
        fun _ s _ held h => (held h).1
    intro task
    cases task with
    | claim h now => exact spec_alone h spec_claim
    | publishResult h serializable now => exact spec_alone h spec_publishResult
    | discardClaim h => exact spec_alone h spec_discardClaim
    | recoveryPass now boot => exact calm boot spec_recoveryPass fun s ready => ready
    | attemptsPass now boot => exact calm boot spec_attemptsPass fun s ready => ready
    | sweep now => exact calm false spec_sweep nofun
    | selectNudgeable now => exact calm false spec_selectNudgeable nofun
    | accept h now anchorTs =>
      exact (spec_worker h fun _ => spec_accept).pre fun s _ held => held.1
    | defer h now => exact (spec_worker h fun _ => spec_defer).pre fun s _ held => held.1
    | noteExhaustion h =>
      exact (spec_worker h fun _ => spec_noteExhaustion).pre fun s _ held => held.1
  crash s inv := by
    refine ⟨fun h => ?_, fun h => ⟨nofun, nofun⟩⟩
    have wf := inv h
    refine ⟨fun no => ?_, wf.spent, fun busy => ?_, fun gone => ?_⟩
    · obtain ⟨bare, token, -, consumed⟩ := wf.fresh no
      exact ⟨bare, token, .inl rfl, consumed⟩
    · rcases busy with busy | busy <;> cases busy
    · obtain ⟨bare, token, -⟩ := wf.consumed gone
      exact ⟨bare, token, .inl rfl⟩

/-- What the discipline knows of a configuration that a run has reached. -/
abbrev Lawed (c : SpoolConfig H T M) : Prop :=
  Guarded (m := spool) (law H T M) AtRest c

theorem lawed_empty : Lawed (emptySpool : SpoolConfig H T M) := by
  refine ⟨fun h => ⟨fun _ => ?_, fun a same => ?_, ?_, nofun⟩, fun _ h => ⟨nofun, nofun⟩, nofun⟩
  · exact ⟨⟨rfl, rfl, rfl, rfl, rfl, rfl⟩, rfl, .inl rfl, rfl⟩
  · change none = some _ at same
    cases same
  · rintro (busy | busy) <;> cases busy

variable {allowed : SpoolLabel H T M → SpoolConfig H T M → Prop} {c d : SpoolConfig H T M}
variable {ls : List (SpoolLabel H T M)} {h : H}

/-- One step of the system, seen from one flow: nothing happened to it, or its consumer moved,
or the process died, or casa ran one licensed operation on it. -/
theorem step_cell (lawed : Lawed c) (l : SpoolLabel H T M) :
    (spool.step l c).state h = c.state h ∨
    (∃ v, l = .env (h, v) ∧ (spool.step l c).state h = (c.state h).consumer v) ∨
    (l = .crash ∧ (spool.step l c).state h = (c.state h).crash) ∨
    ∃ task op i, l = .advance i ∧ c.next = some (task, .inl (h, op)) ∧ Licence op (c.state h) ∧
      (spool.step l c).state h = (runCell op i (c.state h)).2 := by
  obtain ⟨s, running⟩ := c
  cases l with
  | env e =>
    obtain ⟨k, v⟩ := e
    change Function.update s k ((s k).consumer v) h = s h ∨ _
    by_cases same : h = k
    · subst same
      exact .inr (.inl ⟨v, rfl, Function.update_self ..⟩)
    · exact .inl (Function.update_of_ne same _ _)
  | crash => exact .inr (.inr (.inl ⟨rfl, rfl⟩))
  | start task => cases running <;> exact .inl rfl
  | finish =>
    cases running with
    | none => exact .inl rfl
    | some at_ =>
      obtain ⟨task, p⟩ := at_
      cases p <;> exact .inl rfl
  | advance i =>
    cases running with
    | none => exact .inl rfl
    | some at_ =>
      obtain ⟨task, p⟩ := at_
      cases p with
      | done a => exact .inl rfl
      | call op next =>
        rcases op with ⟨k, op⟩ | q
        · change Function.update s k (runCell op i (s k)).2 h = s h ∨ _
          by_cases same : h = k
          · subst same
            have licensed : Licence op (s h) := lawed.licensed rfl
            exact .inr (.inr (.inr ⟨task, op, i, rfl, rfl, licensed, Function.update_self ..⟩))
          · exact .inl (Function.update_of_ne same _ _)
        · exact .inl rfl

theorem step_op {i : Input H T} {task : Task H T} {op : CellOp T M}
    (next : c.next = some (task, .inl (h, op))) :
    (spool.step (.advance i) c).state h = (runCell op i (c.state h)).2 := by
  obtain ⟨s, running⟩ := c
  cases running with
  | none => cases next
  | some at_ =>
    obtain ⟨task, p⟩ := at_
    cases p with
    | done a => cases next
    | call op' rest =>
      cases next
      exact Function.update_self ..

omit [LinearOrder H] [LinearOrder T] [Add T] [Sub T] [NatCast T] in
theorem ready_of_called {l : SpoolLabel H T M} (called : wellCalled l c) (task : Task H T)
    (same : l = .start task) (idle : c.running = none) : task.ready c.state := by
  subst same
  exact called (by rw [idle]; rfl)

/-- The rule for a property of one flow: whatever each kind of step keeps holds all along, with
the discipline as a help. -/
theorem cell_invariant {J : Cell T M → Prop} (called : ∀ l c, allowed l c → wellCalled l c)
    (env : ∀ c v, allowed (.env (h, v)) c → Wf (c.state h) → J (c.state h) →
      J ((c.state h).consumer v))
    (crash : ∀ c, allowed .crash c → Wf (c.state h) → J (c.state h) → J (c.state h).crash)
    (op : ∀ c task op i d, allowed (.advance i) c → c.next = some (task, .inl (h, op)) →
      Wf (c.state h) → Licence op (c.state h) → Effect (c.state h) op d → J (c.state h) → J d)
    (run : Runs spool.step allowed c ls d) (lawed : Lawed c) (held : J (c.state h)) :
    J (d.state h) := by
  refine (run.invariant (I := fun c => Lawed c ∧ J (c.state h)) ?_ ⟨lawed, held⟩).2
  rintro l c ok ⟨lawed, held⟩
  refine ⟨lawed.step lawful l (ready_of_called (called l c ok)), ?_⟩
  rcases step_cell (h := h) lawed l with same | ⟨v, rfl, same⟩ | ⟨rfl, same⟩ |
    ⟨task, o, i, rfl, next, licensed, same⟩
  · rwa [same]
  · rw [same]
    exact env c v ok (lawed.inv h) held
  · rw [same]
    exact crash c ok (lawed.inv h) held
  · rw [same]
    exact op c task o i _ ok next (lawed.inv h) licensed (run_effect o i _) held

theorem lawed_of_runs (called : ∀ l c, allowed l c → wellCalled l c)
    (run : Runs spool.step allowed c ls d) (lawed : Lawed c) : Lawed d :=
  guarded_of_runs lawful run (fun task c ok => ready_of_called (called _ c ok) task rfl) lawed

end Runs

section Conditions
variable {φ : CellOp T M → Input H T → Cell T M → Prop} {h : H} {c : SpoolConfig H T M}

/-- An operation on the flow `h` satisfies `φ`. -/
def MindsOp (φ : CellOp T M → Input H T → Cell T M → Prop) (h : H) (i : Input H T)
    (s : H → Cell T M) : (keyed H (cellSig T M) (spoolSig H)).Op → Prop
  | .inl p => p.1 = h → φ p.2 i (s h)
  | .inr _ => True

/-- Every operation on the flow `h` satisfies `φ` where it is run. -/
def Minds (φ : CellOp T M → Input H T → Cell T M → Prop) (h : H) :
    SpoolLabel H T M → SpoolConfig H T M → Prop
  | .advance i, c => ∀ next ∈ c.next, MindsOp φ h i c.state next.2
  | _, _ => True

instance [holds : ∀ op i c, Decidable (φ op i c)] (h : H) (i : Input H T) (s : H → Cell T M) :
    ∀ op, Decidable (MindsOp φ h i s op)
  | .inl p =>
      have := holds p.2 i (s h)
      inferInstanceAs (Decidable (p.1 = h → φ p.2 i (s h)))
  | .inr _ => isTrue trivial

instance [∀ op i c, Decidable (φ op i c)] (h : H) :
    ∀ (l : SpoolLabel H T M) (c : SpoolConfig H T M), Decidable (Minds φ h l c)
  | .advance i, c => inferInstanceAs (Decidable (∀ next ∈ c.next, MindsOp φ h i c.state next.2))
  | .env _, _ | .start _, _ | .finish, _ | .crash, _ => isTrue trivial

omit [LinearOrder H] in
theorem Minds.op {i : Input H T} {task : Task H T} {o : CellOp T M}
    (minds : Minds φ h (.advance i) c) (next : c.next = some (task, .inl (h, o))) :
    φ o i (c.state h) :=
  minds _ next rfl

/-- The next `n` file operations succeed, and a listing shows whatever there is of one flow. -/
def succeed (h : H) (clock : T) (n : Nat) : List (SpoolLabel H T M) :=
  List.replicate n (.advance ⟨true, clock, [.pending h, .claim h, .temp h, .result h, .attempt h,
    .token h], false⟩)

end Conditions

end Casa.CallbackLawful
