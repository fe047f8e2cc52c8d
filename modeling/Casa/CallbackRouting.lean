import Casa.CallbackReadiness

/-! The desired state routes what it says: names of different plugins give different effective
names, so no plugin's callbacks take another's place in the overlay. -/

namespace Casa.CallbackRouting
open KeyedTable CallbackMarkers CallbackReadiness

/-! ### Effective names -/

theorem separator_unique {p q c d : List Char} (unsplit : ¬ ['-', '-'] <:+: q)
    (unended : ¬ ['-'] <:+ q) (a : List Char) (longer : q = p ++ a)
    (same : '-' :: '-' :: c = a ++ '-' :: '-' :: d) : p = q := by
  match a with
  | [] => rw [longer, List.append_nil]
  | [x] =>
    rw [List.singleton_append] at same
    obtain ⟨rfl, _⟩ := List.cons.inj same
    exact absurd ⟨p, longer.symm⟩ unended
  | x :: y :: rest =>
    rw [List.cons_append, List.cons_append] at same
    obtain ⟨rfl, tail⟩ := List.cons.inj same
    obtain ⟨rfl, _⟩ := List.cons.inj tail
    exact absurd ⟨p, rest, by rw [longer, List.append_assoc]; rfl⟩ unsplit

structure Plain (plugin : String) : Prop where
  unsplit : ¬ ['-', '-'] <:+: plugin.toList
  unended : ¬ ['-'] <:+ plugin.toList

theorem effectiveName_toList (plugin declared : String) : (effectiveName plugin declared).toList =
    "plg-".toList ++ (plugin.toList ++ '-' :: '-' :: declared.toList) := by
  unfold effectiveName
  rw [String.toList_append, String.toList_append, String.toList_append, List.append_assoc,
    List.append_assoc]
  rfl

theorem plugin_of_effectiveName {p q c d : String} (plainP : Plain p) (plainQ : Plain q)
    (same : effectiveName p c = effectiveName q d) : p = q := by
  have lists := congrArg String.toList same
  rw [effectiveName_toList, effectiveName_toList] at lists
  have tails := List.append_cancel_left lists
  refine String.toList_inj.mp ?_
  rcases List.append_eq_append_iff.mp tails with ⟨a, longer, rest⟩ | ⟨a, longer, rest⟩
  · exact separator_unique plainQ.unsplit plainQ.unended a longer rest
  · exact (separator_unique plainP.unsplit plainP.unended a longer rest).symm

theorem effectiveName_injective (plugin : String) :
    Function.Injective (effectiveName plugin) := by
  intro c d same
  have lists := congrArg String.toList same
  rw [effectiveName_toList, effectiveName_toList] at lists
  have tails := List.append_cancel_left (List.append_cancel_left lists)
  exact String.toList_inj.mp (List.cons.inj (List.cons.inj tails).2).2

/-! ### The computation -/

section Compute
variable {acked : Identity → Bool} {targets : String → List String} {liveRoles : List String}
variable {seen : List ResolvedPlugin} {out : DesiredCallbacks} {rp : ResolvedPlugin}

/-- The routed plugin `r` comes from the resolved plugin `p`. -/
structure Source (p : ResolvedPlugin) (r : RoutedCallbacks) : Prop where
  name : p.name = r.plugin
  path : p.path = r.path
  plain : Plain r.plugin
  effective : ∀ cb ∈ r.callbacks, cb.effective = effectiveName r.plugin cb.declared

structure Owned (seen : List ResolvedPlugin) (out : DesiredCallbacks) : Prop where
  sources : ∀ r ∈ out.routed, ∃ p ∈ seen, Source p r
  named : (out.routed.map RoutedCallbacks.plugin).Sublist (seen.map ResolvedPlugin.name)
  routes : ∀ r ∈ out.routed, Routes out.overlay r

theorem Owned.keep {out' : DesiredCallbacks} (h : Owned seen out) (rp : ResolvedPlugin)
    (routed : out'.routed = out.routed) (overlay : out'.overlay = out.overlay) :
    Owned (seen ++ [rp]) out' where
  sources r mem := by
    obtain ⟨p, found, source⟩ := h.sources r (routed ▸ mem)
    exact ⟨p, List.mem_append_left _ found, source⟩
  named := by
    rw [routed, List.map_append]
    exact h.named.trans (List.sublist_append_left _ _)
  routes r mem := overlay ▸ h.routes r (routed ▸ mem)

theorem mem_callbacks {plugin : String} {set : CallbackSet plugin} {cb : Callback}
    (mem : cb ∈ set.callbacks) : cb.effective = effectiveName plugin cb.declared := by
  obtain ⟨declared, _, rfl⟩ := List.mem_map.mp mem
  rfl

theorem nodup_effective (set : CallbackSet rp.name) :
    ((set.callbacks.map (overlayEntry rp)).map OverlayEntry.effective).Nodup := by
  have names : (set.callbacks.map (overlayEntry rp)).map OverlayEntry.effective =
      set.names.map (effectiveName rp.name) := by
    simp only [CallbackSet.callbacks, List.map_map]
    rfl
  rw [names]
  exact set.nodup.map (effectiveName_injective rp.name)

theorem Owned.route (h : Owned seen out) (set : CallbackSet rp.name) (some : set.callbacks ≠ [])
    (fresh : rp.name ∉ seen.map ResolvedPlugin.name) :
    Owned (seen ++ [rp]) (CallbackMarkers.route rp set.callbacks out) where
  sources r mem := by
    cases List.mem_append.mp mem with
    | inl old =>
      obtain ⟨p, found, source⟩ := h.sources r old
      exact ⟨p, List.mem_append_left _ found, source⟩
    | inr new =>
      cases List.mem_singleton.mp new
      exact ⟨rp, List.mem_append_right _ (List.mem_singleton_self rp), rfl, rfl,
        ⟨set.unsplit, set.unended⟩, fun cb mem => mem_callbacks mem⟩
  named := by
    change ((out.routed ++ [_]).map RoutedCallbacks.plugin).Sublist _
    rw [List.map_append, List.map_append]
    exact h.named.append (List.Sublist.refl _)
  routes r mem := by
    cases List.mem_append.mp mem with
    | inl old =>
      obtain ⟨p, found, source⟩ := h.sources r old
      refine ⟨(h.routes r old).1, fun cb mem => ?_⟩
      refine (Table.get?_foldl_put_of_not_mem out.overlay fun taken => ?_).trans
        ((h.routes r old).2 cb mem)
      obtain ⟨e, entry, same⟩ := List.mem_map.mp taken
      obtain ⟨own, declared, rfl⟩ := List.mem_map.mp entry
      have names : effectiveName rp.name own.declared = effectiveName r.plugin cb.declared :=
        (mem_callbacks declared).symm.trans (same.trans (source.effective cb mem))
      have plugins := plugin_of_effectiveName ⟨set.unsplit, set.unended⟩ source.plain names
      exact fresh (List.mem_map.mpr ⟨p, found, source.name.trans plugins.symm⟩)
    | inr new =>
      cases List.mem_singleton.mp new
      refine ⟨some, fun cb mem => ?_⟩
      exact Table.get?_foldl_put_of_mem out.overlay (nodup_effective set)
        (List.mem_map_of_mem mem)

theorem Owned.consider (h : Owned seen out) (fresh : rp.name ∉ seen.map ResolvedPlugin.name) :
    Owned (seen ++ [rp]) (consider acked targets liveRoles out rp) := by
  unfold CallbackMarkers.consider
  split
  · exact h.keep rp rfl rfl
  · rename_i set _
    by_cases empty : set.callbacks = []
    · rw [if_pos empty]
      exact h.keep rp rfl rfl
    rw [if_neg empty]
    have declared : Owned seen (declare rp set.callbacks out) := ⟨h.sources, h.named, h.routes⟩
    split
    · exact h.keep rp rfl rfl
    · split
      · exact declared.route set empty fresh
      · exact h.keep rp rfl rfl

theorem owned_foldl (plugins : List ResolvedPlugin) (h : Owned seen out)
    (nodup : ((seen ++ plugins).map ResolvedPlugin.name).Nodup) :
    Owned (seen ++ plugins) (plugins.foldl (consider acked targets liveRoles) out) := by
  induction plugins generalizing seen out with
  | nil => rwa [List.append_nil]
  | cons rp rest ih =>
    have fresh : rp.name ∉ seen.map ResolvedPlugin.name := by
      rw [List.map_append, List.map_cons] at nodup
      exact fun mem => List.disjoint_of_nodup_append nodup mem List.mem_cons_self
    rw [← List.singleton_append, ← List.append_assoc] at nodup ⊢
    exact ih (h.consider fresh) nodup

theorem computeDesired_routing {Key : Type} {sys : Platform Key} (baseUrl : Option String)
    (res : Resolution sys.indexKey) :
    Routing sys (computeDesired acked targets liveRoles baseUrl res) := by
  unfold computeDesired
  by_cases valid : res.registryValid = true
  · rw [if_pos valid]
    have start : Owned [] { (⟨Table.empty, [], [], [], [], false, baseUrl, []⟩ : DesiredCallbacks)
        with observed := res.plugins.map ResolvedPlugin.name, prunable := res.issues.isEmpty } :=
      ⟨nofun, List.Sublist.refl _, nofun⟩
    have owned := @owned_foldl acked targets liveRoles _ _ res.plugins start res.named
    refine ⟨res.named.sublist owned.named, fun r memR q memQ path same => ?_, owned.routes⟩
    obtain ⟨p, foundP, sourceP⟩ := owned.sources r memR
    obtain ⟨p', foundP', sourceP'⟩ := owned.sources q memQ
    rw [← sourceP.path] at path same
    rw [← sourceP'.path] at same
    exact sourceP.name.symm.trans ((res.apart p foundP p' foundP' path same).trans sourceP'.name)
  · rw [if_neg valid]
    exact ⟨List.nodup_nil, nofun, nofun⟩

end Compute

end Casa.CallbackRouting
