import Casa.BundleJournal

/-! What a crash inside a journal write leaves behind, and whom the next boot makes pay
for it: a temporary file has a name no journal has, so it counts against every bundle. -/

namespace Casa.BundleCrash
open KeyedTable PythonValue Coroutine BundleJournal

variable {T A : Type}

section Names

/-- `uuid4().hex`. -/
def isUuidHex (s : String) : Bool := s.toList.length = 32 && s.toList.all isHex

theorem chomp_append (front : List Char) {back : List Char} (some_ : back ≠ []) :
    chomp (front ++ back) = front ++ chomp back := by
  rw [chomp, chomp, List.getLast?_append_of_ne_nil front some_,
    List.dropLast_append_of_ne_nil some_]
  split <;> rfl

theorem length_chomp (cs : List Char) : cs.length ≤ (chomp cs).length + 1 := by
  rw [chomp]
  split
  · rw [List.length_dropLast]
    omega
  · omega

theorem dot_not_mem_of_isSlug {slug : List Char} (h : isSlug slug = true) : '.' ∉ slug := by
  cases slug with
  | nil => exact List.not_mem_nil
  | cons c rest =>
    simp only [isSlug, Bool.and_eq_true, List.all_eq_true] at h
    intro mem
    rcases List.mem_cons.mp mem with rfl | mem
    · exact absurd h.1.1 (by decide)
    · exact absurd (h.2 '.' mem) (by decide)

theorem journalSlug_dotted {slug tail : List Char} (valid : isSlug slug = true) (more : tail ≠ []) :
    journalSlug (String.ofList (slug ++ '.' :: tail)) =
      if ((chomp tail).take 32).all isHex ∧ (chomp tail).drop 32 = ".json".toList ∧
          (chomp tail).length = 37 then
        some (String.ofList slug)
      else none := by
  have undotted := dot_not_mem_of_isSlug valid
  have before : ∀ c ∈ slug, decide (c ≠ '.') = true := by
    intro c mem
    rw [decide_eq_true_eq]
    rintro rfl
    exact undotted mem
  have chomped : chomp (slug ++ '.' :: tail) = slug ++ '.' :: chomp tail := by
    rw [chomp_append slug (List.cons_ne_nil _ _), ← List.singleton_append, chomp_append ['.'] more,
      List.singleton_append]
  have front : (slug ++ '.' :: chomp tail).takeWhile (fun c => decide (c ≠ '.')) = slug := by
    rw [List.takeWhile_append_of_pos before, List.takeWhile_cons_of_neg (by decide),
      List.append_nil]
  have back : (slug ++ '.' :: chomp tail).dropWhile (fun c => decide (c ≠ '.')) =
      '.' :: chomp tail := by
    rw [List.dropWhile_append_of_pos before, List.dropWhile_cons_of_neg (by decide)]
  simp only [journalSlug, String.toList_ofList, chomped, front, back, valid, List.drop_succ_cons,
    List.drop_zero]
  simp

theorem toList_journalName (slug opid : String) :
    (journalName slug opid).toList = slug.toList ++ '.' :: (opid.toList ++ ".json".toList) := by
  simp [journalName]

theorem journalSlug_journalName {slug opid : String} (valid : isSlug slug.toList = true)
    (id : isUuidHex opid = true) : journalSlug (journalName slug opid) = some slug := by
  simp only [isUuidHex, Bool.and_eq_true, decide_eq_true_eq] at id
  have kept : chomp (opid.toList ++ ".json".toList) = opid.toList ++ ".json".toList := by
    rw [chomp_append _ (by decide)]
    rfl
  have eq : journalName slug opid =
      String.ofList (slug.toList ++ '.' :: (opid.toList ++ ".json".toList)) := by
    rw [← toList_journalName, String.ofList_toList]
  rw [eq, journalSlug_dotted valid (by simp), kept, List.take_left' id.1, List.drop_left' id.1,
    if_pos, String.ofList_toList]
  refine ⟨id.2, rfl, ?_⟩
  rw [List.length_append, id.1]
  rfl

theorem journalSlug_tempName {slug opid : String} (hex : String)
    (valid : isSlug slug.toList = true) (id : isUuidHex opid = true) :
    journalSlug (tempName (journalName slug opid) hex) = none := by
  simp only [isUuidHex, Bool.and_eq_true, decide_eq_true_eq] at id
  have eq : tempName (journalName slug opid) hex = String.ofList (slug.toList ++ '.' ::
      (opid.toList ++ ".json".toList ++ ".tmp-".toList ++ hex.toList)) := by
    rw [← String.ofList_toList (s := tempName (journalName slug opid) hex)]
    simp [tempName, toList_journalName]
  rw [eq, journalSlug_dotted valid (by simp), if_neg]
  rintro ⟨-, -, length⟩
  have long := length_chomp (opid.toList ++ ".json".toList ++ ".tmp-".toList ++ hex.toList)
  rw [length] at long
  simp only [List.length_append, id.1] at long
  have : ".json".toList.length = 5 := rfl
  have : ".tmp-".toList.length = 5 := rfl
  omega

theorem journalName_not_quarantined (slug opid : String) :
    isQuarantined (journalName slug opid) = false := by
  rw [Bool.eq_false_iff, isQuarantined, Ne, List.isSuffixOf_iff_suffix]
  intro suffix
  have last : (journalName slug opid).toList.getLast? = some 'n' := by
    rw [toList_journalName, ← List.cons_append, ← List.append_assoc,
      List.getLast?_append_of_ne_nil _ (by decide)]
    rfl
  obtain ⟨front, eq⟩ := suffix
  rw [← eq] at last
  simp at last

theorem tempName_not_quarantined (name : String) {hex : String} (id : isUuidHex hex = true) :
    isQuarantined (tempName name hex) = false := by
  simp only [isUuidHex, Bool.and_eq_true, decide_eq_true_eq, List.all_eq_true] at id
  rw [Bool.eq_false_iff, isQuarantined, Ne, List.isSuffixOf_iff_suffix]
  intro suffix
  have within : ".quarantined".toList <:+ hex.toList := by
    refine List.suffix_of_suffix_length_le suffix ?_ ?_
    · rw [tempName, String.toList_append]
      exact List.suffix_append _ _
    · rw [id.1]
      decide
  exact absurd (id.2 'q' (within.subset (by decide))) (by decide)

theorem quarantinedName_quarantined (name : String) :
    isQuarantined (quarantinedName name) = true := by
  rw [isQuarantined, List.isSuffixOf_iff_suffix, quarantinedName, String.toList_append]
  exact List.suffix_append _ _

end Names

/-- A journal of `slug` whose recorded entries are that bundle's own. -/
def OwnContent (slug : String) : Content T → Prop
  | .torn => True
  | .whole j => ∀ e ∈ j.registryEntries, ownedBy slug e = true

/-- The directory holds files set aside by earlier boots, journals of `bundles`, and at most the
files of `temps`, which are being written for `slug`. -/
def OnlyJournals (bundles : List String) (slug : String) (temps : List String) (d : Disk T A) :
    Prop :=
  ∀ name content, d.ops.get? name = some (name, content) →
    isQuarantined name = true ∨
      (∃ owner ∈ bundles, journalSlug name = some owner ∧ OwnContent owner content) ∨
      name ∈ temps ∧ OwnContent slug content

section Files
variable {bundles temps : List String} {slug : String} {d : Disk T A}

theorem OnlyJournals.put (h : OnlyJournals bundles slug temps d) {target : String}
    {content : Content T} (own : OwnContent slug content)
    (mem : slug ∈ bundles ∧ journalSlug target = some slug ∨ target ∈ temps) :
    OnlyJournals bundles slug temps { d with ops := d.ops.put (target, content) } := by
  intro n c found
  rw [Table.get?_put] at found
  split at found
  · cases Option.some.inj found
    rcases mem with ⟨listed, parsed⟩ | temp
    · exact .inr (.inl ⟨slug, listed, parsed, own⟩)
    · exact .inr (.inr ⟨temp, own⟩)
  · exact h n c found

theorem OnlyJournals.remove (h : OnlyJournals bundles slug temps d) (target : String) :
    OnlyJournals bundles slug temps { d with ops := d.ops.remove target } := by
  intro n c found
  rw [Table.get?_remove] at found
  split at found
  · cases found
  · exact h n c found

end Files

section Writing
variable {bundles : List String} {slug temp : String} {registry : Option (RegistryDoc T)}

def writing (bundles : List String) (slug temp : String) (registry : Option (RegistryDoc T)) :
    Protocol (Disk T A) where
  inv d := OnlyJournals bundles slug [temp] d ∧ d.registry = registry
  later _ _ := True
  refl _ := trivial
  trans _ _ := trivial

variable {s : Disk T A}

theorem safe_syscall {α : Type} {f : Disk T A → Except String α × Disk T A} {R : α → Prop}
    (h : ∀ d, (writing bundles slug temp registry).inv d →
      (writing bundles slug temp registry).inv (f d).2 ∧ ∀ a, (f d).1 = .ok a → R a) :
    Safe (writing bundles slug temp registry) (syscall f) s fun a _ => R a := by
  refine safe_block fun d _ inv ok => ?_
  cases ok with
  | false => exact ⟨inv, trivial, nofun⟩
  | true =>
    obtain ⟨kept, result⟩ := h d inv
    exact ⟨kept, trivial, fun a returned _ _ _ => result a returned⟩

theorem safe_put (content : Content T) (own : OwnContent slug content) :
    Safe (writing bundles slug temp registry) (put temp content) s fun _ _ => True :=
  safe_syscall fun _ inv =>
    ⟨⟨inv.1.put own (.inr List.mem_cons_self), inv.2⟩, fun _ _ => trivial⟩

theorem safe_fsync : Safe (writing bundles slug temp registry) fsync s fun _ _ => True :=
  safe_syscall fun _ inv => ⟨inv, fun _ _ => trivial⟩

theorem safe_unlink (target : String) :
    Safe (writing bundles slug temp registry) (unlink target) s fun _ _ => True := by
  refine safe_syscall fun d inv => ?_
  split
  · exact ⟨⟨inv.1.remove target, inv.2⟩, fun _ _ => trivial⟩
  · exact ⟨inv, fun _ _ => trivial⟩

theorem safe_replace {name : String} (listed : slug ∈ bundles)
    (parsed : journalSlug name = some slug) (fresh : isQuarantined temp = false)
    (unparsed : journalSlug temp = none) :
    Safe (writing bundles slug temp registry) (replace temp name) s fun _ _ => True := by
  refine safe_syscall fun d inv => ?_
  split
  · rename_i at_ content found
    have named : at_ = temp := Table.key_of_get? found
    have own : OwnContent slug content := by
      rcases inv.1 temp content (by rw [found, named]) with aside | ⟨_, _, clash, _⟩ | ⟨_, own⟩
      · rw [fresh] at aside
        cases aside
      · rw [unparsed] at clash
        cases clash
      · exact own
    exact ⟨⟨(inv.1.put own (.inl ⟨listed, parsed⟩)).remove temp, inv.2⟩, fun _ _ => trivial⟩
  · exact ⟨inv, fun _ _ => trivial⟩

theorem safe_dropTemp (e : String) (inv : (writing bundles slug temp registry).inv s) :
    Safe (writing bundles slug temp registry) (dropTemp temp e) s fun _ _ => True := by
  refine ((safe_unlink temp).rescue inv ?_).bind inv fun _ _ _ _ _ => safe_raise e
  rintro _ _ ⟨rfl⟩ _ _ _
  exact safe_pure fun _ _ _ => trivial

theorem safe_readJournal {name : String} (parsed : journalSlug name = some slug)
    (named : isQuarantined name = false) (apart : name ≠ temp) :
    Safe (writing bundles slug temp registry) (readJournal name) s fun j _ =>
      ∀ e ∈ j.registryEntries, ownedBy slug e = true := by
  refine safe_syscall fun d inv => ?_
  split
  · rename_i at_ j found
    have same : at_ = name := Table.key_of_get? found
    have own : OwnContent slug (.whole j) := by
      rcases inv.1 name (.whole j) (by rw [found, same]) with aside | ⟨owner, _, this, own⟩ | other
      · rw [named] at aside
        cases aside
      · rw [parsed, Option.some.injEq] at this
        exact this ▸ own
      · exact absurd (List.mem_singleton.mp other.1) apart
    exact ⟨inv, fun _ returned => Except.ok.inj returned ▸ own⟩
  · exact ⟨inv, nofun⟩
  · exact ⟨inv, nofun⟩

theorem safe_fsyncWrite {name : String} (j : Journal T)
    (own : ∀ e ∈ j.registryEntries, ownedBy slug e = true) (listed : slug ∈ bundles)
    (parsed : journalSlug name = some slug) (fresh : isQuarantined temp = false)
    (unparsed : journalSlug temp = none) (short : Nat)
    (inv : (writing bundles slug temp registry).inv s) :
    Safe (writing bundles slug temp registry) (fsyncWrite temp name j short) s
      fun _ _ => True := by
  have written : Safe (writing bundles slug temp registry) (writeTemp temp name j short) s
      fun _ _ => True := by
    refine (safe_put .torn trivial).bind inv fun _ t _ inv _ => ?_
    refine (safe_forEach inv ?_).bind inv fun _ t _ inv _ => ?_
    · intro content mem u _ _
      rcases List.mem_append.mp mem with mem | mem
      · rw [List.eq_of_mem_replicate mem]
        exact safe_put .torn trivial
      · rw [List.mem_singleton.mp mem]
        exact safe_put (.whole j) own
    · exact safe_fsync.bind inv fun _ _ _ _ _ => safe_replace listed parsed fresh unparsed
  refine (written.rescue inv ?_).bind inv fun _ _ _ _ _ => safe_fsync
  rintro e _ ⟨rfl⟩ _ _ inv
  exact safe_dropTemp e inv

end Writing

def OwnEntries (slug : String) : JournalCall T → Prop
  | .begin _ entries _ _ _ _ _ => ∀ e ∈ entries, ownedBy slug e = true
  | _ => True

section Crash
variable {bundles : List String} {slug opid hex : String} {d : Disk T A}

/-- Wherever a journal call dies, the registry is untouched and the directory holds nothing new but
the bundle's journal and its temporary file. -/
theorem crashed_onlyJournals (call : JournalCall T) (own : OwnEntries slug call)
    (valid : isSlug slug.toList = true) (id : isUuidHex opid = true) (unique : isUuidHex hex = true)
    (listed : slug ∈ bundles) (before : OnlyJournals bundles slug [] d) (short : Nat)
    (inputs : List Bool) :
    OnlyJournals bundles slug [tempName (journalName slug opid) hex]
        ((call.script slug opid hex short).crashed inputs d) ∧
      ((call.script slug opid hex short).crashed inputs d).registry = d.registry := by
  let P : Protocol (Disk T A) :=
    writing bundles slug (tempName (journalName slug opid) hex) d.registry
  have fresh := tempName_not_quarantined (journalName slug opid) unique
  have named := journalName_not_quarantined slug opid
  have parsed := journalSlug_journalName valid id
  have unparsed := journalSlug_tempName hex valid id
  have apart : journalName slug opid ≠ tempName (journalName slug opid) hex := by
    intro same
    rw [← same, parsed] at unparsed
    cases unparsed
  have inv : P.inv d := by
    refine ⟨fun n c found => ?_, rfl⟩
    rcases before n c found with aside | journal | ⟨none, _⟩
    · exact .inl aside
    · exact .inr (.inl journal)
    · cases none
  have safe : Safe P (call.script slug opid hex short) d fun _ _ => True := by
    cases call with
    | begin op entries tupleFiles ackRecords receiptDigest consentIdentity targetRoot =>
      refine safe_fsyncWrite _ ?_ listed parsed fresh unparsed short inv
      exact own
    | markStep step =>
      refine (safe_readJournal parsed named apart).bind inv fun j _ _ inv owned => ?_
      refine safe_fsyncWrite _ ?_ listed parsed fresh unparsed short inv
      exact owned
    | complete =>
      refine (safe_readJournal parsed named apart).bind inv fun j _ _ inv owned => ?_
      refine (safe_fsyncWrite _ ?_ listed parsed fresh unparsed short inv).bind inv
        fun _ _ _ _ _ => safe_unlink _
      exact owned
  exact safe.crashed inv inputs

end Crash

section Reconciling

def ownedIn (bundles : List String) (entry : Json T) : Bool :=
  bundles.any fun slug => ownedBy slug entry

/-- Everything a document says about others than `bundles`: their entries, and who is flagged. -/
def Contained (bundles : List String) (before after : Option (RegistryDoc T)) : Prop :=
  match before, after with
  | none, none => True
  | some doc, some doc' =>
      doc'.plugins.filter (fun e => !ownedIn bundles e) =
          doc.plugins.filter (fun e => !ownedIn bundles e) ∧
        ∀ other, other ∉ bundles → other ∈ doc'.quarantinedBundles.getD [] →
          other ∈ doc.quarantinedBundles.getD []
  | _, _ => False

def OthersOwn (bundles : List String) (registry : Option (RegistryDoc T)) : Prop :=
  ∃ doc, registry = some doc ∧ ∃ e ∈ doc.plugins, entryOwner e ≠ none ∧ ownedIn bundles e = false

variable {bundles : List String} {slug : String}
  {restoreRecords : List (Json T) → A → Except String A}

theorem Contained.refl (bundles : List String) (registry : Option (RegistryDoc T)) :
    Contained bundles registry registry := by
  cases registry with
  | none => trivial
  | some doc => exact ⟨rfl, fun _ _ listed => listed⟩

theorem Contained.trans {a b c : Option (RegistryDoc T)} (first : Contained bundles a b)
    (second : Contained bundles b c) : Contained bundles a c := by
  cases a <;> cases b <;> cases c <;> simp only [Contained] at first second ⊢
  exact ⟨second.1.trans first.1, fun other ne listed => first.2 other ne (second.2 other ne listed)⟩

theorem ownedIn_of_ownedBy (listed : slug ∈ bundles) {e : Json T} (h : ownedBy slug e = true) :
    ownedIn bundles e = true :=
  List.any_eq_true.mpr ⟨slug, listed, h⟩

theorem filter_dropped (listed : slug ∈ bundles) (plugins : List (Json T)) :
    (plugins.filter fun e => !ownedBy slug e).filter (fun e => !ownedIn bundles e) =
      plugins.filter fun e => !ownedIn bundles e := by
  rw [List.filter_filter]
  refine List.filter_congr fun e _ => ?_
  cases owned : ownedBy slug e with
  | false => simp
  | true => simp [ownedIn_of_ownedBy listed owned]

theorem mem_flag_iff {flagged : Option (List String)} {slugs : List String} {s : String} :
    s ∈ flag flagged slugs ↔ s ∈ flagged.getD [] ∨ s ∈ slugs := by
  unfold flag
  generalize flagged.getD [] = listed
  induction slugs generalizing listed with
  | nil => simp
  | cons t rest ih =>
    rw [List.foldl_cons, ih]
    split
    · rename_i present
      grind
    · grind

theorem contained_quarantine (listed : slug ∈ bundles) (registry : Option (RegistryDoc T)) :
    Contained bundles registry (registry.map fun doc => doc.quarantine slug) := by
  cases registry with
  | none => trivial
  | some doc =>
    refine ⟨filter_dropped listed doc.plugins, fun other ne flagged => ?_⟩
    rcases mem_flag_iff.mp flagged with old | new
    · exact old
    · exact absurd (List.mem_singleton.mp new ▸ listed) ne

theorem contained_rollback {d : Disk T A} {j : Journal T} (listed : slug ∈ bundles)
    (own : ∀ e ∈ j.registryEntries, ownedBy slug e = true) :
    Contained bundles d.registry (d.rollback restoreRecords slug j).2.registry := by
  have swapped : ∀ doc : RegistryDoc T, Contained bundles (some doc) (some { doc with
      plugins := (doc.plugins.filter fun e => !ownedBy slug e) ++ j.registryEntries }) := by
    intro doc
    have added : j.registryEntries.filter (fun e => !ownedIn bundles e) = [] := by
      rw [List.filter_eq_nil_iff]
      intro e mem
      simp [ownedIn_of_ownedBy listed (own e mem)]
    refine ⟨?_, fun _ _ flagged => flagged⟩
    rw [List.filter_append, filter_dropped listed, added, List.append_nil]
  unfold Disk.rollback
  split
  · exact .refl bundles _
  · rename_i doc readable
    rw [readable]
    dsimp only
    split
    · exact swapped doc
    · exact swapped doc

theorem ownerSlug_specialist (slug : String) : ownerSlug ("specialist:" ++ slug) = slug := by
  rw [ownerSlug, String.toList_append, List.drop_left' (by decide), String.ofList_toList]

theorem mem_owners {doc : RegistryDoc T} {s : String} (h : s ∈ doc.owners) :
    ∃ e ∈ doc.plugins, ∃ o, entryOwner e = some o ∧ ownerSlug o = s := by
  rw [RegistryDoc.owners, List.mem_insertionSort, List.mem_dedup, List.mem_map] at h
  obtain ⟨o, mem, rfl⟩ := h
  obtain ⟨e, listed, owned⟩ := List.mem_filterMap.mp mem
  exact ⟨e, listed, o, owned, rfl⟩

theorem contained_quarantineAll {registry : Option (RegistryDoc T)}
    (alone : ¬ OthersOwn bundles registry) :
    Contained bundles registry (registry.map RegistryDoc.quarantineAll) := by
  cases registry with
  | none => trivial
  | some doc =>
    have owned : ∀ e ∈ doc.plugins, entryOwner e ≠ none → ownedIn bundles e = true := by
      intro e mem owner
      by_contra other
      exact alone ⟨doc, rfl, e, mem, owner, Bool.eq_false_iff.mpr other⟩
    refine ⟨?_, fun other ne flagged => ?_⟩
    · rw [RegistryDoc.quarantineAll, List.filter_filter]
      refine List.filter_congr fun e mem => ?_
      cases owner : entryOwner e with
      | none => simp
      | some o => simp [owned e mem (by simp [owner])]
    · rcases mem_flag_iff.mp flagged with old | new
      · exact old
      · obtain ⟨e, mem, o, owner, rfl⟩ := mem_owners new
        obtain ⟨slug, listed, own⟩ := List.any_eq_true.mp (owned e mem (by simp [owner]))
        rw [ownedBy, owner, decide_eq_true_eq, Option.some.injEq] at own
        rw [own, ownerSlug_specialist] at ne
        exact absurd listed ne

theorem not_othersOwn_quarantineAll (registry : Option (RegistryDoc T)) :
    ¬ OthersOwn bundles (registry.map RegistryDoc.quarantineAll) := by
  rintro ⟨doc, eq, e, mem, owner, -⟩
  obtain ⟨doc, rfl, rfl⟩ := Option.map_eq_some_iff.mp eq
  obtain ⟨-, unowned⟩ := List.mem_filter.mp mem
  exact owner (by simpa using unowned)

theorem Contained.othersOwn_iff {before after : Option (RegistryDoc T)}
    (h : Contained bundles before after) : OthersOwn bundles after ↔ OthersOwn bundles before := by
  cases before <;> cases after <;> simp only [Contained] at h
  · rfl
  · rename_i doc doc'
    have same : ∀ e, ownedIn bundles e = false → (e ∈ doc'.plugins ↔ e ∈ doc.plugins) := by
      intro e other
      have both : e ∈ doc'.plugins.filter (fun e => !ownedIn bundles e) ↔
          e ∈ doc.plugins.filter (fun e => !ownedIn bundles e) := by
        rw [h.1]
      simpa [List.mem_filter, other] using both
    constructor
    · rintro ⟨_, ⟨rfl⟩, e, mem, owner, other⟩
      exact ⟨doc, rfl, e, (same e other).mp mem, owner, other⟩
    · rintro ⟨_, ⟨rfl⟩, e, mem, owner, other⟩
      exact ⟨doc', rfl, e, (same e other).mpr mem, owner, other⟩

end Reconciling

section Boot
variable {bundles temps : List String} {slug temp : String} {d : Disk T A}
  {restoreRecords : List (Json T) → A → Except String A}

@[simp] theorem setAside_registry (d : Disk T A) (name : String) :
    (d.setAside name).registry = d.registry := by
  unfold Disk.setAside
  split <;> rfl

theorem rollback_ops (d : Disk T A) (slug : String) (j : Journal T) :
    (d.rollback restoreRecords slug j).2.ops = d.ops := by
  unfold Disk.rollback
  split
  · rfl
  · dsimp only
    split <;> rfl

theorem setAside_ops {name : String} (found : d.ops.get? name ≠ none) :
    ∃ content, (d.setAside name).ops = (d.ops.put (quarantinedName name, content)).remove name := by
  obtain ⟨⟨_, content⟩, at_⟩ := Option.ne_none_iff_exists'.mp found
  simp only [Disk.setAside, at_]
  exact ⟨content, rfl⟩

theorem reconcileFile_ops (d : Disk T A) (name : String) :
    (d.reconcileFile restoreRecords name).2.ops = d.ops ∧
        (d.ops.get? name = none ∨ isQuarantined name = true) ∨
      (d.reconcileFile restoreRecords name).2.ops = d.ops.remove name ∨
      ∃ content, (d.reconcileFile restoreRecords name).2.ops =
        (d.ops.put (quarantinedName name, content)).remove name := by
  unfold Disk.reconcileFile
  split
  · rename_i absent
    exact .inl ⟨rfl, .inl absent⟩
  · rename_i found
    have present : d.ops.get? name ≠ none := by simp [found]
    split
    · rename_i aside
      exact .inl ⟨rfl, .inr aside⟩
    · split
      · exact .inr (.inr (setAside_ops (d := d.quarantineAll) present))
      · rename_i slug _
        split
        · exact .inr (.inr (setAside_ops (d := d.quarantine slug) present))
        · rename_i j _
          have kept : (d.rollback restoreRecords slug j).2.ops = d.ops := rollback_ops d slug j
          split
          · exact .inr (.inl rfl)
          · split
            · rename_i left result
              rw [result] at kept
              exact .inr (.inl (by rw [← kept]))
            · rename_i left result
              rw [result] at kept
              rw [← kept] at present ⊢
              exact .inr (.inr (setAside_ops (d := left.quarantine slug) present))

theorem OnlyJournals.reconcileFile (h : OnlyJournals bundles slug temps d) (name : String) :
    OnlyJournals bundles slug temps (d.reconcileFile restoreRecords name).2 := by
  intro n c found
  rcases reconcileFile_ops d name with
    ⟨same, -⟩ | gone | ⟨content, aside⟩
  · rw [same] at found
    exact h n c found
  · rw [gone, Table.get?_remove] at found
    split at found
    · cases found
    · exact h n c found
  · rw [aside, Table.get?_remove] at found
    split at found
    · cases found
    · rw [Table.get?_put] at found
      split at found
      · rename_i renamed
        exact .inl (renamed ▸ quarantinedName_quarantined name)
      · exact h n c found

theorem reconcileFile_get? {name other : String} (ne : name ≠ other)
    (fresh : isQuarantined other = false) :
    (d.reconcileFile restoreRecords name).2.ops.get? other = d.ops.get? other := by
  rcases reconcileFile_ops d name with
    ⟨same, -⟩ | gone | ⟨content, aside⟩
  · rw [same]
  · rw [gone, Table.get?_remove, if_neg ne]
  · rw [aside, Table.get?_remove, if_neg ne, Table.get?_put, if_neg]
    rintro rfl
    rw [quarantinedName_quarantined] at fresh
    cases fresh

theorem entries_of_validPayload {content : Content T} {j : Journal T}
    (payload : validPayload content slug = some j) (own : OwnContent slug content) :
    ∀ e ∈ j.registryEntries, ownedBy slug e = true := by
  cases content with
  | torn => cases payload
  | whole j' =>
    rw [validPayload] at payload
    split at payload
    · exact Option.some.inj payload ▸ own
    · cases payload

/-- A journal costs only its own bundle; nor does a temporary file cost anyone where there are no
others. -/
theorem reconcileFile_contained (h : OnlyJournals bundles slug temps d) (name : String)
    (unparsed : name ∈ temps → journalSlug name = none)
    (spared : name ∉ temps ∨ ¬ OthersOwn bundles d.registry) :
    Contained bundles d.registry (d.reconcileFile restoreRecords name).2.registry := by
  unfold Disk.reconcileFile
  split
  · exact .refl bundles _
  · rename_i at_ content found
    obtain rfl : at_ = name := Table.key_of_get? found
    split
    · exact .refl bundles _
    · rename_i fresh
      obtain aside | ⟨owner, listed, parsed, own⟩ | ⟨temp, -⟩ := h at_ content found
      · exact absurd aside fresh
      · rw [parsed]
        dsimp only
        split
        · rw [setAside_registry]
          exact contained_quarantine listed d.registry
        · rename_i j payload
          split
          · exact .refl bundles _
          · have rolled : Contained bundles d.registry
                (d.rollback restoreRecords owner j).2.registry :=
              contained_rollback listed (entries_of_validPayload payload own)
            split
            · rename_i result
              rw [result] at rolled
              exact rolled
            · rename_i result
              rw [result] at rolled
              rw [setAside_registry]
              exact rolled.trans (contained_quarantine listed _)
      · rw [unparsed temp]
        dsimp only
        rw [setAside_registry]
        exact contained_quarantineAll (spared.resolve_left fun none => none temp)

def boot (restoreRecords : List (Json T) → A → Except String A) (names : List String)
    (d : Disk T A) : Disk T A :=
  names.foldl (fun d name => (d.reconcileFile restoreRecords name).2) d

theorem reconcileBoot_disk (d : Disk T A) :
    (d.reconcileBoot restoreRecords).2 = boot restoreRecords d.opsNames d := by
  unfold Disk.reconcileBoot boot
  generalize ([] : List BootAction) = actions
  generalize d.opsNames = names
  induction names generalizing actions d with
  | nil => rfl
  | cons name rest ih => exact ih _ _

theorem boot_contained (names : List String) (h : OnlyJournals bundles slug temps d)
    (unparsed : ∀ name ∈ temps, journalSlug name = none)
    (spared : (∀ name ∈ names, name ∉ temps) ∨ ¬ OthersOwn bundles d.registry) :
    Contained bundles d.registry (boot restoreRecords names d).registry := by
  induction names generalizing d with
  | nil => exact .refl bundles _
  | cons name rest ih =>
    have first : Contained bundles d.registry (d.reconcileFile restoreRecords name).2.registry :=
      reconcileFile_contained h name (unparsed name)
        (spared.imp_left fun clear => clear name List.mem_cons_self)
    have tail : Contained bundles (d.reconcileFile restoreRecords name).2.registry
        (boot restoreRecords rest (d.reconcileFile restoreRecords name).2).registry := by
      refine ih (h.reconcileFile name) (spared.imp ?_ ?_)
      · exact fun clear n mem => clear n (List.mem_cons_of_mem name mem)
      · exact fun alone others => alone (first.othersOwn_iff.mp others)
    exact first.trans tail

theorem reconcileFile_unparsed (unparsed : journalSlug temp = none)
    (fresh : isQuarantined temp = false) (present : d.ops.get? temp ≠ none) :
    (d.reconcileFile restoreRecords temp).2.registry =
      d.registry.map RegistryDoc.quarantineAll := by
  obtain ⟨file, found⟩ := Option.ne_none_iff_exists'.mp present
  simp only [Disk.reconcileFile, found, fresh, unparsed]
  exact setAside_registry _ _

/-- A temporary file purges every bundle, and no later file of the loop gives an entry back. -/
theorem boot_purges (names : List String) (h : OnlyJournals bundles slug [temp] d)
    (unparsed : journalSlug temp = none) (fresh : isQuarantined temp = false)
    (mem : temp ∈ names) (present : d.ops.get? temp ≠ none) :
    ¬ OthersOwn bundles (boot restoreRecords names d).registry := by
  have none_parsed : ∀ name ∈ [temp], journalSlug name = none := by
    simpa using unparsed
  induction names generalizing d with
  | nil => cases mem
  | cons name rest ih =>
    by_cases own : name = temp
    · subst own
      have purged : ¬ OthersOwn bundles (d.reconcileFile restoreRecords name).2.registry := by
        rw [reconcileFile_unparsed unparsed fresh present]
        exact not_othersOwn_quarantineAll _
      have tail : Contained bundles (d.reconcileFile restoreRecords name).2.registry
          (boot restoreRecords rest (d.reconcileFile restoreRecords name).2).registry :=
        boot_contained rest (h.reconcileFile name) none_parsed (.inr purged)
      exact fun others => purged (tail.othersOwn_iff.mp others)
    · have later : temp ∈ rest := (List.mem_cons.mp mem).resolve_left fun same => own same.symm
      refine ih (h.reconcileFile name) later ?_
      rwa [reconcileFile_get? own fresh]

theorem mem_opsNames {name : String} (present : d.ops.get? name ≠ none) : name ∈ d.opsNames := by
  obtain ⟨file, found⟩ := Option.ne_none_iff_exists'.mp present
  rw [Disk.opsNames, List.mem_insertionSort, ← Table.key_of_get? found]
  exact List.mem_map_of_mem (Table.mem_of_get? found)

theorem get?_of_mem_opsNames {name : String} (mem : name ∈ d.opsNames) :
    d.ops.get? name ≠ none := by
  rw [Disk.opsNames, List.mem_insertionSort, List.mem_map] at mem
  obtain ⟨file, listed, rfl⟩ := mem
  rw [Table.get?_key listed]
  exact Option.some_ne_none file

end Boot

section Containment
variable {bundles : List String} {slug opid hex : String} {d : Disk T A}
  {restoreRecords : List (Json T) → A → Except String A}

theorem not_contained_of_temp {left : Disk T A} {temp : String}
    (files : OnlyJournals bundles slug [temp] left) (unparsed : journalSlug temp = none)
    (fresh : isQuarantined temp = false) (present : left.ops.get? temp ≠ none)
    (others : OthersOwn bundles left.registry) :
    ¬ Contained bundles left.registry (left.reconcileBoot restoreRecords).2.registry := by
  rw [reconcileBoot_disk]
  intro contained
  exact boot_purges left.opsNames files unparsed fresh (mem_opsNames present) present
    (contained.othersOwn_iff.mpr others)

/-- A process dies inside `begin`, `mark_step` or `complete` of a bundle. The next boot leaves the
entries and flags of all bundles without a journal alone exactly when the call's temporary file
was not on disk, or no such bundle owns an entry. -/
theorem crash_contained_iff (call : JournalCall T) (own : OwnEntries slug call)
    (valid : isSlug slug.toList = true) (id : isUuidHex opid = true) (unique : isUuidHex hex = true)
    (listed : slug ∈ bundles) (before : OnlyJournals bundles slug [] d) (short : Nat)
    (inputs : List Bool) :
    Contained bundles d.registry
        (((call.script slug opid hex short).crashed inputs d).reconcileBoot
          restoreRecords).2.registry ↔
      ((call.script slug opid hex short).crashed inputs d).ops.get?
          (tempName (journalName slug opid) hex) = none ∨
        ¬ OthersOwn bundles d.registry := by
  obtain ⟨files, untouched⟩ :=
    crashed_onlyJournals call own valid id unique listed before short inputs
  have unparsed := journalSlug_tempName hex valid id
  have fresh := tempName_not_quarantined (journalName slug opid) unique
  rw [← untouched]
  generalize (call.script slug opid hex short).crashed inputs d = left at files
  constructor
  · intro contained
    by_contra neither
    rw [not_or, not_not] at neither
    exact not_contained_of_temp files unparsed fresh neither.1 neither.2 contained
  · intro clear
    rw [reconcileBoot_disk]
    refine boot_contained left.opsNames files (by simpa using unparsed) (clear.imp_left ?_)
    intro absent name mem temp
    rw [List.mem_singleton.mp temp] at mem
    exact get?_of_mem_opsNames mem absent

end Containment

section Example

def financeDisk : Disk Int Unit where
  ops := .empty
  registry := some ⟨[.obj [("name", .str "finance.bank"), ("owner", .str "specialist:finance")]],
    none⟩
  tuples := .empty
  acks := ()

def gardenInstall : JournalCall Int := .begin "install" [] [] [] "" "" ""

def gardenOpid : String := "00000000000000000000000000000000"

def gardenTemp : String := tempName (journalName "garden" gardenOpid) gardenOpid

def tornDisk : Disk Int Unit := { financeDisk with ops := financeDisk.ops.put (gardenTemp, .torn) }

theorem financeDisk_onlyJournals (temps : List String) :
    OnlyJournals ["garden"] "garden" temps financeDisk := by
  intro name content found
  cases found

/-- Dying before the first system call leaves the finance bundle alone. -/
theorem early_crash_contained :
    Contained ["garden"] financeDisk.registry
      (((gardenInstall.script "garden" gardenOpid gardenOpid 0).crashed [] financeDisk).reconcileBoot
        fun _ acks => .ok acks).2.registry :=
  (crash_contained_iff gardenInstall nofun (by decide) (by decide) (by decide)
    List.mem_cons_self (financeDisk_onlyJournals []) 0 []).mpr (.inl rfl)

theorem financeDisk_othersOwn : OthersOwn ["garden"] financeDisk.registry :=
  ⟨_, rfl, _, List.mem_cons_self, by decide, by decide⟩

theorem crashed_tornDisk : (gardenInstall.script "garden" gardenOpid gardenOpid 0).crashed [true]
    financeDisk = tornDisk := rfl

theorem tornDisk_not_contained :
    ¬ Contained ["garden"] tornDisk.registry
      (tornDisk.reconcileBoot fun _ acks => .ok acks).2.registry := by
  have files : OnlyJournals ["garden"] "garden" [gardenTemp] tornDisk :=
    (financeDisk_onlyJournals [gardenTemp]).put trivial (.inr List.mem_cons_self)
  have present : tornDisk.ops.get? gardenTemp ≠ none := by
    rw [tornDisk, Table.get?_put, if_pos rfl]
    exact Option.some_ne_none _
  exact not_contained_of_temp files (journalSlug_tempName _ (by decide) (by decide))
    (tempName_not_quarantined _ (by decide)) present financeDisk_othersOwn

/-- Dying right after the temporary file was created, the garden bundle's install costs the
finance bundle its plugin. -/
theorem temp_crash_purges_others :
    ¬ ∀ (d : Disk Int Unit) (slug opid hex : String) (call : JournalCall Int) (short : Nat)
      (inputs : List Bool), OwnEntries slug call → isSlug slug.toList = true →
      isUuidHex opid = true → isUuidHex hex = true → OnlyJournals [slug] slug [] d →
      Contained [slug] d.registry
        (((call.script slug opid hex short).crashed inputs d).reconcileBoot
          fun _ acks => .ok acks).2.registry := by
  intro always
  have contained := always financeDisk "garden" gardenOpid gardenOpid gardenInstall 0 [true]
    nofun (by decide) (by decide) (by decide) (financeDisk_onlyJournals [])
  rw [crashed_tornDisk] at contained
  exact tornDisk_not_contained contained

end Example

end Casa.BundleCrash
