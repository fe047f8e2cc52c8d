import Casa.ToolInstall
import Casa.StepRuns

/-! What an installation leaves of the launchers in `tools/bin`. What a launcher resolves through
is a set of paths, and no operation of a careful call touches one of them, its own launcher apart;
that one is replaced after the new generation has been found to stand on its own. -/

namespace Casa.ToolSafety
open StepRuns OperationTree FallibleTree LinkTree ToolInstall

variable {C : Type} (root : Root)

def Sweepable (d : Path) : Prop :=
  (∃ plugin entry, d = root.path ++ ["tarball", plugin, entry]) ∨
    ∃ name, d = root.path ++ [name] ∧ '-' ∈ name.toList

def serves (s : Files C) (name : String) : Option C :=
  (read s (root.launcher name)).map (·.content)

def PointsInto (s : Files C) (name : String) (d : Path) : Prop :=
  ∃ target, s (root.launcher name) = some (.link ⟨true, target⟩) ∧ d <+: target

/-- A launcher resolves inside the directory that its absolute target lies in, and through no
other launcher. -/
def Anchored (s : Files C) (name : String) : Prop :=
  ∀ f, read s (root.launcher name) = some f → ∀ p ∈ f.seen,
    (∀ d, Sweepable root d → d <+: p → PointsInto root s name d) ∧
      ∀ other, p = root.launcher other → other = name

def PublishedBy (s : Files C) (name plugin : String) : Prop :=
  ∃ dest rel, s (root.launcher name) = some (.link dest) ∧ root.relative dest = some rel ∧
    modernOwn plugin rel = true

def tree (c : Call C) : Files C := if c.request.hasCmd then c.world.built else c.world.copied

structure Careful (c : Call C) (s : Files C) : Prop where
  anchored : ∀ name, Anchored root s name
  listing : c.world.fails .listBin = false
  looks : ∀ name, c.world.fails (.lstat (root.launcher name)) = false ∧
    c.world.fails (.readlink (root.launcher name)) = false
  listed : ∀ name, s (root.launcher name) ≠ none → name ∈ c.world.names
  truthful : ∀ verifyBin, c.request.verifyBin = some verifyBin → ∀ row,
    (c.world.claimRows.find? fun row => row.verifyBin = some verifyBin.text) = some row →
    row.name = c.request.plugin.text → ∀ plugin, PublishedBy root s verifyBin.text plugin →
    plugin = c.request.plugin.text
  oneComponent : c.request.version.absolute = false ∧ c.request.version.dirs = []
  portable : ∀ verifyBin, c.request.verifyBin = some verifyBin → ∀ rel,
    rel.getLast? = some verifyBin.text → (∀ name ∈ rel, Plain name) →
    inside (tree c) (maxLinks - 1) [] rel ≠ .out
  answered : ∀ verifyBin, c.request.verifyBin = some verifyBin →
    c.world.fails (.resolves (root.launcher verifyBin.text)) = false
  early : ∀ k, c.dies = some k → ∀ e ∈ (c.events root s).take k,
    ∀ src dst, e.op ≠ .replace src dst

section Paths
variable {root}

theorem root_le {a b : Path} (h : root.path ++ a <+: root.path ++ b) : a <+: b :=
  (List.prefix_append_right_inj root.path).mp h

theorem root_inj {a b : Path} (h : root.path ++ a = root.path ++ b) : a = b :=
  List.append_cancel_left h

theorem head_eq_of_le {a b : String} {as bs : Path} (h : a :: as <+: b :: bs) : a = b :=
  (List.cons_prefix_cons.mp h).1

theorem ne_launcher {p : Path} (below : root.path ++ ["tarball"] <+: p) (name : String) :
    p ≠ root.launcher name := by
  rintro rfl
  exact absurd (head_eq_of_le (root_le below)) (by decide)

theorem tarball_le (more : Path) : root.path ++ ["tarball"] <+: root.path ++ "tarball" :: more :=
  (List.prefix_append_right_inj root.path).mpr
    (List.cons_prefix_cons.mpr ⟨rfl, List.nil_prefix⟩)

theorem not_dashed {name : String} (fixed : name = "bin" ∨ name = "tarball") :
    '-' ∉ name.toList := by
  rcases fixed with rfl | rfl <;> decide

theorem Sweepable.not_prefix_bin {d : Path} (h : Sweepable root d) {more : Path} :
    ¬d <+: root.path ++ "bin" :: more := by
  intro sub
  rcases h with ⟨plugin, entry, rfl⟩ | ⟨name, rfl, dashed⟩
  · exact absurd (head_eq_of_le (root_le sub)) (by decide)
  · exact not_dashed (.inl (head_eq_of_le (root_le sub))) dashed

theorem Sweepable.not_prefix_gens {d : Path} (h : Sweepable root d) {plugin : String} :
    ¬d <+: root.gensDir plugin := by
  intro sub
  rcases h with ⟨plugin', entry, rfl⟩ | ⟨name, rfl, dashed⟩
  · have := (root_le sub).length_le
    simp at this
  · exact not_dashed (.inr (head_eq_of_le (root_le sub))) dashed

theorem launcher_inj {a b : String} (h : root.launcher a = root.launcher b) : a = b := by
  have := root_inj h
  simpa using this

end Paths

section Moments
variable (c : Call C) (s : Files C) (verifyBin : Name)

def gens : Path := root.gensDir c.request.plugin.text

def link : Path := root.launcher verifyBin.text

def tmpName : String := "." ++ verifyBin.text ++ ".lnk-" ++ c.request.tmp

def staging : Path := gens root c ++ [".staging-" ++ c.world.staging]

def generation : Path := gens root c ++ [c.request.version.generation c.request.nonce]

def Held (p : Path) : Prop :=
  ∃ name f, read s (root.launcher name) = some f ∧ ∃ q ∈ f.seen, p <+: q

/-- The own launcher serves the new generation, and nobody else had published the name. -/
def Published (t : Files C) : Prop :=
  (∀ plugin, PublishedBy root s verifyBin.text plugin → plugin = c.request.plugin.text) ∧
    Anchored root t verifyBin.text ∧ isLinkNode (t (link root verifyBin)) = true ∧
    ∃ f, read t (link root verifyBin) = some f ∧ generation root c <+: f.path

def Lasting (name : String) : Prop :=
  name = tmpName c verifyBin → s (root.launcher name) ≠ none

/-- What holds at every moment of the call that found `s`. -/
structure Stands (t : Files C) : Prop where
  held : ∀ p, Held root s p → p ≠ link root verifyBin → t p = s p
  launchers : ∀ name, name ≠ verifyBin.text → Lasting root c s verifyBin name →
    t (root.launcher name) = s (root.launcher name)
  own : t (link root verifyBin) = s (link root verifyBin) ∨ Published root c s verifyBin t

def Spares (op : Op) (t : Files C) : Prop :=
  ∀ d, op = .rmtree d → d = staging root c ∨ (∀ name, ¬PointsInto root t name d) ∧
    ∀ name, d = root.path ++ [name] →
      ownedByLonger c.world.sweepRows c.request.plugin.text name = false

structure Licensed (op : Op) (t : Files C) : Prop where
  stands : Stands root c s verifyBin (device c.world op ⟨⟩ t).2
  unpublished : (∀ src dst, op ≠ .replace src dst) →
    (device c.world op ⟨⟩ t).2 (link root verifyBin) = t (link root verifyBin)
  spares : Spares root c op t

def Calm (t : Files C) : Prop := ∀ name, t (root.launcher name) = s (root.launcher name)

end Moments

section Facts
variable {root} {c : Call C} {s t t' : Files C} {verifyBin : Name}

theorem Held.there {p : Path} (h : Held root s p) (ne : p ≠ []) : s p ≠ none := by
  obtain ⟨name, f, found, q, mem, sub⟩ := h
  obtain ⟨there, dirs⟩ := walk_seen reached_nil found q mem
  by_cases same : p = q
  · exact same ▸ there
  · have inner : p <+: q.dropLast := by
      obtain ⟨rest, rfl⟩ := sub
      have some : rest ≠ [] := by
        rintro rfl
        exact same (List.append_nil p).symm
      rw [List.dropLast_append_of_ne_nil some]
      exact ⟨_, rfl⟩
    rw [dirs p inner ne]
    nofun

theorem Held.of_le {p q : Path} (h : Held root s q) (sub : p <+: q) : Held root s p := by
  obtain ⟨name, f, found, r, mem, le⟩ := h
  exact ⟨name, f, found, r, mem, sub.trans le⟩

theorem Stands.not_held (h : Stands root c s verifyBin t) {p q : Path} (gone : t p = none)
    (ne : p ≠ []) (away : p ≠ link root verifyBin) (sub : p <+: q) : ¬Held root s q := by
  intro held
  have here := held.of_le sub
  exact here.there ne ((h.held p here away).symm.trans gone)

theorem own_ne_tmp : verifyBin.text ≠ tmpName c verifyBin := by
  intro same
  have := congrArg String.length same
  simp only [tmpName, String.length_append] at this
  have : ".".length = 1 := rfl
  omega

theorem Stands.change (h : Stands root c s verifyBin t)
    (old : t (link root verifyBin) = s (link root verifyBin))
    (only : ∀ p, t' p ≠ t p → ¬Held root s p ∧ ∀ name, Lasting root c s verifyBin name →
      p ≠ root.launcher name) :
    Stands root c s verifyBin t' ∧ t' (link root verifyBin) = t (link root verifyBin) := by
  have same : ∀ name, Lasting root c s verifyBin name → t' (root.launcher name) = t (root.launcher name) := by
    intro name lasting
    by_contra moved
    exact (only _ moved).2 name lasting rfl
  have own : Lasting root c s verifyBin verifyBin.text := fun no => absurd no own_ne_tmp
  refine ⟨⟨fun p held away => ?_, fun name ne other => ?_, .inl ?_⟩, same _ own⟩
  · have kept : t' p = t p := by
      by_contra moved
      exact (only p moved).1 held
    exact kept.trans (h.held p held away)
  · exact (same name other).trans (h.launchers name ne other)
  · exact (same _ own).trans old

theorem Stands.kept (h : Stands root c s verifyBin t) (anchored : ∀ name, Anchored root s name)
    {name : String} (same : name = verifyBin.text → t (link root verifyBin) = s (link root verifyBin))
    {f : Found C} (found : read s (root.launcher name) = some f) :
    read t (root.launcher name) = some f := by
  refine walk_congr found fun p mem => ?_
  by_cases own : p = link root verifyBin
  · have := (anchored name f found p mem).2 verifyBin.text own
    rw [own]
    exact same this.symm
  · exact h.held p ⟨name, f, found, p, mem, List.prefix_rfl⟩ own

end Facts

section Phases
variable (c : Call C) (s : Files C) (verifyBin : Name)

def Part {α : Type} (P : Files C → Prop) (p : Code α) (Q : α → Files C → Prop)
    (E : Fault → Files C → Prop) : Prop :=
  Triple (device c.world) (Stands root c s verifyBin) (Licensed root c s verifyBin)
    (fun _ licensed => licensed.stands) P p Q E

structure Dirs (t : Files C) : Prop where
  gens : ∀ p, p <+: gens root c → p ≠ [] → t p = some .dir
  bin : t root.bin = some .dir

variable {root c s verifyBin}
variable {t t' : Files C} {P : Files C → Prop} {E : Fault → Files C → Prop}

theorem part_ask {op : Op} {Q : op.Answer → Files C → Prop}
    (h : ∀ t, Stands root c s verifyBin t → P t → Licensed root c s verifyBin op t ∧
      Ends Q E (device c.world op ⟨⟩ t).1 (device c.world op ⟨⟩ t).2) :
    Part root c s verifyBin P (ask op) Q E :=
  triple_ask fun t stands held => ⟨(h t stands held).1, fun _ => (h t stands held).2⟩

theorem ends_ite {α : Type} {Q : α → Files C → Prop} {b : Bool} {e : Fault} {a : α} {t : Files C}
    (failed : E e t) (done : Q a t) : Ends Q E (if b then .error e else .ok a) t := by
  cases b
  · exact done
  · exact failed

theorem part_look {op : Op} {Q : op.Answer → Files C → Prop}
    (same : ∀ t, (device c.world op ⟨⟩ t).2 = t) (other : ∀ d, op ≠ .rmtree d)
    (h : ∀ t, Stands root c s verifyBin t → P t → Ends Q E (device c.world op ⟨⟩ t).1 t) :
    Part root c s verifyBin P (ask op) Q E := by
  refine part_ask fun t stands held => ?_
  rw [same]
  refine ⟨⟨?_, fun _ => ?_, fun d now => absurd now (other d)⟩, h t stands held⟩
  · rw [same]
    exact stands
  · rw [same]

theorem part_change {op : Op} {Q : op.Answer → Files C → Prop}
    (h : ∀ t, Stands root c s verifyBin t → P t →
      t (link root verifyBin) = s (link root verifyBin) ∧ Spares root c op t ∧
      (∀ p, (device c.world op ⟨⟩ t).2 p ≠ t p → ¬Held root s p ∧
        ∀ name, Lasting root c s verifyBin name → p ≠ root.launcher name) ∧
      Ends Q E (device c.world op ⟨⟩ t).1 (device c.world op ⟨⟩ t).2) :
    Part root c s verifyBin P (ask op) Q E := by
  refine part_ask fun t stands held => ?_
  obtain ⟨old, spares, only, ends⟩ := h t stands held
  obtain ⟨after, same⟩ := stands.change old only
  exact ⟨⟨after, fun _ => same, spares⟩, ends⟩

theorem modernOwn_unique {p q : String} {rel : List String} (h : modernOwn p rel = true)
    (h' : modernOwn q rel = true) : p = q := by
  have differ : ∀ p : String, "venv-" ++ p ≠ "npm" ∧ "venv-" ++ p ≠ "tarball" := by
    intro p
    constructor <;> intro same
    · have := congrArg String.toList same
      rw [String.toList_append] at this
      cases this
    · have := congrArg String.toList same
      rw [String.toList_append] at this
      cases this
  cases rel with
  | nil => cases h
  | cons head rest =>
    simp only [modernOwn, Bool.or_eq_true, Bool.and_eq_true, decide_eq_true_eq] at h h'
    rcases h with rfl | ⟨kind, own⟩
    · rcases h' with same | ⟨kind', -⟩
      · exact String.append_right_inj _ |>.mp same
      · rcases kind' with no | no
        · exact absurd no (differ p).1
        · exact absurd no (differ p).2
    · rcases h' with rfl | ⟨-, own'⟩
      · rcases kind with no | no
        · exact absurd no (differ q).1
        · exact absurd no (differ q).2
      · exact Option.some.inj (own.symm.trans own')

theorem claim_part (careful : Careful root c s) (named : c.request.verifyBin = some verifyBin) :
    Part root c s verifyBin (Calm root s) (ensureBinClaim root c.request verifyBin.text)
      (fun _ t => (∀ plugin, PublishedBy root s verifyBin.text plugin →
        plugin = c.request.plugin.text) ∧ Calm root s t) (fun _ => Calm root s) := by
  unfold ensureBinClaim
  refine Triple.bind (Q := fun rows t => rows = c.world.claimRows ∧ Calm root s t)
    (part_look (fun _ => rfl) nofun fun t _ calm => ⟨rfl, calm⟩) fun rows => triple_of fun read => ?_
  subst read
  cases found : c.world.claimRows.find? fun row => row.verifyBin = some verifyBin.text with
  | some row =>
    dsimp only
    split
    · next own =>
      exact triple_pure fun t _ calm => ⟨careful.truthful verifyBin named row found own, calm⟩
    · exact triple_raise fun t _ calm => calm
  | none =>
    dsimp only
    refine Triple.bind (Q := fun occupied t => (occupied = false → s (link root verifyBin) = none) ∧
      Calm root s t) (part_look (fun _ => rfl) nofun fun t _ calm => ⟨?_, calm⟩) fun occupied =>
        triple_of fun seen => ?_
    · intro none
      have : (t (root.launcher verifyBin.text)).isSome = false := by
        simpa [(careful.looks verifyBin.text).1] using none
      rw [calm verifyBin.text] at this
      exact Option.not_isSome_iff_eq_none.mp (Bool.eq_false_iff.mp this)
    · cases occupied with
      | false =>
        refine triple_pure fun t _ calm => ⟨fun plugin ⟨dest, rel, node, _⟩ => ?_, calm⟩
        cases (seen rfl).symm.trans node
      | true =>
        refine Triple.bind (Q := fun raw t => (∀ dest, raw = some dest →
          s (link root verifyBin) = some (.link dest)) ∧ Calm root s t)
          (part_look (fun _ => rfl) nofun fun t _ calm => ⟨?_, calm⟩) fun raw =>
            triple_of fun target => ?_
        · intro dest now
          rw [(careful.looks verifyBin.text).2] at now
          refine (calm verifyBin.text).symm.trans ?_
          cases node : t (root.launcher verifyBin.text) with
          | none => rw [node] at now; cases now
          | some v =>
            rw [node] at now
            cases v with
            | link dest' =>
              cases now
              rfl
            | _ => cases now
        · cases raw with
          | none => exact triple_raise fun t _ calm => calm
          | some dest =>
            dsimp only
            cases below : root.relative dest with
            | none => exact triple_raise fun t _ calm => calm
            | some rel =>
              dsimp only
              split
              · next own =>
                refine triple_pure fun t _ calm => ⟨fun plugin ⟨dest', rel', node, below', theirs⟩ =>
                  ?_, calm⟩
                cases (target dest rfl).symm.trans node
                cases below.symm.trans below'
                exact modernOwn_unique theirs (Bool.and_eq_true_iff.mp own).2
              · exact triple_raise fun t _ calm => calm

/-! ### The directories and the reclaim -/

def madeDirs (root : Root) (c : Call C) : List Path :=
  root.path.inits.tail ++ [root.bin, root.path ++ ["tarball"], gens root c]

theorem mem_madeDirs {p : Path} (mem : p ∈ madeDirs root c) :
    p ≠ [] ∧ (p <+: gens root c ∨ p = root.bin) := by
  rcases List.mem_append.mp mem with old | new
  · have sub : p <+: root.path := (List.mem_inits p root.path).mp (List.mem_of_mem_tail old)
    refine ⟨?_, .inl (sub.trans ⟨_, rfl⟩)⟩
    rintro rfl
    cases path : root.path with
    | nil =>
      rw [path] at old
      cases old
    | cons a rest =>
      rw [path] at old
      simp at old
  · simp only [List.mem_cons, List.not_mem_nil, or_false] at new
    rcases new with rfl | rfl | rfl
    · exact ⟨by simp [Root.bin], .inr rfl⟩
    · exact ⟨by simp, .inl (tarball_le _)⟩
    · exact ⟨by simp [gens, Root.gensDir], .inl List.prefix_rfl⟩

theorem madeDirs_of_le {p : Path} (sub : p <+: gens root c) (ne : p ≠ []) :
    p ∈ madeDirs root c := by
  have split : gens root c = root.path ++ ["tarball"] ++ [c.request.plugin.text] := by
    simp [gens, Root.gensDir]
  rw [split] at sub
  unfold madeDirs
  rcases List.prefix_concat_iff.mp sub with rfl | sub
  · simp [gens, Root.gensDir]
  rcases List.prefix_concat_iff.mp sub with rfl | sub
  · simp
  · refine List.mem_append_left _ ?_
    have mem := (List.mem_inits p root.path).mpr sub
    cases path : root.path with
    | nil =>
      rw [path] at sub
      exact absurd (List.prefix_nil.mp sub) ne
    | cons a rest =>
      rw [path] at mem
      simpa [ne] using mem

theorem dir_ne_launcher {p : Path} (h : p <+: gens root c ∨ p = root.bin) (name : String) :
    p ≠ root.launcher name := by
  rintro rfl
  rcases h with sub | same
  · exact absurd (head_eq_of_le (root_le sub)) (by decide)
  · have := root_inj same
    simp at this

theorem mkdirs_part (items : List Path) (known : ∀ p ∈ items, p ∈ madeDirs root c)
    (done : List Path) :
    Part root c s verifyBin (fun t => Calm root s t ∧ ∀ p ∈ done, t p = some .dir)
      (Script.forEach (fun p => ask (.mkdir p)) items)
      (fun _ t => Calm root s t ∧ ∀ p ∈ done ++ items, t p = some .dir)
      (fun _ => Calm root s) := by
  induction items generalizing done with
  | nil =>
    refine triple_pure fun t _ held => ?_
    rwa [List.append_nil]
  | cons p rest ih =>
    obtain ⟨mem, known⟩ := List.forall_mem_cons.mp known
    obtain ⟨ne, place⟩ := mem_madeDirs mem
    refine Triple.bind (Q := fun _ t => Calm root s t ∧ ∀ q ∈ done ++ [p], t q = some .dir)
      (part_change fun t stands ⟨calm, dirs⟩ => ⟨calm verifyBin.text, nofun, ?_⟩) fun _ => ?_
    · dsimp only [device]
      cases c.world.fails (.mkdir p) with
      | true => exact ⟨fun q moved => absurd rfl moved, calm⟩
      | false =>
        cases node : t p with
        | none =>
          have away := dir_ne_launcher place
          refine ⟨fun q moved => ?_, fun name => ?_, fun q mem => ?_⟩
          · have same : q = p := by
              by_contra ne
              exact moved (Function.update_of_ne ne _ _)
            subst same
            exact ⟨stands.not_held node ne (away _) List.prefix_rfl, fun name _ => away name⟩
          · exact (Function.update_of_ne (away name).symm _ _).trans (calm name)
          · change Function.update t p (some .dir) q = some .dir
            by_cases same : q = p
            · rw [same, Function.update_self]
            · rw [Function.update_of_ne same]
              rcases List.mem_append.mp mem with old | new
              · exact dirs q old
              · exact absurd (List.mem_singleton.mp new) same
        | some v =>
          cases v with
          | dir =>
            refine ⟨fun q moved => absurd rfl moved, calm, fun q mem => ?_⟩
            rcases List.mem_append.mp mem with old | new
            · exact dirs q old
            · rw [List.mem_singleton.mp new]
              exact node
          | _ => exact ⟨fun q moved => absurd rfl moved, calm⟩
    · rw [show done ++ p :: rest = done ++ [p] ++ rest by simp]
      exact ih known (done ++ [p])

theorem madeDirs_part :
    Part root c s verifyBin (Calm root s)
      (Script.forEach (fun p => ask (.mkdir p)) (madeDirs root c))
      (fun _ t => Calm root s t ∧ Dirs root c t) (fun _ => Calm root s) := by
  refine ((mkdirs_part (madeDirs root c) (fun _ mem => mem) []).pre
    fun t _ calm => ⟨calm, nofun⟩).post (fun _ t _ ⟨calm, dirs⟩ => ⟨calm, ?_, ?_⟩) fun _ _ _ => id
  · exact fun p sub ne => dirs p (madeDirs_of_le sub ne)
  · exact dirs root.bin (by simp [madeDirs])

def Complete (root : Root) (c : Call C) (s : Files C) (targets : List Target) : Prop :=
  ∀ name ∈ c.world.names, ∀ dest, s (root.launcher name) = some (.link dest) → dest ∈ targets

abbrev Ready (root : Root) (c : Call C) (s : Files C) (t : Files C) : Prop :=
  Calm root s t ∧ Dirs root c t

theorem readlinks_part (careful : Careful root c s) (names : List String) :
    Part root c s verifyBin (Ready root c s) (readlinks root names)
      (fun targets t => (∀ name ∈ names, ∀ dest, s (root.launcher name) = some (.link dest) →
        dest ∈ targets) ∧ Ready root c s t) (fun _ => Calm root s) := by
  induction names with
  | nil => exact triple_pure fun t _ ready => ⟨nofun, ready⟩
  | cons name rest ih =>
    refine Triple.bind (Q := fun raw t => (∀ dest, s (root.launcher name) = some (.link dest) →
      raw = some dest) ∧ Ready root c s t) (part_look (fun _ => rfl) nofun fun t _ ready =>
        ⟨fun dest node => ?_, ready⟩) fun raw => triple_of fun first => ?_
    · rw [(careful.looks name).2, ready.1 name, node]
    · refine ih.bind fun more => triple_of fun later => triple_pure fun t _ ready => ⟨?_, ready⟩
      rintro other mem dest node
      rcases List.mem_cons.mp mem with rfl | mem
      · exact List.mem_append_left _ (by rw [first dest node]; exact List.mem_singleton_self _)
      · exact List.mem_append_right _ (later other mem dest node)

theorem serving_of_pointsInto (careful : Careful root c s) {targets : List Target}
    (complete : Complete root c s targets) {name : String} {d : Path}
    (into : PointsInto root s name d) : serving targets d = true := by
  obtain ⟨target, node, sub⟩ := into
  have listed := careful.listed name (by rw [node]; nofun)
  refine List.any_eq_true.mpr ⟨_, complete name listed _ node, ?_⟩
  exact Bool.and_eq_true_iff.mpr ⟨rfl, List.isPrefixOf_iff_prefix.mpr sub⟩

theorem rmtree_part (careful : Careful root c s) {targets : List Target}
    (complete : Complete root c s targets) {d : Path} (sweepable : Sweepable root d)
    (idle : serving targets d = false) (own : ∀ name, d = root.path ++ [name] →
      ownedByLonger c.world.sweepRows c.request.plugin.text name = false) :
    Part root c s verifyBin (Ready root c s) (ask (.rmtree d)) (fun _ => Ready root c s)
      (fun _ => Calm root s) := by
  have alone : ∀ name, ¬PointsInto root s name d := fun name into =>
    absurd (idle.symm.trans (serving_of_pointsInto careful complete into)) (by decide)
  have outside : ∀ t p, ¬d <+: p → (device c.world (.rmtree d) ⟨⟩ t).2 p = t p := by
    intro t p out
    dsimp only [device]
    split
    · exact if_neg fun both => out both.1
    · rfl
  have launchers : ∀ name, ¬d <+: root.launcher name := fun name => sweepable.not_prefix_bin
  refine part_change fun t stands ⟨calm, dirs⟩ => ⟨calm verifyBin.text, ?_, ?_, ?_⟩
  · rintro d' ⟨⟩
    refine .inr ⟨fun name into => alone name ?_, own⟩
    obtain ⟨target, node, sub⟩ := into
    exact ⟨target, (calm name).symm.trans node, sub⟩
  · intro p moved
    have below : d <+: p := by
      by_contra out
      exact moved (outside t p out)
    refine ⟨?_, ?_⟩
    · rintro ⟨name, f, found, q, mem, sub⟩
      exact alone name ((careful.anchored name f found q mem).1 d sweepable (below.trans sub))
    · rintro name - rfl
      exact launchers name below
  · refine ⟨fun name => (outside t _ (launchers name)).trans (calm name), ?_, ?_⟩
    · intro p sub ne
      refine (outside t p fun below => ?_).trans (dirs.gens p sub ne)
      exact sweepable.not_prefix_gens (below.trans sub)
    · exact (outside t _ sweepable.not_prefix_bin).trans dirs.bin

theorem mem_of_flatOf {plugin name : String} (flat : flatOf plugin name = true) :
    '-' ∈ name.toList :=
  ( List.isPrefixOf_iff_prefix.mp flat).subset (by simp)

theorem reclaim_part (careful : Careful root c s) :
    Part root c s verifyBin (Ready root c s) (reclaim root c.request)
      (fun _ => Ready root c s) (fun _ => Calm root s) := by
  unfold reclaim
  refine Triple.bind (Q := fun rows t => rows = c.world.sweepRows ∧ Ready root c s t)
    (part_look (fun _ => rfl) nofun fun t _ ready => ⟨rfl, ready⟩) fun rows => triple_of fun same => ?_
  subst same
  refine Triple.bind (Q := fun names t => names = c.world.names ∧ Ready root c s t)
    (part_look (fun _ => rfl) nofun fun t _ ready => ⟨by rw [careful.listing]; rfl, ready⟩)
    fun names => triple_of fun same => ?_
  subst same
  refine (readlinks_part careful c.world.names).bind fun targets => triple_of fun complete => ?_
  refine Triple.bind (Q := fun _ => Ready root c s)
    (part_look (fun _ => rfl) nofun fun t _ ready => ready) fun entries => ?_
  refine Triple.bind (Q := fun _ => Ready root c s) (triple_forEach entries fun entry _ => ?_)
    fun _ => ?_
  · dsimp only
    split
    · exact triple_pure fun _ _ ready => ready
    · next idle =>
      refine rmtree_part careful complete (.inl ⟨c.request.plugin.text, entry, ?_⟩)
        (Bool.eq_false_iff.mpr idle) fun name same => ?_
      · simp [Root.gensDir]
      · simp [Root.gensDir] at same
  · refine Triple.bind (Q := fun _ => Ready root c s)
      (part_look (fun _ => rfl) nofun fun t _ ready => ends_ite ready.1 ready) fun flats =>
        triple_forEach flats fun name _ => ?_
    dsimp only
    split
    · next flat =>
      refine Triple.bind (Q := fun _ => Ready root c s)
        (part_look (fun _ => rfl) nofun fun t _ ready => ends_ite ready.1 ready) fun isDir => ?_
      split
      · split
        · exact triple_pure fun _ _ ready => ready
        · next idle =>
          split
          · exact triple_pure fun _ _ ready => ready
          · split
            · exact triple_pure fun _ _ ready => ready
            · next owned =>
              refine rmtree_part careful complete (.inr ⟨name, rfl, mem_of_flatOf flat⟩)
                (Bool.eq_false_iff.mpr idle) fun other same => ?_
              obtain rfl : name = other := by simpa using root_inj same
              exact Bool.eq_false_iff.mpr owned
      · exact triple_pure fun _ _ ready => ready
    · exact triple_pure fun _ _ ready => ready

/-! ### The staging tree -/

theorem plain_of_length {name : String} (long : 2 < name.length) : Plain name := by
  constructor <;> rintro rfl <;> exact absurd long (by decide)

theorem plain_gens : ∀ name ∈ gens root c, Plain name := by
  intro name mem
  rcases List.mem_append.mp mem with old | new
  · exact root.plain name old
  · simp only [List.mem_cons, List.not_mem_nil, or_false] at new
    rcases new with rfl | rfl
    · decide
    · exact c.request.plugin.plain

theorem plain_generation : ∀ name ∈ generation root c, Plain name := by
  refine List.forall_mem_append.mpr ⟨plain_gens, List.forall_mem_singleton.mpr ?_⟩
  refine plain_of_length ?_
  simp only [Version.generation, String.length_append]
  have : ".g-".length = 3 := rfl
  omega

theorem plain_staging : ∀ name ∈ staging root c, Plain name := by
  refine List.forall_mem_append.mpr ⟨plain_gens, List.forall_mem_singleton.mpr ?_⟩
  refine plain_of_length ?_
  rw [String.length_append]
  have : ".staging-".length = 9 := rfl
  omega

theorem gens_ne_launcher {p : Path} (below : gens root c <+: p) (name : String) :
    p ≠ root.launcher name :=
  ne_launcher ((tarball_le _).trans below) name

theorem not_prefix_gens {entry : String} {more p : Path} (sub : p <+: gens root c) :
    ¬gens root c ++ entry :: more <+: p := fun below => by
  have := (below.trans sub).length_le
  rw [List.length_append, List.length_cons] at this
  omega

theorem not_prefix_bin {more : Path} : ¬gens root c ++ more <+: root.bin := fun below => by
  have : gens root c ++ more = root.path ++ "tarball" :: c.request.plugin.text :: more := by
    simp [gens, Root.gensDir]
  rw [this] at below
  exact absurd (head_eq_of_le (root_le below)) (by decide)

theorem Ready.change (h : Ready root c s t)
    (only : ∀ p, t' p ≠ t p → ∃ entry, gens root c ++ [entry] <+: p) : Ready root c s t' := by
  have same : ∀ p, (∀ entry, ¬gens root c ++ [entry] <+: p) → t' p = t p := by
    intro p out
    by_contra moved
    obtain ⟨entry, below⟩ := only p moved
    exact out entry below
  refine ⟨fun name => ?_, fun p sub ne => ?_, ?_⟩
  · refine (same _ fun entry below => ?_).trans (h.1 name)
    exact gens_ne_launcher ((List.prefix_append _ _).trans below) name rfl
  · exact (same p fun _ => not_prefix_gens sub).trans (h.2.gens p sub ne)
  · exact (same _ fun _ => not_prefix_bin).trans h.2.bin

def Fresh (root : Root) (c : Call C) (s : Files C) : Prop :=
  ∀ p, staging root c <+: p → ¬Held root s p

structure Building (root : Root) (c : Call C) (s : Files C) (content : Files C) (t : Files C) :
    Prop where
  ready : Ready root c s t
  staged : t (staging root c) = some .dir
  top : t (staging root c ++ ["tree"]) = some .dir
  filled : ∀ y, y ≠ [] → t (staging root c ++ ["tree"] ++ y) = content y

theorem mkdtemp_part :
    Part root c s verifyBin (Ready root c s) (ask (.mkdtemp (gens root c)))
      (fun p t => (p = staging root c ∧ Fresh root c s) ∧ Ready root c s t ∧
        t (staging root c) = some .dir) (fun _ => Calm root s) := by
  refine part_change fun t stands ready => ⟨ready.1 verifyBin.text, nofun, ?_⟩
  dsimp only [device]
  split
  · exact ⟨fun p moved => absurd rfl moved, ready.1⟩
  · next made =>
    simp only [Bool.or_eq_true, not_or, Bool.not_eq_true, Option.isSome_eq_false_iff,
      Option.isNone_iff_eq_none] at made
    have gone : t (staging root c) = none := made.2
    have ne : staging root c ≠ [] := by simp [staging]
    have away := @gens_ne_launcher _ root c (staging root c) (List.prefix_append _ _)
    refine ⟨fun p moved => ?_, ⟨rfl, fun p => stands.not_held gone ne (away _)⟩, ?_, ?_⟩
    · have same : p = staging root c := by
        by_contra other
        exact moved (Function.update_of_ne other _ _)
      subst same
      exact ⟨stands.not_held gone ne (away _) List.prefix_rfl, fun name _ => away name⟩
    · refine ready.change fun p moved => ⟨".staging-" ++ c.world.staging, ?_⟩
      by_contra out
      refine moved (Function.update_of_ne ?_ _ _)
      rintro rfl
      exact out List.prefix_rfl
    · exact Function.update_self ..

theorem fill_top (t : Files C) (p : Path) (content : Files C) : fill t p content p = some .dir :=
  if_pos rfl

theorem fill_below (t : Files C) (p : Path) (content : Files C) {y : Path} (ne : y ≠ []) :
    fill t p content (p ++ y) = content y := by
  unfold fill
  rw [if_neg (by simpa using ne), if_pos (List.prefix_append p y), List.drop_left]

theorem fill_outside (t : Files C) {p q : Path} (content : Files C) (out : ¬p <+: q) :
    fill t p content q = t q := by
  unfold fill
  rw [if_neg, if_neg out]
  rintro rfl
  exact out List.prefix_rfl

theorem Building.fill (h : Ready root c s t) (staged : t (staging root c) = some .dir)
    (content : Files C) :
    Building root c s content (fill t (staging root c ++ ["tree"]) content) := by
  refine ⟨h.change fun p moved => ⟨".staging-" ++ c.world.staging, ?_⟩, ?_, fill_top ..,
    fun y ne => fill_below _ _ _ ne⟩
  · by_contra out
    exact moved (fill_outside t content fun below => out ((List.prefix_append _ _).trans below))
  · refine (fill_outside t content fun below => ?_).trans staged
    have := below.length_le
    rw [List.length_append, List.length_singleton] at this
    omega

theorem fill_away (fresh : Fresh root c s) {content : Files C} {p : Path}
    (moved : fill t (staging root c ++ ["tree"]) content p ≠ t p) :
    ¬Held root s p ∧ ∀ name, Lasting root c s verifyBin name → p ≠ root.launcher name := by
  have below : staging root c ++ ["tree"] <+: p := by
    by_contra out
    exact moved (fill_outside t content out)
  have staged : staging root c <+: p := (List.prefix_append _ _).trans below
  exact ⟨fresh p staged, fun name _ => gens_ne_launcher ((List.prefix_append _ _).trans staged) name⟩

theorem copytree_part (fresh : Fresh root c s) :
    Part root c s verifyBin (fun t => Ready root c s t ∧ t (staging root c) = some .dir)
      (ask (.copytree (staging root c ++ ["tree"])))
      (fun _ => Building root c s c.world.copied) (fun _ => Ready root c s) := by
  refine part_change fun t stands ⟨ready, staged⟩ => ⟨ready.1 verifyBin.text, nofun,
    fun p => fill_away fresh, ?_⟩
  have built := Building.fill ready staged c.world.copied
  exact ends_ite built.ready built

theorem installCmd_part (fresh : Fresh root c s) :
    Part root c s verifyBin (Building root c s c.world.copied)
      (ask (.installCmd (staging root c ++ ["tree"])))
      (fun _ => Building root c s c.world.built) (fun _ => Ready root c s) := by
  refine part_change fun t stands building => ⟨building.ready.1 verifyBin.text, nofun,
    fun p => fill_away fresh, ?_⟩
  have built := Building.fill building.ready building.staged c.world.built
  exact ends_ite built.ready built

theorem firstFile_part (named : String) (items : List Path) (known : ∀ rel ∈ items,
      rel.getLast? = some named ∧ ∀ name ∈ rel, Plain name) {content : Files C} :
    Part root c s verifyBin (Building root c s content)
      (firstFile (staging root c ++ ["tree"]) items)
      (fun found t => Building root c s content t ∧ ∀ rel, found = some rel →
        (rel.getLast? = some named ∧ ∀ name ∈ rel, Plain name) ∧
        (read t (staging root c ++ ["tree"] ++ rel)).isSome = true) (fun _ => Ready root c s) := by
  induction items with
  | nil => exact triple_pure fun t _ building => ⟨building, nofun⟩
  | cons rel rest ih =>
    obtain ⟨good, known⟩ := List.forall_mem_cons.mp known
    refine Triple.bind (Q := fun file t => Building root c s content t ∧ (file = true →
      (read t (staging root c ++ ["tree"] ++ rel)).isSome = true))
      (part_look (fun _ => rfl) nofun fun t _ building => ends_ite building.ready
        ⟨building, id⟩) fun file => ?_
    cases file with
    | true =>
      refine triple_pure fun t _ ⟨building, file⟩ => ⟨building, ?_⟩
      rintro _ ⟨⟩
      exact ⟨good, file rfl⟩
    | false => exact (ih known).pre fun t _ held => held.1

theorem locate_part {content : Files C} :
    Part root c s verifyBin (Building root c s content)
      (locateVerifyBin (staging root c ++ ["tree"]) verifyBin.text)
      (fun found t => Building root c s content t ∧ ∀ rel, found = some rel →
        (rel.getLast? = some verifyBin.text ∧ ∀ name ∈ rel, Plain name) ∧
        (read t (staging root c ++ ["tree"] ++ rel)).isSome = true) (fun _ => Ready root c s) := by
  unfold locateVerifyBin
  have bin : Plain "bin" := by decide
  refine (firstFile_part verifyBin.text [["bin", verifyBin.text], [verifyBin.text]]
    (by simp [verifyBin.plain, bin])).bind fun found => ?_
  cases found with
  | some rel => exact triple_pure fun t _ held => held
  | none =>
    refine Triple.bind (Q := fun items t => (∀ rel ∈ items, rel.getLast? = some verifyBin.text ∧
      ∀ name ∈ rel, Plain name) ∧ Building root c s content t)
      (part_look (fun _ => rfl) nofun fun t _ held => ends_ite held.1.ready ⟨?_, held.1⟩)
      fun items => triple_of fun known => firstFile_part verifyBin.text items known
    intro rel mem
    simpa using (List.mem_filter.mp mem).2

/-- The new generation in its place, with its binary found in it. -/
structure Landed (root : Root) (c : Call C) (s : Files C) (rel : Path) (t : Files C) : Prop where
  ready : Ready root c s t
  top : t (generation root c) = some .dir
  filled : ∀ y, y ≠ [] → t (generation root c ++ y) = tree c y
  inside : ∃ f, inside (tree c) (maxLinks - 1) [] rel = .found f

theorem place_eq (careful : Careful root c s) :
    c.request.version.place (gens root c) c.request.nonce = generation root c := by
  unfold Version.place generation
  rw [careful.oneComponent.1, careful.oneComponent.2]
  rfl

theorem installDir_eq (careful : Careful root c s) :
    c.request.version.installDir (gens root c) c.request.nonce = generation root c := by
  unfold Version.installDir generation
  rw [careful.oneComponent.1, careful.oneComponent.2]
  simp

theorem found_inside (careful : Careful root c s) (named : c.request.verifyBin = some verifyBin)
    (building : Building root c s (tree c) t) {rel : Path}
    (good : rel.getLast? = some verifyBin.text ∧ ∀ name ∈ rel, Plain name)
    (file : (read t (staging root c ++ ["tree"] ++ rel)).isSome = true) :
    ∃ f, inside (tree c) (maxLinks - 1) [] rel = .found f := by
  have stays := careful.portable verifyBin named rel good.1 good.2
  have plain : ∀ name ∈ staging root c ++ ["tree"], Plain name :=
    List.forall_mem_append.mpr ⟨plain_staging, List.forall_mem_singleton.mpr (by decide)⟩
  have dirs : ∀ p, p <+: staging root c ++ ["tree"] → p ≠ [] → t ([] ++ p) = some .dir := by
    intro p sub ne
    rw [List.nil_append]
    rcases List.prefix_concat_iff.mp sub with rfl | sub
    · exact building.top
    rcases List.prefix_concat_iff.mp sub with rfl | sub
    · exact building.staged
    · exact building.ready.2.gens p sub ne
  have walked := inside_walk building.filled (k := 1) stays
  rw [List.append_nil] at walked
  unfold ToolInstall.read at file
  rw [walk_dirs maxLinks rel plain dirs, Option.isSome_map, List.nil_append] at file
  change (walk t (maxLinks - 1 + 1) _ rel).isSome = true at file
  rw [walked, Option.isSome_map] at file
  cases result : inside (tree c) (maxLinks - 1) [] rel with
  | found f => exact ⟨f, rfl⟩
  | out => exact absurd result stays
  | missing =>
    rw [result] at file
    cases file

theorem moved_into (t : Files C) (src dst y : Path) : moved t src dst (dst ++ y) = t (src ++ y) := by
  unfold moved
  rw [if_pos (List.prefix_append dst y), List.drop_left]

theorem moved_outside (t : Files C) {src dst p : Path} (into : ¬dst <+: p) (off : ¬src <+: p) :
    moved t src dst p = t p := by
  unfold moved
  rw [if_neg into, if_neg off]

theorem rename_part (careful : Careful root c s) (named : c.request.verifyBin = some verifyBin)
    (fresh : Fresh root c s) {rel : Path}
    (good : rel.getLast? = some verifyBin.text ∧ ∀ name ∈ rel, Plain name) :
    Part root c s verifyBin (fun t => Building root c s (tree c) t ∧
        (read t (staging root c ++ ["tree"] ++ rel)).isSome = true)
      (ask (.rename (staging root c ++ ["tree"]) (generation root c)))
      (fun _ t => staging root c ≠ generation root c ∧ Landed root c s rel t)
      (fun _ => Ready root c s) := by
  refine part_change fun t stands ⟨building, file⟩ => ⟨building.ready.1 verifyBin.text, nofun, ?_⟩
  dsimp only [device]
  split
  · exact ⟨fun p moved => absurd rfl moved, building.ready⟩
  · next made =>
    simp only [Bool.or_eq_true, not_or, Bool.not_eq_true, Option.isSome_eq_false_iff,
      Option.isNone_iff_eq_none] at made
    have gone : t (generation root c) = none := made.2
    have ne : generation root c ≠ [] := by simp [generation]
    have away := @gens_ne_launcher _ root c (generation root c) (List.prefix_append _ _)
    have apart : staging root c ≠ generation root c := by
      intro same
      cases gone.symm.trans (same ▸ building.staged)
    have off : ∀ p, generation root c <+: p → ¬staging root c <+: p := by
      intro p into below
      refine apart (List.prefix_of_prefix_length_le below into ?_ |>.eq_of_length ?_) <;>
        simp [staging, generation]
    have changed : ∀ p, moved t (staging root c ++ ["tree"]) (generation root c) p ≠ t p →
        generation root c <+: p ∨ staging root c <+: p := by
      intro p moved
      by_contra out
      rw [not_or] at out
      refine moved (moved_outside t out.1 fun below => out.2 ?_)
      exact (List.prefix_append _ _).trans below
    refine ⟨fun p moved => ⟨?_, fun name _ => ?_⟩, apart, ⟨?_, ?_, fun y some => ?_, ?_⟩⟩
    · rcases changed p moved with into | off
      · exact stands.not_held gone ne (away _) into
      · exact fresh p off
    · rcases changed p moved with into | off
      · exact gens_ne_launcher ((List.prefix_append _ _).trans into) name
      · exact gens_ne_launcher ((List.prefix_append _ _).trans off) name
    · refine building.ready.change fun p moved => ?_
      rcases changed p moved with into | off
      · exact ⟨_, into⟩
      · exact ⟨_, off⟩
    · have top := moved_into t (staging root c ++ ["tree"]) (generation root c) []
      rw [List.append_nil, List.append_nil] at top
      exact top.trans building.top
    · exact (moved_into ..).trans (building.filled y some)
    · exact found_inside careful named building good file

theorem swept_staging (t : Files C) {p : Path} (out : ¬staging root c <+: p) :
    (device c.world (.rmtree (staging root c)) ⟨⟩ t).2 p = t p := by
  dsimp only [device]
  split
  · exact if_neg fun both => out both.1
  · rfl

theorem unstage_part (fresh : Fresh root c s) {Q : Files C → Prop}
    (ready : ∀ t, Q t → Ready root c s t)
    (kept : ∀ t t', Q t → Ready root c s t' → (∀ p, ¬staging root c <+: p → t' p = t p) → Q t') :
    Part root c s verifyBin Q (ask (.rmtree (staging root c))) (fun _ => Q) (fun _ => Q) := by
  refine part_change fun t stands held => ?_
  have changed : ∀ p, (device c.world (.rmtree (staging root c)) ⟨⟩ t).2 p ≠ t p →
      staging root c <+: p := by
    intro p moved
    by_contra out
    exact moved (swept_staging t out)
  refine ⟨(ready t held).1 verifyBin.text, ?_, fun p moved => ⟨fresh p (changed p moved),
    fun name _ => ?_⟩, ?_⟩
  · rintro d ⟨⟩
    exact .inl rfl
  · exact gens_ne_launcher ((List.prefix_append _ _).trans (changed p moved)) name
  · exact kept t _ held ((ready t held).change fun p moved => ⟨_, changed p moved⟩)
      fun p out => swept_staging t out

theorem part_cleaning {α : Type} {p : Code α} {cleanup : Code PUnit} {Q Q' : α → Files C → Prop}
    {E' : Fault → Files C → Prop} (body : Part root c s verifyBin P p Q E)
    (done : ∀ a, Part root c s verifyBin (Q a) cleanup (fun _ => Q' a) E')
    (failed : ∀ e, Part root c s verifyBin (E e) cleanup (fun _ => E' e) E') :
    Part root c s verifyBin P (cleaning p cleanup) Q' E' := by
  refine Spec.bind (Q := Ends Q E) body fun x => ?_
  cases x with
  | ok a =>
    refine Spec.bind (Q := Ends (fun _ => Q' a) E') (done a) fun y => ?_
    cases y with
    | ok _ => exact spec_pure (stable_sequential _) fun _ _ held => held
    | error e => exact spec_pure (stable_sequential _) fun _ _ held => held
  | error e =>
    refine Spec.bind (Q := Ends (fun _ => E' e) E') (failed e) fun y => ?_
    cases y with
    | ok _ => exact spec_pure (stable_sequential _) fun _ _ held => held
    | error e => exact spec_pure (stable_sequential _) fun _ _ held => held

/-- What `stage` leaves for the publication. -/
def Staged (root : Root) (c : Call C) (s : Files C) : Option Path → Files C → Prop
  | none, t => Ready root c s t
  | some rel, t => Landed root c s rel t

theorem stage_part (careful : Careful root c s) (named : c.request.verifyBin = some verifyBin) :
    Part root c s verifyBin (Ready root c s) (stage root c.request verifyBin.text)
      (Staged root c s) (fun _ t => t (link root verifyBin) = s (link root verifyBin)) := by
  unfold stage
  refine Triple.bind (mkdtemp_part.post (fun _ _ _ => id) fun _ _ _ calm => calm verifyBin.text)
    fun staged => triple_of fun ⟨same, fresh⟩ => ?_
  subst same
  suffices whole : Part root c s verifyBin (fun t => Ready root c s t ∧
      t (staging root c) = some .dir) _ (Staged root c s) (fun _ => Ready root c s) from
    whole.post (fun _ _ _ => id) fun _ _ _ ready => ready.1 verifyBin.text
  refine part_cleaning (Q := fun found t => found.elim (Ready root c s t) fun rel =>
    staging root c ≠ generation root c ∧ Landed root c s rel t) (E := fun _ => Ready root c s) ?_ ?_ ?_
  · refine (copytree_part fresh).bind fun _ => ?_
    refine Triple.bind (Q := fun _ => Building root c s (tree c)) ?_ fun _ => ?_
    · unfold tree runInstallCmd
      split
      · exact installCmd_part fresh
      · exact triple_pure fun _ _ building => building
    · refine locate_part.bind fun found => ?_
      cases found with
      | none => exact triple_pure fun _ _ held => held.1.ready
      | some rel =>
        refine Triple.pre (P := fun t => (rel.getLast? = some verifyBin.text ∧
          ∀ name ∈ rel, Plain name) ∧ Building root c s (tree c) t ∧
            (read t (staging root c ++ ["tree"] ++ rel)).isSome = true) (triple_of fun good => ?_)
          fun t _ held => ⟨(held.2 rel rfl).1, held.1, (held.2 rel rfl).2⟩
        rw [show c.request.version.place (root.gensDir c.request.plugin.text) c.request.nonce =
          generation root c from place_eq careful]
        refine (rename_part careful named fresh good).bind fun _ => ?_
        exact triple_pure fun _ _ held => held
  · intro found
    cases found with
    | none => exact unstage_part fresh (fun _ => id) fun _ _ _ ready _ => ready
    | some rel =>
      refine (unstage_part (Q := fun t => staging root c ≠ generation root c ∧ Landed root c s rel t)
        fresh (fun _ held => held.2.ready) fun t t' held ready same => ⟨held.1, ?_⟩).post
          (fun _ _ _ held => held.2) fun _ _ _ held => held.2.ready
      have out : ∀ y, ¬staging root c <+: generation root c ++ y := by
        intro y below
        refine held.1 ((List.prefix_of_prefix_length_le below (List.prefix_append _ y) ?_).eq_of_length
          ?_) <;> simp [staging, generation]
      refine ⟨ready, ?_, fun y some => (same _ (out y)).trans (held.2.filled y some), held.2.inside⟩
      refine (same _ ?_).trans held.2.top
      have := out []
      rwa [List.append_nil] at this
  · exact fun _ => unstage_part fresh (fun _ => id) fun _ _ _ ready _ => ready

/-! ### The publication -/

def tmpLink (root : Root) (c : Call C) (verifyBin : Name) : Path :=
  root.launcher (tmpName c verifyBin)

/-- The temporary link is made, the launcher is still the old one. -/
structure Linked (root : Root) (c : Call C) (s : Files C) (verifyBin : Name) (rel : Path)
    (t : Files C) : Prop where
  dirs : Dirs root c t
  top : t (generation root c) = some .dir
  filled : ∀ y, y ≠ [] → t (generation root c ++ y) = tree c y
  inside : ∃ f, inside (tree c) (maxLinks - 1) [] rel = .found f
  own : t (link root verifyBin) = s (link root verifyBin)
  temp : t (tmpLink root c verifyBin) = some (.link ⟨true, generation root c ++ rel⟩)
  new : s (tmpLink root c verifyBin) = none

theorem tmp_ne_link : tmpLink root c verifyBin ≠ link root verifyBin := fun same =>
  own_ne_tmp (launcher_inj same).symm

theorem dirs_kept (h : Dirs root c t) (same : ∀ p, p ≠ link root verifyBin →
    p ≠ tmpLink root c verifyBin → t' p = t p) : Dirs root c t' := by
  refine ⟨fun p sub ne => ?_, ?_⟩
  · exact (same p (dir_ne_launcher (.inl sub) _) (dir_ne_launcher (.inl sub) _)).trans (h.gens p sub ne)
  · have away := @dir_ne_launcher _ root c root.bin (.inr rfl)
    exact (same _ (away _) (away _)).trans h.bin

theorem generation_kept (same : ∀ p, p ≠ link root verifyBin → p ≠ tmpLink root c verifyBin →
    t' p = t p) (y : Path) : t' (generation root c ++ y) = t (generation root c ++ y) := by
  have below : gens root c <+: generation root c ++ y :=
    (List.prefix_append _ _).trans (List.prefix_append _ _)
  exact same _ (gens_ne_launcher below _) (gens_ne_launcher below _)

theorem symlink_part {rel : Path} :
    Part root c s verifyBin (Landed root c s rel)
      (ask (.symlink (generation root c ++ rel) (tmpLink root c verifyBin)))
      (fun _ => Linked root c s verifyBin rel)
      (fun _ t => t (link root verifyBin) = s (link root verifyBin)) := by
  refine part_change fun t stands landed => ⟨landed.ready.1 verifyBin.text, nofun, ?_⟩
  dsimp only [device]
  split
  · exact ⟨fun p moved => absurd rfl moved, landed.ready.1 verifyBin.text⟩
  · next made =>
    simp only [Bool.or_eq_true, not_or, Bool.not_eq_true, Option.isSome_eq_false_iff,
      Option.isNone_iff_eq_none] at made
    have gone : t (tmpLink root c verifyBin) = none := made.2
    have new : s (tmpLink root c verifyBin) = none := (landed.ready.1 _).symm.trans gone
    have ne : tmpLink root c verifyBin ≠ [] := by simp [tmpLink, Root.launcher]
    have same : ∀ p, p ≠ link root verifyBin → p ≠ tmpLink root c verifyBin →
        Function.update t (tmpLink root c verifyBin)
          (some (.link ⟨true, generation root c ++ rel⟩)) p = t p := fun p _ other =>
      Function.update_of_ne other _ _
    refine ⟨fun p moved => ?_, dirs_kept landed.ready.2 same, ?_, fun y some => ?_, landed.inside, ?_,
      Function.update_self .., new⟩
    · have this : p = tmpLink root c verifyBin := by
        by_contra other
        exact moved (Function.update_of_ne other _ _)
      subst this
      refine ⟨stands.not_held gone ne tmp_ne_link List.prefix_rfl, fun name lasting now => ?_⟩
      exact lasting (launcher_inj now).symm (now ▸ new)
    · have := generation_kept same []
      rw [List.append_nil] at this
      exact this.trans landed.top
    · exact (generation_kept same y).trans (landed.filled y some)
    · exact (Function.update_of_ne tmp_ne_link.symm _ _).trans (landed.ready.1 verifyBin.text)

theorem generation_dirs (dirs : Dirs root c t) (top : t (generation root c) = some .dir) :
    ∀ p, p <+: generation root c → p ≠ [] → t ([] ++ p) = some .dir := by
  intro p sub ne
  rw [List.nil_append]
  rcases List.prefix_concat_iff.mp sub with rfl | sub
  · exact top
  · exact dirs.gens p sub ne

theorem bin_cases {p : Path} (sub : p <+: root.bin) : p <+: gens root c ∨ p = root.bin := by
  rcases List.prefix_concat_iff.mp sub with same | sub
  · exact .inr same
  · exact .inl (sub.trans ⟨_, rfl⟩)

theorem read_published (dirs : Dirs root c t) (top : t (generation root c) = some .dir)
    (filled : ∀ y, y ≠ [] → t (generation root c ++ y) = tree c y) {rel : Path} {f : Found C}
    (found : inside (tree c) (maxLinks - 1) [] rel = .found f)
    (node : t (link root verifyBin) = some (.link ⟨true, generation root c ++ rel⟩)) :
    read t (link root verifyBin) =
      some ((((f.below (generation root c)).after (passed [] (generation root c))).past
        (link root verifyBin)).after (passed [] root.bin)) := by
  have plain : ∀ name ∈ root.bin, Plain name :=
    List.forall_mem_append.mpr ⟨root.plain, List.forall_mem_singleton.mpr (by decide)⟩
  have bins : ∀ p, p <+: root.bin → p ≠ [] → t ([] ++ p) = some .dir := by
    intro p sub ne
    rcases bin_cases (c := c) sub with sub | rfl
    · exact dirs.gens p sub ne
    · exact dirs.bin
  have split : link root verifyBin = root.bin ++ [verifyBin.text] := by
    simp [link, Root.launcher, Root.bin]
  have walked : walk t (maxLinks - 1 + 0) (generation root c ++ []) rel = _ :=
    inside_walk filled (by rw [found]; nofun)
  rw [List.append_nil, found] at walked
  have last : t ([] ++ root.bin ++ [verifyBin.text]) =
      some (.link ⟨true, generation root c ++ rel⟩) := by
    rw [List.nil_append, ← split]
    exact node
  have target : walk t (maxLinks - 1) [] (generation root c ++ rel) =
      some ((f.below (generation root c)).after (passed [] (generation root c))) := by
    rw [walk_dirs (maxLinks - 1) rel plain_generation (generation_dirs dirs top), List.nil_append]
    exact congrArg _ walked
  unfold ToolInstall.read
  rw [split, walk_dirs maxLinks [verifyBin.text] plain bins]
  change (walk t (maxLinks - 1 + 1) ([] ++ root.bin) [verifyBin.text]).map _ = _
  rw [walk_link verifyBin.plain last, target]
  rfl

theorem sweepable_below {d y : Path} (h : Sweepable root d) (sub : d <+: generation root c ++ y) :
    d <+: generation root c := by
  refine List.prefix_of_prefix_length_le sub (List.prefix_append _ y) ?_
  rcases h with ⟨plugin, entry, rfl⟩ | ⟨name, rfl, -⟩ <;>
    simp [generation, gens, Root.gensDir]

theorem anchored_published (dirs : Dirs root c t) (top : t (generation root c) = some .dir)
    (filled : ∀ y, y ≠ [] → t (generation root c ++ y) = tree c y) {rel : Path} {f : Found C}
    (found : inside (tree c) (maxLinks - 1) [] rel = .found f)
    (node : t (link root verifyBin) = some (.link ⟨true, generation root c ++ rel⟩)) :
    Anchored root t verifyBin.text := by
  intro g walked p mem
  cases (read_published dirs top filled found node).symm.trans walked
  have into : ∀ d, d <+: generation root c → PointsInto root t verifyBin.text d := fun d sub =>
    ⟨_, node, sub.trans (List.prefix_append _ rel)⟩
  rcases List.mem_append.mp mem with onWay | mem
  · obtain ⟨pre, sub, rfl⟩ := mem_passed onWay
    refine ⟨fun d sweepable le => absurd (le.trans sub) sweepable.not_prefix_bin, fun other same => ?_⟩
    exact absurd same (dir_ne_launcher (bin_cases (c := c) sub) other)
  rcases List.mem_cons.mp mem with rfl | mem
  · refine ⟨fun d sweepable le => absurd le sweepable.not_prefix_bin, fun other same => ?_⟩
    exact (launcher_inj same).symm
  rcases List.mem_append.mp mem with onWay | mem
  · obtain ⟨pre, sub, rfl⟩ := mem_passed onWay
    refine ⟨fun d _ le => into d (le.trans sub), fun other same => ?_⟩
    rcases List.prefix_concat_iff.mp sub with rfl | sub
    · exact absurd same (gens_ne_launcher (List.prefix_append _ _) other)
    · exact absurd same (dir_ne_launcher (.inl sub) other)
  · obtain ⟨y, -, rfl⟩ := List.mem_map.mp mem
    refine ⟨fun d sweepable le => into d (sweepable_below sweepable le), fun other same => ?_⟩
    have below : gens root c <+: generation root c ++ y :=
      (List.prefix_append _ _).trans (List.prefix_append _ _)
    exact absurd same (gens_ne_launcher below other)

theorem replace_part (sole : ∀ plugin, PublishedBy root s verifyBin.text plugin →
      plugin = c.request.plugin.text) {rel : Path} :
    Part root c s verifyBin (Linked root c s verifyBin rel)
      (ask (.replace (tmpLink root c verifyBin) (link root verifyBin)))
      (fun _ => Published root c s verifyBin)
      (fun _ t => t (link root verifyBin) = s (link root verifyBin)) := by
  refine part_ask fun t stands linked => ?_
  by_cases stops : (c.world.fails (.replace (tmpLink root c verifyBin) (link root verifyBin)) ||
      isDirNode (t (link root verifyBin))) = true
  · have result : device c.world (.replace (tmpLink root c verifyBin) (link root verifyBin)) ⟨⟩ t =
        (.error .os, t) := if_pos stops
    exact ⟨⟨by rwa [result], fun no => absurd rfl (no _ _), nofun⟩, by rw [result]; exact linked.own⟩
  · have result : device c.world (.replace (tmpLink root c verifyBin) (link root verifyBin)) ⟨⟩ t =
        (.ok ⟨⟩, Function.update (Function.update t (link root verifyBin)
          (t (tmpLink root c verifyBin))) (tmpLink root c verifyBin) none) := if_neg stops
    have same : ∀ p, p ≠ link root verifyBin → p ≠ tmpLink root c verifyBin →
        Function.update (Function.update t (link root verifyBin) (t (tmpLink root c verifyBin)))
          (tmpLink root c verifyBin) none p = t p := fun p own temp => by
      rw [Function.update_of_ne temp, Function.update_of_ne own]
    have node : Function.update (Function.update t (link root verifyBin)
        (t (tmpLink root c verifyBin))) (tmpLink root c verifyBin) none (link root verifyBin) =
          some (.link ⟨true, generation root c ++ rel⟩) := by
      rw [Function.update_of_ne tmp_ne_link.symm, Function.update_self]
      exact linked.temp
    obtain ⟨f, found⟩ := linked.inside
    have dirs := dirs_kept linked.dirs same
    have filled := fun y some => (generation_kept same y).trans (linked.filled y some)
    have top := generation_kept same []
    rw [List.append_nil] at top
    have top := top.trans linked.top
    have published : Published root c s verifyBin (Function.update (Function.update t
        (link root verifyBin) (t (tmpLink root c verifyBin))) (tmpLink root c verifyBin) none) :=
      ⟨sole, anchored_published dirs top filled found node, by rw [node]; rfl, _,
        read_published dirs top filled found node, List.prefix_append _ _⟩
    have ne : tmpLink root c verifyBin ≠ [] := by simp [tmpLink, Root.launcher]
    rw [result]
    refine ⟨⟨?_, fun no => absurd rfl (no _ _), nofun⟩, published⟩
    rw [result]
    refine ⟨fun p held away => ?_, fun name other lasting => ?_, .inr published⟩
    · refine (same p away ?_).trans (stands.held p held away)
      rintro rfl
      exact held.there ne linked.new
    · refine (same _ (fun own => other (launcher_inj own)) fun temp => ?_).trans
        (stands.launchers name other lasting)
      exact lasting (launcher_inj temp) (temp ▸ linked.new)

theorem unlink_part :
    Part root c s verifyBin (fun t => s (tmpLink root c verifyBin) = none ∧
        t (link root verifyBin) = s (link root verifyBin)) 
      (ask (.unlink (tmpLink root c verifyBin)))
      (fun _ t => t (link root verifyBin) = s (link root verifyBin))
      (fun _ t => t (link root verifyBin) = s (link root verifyBin)) := by
  have ne : tmpLink root c verifyBin ≠ [] := by simp [tmpLink, Root.launcher]
  have outside : ∀ t p, p ≠ tmpLink root c verifyBin →
      (device c.world (.unlink (tmpLink root c verifyBin)) ⟨⟩ t).2 p = t p := by
    intro t p other
    dsimp only [device]
    split
    · rfl
    · exact Function.update_of_ne other _ _
  refine part_change fun t stands ⟨new, own⟩ => ⟨own, nofun, fun p moved => ?_, ?_⟩
  · have this : p = tmpLink root c verifyBin := by
      by_contra other
      exact moved (outside t p other)
    subst this
    exact ⟨fun held => held.there ne new, fun name lasting temp =>
      lasting (launcher_inj temp).symm (temp ▸ new)⟩
  · exact (outside t _ tmp_ne_link.symm).trans own

theorem publish_part (sole : ∀ plugin, PublishedBy root s verifyBin.text plugin →
      plugin = c.request.plugin.text) {rel : Path} :
    Part root c s verifyBin (Landed root c s rel)
      (atomicSymlink (generation root c ++ rel) (link root verifyBin) (tmpLink root c verifyBin))
      (fun _ => Published root c s verifyBin)
      (fun _ t => t (link root verifyBin) = s (link root verifyBin)) := by
  unfold atomicSymlink
  refine symlink_part.bind fun _ => ?_
  refine Triple.rescue (E := fun _ t => s (tmpLink root c verifyBin) = none ∧
    t (link root verifyBin) = s (link root verifyBin)) ?_ fun e => ?_
  · refine Triple.pre (P := fun t => s (tmpLink root c verifyBin) = none ∧
      Linked root c s verifyBin rel t) (triple_of fun new => ?_) fun t _ linked => ⟨linked.new, linked⟩
    exact (replace_part sole).post (fun _ _ _ => id) fun _ _ _ own => ⟨new, own⟩
  · exact unlink_part.bind fun _ => triple_raise fun _ _ own => own

def Finished (root : Root) (c : Call C) (s : Files C) (verifyBin : Name) (v : InstallResult)
    (t : Files C) : Prop :=
  (v.verifyBinResolves = true → Published root c s verifyBin t ∧ v.installDir = generation root c) ∧
    (v.verifyBinResolves = false → t (link root verifyBin) = s (link root verifyBin))

theorem install_part (careful : Careful root c s) (named : c.request.verifyBin = some verifyBin) :
    Part root c s verifyBin (Calm root s) (installTarball root c.request)
      (Finished root c s verifyBin)
      (fun _ t => t (link root verifyBin) = s (link root verifyBin)) := by
  have calm : ∀ t, Calm root s t → t (link root verifyBin) = s (link root verifyBin) := fun t calm =>
    calm verifyBin.text
  unfold installTarball
  dsimp only
  split
  · exact triple_raise fun t _ => calm t
  · rw [named]
    dsimp only
    refine Triple.bind ((claim_part careful named).post (fun _ _ _ => id) fun _ t _ => calm t)
      fun _ => triple_of fun sole => ?_
    refine Triple.bind (madeDirs_part.post (fun _ _ _ => id) fun _ t _ => calm t) fun _ => ?_
    refine Triple.bind ((reclaim_part careful).post (fun _ _ _ => id) fun _ t _ => calm t)
      fun _ => ?_
    refine Triple.bind (Q := fun _ => Ready root c s) (part_look (fun _ => rfl) nofun
      fun t _ ready => ends_ite (calm t ready.1) ready) fun _ => ?_
    refine (stage_part careful named).bind fun found => ?_
    cases found with
    | none => exact triple_pure fun t _ ready => ⟨nofun, fun _ => calm t ready.1⟩
    | some rel =>
      dsimp only
      rw [show c.request.version.installDir (root.gensDir c.request.plugin.text) c.request.nonce =
        generation root c from installDir_eq careful]
      refine (publish_part sole).bind fun _ => ?_
      refine Triple.bind (Q := fun resolves t => resolves = true ∧ Published root c s verifyBin t)
        (part_look (fun _ => rfl) nofun fun t _ published => ?_) fun resolves =>
          triple_of fun yes => triple_pure fun t _ published => ?_
      · have whole := published
        obtain ⟨-, -, linked, f, found, -⟩ := published
        have file : (read t (link root verifyBin)).isSome = true := by
          rw [found]
          rfl
        have answered : c.world.fails (.resolves (link root verifyBin)) = false :=
          careful.answered verifyBin named
        change Ends _ _ (if c.world.fails (.resolves (link root verifyBin)) then .error Fault.os
          else .ok (isLinkNode (t (link root verifyBin)) && (read t (link root verifyBin)).isSome)) t
        rw [answered, linked, file]
        exact ⟨rfl, whole⟩
      · subst yes
        exact ⟨fun _ => ⟨published, rfl⟩, nofun⟩

end Phases

/-- What a call leaves: every launcher serves what it served, its own one apart if it returned
that it resolves, and then it serves the new generation; the reclaim spares what is pointed into
and what is owned; and the launcher of another plugin is not touched. -/
structure Kept (c : Call C) (s : Files C) : Prop where
  serving : ∀ name content, serves root s name = some content →
    serves root (c.after root s) name = some content ∨
      ∃ verifyBin v, c.request.verifyBin = some verifyBin ∧ name = verifyBin.text ∧
        c.returns root s v ∧ v.verifyBinResolves = true
  resolving : ∀ v, c.returns root s v → v.verifyBinResolves = true →
    ∃ verifyBin f, c.request.verifyBin = some verifyBin ∧
      read (c.after root s) (root.launcher verifyBin.text) = some f ∧ v.installDir <+: f.path
  sparing : ∀ e ∈ c.events root s, ∀ d, e.op = .rmtree d → d = staging root c ∨
    (∀ name, ¬PointsInto root e.before name d) ∧ ∀ name, d = root.path ++ [name] →
      ownedByLonger c.world.sweepRows c.request.plugin.text name = false
  foreign : ∀ verifyBin plugin, c.request.verifyBin = some verifyBin →
    PublishedBy root s verifyBin.text plugin → plugin ≠ c.request.plugin.text →
    c.after root s (root.launcher verifyBin.text) = s (root.launcher verifyBin.text)
  anchored : ∀ name, serves root s name ≠ none → Anchored root (c.after root s) name

section Calls
variable {root} {c : Call C} {s t : Files C} {verifyBin : Name}

theorem stands_start : Stands root c s verifyBin s :=
  ⟨fun _ _ _ => rfl, fun _ _ _ => rfl, .inl rfl⟩

theorem call_sound (careful : Careful root c s) (named : c.request.verifyBin = some verifyBin) :
    (∀ e ∈ c.events root s, Stands root c s verifyBin e.before ∧
      Licensed root c s verifyBin e.op e.before) ∧
    Stands root c s verifyBin (c.outcome root s).2 ∧
    Ends (Finished root c s verifyBin)
      (fun _ t => t (link root verifyBin) = s (link root verifyBin))
      (c.outcome root s).1 (c.outcome root s).2 :=
  Spec.sound (install_part careful named) stands_start (fun _ => rfl) 0

theorem after_own (careful : Careful root c s) (named : c.request.verifyBin = some verifyBin) :
    Stands root c s verifyBin (c.after root s) ∧
      (c.after root s (link root verifyBin) = s (link root verifyBin) ∨
        Published root c s verifyBin (c.after root s) ∧ ∃ v, c.returns root s v ∧
          v.verifyBinResolves = true ∧ v.installDir = generation root c) := by
  obtain ⟨events, stands, ends⟩ := call_sound careful named
  cases dies : c.dies with
  | none =>
    have after : c.after root s = (c.outcome root s).2 := by
      unfold Call.after
      rw [dies]
    rw [after]
    refine ⟨stands, ?_⟩
    cases result : (c.outcome root s).1 with
    | error e =>
      rw [result] at ends
      exact .inl ends
    | ok v =>
      rw [result] at ends
      cases resolves : v.verifyBinResolves with
      | false => exact .inl (ends.2 resolves)
      | true =>
        obtain ⟨published, place⟩ := ends.1 resolves
        exact .inr ⟨published, v, ⟨dies, result⟩, resolves, place⟩
  | some k =>
    have after : c.after root s = (((c.events root s)[k]?).map (·.before)).getD
        (c.outcome root s).2 := by
      unfold Call.after
      rw [dies]
    have own : c.after root s (link root verifyBin) = s (link root verifyBin) := by
      rw [after]
      refine before_keeps (P := fun t => t (link root verifyBin) = s (link root verifyBin))
        PUnit.unit (installTarball root c.request) 0 k s rfl fun e mem old => ?_
      refine ((events e (List.mem_of_mem_take mem)).2.unpublished ?_).trans old
      exact careful.early k dies e mem
    refine ⟨?_, .inl own⟩
    rw [after]
    cases at_ : (c.events root s)[k]? with
    | none => exact stands
    | some e => exact (events e (List.mem_of_getElem? at_)).1

theorem after_unnamed (unnamed : c.request.verifyBin = none) :
    c.events root s = [] ∧ c.after root s = s ∧
      ∀ v, c.returns root s v → v.verifyBinResolves = false := by
  have program : (∃ e, installTarball root c.request = Prog.done (.error e)) ∨
      ∃ v, installTarball root c.request = Prog.done (.ok v) ∧ v.verifyBinResolves = false := by
    unfold installTarball
    dsimp only
    split
    · exact .inl ⟨_, rfl⟩
    · rw [unnamed]
      exact .inr ⟨_, rfl, rfl⟩
  unfold Call.after Call.returns Call.events Call.outcome
  rcases program with ⟨e, program⟩ | ⟨v, program, unresolved⟩ <;> rw [program]
  · refine ⟨rfl, by cases c.dies <;> rfl, fun v ⟨_, no⟩ => ?_⟩
    cases no
  · refine ⟨rfl, by cases c.dies <;> rfl, fun v' ⟨_, same⟩ => ?_⟩
    cases same
    exact unresolved

theorem serves_of_read {name : String} {f : Found C} (found : read s (root.launcher name) = some f) :
    serves root s name = some f.content := congrArg (Option.map _) found

theorem call_kept (careful : Careful root c s) : Kept root c s := by
  cases named : c.request.verifyBin with
  | none =>
    obtain ⟨events, after, unresolved⟩ := @after_unnamed _ root _ s named
    refine ⟨?_, ?_, ?_, ?_, ?_⟩
    · intro name content served
      rw [after]
      exact .inl served
    · intro v returned yes
      exact absurd ((unresolved v returned).symm.trans yes) (by decide)
    · intro e mem
      rw [events] at mem
      cases mem
    · intro verifyBin plugin no
      cases named.symm.trans no
    · intro name _
      rw [after]
      exact careful.anchored name
  | some verifyBin =>
    obtain ⟨stands, own⟩ := after_own careful named
    have kept : ∀ name f, read s (root.launcher name) = some f →
        (read (c.after root s) (root.launcher name) = some f ∧
          Anchored root (c.after root s) name) ∨
        name = verifyBin.text ∧ Published root c s verifyBin (c.after root s) ∧
          ∃ v, c.returns root s v ∧ v.verifyBinResolves = true := by
      intro name f found
      by_cases changed : name = verifyBin.text ∧ c.after root s (link root verifyBin) ≠
          s (link root verifyBin)
      · obtain ⟨published, v, returned, resolves, -⟩ := own.resolve_left changed.2
        exact .inr ⟨changed.1, published, v, returned, resolves⟩
      · have same : name = verifyBin.text →
            c.after root s (link root verifyBin) = s (link root verifyBin) := fun mine =>
          not_not.mp fun moved => changed ⟨mine, moved⟩
        have read' := stands.kept careful.anchored same found
        refine .inl ⟨read', fun g again p mem => ?_⟩
        obtain rfl : f = g := Option.some.inj (read'.symm.trans again)
        obtain ⟨inside, alone⟩ := careful.anchored name f found p mem
        refine ⟨fun d sweepable sub => ?_, alone⟩
        obtain ⟨target, node, le⟩ := inside d sweepable sub
        refine ⟨target, ?_, le⟩
        by_cases mine : name = verifyBin.text
        · have own := same mine
          subst mine
          exact own.trans node
        · exact (stands.launchers name mine fun _ => by rw [node]; nofun).trans node
    refine ⟨fun name content served => ?_, fun v returned yes => ?_, fun e mem => ?_, ?_, ?_⟩
    · obtain ⟨f, found, rfl⟩ := Option.map_eq_some_iff.mp served
      rcases kept name f found with ⟨same, -⟩ | ⟨mine, -, v, returned, yes⟩
      · exact .inl (serves_of_read same)
      · exact .inr ⟨verifyBin, v, named, mine, returned, yes⟩
    · obtain ⟨-, -, ends⟩ := call_sound careful named
      rw [returned.2] at ends
      obtain ⟨published, place⟩ := ends.1 yes
      obtain ⟨-, -, -, f, found, below⟩ := published
      refine ⟨verifyBin, f, named, ?_, place ▸ below⟩
      unfold Call.after
      rw [returned.1]
      exact found
    · exact ((call_sound careful named).1 e mem).2.spares
    · intro verifyBin' plugin named' theirs other
      cases named.symm.trans named'
      rcases own with same | ⟨published, -⟩
      · exact same
      · exact absurd (published.1 plugin theirs) other
    · intro name served
      cases found : read s (root.launcher name) with
      | none =>
        refine absurd ?_ served
        unfold serves
        rw [found]
        rfl
      | some f =>
        rcases kept name f found with ⟨-, anchored⟩ | ⟨rfl, published, -⟩
        · exact anchored
        · exact published.2.1

/-- In every run of careful calls every launcher keeps serving what it serves, up to its own
plugin's next successful installation. -/
theorem launchers_survive {ls : List (Call C)}
    (runs : Runs (fun c s => c.after root s) (Careful root) s ls t) {earlier later : List (Call C)}
    (split : ls = earlier ++ c :: later) :
    ∃ u, Runs (fun c s => c.after root s) (Careful root) s earlier u ∧ Kept root c u := by
  subst split
  obtain ⟨u, first, rest⟩ := runs.split
  cases rest with
  | cons careful _ => exact ⟨u, first, call_kept careful⟩

end Calls

section Samples

def toolsRoot : Root := ⟨["config", "tools"], by decide⟩

def sampleRequest : Request :=
  { plugin := ⟨"foo", by decide⟩, verifyBin := some ⟨"tool", by decide⟩, hasCmd := true,
    version := ⟨false, [], "2.0"⟩, nonce := "0000000b", tmp := "0000000c" }

def plainInstall : Call ℕ :=
  { request := sampleRequest
    world := { staging := "x", copied := fun _ => none,
               built := fun p => if p = ["tool"] then some (.file 2) else none } }

theorem first_install_survives :
    ∃ u, Runs (fun (c : Call ℕ) s => c.after toolsRoot s) (Careful toolsRoot) (fun _ => none) [] u ∧
      Kept toolsRoot plainInstall u := by
  have nothing : ∀ name, read (fun _ => none : Files ℕ) (toolsRoot.launcher name) = none :=
    fun name => rfl
  have careful : Careful toolsRoot plainInstall (fun _ => none) := by
    refine ⟨fun name f found => ?_, rfl, fun _ => ⟨rfl, rfl⟩, fun _ some => absurd rfl some, ?_,
      ⟨rfl, rfl⟩, ?_, fun _ _ => rfl, nofun⟩
    · rw [nothing] at found
      cases found
    · rintro _ _ _ no
      cases no
    · rintro _ - rel - plain
      cases rel with
      | nil => nofun
      | cons name rest =>
        obtain ⟨⟨dot, up⟩, -⟩ := List.forall_mem_cons.mp plain
        change within (tree plainInstall) _ [] (name :: rest) ≠ .out
        rw [within, if_neg dot, if_neg up]
        by_cases tool : [name] = ["tool"]
        · have node : tree plainInstall ([] ++ [name]) = some (.file 2) := if_pos tool
          rw [node]
          dsimp only
          split <;> nofun
        · have node : tree plainInstall ([] ++ [name]) = none := if_neg tool
          rw [node]
          nofun
  exact launchers_survive (.cons careful (.nil _)) rfl

/-- `foo` 1.0 is installed and served. -/
def installed : Files ℕ := fun p =>
  if p ∈ [["config"], ["config", "tools"], ["config", "tools", "bin"], ["config", "tools", "tarball"],
      ["config", "tools", "tarball", "foo"], ["config", "tools", "tarball", "foo", "1.0.g-0000000a"]]
  then some .dir
  else if p = ["config", "tools", "tarball", "foo", "1.0.g-0000000a", "tool"] then some (.file 1)
  else if p = ["config", "tools", "bin", "tool"] then
    some (.link ⟨true, ["config", "tools", "tarball", "foo", "1.0.g-0000000a", "tool"]⟩)
  else none

def linkingInstall : Call ℕ :=
  { request := sampleRequest
    world := { staging := "x", copied := fun _ => none, names := ["tool"],
               gens := ["1.0.g-0000000a"]
               built := fun p =>
                 if p = ["real"] then some (.file 2)
                 else if p = ["tool"] then
                   some (.link ⟨true, ["config", "tools", "tarball", "foo", ".staging-x", "tree",
                     "real"]⟩)
                 else none } }

/-- The upgrade reports that its binary does not resolve, and the working launcher is gone. -/
theorem launcher_broken :
    serves toolsRoot installed "tool" = some 1 ∧
    (linkingInstall.outcome toolsRoot installed).1 = .ok ⟨true, false,
      ["config", "tools", "tarball", "foo", "2.0.g-0000000b"]⟩ ∧
    serves toolsRoot (linkingInstall.after toolsRoot installed) "tool" = none := by
  decide +kernel

end Samples

end Casa.ToolSafety
