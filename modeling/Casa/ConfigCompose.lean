import Casa.ConfigMerge
import Casa.YamlDocument

/-! The entry-level reconciliation of one file, `_merge_file`: what it proposes to write for three
texts and a validator, and what it reports as taken from the operator. -/

namespace Casa.ConfigCompose
open KeyedTable PythonDict YamlDocument ConfigMerge

section Merge
variable {S W : Type} [DecidableEq S] [BEq W]

abbrev Top (S W : Type) := Dict (Key S) (Field S W)

abbrev Doc (S W : Type) := EntryDoc (Top S W) (Entry S W)

/-- What the merge of one file is given: the YAML library with its walk over what was loaded, the
test of a text for a placeholder that stands alone, the validator, and the two keys. -/
structure Setting (S W : Type) where
  yaml : Yaml S W
  walkable : Loaded S W → Bool
  lonePlaceholder : String → Bool
  validateText : String → Option String
  listKey : String
  identityKey : String

variable (env : Setting S W)

/-- `_parse`; `none` is `_UNPARSEABLE`. -/
def parse (text : String) : Option (Loaded S W) :=
  (env.yaml.load text).filter env.walkable

def sameDocument (a b : String) : Bool :=
  match parse env a, parse env b with
  | some a, some b => a == b
  | _, _ => false

def addItem (entries : Dict String (Entry S W)) : Item S W → Option (Dict String (Entry S W))
  | .other _ => none
  | .dict item =>
      match item.lookup (.str env.identityKey) with
      | some (.str identity) =>
          if identity = "" then none
          else if (entries.lookup identity).isSome then none
          else some (entries.set identity item)
      | _ => none

/-- The part of `_entry_doc` behind the parser. -/
def splitDocument (doc : Document S W) : Option (Doc S W) :=
  match doc.lookup (.str env.listKey) with
  | some (.list raw) => (raw.foldlM (addItem env) Table.empty).map fun entries =>
      ⟨doc.without (.str env.listKey), entries⟩
  | _ => none

def entryDoc (text : String) : Option (Doc S W) :=
  if env.lonePlaceholder text then none
  else match parse env text with
    | some (.mapping doc) => splitDocument env doc
    | _ => none

/-- The document that `_dump` writes. -/
def compose (top : Top S W) (entries : Dict String (Entry S W)) : Document S W :=
  top.set (.str env.listKey) (.list (entries.rows.map fun row => .dict row.2))

def dump (top : Top S W) (entries : Dict String (Entry S W)) : Option String :=
  env.yaml.dump (compose env top entries)

structure MergeResult where
  outcome : MergeOutcome
  dropped : List String
  priorText : String
  text : Option String
  copyDefault : Bool
  topLevelChanged : Bool

def MergeResult.overrodeLocal (r : MergeResult) : Bool :=
  r.outcome.destroysLocal || !r.dropped.isEmpty || r.topLevelChanged

/-- What was composed: a top level, the entries under it, the text, and what was left out. -/
structure Composed (S W : Type) where
  top : Top S W
  kept : Dict String (Entry S W)
  text : String
  dropped : List String

def composeWhole (merged : Dict String (Entry S W)) : List (Top S W) →
    Option (Option (Composed S W))
  | [] => some none
  | top :: rest => do
      let candidate ← dump env top merged
      if env.validateText candidate = none then some (some ⟨top, merged, candidate, []⟩)
      else composeWhole merged rest

/-- The pass over the entries one by one; `some none` is the refusal to drop a shipped one. -/
def salvage (top : Top S W) (shipped : String → Bool) (kept : Dict String (Entry S W))
    (dropped : List String) : List (String × Entry S W) →
      Option (Option (Dict String (Entry S W) × List String))
  | [] => some (some (kept, dropped))
  | row :: rest => do
      let alone ← dump env top (Dict.set Table.empty row.1 row.2)
      if env.validateText alone = none then
        salvage top shipped (kept.set row.1 row.2) dropped rest
      else if shipped row.1 then some none
      else salvage top shipped kept (dropped ++ [row.1]) rest

def composeSalvaged (top : Top S W) (shipped : String → Bool) (merged : Dict String (Entry S W)) :
    Option (Option (Composed S W)) := do
  match ← salvage env top shipped Table.empty [] merged.rows with
  | none => some none
  | some (kept, dropped) =>
      if dropped = [] then some none
      else
        let candidate ← dump env top kept
        if env.validateText candidate = none then some (some ⟨top, kept, candidate, dropped⟩)
        else some none

def candidates (new live : Doc S W) : List (Top S W) :=
  live.topLevel :: if new.topLevel == live.topLevel then [] else [new.topLevel]

def composed (new live : Doc S W) (merged : Dict String (Entry S W)) :
    Option (Option (Composed S W)) := do
  match ← composeWhole env merged (candidates new live) with
  | some whole => some (some whole)
  | none =>
      composeSalvaged env live.topLevel (fun name => (new.entries.lookup name).isSome) merged

def report (outcome : MergeOutcome) (live : Doc S W) (liveText newText : String)
    (c : Composed S W) : MergeResult :=
  let result := ⟨outcome, c.dropped, liveText, none, false, !(c.top == live.topLevel)⟩
  if sameDocument env c.text liveText then result
  else { result with text := some c.text, copyDefault := sameDocument env c.text newText }

/-- `_merge_file` on the three texts it read. The outer `none` is an exception of the emitter, the
inner one stands for `None`: the file is left to the byte-level branch. -/
def mergeFile (newText baseText liveText : String) : Option (Option MergeResult) :=
  match entryDoc env liveText, entryDoc env newText, entryDoc env baseText with
  | some live, some new, some base =>
      let merge := mergeEntries new base live
      (composed env new live merge.1).map <| Option.map <|
        report env merge.2 live liveText newText
  | _, _, _ => some none

/-! ### A document and its parts -/

def Named (rows : List (String × Entry S W)) : Prop :=
  ∀ row ∈ rows, row.1 ≠ "" ∧ row.2.lookup (.str env.identityKey) = some (.str row.1)

def itemsOf (rows : List (String × Entry S W)) : List (Item S W) :=
  rows.map fun row => .dict row.2

variable {env}

omit [BEq W] in
theorem addItem_eq_some {entries result : Dict String (Entry S W)} {item : Item S W}
    (added : addItem env entries item = some result) : ∃ name entry, item = .dict entry ∧
      name ≠ "" ∧ entry.lookup (.str env.identityKey) = some (.str name) ∧
      entries.lookup name = none ∧ result = entries.set name entry := by
  unfold addItem at added
  split at added
  · cases added
  · next entry =>
    split at added
    · next name found =>
      simp only [Option.ite_none_left_eq_some, Option.some.injEq, Bool.not_eq_true,
        Option.isSome_eq_false_iff, Option.isNone_iff_eq_none] at added
      exact ⟨name, entry, rfl, added.1, found, added.2.1, added.2.2.symm⟩
    · cases added

omit [BEq W] in
theorem rows_of_collect {raw : List (Item S W)} {acc entries : Dict String (Entry S W)}
    (collected : raw.foldlM (addItem env) acc = some entries) :
    ∃ rows, entries.rows = acc.rows ++ rows ∧ raw = itemsOf rows ∧ Named env rows := by
  induction raw generalizing acc with
  | nil =>
    obtain rfl := Option.some.inj collected
    exact ⟨[], by simp, rfl, by simp [Named]⟩
  | cons item rest ih =>
    rw [List.foldlM_cons] at collected
    obtain ⟨next, added, collected⟩ := Option.bind_eq_some_iff.mp collected
    obtain ⟨name, entry, rfl, nonempty, found, fresh, rfl⟩ := addItem_eq_some added
    obtain ⟨rows, all, rfl, named⟩ := ih collected
    refine ⟨(name, entry) :: rows, ?_, rfl, ?_⟩
    · rw [all, Dict.rows_set_of_none fresh, List.append_assoc, List.singleton_append]
    · exact List.forall_mem_cons.mpr ⟨⟨nonempty, found⟩, named⟩

omit [BEq W] in
theorem collect_rows {rows : List (String × Entry S W)} {acc entries : Dict String (Entry S W)}
    (named : Named env rows) (all : entries.rows = acc.rows ++ rows) :
    (itemsOf rows).foldlM (addItem env) acc = some entries := by
  induction rows generalizing acc with
  | nil => exact congrArg some (Table.ext (by simpa using all.symm))
  | cons row rest ih =>
    obtain ⟨⟨nonempty, found⟩, named⟩ := List.forall_mem_cons.mp named
    have fresh : acc.lookup row.1 = none := by
      have nodup := entries.nodup
      rw [all, List.map_append, List.map_cons, List.nodup_append] at nodup
      rw [Dict.lookup_eq_none_iff]
      exact fun mem => nodup.2.2 _ mem _ List.mem_cons_self rfl
    have here : addItem env acc (.dict row.2) = some (acc.set row.1 row.2) := by
      simp [addItem, found, nonempty, fresh]
    rw [itemsOf, List.map_cons, List.foldlM_cons, here]
    refine ih named ?_
    rw [all, Dict.rows_set_of_none fresh, List.append_assoc, List.singleton_append]

omit [BEq W] in
theorem splitDocument_eq_some {doc : Document S W} {d : Doc S W}
    (split : splitDocument env doc = some d) : Named env d.entries.rows ∧
      d.topLevel.lookup (.str env.listKey) = none ∧
      ∀ key, doc.lookup key = (compose env d.topLevel d.entries).lookup key := by
  unfold splitDocument at split
  split at split
  · next raw found =>
    obtain ⟨entries, collected, rfl⟩ := Option.map_eq_some_iff.mp split
    obtain ⟨rows, all, rfl, named⟩ := rows_of_collect collected
    have same : entries.rows = rows := by simpa [Table.empty] using all
    refine ⟨same ▸ named, by simp [Dict.lookup_without], fun key => ?_⟩
    rw [compose, Dict.lookup_set, Dict.lookup_without]
    split
    · next is => rw [← is, found, same, itemsOf]
    · rfl
  · cases split

omit [BEq W] in
theorem splitDocument_compose {top : Top S W} {entries : Dict String (Entry S W)}
    (apart : top.lookup (.str env.listKey) = none) (named : Named env entries.rows) :
    splitDocument env (compose env top entries) = some ⟨top, entries⟩ := by
  have list : (compose env top entries).lookup (.str env.listKey) =
      some (.list (itemsOf entries.rows)) := by simp [compose, Dict.lookup_set, itemsOf]
  have rest : (compose env top entries).without (.str env.listKey) = top :=
    Table.remove_put (by simpa [Dict.lookup] using apart)
  have collected : (itemsOf entries.rows).foldlM (addItem env) Table.empty = some entries :=
    collect_rows named rfl
  rw [splitDocument, list]
  simp only [collected, rest, Option.map_some]

/-! ### What is composed -/

variable {new live : Doc S W} {merged : Dict String (Entry S W)} {top : Top S W}

def FailsAlone (env : Setting S W) (top : Top S W) (name : String) (entry : Entry S W) : Prop :=
  ∃ text, dump env top (Dict.set Table.empty name entry) = some text ∧ env.validateText text ≠ none

/-- What a composition owes its candidates: a text that validates, and the merged entries less those
that were left out, each of which fails alone and is none of the image's. -/
structure Composed.Sound (env : Setting S W) (new live : Doc S W)
    (merged : Dict String (Entry S W)) (c : Composed S W) : Prop where
  written : dump env c.top c.kept = some c.text
  valid : env.validateText c.text = none
  top : c.top = live.topLevel ∨ c.top = new.topLevel ∧ ¬new.topLevel == live.topLevel
  kept : c.kept.rows = merged.rows.filter fun row => row.1 ∉ c.dropped
  dropped : ∀ name ∈ c.dropped, new.entries.lookup name = none ∧ ∃ entry,
    merged.lookup name = some entry ∧ FailsAlone env live.topLevel name entry

omit [BEq W] in
theorem composeWhole_spec {tops : List (Top S W)} {c : Composed S W}
    (found : composeWhole env merged tops = some (some c)) : c.top ∈ tops ∧ c.kept = merged ∧
      c.dropped = [] ∧ dump env c.top c.kept = some c.text ∧ env.validateText c.text = none := by
  induction tops with
  | nil => simp [composeWhole] at found
  | cons top rest ih =>
    obtain ⟨candidate, written, found⟩ := Option.bind_eq_some_iff.mp found
    split at found
    · next valid =>
      obtain rfl := Option.some.inj (Option.some.inj found)
      exact ⟨List.mem_cons_self, rfl, rfl, written, valid⟩
    · obtain ⟨mem, others⟩ := ih found
      exact ⟨List.mem_cons_of_mem _ mem, others⟩

omit [BEq W] in
theorem salvage_spec {shipped : String → Bool} {rows : List (String × Entry S W)}
    {kept : Dict String (Entry S W)} {dropped : List String}
    {result : Dict String (Entry S W) × List String}
    (fresh : ((kept.rows ++ rows).map Prod.fst).Nodup)
    (done : salvage env top shipped kept dropped rows = some (some result)) :
    ∃ drops, result.2 = dropped ++ drops ∧
      result.1.rows = kept.rows ++ rows.filter (fun row => row.1 ∉ drops) ∧
      ∀ name ∈ drops, shipped name = false ∧
        ∃ entry, (name, entry) ∈ rows ∧ FailsAlone env top name entry := by
  induction rows generalizing kept dropped with
  | nil =>
    obtain rfl := Option.some.inj (Option.some.inj done)
    exact ⟨[], by simp⟩
  | cons row rest ih =>
    have apart := fresh
    rw [List.map_append, List.map_cons, List.nodup_append, List.nodup_cons] at apart
    obtain ⟨-, ⟨notLater, -⟩, notBefore⟩ := apart
    obtain ⟨alone, written, done⟩ := Option.bind_eq_some_iff.mp done
    split at done
    · have absent : kept.lookup row.1 = none :=
        Dict.lookup_eq_none_iff.mpr fun mem => notBefore _ mem _ List.mem_cons_self rfl
      have grown := Dict.rows_set_of_none absent row.2
      obtain ⟨drops, drops_, rows_, each⟩ := ih (by simpa [grown] using fresh) done
      have stays : row.1 ∉ drops := by
        intro mem
        obtain ⟨-, entry, mem, -⟩ := each _ mem
        exact notLater (List.mem_map.mpr ⟨_, mem, rfl⟩)
      refine ⟨drops, drops_, ?_, fun name mem => ?_⟩
      · rw [rows_, grown, List.filter_cons_of_pos (by simpa using stays), List.append_assoc,
          List.singleton_append]
      · obtain ⟨notShipped, entry, mem, fails⟩ := each name mem
        exact ⟨notShipped, entry, List.mem_cons_of_mem _ mem, fails⟩
    · next invalid =>
      split at done
      · cases done
      · next notShipped =>
        have fewer : ((kept.rows ++ rest).map Prod.fst).Nodup :=
          fresh.sublist (((List.sublist_cons_self row rest).append_left _).map _)
        obtain ⟨drops, drops_, rows_, each⟩ := ih fewer done
        refine ⟨row.1 :: drops, by simp [drops_], ?_, List.forall_mem_cons.mpr ⟨?_, ?_⟩⟩
        · have others : ∀ other ∈ rest, (other.1 ∉ row.1 :: drops) = (other.1 ∉ drops) := by
            intro other mem
            have ne : other.1 ≠ row.1 := fun same =>
              notLater (List.mem_map.mpr ⟨other, mem, same⟩)
            simp [ne]
          rw [rows_, List.filter_cons_of_neg (by simp)]
          congr 1
          exact List.filter_congr fun other mem => by simp only [others other mem]
        · exact ⟨by simpa using notShipped, row.2, List.mem_cons_self, alone, written, invalid⟩
        · intro name mem
          obtain ⟨notShipped, entry, mem, fails⟩ := each name mem
          exact ⟨notShipped, entry, List.mem_cons_of_mem _ mem, fails⟩

theorem composed_sound {c : Composed S W} (found : composed env new live merged = some (some c)) :
    c.Sound env new live merged := by
  obtain ⟨whole, tried, found⟩ := Option.bind_eq_some_iff.mp found
  cases whole with
  | some whole =>
    obtain rfl := Option.some.inj (Option.some.inj found)
    obtain ⟨mem, same, none_, written, valid⟩ := composeWhole_spec tried
    refine ⟨written, valid, ?_, by simp [same, none_], by simp [none_]⟩
    rcases List.mem_cons.mp mem with first | second
    · exact .inl first
    · split at second
      · cases second
      · next differs => exact .inr ⟨List.mem_singleton.mp second, differs⟩
  | none =>
    obtain ⟨pass, done, found⟩ := Option.bind_eq_some_iff.mp found
    cases pass with
    | none => cases found
    | some pass =>
      obtain ⟨kept, dropped⟩ := pass
      dsimp only at found
      split at found
      · cases found
      · obtain ⟨candidate, written, found⟩ := Option.bind_eq_some_iff.mp found
        split at found
        · next valid =>
          obtain rfl := Option.some.inj (Option.some.inj found)
          obtain ⟨drops, drops_, rows_, each⟩ :=
            salvage_spec (by simpa [Table.empty] using merged.nodup) done
          obtain rfl : dropped = drops := by simpa using drops_
          refine ⟨written, valid, .inl rfl, by simpa [Table.empty] using rows_, fun name mem => ?_⟩
          obtain ⟨notShipped, entry, mem, fails⟩ := each name mem
          exact ⟨by simpa using notShipped, entry, Dict.lookup_eq_some_iff.mpr mem, fails⟩
        · cases found

/-! ### The result -/

variable [EquivBEq W] {base : Doc S W} {r : MergeResult}

/-- Where a local change to a field or to an entry is not in what was composed, the result says
that something was taken from the operator. -/
structure Reported (new base live : Doc S W) (top : Top S W) (kept : Dict String (Entry S W))
    (r : MergeResult) : Prop where
  entries : ∀ name entry, live.entries.lookup name = some entry →
    ¬some entry == base.entries.lookup name → kept.lookup name ≠ some entry →
      r.overrodeLocal = true
  fields : ∀ key, (live.topLevel.lookup key).isSome →
    ¬live.topLevel.lookup key == base.topLevel.lookup key →
      ¬top.lookup key == live.topLevel.lookup key → r.overrodeLocal = true

/-- What the merge of one file proposes, and what justifies it. -/
structure Justified (env : Setting S W) (new base live : Doc S W) (top : Top S W)
    (kept : Dict String (Entry S W)) (r : MergeResult) : Prop where
  written : ∀ text, r.text = some text → env.validateText text = none ∧
    env.yaml.load text = some (.mapping (compose env top kept)) ∧
    splitDocument env (compose env top kept) = some ⟨top, kept⟩
  topLevel : top = live.topLevel ∨ top = new.topLevel
  entries : kept.rows = (mergeEntries new base live).1.rows.filter fun row => row.1 ∉ r.dropped
  shipped : ∀ name entry, (new.entries.lookup name).isSome →
    (mergeEntries new base live).1.lookup name = some entry → kept.lookup name = some entry
  dropped : ∀ name ∈ r.dropped, new.entries.lookup name = none ∧ ∃ entry,
    (mergeEntries new base live).1.lookup name = some entry ∧
      FailsAlone env live.topLevel name entry
  reported : Reported new base live top kept r

omit [DecidableEq S] [BEq W] [EquivBEq W] in
theorem lookup_of_filter {kept merged : Dict String (Entry S W)} {dropped : List String}
    (rows : kept.rows = merged.rows.filter fun row => row.1 ∉ dropped) (name : String) :
    kept.lookup name = if name ∈ dropped then none else merged.lookup name := by
  apply Option.ext
  intro entry
  rw [Dict.lookup_eq_some_iff, rows, List.mem_filter, decide_eq_true_eq]
  split
  · simp_all
  · simp_all [Dict.lookup_eq_some_iff]

omit [EquivBEq W] in
theorem named_merged (newNamed : Named env new.entries.rows)
    (liveNamed : Named env live.entries.rows) : Named env (mergeEntries new base live).1.rows := by
  intro row mem
  rcases lookup_of_merged (Dict.lookup_row mem) with shipped | here
  · exact newNamed _ (Dict.lookup_eq_some_iff.mp shipped)
  · exact liveNamed _ (Dict.lookup_eq_some_iff.mp here)

omit [BEq W] [EquivBEq W] in
theorem entryDoc_eq_some {text : String} {d : Doc S W} (accepted : entryDoc env text = some d) :
    ∃ doc, parse env text = some (.mapping doc) ∧ Named env d.entries.rows ∧
      d.topLevel.lookup (.str env.listKey) = none ∧
      ∀ key, doc.lookup key = (compose env d.topLevel d.entries).lookup key := by
  unfold entryDoc at accepted
  split at accepted
  · cases accepted
  · split at accepted
    · next doc parsed => exact ⟨doc, parsed, splitDocument_eq_some accepted⟩
    · cases accepted

theorem reported_of_sound {c : Composed S W} {outcome : MergeOutcome} {liveText newText : String}
    (sound : c.Sound env new live (mergeEntries new base live).1)
    (is : outcome = (mergeEntries new base live).2) :
    Reported new base live c.top c.kept (report env outcome live liveText newText c) := by
  have flags : (report env outcome live liveText newText c).overrodeLocal =
      (outcome.destroysLocal || !c.dropped.isEmpty || !(c.top == live.topLevel)) := by
    unfold report MergeResult.overrodeLocal
    split <;> rfl
  constructor
  · intro name entry here changed lost
    rw [flags, is]
    by_cases left : name ∈ c.dropped
    · have some_ : c.dropped.isEmpty = false := by
        rw [List.isEmpty_eq_false_iff_exists_mem]
        exact ⟨name, left⟩
      simp [some_]
    · rw [lookup_of_filter sound.kept, if_neg left, ← here] at lost
      rw [← here] at changed
      simp [((merge_lossless new base live).overridden name changed lost).2.2]
  · intro key _ _ lost
    have apart : (c.top == live.topLevel) = false := by
      rw [Bool.eq_false_iff]
      exact fun same => lost (Dict.beq_iff.mp same key)
    rw [flags, apart]
    simp

theorem merge_justified {newText baseText liveText : String}
    (done : mergeFile env newText baseText liveText = some (some r)) :
    ∃ new base live top kept, entryDoc env newText = some new ∧ entryDoc env baseText = some base ∧
      entryDoc env liveText = some live ∧ Justified env new base live top kept r := by
  unfold mergeFile at done
  split at done
  · next live new base liveIs newIs baseIs =>
    simp only [Option.map_eq_some_iff] at done
    obtain ⟨_, found, c, rfl, rfl⟩ := done
    have sound := composed_sound found
    obtain ⟨_, -, newNamed, newApart, -⟩ := entryDoc_eq_some newIs
    obtain ⟨_, -, liveNamed, liveApart, -⟩ := entryDoc_eq_some liveIs
    have dropped : (report env (mergeEntries new base live).2 live liveText newText c).dropped =
        c.dropped := by
      unfold report
      split <;> rfl
    have lookup := lookup_of_filter sound.kept
    refine ⟨new, base, live, c.top, c.kept, newIs, baseIs, liveIs, ?_⟩
    refine ⟨fun text is => ?_, sound.top.imp_right And.left, ?_, ?_, ?_,
      reported_of_sound sound rfl⟩
    · have same : text = c.text := by
        unfold report at is
        split at is
        · cases is
        · exact (Option.some.inj is).symm
      have apart : c.top.lookup (.str env.listKey) = none := by
        rcases sound.top with is | ⟨is, -⟩
        · rw [is, liveApart]
        · rw [is, newApart]
      have named : Named env c.kept.rows := by
        rw [sound.kept]
        exact fun row mem => named_merged newNamed liveNamed row (List.mem_of_mem_filter mem)
      rw [same]
      exact ⟨sound.valid, env.yaml.load_dump _ _ sound.written, splitDocument_compose apart named⟩
    · rw [dropped, sound.kept]
    · intro name entry shipped chosen
      have stays : name ∉ c.dropped := by
        intro mem
        rw [(sound.dropped name mem).1] at shipped
        cases shipped
      rw [lookup, if_neg stays, chosen]
    · rw [dropped]
      exact sound.dropped
  · cases done

def Restored (env : Setting S W) (newText baseText liveText : String) : Prop :=
  ∃ r default_, mergeFile env newText baseText liveText = some (some r) ∧
    parse env newText = some (.mapping default_) ∧
    (∀ text, r.text = some text → ∃ doc, env.yaml.load text = some (.mapping doc) ∧
      doc == default_) ∧
    (r.text = none → ∃ doc, parse env liveText = some (.mapping doc) ∧ doc == default_)

theorem compose_default {doc : Document S W} (same : live.topLevel == new.topLevel)
    (is : ∀ key, doc.lookup key = (compose env new.topLevel new.entries).lookup key) :
    compose env live.topLevel new.entries == doc := by
  rw [Dict.beq_iff]
  intro key
  rw [is, compose, compose, Dict.lookup_set, Dict.lookup_set]
  split
  · simp
  · exact Dict.beq_iff.mp same key

/-- With nothing local but what the previous image had, it is the validator's word on the image's
own entries that decides. -/
theorem restored_iff {newText baseText liveText candidate : String}
    (newIs : entryDoc env newText = some new) (baseIs : entryDoc env baseText = some base)
    (liveIs : entryDoc env liveText = some live) (untouched : live.entries == base.entries)
    (sameTop : live.topLevel == new.topLevel)
    (written : dump env live.topLevel new.entries = some candidate) :
    Restored env newText baseText liveText ↔ env.validateText candidate = none := by
  have merged : (mergeEntries new base live).1 = new.entries := merge_untouched untouched
  have one : candidates new live = [live.topLevel] := by
    simp [candidates, BEq.symm sameTop]
  obtain ⟨doc, parsed, -, -, doc_⟩ := entryDoc_eq_some newIs
  constructor
  · rintro ⟨r, -, done, -⟩
    rw [mergeFile, newIs, baseIs, liveIs] at done
    simp only [Option.map_eq_some_iff] at done
    obtain ⟨_, found, c, rfl, rfl⟩ := done
    have sound := composed_sound found
    have none_ : c.dropped = [] := by
      rw [List.eq_nil_iff_forall_not_mem]
      intro name mem
      obtain ⟨notShipped, entry, chosen, -⟩ := sound.dropped name mem
      rw [merged, notShipped] at chosen
      cases chosen
    have kept : c.kept = new.entries := Table.ext (by simp [sound.kept, none_, merged])
    have top : c.top = live.topLevel :=
      sound.top.resolve_right fun h => h.2 (BEq.symm sameTop)
    have text := sound.written
    rw [kept, top, written] at text
    rw [Option.some.inj text]
    exact sound.valid
  · intro valid
    have whole : composed env new live new.entries =
        some (some ⟨live.topLevel, new.entries, candidate, []⟩) := by
      simp [composed, one, composeWhole, written, valid]
    refine ⟨report env (mergeEntries new base live).2 live liveText newText
      ⟨live.topLevel, new.entries, candidate, []⟩, doc, ?_, parsed, ?_, ?_⟩
    · simp [mergeFile, newIs, baseIs, liveIs, merged, whole]
    · intro text is
      have same : text = candidate := by
        unfold report at is
        split at is
        · cases is
        · exact (Option.some.inj is).symm
      rw [same]
      exact ⟨_, env.yaml.load_dump _ _ written, compose_default sameTop doc_⟩
    · intro nothing
      have alike : sameDocument env candidate liveText = true := by
        by_contra differs
        simp [report, differs] at nothing
      unfold sameDocument at alike
      split at alike
      · next a b ofText ofLive =>
        obtain ⟨liveDoc, liveParsed, -⟩ := entryDoc_eq_some liveIs
        rw [liveParsed] at ofLive
        rw [parse, env.yaml.load_dump _ _ written, Option.filter_eq_some_iff] at ofText
        obtain ⟨rfl, rfl⟩ := And.intro (Option.some.inj ofText.1) (Option.some.inj ofLive)
        have same : compose env live.topLevel new.entries == liveDoc := alike
        exact ⟨liveDoc, liveParsed, BEq.trans (BEq.symm same) (compose_default sameTop doc_)⟩
      · cases alike

/-- Everything the merge of one file proposes is justified; and where nothing local differs from
the previous image it gives the image's document, or it refuses, as the validator takes that
document in the merge's own writing or not. -/
theorem merge_file_justified (env : Setting S W) (newText baseText liveText : String) :
    (∀ r, mergeFile env newText baseText liveText = some (some r) →
      ∃ new base live top kept, entryDoc env newText = some new ∧
        entryDoc env baseText = some base ∧ entryDoc env liveText = some live ∧
        Justified env new base live top kept r) ∧
    ∀ new base live candidate, entryDoc env newText = some new →
      entryDoc env baseText = some base → entryDoc env liveText = some live →
      live.entries == base.entries → live.topLevel == new.topLevel →
      dump env live.topLevel new.entries = some candidate →
        (Restored env newText baseText liveText ↔ env.validateText candidate = none) := by
  constructor
  · exact fun r => merge_justified
  · intro new base live candidate newIs baseIs liveIs untouched sameTop written
    exact restored_iff newIs baseIs liveIs untouched sameTop written

end Merge

section Triggers

def trigger (name : String) : Entry Empty ℕ := ⟨[(.str "name", .str name)], List.nodup_singleton _⟩

def triggers (names : List String) : Document Empty ℕ :=
  ⟨[(.str "triggers", .list (names.map fun name => .dict (trigger name)))], List.nodup_singleton _⟩

def triggersText (names : List String) : String :=
  names.foldl (fun text name => text ++ "- name: " ++ name ++ "\n") "triggers:\n"

def written : List (List String) := [["a"], ["b"], ["c"], ["a", "b"], ["a", "c"], ["a", "c", "b"]]

def loadTriggers (text : String) : Option (Loaded Empty ℕ) :=
  (written.find? fun names => triggersText names = text ∨
    "# shipped\n" ++ triggersText names = text).map fun names => .mapping (triggers names)

def triggerSetting (validateText : String → Option String) : Setting Empty ℕ where
  yaml := {
    load := loadTriggers
    dump := fun doc => (written.find? fun names => triggers names = doc).map triggersText
    load_dump := by
      intro doc text dumped
      obtain ⟨names, found, rfl⟩ := Option.map_eq_some_iff.mp dumped
      have is := List.find?_some found
      have each : ∀ names ∈ written, loadTriggers (triggersText names) =
          some (.mapping (triggers names)) := by decide +kernel
      rw [each names (List.mem_of_find?_eq_some found), of_decide_eq_true is] }
  walkable := fun _ => true
  lonePlaceholder := fun _ => false
  validateText
  listKey := "triggers"
  identityKey := "name"

/-- The image's new entry and the local one are both in the result; without the local one the
result is the image's document. -/
theorem both_kept :
    (∃ r, mergeFile (triggerSetting fun _ => none) (triggersText ["a", "c"]) (triggersText ["a"])
      (triggersText ["a", "b"]) = some (some r) ∧ r.text = some (triggersText ["a", "c", "b"]) ∧
      ∃ new base live top kept,
        Justified (triggerSetting fun _ => none) new base live top kept r) ∧
    Restored (triggerSetting fun _ => none) (triggersText ["a", "c"]) (triggersText ["a"])
      (triggersText ["a"]) := by
  constructor
  · have done : ∃ r, mergeFile (triggerSetting fun _ => none) (triggersText ["a", "c"])
        (triggersText ["a"]) (triggersText ["a", "b"]) = some (some r) ∧
          r.text = some (triggersText ["a", "c", "b"]) := ⟨_, rfl, by decide +kernel⟩
    obtain ⟨r, done, text⟩ := done
    obtain ⟨new, base, live, top, kept, -, -, -, justified⟩ :=
      (merge_file_justified _ _ _ _).1 r done
    exact ⟨r, done, text, new, base, live, top, kept, justified⟩
  · exact ((merge_file_justified _ _ _ _).2 _ _ _ _ rfl rfl rfl (by decide +kernel)
      (by decide +kernel) rfl).mpr rfl

/-- A validator of texts may want more of the default than the merge writes, its comment here:
the default validates, nothing local differs from it, and yet the merge has no result. -/
theorem comment_not_written : ¬∀ (env : Setting Empty ℕ) (newText baseText liveText : String)
    (new base live : Doc Empty ℕ), entryDoc env newText = some new →
      entryDoc env baseText = some base → entryDoc env liveText = some live →
      live.entries == base.entries → live.topLevel == new.topLevel →
      env.validateText newText = none → Restored env newText baseText liveText := by
  intro claimed
  let commented := "# shipped\n" ++ triggersText ["a"]
  let env := triggerSetting fun text => if text = commented then none else some "no comment"
  have accepted : env.validateText commented = none := by simp [env, triggerSetting]
  have refused : mergeFile env commented commented commented = some none := rfl
  obtain ⟨r, -, done, -⟩ := claimed env commented commented commented _ _ _ rfl rfl rfl
    (BEq.refl _) (BEq.refl _) accepted
  rw [refused] at done
  cases done

end Triggers

end Casa.ConfigCompose
