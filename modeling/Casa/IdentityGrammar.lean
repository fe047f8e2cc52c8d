import Casa.AttemptSchema
import Mathlib.Data.List.Infix

/-! The identity fields of the two ledgers as path components: what their grammars let through,
and the file name `<event>--<subscriber>.json` that two of them make. -/

namespace Casa.IdentityGrammar
open PythonValue RoundedClock AttemptSchema

/-- `str.find("--")`, and what stands on either side. -/
def splitDashes : List Char → Option (List Char × List Char)
  | '-' :: '-' :: rest => some ([], rest)
  | c :: rest => (splitDashes rest).map fun p => (c :: p.1, p.2)
  | [] => none

def splitEffective (stem : String) : Option (String × String) :=
  (splitDashes stem.toList).bind fun p =>
    if p.1 = [] then none else some (String.ofList p.1, String.ofList p.2)

def fileName (event subscriber : String) : String := event ++ "--" ++ subscriber ++ ".json"

/-- `name[:-5]`. -/
def stem (name : String) : String := String.ofList (name.toList.take (name.toList.length - 5))

section Split

theorem splitDashes_append {event rest : List Char} (single : ¬['-', '-'] <:+: event)
    (open_ : event.getLast? ≠ some '-') :
    splitDashes (event ++ '-' :: '-' :: rest) = some (event, rest) := by
  induction event with
  | nil => rfl
  | cons c event ih =>
    have inner : ¬['-', '-'] <:+: event :=
      fun h => single (h.trans (List.suffix_cons c event).isInfix)
    have last : event.getLast? ≠ some '-' := by
      cases event with
      | nil => simp
      | cons d ds => simpa [List.getLast?_cons] using open_
    have here : ¬(c = '-' ∧ (event ++ '-' :: '-' :: rest).head? = some '-') := by
      rintro ⟨rfl, next⟩
      cases event with
      | nil => simp at open_
      | cons d ds =>
        obtain rfl : d = '-' := by simpa using next
        exact single (List.IsPrefix.isInfix ⟨ds, rfl⟩)
    rw [List.cons_append, splitDashes]
    · rw [ih inner last]
      rfl
    · rintro more rfl same
      rw [same] at here
      simp at here

theorem stem_fileName (event subscriber : String) :
    stem (fileName event subscriber) = event ++ "--" ++ subscriber := by
  have suffix_ : (".json" : String).toList.length = 5 := by decide
  unfold stem fileName
  rw [String.toList_append, List.length_append, suffix_, Nat.add_sub_cancel, List.take_left,
    String.ofList_toList]

end Split

section Grammar

def PluginRef (s : String) : Prop := slugForm s.toList = true ∨ ∃ slug name,
  s.toList = slug ++ '.' :: name ∧ slugForm slug = true ∧ slug.length ≤ 32 ∧
    slugForm name = true ∧ name.length ≤ 40

structure EventName (s : String) : Prop where
  nonempty : s.toList ≠ []
  word : ∀ c ∈ s.toList, c.isAlphanum = true ∨ c = '_' ∨ c = '-'
  single : ¬['-', '-'] <:+: s.toList
  noLead : s.toList.head? ≠ some '-'
  noTrail : s.toList.getLast? ≠ some '-'
  unreserved : ¬"plg-".toList <+: s.toList

def StateHash (s : String) : Prop :=
  s.toList.length = 64 ∧ ∀ c ∈ s.toList, c.isDigit = true ∨ 'a' ≤ c ∧ c ≤ 'f'

def EndsLine (s : String) : Prop := s.toList.getLast? = some '\n'

instance (s : String) : Decidable (EndsLine s) :=
  inferInstanceAs (Decidable (s.toList.getLast? = some '\n'))

/-- The `$` of an expression is exact on a text that does not end with a newline, and only
there as long as no text of the form has one. -/
theorem matchesLine_iff {form : List Char → Bool} {s : String} (ok : matchesLine form s = true)
    (plain : ∀ cs, form cs = true → '\n' ∉ cs) : form s.toList = true ↔ ¬EndsLine s := by
  unfold matchesLine at ok
  constructor
  · intro exact_ ends
    exact plain _ exact_ (List.mem_of_getLast? ends)
  · intro ends
    rcases Bool.or_eq_true_iff.mp ok with exact_ | line
    · exact exact_
    · simp only [Bool.and_eq_true, decide_eq_true_eq] at line
      exact absurd line.1 ends

theorem plain_slug {cs : List Char} (ok : slugForm cs = true) : '\n' ∉ cs := by
  cases cs with
  | nil => simp
  | cons c cs =>
    simp only [slugForm, Bool.and_eq_true, List.all_eq_true] at ok
    intro mem
    rcases List.mem_cons.mp mem with rfl | mem
    · exact absurd ok.1 (by decide)
    · exact absurd (ok.2 _ mem) (by decide)

theorem plain_event {cs : List Char} (ok : eventForm cs = true) : '\n' ∉ cs := by
  simp only [eventForm, Bool.and_eq_true, List.all_eq_true] at ok
  intro mem
  exact absurd (ok.2 _ mem) (by decide)

theorem plain_hash {cs : List Char} (ok : hashForm cs = true) : '\n' ∉ cs := by
  simp only [hashForm, Bool.and_eq_true, List.all_eq_true] at ok
  intro mem
  exact absurd (ok.2 _ mem) (by decide)

theorem no_dot_slug {cs : List Char} (ok : slugForm cs = true) : ∀ c ∈ cs, (c ≠ '.') := by
  cases cs with
  | nil => simp
  | cons c cs =>
    simp only [slugForm, Bool.and_eq_true, List.all_eq_true] at ok
    rintro d mem rfl
    rcases List.mem_cons.mp mem with rfl | mem
    · exact absurd ok.1 (by decide)
    · exact absurd (ok.2 _ mem) (by decide)

theorem ownedForm_iff (cs : List Char) : ownedForm cs = true ↔ ∃ slug name,
    cs = slug ++ '.' :: name ∧ slugForm slug = true ∧ slug.length ≤ 32 ∧ slugForm name = true ∧
      name.length ≤ 40 := by
  constructor
  · intro ok
    unfold ownedForm at ok
    have parts := List.takeWhile_append_dropWhile (p := fun c => decide (c ≠ '.')) (l := cs)
    cases rest : cs.dropWhile (fun c => decide (c ≠ '.')) with
    | nil =>
      rw [rest] at ok
      cases ok
    | cons c name =>
      have first := List.head?_dropWhile_not (fun c => decide (c ≠ '.')) cs
      rw [rest] at first parts ok
      obtain rfl : c = '.' := by simpa using first
      simp only [Bool.and_eq_true, decide_eq_true_eq] at ok
      exact ⟨_, name, parts.symm, ok.1.1.1, ok.1.1.2, ok.1.2, ok.2⟩
  · rintro ⟨slug, name, rfl, slugOk, slugLen, nameOk, nameLen⟩
    have dotless : ∀ c ∈ slug, decide (c ≠ '.') = true := by simpa using no_dot_slug slugOk
    unfold ownedForm
    rw [List.takeWhile_append_of_pos dotless, List.dropWhile_append_of_pos dotless]
    simp [slugOk, slugLen, nameOk, nameLen]

theorem plain_owned {cs : List Char} (ok : ownedForm cs = true) : '\n' ∉ cs := by
  obtain ⟨slug, name, rfl, slugOk, -, nameOk, -⟩ := (ownedForm_iff cs).mp ok
  simp [plain_slug slugOk, plain_slug nameOk]

theorem pluginRef_iff {s : String} (ok : validPluginRef s = true) :
    PluginRef s ↔ ¬EndsLine s := by
  unfold PluginRef
  rw [← ownedForm_iff]
  constructor
  · rintro (plain | owned) ends
    · exact plain_slug plain (List.mem_of_getLast? ends)
    · exact plain_owned owned (List.mem_of_getLast? ends)
  · intro ends
    rcases Bool.or_eq_true_iff.mp ok with plain | owned
    · exact .inl ((matchesLine_iff plain fun _ => plain_slug).mpr ends)
    · exact .inr ((matchesLine_iff owned fun _ => plain_owned).mpr ends)

theorem rails_of_valid {s : String} (ok : validEvent s = true) :
    s.toList ≠ [] ∧ ¬['-', '-'] <:+: s.toList ∧ s.toList.head? ≠ some '-' ∧
      s.toList.getLast? ≠ some '-' ∧ ¬"plg-".toList <+: s.toList := by
  simp only [validEvent, Bool.and_eq_true, Bool.not_eq_true', String.isPrefixOf,
    String.startsWith_string_eq_false_iff] at ok
  obtain ⟨⟨⟨⟨line, single⟩, lead⟩, trail⟩, reserved⟩ := ok
  refine ⟨?_, ?_, ?_, ?_, reserved⟩
  · intro none_
    simp [matchesLine, none_, eventForm] at line
  · intro twice
    obtain ⟨t, pre, suf⟩ := List.infix_iff_prefix_suffix.mp twice
    rw [List.any_eq_false] at single
    exact single t ((List.mem_tails _ _).mpr suf) (List.isPrefixOf_iff_prefix.mpr pre)
  · intro first
    obtain ⟨rest, same⟩ := List.head?_eq_some_iff.mp first
    exact lead ⟨rest, same.symm⟩
  · intro last
    obtain ⟨rest, same⟩ := List.getLast?_eq_some_iff.mp last
    have ends : "-".toList <:+ s.toList := ⟨rest, same.symm⟩
    rw [List.isSuffixOf_iff_suffix.mpr ends] at trail
    cases trail

theorem eventName_iff {s : String} (ok : validEvent s = true) : EventName s ↔ ¬EndsLine s := by
  constructor
  · intro name ends
    have bad := name.word _ (List.mem_of_getLast? ends)
    revert bad
    decide
  · intro ends
    obtain ⟨nonempty, single, lead, trail, reserved⟩ := rails_of_valid ok
    simp only [validEvent, Bool.and_eq_true] at ok
    have form := (matchesLine_iff ok.1.1.1.1 fun _ => plain_event).mpr ends
    simp only [eventForm, Bool.and_eq_true, List.all_eq_true, Bool.or_eq_true,
      decide_eq_true_eq, or_assoc] at form
    exact ⟨nonempty, form.2, single, lead, trail, reserved⟩

theorem stateHash_iff {s : String} (ok : matchesLine hashForm s = true) :
    StateHash s ↔ ¬EndsLine s := by
  rw [← matchesLine_iff ok fun _ => plain_hash]
  simp [StateHash, hashForm]

end Grammar

section Identity
variable {R : Rounding}

def LineEnds (obj : Value) (key : String) : Prop :=
  ∃ fields s, obj = .obj fields ∧ Json.get fields key = .str s ∧ EndsLine s

theorem lineEnds_iff {fields : List (String × Value)} {key s : String}
    (reads : Json.get fields key = .str s) : LineEnds (.obj fields) key ↔ EndsLine s := by
  constructor
  · rintro ⟨_, s', same, reads', ends⟩
    obtain rfl := Json.obj.inj same
    rw [reads] at reads'
    exact Json.str.inj reads' ▸ ends
  · exact fun ends => ⟨fields, s, rfl, reads, ends⟩

theorem asText_eq {x : Value} {s : String} (read : asText x = some s) : x = .str s := by
  cases x <;> simp_all [asText]

theorem reads_of_validRecord {expect : Expected} {obj : Value} {row : RecordRow R}
    (ok : validateRecord expect obj = some row) : ∃ fields, obj = .obj fields ∧
      Json.get fields "emitter" = .str row.emitter ∧ Json.get fields "event" = .str row.event ∧
      Json.get fields "subscriber" = .str row.subscriber := by
  unfold validateRecord at ok
  split at ok
  · next fields =>
    dsimp only at ok
    split at ok
    · obtain ⟨emitter, emitterRead, ok⟩ := Option.bind_eq_some_iff.mp ok
      obtain ⟨event, eventRead, ok⟩ := Option.bind_eq_some_iff.mp ok
      obtain ⟨subscriber, subscriberRead, ok⟩ := Option.bind_eq_some_iff.mp ok
      refine ⟨fields, rfl, ?_⟩
      simp only [Option.bind_eq_bind, Option.bind_eq_some_iff, Option.ite_none_right_eq_some] at ok
      obtain ⟨_, -, _, -, _, -, _, -, _, -, _, -, _, -, -, same⟩ := ok
      obtain rfl := Option.some.inj same
      exact ⟨asText_eq emitterRead, asText_eq eventRead, asText_eq subscriberRead⟩
    · cases ok
  · cases ok

theorem reads_of_valid {L : Limits} {expectHash : Option String} {obj : Value}
    {row : AttemptRow R} (ok : validateAttempt L expectHash obj = some row) :
    ∃ fields, obj = .obj fields ∧ Json.get fields "state_hash" = .str row.stateHash := by
  unfold validateAttempt at ok
  split at ok
  · next fields =>
    dsimp only at ok
    split at ok
    · obtain ⟨stateHash, hashRead, ok⟩ := Option.bind_eq_some_iff.mp ok
      refine ⟨fields, rfl, ?_⟩
      simp only [Option.bind_eq_bind, Option.bind_eq_some_iff, Option.ite_none_right_eq_some] at ok
      obtain ⟨_, -, _, -, _, -, _, -, _, -, -, same⟩ := ok
      obtain rfl := Option.some.inj same
      exact asText_eq hashRead
    · cases ok
  · cases ok

theorem grammar_of_valid {expect : Expected} {obj : Value} {row : RecordRow R}
    (ok : validateRecord expect obj = some row) : validPluginRef row.emitter = true ∧
      validEvent row.event = true ∧ validPluginRef row.subscriber = true := by
  have identity := (shaped_of_validRecord ok).1.identity
  simp only [Bool.and_eq_true] at identity
  tauto

/-- What the identity of a record is to be: path components, whose file name gives the event and
the subscriber back. -/
structure Identity (row : RecordRow R) : Prop where
  emitter : PluginRef row.emitter
  event : EventName row.event
  subscriber : PluginRef row.subscriber
  inverse : splitEffective (stem (fileName row.event row.subscriber)) =
    some (row.event, row.subscriber)

theorem splitEffective_fileName {event : String} (valid : validEvent event = true)
    (subscriber : String) :
    splitEffective (stem (fileName event subscriber)) = some (event, subscriber) := by
  obtain ⟨nonempty, single, -, trail, -⟩ := rails_of_valid valid
  have same : (event ++ "--" ++ subscriber).toList =
      event.toList ++ '-' :: '-' :: subscriber.toList := by simp [String.toList_append]
  rw [stem_fileName, splitEffective, same, splitDashes_append single trail]
  simp [nonempty]

/-- The identity fields that an accepted record is made of are what they are to be exactly when
none of them ends with a newline, which the `$` of each expression lets through; the file name
of an accepted record gives its event and subscriber back in any case. -/
theorem path_components (R : Rounding) (L : Limits) :
    (∀ (expect : Expected) (obj : Value) (row : RecordRow R),
      validateRecord expect obj = some row → (Identity row ↔
        ¬LineEnds obj "emitter" ∧ ¬LineEnds obj "event" ∧ ¬LineEnds obj "subscriber")) ∧
    (∀ (expectHash : Option String) (obj : Value) (row : AttemptRow R),
      validateAttempt L expectHash obj = some row →
        (StateHash row.stateHash ↔ ¬LineEnds obj "state_hash")) ∧
    ∀ (expect expect' : Expected) (obj obj' : Value) (row row' : RecordRow R),
      validateRecord expect obj = some row → validateRecord expect' obj' = some row' →
        fileName row.event row.subscriber = fileName row'.event row'.subscriber →
          row.event = row'.event ∧ row.subscriber = row'.subscriber := by
  refine ⟨?_, ?_, ?_⟩
  · intro expect obj row valid
    obtain ⟨fields, rfl, emitterRead, eventRead, subscriberRead⟩ := reads_of_validRecord valid
    obtain ⟨emitter, event, subscriber⟩ := grammar_of_valid valid
    rw [lineEnds_iff emitterRead, lineEnds_iff eventRead, lineEnds_iff subscriberRead,
      ← pluginRef_iff emitter, ← eventName_iff event, ← pluginRef_iff subscriber]
    constructor
    · exact fun is => ⟨is.emitter, is.event, is.subscriber⟩
    · exact fun is => ⟨is.1, is.2.1, is.2.2, splitEffective_fileName event _⟩
  · intro expectHash obj row valid
    obtain ⟨fields, rfl, hashRead⟩ := reads_of_valid valid
    rw [lineEnds_iff hashRead, ← stateHash_iff (shaped_of_valid valid).1.hash]
  · intro expect expect' obj obj' row row' valid valid' same
    have here := splitEffective_fileName (grammar_of_valid valid).2.1 row.subscriber
    have there := splitEffective_fileName (grammar_of_valid valid').2.1 row'.subscriber
    rw [same, there] at here
    simpa [eq_comm] using here

def minted (event : String) : RecordRow .exact where
  v := .int 1
  emitter := "mail"
  event
  subscriber := "finance.bank-feed"
  record := {
    gen := 0, ackToken := "t", mintedTs := ⟨5⟩, status := .pending, nudges := 0
    lastNudgeTs := none, nextNudgeTs := some ⟨5⟩, deferrals := 0, noted := false, endedTs := none }

theorem minted_valid {event : String} (valid : validEvent event = true) :
    validateRecord ⟨none, none, none⟩ (.obj (minted event).fields) = some (minted event) := by
  apply validate_recordFields
  · have emitter : validPluginRef "mail" = true := by decide +kernel
    have subscriber : validPluginRef "finance.bank-feed" = true := by decide +kernel
    refine ⟨rfl, ?_⟩
    simp [minted, emitter, subscriber, valid]
  · have five : (⟨5⟩ : Seconds .exact).Within tsAbsMax := by decide +kernel
    refine ⟨five, ?_⟩
    simp [minted, five]

theorem minted_identity : Identity (minted "invoice-2") ∧
    StateHash (dueAtFive .resultReady).stateHash ∧
    fileName "invoice" "finance.bank-feed" ≠ fileName "invoice-2" "finance.bank-feed" := by
  have short : validEvent "invoice" = true := by decide +kernel
  have long : validEvent "invoice-2" = true := by decide +kernel
  refine ⟨?_, ?_, fun same => ?_⟩
  · refine ((path_components .exact pythonLimits).1 _ _ _ (minted_valid long)).mpr ?_
    rw [lineEnds_iff rfl, lineEnds_iff rfl, lineEnds_iff rfl]
    decide +kernel
  · refine ((path_components .exact pythonLimits).2.1 _ _ _ (dueAtFive_valid .resultReady)).mpr ?_
    rw [lineEnds_iff rfl]
    decide +kernel
  · have events := (path_components .exact pythonLimits).2.2 _ _ _ _ _ _ (minted_valid short)
      (minted_valid long) same
    exact absurd events.1 (by decide)

/-- A newline at the end of an event is no reason to refuse the record. -/
theorem newline_accepted :
    validateRecord ⟨none, none, none⟩ (.obj (minted "invoice\n").fields) =
      some (minted "invoice\n") ∧ ¬EventName (minted "invoice\n").event := by
  refine ⟨minted_valid (by decide +kernel), fun is => ?_⟩
  have bad := is.word '\n' (by decide +kernel)
  revert bad
  decide

end Identity

end Casa.IdentityGrammar
