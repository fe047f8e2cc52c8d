import Casa.IdentityGrammar
import Casa.KeyedTable

/-! The webhook triggers that plugins declare (`plugin_triggers.py`), and which of them are routed
(`trigger_reconcile.py`). -/

namespace Casa.PluginTriggers
open AttemptSchema IdentityGrammar KeyedTable PythonValue

variable {T : Type}

inductive Mode where
  | hmacBody | staticHeader | timestampedHmac
deriving DecidableEq

/-- `_MODES`. -/
def Mode.ofText : String → Option Mode
  | "hmac_body" => some .hmacBody
  | "static_header" => some .staticHeader
  | "timestamped_hmac" => some .timestampedHmac
  | _ => none

def Mode.defaultHeader : Mode → String
  | .hmacBody => "X-Webhook-Signature"
  | .staticHeader => "X-API-Key"
  | .timestampedHmac => "ElevenLabs-Signature"

/-- A normalised policy; its `secret_owner` is `casa`. -/
structure Auth where
  mode : Mode
  header : String
  toleranceSecs : Int
deriving DecidableEq

structure Trigger where
  declared : String
  effective : String
  target : String
  clearance : String
  auth : Auth
deriving DecidableEq

/-- What a message of `parse_and_validate` is about, and at which entry. -/
inductive Flaw where
  | notList | pluginDoubleDash | pluginTrailingDash | tooMany
  | notObject | unknownKey | type | name | doubleDash | leadingDash | reserved | duplicate | tooLong
  | target | clearance | authNotObject | unknownAuthKey | mode | provider | owner | header | tolerance
deriving DecidableEq

def flawIf (c : Prop) [Decidable c] (flaw : Flaw) : List Flaw := if c then [flaw] else []

@[simp] theorem flawIf_eq_nil (c : Prop) [Decidable c] (flaw : Flaw) :
    flawIf c flaw = [] ↔ ¬ c := by
  unfold flawIf
  split <;> simp [*]

/-- `_NAME_RE`. -/
def nameForm (cs : List Char) : Bool := cs ≠ [] && cs.all fun c => c.isAlphanum || c = '_' || c = '-'

/-- `_HEADER_RE`. -/
def headerForm (cs : List Char) : Bool :=
  cs ≠ [] && cs.all fun c => c.isAlphanum || c ∈ "!#$%&'*+._`|~-".toList

/-- `_TARGET_RE`. -/
def targetForm (cs : List Char) : Bool :=
  "resident:".toList.isPrefixOf cs && cs.drop 9 ≠ [] &&
    (cs.drop 9).all fun c => isLower c || c.isDigit || c = '_' || c = '-'

def effectiveName (plugin declared : String) : String := "plg-" ++ plugin ++ "--" ++ declared

def maxTriggers : ℕ := 8
def maxEffectiveLen : ℕ := 64

def triggerKeys : List String := ["name", "type", "target", "clearance", "auth"]
def authKeys : List String := ["mode", "header", "tolerance_secs", "secret_owner"]
def clearances : List String := ["public", "friends", "family"]

/-- `entry.get(key, default)`. -/
def getOr (fields : List (String × Json T)) (key : String) (default : Json T) : Json T :=
  (Json.field? fields key).getD default

def readHeader (mode : Mode) : Json T → List Flaw × String
  | .str header =>
      if matchesLine headerForm header then ([], header) else ([.header], mode.defaultHeader)
  | _ => ([.header], mode.defaultHeader)

def readTolerance : Json T → List Flaw × Int
  | .int n => if 60 ≤ n ∧ n ≤ 3600 then ([], n) else ([.tolerance], 300)
  | _ => ([.tolerance], 300)

def ownerFlaws : Json T → List Flaw
  | .str owner => if owner = "provider" then [.provider] else flawIf (owner ≠ "casa") .owner
  | _ => [.owner]

def validateAuth : Json T → List Flaw × Option Auth
  | .obj fields =>
      let unknown := flawIf (∃ f ∈ fields, f.1 ∉ authKeys) .unknownAuthKey
      match Json.get fields "mode" with
      | .str text => match Mode.ofText text with
          | some mode =>
              let header := readHeader mode (getOr fields "header" (.str mode.defaultHeader))
              let tolerance := readTolerance (getOr fields "tolerance_secs" (.int 300))
              (unknown ++ ownerFlaws (getOr fields "secret_owner" (.str "casa")) ++ header.1 ++
                tolerance.1, some ⟨mode, header.2, tolerance.2⟩)
          | none => (unknown ++ [.mode], none)
      | _ => (unknown ++ [.mode], none)
  | _ => ([.authNotObject], none)

/-- The flaws of a declared name, the name where it matches, and the names seen so far. -/
def readName (plugin : String) (seen : List String) :
    Json T → List Flaw × Option String × List String
  | .str name =>
      if !matchesLine nameForm name then ([.name], none, seen)
      else if ['-', '-'] <:+: name.toList then ([.doubleDash], some name, seen)
      else if name.toList.head? = some '-' then ([.leadingDash], some name, seen)
      else if "plg-".toList <+: name.toList then ([.reserved], some name, seen)
      else (flawIf (name ∈ seen) .duplicate ++
        flawIf (maxEffectiveLen < (effectiveName plugin name).length) .tooLong,
        some name, name :: seen)
  | _ => ([.name], none, seen)

def readTarget : Json T → List Flaw × Option String
  | .str target => (flawIf (matchesLine targetForm target = false) .target, some target)
  | _ => ([.target], none)

def readClearance : Json T → List Flaw × String
  | .str clearance =>
      if clearance ∈ clearances then ([], clearance) else ([.clearance], "public")
  | _ => ([.clearance], "public")

/-- One round of the loop. Of a target that is empty or no text the source keeps the opposite, in a
block that its flaw rejects. -/
def readEntry (plugin : String) (seen : List String) :
    Json T → List Flaw × Option Trigger × List String
  | .obj entry =>
      let name := readName plugin seen (Json.get entry "name")
      let target := readTarget (Json.get entry "target")
      let clearance := readClearance (getOr entry "clearance" (.str "public"))
      let auth := validateAuth (getOr entry "auth" (.obj []))
      let isWebhook := match Json.get entry "type" with
        | .str type => type = "webhook"
        | _ => false
      (flawIf (∃ f ∈ entry, f.1 ∉ triggerKeys) .unknownKey ++ flawIf (isWebhook = false) .type ++
          name.1 ++ target.1 ++ clearance.1 ++ auth.1,
        (do let name ← name.2.1
            let target ← target.2
            let auth ← auth.2
            return ⟨name, effectiveName plugin name, target, clearance.2, auth⟩),
        name.2.2)
  | _ => ([.notObject], none, seen)

def readEntries (plugin : String) : List String → List (Json T) → List Trigger × List Flaw
  | _, [] => ([], [])
  | seen, raw :: rest =>
      let entry := readEntry plugin seen raw
      let more := readEntries plugin entry.2.2 rest
      (entry.2.1.toList ++ more.1, entry.1 ++ more.2)

def parseAndValidate (plugin : String) (manifest : List (String × Json T)) :
    List Trigger × List Flaw :=
  match Json.get manifest "casa" with
  | .obj casa => match Json.get casa "triggers" with
      | .null => ([], [])
      | .arr raw =>
          let entries := readEntries plugin [] raw
          (entries.1, flawIf (['-', '-'] <:+: plugin.toList) .pluginDoubleDash ++
            flawIf (plugin.toList.getLast? = some '-') .pluginTrailingDash ++
            flawIf (maxTriggers < raw.length) .tooMany ++ entries.2)
      | _ => ([], [.notList])
  | _ => ([], [])

/-! ### What a block without flaws declares -/

structure Trigger.Sound (plugin : String) (t : Trigger) : Prop where
  effective : t.effective = effectiveName plugin t.declared
  declared : matchesLine nameForm t.declared = true
  target : matchesLine targetForm t.target = true
  header : matchesLine headerForm t.auth.header = true

theorem readName_ok {plugin : String} {seen : List String} {raw : Json T}
    (ok : (readName plugin seen raw).1 = []) : ∃ name, matchesLine nameForm name = true ∧
      name ∉ seen ∧ (readName plugin seen raw).2 = (some name, name :: seen) := by
  unfold readName at ok ⊢
  split
  · split_ifs at ok ⊢ with h₁ h₂ h₃ h₄ <;> simp_all
  · simp at ok

theorem validateAuth_ok {raw : Json T} (ok : (validateAuth raw).1 = []) :
    ∃ auth, (validateAuth raw).2 = some auth ∧ matchesLine headerForm auth.header = true := by
  unfold validateAuth at ok ⊢
  split
  · split
    · split
      · simp only [readHeader] at ok ⊢
        refine ⟨_, rfl, ?_⟩
        split
        · split_ifs with h
          · exact h
          · simp_all
        · simp_all
      · simp_all
    · simp_all
  · simp_all

theorem readEntry_ok {plugin : String} {seen : List String} {raw : Json T}
    (ok : (readEntry plugin seen raw).1 = []) : ∃ t, t.Sound plugin ∧ t.declared ∉ seen ∧
      (readEntry plugin seen raw).2 = (some t, t.declared :: seen) := by
  unfold readEntry at ok ⊢
  split
  · next entry =>
    simp only [List.append_eq_nil_iff] at ok
    obtain ⟨name, word, new, read⟩ := readName_ok ok.1.1.1.2
    obtain ⟨auth, policy, header⟩ := validateAuth_ok ok.2
    cases text : Json.get entry "target" with
    | str target =>
      have aimed : matchesLine targetForm target = true := by
        simpa [text, readTarget] using ok.1.1.2
      simp only [read, policy, readTarget]
      exact ⟨⟨_, _, _, _, _⟩, ⟨rfl, word, aimed, header⟩, new, rfl⟩
    | _ => simp [text, readTarget] at ok
  · simp at ok

theorem readEntries_ok {plugin : String} {seen : List String} {raw : List (Json T)}
    (ok : (readEntries plugin seen raw).2 = []) :
    (∀ t ∈ (readEntries plugin seen raw).1, t.Sound plugin ∧ t.declared ∉ seen) ∧
      ((readEntries plugin seen raw).1.map (·.declared)).Nodup := by
  induction raw generalizing seen with
  | nil => simp [readEntries]
  | cons first rest ih =>
    simp only [readEntries, List.append_eq_nil_iff] at ok ⊢
    obtain ⟨t, sound, new, read⟩ := readEntry_ok ok.1
    rw [read] at ok ⊢
    obtain ⟨all, nodup⟩ := ih ok.2
    rw [Option.toList_some, List.singleton_append, List.forall_mem_cons, List.map_cons,
      List.nodup_cons, List.mem_map]
    refine ⟨⟨⟨sound, new⟩, fun u mem => ⟨(all u mem).1, fun old => ?_⟩⟩, ?_, nodup⟩
    · exact (all u mem).2 (List.mem_cons_of_mem _ old)
    · rintro ⟨u, mem, same⟩
      exact (all u mem).2 (same ▸ List.mem_cons_self)

theorem parseAndValidate_ok {plugin : String} {manifest : List (String × Json T)}
    (ok : (parseAndValidate plugin manifest).2 = []) :
    (∀ t ∈ (parseAndValidate plugin manifest).1, t.Sound plugin ∧
        ¬['-', '-'] <:+: plugin.toList ∧ plugin.toList.getLast? ≠ some '-') ∧
      ((parseAndValidate plugin manifest).1.map (·.declared)).Nodup := by
  unfold parseAndValidate at ok ⊢
  cases casa : Json.get manifest "casa" with
  | obj fields =>
    cases declared : Json.get fields "triggers" with
    | arr raw =>
      simp only [casa, declared, List.append_eq_nil_iff, flawIf_eq_nil] at ok ⊢
      obtain ⟨all, nodup⟩ := readEntries_ok ok.2
      exact ⟨fun t mem => ⟨(all t mem).1, ok.1.1⟩, nodup⟩
    | _ => simp [declared]
  | _ => simp

end Casa.PluginTriggers
