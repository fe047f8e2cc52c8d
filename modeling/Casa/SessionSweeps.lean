import Casa.JobDurability
import Casa.KeyedTable
import Casa.ProvenanceCodec

/-! The two sweeps over the stored sessions (`session_sweeper.py`, `freshness_reaper.py`), and
which of these a turn resumes (`agent.py`). Each of the three reads the same time of last use. -/

namespace Casa.SessionSweeps
open KeyedTable PythonValue ProvenanceCodec

/-- A `datetime`: an instant in microseconds, or one without a zone. -/
inductive Stamp where
  | aware (instant : Int)
  | naive

/-- `fromisoformat` is that of the library, with no value where it raises. The lengths are read from
the environment and the arguments. -/
structure Settings (T : Type) where
  py : Builtins T
  fromisoformat : String → Option Stamp
  fromisoformat_empty : fromisoformat "" = none
  freshnessVoice : Int
  freshnessTelegram : Int
  sessionTtl : Int
  webhookTtl : Int
  staleAfter : Int

abbrev Entry (T : Type) := List (String × Json T)

abbrev Sessions (T : Type) := Table (fun row : String × Entry T => row.1)

section Source
variable {T : Type} [DecidableEq T] [IntCast T] (s : Settings T) (now : Int)

/-- `key.partition("-")[0]`. -/
def channelOf (key : String) : String := String.ofList (key.toList.takeWhile (· ≠ '-'))

def conversational : List String := ["voice", "telegram"]

def freshnessWindow (channel : String) : Int :=
  if channel = "voice" then s.freshnessVoice else s.freshnessTelegram

/-- `now - last`, of an aware `now`. -/
def age : Stamp → Except String Int
  | .aware last => .ok (now - last)
  | .naive => .error "can't subtract offset-naive and offset-aware datetimes"

/-! ### `SessionSweeper` -/

def parseLastActive : Json T → Option Stamp
  | .str value => if value = "" then none else s.fromisoformat value
  | _ => none

def isText (text : String) : Json T → Bool
  | .str value => value = text
  | _ => false

def ttlOf (entry : Entry T) : Int :=
  if isText "webhook_oneshot" (Json.get entry "scope_class") then s.webhookTtl else s.sessionTtl

def guardOf (row : String × Entry T) : Int :=
  if channelOf row.1 ∈ conversational then
    max (ttlOf s row.2) (freshnessWindow s (channelOf row.1))
  else ttlOf s row.2

def evicts (row : String × Entry T) : Except String Bool :=
  match parseLastActive s (Json.get row.2 "last_active") with
  | none => .ok true
  | some last => (age now last).map fun idle => decide (guardOf s row < idle)

def toEvict : List (String × Entry T) → Except String (List String)
  | [] => .ok []
  | row :: rest => do
      let out ← evicts s now row
      let keys ← toEvict rest
      return if out then row.1 :: keys else keys

/-- What `_sweep_once` leaves; the transcripts of what it evicts are deleted as far as they can. -/
def sweepOnce (data : Sessions T) : Except String (Sessions T) :=
  (toEvict s now data.rows).map fun keys => data.filter fun row => decide (row.1 ∉ keys)

/-! ### `_resume_decision` -/

structure SessionEntrySnapshot (T : Type) where
  agent : String
  sdkSessionId : String
  lastActive : Json T
  bindingDigest : Json T
  speakerProvenance : Option SpeakerProvenance
  userProvenance : Option SpeakerProvenance

def decodeProvenance (raw : Json T) : Option SpeakerProvenance :=
  (provenanceFromMapping s.py raw).toOption

def snapshotSessionEntry (entry : Entry T) : Option (SessionEntrySnapshot T) :=
  if (Json.get entry "sdk_session_id").toBool && (Json.get entry "agent").toBool then
    some ⟨s.py.str (Json.get entry "agent"), s.py.str (Json.get entry "sdk_session_id"),
      Json.get entry "last_active", Json.get entry "binding_digest",
      decodeProvenance s (Json.get entry "speaker_provenance"),
      decodeProvenance s (Json.get entry "user_provenance")⟩
  else none

/-- `(stored or "") == digest`. -/
def digestMatches (stored : Json T) (digest : String) : Bool :=
  if stored.toBool then isText digest stored else digest = ""

/-- Whether the action is `resume`. -/
def resumes (channel : String) (entry : Entry T) (roleId bindingDigest : String) : Bool :=
  match snapshotSessionEntry s entry with
  | none => false
  | some old =>
      if old.agent ≠ roleId then false
      else if !digestMatches old.bindingDigest bindingDigest then false
      else match old.lastActive with
        | .str value => match s.fromisoformat value with
            | some (.aware last) => decide (now - last ≤ freshnessWindow s channel)
            | _ => false
        | _ => false

/-! ### `FreshnessReaper` -/

/-- What the reaper has done to an entry; a removal or a save still compares the session id. -/
inductive Deed where
  | released | removed | saved
deriving DecidableEq, Repr

def isStaleClaim : Json T → Except String Bool
  | .str value => match s.fromisoformat value with
      | some claimed => (age now claimed).map fun held => decide (s.staleAfter < held)
      | none => .ok true
  | _ => .ok true

def retire (channel : String) (entry : Entry T) : Deed :=
  match snapshotSessionEntry s entry with
  | none => .removed
  | some old =>
      if old.speakerProvenance.isNone || old.userProvenance.isNone then .removed
      else if channel = "telegram" then .saved
      else .removed

/-- The body of the loop of `sweep_once`. -/
def reap (row : String × Entry T) : Except String (List Deed) :=
  if channelOf row.1 ∉ conversational then .ok []
  else match Json.get row.2 "last_active" with
    | .str value => match s.fromisoformat value with
        | none => .ok []
        | some last => do
            let idle ← age now last
            if idle ≤ freshnessWindow s (channelOf row.1) then .ok []
            else
              let claimed := Json.get row.2 "consolidated_at"
              if claimed.toBool then
                if ← isStaleClaim s now claimed then
                  return [.released, retire s (channelOf row.1) row.2]
                else return []
              else return [retire s (channelOf row.1) row.2]
    | _ => .ok []

def reapAll : List (String × Entry T) → List (String × Deed)
  | [] => []
  | row :: rest =>
      match reap s now row with
      | .ok deeds => deeds.map (row.1, ·) ++ reapAll rest
      | .error _ => reapAll rest

/-! ### What the sweeps are for -/

def lastActive (row : String × Entry T) : Option Stamp :=
  parseLastActive s (Json.get row.2 "last_active")

def gone (row : String × Entry T) : Bool :=
  match lastActive s row with
  | some (.aware last) => guardOf s row < now - last
  | _ => true

def Zoneless (row : String × Entry T) : Prop := lastActive s row = some .naive

def Identified (entry : Entry T) : Prop :=
  (Json.get entry "sdk_session_id").toBool = true ∧ (Json.get entry "agent").toBool = true ∧
    ((Json.get entry "binding_digest").toBool = true →
      ∃ text, Json.get entry "binding_digest" = .str text)

def Overtaken (row : String × Entry T) : Prop :=
  channelOf row.1 ∉ conversational ∧ Identified row.2 ∧
    ∃ last, lastActive s row = some (.aware last) ∧
      ttlOf s row.2 < now - last ∧ now - last ≤ freshnessWindow s (channelOf row.1)

structure Careful (data : Sessions T) : Prop where
  total : ∃ kept, sweepOnce s now data = .ok kept ∧
    ∀ row, row ∈ kept.rows ↔ row ∈ data.rows ∧ gone s now row = false
  apart : ∀ row ∈ data.rows,
    (reapAll s now data.rows).filter (·.1 = row.1) = reapAll s now [row]
  live : ∀ row ∈ data.rows, ∀ roleId digest,
    resumes s now (channelOf row.1) row.2 roleId digest = true →
      reap s now row = .ok [] ∧ ∀ kept, sweepOnce s now data = .ok kept → row ∈ kept.rows

/-! ### `_sweep_once` -/

omit [DecidableEq T] [IntCast T] in
theorem evicts_cases (row : String × Entry T) :
    (Zoneless s row ∧ ∃ message, evicts s now row = .error message) ∨
      (¬ Zoneless s row ∧ evicts s now row = .ok (gone s now row)) := by
  unfold Zoneless gone evicts lastActive
  cases parseLastActive s (Json.get row.2 "last_active") with
  | none => exact .inr ⟨nofun, rfl⟩
  | some last =>
    cases last with
    | aware last => exact .inr ⟨nofun, rfl⟩
    | naive => exact .inl ⟨rfl, _, rfl⟩

omit [DecidableEq T] [IntCast T] in
theorem toEvict_error {rows : List (String × Entry T)} {row : String × Entry T} (mem : row ∈ rows)
    (bad : Zoneless s row) : ∃ message, toEvict s now rows = .error message := by
  induction rows with
  | nil => cases mem
  | cons first rest ih =>
    rw [toEvict]
    rcases evicts_cases s now first with ⟨-, message, raised⟩ | ⟨fine, judged⟩
    · exact ⟨message, by rw [raised]; rfl⟩
    · have later : row ∈ rest := (List.mem_cons.mp mem).resolve_left fun same => fine (same ▸ bad)
      obtain ⟨message, raised⟩ := ih later
      exact ⟨message, by rw [judged, raised]; rfl⟩

omit [DecidableEq T] [IntCast T] in
theorem toEvict_ok {rows : List (String × Entry T)} (fine : ∀ row ∈ rows, ¬ Zoneless s row) :
    toEvict s now rows = .ok ((rows.filter (gone s now)).map (·.1)) := by
  induction rows with
  | nil => rfl
  | cons first rest ih =>
    rw [List.forall_mem_cons] at fine
    have judged := ((evicts_cases s now first).resolve_left fun bad => fine.1 bad.1).2
    rw [toEvict, judged, ih fine.2, List.filter_cons]
    cases gone s now first <;> rfl

omit [DecidableEq T] [IntCast T] in
theorem sweepOnce_ok {data : Sessions T} (fine : ∀ row ∈ data.rows, ¬ Zoneless s row) :
    ∃ kept, sweepOnce s now data = .ok kept ∧
      ∀ row, row ∈ kept.rows ↔ row ∈ data.rows ∧ gone s now row = false := by
  refine ⟨_, by rw [sweepOnce, toEvict_ok s now fine]; rfl, fun row => ?_⟩
  rw [Table.mem_filter]
  refine and_congr_right fun mem => ?_
  have unique : ∀ other ∈ data.rows, other.1 = row.1 → other = row := fun other mem' same =>
    List.inj_on_of_nodup_map data.nodup mem' mem same
  simp only [List.mem_map, List.mem_filter, decide_eq_true_eq, not_exists, not_and]
  constructor
  · intro kept
    exact Bool.eq_false_iff.mpr fun out => kept row ⟨mem, out⟩ rfl
  · rintro kept other ⟨mem', out⟩ same
    rw [unique other mem' same, kept] at out
    cases out

/-! ### What is fresh -/

omit [DecidableEq T] [IntCast T] in
theorem lastActive_str {row : String × Entry T} {value : String}
    (text : Json.get row.2 "last_active" = .str value) :
    lastActive s row = s.fromisoformat value := by
  rw [lastActive, text, parseLastActive]
  split
  · next empty => rw [empty, s.fromisoformat_empty]
  · rfl

theorem exists_digest (stored : Json T) : (∃ digest, digestMatches stored digest = true) ↔
    (stored.toBool = true → ∃ text, stored = .str text) := by
  unfold digestMatches isText
  cases stored.toBool <;> cases stored <;> simp

theorem resumes_iff (row : String × Entry T) :
    (∃ roleId digest, resumes s now (channelOf row.1) row.2 roleId digest = true) ↔
      Identified row.2 ∧ ∃ last, lastActive s row = some (.aware last) ∧
        now - last ≤ freshnessWindow s (channelOf row.1) := by
  rw [Identified, ← exists_digest]
  unfold resumes snapshotSessionEntry
  cases (Json.get row.2 "sdk_session_id").toBool with
  | false => simp
  | true =>
    cases (Json.get row.2 "agent").toBool with
    | false => simp
    | true =>
      cases text : Json.get row.2 "last_active" with
      | str value =>
        rw [lastActive_str s text]
        simp only [Bool.and_self, if_true]
        rcases s.fromisoformat value with - | ⟨last⟩ | - <;> simp
      | _ => simp [lastActive, text, parseLastActive]

theorem reap_fresh {row : String × Entry T} {last : Int}
    (at_ : lastActive s row = some (.aware last))
    (fresh : now - last ≤ freshnessWindow s (channelOf row.1)) : reap s now row = .ok [] := by
  unfold reap
  split
  · rfl
  · split
    · next value text =>
      rw [lastActive_str s text] at at_
      simp [at_, age, fresh, bind, Except.bind]
    · rfl

omit [DecidableEq T] [IntCast T] in
/-- A fresh entry with a zone is past its guard only where the guard leaves its window out. -/
theorem gone_fresh {row : String × Entry T} {last : Int}
    (at_ : lastActive s row = some (.aware last))
    (fresh : now - last ≤ freshnessWindow s (channelOf row.1)) :
    gone s now row = true ↔ channelOf row.1 ∉ conversational ∧ ttlOf s row.2 < now - last := by
  have judged : gone s now row = decide (guardOf s row < now - last) := by rw [gone, at_]
  rw [judged, decide_eq_true_eq, guardOf]
  by_cases on : channelOf row.1 ∈ conversational
  · rw [if_pos on]
    have most := Int.le_max_right (ttlOf s row.2) (freshnessWindow s (channelOf row.1))
    exact ⟨fun out => absurd out (by omega), fun out => absurd on out.1⟩
  · rw [if_neg on, and_iff_right on]

theorem reapAll_filter {rows : List (String × Entry T)} (nodup : (rows.map (·.1)).Nodup)
    {row : String × Entry T} (mem : row ∈ rows) :
    (reapAll s now rows).filter (·.1 = row.1) = reapAll s now [row] := by
  have others : ∀ rest : List (String × Entry T), row.1 ∉ rest.map (·.1) →
      (reapAll s now rest).filter (·.1 = row.1) = [] := by
    intro rest
    induction rest with
    | nil => exact fun _ => rfl
    | cons first rest ih =>
      intro away
      rw [List.map_cons, List.mem_cons, not_or] at away
      unfold reapAll
      cases reap s now first with
      | ok deeds => simp [List.filter_append, ih away.2, List.filter_map, Function.comp_def,
          Ne.symm away.1]
      | error _ => exact ih away.2
  induction rows with
  | nil => cases mem
  | cons first rest ih =>
    rw [List.map_cons, List.nodup_cons] at nodup
    rcases List.mem_cons.mp mem with rfl | later
    · unfold reapAll
      cases reap s now row with
      | ok deeds =>
        rw [List.filter_append, others rest nodup.1]
        simp [reapAll, List.filter_map, Function.comp_def]
      | error _ => exact others rest nodup.1
    · have away : first.1 ≠ row.1 := fun same =>
        nodup.1 (same ▸ List.mem_map_of_mem later)
      rw [← ih nodup.2 later, reapAll]
      cases reap s now first with
      | ok deeds => simp [List.filter_append, List.filter_map, Function.comp_def, away]
      | error _ => rfl

/-- The sweeps are careful exactly where every time of last use has a zone, and no entry that could
be resumed has outlived the guard of its channel. -/
theorem careful_iff (data : Sessions T) : Careful s now data ↔
    ∀ row ∈ data.rows, ¬ Zoneless s row ∧ ¬ Overtaken s now row := by
  constructor
  · intro careful row mem
    obtain ⟨kept, swept, left⟩ := careful.total
    refine ⟨fun bad => ?_, ?_⟩
    · obtain ⟨message, raised⟩ := toEvict_error s now mem bad
      rw [sweepOnce, raised] at swept
      cases swept
    · rintro ⟨off, identified, last, at_, old, fresh⟩
      obtain ⟨roleId, digest, resumed⟩ := (resumes_iff s now row).mpr ⟨identified, last, at_, fresh⟩
      have stays := (left row).mp ((careful.live row mem roleId digest resumed).2 kept swept)
      have out := (gone_fresh s now at_ fresh).mpr ⟨off, old⟩
      rw [out] at stays
      cases stays.2
  · intro fine
    have swept := sweepOnce_ok s now fun row mem => (fine row mem).1
    refine ⟨swept, fun row mem => reapAll_filter s now data.nodup mem,
      fun row mem roleId digest resumed => ?_⟩
    obtain ⟨identified, last, at_, fresh⟩ := (resumes_iff s now row).mp ⟨roleId, digest, resumed⟩
    refine ⟨reap_fresh s now at_ fresh, fun kept done => ?_⟩
    obtain ⟨kept', done', left⟩ := swept
    obtain rfl : kept' = kept := Except.ok.inj (done'.symm.trans done)
    refine (left row).mpr ⟨mem, Bool.eq_false_iff.mpr fun out => (fine row mem).2 ?_⟩
    obtain ⟨off, old⟩ := (gone_fresh s now at_ fresh).mp out
    exact ⟨off, identified, last, at_, old, fresh⟩

end Source

/-! ### Sweeps one after the other -/

section Repeated
variable {T : Type} (s : Settings T)

theorem gone_mono {earlier later : Int} (le : earlier ≤ later) {row : String × Entry T}
    (out : gone s earlier row = true) : gone s later row = true := by
  unfold gone at out ⊢
  split at out
  · rw [decide_eq_true_eq] at out ⊢
    omega
  · rfl

theorem sweepOnce_zoneless (now : Int) {data : Sessions T} {row : String × Entry T}
    (mem : row ∈ data.rows) (bad : Zoneless s row) :
    sweepOnce s now data = .error "can't subtract offset-naive and offset-aware datetimes" := by
  have raised : ∀ {rows : List (String × Entry T)}, row ∈ rows → toEvict s now rows =
      .error "can't subtract offset-naive and offset-aware datetimes" := by
    intro rows inside
    induction rows with
    | nil => cases inside
    | cons first rest ih =>
      rw [toEvict]
      rcases evicts_cases s now first with ⟨naive, -⟩ | ⟨fine, judged⟩
      · unfold Zoneless lastActive at naive
        rw [evicts, naive]
        rfl
      · have later := (List.mem_cons.mp inside).resolve_left fun same => fine (same ▸ bad)
        rw [judged, ih later]
        rfl
  rw [sweepOnce, raised mem]
  rfl

theorem sweepOnce_eq (now : Int) {data : Sessions T} (fine : ∀ row ∈ data.rows, ¬ Zoneless s row) :
    sweepOnce s now data = .ok (data.filter fun row => !gone s now row) := by
  rw [sweepOnce, toEvict_ok s now fine]
  refine congrArg Except.ok (Table.ext (List.filter_congr fun row mem => ?_))
  have evicted : row.1 ∈ (data.rows.filter (gone s now)).map (·.1) ↔ gone s now row = true := by
    rw [List.mem_map]
    constructor
    · rintro ⟨other, inside, same⟩
      obtain ⟨mem', out⟩ := List.mem_filter.mp inside
      rwa [List.inj_on_of_nodup_map data.nodup mem' mem same] at out
    · exact fun out => ⟨row, List.mem_filter.mpr ⟨mem, out⟩, rfl⟩
  simp only [evicted]
  cases gone s now row <;> rfl

theorem sweepOnce_again {earlier later : Int} (le : earlier ≤ later) (data : Sessions T) :
    (sweepOnce s earlier data >>= sweepOnce s later) = sweepOnce s later data := by
  by_cases naive : ∃ row ∈ data.rows, Zoneless s row
  · obtain ⟨row, mem, bad⟩ := naive
    rw [sweepOnce_zoneless s earlier mem bad, sweepOnce_zoneless s later mem bad]
    rfl
  · have fine : ∀ row ∈ data.rows, ¬ Zoneless s row := fun row mem bad => naive ⟨row, mem, bad⟩
    have still : ∀ row ∈ (data.filter fun row => !gone s earlier row).rows, ¬ Zoneless s row :=
      fun row mem => fine row (List.mem_of_mem_filter mem)
    rw [sweepOnce_eq s earlier fine, sweepOnce_eq s later fine]
    refine (sweepOnce_eq s later still).trans (congrArg Except.ok (Table.ext ?_))
    refine List.filter_filter.trans (List.filter_congr fun row _ => ?_)
    cases old : gone s earlier row with
    | false => simp
    | true => simp [gone_mono s le old]

/-- What a sweep leaves, or that it raises, depends on its own time alone, whatever sweeps came
before it. -/
theorem sweeps_compose {earlier : List Int} {later : Int} (before : ∀ now ∈ earlier, now ≤ later)
    (data : Sessions T) :
    (earlier.foldlM (fun data now => sweepOnce s now data) data >>= sweepOnce s later) =
      sweepOnce s later data := by
  induction earlier generalizing data with
  | nil => rfl
  | cons now rest ih =>
    rw [List.forall_mem_cons] at before
    rw [List.foldlM_cons, bind_assoc]
    simp only [ih before.2]
    exact sweepOnce_again s before.1 data

end Repeated

/-! ### One entry without a zone -/

def sampleSettings : Settings Int where
  py := JobDurability.plainBuiltins
  fromisoformat value := if value = "2026-01-01T00:00:00" then some .naive else none
  fromisoformat_empty := rfl
  freshnessVoice := 1800000000
  freshnessTelegram := 43200000000
  sessionTtl := 2592000000000
  webhookTtl := 86400000000
  staleAfter := 7200000000

def sampleSessions : Sessions Int :=
  ⟨[("webhook-1", []), ("telegram-1", [("last_active", .str "2026-01-01T00:00:00")])], by decide⟩

/-- The first entry has no time of last use, and stays because of the second. -/
theorem zoneless_blocks_sweep :
    gone sampleSettings 0 ("webhook-1", []) = true ∧
      sweepOnce sampleSettings 0 sampleSessions =
        .error "can't subtract offset-naive and offset-aware datetimes" ∧
      ¬ Careful sampleSettings 0 sampleSessions := by
  have raised : sweepOnce sampleSettings 0 sampleSessions =
      .error "can't subtract offset-naive and offset-aware datetimes" := rfl
  refine ⟨rfl, raised, fun careful => ?_⟩
  obtain ⟨kept, swept, -⟩ := careful.total
  rw [raised] at swept
  cases swept

theorem sweep_missed : ([0, 5].foldlM (fun data now => sweepOnce sampleSettings now data)
    (⟨[("webhook-1", [])], by decide⟩ : Sessions Int) >>= sweepOnce sampleSettings 7) =
      .ok ⟨[], by decide⟩ :=
  sweeps_compose sampleSettings (by decide) _

end Casa.SessionSweeps
