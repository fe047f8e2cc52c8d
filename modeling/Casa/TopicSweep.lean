import Casa.PythonValue
import Mathlib.Algebra.GroupWithZero.Nat
import Mathlib.Data.Int.Notation
import Mathlib.Data.List.Forall2
import Mathlib.Data.List.Infix
import Mathlib.Data.List.Pairwise

/-! The sweep over the ledger of terminal topics. Entries are counted one by one and removed
afterwards by their engagement ids from a ledger that is read again, while other tasks append. -/

namespace Casa.TopicSweep

open PythonValue

/-! ### Removal by a condition -/

section Removal
variable {A : Type} {keep : A → Bool} {marks : List (A × Bool)}

def unmarked (marks : List (A × Bool)) : List A := (marks.filter fun m => !m.2).map Prod.fst

theorem unmarked_concat (marks : List (A × Bool)) (a : A) (gone : Bool) :
    unmarked (marks ++ [(a, gone)]) = unmarked marks ++ if gone then [] else [a] := by
  cases gone <;> simp [unmarked]

theorem length_filter_le_unmarked (gone : ∀ m ∈ marks, m.2 = true → keep m.1 = false) :
    ((marks.map Prod.fst).filter keep).length ≤ (unmarked marks).length := by
  induction marks with
  | nil => simp
  | cons m marks ih =>
    simp only [List.forall_mem_cons] at gone
    have shorter := ih gone.2
    cases stays : m.2 <;> cases kept : keep m.1 <;> simp [unmarked, stays, kept] at * <;> omega

/-- A removal that reaches every marked item leaves exactly the others when it reaches no other. -/
theorem filter_eq_unmarked_iff (gone : ∀ m ∈ marks, m.2 = true → keep m.1 = false) :
    (marks.map Prod.fst).filter keep = unmarked marks ↔
      ∀ m ∈ marks, m.2 = false → keep m.1 = true := by
  induction marks with
  | nil => simp [unmarked]
  | cons m marks ih =>
    simp only [List.forall_mem_cons] at gone
    have shorter := length_filter_le_unmarked gone.2
    have rest := ih gone.2
    cases stays : m.2 <;> cases kept : keep m.1 <;> simp [unmarked, stays, kept] at *
    · intro same
      have longer := congrArg List.length same
      simp only [List.length_cons, List.length_map] at longer
      omega
    · exact rest
    · exact rest

end Removal

/-! ### The ledger -/

/-- The floats of the runtime. An integer may be too large for one, and a text may not be one. -/
structure Floats (F : Type) where
  ofInt : ℤ → Option F
  ofText : String → Option F
  /-- The value of a constant of the source. -/
  lit : ℕ → F
  add : F → F → F
  lt : F → F → Bool
  /-- The integer that a float equals. -/
  asInt : F → Option ℤ

variable {F : Type}

abbrev Entry (F : Type) := List (String × Json F)

/-- What a set tells apart. A float that equals an integer is that integer's key, and every NaN of a
ledger is the one that the JSON decoder holds. -/
inductive Key (F : Type) where
  | null
  | int (n : ℤ)
  | float (x : F)
  | text (s : String)
deriving DecidableEq

def topicRetentionDays : ℕ := 7
def stuckEntryMaxAgeSeconds : ℕ := 90 * 86400
def retryAfterCapSeconds : ℕ := 60

/-- The classes of `telegram.error`, below an `Exception` of any other kind. -/
inductive TelegramError (F : Type) where
  | badRequest (message : String)
  | forbidden
  | retryAfter (seconds : F)
  | timedOut
  | network
  | other

inductive Failure where
  | notFound
  | permission
  | transient
  | unknown
deriving DecidableEq

def Failure.text : Failure → String
  | notFound => "not_found"
  | permission => "permission"
  | transient => "transient"
  | unknown => "unknown"

/-- How a call of `delete_topic` ends, and how it would end a second time. -/
structure Attempts (F : Type) where
  first : Option (TelegramError F)
  second : Option (TelegramError F)

/-- The parameters of a sweep, and what it finds around itself. -/
structure Sweep (F : Type) where
  floats : Floats F
  /-- `str.lower`. -/
  lower : String → String
  /-- Whether the Telegram library can be imported. -/
  telegram : Bool
  chatId : Option ℤ
  scope : String
  dryRun : Bool
  now : F

structure Result (F : Type) where
  deleted : ℕ
  kept : ℕ
  droppedMismatched : ℕ
  droppedStuck : ℕ
  droppedMalformed : ℕ
  failures : List (Json F × Json F × String)
  needsPermission : Bool
  dryRun : Bool
  targets : List (Json F × Json F)

def Result.counted (r : Result F) : ℕ :=
  r.deleted + r.kept + r.droppedMismatched + r.droppedStuck + r.droppedMalformed

/-- What a sweep has gathered, with the entries for which it has called `delete_topic`. -/
structure Acc (F : Type) where
  result : Result F
  toRemove : List (Key F)
  calls : List (Entry F)

structure Terminal (F : Type) where
  engagementId : String
  chatId : Option ℤ
  topicId : ℤ
  outcome : String
  closedAt : F

inductive Reading (F : Type) where
  | value (x : F)
  | refused
  | overflow

inductive Phase (F : Type) where
  | visiting (todo : List (Entry F)) (acc : Acc F)
  | returned (acc : Acc F)
  | raised (acc : Acc F)

/-- The ledger with the sweep at work on it, the entries that the sweep has counted as kept and those
that were appended meanwhile. -/
structure World (F : Type) where
  ledger : List (Entry F)
  phase : Phase F
  kept : List (Entry F)
  appended : List (Entry F)

inductive Event (F : Type) where
  | go (tries : Attempts F)
  | append (t : Terminal F)

def keptAfter (kept : List (Entry F)) (e : Entry F) (acc acc' : Acc F) : List (Entry F) :=
  if acc'.result.kept = acc.result.kept then kept else kept ++ [e]

section Source
variable (cfg : Sweep F)

/-- `float(value)`. A `TypeError` and a `ValueError` refuse it. -/
def toFloat : Json F → Reading F
  | .bool b => (cfg.floats.ofInt (if b then 1 else 0)).elim .overflow .value
  | .int n => (cfg.floats.ofInt n).elim .overflow .value
  | .float x => .value x
  | .str s => (cfg.floats.ofText s).elim .refused .value
  | _ => .refused

def hashed : Json F → Option (Key F)
  | .null => some .null
  | .bool b => some (.int (if b then 1 else 0))
  | .int n => some (.int n)
  | .float x => some ((cfg.floats.asInt x).elim (.float x) .int)
  | .str s => some (.text s)
  | .arr _ => none
  | .obj _ => none

def engagementId (e : Entry F) : Json F := Json.get e "engagement_id"
def topicId (e : Entry F) : Json F := Json.get e "topic_id"

/-- What `engagement_id` is looked up by. -/
def idKey (e : Entry F) : Option (Key F) := hashed cfg (engagementId e)

def chatKey (e : Entry F) : Option (Key F) := hashed cfg (Json.get e "chat_id")

/-- The seconds of `TOPIC_RETENTION_DAYS`. -/
def retention : F := cfg.floats.lit (topicRetentionDays * 86400)

def effectiveDeleteAfter (e : Entry F) : Reading F :=
  match toFloat cfg (Json.get e "delete_after") with
  | .refused => match toFloat cfg (Json.get e "closed_at") with
    | .value x => .value (cfg.floats.add x (retention cfg))
    | r => r
  | r => r

def notFoundSubstrings : List String := ["message thread not found", "chat not found"]

def permissionSubstrings : List String :=
  ["not enough rights", "need administrator rights", "can_delete_messages"]

def mentions (message : String) (texts : List String) : Bool :=
  texts.any fun s => s.toList <:+: (cfg.lower message).toList

def classifyDeleteError (e : TelegramError F) : Failure :=
  if cfg.telegram then
    match e with
    | .badRequest message =>
      if mentions cfg message notFoundSubstrings then .notFound
      else if mentions cfg message permissionSubstrings then .permission
      else .unknown
    | .forbidden => .permission
    | .retryAfter _ => .transient
    | .timedOut => .transient
    | .network => .transient
    | .other => .unknown
  else .unknown

def deleteWithFloodRetry (tries : Attempts F) : Option Failure × ℕ :=
  match tries.first with
  | none => (none, 1)
  | some (.retryAfter seconds) =>
    if cfg.telegram then
      if cfg.floats.lt (cfg.floats.lit retryAfterCapSeconds) seconds then (some .transient, 1)
      else (tries.second.map (classifyDeleteError cfg), 2)
    else (some .unknown, 1)
  | some e => (some (classifyDeleteError cfg e), 1)

/-- `to_remove.add`, which hashes the id. -/
def forget (e : Entry F) (acc : Acc F) : Except (Acc F) (Acc F) :=
  match idKey cfg e with
  | some key => .ok { acc with toRemove := key :: acc.toRemove }
  | none => .error acc

def emptyResult : Result F := ⟨0, 0, 0, 0, 0, [], false, cfg.dryRun, []⟩

def begin (entries : List (Entry F)) : World F :=
  match cfg.chatId with
  | none =>
    ⟨entries, .returned ⟨{ emptyResult cfg with kept := entries.length }, [], []⟩, entries, []⟩
  | some _ => ⟨entries, .visiting entries ⟨emptyResult cfg, [], []⟩, [], []⟩

variable [DecidableEq F]

def visit (e : Entry F) (tries : Attempts F) (acc : Acc F) : Except (Acc F) (Acc F) :=
  let r := acc.result
  match effectiveDeleteAfter cfg e with
  | .overflow => .error acc
  | .refused =>
    let acc := { acc with result := { r with droppedMalformed := r.droppedMalformed + 1 } }
    if cfg.dryRun then .ok acc else forget cfg e acc
  | .value deleteAfter =>
    if cfg.scope ≠ "all_terminal" ∧ cfg.floats.lt cfg.now deleteAfter then
      .ok { acc with result := { r with kept := r.kept + 1 } }
    else
      if chatKey cfg e = some .null then .ok { acc with result := { r with kept := r.kept + 1 } }
      else if chatKey cfg e ≠ cfg.chatId.map .int then
        let acc := { acc with result := { r with droppedMismatched := r.droppedMismatched + 1 } }
        if cfg.dryRun then .ok acc else forget cfg e acc
      else
        let gone := { r with
          deleted := r.deleted + 1
          targets := r.targets ++ [(engagementId e, topicId e)] }
        if cfg.dryRun then .ok { acc with result := gone }
        else
          let (outcome, n) := deleteWithFloodRetry cfg tries
          let acc := { acc with calls := acc.calls ++ List.replicate n e }
          match outcome with
          | none => forget cfg e { acc with result := gone }
          | some failure =>
            if failure = .notFound then forget cfg e { acc with result := gone }
            else if cfg.floats.lt (cfg.floats.add deleteAfter
                (cfg.floats.lit stuckEntryMaxAgeSeconds)) cfg.now then
              forget cfg e { acc with result := { r with
                needsPermission := r.needsPermission || failure = .permission
                droppedStuck := r.droppedStuck + 1 } }
            else
              .ok { acc with result := { r with
                kept := r.kept + 1
                needsPermission := r.needsPermission || failure = .permission
                failures := r.failures ++ [(engagementId e, topicId e, failure.text)] } }

/-- `remove`: a value without a hash is not looked up. -/
def remove (ids : List (Key F)) (entries : List (Entry F)) :
    Option (List (Entry F)) :=
  if ids = [] then some entries
  else if entries.any fun e => idKey cfg e = none then none
  else some (entries.filter fun e => (idKey cfg e).all fun key => key ∉ ids)

def entryOf (t : Terminal F) : Entry F :=
  [("engagement_id", .str t.engagementId), ("chat_id", Json.ofOption .int t.chatId),
    ("topic_id", .int t.topicId), ("outcome", .str t.outcome), ("closed_at", .float t.closedAt),
    ("delete_after", .float (cfg.floats.add t.closedAt (retention cfg)))]

def isKnown (id : String) (entries : List (Entry F)) : Bool :=
  entries.any fun e => idKey cfg e = some (.text id)

def append (t : Terminal F) (w : World F) : World F :=
  if isKnown cfg t.engagementId w.ledger then w
  else { w with
    ledger := w.ledger ++ [entryOf cfg t]
    appended := w.appended ++ [entryOf cfg t] }

def go (tries : Attempts F) (w : World F) : World F :=
  match w.phase with
  | .visiting (e :: todo) acc => match visit cfg e tries acc with
    | .ok acc' => { w with
        phase := .visiting todo acc'
        kept := keptAfter w.kept e acc acc' }
    | .error acc' => { w with phase := .raised acc' }
  | .visiting [] acc => match remove cfg acc.toRemove w.ledger with
    | some ledger => { w with ledger, phase := .returned acc }
    | none => { w with phase := .raised acc }
  | _ => w

def step (w : World F) : Event F → World F
  | .go tries => go cfg tries w
  | .append t => append cfg t w

def sweepTopics (entries : List (Entry F)) (events : List (Event F)) : World F :=
  events.foldl (step cfg) (begin cfg entries)

end Source

def Phase.acc : Phase F → Acc F
  | .visiting _ acc => acc
  | .returned acc => acc
  | .raised acc => acc

/-! ### What a sweep accounts for -/

/-- The sweep has not raised, and when it has returned, its counters and the ledger account for the
entries that it has seen. -/
structure Accounted (cfg : Sweep F) (entries : List (Entry F)) (w : World F) : Prop where
  raises : ∀ acc, w.phase ≠ .raised acc
  calls : ∀ e ∈ w.phase.acc.calls, ∃ chat, cfg.chatId = some chat ∧
    chatKey cfg e = some (.int chat)
  counts : ∀ acc, w.phase = .returned acc → acc.result.counted = entries.length
  ledger : ∀ acc, w.phase = .returned acc →
    w.ledger = (if cfg.dryRun then entries else w.kept) ++ w.appended

section Condition
variable (cfg : Sweep F)

def IsDue (deleteAfter : F) : Prop :=
  ¬ (cfg.scope ≠ "all_terminal" ∧ cfg.floats.lt cfg.now deleteAfter)

def IsStuck (deleteAfter : F) : Prop :=
  cfg.floats.lt (cfg.floats.add deleteAfter (cfg.floats.lit stuckEntryMaxAgeSeconds)) cfg.now

def CanGo (e : Entry F) : Prop :=
  effectiveDeleteAfter cfg e = .refused ∨
    ∃ deleteAfter, effectiveDeleteAfter cfg e = .value deleteAfter ∧ IsDue cfg deleteAfter ∧
      chatKey cfg e ≠ some .null

def CanStay (e : Entry F) : Prop :=
  ∃ deleteAfter, effectiveDeleteAfter cfg e = .value deleteAfter ∧
    (¬ IsDue cfg deleteAfter ∨ chatKey cfg e = some .null ∨
      (chatKey cfg e = cfg.chatId.map .int ∧ ¬ IsStuck cfg deleteAfter))

/-- Neither of two entries can be removed under the id of the other while that one is kept. -/
def Apart (x y : Entry F) : Prop :=
  (CanGo cfg x ∧ CanStay cfg y) ∨ (CanStay cfg x ∧ CanGo cfg y) → idKey cfg x ≠ idKey cfg y

/-- No number of the ledger is too large for a float, and the ids of the entries tell those that may
be removed from those that may be kept. -/
def Sound (entries : List (Entry F)) : Prop :=
  cfg.chatId = none ∨ (∀ e ∈ entries, effectiveDeleteAfter cfg e ≠ .overflow) ∧
    (cfg.dryRun = true ∨ ((∃ e ∈ entries, CanGo cfg e) → ∀ e ∈ entries, idKey cfg e ≠ none) ∧
      entries.Pairwise (Apart cfg))

end Condition

section Facts
variable {cfg : Sweep F} {e : Entry F} {entries done todo kept appended : List (Entry F)}
  {tries : Attempts F} {acc acc' acc₁ : Acc F} {marks : List (Entry F × Bool)} {w : World F}

def CallsFor (cfg : Sweep F) (e : Entry F) (acc acc' : Acc F) : Prop :=
  ∀ x ∈ acc'.calls, x ∈ acc.calls ∨ (x = e ∧ chatKey cfg e = cfg.chatId.map .int)

inductive Visited (cfg : Sweep F) (e : Entry F) (tries : Attempts F) (acc : Acc F) :
    Except (Acc F) (Acc F) → Prop where
  | overflows (huge : effectiveDeleteAfter cfg e = .overflow) : Visited cfg e tries acc (.error acc)
  | stays {acc' : Acc F} (can : CanStay cfg e) (failed : tries.first = none → ¬ CanGo cfg e)
      (removed : acc'.toRemove = acc.toRemove) (kept : acc'.result.kept = acc.result.kept + 1)
      (counted : acc'.result.counted = acc.result.counted + 1) (calls : CallsFor cfg e acc acc') :
      Visited cfg e tries acc (.ok acc')
  | goes {acc' : Acc F} {key : Key F} (wet : cfg.dryRun = false) (can : CanGo cfg e)
      (past : tries.first = some .forbidden → ¬ CanStay cfg e) (id : idKey cfg e = some key)
      (removed : acc'.toRemove = key :: acc.toRemove) (kept : acc'.result.kept = acc.result.kept)
      (counted : acc'.result.counted = acc.result.counted + 1) (calls : CallsFor cfg e acc acc') :
      Visited cfg e tries acc (.ok acc')
  | unhashable {acc' : Acc F} (wet : cfg.dryRun = false) (can : CanGo cfg e)
      (id : idKey cfg e = none) : Visited cfg e tries acc (.error acc')
  | would {acc' : Acc F} (dry : cfg.dryRun = true) (readable : effectiveDeleteAfter cfg e ≠ .overflow)
      (removed : acc'.toRemove = acc.toRemove) (kept : acc'.result.kept = acc.result.kept)
      (counted : acc'.result.counted = acc.result.counted + 1) (calls : CallsFor cfg e acc acc') :
      Visited cfg e tries acc (.ok acc')

theorem Visited.forget (wet : cfg.dryRun = false) (can : CanGo cfg e)
    (past : tries.first = some .forbidden → ¬ CanStay cfg e)
    (removed : acc₁.toRemove = acc.toRemove) (kept : acc₁.result.kept = acc.result.kept)
    (counted : acc₁.result.counted = acc.result.counted + 1) (calls : CallsFor cfg e acc acc₁) :
    Visited cfg e tries acc (forget cfg e acc₁) := by
  unfold TopicSweep.forget
  cases id : idKey cfg e with
  | none => exact .unhashable wet can id
  | some key =>
    refine .goes wet can past id ?_ kept counted calls
    rw [← removed]

theorem delete_none (ok : tries.first = none) : (deleteWithFloodRetry cfg tries).1 = none := by
  simp [deleteWithFloodRetry, ok]

theorem delete_forbidden (cfg : Sweep F) (fails : tries.first = some .forbidden) :
    ∃ failure, (deleteWithFloodRetry cfg tries).1 = some failure ∧ failure ≠ .notFound := by
  refine ⟨classifyDeleteError cfg .forbidden, by simp [deleteWithFloodRetry, fails], ?_⟩
  cases there : cfg.telegram <;> simp [classifyDeleteError, there]

theorem CallsFor.all (calls : CallsFor cfg e acc acc')
    (before : ∀ x ∈ acc.calls, chatKey cfg x = cfg.chatId.map .int) :
    ∀ x ∈ acc'.calls, chatKey cfg x = cfg.chatId.map .int := by
  intro x called
  rcases calls x called with old | ⟨rfl, same⟩
  · exact before x old
  · exact same

theorem CanStay.readable (can : CanStay cfg e) : effectiveDeleteAfter cfg e ≠ .overflow := by
  obtain ⟨d, value, -⟩ := can
  simp [value]

theorem CanGo.readable (can : CanGo cfg e) : effectiveDeleteAfter cfg e ≠ .overflow := by
  rcases can with refused | ⟨d, value, -⟩
  · simp [refused]
  · simp [value]

theorem idKey_entryOf (t : Terminal F) : idKey cfg (entryOf cfg t) = some (.text t.engagementId) := by
  rfl

def Follows (cfg : Sweep F) (tries : Attempts F) (m : Entry F × Bool) : Prop :=
  (tries.first = none → m.2 = false → ¬ CanGo cfg m.1) ∧
    (tries.first = some .forbidden → m.2 = true → ¬ CanStay cfg m.1)

/-- The accumulators after some entries: those with a mark have been counted for removal. -/
structure Tracks (cfg : Sweep F) (done kept : List (Entry F)) (acc : Acc F)
    (marks : List (Entry F × Bool)) : Prop where
  seen : marks.map Prod.fst = done
  unmarked : cfg.dryRun = false → kept = unmarked marks
  dry : cfg.dryRun = true → acc.toRemove = []
  removed : cfg.dryRun = false →
    ∀ key, key ∈ acc.toRemove ↔ ∃ e, (e, true) ∈ marks ∧ idKey cfg e = some key
  hashable : cfg.dryRun = false → ∀ e, (e, true) ∈ marks → idKey cfg e ≠ none
  goes : cfg.dryRun = false → ∀ e, (e, true) ∈ marks → CanGo cfg e
  stays : cfg.dryRun = false → ∀ e, (e, false) ∈ marks → CanStay cfg e
  counted : acc.result.counted = done.length
  readable : ∀ e ∈ done, effectiveDeleteAfter cfg e ≠ .overflow
  calls : ∀ e ∈ acc.calls, chatKey cfg e = cfg.chatId.map .int

theorem Tracks.visit (tracks : Tracks cfg done kept acc marks)
    (visited : Visited cfg e tries acc (.ok acc')) :
    ∃ gone, Tracks cfg (done ++ [e]) (keptAfter kept e acc acc') acc' (marks ++ [(e, gone)]) ∧
      (cfg.dryRun = false → Follows cfg tries (e, gone)) := by
  have readable (fits : effectiveDeleteAfter cfg e ≠ .overflow) :
      ∀ x ∈ done ++ [e], effectiveDeleteAfter cfg x ≠ .overflow := by
    intro x inside
    simp only [List.mem_append, List.mem_singleton] at inside
    rcases inside with inside | rfl
    · exact tracks.readable x inside
    · exact fits
  cases visited with
  | stays can failed removed same counted calls =>
    have grown : keptAfter kept e acc acc' = kept ++ [e] := if_neg (by omega)
    refine ⟨false, ⟨by simp [tracks.seen], fun wet => ?_, fun dry => ?_, fun wet key => ?_,
      fun wet x inside => ?_, fun wet x inside => ?_, fun wet x inside => ?_, ?_,
      readable can.readable, calls.all tracks.calls⟩, fun _ => ⟨fun ok _ => failed ok, by simp⟩⟩
    · rw [grown, unmarked_concat, ← tracks.unmarked wet]
      rfl
    · rw [removed, tracks.dry dry]
    · simp [removed, tracks.removed wet key]
    · exact tracks.hashable wet x (by simpa using inside)
    · exact tracks.goes wet x (by simpa using inside)
    · simp only [List.mem_append, List.mem_singleton, Prod.mk.injEq, and_true] at inside
      rcases inside with inside | rfl
      · exact tracks.stays wet x inside
      · exact can
    · rw [counted, tracks.counted, List.length_append, List.length_singleton]
  | goes wet can past id removed same counted calls =>
    have grown : keptAfter kept e acc acc' = kept := if_pos same
    refine ⟨true, ⟨by simp [tracks.seen], fun wet => ?_, fun dry => ?_, fun wet key => ?_,
      fun wet x inside => ?_, fun wet x inside => ?_, fun wet x inside => ?_, ?_,
      readable can.readable, calls.all tracks.calls⟩,
      fun _ => ⟨by simp, fun forbidden _ => past forbidden⟩⟩
    · rw [grown, unmarked_concat, ← tracks.unmarked wet]
      simp
    · simp [wet] at dry
    · rw [removed, List.mem_cons, tracks.removed wet key]
      constructor
      · rintro (rfl | ⟨x, inside, is⟩)
        · exact ⟨e, by simp, id⟩
        · exact ⟨x, by simp [inside], is⟩
      · rintro ⟨x, inside, is⟩
        simp only [List.mem_append, List.mem_singleton, Prod.mk.injEq, and_true] at inside
        rcases inside with inside | rfl
        · exact .inr ⟨x, inside, is⟩
        · exact .inl (Option.some.inj (is.symm.trans id))
    · simp only [List.mem_append, List.mem_singleton, Prod.mk.injEq, and_true] at inside
      rcases inside with inside | rfl
      · exact tracks.hashable wet x inside
      · simp [id]
    · simp only [List.mem_append, List.mem_singleton, Prod.mk.injEq, and_true] at inside
      rcases inside with inside | rfl
      · exact tracks.goes wet x inside
      · exact can
    · exact tracks.stays wet x (by simpa using inside)
    · rw [counted, tracks.counted, List.length_append, List.length_singleton]
  | would dry fits removed same counted calls =>
    have never {p : Prop} (wet : cfg.dryRun = false) : p := by simp [dry] at wet
    exact ⟨false, ⟨by simp [tracks.seen], never, fun dry => removed.trans (tracks.dry dry), never,
      never, never, never, by rw [counted, tracks.counted, List.length_append, List.length_singleton],
      readable fits, calls.all tracks.calls⟩, never⟩

theorem Tracks.seen_ids (tracks : Tracks cfg entries kept acc marks) :
    ∀ key ∈ acc.toRemove, ∃ e ∈ entries, CanGo cfg e ∧ idKey cfg e = some key := by
  intro key inside
  cases wet : cfg.dryRun with
  | true => simp [tracks.dry wet] at inside
  | false =>
    obtain ⟨e, marked, is⟩ := (tracks.removed wet key).1 inside
    refine ⟨e, ?_, tracks.goes wet e marked, is⟩
    rw [← tracks.seen]
    exact List.mem_map_of_mem marked

theorem Tracks.wet (tracks : Tracks cfg done kept acc marks) {key : Key F}
    (inside : key ∈ acc.toRemove) : cfg.dryRun = false := by
  cases wet : cfg.dryRun with
  | true => simp [tracks.dry wet] at inside
  | false => rfl

theorem Sound.readable (sound : Sound cfg entries) (there : cfg.chatId ≠ none)
    (inside : e ∈ entries) : effectiveDeleteAfter cfg e ≠ .overflow := by
  rcases sound with none | ⟨readable, -⟩
  · exact absurd none there
  · exact readable e inside

theorem Sound.hashable (sound : Sound cfg entries) (there : cfg.chatId ≠ none)
    (wet : cfg.dryRun = false) {x : Entry F} (present : x ∈ entries) (can : CanGo cfg x)
    (inside : e ∈ entries) : idKey cfg e ≠ none := by
  rcases sound with none | ⟨-, dry | ⟨hashable, -⟩⟩
  · exact absurd none there
  · simp [wet] at dry
  · exact hashable ⟨x, present, can⟩ e inside

theorem apart_symm : Std.Symm (fun a b : Entry F × Bool => Apart cfg a.1 b.1) := by
  constructor
  intro a b apart both same
  rcases both with ⟨go, stay⟩ | ⟨stay, go⟩
  · exact apart (.inr ⟨stay, go⟩) same.symm
  · exact apart (.inl ⟨go, stay⟩) same.symm

theorem Sound.apart (sound : Sound cfg entries) (there : cfg.chatId ≠ none)
    (wet : cfg.dryRun = false) (tracks : Tracks cfg entries kept acc marks) {x y : Entry F}
    (gone : (x, true) ∈ marks) (stays : (y, false) ∈ marks) : idKey cfg x ≠ idKey cfg y := by
  rcases sound with none | ⟨-, dry | ⟨-, apart⟩⟩
  · exact absurd none there
  · simp [wet] at dry
  rw [← tracks.seen, List.pairwise_map] at apart
  have symm : Std.Symm fun a b : Entry F × Bool => Apart cfg a.1 b.1 := apart_symm
  have both : Apart cfg x y := apart.forall gone stays (by simp)
  exact both (.inl ⟨tracks.goes wet x gone, tracks.stays wet y stays⟩)

/-! ### Runs -/

variable [DecidableEq F]

theorem visit_spec (cfg : Sweep F) (e : Entry F) (tries : Attempts F) (acc : Acc F) :
    Visited cfg e tries acc (visit cfg e tries acc) := by
  unfold visit
  cases reading : effectiveDeleteAfter cfg e with
  | overflow => exact .overflows reading
  | refused =>
    dsimp only
    split
    · next dry =>
      exact .would dry (by simp [reading]) rfl rfl (by simp [Result.counted]; omega)
        fun x called => .inl called
    · next wet =>
      have stays : ¬ CanStay cfg e := by
        rintro ⟨d, value, -⟩
        simp [reading] at value
      exact .forget (by simpa using wet) (.inl reading) (fun _ => stays) rfl rfl
        (by simp [Result.counted]; omega) fun x called => .inl called
  | value d =>
    have value_eq {d'} (value : effectiveDeleteAfter cfg e = .value d') : d' = d := by
      rw [reading] at value
      exact (Reading.value.inj value).symm
    dsimp only
    split
    · next early =>
      refine .stays ⟨d, reading, .inl fun due => due early⟩ (fun _ => ?_) rfl rfl
        (by simp [Result.counted]; omega) fun x called => .inl called
      rintro (refused | ⟨d', value, due, -⟩)
      · simp [reading] at refused
      · exact due (value_eq value ▸ early)
    next due =>
    split
    · next null =>
      refine .stays ⟨d, reading, .inr (.inl null)⟩ (fun _ => ?_) rfl rfl
        (by simp [Result.counted]; omega) fun x called => .inl called
      rintro (refused | ⟨d', value, -, chat⟩)
      · simp [reading] at refused
      · exact chat null
    next null =>
    have can : CanGo cfg e := .inr ⟨d, reading, due, null⟩
    split
    · next mismatched =>
      split
      · next dry =>
        exact .would dry (by simp [reading]) rfl rfl (by simp [Result.counted]; omega)
          fun x called => .inl called
      · next wet =>
        refine .forget (by simpa using wet) can (fun _ => ?_) rfl rfl
          (by simp [Result.counted]; omega) fun x called => .inl called
        rintro ⟨d', value, early | chat | ⟨chat, -⟩⟩
        · exact early (value_eq value ▸ due)
        · exact null chat
        · exact mismatched chat
    next same =>
    simp only [ne_eq, not_not] at same
    split
    · next dry =>
      exact .would dry (by simp [reading]) rfl rfl (by simp [Result.counted]; omega)
        fun x called => .inl called
    next wet =>
    have wet : cfg.dryRun = false := by simpa using wet
    have calls {r : Result F} {ids : List (Key F)} :
        CallsFor cfg e acc ⟨r, ids, acc.calls ++ List.replicate (deleteWithFloodRetry cfg tries).2 e⟩ := by
      intro x called
      simp only [List.mem_append, List.mem_replicate] at called
      rcases called with old | ⟨-, rfl⟩
      · exact .inl old
      · exact .inr ⟨rfl, same⟩
    split
    · next outcome =>
      refine .forget wet can (fun forbidden => ?_) rfl rfl (by simp [Result.counted]; omega) calls
      obtain ⟨failure, failed, -⟩ := delete_forbidden cfg forbidden
      simp [outcome] at failed
    · next failure outcome =>
      split
      · next gone =>
        refine .forget wet can (fun forbidden => ?_) rfl rfl (by simp [Result.counted]; omega) calls
        obtain ⟨failure', failed, other⟩ := delete_forbidden cfg forbidden
        rw [outcome] at failed
        exact absurd ((Option.some.inj failed).symm.trans gone) other
      split
      · next stuck =>
        refine .forget wet can (fun _ => ?_) rfl rfl (by simp [Result.counted]; omega) calls
        rintro ⟨d', value, early | chat | ⟨-, fresh⟩⟩
        · exact early (value_eq value ▸ due)
        · exact null chat
        · exact fresh (value_eq value ▸ stuck)
      · next fresh =>
        refine .stays ⟨d, reading, .inr (.inr ⟨same, by simpa [IsStuck] using fresh⟩)⟩
          (fun ok => ?_) rfl rfl (by simp [Result.counted]; omega) calls
        simp [delete_none ok] at outcome

def Fresh (cfg : Sweep F) (entries appended : List (Entry F)) : Prop :=
  ∀ a ∈ appended, ∃ id, idKey cfg a = some (.text id) ∧
    ∀ e ∈ entries, idKey cfg e ≠ some (.text id)

inductive Held (cfg : Sweep F) (entries : List (Entry F)) : World F → Prop where
  | skipped {acc : Acc F} {appended : List (Entry F)} (none : cfg.chatId = none)
      (counted : acc.result.counted = entries.length) (calls : acc.calls = []) :
      Held cfg entries ⟨entries ++ appended, .returned acc, entries, appended⟩
  | visiting {done todo kept appended : List (Entry F)} {acc : Acc F}
      {marks : List (Entry F × Bool)} (there : cfg.chatId ≠ none) (whole : done ++ todo = entries)
      (tracks : Tracks cfg done kept acc marks) (fresh : Fresh cfg entries appended) :
      Held cfg entries ⟨entries ++ appended, .visiting todo acc, kept, appended⟩
  | returned {left kept appended : List (Entry F)} {acc : Acc F} {marks : List (Entry F × Bool)}
      (there : cfg.chatId ≠ none) (tracks : Tracks cfg entries kept acc marks)
      (removed : remove cfg acc.toRemove entries = some left) :
      Held cfg entries ⟨left ++ appended, .returned acc, kept, appended⟩

theorem held_begin (entries : List (Entry F)) : Held cfg entries (begin cfg entries) := by
  unfold begin
  cases chat : cfg.chatId with
  | none =>
    let acc : Acc F := ⟨{ emptyResult cfg with kept := entries.length }, [], []⟩
    have counted : acc.result.counted = entries.length := by
      simp [acc, emptyResult, Result.counted]
    have held : Held cfg entries ⟨entries ++ [], .returned acc, entries, []⟩ :=
      .skipped chat counted rfl
    simpa using held
  | some c =>
    have tracks : Tracks cfg [] [] ⟨emptyResult cfg, [], []⟩ [] := by
      constructor <;> simp [emptyResult, Result.counted, TopicSweep.unmarked]
    have fresh : Fresh cfg entries [] := fun a inside => by simp at inside
    have held := Held.visiting (by simp [chat]) (List.nil_append entries) tracks fresh
    simpa using held

theorem Held.append (held : Held cfg entries w) (t : Terminal F) :
    Held cfg entries (append cfg t w) := by
  unfold TopicSweep.append
  split
  · exact held
  next unknown =>
  cases held with
  | skipped none counted calls =>
    simp only [List.append_assoc]
    exact .skipped none counted calls
  | visiting there whole tracks fresh =>
    simp only [List.append_assoc]
    refine .visiting there whole tracks fun a inside => ?_
    simp only [List.mem_append, List.mem_singleton] at inside
    rcases inside with inside | rfl
    · exact fresh a inside
    · refine ⟨t.engagementId, idKey_entryOf t, fun e inside same => unknown ?_⟩
      simp only [isKnown, List.any_append, Bool.or_eq_true, List.any_eq_true, decide_eq_true_eq]
      exact .inl ⟨e, inside, same⟩
  | returned there tracks removed =>
    simp only [List.append_assoc]
    exact .returned there tracks removed

theorem remove_eq_filter {ids : List (Key F)} {left : List (Entry F)}
    (removed : remove cfg ids entries = some left) :
    left = entries.filter fun e => (idKey cfg e).all fun key => key ∉ ids := by
  unfold remove at removed
  split at removed
  · next none =>
    subst none
    rw [← Option.some.inj removed]
    simp
  · split at removed
    · cases removed
    · exact (Option.some.inj removed).symm

theorem remove_append {ids : List (Key F)} (fresh : Fresh cfg entries appended)
    (seen : ∀ key ∈ ids, ∃ e ∈ entries, idKey cfg e = some key) :
    remove cfg ids (entries ++ appended) = (remove cfg ids entries).map (· ++ appended) := by
  have hashes : (appended.any fun e => idKey cfg e = none) = false := by
    simp only [List.any_eq_false, decide_eq_true_eq]
    intro a inside
    obtain ⟨id, is, -⟩ := fresh a inside
    simp [is]
  have stays : (appended.filter fun e => (idKey cfg e).all fun key => key ∉ ids) = appended := by
    refine List.filter_eq_self.2 fun a inside => ?_
    obtain ⟨id, is, other⟩ := fresh a inside
    rw [is]
    simp only [Option.all_some, decide_eq_true_eq]
    intro known
    obtain ⟨e, inside', same⟩ := seen _ known
    exact other e inside' same
  unfold remove
  rw [List.any_append, hashes, Bool.or_false, List.filter_append, stays]
  split
  · rfl
  · split <;> rfl

theorem unhashable_of_remove {ids : List (Key F)} (fails : remove cfg ids entries = none) :
    (∃ key, key ∈ ids) ∧ ∃ e ∈ entries, idKey cfg e = none := by
  unfold remove at fails
  split at fails
  · cases fails
  next some =>
  split at fails
  · next unhashable =>
    simp only [List.any_eq_true, decide_eq_true_eq] at unhashable
    exact ⟨List.exists_mem_of_ne_nil ids some, unhashable⟩
  · cases fails

theorem Held.go (held : Held cfg entries w) (tries : Attempts F) :
    Held cfg entries (go cfg tries w) ∨
      (∃ acc, (go cfg tries w).phase = .raised acc) ∧ ¬ Sound cfg entries := by
  cases held with
  | skipped none counted calls => exact .inl (.skipped none counted calls)
  | returned there tracks removed => exact .inl (.returned there tracks removed)
  | @visiting done todo kept appended acc marks there whole tracks fresh =>
    cases todo with
    | nil =>
      obtain rfl : done = entries := by simpa using whole
      have seen : ∀ key ∈ acc.toRemove, ∃ e ∈ done, idKey cfg e = some key := by
        intro key inside
        obtain ⟨e, inside', -, is⟩ := tracks.seen_ids key inside
        exact ⟨e, inside', is⟩
      unfold TopicSweep.go
      dsimp only
      rw [remove_append fresh seen]
      cases removed : remove cfg acc.toRemove done with
      | some left => exact .inl (.returned there tracks removed)
      | none =>
        refine .inr ⟨⟨acc, rfl⟩, fun sound => ?_⟩
        obtain ⟨⟨key, inside⟩, e, hidden, unhashable⟩ := unhashable_of_remove removed
        obtain ⟨x, inside', can, -⟩ := tracks.seen_ids key inside
        exact sound.hashable there (tracks.wet inside) inside' can hidden unhashable
    | cons e todo =>
      have visited := visit_spec cfg e tries acc
      unfold TopicSweep.go
      dsimp only
      cases found : visit cfg e tries acc with
      | ok acc' =>
        rw [found] at visited
        obtain ⟨gone, after, -⟩ := tracks.visit visited
        exact .inl (.visiting there (by simp [← whole]) after fresh)
      | error acc' =>
        rw [found] at visited
        refine .inr ⟨⟨acc', rfl⟩, fun sound => ?_⟩
        have inside : e ∈ entries := by simp [← whole]
        cases visited with
        | overflows huge => exact sound.readable there inside huge
        | unhashable wet can id => exact sound.hashable there wet inside can inside id

theorem Held.step (held : Held cfg entries w) (event : Event F) :
    Held cfg entries (step cfg w event) ∨
      (∃ acc, (TopicSweep.step cfg w event).phase = .raised acc) ∧ ¬ Sound cfg entries := by
  cases event with
  | go tries => exact held.go tries
  | append t => exact .inl (held.append t)

theorem Sound.held (sound : Sound cfg entries) (events : List (Event F)) :
    Held cfg entries (sweepTopics cfg entries events) := by
  induction events using List.reverseRecOn with
  | nil => exact held_begin entries
  | append_singleton events event ih =>
    rw [sweepTopics, List.foldl_append]
    rcases ih.step event with held | ⟨-, unsound⟩
    · exact held
    · exact absurd sound unsound

/-- After the removal exactly the entries without a mark are left when no id of theirs is removed. -/
theorem Tracks.filter_iff (tracks : Tracks cfg entries kept acc marks) (wet : cfg.dryRun = false) :
    (entries.filter fun e => (idKey cfg e).all fun key => key ∉ acc.toRemove) = kept ↔
      ∀ x y, (x, true) ∈ marks → (y, false) ∈ marks → idKey cfg x ≠ idKey cfg y := by
  have gone : ∀ m ∈ marks, m.2 = true →
      (fun e => (idKey cfg e).all fun key => decide (key ∉ acc.toRemove)) m.1 = false := by
    rintro ⟨e, gone⟩ inside (rfl : gone = true)
    obtain ⟨key, is⟩ := Option.ne_none_iff_exists'.1 (tracks.hashable wet e inside)
    have removed := (tracks.removed wet key).2 ⟨e, inside, is⟩
    simp [is, removed]
  rw [tracks.unmarked wet]
  have left := @filter_eq_unmarked_iff _
    (fun e => (idKey cfg e).all fun key => decide (key ∉ acc.toRemove)) marks gone
  rw [tracks.seen] at left
  refine left.trans ?_
  constructor
  · rintro keeps x y marked stays same
    obtain ⟨key, is⟩ := Option.ne_none_iff_exists'.1 (tracks.hashable wet x marked)
    have kept := keeps (y, false) stays rfl
    have removed := (tracks.removed wet key).2 ⟨x, marked, is⟩
    simp [← same, is, removed] at kept
  · rintro apart ⟨y, stays⟩ inside (rfl : stays = false)
    simp only [Option.all_eq_true, decide_eq_true_eq]
    intro key is removed
    obtain ⟨x, marked, is'⟩ := (tracks.removed wet key).1 removed
    exact apart x y marked inside (is'.trans is.symm)

theorem Sound.accounted (sound : Sound cfg entries) (held : Held cfg entries w) :
    Accounted cfg entries w := by
  cases held with
  | skipped none counted calls =>
    refine ⟨by simp, by simp [Phase.acc, calls], ?_, by simp⟩
    rintro _ ⟨⟩
    exact counted
  | visiting there whole tracks fresh =>
    refine ⟨by simp, fun e called => ?_, by simp, by simp⟩
    obtain ⟨chat, is⟩ := Option.ne_none_iff_exists'.1 there
    refine ⟨chat, is, ?_⟩
    rw [tracks.calls e called, is]
    rfl
  | @returned left kept appended acc marks there tracks removed =>
    refine ⟨by simp, fun e called => ?_, ?_, fun _ _ => ?_⟩
    · obtain ⟨chat, is⟩ := Option.ne_none_iff_exists'.1 there
      refine ⟨chat, is, ?_⟩
      rw [tracks.calls e called, is]
      rfl
    · rintro _ ⟨⟩
      exact tracks.counted
    · have filtered := remove_eq_filter removed
      dsimp only
      cases wet : cfg.dryRun with
      | true =>
        rw [tracks.dry wet] at filtered
        simp [filtered]
      | false =>
        rw [if_neg (by simp), filtered,
          (tracks.filter_iff wet).2 fun x y gone stays => sound.apart there wet tracks gone stays]

theorem rounds (calm : ∀ events, Accounted cfg entries (sweepTopics cfg entries events))
    (there : cfg.chatId ≠ none) (tries : List (Attempts F)) {done todo : List (Entry F)}
    (whole : done ++ todo = entries) (length : tries.length = done.length) :
    ∃ kept acc marks,
      sweepTopics cfg entries (tries.map .go) = ⟨entries, .visiting todo acc, kept, []⟩ ∧
        Tracks cfg done kept acc marks ∧
        (cfg.dryRun = false → List.Forall₂ (Follows cfg) tries marks) := by
  induction tries using List.reverseRecOn generalizing done todo with
  | nil =>
    obtain rfl : done = [] := by simpa using length.symm
    obtain rfl : todo = entries := by simpa using whole
    obtain ⟨chat, is⟩ := Option.ne_none_iff_exists'.1 there
    refine ⟨[], ⟨emptyResult cfg, [], []⟩, [], ?_, ?_, fun _ => .nil⟩
    · simp [sweepTopics, begin, is]
    · constructor <;> simp [emptyResult, Result.counted, TopicSweep.unmarked]
  | append_singleton tries last ih =>
    induction done using List.reverseRecOn with
    | nil => simp at length
    | append_singleton done e _ =>
      have shorter : tries.length = done.length := by simpa using length
      obtain ⟨kept, acc, marks, reached, tracks, follow⟩ :=
        @ih done (e :: todo) (by simpa using whole) shorter
      have calm' := calm ((tries ++ [last]).map .go)
      rw [List.map_append, sweepTopics, List.foldl_append] at calm' ⊢
      rw [sweepTopics] at reached
      rw [reached] at calm' ⊢
      simp only [List.map_cons, List.map_nil, List.foldl_cons, List.foldl_nil, step, go] at calm' ⊢
      have visited := visit_spec cfg e last acc
      cases found : visit cfg e last acc with
      | error acc' =>
        rw [found] at calm'
        exact absurd rfl (calm'.raises acc')
      | ok acc' =>
        rw [found] at visited
        obtain ⟨gone, after, fits⟩ := tracks.visit visited
        exact ⟨_, acc', _, rfl, after, fun wet =>
          List.rel_append (follow wet) (.cons (fits wet) .nil)⟩

theorem complete (calm : ∀ events, Accounted cfg entries (sweepTopics cfg entries events))
    (there : cfg.chatId ≠ none) (tries : List (Attempts F))
    (length : tries.length = entries.length) :
    ∃ kept acc marks, Tracks cfg entries kept acc marks ∧
      (cfg.dryRun = false → List.Forall₂ (Follows cfg) tries marks) ∧
      (acc.toRemove ≠ [] → ∀ e ∈ entries, idKey cfg e ≠ none) ∧
      (cfg.dryRun = false →
        ∀ x y, (x, true) ∈ marks → (y, false) ∈ marks → idKey cfg x ≠ idKey cfg y) := by
  obtain ⟨kept, acc, marks, reached, tracks, follow⟩ :=
    rounds calm there tries (List.append_nil entries) length
  have calm' := calm (tries.map .go ++ [.go ⟨none, none⟩])
  rw [sweepTopics] at reached
  rw [sweepTopics, List.foldl_append, reached] at calm'
  simp only [List.foldl_cons, List.foldl_nil, step, go] at calm'
  cases removed : remove cfg acc.toRemove entries with
  | none =>
    rw [removed] at calm'
    exact absurd rfl (calm'.raises acc)
  | some left =>
    rw [removed] at calm'
    refine ⟨kept, acc, marks, tracks, follow, fun some e inside none => ?_, fun wet => ?_⟩
    · have unhashable : (entries.any fun e => idKey cfg e = Option.none) = true :=
        List.any_eq_true.2 ⟨e, inside, by simpa using none⟩
      rw [remove, if_neg some, if_pos unhashable] at removed
      cases removed
    · have same := calm'.ledger acc rfl
      simp only [wet, List.append_nil, Bool.false_eq_true, if_false] at same
      rw [remove_eq_filter removed] at same
      exact (tracks.filter_iff wet).1 same

def onlyAt (i n : ℕ) : List (Attempts F) :=
  (List.range n).map fun k => ⟨if k = i then none else some .forbidden, none⟩

theorem told_apart (calm : ∀ events, Accounted cfg entries (sweepTopics cfg entries events))
    (there : cfg.chatId ≠ none) (wet : cfg.dryRun = false) {i j : ℕ} (hi : i < entries.length)
    (hj : j < entries.length) (other : j ≠ i) (can : CanGo cfg entries[i])
    (stay : CanStay cfg entries[j]) : idKey cfg entries[i] ≠ idKey cfg entries[j] := by
  obtain ⟨kept, acc, marks, tracks, follow, -, apart⟩ :=
    complete calm there (onlyAt i entries.length) (by simp [onlyAt])
  obtain ⟨same, fits⟩ := List.forall₂_iff_get.1 (follow wet)
  have length : marks.length = entries.length := by rw [← same]; simp [onlyAt]
  have first (k : ℕ) (hk : k < entries.length) : marks[k].1 = entries[k] := by
    simp [← tracks.seen]
  have fit (k : ℕ) (hk : k < entries.length) :
      Follows cfg ⟨if k = i then none else some .forbidden, none⟩ marks[k] := by
    have fits' := fits k (by simpa [onlyAt] using hk) (by omega)
    simpa [onlyAt] using fits'
  have gone : marks[i].2 = true := by
    by_contra stays
    refine (fit i hi).1 (by simp) (by simpa using stays) ?_
    rw [first i hi]
    exact can
  have stays : marks[j].2 = false := by
    by_contra gone
    refine (fit j hj).2 (by simp [other]) (by simpa using gone) ?_
    rw [first j hj]
    exact stay
  refine apart wet _ _ ?_ ?_
  · rw [← first i hi, ← gone]
    exact List.getElem_mem _
  · rw [← first j hj, ← stays]
    exact List.getElem_mem _

theorem sound_of_accounted
    (calm : ∀ events, Accounted cfg entries (sweepTopics cfg entries events)) :
    Sound cfg entries := by
  by_cases there : cfg.chatId = none
  · exact .inl there
  obtain ⟨kept, acc, marks, tracks, follow, hashable, -⟩ :=
    complete calm there (List.replicate entries.length ⟨none, none⟩) (by simp)
  refine .inr ⟨tracks.readable, ?_⟩
  cases wet : cfg.dryRun with
  | true => exact .inl rfl
  | false =>
    refine .inr ⟨?_, ?_⟩
    · rintro ⟨e, inside, can⟩
      refine hashable fun none => ?_
      rw [← tracks.seen] at inside
      obtain ⟨⟨x, gone⟩, marked, rfl⟩ := List.mem_map.1 inside
      obtain ⟨k, hk, at'⟩ := List.getElem_of_mem marked
      obtain ⟨same, fits⟩ := List.forall₂_iff_get.1 (follow wet)
      have fit := fits k (by omega) hk
      rw [List.get_eq_getElem, List.get_eq_getElem, at'] at fit
      cases gone with
      | false => exact fit.1 (by simp) rfl can
      | true =>
        obtain ⟨key, is⟩ := Option.ne_none_iff_exists'.1 (tracks.hashable wet x marked)
        have removed := (tracks.removed wet key).2 ⟨x, marked, is⟩
        simp [none] at removed
    · refine List.pairwise_iff_getElem.2 fun i j hi hj less => ?_
      rintro (⟨can, stay⟩ | ⟨stay, can⟩)
      · exact told_apart calm there wet hi hj (by omega) can stay
      · exact (told_apart calm there wet hj hi (by omega) can stay).symm

/-- A sweep accounts for its ledger, whatever the deletions and the appends, when the ledger is
sound and only then. -/
theorem accounted_iff (cfg : Sweep F) (entries : List (Entry F)) :
    (∀ events, Accounted cfg entries (sweepTopics cfg entries events)) ↔ Sound cfg entries :=
  ⟨sound_of_accounted, fun sound events => sound.accounted (sound.held events)⟩

end Facts
/-! ### Entries without an id -/

def smallFloats : Floats ℤ :=
  ⟨fun n => if n.natAbs < 2 ^ 53 then some n else none, fun _ => none, fun n => n, (· + ·),
    fun x y => x < y, some⟩

def dueSweep : Sweep ℤ := ⟨smallFloats, id, true, some 5, "due", false, 1000⟩

def unnamedEntries : List (Entry ℤ) := [[], [("delete_after", .int 0)]]

def quietEvents : List (Event ℤ) := List.replicate 3 (.go ⟨none, none⟩)

/-- The second entry is counted as kept and removed with the first one. -/
theorem kept_entry_is_removed :
    ¬ ∀ events, Accounted dueSweep unnamedEntries (sweepTopics dueSweep unnamedEntries events) := by
  intro calm
  have ledger := (calm quietEvents).ledger
  have returned := ledger _ rfl
  have gone : (sweepTopics dueSweep unnamedEntries quietEvents).ledger = [] := rfl
  rw [gone] at returned
  cases returned

end Casa.TopicSweep
