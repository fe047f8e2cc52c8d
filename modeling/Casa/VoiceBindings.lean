import Casa.StepRuns
import Casa.VoiceRoutes

/-! Which connection holds which voice route, over any order of registrations, touches and
disconnects, and for how long a route counts as capable once its connection is gone. -/

namespace Casa.VoiceBindings
open KeyedTable Table PythonValue VoiceRoutes
open StepRuns (Runs)

section Model
variable {T : Type} [LinearOrder T] [Sub T]

/-- `is_recently_capable`, which reads the clock twice where the route is not connected. -/
def isRecentlyCapable (cfg : RouteSettings T) (routes : Routes T) (pruned now : T)
    (routeId : String) : Bool × Routes T :=
  match routes.connected.get? routeId with
  | some bound => (routeCapabilities.all (· ∈ bound.capabilities), routes)
  | none =>
      let routes := pruneExpiredMetadata cfg routes pruned
      (match routes.metadata.get? routeId with
        | some row => routeCapabilities.all (· ∈ row.capabilities) &&
            decide (now - row.lastSeen ≤ cfg.freshnessS)
        | none => false,
      routes)

/-- A call of the registry, with the readings of the clock that it can make. The roles are those
configured at the time. -/
inductive Call (T : Type) where
  | register (voiceRole : String → Bool) (cleared pruned now : T) (connection : ℕ)
      (frame : List (String × Json T))
  | touch (now : T) (connection : ℕ)
  | disconnect (now : T) (connection : ℕ)
  | isRecentlyCapable (pruned now : T) (routeId : String)

/-- The registry, the last reading of its clock, and when each route was last seen bound. -/
structure Watched (T : Type) where
  routes : Routes T
  clock : T
  boundAt : String → Option T

def Watched.init (start : T) : Watched T := ⟨.init, start, fun _ => none⟩

def Watched.sighting (w : Watched T) (now : T) (connection : ℕ) : String → Option T :=
  match ownBinding w.routes connection with
  | some bound => Function.update w.boundAt bound.routeId (some now)
  | none => w.boundAt

def step (cfg : RouteSettings T) : Call T → Watched T → Watched T
  | .register voiceRole cleared pruned now connection frame, w =>
      match register { cfg with voiceRole } w.routes cleared pruned now connection frame with
      | (some bound, routes) =>
          ⟨routes, now, Function.update (w.sighting cleared connection) bound.routeId (some now)⟩
      | (none, routes) => { w with routes }
  | .touch now connection, w =>
      ⟨touch w.routes now connection, now, w.sighting now connection⟩
  | .disconnect now connection, w =>
      ⟨(disconnect w.routes now connection).2, now, w.sighting now connection⟩
  | .isRecentlyCapable pruned now routeId, w =>
      ⟨(isRecentlyCapable cfg w.routes pruned now routeId).2, now, w.boundAt⟩

def Onward : Call T → Watched T → Prop
  | .register _ cleared pruned now _ _, w => w.clock ≤ cleared ∧ cleared ≤ pruned ∧ pruned ≤ now
  | .touch now _, w | .disconnect now _, w => w.clock ≤ now
  | .isRecentlyCapable pruned now _, w => w.clock ≤ pruned ∧ pruned ≤ now

end Model

/-! ### The fields and the table agree -/

def fieldsOf (bound : BoundVoiceRoute) : ConnectionFields :=
  ⟨some bound.routeId, some bound.role, bound.capabilities, some bound.jobControlId⟩

structure Linked (connected : Table BoundVoiceRoute.routeId) (fields : ℕ → ConnectionFields) :
    Prop where
  written : ∀ r b, connected.get? r = some b → fields b.connection = fieldsOf b
  claimed : ∀ c r, (fields c).voiceRouteId = some r →
    ∃ b, connected.get? r = some b ∧ b.connection = c
  full : ∀ r b, connected.get? r = some b → b.capabilities = routeCapabilities

namespace Linked
variable {connected : Table BoundVoiceRoute.routeId} {fields : ℕ → ConnectionFields}

section
variable (linked : Linked connected fields)
include linked

theorem holds_iff (c : ℕ) (r : String) :
    (fields c).voiceRouteId = some r ↔ ∃ b, connected.get? r = some b ∧ b.connection = c := by
  constructor
  · exact linked.claimed c r
  · rintro ⟨b, found, rfl⟩
    rw [linked.written r b found, ← key_of_get? found]
    rfl

theorem route_unique {r s : String} {a b : BoundVoiceRoute}
    (first : connected.get? r = some a) (second : connected.get? s = some b)
    (same : a.connection = b.connection) : r = s := by
  have one := (linked.holds_iff b.connection r).mpr ⟨a, first, same⟩
  have two := (linked.holds_iff b.connection s).mpr ⟨b, second, rfl⟩
  exact Option.some.inj (one.symm.trans two)

theorem release {b : BoundVoiceRoute} (held : connected.get? b.routeId = some b) :
    Linked (connected.remove b.routeId) (Function.update fields b.connection {}) := by
  constructor
  · intro r a found
    have away : b.routeId ≠ r ∧ connected.get? r = some a := by grind
    have other : a.connection ≠ b.connection := fun same =>
      away.1 (linked.route_unique away.2 held same).symm
    rw [Function.update_of_ne other]
    exact linked.written r a away.2
  · intro c r claim
    have other : c ≠ b.connection := by
      rintro rfl
      simp at claim
    rw [Function.update_of_ne other] at claim
    obtain ⟨a, found, same⟩ := linked.claimed c r claim
    have away : b.routeId ≠ r := by grind
    exact ⟨a, by simp [get?_remove, away, found], same⟩
  · intro r a found
    exact linked.full r a (by grind)

theorem clear {c : ℕ}
    (free : (fields c).voiceRouteId = none) : Linked connected (Function.update fields c {}) := by
  constructor
  · intro r b found
    have other : b.connection ≠ c := by
      rintro rfl
      rw [linked.written r b found] at free
      cases free
    rw [Function.update_of_ne other]
    exact linked.written r b found
  · intro c' r claim
    have other : c' ≠ c := by
      rintro rfl
      simp at claim
    rw [Function.update_of_ne other] at claim
    exact linked.claimed c' r claim
  · exact linked.full

theorem take {b : BoundVoiceRoute}
    (full : b.capabilities = routeCapabilities) (free : (fields b.connection).voiceRouteId = none)
    (vacant : ∀ c, (fields c).voiceRouteId ≠ some b.routeId) :
    Linked (connected.put b) (Function.update fields b.connection (fieldsOf b)) := by
  constructor
  · intro r a found
    rw [get?_put] at found
    split at found
    · cases found
      exact Function.update_self _ _ _
    · have away : a.connection ≠ b.connection := by
        intro same
        rw [← same, linked.written r a found] at free
        cases free
      rw [Function.update_of_ne away]
      exact linked.written r a found
  · intro c r claim
    by_cases same : c = b.connection
    · subst same
      rw [Function.update_self, fieldsOf, Option.some.injEq] at claim
      exact ⟨b, by simp [← claim], rfl⟩
    · rw [Function.update_of_ne same] at claim
      obtain ⟨a, found, conn⟩ := linked.claimed c r claim
      have away : b.routeId ≠ r := fun eq => vacant c (eq ▸ claim)
      exact ⟨a, by simp [get?_put, away, found], conn⟩
  · intro r a found
    rw [get?_put] at found
    split at found
    · cases found
      exact full
    · exact linked.full r a found

theorem congr {other : Table BoundVoiceRoute.routeId}
    (same : ∀ r, other.get? r = connected.get? r) : Linked other fields where
  written r b found := linked.written r b (same r ▸ found)
  claimed c r claim := (same r).symm ▸ linked.claimed c r claim
  full r b found := linked.full r b (same r ▸ found)

theorem takeover {b : BoundVoiceRoute} (full : b.capabilities = routeCapabilities)
    (free : (fields b.connection).voiceRouteId = none) :
    Linked (connected.put b) (Function.update (match connected.get? b.routeId with
      | some old => Function.update fields old.connection {}
      | none => fields) b.connection (fieldsOf b)) := by
  cases held : connected.get? b.routeId with
  | none =>
    refine linked.take full free fun c claim => ?_
    obtain ⟨a, found, -⟩ := linked.claimed c _ claim
    simp [held] at found
  | some old =>
    have key := key_of_get? held
    have rest := linked.release (key.symm ▸ held : connected.get? old.routeId = some old)
    have away : b.connection ≠ old.connection := by
      intro same
      rw [same, linked.written _ old held] at free
      cases free
    refine (rest.take full ?_ fun c claim => ?_).congr fun r => ?_
    · rwa [Function.update_of_ne away]
    · obtain ⟨a, found, -⟩ := rest.claimed c _ claim
      simp [get?_remove, key] at found
    · simp only [get?_put, get?_remove, key]
      split <;> rfl

end

end Linked

/-! ### Metadata outlasts its binding for as long as it is fresh -/

/-- The metadata of a route dates from its last sighting, and is missing only where there was none
or that one is stale. -/
structure Dated {T : Type} [LinearOrder T] [Sub T] (freshnessS : T)
    (connected : Table BoundVoiceRoute.routeId) (metadata : Table (@RouteMetadata.routeId T))
    (clock : T) (boundAt : String → Option T) : Prop where
  kept : ∀ r b, connected.get? r = some b → (metadata.get? r).isSome
  capable : ∀ r row, metadata.get? r = some row → row.capabilities = routeCapabilities
  dated : ∀ r row, metadata.get? r = some row → boundAt r = some row.lastSeen
  stale : ∀ r t, metadata.get? r = none → boundAt r = some t → freshnessS < clock - t

namespace Dated
variable {T : Type} [LinearOrder T] [Sub T] {freshnessS : T}
  {connected : Table BoundVoiceRoute.routeId} {metadata : Table (@RouteMetadata.routeId T)}
  {clock : T} {boundAt : String → Option T}

section
variable (dated : Dated freshnessS connected metadata clock boundAt)
include dated

theorem wait (later : ∀ a b c : T, a ≤ b → a - c ≤ b - c) {now : T} (on : clock ≤ now) :
    Dated freshnessS connected metadata now boundAt where
  kept := dated.kept
  capable := dated.capable
  dated := dated.dated
  stale r t gone at_ := (dated.stale r t gone at_).trans_le (later _ _ _ on)

theorem remove (r : String) : Dated freshnessS (connected.remove r) metadata clock boundAt where
  kept s b found := dated.kept s b (by grind)
  capable := dated.capable
  dated := dated.dated
  stale := dated.stale

theorem put {r : RouteMetadata T} (full : r.capabilities = routeCapabilities) :
    Dated freshnessS connected (metadata.put r) clock
      (Function.update boundAt r.routeId (some r.lastSeen)) where
  kept s b found := by
    rw [get?_put]
    split
    · rfl
    · exact dated.kept s b found
  capable s other found := by
    have := dated.capable s other
    grind
  dated s other found := by
    have := dated.dated s other
    grind [Function.update_apply]
  stale s t gone at_ := by
    have := dated.stale s t
    grind [Function.update_apply]

theorem see {r : String} {row : RouteMetadata T} (known : metadata.get? r = some row) (now : T) :
    Dated freshnessS connected (metadata.put { row with lastSeen := now }) clock
      (Function.update boundAt r (some now)) := by
  obtain rfl := key_of_get? known
  exact dated.put (dated.capable _ row known)

theorem connect {b : BoundVoiceRoute} (known : (metadata.get? b.routeId).isSome) :
    Dated freshnessS (connected.put b) metadata clock boundAt where
  kept r a found := by
    rw [get?_put] at found
    split at found
    · next same => exact same ▸ known
    · exact dated.kept r a found
  capable := dated.capable
  dated := dated.dated
  stale := dated.stale

end

theorem get?_filter {K V : Type} {key : V → K} [DecidableEq K] (t : Table key) (keep : V → Bool)
    (k : K) : (t.filter keep).get? k = (t.get? k).filter keep := by
  apply Option.ext
  intro v
  rw [get?_eq_some_iff, mem_filter, Option.filter_eq_some_iff, get?_eq_some_iff]
  grind

theorem prune (dated : Dated freshnessS connected metadata clock boundAt) :
    Dated freshnessS connected (metadata.filter fun row =>
      (connected.get? row.routeId).isSome || !decide (freshnessS < clock - row.lastSeen))
      clock boundAt where
  kept r b found := by
    obtain ⟨row, known⟩ := Option.isSome_iff_exists.mp (dated.kept r b found)
    have key := key_of_get? known
    simp [get?_filter, known, key, found]
  capable r row found := by
    rw [get?_filter, Option.filter_eq_some_iff] at found
    exact dated.capable r row found.1
  dated r row found := by
    rw [get?_filter, Option.filter_eq_some_iff] at found
    exact dated.dated r row found.1
  stale r t gone at_ := by
    cases known : metadata.get? r with
    | none => exact dated.stale r t known at_
    | some row =>
      have seen := dated.dated r row known
      rw [at_, Option.some.injEq] at seen
      rw [get?_filter, known, Option.filter_some] at gone
      have both : connected.get? row.routeId = none ∧ freshnessS < clock - row.lastSeen := by
        simpa using gone
      exact seen ▸ both.2

end Dated

/-! ### Every call keeps both -/

section Calls
variable {T : Type} [LinearOrder T] [Sub T] {cfg : RouteSettings T}

structure Sound (freshnessS : T) (w : Watched T) : Prop where
  linked : Linked w.routes.connected w.routes.fields
  dated : Dated freshnessS w.routes.connected w.routes.metadata w.clock w.boundAt

theorem Sound.init (freshnessS start : T) : Sound freshnessS (Watched.init start) := by
  constructor <;> constructor <;> intros <;> contradiction

omit [LinearOrder T] [Sub T] in
theorem ownBinding_eq_some {routes : Routes T} {c : ℕ} {b : BoundVoiceRoute}
    (own : ownBinding routes c = some b) :
    routes.connected.get? b.routeId = some b ∧ b.connection = c := by
  obtain ⟨found, same⟩ := Option.filter_eq_some_iff.mp own
  obtain ⟨r, -, here⟩ := Option.bind_eq_some_iff.mp found
  exact ⟨key_of_get? here ▸ here, by simpa using same⟩

theorem Sound.free {freshnessS : T} {w : Watched T} (sound : Sound freshnessS w) {c : ℕ}
    (own : ownBinding w.routes c = none) : (w.routes.fields c).voiceRouteId = none := by
  cases claim : (w.routes.fields c).voiceRouteId with
  | none => rfl
  | some r =>
    obtain ⟨b, found, same⟩ := sound.linked.claimed c r claim
    simp [ownBinding, claim, found, same] at own

variable (later : ∀ a b c : T, a ≤ b → a - c ≤ b - c)
include later

theorem Sound.touch {w : Watched T} (sound : Sound cfg.freshnessS w) {now : T} (c : ℕ)
    (on : w.clock ≤ now) :
    Sound cfg.freshnessS ⟨VoiceRoutes.touch w.routes now c, now, w.sighting now c⟩ := by
  have dated := sound.dated.wait later on
  unfold VoiceRoutes.touch Watched.sighting
  cases own : ownBinding w.routes c with
  | none => exact ⟨sound.linked, dated⟩
  | some b =>
    obtain ⟨row, known⟩ :=
      Option.isSome_iff_exists.mp (dated.kept _ b (ownBinding_eq_some own).1)
    simp only [seen, known]
    exact ⟨sound.linked, dated.see known now⟩

theorem Sound.clear {w : Watched T} (sound : Sound cfg.freshnessS w) {now : T} (c : ℕ)
    (on : w.clock ≤ now) :
    Sound cfg.freshnessS ⟨clearConnectionBinding w.routes now c, now, w.sighting now c⟩ ∧
      ((clearConnectionBinding w.routes now c).fields c).voiceRouteId = none := by
  have dated := sound.dated.wait later on
  unfold clearConnectionBinding Watched.sighting
  cases own : ownBinding w.routes c with
  | none => exact ⟨⟨sound.linked.clear (sound.free own), dated⟩, by simp [clearConnectionFields]⟩
  | some b =>
    obtain ⟨held, same⟩ := ownBinding_eq_some own
    obtain ⟨row, known⟩ := Option.isSome_iff_exists.mp (dated.kept _ b held)
    simp only [seen, known, clearConnectionFields]
    subst same
    exact ⟨⟨sound.linked.release held, (dated.remove b.routeId).see known now⟩, by simp⟩

theorem Sound.prune {w : Watched T} (sound : Sound cfg.freshnessS w) {now : T}
    (on : w.clock ≤ now) :
    Sound cfg.freshnessS ⟨pruneExpiredMetadata cfg w.routes now, now, w.boundAt⟩ :=
  ⟨sound.linked, (sound.dated.wait later on).prune⟩

theorem Sound.disconnect {w : Watched T} (sound : Sound cfg.freshnessS w) {now : T} (c : ℕ)
    (on : w.clock ≤ now) :
    Sound cfg.freshnessS ⟨(VoiceRoutes.disconnect w.routes now c).2, now, w.sighting now c⟩ := by
  unfold VoiceRoutes.disconnect
  cases claim : (w.routes.fields c).voiceRouteId with
  | none =>
    have own : ownBinding w.routes c = none := by simp [ownBinding, claim]
    simp only [Watched.sighting, own]
    exact ⟨sound.linked, sound.dated.wait later on⟩
  | some r => exact (sound.clear later c on).1

omit later in
theorem register_cases (cfg : RouteSettings T) (routes : Routes T) (cleared pruned now : T) (c : ℕ)
    (frame : List (String × Json T)) :
    register cfg routes cleared pruned now c frame = (none, routes) ∨
      ∃ routeId role, register cfg routes cleared pruned now c frame =
        (some (bindRoute cfg routes cleared pruned now c routeId role).1,
          (bindRoute cfg routes cleared pruned now c routeId role).2) := by
  unfold register
  split
  · next routeId role _ _ =>
    split
    · exact .inr ⟨routeId, role, rfl⟩
    · exact .inl rfl
  · exact .inl rfl

theorem Sound.bindRoute {w : Watched T} (sound : Sound cfg.freshnessS w) {cleared pruned now : T}
    (first : w.clock ≤ cleared) (second : cleared ≤ pruned) (third : pruned ≤ now) (c : ℕ)
    (routeId role : String) :
    Sound cfg.freshnessS ⟨(VoiceRoutes.bindRoute cfg w.routes cleared pruned now c routeId role).2,
      now, Function.update (w.sighting cleared c) routeId (some now)⟩ := by
  obtain ⟨released, free⟩ := sound.clear later c first
  have ready := released.prune later second
  simp only [VoiceRoutes.bindRoute]
  have unbound : ((pruneExpiredMetadata cfg (clearConnectionBinding w.routes cleared c)
    pruned).fields c).voiceRouteId = none := free
  generalize pruneExpiredMetadata cfg (clearConnectionBinding w.routes cleared c) pruned = routes
    at ready unbound
  have dated := (ready.dated.wait later third).put
    (r := ⟨routeId, role, routeCapabilities, now⟩) rfl
  have linked : Linked routes.connected routes.fields := ready.linked
  have taken := linked.takeover
    (b := ⟨routes.nextRef, routeId, role, routeCapabilities, routeId, c⟩) rfl unbound
  have known := dated.connect (b := ⟨routes.nextRef, routeId, role, routeCapabilities, routeId, c⟩)
    (by simp)
  cases old : routes.connected.get? routeId with
  | none =>
    rw [old] at taken
    exact ⟨taken, known⟩
  | some o =>
    rw [old] at taken
    have away : o.connection ≠ c := by
      rintro rfl
      rw [linked.written _ o old] at unbound
      cases unbound
    simp only [if_pos away, clearConnectionFields]
    exact ⟨taken, known⟩

theorem Sound.step {w : Watched T} (sound : Sound cfg.freshnessS w) {call : Call T}
    (on : Onward call w) : Sound cfg.freshnessS (step cfg call w) := by
  cases call with
  | register voiceRole cleared pruned now c frame =>
    obtain ⟨first, second, third⟩ := on
    rcases register_cases { cfg with voiceRole } w.routes cleared pruned now c frame with
      refused | ⟨routeId, role, accepted⟩
    · simp only [VoiceBindings.step, refused]
      exact sound
    · simp only [VoiceBindings.step, accepted]
      exact sound.bindRoute later first second third c routeId role
  | touch now c => exact sound.touch later c on
  | disconnect now c => exact sound.disconnect later c on
  | isRecentlyCapable pruned now r =>
    simp only [VoiceBindings.step, isRecentlyCapable]
    split
    · exact ⟨sound.linked, sound.dated.wait later (on.1.trans on.2)⟩
    · have pruned := sound.prune later on.1
      exact ⟨pruned.linked, pruned.dated.wait later on.2⟩

theorem Sound.recent_iff {w : Watched T} (sound : Sound cfg.freshnessS w) {pruned now : T}
    (first : w.clock ≤ pruned) (second : pruned ≤ now) (r : String) :
    (isRecentlyCapable cfg w.routes pruned now r).1 = true ↔
      (w.routes.connected.get? r).isSome ∨
        ∃ t, w.boundAt r = some t ∧ now - t ≤ cfg.freshnessS := by
  unfold isRecentlyCapable
  cases held : w.routes.connected.get? r with
  | some b => simp [sound.linked.full r b held]
  | none =>
    have dated := (sound.prune later first).dated.wait later second
    simp only [Option.isSome_none, Bool.false_eq_true, false_or]
    generalize (pruneExpiredMetadata cfg w.routes pruned).metadata = metadata at dated
    cases known : metadata.get? r with
    | none =>
      simp only [Bool.false_eq_true, false_iff, not_exists, not_and, not_le]
      exact fun t at_ => dated.stale r t known at_
    | some row =>
      have at_ : w.boundAt r = some row.lastSeen := dated.dated r row known
      simp [dated.capable r row known, at_]

/-- What a state of the registry says of its connections, its metadata and its next call. -/
structure Settled (cfg : RouteSettings T) (w : Watched T) : Prop where
  bound : ∀ c r, (w.routes.fields c).voiceRouteId = some r ↔
    ∃ b, w.routes.connected.get? r = some b ∧ b.connection = c
  single : ∀ r s a b, w.routes.connected.get? r = some a → w.routes.connected.get? s = some b →
    a.connection = b.connection → r = s
  described : ∀ r, (w.routes.connected.get? r).isSome → (w.routes.metadata.get? r).isSome
  refused : ∀ voiceRole cleared pruned now c frame,
    (register { cfg with voiceRole } w.routes cleared pruned now c frame).1 = none →
    (register { cfg with voiceRole } w.routes cleared pruned now c frame).2 = w.routes
  unbound : ∀ c now, (∀ r b, w.routes.connected.get? r = some b → b.connection ≠ c) →
    touch w.routes now c = w.routes ∧ disconnect w.routes now c = (none, w.routes)
  recent : ∀ pruned now r, w.clock ≤ pruned → pruned ≤ now →
    ((isRecentlyCapable cfg w.routes pruned now r).1 = true ↔
      (w.routes.connected.get? r).isSome ∨
        ∃ t, w.boundAt r = some t ∧ now - t ≤ cfg.freshnessS)

/-- Over every run on a clock that does not go back, bindings are one to one. -/
theorem voice_bindings (start : T) {calls : List (Call T)} {w : Watched T}
    (run : Runs (step cfg) Onward (Watched.init start) calls w) : Settled cfg w := by
  have sound : Sound cfg.freshnessS w :=
    run.invariant (fun _ _ on sound => sound.step later on) (Sound.init _ start)
  refine ⟨sound.linked.holds_iff, fun _ _ _ _ => sound.linked.route_unique, fun r held => ?_,
    fun voiceRole cleared pruned now c frame => ?_, fun c now other => ?_,
    fun _ _ r first second => sound.recent_iff later first second r⟩
  · obtain ⟨b, found⟩ := Option.isSome_iff_exists.mp held
    exact sound.dated.kept r b found
  · rcases register_cases { cfg with voiceRole } w.routes cleared pruned now c frame with
      none_ | ⟨_, _, some_⟩
    · exact fun _ => by rw [none_]
    · intro refused
      rw [some_] at refused
      cases refused
  · have own : ownBinding w.routes c = none := by
      cases own : ownBinding w.routes c with
      | none => rfl
      | some b =>
        have held := ownBinding_eq_some own
        exact absurd held.2 (other _ b held.1)
    exact ⟨by rw [VoiceRoutes.touch, own], by rw [VoiceRoutes.disconnect, sound.free own]⟩

end Calls

def houseFrame : List (String × Json ℤ) :=
  [("protocol", .int 3), ("route_id", .str "house"), ("agent_role", .str "butler"),
    ("capabilities", .arr [.str "background_jobs", .str "endpoint_delivery", .str "voice_handoff"])]

theorem voice_bindings_house :
    let cfg : RouteSettings ℤ := ⟨true, 60, fun _ => false⟩
    let taken := step cfg (.register (· = "butler") 0 0 1 1 houseFrame) (.init 0)
    Settled cfg (step cfg (.disconnect 5 1) taken) := by
  refine voice_bindings (fun _ _ _ _ => by omega) 0 (.cons ?_ (.cons ?_ (.nil _)))
  · exact (by decide : (0 : ℤ) ≤ 0 ∧ (0 : ℤ) ≤ 0 ∧ (0 : ℤ) ≤ 1)
  · exact (by decide : (1 : ℤ) ≤ 5)

end Casa.VoiceBindings
