import Casa.VerdictOutcomes

/-! The keyboard-post task of a request outlives it. A failed post unregisters by key, so
whom it fails depends on who is live under that key when it ends. -/

namespace Casa.VerdictSetup
open KeyedTable StepRuns VerdictBroker VerdictBroker.Broker VerdictOutcomes

variable {T : Type}

def SparesOthers (id : Nat) (b b' : Broker T) : Prop :=
  ∀ other, other ≠ id →
    (b'.requests.get? other).map PendingRequest.future =
        (b.requests.get? other).map PendingRequest.future ∧
      ∀ key, b'.live.get? key = some (key, other) ↔ b.live.get? key = some (key, other)

section Sparing
variable {b b' : Broker T} {req : PendingRequest T} {id : Nat} {key : Key} {outcome : Outcome}

theorem futures_of_seen (same : seen b' id = seen b id) :
    (b'.requests.get? id).map PendingRequest.future =
      (b.requests.get? id).map PendingRequest.future := by
  have futures : ∀ c : Broker T, (c.requests.get? id).map PendingRequest.future =
      (seen c id).map View.future := by
    intro c
    rw [seen, Option.map_map]
    rfl
  rw [futures, futures, same]

theorem SparesOthers.trans {b'' : Broker T} (first : SparesOthers id b b')
    (second : SparesOthers id b' b'') : SparesOthers id b b'' := by
  intro other ne
  obtain ⟨future, entry⟩ := first other ne
  obtain ⟨future', entry'⟩ := second other ne
  exact ⟨future'.trans future, fun key => (entry' key).trans (entry key)⟩

theorem sparesOthers_store (b : Broker T) (req : PendingRequest T) :
    SparesOthers req.id b (b.store req) := by
  intro other ne
  refine ⟨futures_of_seen ?_, fun key => Iff.rfl⟩
  rw [seen_store, if_neg ne.symm]

theorem sparesOthers_settle (entry : b.live.get? key = some (key, req.id)) :
    SparesOthers req.id b (b.settle key req outcome) := by
  intro other ne
  refine ⟨futures_of_seen ?_, fun k => ?_⟩
  · rw [seen_settle, if_neg ne.symm]
  · rw [settle_live, Table.get?_remove]
    split
    · rename_i same
      subst same
      rw [entry]
      constructor
      · intro none
        cases none
      · intro clash
        exact absurd (Prod.mk.inj (Option.some.inj clash)).2.symm ne
    · exact Iff.rfl

theorem unregister_of_live (found : b.liveRequest key = some req) :
    b.unregister key = b.settle key req .deliveryFailed := by
  rw [Broker.unregister, found]

theorem liveRequest_store_other {marked : PendingRequest T}
    (found : b.liveRequest key = some req) (ne : marked.id ≠ req.id) :
    (b.store marked).liveRequest key = some req := by
  obtain ⟨entry, row⟩ := liveRequest_eq_some found
  simp only [liveRequest, store]
  rw [entry, Option.bind_some, Table.get?_put, if_neg ne, row]

end Sparing

section Failing
variable {d : Desk T} {id : Nat} {req : PendingRequest T}

theorem Sound.liveRequest_of_entry (h : Sound d) {key : Key} {i : Nat}
    (entry : d.broker.live.get? key = some (key, i)) :
    ∃ r, d.broker.liveRequest key = some r ∧ r.id = i := by
  obtain ⟨operator, shown⟩ := h.live_row entry
  obtain ⟨r, row, _⟩ := seen_eq_some_iff.mp shown
  exact ⟨r, by rw [liveRequest, entry, Option.bind_some, row], Table.key_of_get? row⟩

theorem setupDone_failed (row : d.broker.requests.get? id = some req)
    (running : req.setup = .running) :
    d.broker.setupDone id none =
      (d.broker.store { req with setup := .done }).unregister req.key := by
  simp only [Broker.setupDone, row, running, if_true]

theorem Sound.failure_spares (h : Sound d) (row : d.broker.requests.get? id = some req)
    (running : req.setup = .running)
    (own : req.future = none ∨ d.broker.live.get? req.key = none) :
    SparesOthers id d.broker (d.broker.setupDone id none) := by
  obtain rfl : req.id = id := Table.key_of_get? row
  rw [setupDone_failed row running]
  refine (sparesOthers_store d.broker { req with setup := .done }).trans ?_
  cases found : (d.broker.store { req with setup := .done }).liveRequest req.key with
  | none =>
    simp only [Broker.unregister, found]
    exact fun other _ => ⟨rfl, fun key => Iff.rfl⟩
  | some r =>
    rw [unregister_of_live found]
    have entry := (liveRequest_eq_some found).1
    have mine : r.id = req.id := by
      rcases own with pending | free
      · have shown : seen d.broker req.id = some (view req) := by
          rw [seen, row]
          rfl
        have live := h.pending_live shown pending
        exact (Prod.mk.inj (Option.some.inj (entry.symm.trans live))).2
      · exact absurd (entry.symm.trans free) (by simp)
    exact mine ▸ sparesOthers_settle entry

theorem Sound.failure_strikes (h : Sound d) (row : d.broker.requests.get? id = some req)
    (running : req.setup = .running) (resolved : req.future ≠ none)
    (taken : d.broker.live.get? req.key ≠ none) :
    ¬ SparesOthers id d.broker (d.broker.setupDone id none) := by
  obtain rfl : req.id = id := Table.key_of_get? row
  obtain ⟨⟨key, other⟩, entry⟩ := Option.ne_none_iff_exists'.mp taken
  obtain rfl : key = req.key := Table.key_of_get? entry
  obtain ⟨r, found, rfl⟩ := Sound.liveRequest_of_entry h entry
  obtain ⟨_, _, unanswered⟩ := h.live_view found
  have ne : r.id ≠ req.id := by
    intro same
    have stored := (liveRequest_eq_some found).2
    rw [same, row] at stored
    exact resolved (Option.some.inj stored ▸ unanswered)
  intro spared
  have gone := (spared r.id ne).2 req.key
  have found' : (d.broker.store { req with setup := .done }).liveRequest req.key = some r :=
    liveRequest_store_other found ne.symm
  rw [setupDone_failed row running, unregister_of_live found', settle_live, Table.get?_remove,
    if_pos rfl] at gone
  exact absurd (gone.mpr entry) (by simp)

end Failing

section Runs
variable [LinearOrder T] [Add T] [Sub T] [Zero T] {d : Desk T}

/-- After any interleaving, a failing post leaves every other request alone exactly when its
own request is unresolved or nobody is live under its key. -/
theorem failed_post_spares_iff {events : List (Event T)} (run : Runs Desk.step Held .init events d)
    {id : Nat} {req : PendingRequest T} (row : d.broker.requests.get? id = some req)
    (running : req.setup = .running) :
    SparesOthers id d.broker (d.step (.setupDone id none)).broker ↔
      (req.future = none ∨ d.broker.live.get? req.key = none) := by
  have h : Sound d := sound_of_runs run sound_init
  constructor
  · intro spared
    by_contra neither
    rw [not_or] at neither
    exact Sound.failure_strikes h row running neither.1 neither.2 spared
  · exact Sound.failure_spares h row running

/-- A question is posted, its record is dropped and the same question is asked again before the
first post has come back. -/
def askedTwice : List (Event Int) :=
  [.register 0 ⟨"engagement_ask", "topic", "ask"⟩ 60 ⟨.int 7, none, none⟩ false, .ensurePosted 0,
    .unregister ⟨"engagement_ask", "topic", "ask"⟩,
    .register 5 ⟨"engagement_ask", "topic", "ask"⟩ 60 ⟨.int 7, none, none⟩ false]

def askedTwiceDesk : Desk Int := askedTwice.foldl (fun d e => d.step e) .init

theorem askedTwice_run : Runs Desk.step Held .init askedTwice askedTwiceDesk :=
  .cons trivial (.cons trivial (.cons trivial (.cons trivial (.nil _))))

def askedOnceDesk : Desk Int := (askedTwice.take 2).foldl (fun d e => d.step e) .init

theorem askedOnce_run : Runs Desk.step Held .init (askedTwice.take 2) askedOnceDesk :=
  .cons trivial (.cons trivial (.nil _))

/-- A first question whose post fails while it is the one asked fails nobody else. -/
theorem first_post_spares_others :
    SparesOthers 0 askedOnceDesk.broker (askedOnceDesk.step (.setupDone 0 none)).broker :=
  (failed_post_spares_iff askedOnce_run rfl rfl).mpr (.inl rfl)

/-- The late failure of the first post takes the second question off the board. -/
theorem late_failure_strikes_successor :
    ¬ ∀ (events : List (Event Int)) (d : Desk Int), Runs Desk.step Held .init events d →
      ∀ id req, d.broker.requests.get? id = some req → req.setup = .running →
        SparesOthers id d.broker (d.step (.setupDone id none)).broker := by
  intro only
  have spared := only askedTwice askedTwiceDesk askedTwice_run 0 _ rfl rfl
  have entry := (spared 1 (by decide)).2 ⟨"engagement_ask", "topic", "ask"⟩
  exact absurd (entry.mpr rfl) (by decide)

end Runs

end Casa.VerdictSetup
