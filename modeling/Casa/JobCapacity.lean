import Casa.JobDurability

/-! Admission control per route. Capacity is checked only when a row is created, so
the bound rests on every other operation never bringing a row back to life. -/

namespace Casa.JobCapacity
open PythonValue JobRecord KeyedTable FaultState StepRuns JobRegistry JobSnapshot JobEffects
open JobDurability

set_option linter.unusedSectionVars false

variable {T : Type} [LinearOrder T] [Add T] [IntCast T]
variable {cfg : Settings T} {call : Call T} {s t : Registry T} {op : Op T} {now : T}
  {counter : Int} {job job' : VoiceJob T} {route : String} {limit : Int}

/-- Every creating operation is called with the bound `limit`. -/
def Capped (limit : Int) : Op T → Prop
  | .create _ bound => bound = some limit
  | .createContinuation _ _ _ bound => bound = some limit
  | .createPromptedDelivery _ _ _ bound => bound = some limit
  | _ => True

def Creates : Op T → Prop
  | .create _ _ | .createContinuation _ _ _ _ | .createPromptedDelivery _ _ _ _ => True
  | _ => False

/-- The jobs `_require_route_capacity` counts. -/
def routeLoad (route : String) (jobs : Jobs T) : Nat := jobs.rows.countP (liveOnRoute route)

theorem liveOnRoute_iff : liveOnRoute route job = true ↔ job.originRouteId = some route ∧
    (job.executionState.isActive = true ∨ job.deliveryState.isLive = true) := by
  simp [liveOnRoute]

theorem live_of_transition (step : Transition cfg now counter op job job')
    (live : liveOnRoute route job' = true) : liveOnRoute route job = true := by
  rw [liveOnRoute_iff] at live ⊢
  obtain ⟨onRoute, alive⟩ := live
  have active : ∀ {row : VoiceJob T}, row.originRouteId = job.originRouteId →
      row.originRouteId = some route → job.executionState.isActive = true →
      job.originRouteId = some route ∧
        (job.executionState.isActive = true ∨ job.deliveryState.isLive = true) :=
    fun same onRoute active => ⟨same ▸ onRoute, .inl active⟩
  have released : ∀ {delivery : DeliveryState}, delivery.isLive = false →
      ((releasedRow job delivery).executionState.isActive = true ∨ delivery.isLive = true) →
      job.executionState.isActive = true ∨ job.deliveryState.isLive = true := by
    intro delivery closed alive
    exact .inl (alive.resolve_right (by simp [closed]))
  cases step with
  | keep | consume | restore | handoffPending | handoffReceived | cancelPending | ackOrphan | renew
  | extend => exact ⟨onRoute, alive⟩
  | bind accepted => exact ⟨onRoute, .inl (by rw [accepted]; rfl)⟩
  | finish _ busy =>
    exact active (by unfold finishedRow; split <;> rfl) onRoute busy
  | finishVoice busy =>
    exact active (by unfold voiceResultRow; split <;> rfl) onRoute busy
  | fail _ busy | cancel busy | orphan busy _ => exact ⟨onRoute, .inl busy⟩
  | cancelDelivery => exact ⟨onRoute, released rfl alive⟩
  | claim ready => exact ⟨onRoute, .inr (by rw [ready]; rfl)⟩
  | authorize claimed => exact ⟨onRoute, .inr (by rw [claimed]; rfl)⟩
  | play authorized => exact ⟨onRoute, .inr (by rw [authorized]; rfl)⟩
  | deliver => exact ⟨onRoute, released rfl alive⟩
  | nack held =>
    refine ⟨onRoute, .inr ?_⟩
    rcases held with claimed | authorized
    · rw [claimed]
      rfl
    · rw [authorized]
      rfl
  | expire => exact ⟨onRoute, released rfl alive⟩
  | lapse due =>
    simp only [leaseDue, Bool.and_eq_true] at due
    refine ⟨onRoute, .inr ?_⟩
    cases state : job.deliveryState <;> simp_all [DeliveryState.isLeased, DeliveryState.isLive]

theorem countP_recoverRows_le (cfg : Settings T) (now : T) (route : String) (next : Int)
    (rows : List (VoiceJob T)) :
    (recoverRows cfg now next rows).countP (liveOnRoute route) ≤
      rows.countP (liveOnRoute route) := by
  induction rows generalizing next with
  | nil => exact le_rfl
  | cons first rest ih =>
    have head : liveOnRoute route (recoverRow cfg now first next).2 = true →
        liveOnRoute route first = true :=
      live_of_transition (recoverRow_transition le_rfl)
    have tail := ih (recoverRow cfg now first next).1
    simp only [recoverRows, List.countP_cons]
    split
    · rename_i live
      rw [if_pos (head live)]
      omega
    · omega

theorem room_of_created (created : Created call s op job) (capped : Capped limit op)
    (live : liveOnRoute route job = true) : (routeLoad route s.jobs : Int) < limit := by
  have onRoute := (liveOnRoute_iff.mp live).1
  cases created with
  | create room => exact (room limit capped).2 route onRoute
  | continuation room => exact (room limit capped).2 route onRoute
  | @prompted parent child _ _ _ _ room =>
    have same : (promptedRow s.deliverySequence call.now parent child).originRouteId =
        child.originRouteId := by
      simp only [promptedRow, inheritDeliveryModality]
      split
      · rfl
      split <;> rfl
    exact (room limit capped).2 route (same ▸ onRoute)

theorem routeLoad_put_le {jobs : Jobs T} (absent : jobs.get? job.id = none)
    (bound : (routeLoad route jobs : Int) ≤ limit)
    (room : liveOnRoute route job = true → (routeLoad route jobs : Int) < limit) :
    (routeLoad route (jobs.put job) : Int) ≤ limit := by
  have count := Table.countP_put_of_none (liveOnRoute route) absent
  simp only [routeLoad] at bound room ⊢
  rw [count]
  split
  · rename_i live
    have := room live
    omega
  · omega

theorem routeLoad_candidate_le {jobs : Jobs T} {tasks : Table (Prod.fst : String × Nat → String)}
    (candidate : Candidate cfg call s op jobs tasks) (capped : Capped limit op)
    (bound : (routeLoad route s.jobs : Int) ≤ limit) : (routeLoad route jobs : Int) ≤ limit := by
  have overwrite : ∀ {jobs : Jobs T} {job job' : VoiceJob T} {op : Op T},
      jobs.get? job.id = some job → Transition cfg call.now s.deliverySequence op job job' →
      routeLoad route (jobs.put job') ≤ routeLoad route jobs := by
    intro jobs job job' op row step
    exact Table.countP_put_le _ (step.id_eq.symm ▸ row) (live_of_transition step)
  have sweep : ∀ (op : Op T) {f : VoiceJob T → VoiceJob T} {same : ∀ job, (f job).id = job.id},
      (∀ job, Transition cfg call.now s.deliverySequence op job (f job)) →
      routeLoad route (s.jobs.revise f same) ≤ routeLoad route s.jobs :=
    fun _ _ _ step => Table.countP_revise_le _ fun job _ => live_of_transition (step job)
  cases candidate with
  | insert created absent => exact routeLoad_put_le absent bound (room_of_created created capped)
  | @consume parent child actor cap row isOpen awaiting created absent =>
    have step : Transition cfg call.now s.deliverySequence
        (.createContinuation parent.id child actor cap) parent
        { parent with awaitingInput := false } := .consume isOpen awaiting
    have consumed := overwrite row step
    refine routeLoad_put_le ?_ (by omega) (fun live => ?_)
    · rw [Table.get?_put]
      split
      · rename_i same
        have clash : s.jobs.get? child.id = some parent := same ▸ row
        simp [absent] at clash
      · exact absent
    · have := room_of_created created capped live
      omega
  | @remove parent child actor row childRow ofParent accepted unbound =>
    have removed : routeLoad route (s.jobs.remove child.id) ≤ routeLoad route s.jobs :=
      Table.countP_remove_le _ _ _
    split
    · rename_i restored
      rw [Bool.and_eq_true, Bool.not_eq_true'] at restored
      have apart := parent_ne_child row childRow restored.1 accepted
      have kept : (s.jobs.remove child.id).get? parent.id = some parent := by
        rw [Table.get?_remove, if_neg apart.symm, row]
      have step : Transition cfg call.now s.deliverySequence
          (.compensateUnboundContinuation parent.id child.id actor) parent
          { parent with awaitingInput := true } := .restore restored.1 restored.2
      have := overwrite kept step
      omega
    · omega
  | move row step =>
    have := overwrite row step
    omega
  | @bind job task row accepted =>
    have step : Transition cfg call.now s.deliverySequence (.bindTask job.id task) job
        (boundRow call.now job) := .bind accepted
    have := overwrite row step
    omega
  | expire same =>
    have swept : routeLoad route (s.jobs.revise _ same) ≤ routeLoad route s.jobs := by
      refine sweep .expireDue fun job => ?_
      split
      · rename_i due
        exact .expire due
      · exact .keep _ _
    omega
  | lapse same =>
    have swept : routeLoad route (s.jobs.revise _ same) ≤ routeLoad route s.jobs := by
      refine sweep .expireLeases fun job => ?_
      split
      · rename_i due
        exact .lapse due
      · exact .keep _ _
    omega
  | recover =>
    have recovered := countP_recoverRows_le cfg call.now route s.deliverySequence s.jobs.rows
    simp only [routeLoad, recoverJobs] at bound ⊢
    omega

theorem routeLoad_exec_le (sync : Synced cfg s) {e : Event T} (capped : Capped limit e.op)
    (bound : (routeLoad route s.jobs : Int) ≤ limit) :
    (routeLoad route (exec cfg e s).jobs : Int) ≤ limit := by
  obtain ⟨call, op⟩ := e
  generalize result : exec cfg ⟨call, op⟩ s = t
  have effect : Effect cfg call s op t := result ▸ exec_effect sync op
  cases effect with
  | unchanged => exact bound
  | released => exact bound
  | commit loaded candidate valid => exact routeLoad_candidate_le candidate capped bound
  | boot fresh =>
    subst fresh
    exact bound
  | reload loaded =>
    have same : routeLoad route (resorted s.jobs) = routeLoad route s.jobs :=
      (sortedJobs_perm s.jobs.rows).countP_eq _
    exact same ▸ bound

/-- With one bound on every creation, no route ever carries more live jobs than it, and only a
creation can make a row of the route live. -/
theorem routeLoad_le {events : List (Event T)} (positive : 1 ≤ limit)
    (run : Runs (exec cfg) (fun e _ => Capped limit e.op) .init events s) (route : String) :
    (routeLoad route s.jobs : Int) ≤ limit ∧
    ∀ (e : Event T) (job' : VoiceJob T), ¬ Creates e.op →
      (exec cfg e s).jobs.get? job'.id = some job' → liveOnRoute route job' = true →
      ∃ job, s.jobs.get? job'.id = some job ∧ liveOnRoute route job = true := by
  have inv := run.invariant
    (I := fun s => Synced cfg s ∧ (routeLoad route s.jobs : Int) ≤ limit)
    (fun e _ capped h => ⟨synced_exec h.1 e, routeLoad_exec_le h.1 capped h.2⟩)
    ⟨.fresh, by simp [routeLoad, Registry.init, Table.empty]; omega⟩
  refine ⟨inv.2, fun e job' other row live => ?_⟩
  have step := exec_row inv.1 e job'.id
  rw [row] at step
  generalize s.jobs.get? job'.id = before at step
  cases step with
  | created created =>
    generalize e.op = op at created other
    cases created <;> exact absurd trivial other
  | moved step => exact ⟨_, rfl, live_of_transition step live⟩

theorem one_live_job : (routeLoad "route" (plainRun [.load, .create (plainJob "first" none) (some 1),
    .create (plainJob "second" none) (some 1)]).jobs : Int) ≤ 1 := by
  have run : Runs (exec plainSettings) (fun e _ => Capped 1 e.op) .init _ (plainRun [.load,
      .create (plainJob "first" none) (some 1), .create (plainJob "second" none) (some 1)]) :=
    Runs.foldl (by simp [plainEvents, Capped]) _
  exact (routeLoad_le (by decide) run "route").1

end Casa.JobCapacity
