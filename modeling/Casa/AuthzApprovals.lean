import Casa.AuthzGrants
import Casa.FaultState
import Casa.JobDurability

/-! One approval, one call: every protected call the hook lets through spends an approval of
exactly that call, given by the operator its challenge is bound to. -/

namespace Casa.AuthzApprovals
open KeyedTable FaultState StepRuns PythonValue VerdictBroker VerdictOutcomes AuthzGrants

variable {T : Type}

/-- What can happen to the office. Every commit runs the sync step of its request, and nothing
else mints. -/
inductive Action (T : Type) where
  | call (call : ToolCall T)
  | consent (now : T) (name : String) (artifactId plugin : Option String)
      (chatId operatorId : Int) (text rid : String) (timeoutS : Option T)
  | broker (e : Event T)
  | commit (now : T) (c : Claim)
  | settleRequest (id : Nat)
  | settleSetup (id : Nat)
  | cancelMatching (f : CancelFilter)
  | consume (now : T) (key : GrantKey)
  | purge (p : Purge)
  | sweep (now : T)

def step [LinearOrder T] [Add T] [Sub T] [Zero T] [NatCast T] (rt : Runtime T) (a : Action T) (o : Office T) : Office T :=
  match a with
  | .call call => (o.hook rt call).2
  | .consent now name artifactId plugin chatId operatorId text rid timeoutS =>
      (o.registerChallenge now (.consent name artifactId plugin) chatId operatorId text rid
        .recordConsent timeoutS).2
  | .broker e => { o with desk := o.desk.step e }
  | .commit now c => o.commit now c
  | .settleRequest id => o.settleRequest id
  | .settleSetup id => o.settleSetup id
  | .cancelMatching f => o.cancelMatching f
  | .consume now key => { o with grants := (o.grants.consume now key).2 }
  | .purge p => { o with grants := (o.grants.purge p).2, log := .purged p :: o.log }
  | .sweep now => { o with grants := (o.grants.sweep now).2 }

/-- A `uuid4` repeats no request id that the broker has seen. -/
def Fresh (rid : String) (o : Office T) : Prop :=
  ∀ id v, seen o.desk.broker id = some v → v.key.requestId ≠ rid

/-- Request ids are fresh, claims are tokens that were handed out, and a latch of a request
falls when its future is resolved. -/
def Admitted (a : Action T) (o : Office T) : Prop :=
  match a with
  | .call call => Fresh call.rid o
  | .consent _ _ _ _ _ _ _ rid _ => Fresh rid o
  | .broker e => Held e o.desk ∧ ∀ c, e ≠ .commit c
  | .commit _ c => c ∈ o.desk.issued
  | .settleRequest id => ∀ v, seen o.desk.broker id = some v → v.future ≠ none
  | _ => True

section Hook
variable [LinearOrder T] [Add T] [Sub T] [Zero T] [NatCast T]
variable {rt : Runtime T} {call : ToolCall T} {o : Office T}

/-- All that a call can do: nothing, spend a grant, or put up a challenge for its own key. -/
inductive Effect (call : ToolCall T) (o : Office T) : Decision × Office T → Prop
  | quiet (d : Decision) (kept : ∀ key, d ≠ .allow key) : Effect call o (d, o)
  | spent (key : GrantKey) (grants : GrantStore T)
      (ok : o.grants.consume call.now key = (true, grants)) :
      Effect call o (.allow key, { o with grants := grants, log := .allowed key call.now :: o.log })
  | posted (key : GrantKey) (req : Nat) :
      Effect call o (.posting req,
        (o.enter call.now (.grant key) key.chatId key.operatorId call.rid (.mint key)
          challengeTtlS).2)

theorem registerChallenge_cases (o : Office T) (now : T) (key : ChallengeKey)
    (chatId operatorId : Int) (text rid : String) (commit : CommitStep) (timeoutS : Option T) :
    let r := o.registerChallenge now key chatId operatorId text rid commit timeoutS
    (r.2 = o ∧ ∀ req, r.1 ≠ .created req) ∨
      r = o.enter now key chatId operatorId rid commit (timeoutS.getD challengeTtlS) := by
  intro r
  simp only [r, Office.registerChallenge]
  split
  · exact .inl ⟨rfl, fun _ => nofun⟩
  · split
    · exact .inl ⟨rfl, fun _ => nofun⟩
    · exact .inr rfl

theorem getOrCreate_yields {prot : Protected} {displayName : Option String} {key : GrantKey}
    {json : String} : Yields (o.getOrCreate rt call prot displayName key json) fun r =>
      (r.2 = o ∧ ∀ req, r.1 ≠ .created req) ∨
        r = o.enter call.now (.grant key) key.chatId key.operatorId call.rid (.mint key)
          challengeTtlS := by
  unfold Office.getOrCreate
  split
  · exact yields_pure (.inl ⟨rfl, fun _ => nofun⟩)
  · exact yields_bind fun text => yields_pure (registerChallenge_cases o ..)

theorem authorize_effect {prot : Protected} {deps : AuthzDeps} {operatorId chatId : Int}
    {engagementId : String} :
    Yields (o.authorize rt call prot deps operatorId chatId engagementId) (Effect call o) := by
  unfold Office.authorize
  refine yields_bind fun operator => ?_
  split
  · split
    · exact yields_pure (.quiet _ fun _ => nofun)
    · refine yields_bind fun argsHash => ?_
      dsimp only
      split
      · rename_i grants ok
        exact yields_pure (.spent _ grants ok)
      · refine getOrCreate_yields.bind fun r made => ?_
        obtain ⟨kept, old⟩ | rfl := made
        · -- a handle that is not new leaves the office as it was
          obtain ⟨handle, o'⟩ := r
          obtain rfl : o' = o := kept
          cases handle with
          | created req => exact absurd rfl (old req)
          | existing req => exact yields_pure (.quiet _ fun _ => nofun)
          | refused reason => exact yields_pure (.quiet _ fun _ => nofun)
        · exact yields_pure (.posted _ _)
  · exact yields_pure (.quiet _ fun _ => nofun)

theorem authorizeEngagement_effect {prot : Protected} :
    Yields (o.authorizeEngagement rt call prot) (Effect call o) := by
  have unavailable : Effect call o (.deny denyEngagementUnavailable, o) := .quiet _ fun _ => nofun
  unfold Office.authorizeEngagement
  split
  · exact yields_pure unavailable
  · split
    · exact yields_pure unavailable
    · refine yields_bind fun topicId => ?_
      split
      · exact yields_pure unavailable
      · refine yields_bind fun operatorId => yields_bind fun chatId => ?_
        split
        · exact authorize_effect
        · exact yields_pure unavailable

theorem authorizeDirect_effect {prot : Protected} {transport : Transport} :
    Yields (o.authorizeDirect rt call prot transport) (Effect call o) := by
  have unsupported : Effect call o (.deny denyUnsupportedOrigin, o) := .quiet _ fun _ => nofun
  unfold Office.authorizeDirect
  split
  · exact yields_pure unsupported
  · split
    · exact yields_pure (.quiet _ fun _ => nofun)
    · split
      · exact yields_pure unsupported
      · refine yields_bind fun operatorId => yields_bind fun chatId => ?_
        split
        · exact authorize_effect
        · exact yields_pure unsupported

theorem hook_effect (rt : Runtime T) (call : ToolCall T) (o : Office T) :
    Effect call o (o.hook rt call) := by
  unfold Office.hook
  split
  · exact .quiet _ fun _ => nofun
  · rename_i prot _
    have decided : Yields (do
        let transport ← call.turn.transport rt.py
        if call.turn.execution = .engagement then o.authorizeEngagement rt call prot
        else o.authorizeDirect rt call prot transport) (Effect call o) := by
      refine yields_bind fun transport => ?_
      split
      · exact authorizeEngagement_effect
      · exact authorizeDirect_effect
    dsimp only
    split
    · rename_i result eq
      exact decided result eq
    · exact .quiet _ fun _ => nofun

end Hook

section Store
variable {s : GrantStore T} {now : T} {key : GrantKey}

theorem consume_true [LinearOrder T] {s' : GrantStore T} (ok : s.consume now key = (true, s')) :
    ∃ grant, s.get? key = some grant ∧ grant.used = false ∧ now < grant.expiresAt ∧
      s' = s.put { grant with used := true } := by
  unfold GrantStore.consume at ok
  split at ok
  · cases ok
  · rename_i grant found
    split at ok
    · cases ok
    · rename_i usable
      rw [not_or, not_le] at usable
      exact ⟨grant, found, by simpa using usable.1, usable.2, (Prod.mk.inj ok).2.symm⟩

/-- An unused grant after a consumption was there before, for another key if it succeeded. -/
theorem consume_unused [LinearOrder T] {k : GrantKey} {grant : Grant T}
    (found : (s.consume now key).2.get? k = some grant) (unused : grant.used = false) :
    s.get? k = some grant := by
  unfold GrantStore.consume at found
  split at found
  · exact found
  · rename_i old at_
    split at found
    · exact found
    · rw [Table.get?_put] at found
      split at found
      · cases Option.some.inj found
        cases unused
      · exact found

theorem purgeWhere_get {matched : Grant T → Bool} {k : GrantKey} {grant : Grant T}
    (found : (s.purgeWhere matched).2.get? k = some grant) :
    s.get? k = some grant ∧ matched grant = false := by
  rw [GrantStore.purgeWhere, Table.get?_eq_some_iff] at found
  obtain ⟨mem, rfl⟩ := found
  obtain ⟨mem, kept⟩ := Table.mem_filter.mp mem
  exact ⟨Table.get?_key mem, by simpa using kept⟩

end Store

/-- The record entries that use up or take back an approval of `k`. -/
def Spends (k : GrantKey) : Entry T → Prop
  | .committed _ _ => False
  | .allowed key _ => key = k
  | .purged p => p.covers k = true

/-- The claim `c` was the approval of the call `k`: option 0 of the challenge for `k`, committed by
the operator that the challenge is bound to. -/
structure Approval (o : Office T) (k : GrantKey) (c : Claim) : Prop where
  option : c.optionIndex = 0
  actor : c.actorId = .int k.operatorId
  committed : c ∈ o.desk.commits
  challenge : ∃ ch, o.challenges.get? c.req = some ch ∧ ch.key = .grant k
  operator : ∃ v, seen o.desk.broker c.req = some v ∧ v.operatorId = .int k.operatorId

/-- The last approval of `k` was given `defaultTtlS` before `expires` and nothing has spent it. -/
def ApprovedSince [Add T] [NatCast T] (o : Office T) (k : GrantKey) (expires : T) : Prop :=
  ∃ recent c time older, o.log = recent ++ .committed c time :: older ∧ Approval o k c ∧
    expires = time + GrantStore.defaultTtlS ∧ ∀ e ∈ recent, ¬ Spends k e

def isAllowed (k : GrantKey) : Entry T → Bool
  | .allowed key _ => key = k
  | _ => false

def isApproval (o : Office T) (k : GrantKey) : Entry T → Bool
  | .committed c _ =>
      c.optionIndex = 0 && (o.challenges.get? c.req).any fun ch => ch.key = .grant k
  | _ => false

def allowedCalls (o : Office T) (k : GrantKey) : Nat := o.log.countP (isAllowed k)

def approvals (o : Office T) (k : GrantKey) : Nat := o.log.countP (isApproval o k)

def unspent (s : GrantStore T) (k : GrantKey) : Nat :=
  (s.get? k).elim 0 fun grant => if grant.used then 0 else 1

structure Grows (o o' : Office T) : Prop where
  evolves : Evolves o.desk o'.desk
  commits : ∀ c ∈ o.desk.commits, c ∈ o'.desk.commits
  challenges : ∀ id ch, o.challenges.get? id = some ch →
    ∃ ch', o'.challenges.get? id = some ch' ∧ ch'.key = ch.key

section Growing
variable {o o' : Office T} {k : GrantKey} {c : Claim}

theorem Approval.mono (h : Approval o k c) (grows : Grows o o') : Approval o' k c := by
  obtain ⟨ch, found, keyed⟩ := h.challenge
  obtain ⟨ch', found', same⟩ := grows.challenges c.req ch found
  obtain ⟨v, row, bound⟩ := h.operator
  obtain ⟨v', row', -, operator, -⟩ := grows.evolves c.req v row
  exact ⟨h.option, h.actor, grows.commits c h.committed, ⟨ch', found', same.trans keyed⟩,
    ⟨v', row', operator.trans bound⟩⟩

theorem ApprovedSince.mono [Add T] [NatCast T] {expires : T} {new : List (Entry T)} (h : ApprovedSince o k expires)
    (grows : Grows o o') (log : o'.log = new ++ o.log) (kept : ∀ e ∈ new, ¬ Spends k e) :
    ApprovedSince o' k expires := by
  obtain ⟨recent, c, time, older, eq, approval, expiry, quiet⟩ := h
  refine ⟨new ++ recent, c, time, older, by rw [log, eq, List.append_assoc], approval.mono grows,
    expiry, ?_⟩
  intro e mem
  rcases List.mem_append.mp mem with mem | mem
  · exact kept e mem
  · exact quiet e mem

theorem isApproval_mono (grows : Grows o o') (e : Entry T) (h : isApproval o k e = true) :
    isApproval o' k e = true := by
  cases e with
  | allowed key time => cases h
  | purged p => cases h
  | committed c time =>
    simp only [isApproval, Bool.and_eq_true, Option.any_eq_true] at h ⊢
    obtain ⟨option, ch, found, keyed⟩ := h
    obtain ⟨ch', found', same⟩ := grows.challenges c.req ch found
    exact ⟨option, ch', found', by rwa [same]⟩

theorem approvals_mono (new : List (Entry T)) (grows : Grows o o') (log : o'.log = new ++ o.log)
    (k : GrantKey) : new.countP (isApproval o' k) + approvals o k ≤ approvals o' k := by
  rw [approvals, approvals, log, List.countP_append]
  have := List.countP_mono_left (l := o.log) fun e _ => isApproval_mono (k := k) grows e
  omega

end Growing

/-- The books balance: every unused grant goes back to an approval that nothing has spent. -/
structure Accounted [Add T] [NatCast T] (o : Office T) : Prop where
  sound : Sound o.desk
  known : ∀ id ch, o.challenges.get? id = some ch → ∃ v, seen o.desk.broker id = some v
  minting : ∀ id k, o.steps.get? id = some (id, .mint k) →
    (∃ ch, o.challenges.get? id = some ch ∧ ch.key = .grant k) ∧
      ∃ v, seen o.desk.broker id = some v ∧ v.operatorId = .int k.operatorId
  backed : ∀ k grant, o.grants.get? k = some grant → grant.used = false →
    ApprovedSince o k grant.expiresAt
  balance : ∀ k, allowedCalls o k + unspent o.grants k ≤ approvals o k

theorem accounted_init [Add T] [NatCast T] : Accounted (.init : Office T) where
  sound := sound_init
  known := nofun
  minting := nofun
  backed := fun _ _ h => by cases h
  balance := fun _ => le_rfl

section Accounting
variable [Add T] [NatCast T] {o o' : Office T}

omit [Add T] [NatCast T] in
theorem unspent_le {s s' : GrantStore T} {k : GrantKey}
    (kept : ∀ grant, s'.get? k = some grant → grant.used = false → s.get? k = some grant) :
    unspent s' k ≤ unspent s k := by
  cases found : s'.get? k with
  | none => simp [unspent, found]
  | some grant =>
    cases used : grant.used with
    | true => simp [unspent, found, used]
    | false => simp [unspent, found, kept grant found used]

/-- A change that grants nothing, lets nothing through and only adds purges to the record. -/
theorem Accounted.frame (h : Accounted o) (sound : Sound o'.desk) (grows : Grows o o')
    (known : ∀ id ch, o'.challenges.get? id = some ch → ∃ old, o.challenges.get? id = some old)
    (steps : o'.steps = o.steps) (purges : List Purge)
    (log : o'.log = purges.map .purged ++ o.log)
    (grants : ∀ k grant, o'.grants.get? k = some grant → grant.used = false →
      o.grants.get? k = some grant ∧ ∀ p ∈ purges, p.covers k = false) :
    Accounted o' where
  sound := sound
  known := by
    intro id ch found
    obtain ⟨old, at_⟩ := known id ch found
    obtain ⟨v, row⟩ := h.known id old at_
    obtain ⟨v', row', -⟩ := grows.evolves id v row
    exact ⟨v', row'⟩
  minting := by
    intro id k attached
    obtain ⟨⟨ch, found, keyed⟩, v, row, bound⟩ := h.minting id k (steps ▸ attached)
    obtain ⟨ch', found', same⟩ := grows.challenges id ch found
    obtain ⟨v', row', -, operator, -⟩ := grows.evolves id v row
    exact ⟨⟨ch', found', same.trans keyed⟩, v', row', operator.trans bound⟩
  backed := by
    intro k grant found unused
    obtain ⟨old, spared⟩ := grants k grant found unused
    refine (h.backed k grant old unused).mono grows log ?_
    intro e mem spends
    obtain ⟨p, given, rfl⟩ := List.mem_map.mp mem
    rw [Spends, spared p given] at spends
    cases spends
  balance := by
    intro k
    have before := h.balance k
    have spent := unspent_le (k := k) fun grant found unused => (grants k grant found unused).1
    have approved := approvals_mono _ grows log k
    have allowed : allowedCalls o' k = allowedCalls o k := by
      have none_allowed : (purges.map Entry.purged).countP (isAllowed (T := T) k) = 0 := by
        rw [List.countP_eq_zero]
        intro e mem
        obtain ⟨p, -, rfl⟩ := List.mem_map.mp mem
        exact Bool.false_ne_true
      rw [allowedCalls, log, List.countP_append, none_allowed, Nat.zero_add, allowedCalls]
    omega

theorem Accounted.spend [LinearOrder T] (h : Accounted o) {now : T} {key : GrantKey}
    {grants : GrantStore T} (ok : o.grants.consume now key = (true, grants)) :
    Accounted { o with grants := grants, log := .allowed key now :: o.log } := by
  obtain ⟨grant, found, unused, -, rfl⟩ := consume_true ok
  have named : grant.key = key := Table.key_of_get? found
  have grows : Grows o { o with
      grants := o.grants.put { grant with used := true }, log := .allowed key now :: o.log } :=
    ⟨.refl o.desk, fun _ mem => mem, fun _ ch at_ => ⟨ch, at_, rfl⟩⟩
  have later : ∀ k g, (o.grants.put { grant with used := true }).get? k = some g →
      g.used = false → o.grants.get? k = some g ∧ key ≠ k := by
    intro k g at_ free
    rw [Table.get?_put, named] at at_
    split at at_
    · cases Option.some.inj at_
      cases free
    · rename_i other
      exact ⟨at_, other⟩
  refine { h with backed := ?_, balance := ?_ }
  · intro k g at_ free
    obtain ⟨old, other⟩ := later k g at_ free
    have apart : ∀ e ∈ [Entry.allowed key now], ¬ Spends k e := by
      simpa [Spends] using other
    exact (h.backed k g old free).mono grows rfl apart
  · intro k
    have before := h.balance k
    have fewer := unspent_le (k := k) fun g at_ free => (later k g at_ free).1
    have same : approvals o k = approvals { o with
        grants := o.grants.put { grant with used := true }, log := .allowed key now :: o.log } k := by
      rw [approvals, approvals, List.countP_cons_of_neg Bool.false_ne_true]
      rfl
    rw [← same]
    simp only [allowedCalls, List.countP_cons, isAllowed]
    by_cases own : key = k
    · subst own
      have spent : unspent (o.grants.put { grant with used := true }) key = 0 := by
        rw [unspent, Table.get?_put, if_pos named]
        rfl
      have held : unspent o.grants key = 1 := by
        rw [unspent, found]
        simp [unused]
      rw [spent]
      rw [held, allowedCalls] at before
      simpa using before
    · rw [allowedCalls] at before
      simp only [own, decide_false, Bool.false_eq_true, if_false]
      omega

omit [Add T] [NatCast T] in
theorem unspent_le_one (s : GrantStore T) (k : GrantKey) : unspent s k ≤ 1 := by
  cases found : s.get? k with
  | none => simp [unspent, found]
  | some grant => cases used : grant.used <;> simp [unspent, found, used]

omit [Add T] [NatCast T] in
theorem Approval.counted {k : GrantKey} {c : Claim} {now : T} (h : Approval o k c) :
    isApproval o k (.committed c now) = true := by
  obtain ⟨ch, found, keyed⟩ := h.challenge
  simp [isApproval, h.option, found, keyed]

section
variable (h : Accounted o)
include h

theorem Accounted.record {c : Claim} {now : T} (adv : Advances o.desk o'.desk)
    (commits : ∀ c ∈ o.desk.commits, c ∈ o'.desk.commits)
    (challenges : o'.challenges = o.challenges) (steps : o'.steps = o.steps)
    (log : o'.log = .committed c now :: o.log)
    (minted : ∀ k grant, o'.grants.get? k = some grant → grant.used = false →
      o.grants.get? k = some grant ∨
        Approval o' k c ∧ grant.expiresAt = now + GrantStore.defaultTtlS) : Accounted o' := by
  have grows : Grows o o' :=
    ⟨adv.evolves, commits, fun _ ch at_ => ⟨ch, challenges ▸ at_, rfl⟩⟩
  refine ⟨adv.sound, ?_, ?_, ?_, ?_⟩
  · intro id ch found
    obtain ⟨v, row⟩ := h.known id ch (challenges ▸ found)
    obtain ⟨v', row', -⟩ := adv.evolves id v row
    exact ⟨v', row'⟩
  · intro id k attached
    obtain ⟨challenge, v, row, bound⟩ := h.minting id k (steps ▸ attached)
    obtain ⟨v', row', -, operator, -⟩ := adv.evolves id v row
    exact ⟨challenges ▸ challenge, v', row', operator.trans bound⟩
  · intro k grant found unused
    rcases minted k grant found unused with old | ⟨approval, expiry⟩
    · have quiet : ∀ e ∈ [Entry.committed c now], ¬ Spends k e := by
        simp [Spends]
      exact (h.backed k grant old unused).mono grows log quiet
    · exact ⟨[], c, now, o.log, log, approval, expiry, nofun⟩
  · intro k
    have before := h.balance k
    have approved := approvals_mono [.committed c now] grows log k
    have allowed : allowedCalls o' k = allowedCalls o k := by
      rw [allowedCalls, log, List.countP_cons_of_neg Bool.false_ne_true, allowedCalls]
    -- either the approval just recorded pays for the grant, or the grant is an old one
    by_cases paid : isApproval o' k (.committed c now) = true
    · have one := unspent_le_one o'.grants k
      rw [List.countP_cons_of_pos paid, List.countP_nil] at approved
      omega
    · have fewer : unspent o'.grants k ≤ unspent o.grants k := by
        refine unspent_le fun grant found unused => ?_
        rcases minted k grant found unused with old | ⟨approval, -⟩
        · exact old
        · exact absurd approval.counted paid
      omega

theorem Accounted.move {d : Desk T} (adv : Advances o.desk d)
    (commits : ∀ c ∈ o.desk.commits, c ∈ d.commits) : Accounted { o with desk := d } :=
  h.frame adv.sound ⟨adv.evolves, commits, fun _ ch at_ => ⟨ch, at_, rfl⟩⟩
    (fun _ ch at_ => ⟨ch, at_⟩) rfl [] rfl fun _ _ found _ => ⟨found, nofun⟩

theorem Accounted.shrink {grants : GrantStore T}
    (fewer : ∀ k grant, grants.get? k = some grant → grant.used = false →
      o.grants.get? k = some grant) : Accounted { o with grants := grants } :=
  h.frame h.sound ⟨.refl o.desk, fun _ mem => mem, fun _ ch at_ => ⟨ch, at_, rfl⟩⟩
    (fun _ ch at_ => ⟨ch, at_⟩) rfl [] rfl fun k grant found unused =>
      ⟨fewer k grant found unused, nofun⟩

theorem Accounted.purge (p : Purge) :
    Accounted { o with grants := (o.grants.purge p).2, log := .purged p :: o.log } := by
  refine h.frame h.sound ⟨.refl o.desk, fun _ mem => mem, fun _ ch at_ => ⟨ch, at_, rfl⟩⟩
    (fun _ ch at_ => ⟨ch, at_⟩) rfl [p] rfl ?_
  intro k grant found _
  obtain ⟨old, spared⟩ := purgeWhere_get found
  rw [Table.key_of_get? old] at spared
  exact ⟨old, by simpa using spared⟩

theorem Accounted.entries (entries : Table (Prod.fst : ChallengeKey × Nat → ChallengeKey)) :
    Accounted { o with entries := entries } :=
  h.frame h.sound ⟨.refl o.desk, fun _ mem => mem, fun _ ch at_ => ⟨ch, at_, rfl⟩⟩
    (fun _ ch at_ => ⟨ch, at_⟩) rfl [] rfl fun _ _ found _ => ⟨found, nofun⟩

theorem Accounted.latch {id : Nat} {ch : Challenge}
    (found : o.challenges.get? id = some ch) {ch' : Challenge} (req : ch'.req = ch.req)
    (key : ch'.key = ch.key) :
    Accounted ({ o with challenges := o.challenges.put ch' }.maybeRemove id) := by
  have named : ch'.req = id := req.trans (Table.key_of_get? found)
  have latched : Accounted { o with challenges := o.challenges.put ch' } := by
    refine h.frame h.sound ⟨.refl o.desk, fun _ mem => mem, ?_⟩ ?_ rfl [] rfl
      fun _ _ at_ _ => ⟨at_, nofun⟩
    · intro i old at_
      rw [Table.get?_put]
      split
      · rename_i same
        rw [← same, named, found] at at_
        exact ⟨ch', rfl, by rw [key, Option.some.inj at_]⟩
      · exact ⟨old, at_, rfl⟩
    · intro i new at_
      rw [Table.get?_put] at at_
      split at at_
      · rename_i same
        exact ⟨ch, by rw [← same, named, found]⟩
      · exact ⟨new, at_⟩
  unfold Office.maybeRemove
  split
  · split
    · exact latched.entries _
    · exact latched
  · exact latched

theorem Accounted.attach (ch : Challenge) (commit : CommitStep) {v : View}
    (row : seen o.desk.broker ch.req = some v) (unknown : o.challenges.get? ch.req = none)
    (own : ∀ k, commit = .mint k → ch.key = .grant k ∧ v.operatorId = .int k.operatorId) :
    Accounted { o with
      steps := o.steps.put (ch.req, commit), challenges := o.challenges.put ch } := by
  have older : ∀ id old, o.challenges.get? id = some old →
      (o.challenges.put ch).get? id = some old := by
    intro id old at_
    rw [Table.get?_put, if_neg, at_]
    intro same
    rw [← same, unknown] at at_
    cases at_
  have grows : Grows o { o with
      steps := o.steps.put (ch.req, commit), challenges := o.challenges.put ch } :=
    ⟨.refl o.desk, fun _ mem => mem, fun id old at_ => ⟨old, older id old at_, rfl⟩⟩
  refine ⟨h.sound, ?_, ?_, ?_, ?_⟩
  · intro id found at_
    rw [Table.get?_put] at at_
    split at at_
    · rename_i same
      exact ⟨v, same ▸ row⟩
    · exact h.known id found at_
  · intro id k attached
    rw [Table.get?_put] at attached
    split at attached
    · rename_i same
      obtain rfl : ch.req = id := same
      obtain ⟨keyed, bound⟩ := own k (Prod.mk.inj (Option.some.inj attached)).2
      exact ⟨⟨ch, Table.get?_put_self _ ch, keyed⟩, v, row, bound⟩
    · obtain ⟨⟨old, at_, keyed⟩, rest⟩ := h.minting id k attached
      exact ⟨⟨old, older id old at_, keyed⟩, rest⟩
  · intro k grant found unused
    exact (h.backed k grant found unused).mono grows (List.nil_append _).symm nofun
  · intro k
    have before := h.balance k
    have approved := approvals_mono [] grows rfl k
    exact before.trans ((Nat.le_add_left _ _).trans approved)

end

end Accounting

section Stepping
variable [LinearOrder T] [Add T] [Sub T] [Zero T] [NatCast T] {o : Office T}

omit [NatCast T] in
theorem commits_step (d : Desk T) (e : Event T) : ∀ c ∈ d.commits, c ∈ (d.step e).commits := by
  intro c mem
  cases e <;> simp only [Desk.step] <;> first | exact mem | skip
  case register => split <;> exact mem
  case claim => split <;> exact mem
  case setFinishHook => split <;> exact mem
  case commit =>
    split
    · exact List.mem_cons_of_mem _ mem
    · exact mem

omit [NatCast T] in
theorem commit_step_commits {d : Desk T} {c : Claim} (ok : (d.broker.commit c).1 = true) :
    (d.step (.commit c)).commits = c :: d.commits := by
  simp only [Desk.step]
  split
  · rfl
  · rename_i refused
    rw [refused] at ok
    cases ok

theorem Accounted.commit (h : Accounted o) {now : T} {c : Claim} (issued : c ∈ o.desk.issued) :
    Accounted (o.commit now c) := by
  have adv : Advances o.desk (o.desk.step (.commit c)) := h.sound.step (e := .commit c) issued
  have commits := commits_step o.desk (.commit c)
  unfold Office.commit
  dsimp only
  split
  · rename_i ok
    split
    · rename_i k attached
      split
      · rename_i option
        refine h.record adv commits rfl rfl rfl ?_
        intro k' grant found unused
        rw [GrantStore.mint, Table.get?_put] at found
        split at found
        · rename_i same
          subst same
          obtain ⟨challenge, v, row, bound⟩ := h.minting c.req k (by
            rw [attached, ← Table.key_of_get? attached])
          obtain ⟨w, row', n, -, operator, actor⟩ := h.sound.bound c issued
          obtain ⟨v', row'', -, kept, -⟩ := adv.evolves c.req v row
          have same : v = w := Option.some.inj (row.symm.trans row')
          refine .inr ⟨⟨option, ?_, ?_, challenge, v', row'', kept.trans bound⟩, ?_⟩
          · rw [actor, ← operator, ← same, bound]
          · rw [commit_step_commits ok]
            exact List.mem_cons_self
          · rw [← Option.some.inj found]
        · exact .inl found
      · exact h.record adv commits rfl rfl rfl fun _ _ found _ => .inl found
    · exact h.record adv commits rfl rfl rfl fun _ _ found _ => .inl found
  · exact h.frame adv.sound ⟨adv.evolves, commits, fun _ ch at_ => ⟨ch, at_, rfl⟩⟩
      (fun _ ch at_ => ⟨ch, at_⟩) rfl [] rfl fun _ _ found _ => ⟨found, nofun⟩

omit [LinearOrder T] [Sub T] [Zero T] [NatCast T] in
theorem register_fresh (h : Sound o.desk) {rid : String} (fresh : Fresh rid o) (now timeoutS : T)
    (chatId : Int) (metadata : Meta) :
    o.desk.broker.register now (challengeBrokerKey chatId rid) timeoutS metadata false =
      .ok (.created o.desk.broker.nextId,
        o.desk.broker.enroll now (challengeBrokerKey chatId rid) timeoutS metadata) := by
  have free : o.desk.broker.live.get? (challengeBrokerKey chatId rid) = none := by
    by_contra present
    obtain ⟨⟨key, id⟩, entry⟩ := Option.ne_none_iff_exists'.mp present
    obtain rfl : key = _ := Table.key_of_get? entry
    obtain ⟨operator, row⟩ := h.live_row entry
    exact fresh id _ row rfl
  have unretired : o.desk.broker.retired.get? (challengeBrokerKey chatId rid) = none := by
    by_contra present
    obtain ⟨entry, at_⟩ := Option.ne_none_iff_exists'.mp present
    obtain ⟨operator, row⟩ := h.tombstone at_
    exact fresh _ _ row rfl
  simp only [Broker.register, free, unretired]
  rfl

theorem Accounted.enter (h : Accounted o) {now timeoutS : T} {key : ChallengeKey}
    {chatId operatorId : Int} {rid : String} {commit : CommitStep} (fresh : Fresh rid o)
    (own : ∀ k, commit = .mint k → key = .grant k ∧ operatorId = k.operatorId) :
    Accounted (o.enter now key chatId operatorId rid commit timeoutS).2 := by
  have registered := register_fresh h.sound fresh now timeoutS chatId
    { operatorId := .int operatorId }
  generalize event : (Event.register now (challengeBrokerKey chatId rid) timeoutS
    { operatorId := .int operatorId } false) = e
  have held : Held e o.desk := by
    rw [← event]
    trivial
  have row : seen (o.desk.step e).broker o.desk.broker.nextId =
      some ⟨challengeBrokerKey chatId rid, none, .int operatorId⟩ := by
    simp only [← event, Desk.step, registered]
    rw [seen_enroll, if_pos rfl]
  have unknown : o.challenges.get? o.desk.broker.nextId = none := by
    by_contra present
    obtain ⟨ch, found⟩ := Option.ne_none_iff_exists'.mp present
    obtain ⟨v, old⟩ := h.known _ ch found
    exact lt_irrefl _ (h.sound.numbered old)
  let ch : Challenge :=
    { req := o.desk.broker.nextId, key := key, scope := challengeScope chatId, rid := rid }
  have moved : Accounted { o with desk := o.desk.step e } :=
    h.move (h.sound.step held) (commits_step o.desk e)
  have attached := moved.attach ch commit row unknown ?_
  · simp only [Office.enter, registered, event]
    exact attached.entries _
  · intro k minting
    obtain ⟨keyed, rfl⟩ := own k minting
    exact ⟨keyed, rfl⟩

theorem Accounted.cancelMatching (h : Accounted o) (f : CancelFilter) :
    Accounted (o.cancelMatching f) := by
  unfold Office.cancelMatching
  generalize o.matching f = keys
  induction keys generalizing o with
  | nil => exact h
  | cons key rest ih =>
    have first := h.move (h.sound.step (e := .cancel key "challenge_cancelled") trivial)
      (commits_step o.desk _)
    exact ih first

theorem Accounted.step (h : Accounted o) (rt : Runtime T) {a : Action T} (ok : Admitted a o) :
    Accounted (step rt a o) := by
  cases a with
  | call call =>
    have effect := hook_effect rt call o
    simp only [AuthzApprovals.step]
    generalize o.hook rt call = r at effect
    cases effect with
    | quiet d kept => exact h
    | spent key grants spent => exact h.spend spent
    | posted key req =>
      exact h.enter ok fun k same => by
        cases same
        exact ⟨rfl, rfl⟩
  | consent now name artifactId plugin chatId operatorId text rid timeoutS =>
    simp only [AuthzApprovals.step]
    rcases registerChallenge_cases o now (.consent name artifactId plugin) chatId operatorId text
      rid .recordConsent timeoutS with ⟨same, -⟩ | entered
    · rw [same]
      exact h
    · rw [entered]
      exact h.enter ok fun _ => nofun
  | broker e => exact h.move (h.sound.step ok.1) (commits_step o.desk e)
  | commit now c => exact h.commit ok
  | settleRequest id =>
    simp only [AuthzApprovals.step, Office.settleRequest]
    split
    · rename_i found
      exact h.latch found rfl rfl
    · exact h
  | settleSetup id =>
    simp only [AuthzApprovals.step, Office.settleSetup]
    split
    · rename_i found
      exact h.latch found rfl rfl
    · exact h
  | cancelMatching f => exact h.cancelMatching f
  | consume now key => exact h.shrink fun _ _ => consume_unused
  | purge p => exact h.purge p
  | sweep now => exact h.shrink fun _ _ found _ => (purgeWhere_get found).1

theorem accounted_of_runs {rt : Runtime T} {actions : List (Action T)}
    (run : Runs (AuthzApprovals.step rt) Admitted .init actions o) : Accounted o :=
  run.invariant (fun _ _ ok h => h.step rt ok) accounted_init

/-- In every interleaving, the hook lets a protected call through only on an approval of that
very call, given less than the grant lifetime ago by the operator its challenge is bound to and
not spent or purged since; so there are never more calls than approvals. -/
theorem one_approval_one_call {rt : Runtime T} {actions : List (Action T)}
    (run : Runs (AuthzApprovals.step rt) Admitted .init actions o) (k : GrantKey) :
    (∀ call, (o.hook rt call).1 = .allow k →
      ∃ recent c time older, o.log = recent ++ .committed c time :: older ∧ Approval o k c ∧
        call.now < time + GrantStore.defaultTtlS ∧ ∀ e ∈ recent, ¬ Spends k e) ∧
      allowedCalls o k ≤ approvals o k := by
  have h := accounted_of_runs run
  refine ⟨?_, (Nat.le_add_right _ _).trans (h.balance k)⟩
  intro call allowed
  have effect := hook_effect rt call o
  generalize o.hook rt call = r at effect allowed
  cases effect with
  | quiet d kept => exact absurd allowed (kept k)
  | posted key req => cases allowed
  | spent key grants spent =>
    cases allowed
    obtain ⟨grant, found, unused, alive, -⟩ := consume_true spent
    obtain ⟨recent, c, time, older, log, approval, expiry, quiet⟩ := h.backed k grant found unused
    exact ⟨recent, c, time, older, log, approval, expiry ▸ alive, quiet⟩

end Stepping

section Example

/-- A runtime over whole seconds whose canonical form of any arguments is the empty object. -/
def plainRuntime : Runtime Int where
  py := JobDurability.plainBuiltins
  canonicalArgsJson := fun _ => some "\x7b\x7d"
  sha256 := fun s => .ok s
  renderChallengeMessage := fun toolName _ json _ _ => .ok (toolName ++ json)

def unlockCall (now : Int) (rid : String) : ToolCall Int where
  now := now
  role := "butler"
  protectedMap := fun _ => some ⟨"locks@1", none⟩
  deps := some ⟨some fun userId => .ok (userId = 7), none⟩
  turn :=
    { origin := [("message_type", .str "channel_in"), ("channel", .str "telegram"),
        ("source", .str "telegram"), ("chat_id", .int 9), ("user_id", .int 7),
        ("execution_role", .str "butler"), ("role", .str "butler")]
      engagement := none }
  toolName := "unlock"
  toolInput := .obj []
  rid := rid

def unlockKey : GrantKey := ⟨7, 9, "butler", "locks@1", "unlock", "\x7b\x7d", ""⟩

/-- The call is made, its challenge is tapped by operator 7 and the commit goes through. -/
def approvedUnlock : List (Action Int) :=
  [.call (unlockCall 0 "r1"), .broker (.claim (challengeBrokerKey 9 "r1") 0 (.int 7) none),
    .commit 20 ⟨0, 0, 0, .int 7, none⟩]

def approvedOffice : Office Int :=
  approvedUnlock.foldl (fun o a => step plainRuntime a o) .init

theorem approvedUnlock_run :
    Runs (step plainRuntime) Admitted .init approvedUnlock approvedOffice := by
  refine .cons ?_ (.cons ⟨trivial, fun _ => nofun⟩ (.cons ?_ (.nil _)))
  · intro id v none
    cases none
  · exact List.mem_cons_self

/-- Within the lifetime of the grant the same call is let through on that approval. -/
theorem approved_unlock_allowed :
    (approvedOffice.hook plainRuntime (unlockCall 60 "r2")).1 = .allow unlockKey ∧
      ∃ recent c time older, approvedOffice.log = recent ++ .committed c time :: older ∧
        Approval approvedOffice unlockKey c ∧ (60 : Int) < time + GrantStore.defaultTtlS ∧
          ∀ e ∈ recent, ¬ Spends unlockKey e :=
  ⟨by decide, (one_approval_one_call approvedUnlock_run unlockKey).1 (unlockCall 60 "r2") (by decide)⟩

end Example

end Casa.AuthzApprovals
