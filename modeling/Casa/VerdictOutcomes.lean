import Casa.VerdictBroker
import Casa.StepRuns
import Mathlib.Algebra.Ring.Int.Defs

/-! Every request of the broker is resolved exactly once and by a legitimate finisher,
in every interleaving of registrations, claims, commits, timers and cancellations. -/

namespace Casa.VerdictOutcomes
open KeyedTable StepRuns VerdictBroker VerdictBroker.Broker

variable {T : Type}

/-- The broker with what its callers hold: the claims handed out, newest first, and
those whose `commit` returned `True`. -/
structure Desk (T : Type) where
  broker : Broker T
  issued : List Claim
  commits : List Claim

def Desk.init : Desk T := ⟨.init, [], []⟩

inductive Event (T : Type) where
  | register (now : T) (key : Key) (timeoutS : T) (metadata : Meta) (supersede : Bool)
  | claim (key : Key) (optionIndex : Int) (actorId : Identity) (optionIndices : Option (List Int))
  | commit (c : Claim)
  | abortClaim (now : T) (c : Claim)
  | timeout (handle : Nat)
  | popTombstone (key : Key) (entryId : Nat)
  | unregister (key : Key)
  | cancel (key : Key) (reason : String)
  | cancelScope (namespace_ scope reason : String)
  | cancelAll (reason : String)
  | toggleSelection (key : Key) (idx : Int)
  | setFinishHook (id : Nat)
  | ensurePosted (id : Nat)
  | setupDone (id : Nat) (posted : Option Int)

def Held (e : Event T) (d : Desk T) : Prop :=
  match e with
  | .commit c | .abortClaim _ c => c ∈ d.issued
  | _ => True

def Desk.step [LinearOrder T] [Add T] [Sub T] [Zero T] (e : Event T) (d : Desk T) : Desk T :=
  match e with
  | .register now key timeoutS metadata supersede =>
      match d.broker.register now key timeoutS metadata supersede with
      | .ok (_, b) => { d with broker := b }
      | .error _ => d
  | .claim key optionIndex actorId optionIndices =>
      match d.broker.claim key optionIndex actorId optionIndices with
      | (.ok c, b) => { d with broker := b, issued := c :: d.issued }
      | (.error _, b) => { d with broker := b }
  | .commit c =>
      match d.broker.commit c with
      | (true, b) => { d with broker := b, commits := c :: d.commits }
      | (false, b) => { d with broker := b }
  | .abortClaim now c => { d with broker := d.broker.abortClaim now c }
  | .timeout handle => { d with broker := d.broker.timeout handle }
  | .popTombstone key entryId => { d with broker := d.broker.popTombstone key entryId }
  | .unregister key => { d with broker := d.broker.unregister key }
  | .cancel key reason => { d with broker := (d.broker.cancel key reason).2 }
  | .cancelScope namespace_ scope reason =>
      { d with broker := (d.broker.cancelScope namespace_ scope reason).2 }
  | .cancelAll reason => { d with broker := (d.broker.cancelAll reason).2 }
  | .toggleSelection key idx => { d with broker := (d.broker.toggleSelection key idx).2 }
  | .setFinishHook id =>
      match d.broker.requests.get? id with
      | some req => { d with broker := d.broker.setFinishHook req }
      | none => d
  | .ensurePosted id => { d with broker := d.broker.ensurePosted id }
  | .setupDone id posted => { d with broker := d.broker.setupDone id posted }

section Views

/-- What the protocol is about in a request object; timers, hooks and setup come and go. -/
structure View where
  key : Key
  future : Option Outcome
  operatorId : Identity

def view (req : PendingRequest T) : View := ⟨req.key, req.future, req.metadata.operatorId⟩

def seen (b : Broker T) (id : Nat) : Option View := (b.requests.get? id).map view

theorem seen_eq_some_iff {b : Broker T} {id : Nat} {v : View} :
    seen b id = some v ↔ ∃ req, b.requests.get? id = some req ∧ view req = v :=
  Option.map_eq_some_iff

@[simp] theorem seen_store (b : Broker T) (req : PendingRequest T) (id : Nat) :
    seen (b.store req) id = if req.id = id then some (view req) else seen b id := by
  simp only [seen, store, Table.get?_put]
  split <;> rfl

theorem seen_store_same {b : Broker T} {req req' : PendingRequest T}
    (row : b.requests.get? req.id = some req) (id : req'.id = req.id) (same : view req' = view req)
    (i : Nat) : seen (b.store req') i = seen b i := by
  rw [seen_store, id, same]
  split
  · rename_i at_
    rw [← at_, seen, row]
    rfl
  · rfl

end Views

structure Sound (d : Desk T) : Prop where
  live_row : ∀ {key id}, d.broker.live.get? key = some (key, id) →
    ∃ operator, seen d.broker id = some ⟨key, none, operator⟩
  pending_live : ∀ {id v}, seen d.broker id = some v → v.future = none →
    d.broker.live.get? v.key = some (v.key, id)
  apart : ∀ {key}, d.broker.live.get? key ≠ none → d.broker.retired.get? key = none
  tombstone : ∀ {key entry}, d.broker.retired.get? key = some entry →
    ∃ operator, seen d.broker entry.entryId = some ⟨key, some entry.outcome, operator⟩
  named : ∀ {id v}, seen d.broker id = some v → validNamespace v.key.namespace_ = true
  numbered : ∀ {id v}, seen d.broker id = some v → id < d.broker.nextId
  minted : ∀ c ∈ d.issued, c.token < d.broker.nextToken
  distinct : (d.issued.map Claim.token).Nodup
  bound : ∀ c ∈ d.issued, ∃ v, seen d.broker c.req = some v ∧
    ∃ n : Int, 0 < n ∧ v.operatorId = .int n ∧ c.actorId = .int n
  once : (d.commits.map Claim.req).Nodup
  committed : ∀ c ∈ d.commits, c ∈ d.issued ∧ ∃ v, seen d.broker c.req = some v ∧
    v.future = some c.outcome
  answered : ∀ {id v outcome}, seen d.broker id = some v → v.future = some outcome →
    outcome.isAnswered = true → ∃ c ∈ d.commits, c.req = id

def Evolves (d d' : Desk T) : Prop :=
  ∀ id v, seen d.broker id = some v → ∃ v', seen d'.broker id = some v' ∧ v'.key = v.key ∧
    v'.operatorId = v.operatorId ∧ ∀ outcome, v.future = some outcome → v'.future = some outcome

theorem Evolves.refl (d : Desk T) : Evolves d d :=
  fun _ v row => ⟨v, row, rfl, rfl, fun _ h => h⟩

theorem Evolves.trans {a b c : Desk T} (first : Evolves a b) (second : Evolves b c) :
    Evolves a c := by
  intro id v row
  obtain ⟨v', row', key, operator, future⟩ := first id v row
  obtain ⟨v'', row'', key', operator', future'⟩ := second id v' row'
  exact ⟨v'', row'', key'.trans key, operator'.trans operator,
    fun outcome h => future' outcome (future outcome h)⟩

structure Advances (d d' : Desk T) : Prop where
  sound : Sound d'
  evolves : Evolves d d'

theorem Sound.advances {d : Desk T} (h : Sound d) : Advances d d := ⟨h, .refl d⟩

theorem Advances.trans {a b c : Desk T} (first : Advances a b)
    (second : Sound b → Advances b c) : Advances a c :=
  ⟨(second first.sound).sound, first.evolves.trans (second first.sound).evolves⟩

section Changes
variable {d : Desk T} {b : Broker T}

theorem Sound.touch (h : Sound d) (live : b.live = d.broker.live)
    (retired : b.retired = d.broker.retired) (same : ∀ id, seen b id = seen d.broker id)
    (ids : d.broker.nextId ≤ b.nextId) (tokens : d.broker.nextToken ≤ b.nextToken) :
    Advances d { d with broker := b } := by
  refine ⟨⟨?_, ?_, ?_, ?_, ?_, ?_, ?_, h.distinct, ?_, h.once, ?_, ?_⟩, ?_⟩
  · simp only [live, same]
    exact h.live_row
  · simp only [live, same]
    exact h.pending_live
  · simp only [live, retired]
    exact h.apart
  · simp only [retired, same]
    exact h.tombstone
  · simp only [same]
    exact h.named
  · intro id v row
    exact lt_of_lt_of_le (h.numbered (same id ▸ row)) ids
  · exact fun c mem => lt_of_lt_of_le (h.minted c mem) tokens
  · simp only [same]
    exact h.bound
  · simp only [same]
    exact h.committed
  · simp only [same]
    exact h.answered
  · intro id v row
    exact ⟨v, (same id).trans row, rfl, rfl, fun _ set => set⟩

theorem Sound.issue (h : Sound d) {c : Claim} {v : View} (token : c.token = d.broker.nextToken)
    (row : seen d.broker c.req = some v)
    (actor : ∃ n : Int, 0 < n ∧ v.operatorId = .int n ∧ c.actorId = .int n)
    (minted : d.broker.nextToken < b.nextToken) (live : b.live = d.broker.live)
    (retired : b.retired = d.broker.retired) (same : ∀ id, seen b id = seen d.broker id)
    (ids : d.broker.nextId ≤ b.nextId) :
    Advances d { d with broker := b, issued := c :: d.issued } := by
  have next := h.touch live retired same ids minted.le
  refine ⟨{ next.sound with minted := ?_, distinct := ?_, bound := ?_, committed := ?_ },
    next.evolves⟩
  · intro c' mem
    rcases List.mem_cons.mp mem with rfl | old
    · exact token ▸ minted
    · exact (h.minted c' old).trans minted
  · refine List.nodup_cons.mpr ⟨fun mem => ?_, h.distinct⟩
    obtain ⟨c', old, clash⟩ := List.mem_map.mp mem
    have := h.minted c' old
    omega
  · intro c' mem
    rcases List.mem_cons.mp mem with rfl | old
    · exact ⟨v, (same c'.req).trans row, actor⟩
    · exact next.sound.bound c' old
  · intro c' mem
    obtain ⟨issued, row⟩ := next.sound.committed c' mem
    exact ⟨List.mem_cons_of_mem c issued, row⟩

section Enrolling
variable [Add T] {now timeoutS : T} {key : Key} {metadata : Meta}

theorem seen_enroll (id : Nat) : seen (b.enroll now key timeoutS metadata) id =
    if b.nextId = id then some ⟨key, none, metadata.operatorId⟩ else seen b id := by
  simp only [seen, Broker.enroll, Table.get?_put]
  split <;> rfl

theorem live_enroll (k : Key) : (b.enroll now key timeoutS metadata).live.get? k =
    if key = k then some (key, b.nextId) else b.live.get? k :=
  Table.get?_put b.live (key, b.nextId) k

theorem Sound.seen_enroll_old (h : Sound d) {id : Nat} {v : View}
    (row : seen d.broker id = some v) :
    seen (d.broker.enroll now key timeoutS metadata) id = some v := by
  have older := h.numbered row
  rw [seen_enroll, if_neg (by omega), row]

theorem seen_enroll_cases {id : Nat} {v : View}
    (row : seen (b.enroll now key timeoutS metadata) id = some v) :
    (id = b.nextId ∧ v = ⟨key, none, metadata.operatorId⟩) ∨ seen b id = some v := by
  rw [seen_enroll] at row
  split at row
  · rename_i new
    exact .inl ⟨new.symm, (Option.some.inj row).symm⟩
  · exact .inr row

theorem Sound.enroll (h : Sound d) (valid : validNamespace key.namespace_ = true)
    (free : d.broker.live.get? key = none) (unretired : d.broker.retired.get? key = none) :
    Advances d { d with broker := d.broker.enroll now key timeoutS metadata } := by
  refine ⟨{
    minted := h.minted
    distinct := h.distinct
    once := h.once
    live_row := ?_
    pending_live := ?_
    apart := ?_
    tombstone := ?_
    named := ?_
    numbered := ?_
    bound := ?_
    committed := ?_
    answered := ?_ }, fun id v row => ⟨v, h.seen_enroll_old row, rfl, rfl, fun _ set => set⟩⟩
  · intro k id entry
    rw [live_enroll] at entry
    split at entry
    · rename_i same
      subst same
      obtain ⟨-, rfl⟩ := Prod.mk.inj (Option.some.inj entry)
      exact ⟨metadata.operatorId, by rw [seen_enroll, if_pos rfl]⟩
    · obtain ⟨operator, row⟩ := h.live_row entry
      exact ⟨operator, h.seen_enroll_old row⟩
  · intro id v row pending
    rw [live_enroll]
    rcases seen_enroll_cases row with ⟨rfl, rfl⟩ | row
    · rw [if_pos rfl]
    · have entry := h.pending_live row pending
      rw [if_neg, entry]
      intro same
      rw [← same, free] at entry
      cases entry
  · intro k present
    rw [live_enroll] at present
    split at present
    · rename_i same
      exact same ▸ unretired
    · exact h.apart present
  · intro k entry at_
    obtain ⟨operator, row⟩ := h.tombstone at_
    exact ⟨operator, h.seen_enroll_old row⟩
  · intro id v row
    rcases seen_enroll_cases row with ⟨_, rfl⟩ | row
    · exact valid
    · exact h.named row
  · intro id v row
    have above : id ≤ d.broker.nextId := by
      rcases seen_enroll_cases row with ⟨rfl, _⟩ | row
      · exact le_rfl
      · exact (h.numbered row).le
    exact Nat.lt_succ_of_le above
  · intro c mem
    obtain ⟨v, row, actor⟩ := h.bound c mem
    exact ⟨v, h.seen_enroll_old row, actor⟩
  · intro c mem
    obtain ⟨issued, v, row, future⟩ := h.committed c mem
    exact ⟨issued, v, h.seen_enroll_old row, future⟩
  · intro id v outcome row future
    rcases seen_enroll_cases row with ⟨_, rfl⟩ | row
    · cases future
    · exact h.answered row future

end Enrolling

theorem Sound.pop (h : Sound d) {key : Key} {pops : List (Key × Nat)} :
    Advances d { d with broker :=
      { d.broker with retired := d.broker.retired.remove key, tombstonePops := pops } } := by
  refine ⟨{ h with apart := ?_, tombstone := ?_ }, .refl d⟩
  · intro k present
    rw [Table.get?_remove]
    split
    · rfl
    · exact h.apart present
  · intro k entry at_
    rw [Table.get?_remove] at at_
    split at at_
    · cases at_
    · exact h.tombstone at_

/-- Who resolved a request: a committed claim of it, or a finisher that answers nothing. -/
def Finisher (d : Desk T) (id : Nat) (outcome : Outcome) (commits : List Claim) : Prop :=
  (commits = d.commits ∧ outcome.isAnswered = false) ∨
    ∃ c ∈ d.issued, c.req = id ∧ outcome = c.outcome ∧ commits = c :: d.commits

/-- `b` is the broker of `d` after the live request `id` was resolved and left its key, with or
without a tombstone. -/
structure Settles (d : Desk T) (b : Broker T) (key : Key) (id : Nat) (operator : Identity)
    (outcome : Outcome) : Prop where
  entry : d.broker.live.get? key = some (key, id)
  row : seen d.broker id = some ⟨key, none, operator⟩
  live : b.live = d.broker.live.remove key
  rows : ∀ i, seen b i = if id = i then some ⟨key, some outcome, operator⟩ else seen d.broker i
  retired : b.retired = d.broker.retired ∨
    ∃ metadata, b.retired = d.broker.retired.put ⟨key, outcome, metadata, id⟩

section Settling
variable {key : Key} {id : Nat} {operator : Identity} {outcome : Outcome} {commits : List Claim}

section
variable (x : Settles d b key id operator outcome)
include x

theorem Settles.self : seen b id = some ⟨key, some outcome, operator⟩ := by
  rw [x.rows, if_pos rfl]

theorem Settles.other {i : Nat} (ne : id ≠ i) : seen b i = seen d.broker i := by
  rw [x.rows, if_neg ne]

theorem Settles.view_eq {v : View}
    (found : seen d.broker id = some v) : v = ⟨key, none, operator⟩ :=
  Option.some.inj (found.symm.trans x.row)

theorem Settles.keep {i : Nat} {v : View} {o : Outcome}
    (found : seen d.broker i = some v) (set : v.future = some o) : seen b i = some v := by
  rw [x.other, found]
  rintro rfl
  rw [x.view_eq found] at set
  cases set

theorem Settles.back {i : Nat} {v : View} (found : seen b i = some v) :
    (i = id ∧ v = ⟨key, some outcome, operator⟩) ∨ (id ≠ i ∧ seen d.broker i = some v) := by
  by_cases same : id = i
  · subst same
    exact .inl ⟨rfl, Option.some.inj (found.symm.trans x.self)⟩
  · exact .inr ⟨same, x.other same ▸ found⟩

theorem Settles.entries (k : Key) :
    b.live.get? k = if key = k then none else d.broker.live.get? k := by
  rw [x.live, Table.get?_remove]

theorem Settles.live_row (h : Sound d) {k : Key} {i : Nat}
    (at_ : b.live.get? k = some (k, i)) : ∃ op, seen b i = some ⟨k, none, op⟩ := by
  rw [x.entries] at at_
  split at at_
  · cases at_
  · rename_i ne
    obtain ⟨op, found⟩ := h.live_row at_
    refine ⟨op, ?_⟩
    rw [x.other, found]
    rintro rfl
    exact ne (congrArg View.key (x.view_eq found)).symm

theorem Settles.pending_live (h : Sound d) {i : Nat}
    {v : View} (found : seen b i = some v) (pending : v.future = none) :
    b.live.get? v.key = some (v.key, i) := by
  rcases x.back found with ⟨_, rfl⟩ | ⟨ne, old⟩
  · cases pending
  · have at_ := h.pending_live old pending
    rw [x.entries, if_neg, at_]
    intro same
    rw [← same, x.entry, Option.some.injEq] at at_
    exact ne (Prod.mk.inj at_).2

theorem Settles.apart (h : Sound d) {k : Key}
    (present : b.live.get? k ≠ none) : b.retired.get? k = none := by
  rw [x.entries] at present
  split at present
  · exact absurd rfl present
  · rename_i ne
    have free := h.apart present
    rcases x.retired with same | ⟨metadata, put⟩
    · rw [same, free]
    · rw [put, Table.get?_put, if_neg ne, free]

theorem Settles.tombstone (h : Sound d) {k : Key}
    {e : RetiredEntry} (at_ : b.retired.get? k = some e) :
    ∃ op, seen b e.entryId = some ⟨k, some e.outcome, op⟩ := by
  have old : d.broker.retired.get? k = some e →
      ∃ op, seen b e.entryId = some ⟨k, some e.outcome, op⟩ := by
    intro at_
    obtain ⟨op, found⟩ := h.tombstone at_
    exact ⟨op, x.keep found rfl⟩
  rcases x.retired with same | ⟨metadata, put⟩
  · exact old (same ▸ at_)
  · rw [put, Table.get?_put] at at_
    split at at_
    · rename_i same
      obtain rfl := Option.some.inj at_
      obtain rfl : key = k := same
      exact ⟨operator, x.self⟩
    · exact old at_

theorem Settles.evolves : Evolves d { d with broker := b, commits := commits } := by
  intro i v found
  by_cases same : id = i
  · subst same
    obtain rfl := x.view_eq found
    exact ⟨⟨key, some outcome, operator⟩, x.self, rfl, rfl, fun _ set => by cases set⟩
  · exact ⟨v, (x.other same).trans found, rfl, rfl, fun _ set => set⟩

theorem Settles.uncommitted (h : Sound d) : ∀ c ∈ d.commits, c.req ≠ id := by
  rintro c mem rfl
  obtain ⟨_, v, found, set⟩ := h.committed c mem
  rw [x.view_eq found] at set
  cases set

theorem Settles.committed (h : Sound d)
    (finisher : Finisher d id outcome commits) : ∀ c ∈ commits, c ∈ d.issued ∧
      ∃ v, seen b c.req = some v ∧ v.future = some c.outcome := by
  have old : ∀ c ∈ d.commits, c ∈ d.issued ∧ ∃ v, seen b c.req = some v ∧
      v.future = some c.outcome := by
    intro c mem
    obtain ⟨issued, v, found, set⟩ := h.committed c mem
    exact ⟨issued, v, x.keep found set, set⟩
  rcases finisher with ⟨rfl, _⟩ | ⟨c, issued, rfl, rfl, rfl⟩
  · exact old
  · exact List.forall_mem_cons.mpr ⟨⟨issued, _, x.self, rfl⟩, old⟩

theorem Settles.answered (h : Sound d)
    (finisher : Finisher d id outcome commits) {i : Nat} {v : View} {o : Outcome}
    (found : seen b i = some v) (set : v.future = some o) (isAnswered : o.isAnswered = true) :
    ∃ c ∈ commits, c.req = i := by
  rcases x.back found with ⟨rfl, rfl⟩ | ⟨_, was⟩
  · obtain rfl := Option.some.inj set
    rcases finisher with ⟨_, quiet⟩ | ⟨c, _, same, _, rfl⟩
    · simp [quiet] at isAnswered
    · exact ⟨c, List.mem_cons_self, same⟩
  · obtain ⟨c, mem, same⟩ := h.answered was set isAnswered
    rcases finisher with ⟨rfl, _⟩ | ⟨c', _, _, _, rfl⟩
    · exact ⟨c, mem, same⟩
    · exact ⟨c, List.mem_cons_of_mem _ mem, same⟩

end

theorem Sound.settle (h : Sound d) (x : Settles d b key id operator outcome)
    (ids : b.nextId = d.broker.nextId) (tokens : b.nextToken = d.broker.nextToken)
    (finisher : Finisher d id outcome commits) :
    Advances d { d with broker := b, commits := commits } := by
  have later : Evolves d { d with broker := b, commits := commits } := x.evolves
  exact ⟨{
    live_row := x.live_row h
    pending_live := x.pending_live h
    apart := x.apart h
    tombstone := x.tombstone h
    distinct := h.distinct
    committed := x.committed h finisher
    answered := x.answered h finisher
    minted := tokens ▸ h.minted
    named := by
      intro i v found
      rcases x.back found with ⟨_, rfl⟩ | ⟨_, old⟩
      · have valid := h.named x.row
        exact valid
      · exact h.named old
    numbered := by
      intro i v found
      rw [ids]
      rcases x.back found with ⟨rfl, _⟩ | ⟨_, old⟩
      · exact h.numbered x.row
      · exact h.numbered old
    bound := by
      intro c mem
      obtain ⟨v, found, actor⟩ := h.bound c mem
      obtain ⟨v', found', -, operator, -⟩ := later c.req v found
      exact ⟨v', found', operator ▸ actor⟩
    once := by
      rcases finisher with ⟨rfl, _⟩ | ⟨c, _, rfl, _, rfl⟩
      · exact h.once
      · refine List.nodup_cons.mpr ⟨fun mem => ?_, h.once⟩
        obtain ⟨c', old, same⟩ := List.mem_map.mp mem
        exact x.uncommitted h c' old same }, later⟩

end Settling

end Changes

section Operations
variable {d : Desk T} {b : Broker T} {req : PendingRequest T} {key : Key} {outcome : Outcome}

theorem liveRequest_eq_some (found : b.liveRequest key = some req) :
    b.live.get? key = some (key, req.id) ∧ b.requests.get? req.id = some req := by
  obtain ⟨⟨key', id⟩, entry, row⟩ := Option.bind_eq_some_iff.mp found
  obtain rfl : key' = key := Table.key_of_get? entry
  obtain rfl : req.id = id := Table.key_of_get? row
  exact ⟨entry, row⟩

@[simp] theorem cancelTimer_live : (b.cancelTimer req).live = b.live := by
  unfold cancelTimer
  split <;> rfl

@[simp] theorem cancelTimer_retired : (b.cancelTimer req).retired = b.retired := by
  unfold cancelTimer
  split <;> rfl

@[simp] theorem cancelTimer_nextId : (b.cancelTimer req).nextId = b.nextId := by
  unfold cancelTimer
  split <;> rfl

@[simp] theorem cancelTimer_nextToken : (b.cancelTimer req).nextToken = b.nextToken := by
  unfold cancelTimer
  split <;> rfl

theorem seen_cancelTimer {id : Nat} (other : req.id ≠ id) :
    seen (b.cancelTimer req) id = seen b id := by
  unfold cancelTimer
  split
  · simp only [seen, Table.get?_put, if_neg other]
  · rfl

@[simp] theorem fireHook_live : (b.fireHook req outcome).live = b.live := by
  unfold fireHook
  split <;> rfl

@[simp] theorem fireHook_retired : (b.fireHook req outcome).retired = b.retired := by
  unfold fireHook
  split <;> rfl

@[simp] theorem fireHook_nextId : (b.fireHook req outcome).nextId = b.nextId := by
  unfold fireHook
  split <;> rfl

@[simp] theorem fireHook_nextToken : (b.fireHook req outcome).nextToken = b.nextToken := by
  unfold fireHook
  split <;> rfl

theorem seen_fireHook (row : seen b req.id = some (view req)) (id : Nat) :
    seen (b.fireHook req outcome) id = seen b id := by
  unfold fireHook
  split
  · rfl
  · simp only [seen, Table.get?_put]
    split
    · rename_i same
      rw [← same]
      exact row.symm
    · rfl

theorem seen_settle (id : Nat) : seen (b.settle key req outcome) id =
    if req.id = id then some (view (resolved req outcome)) else seen b id := by
  have same : (resolved req outcome).id = req.id := rfl
  rw [Broker.settle, seen_store, same]
  split
  · rfl
  · rename_i other
    exact seen_cancelTimer other

theorem settle_live : (b.settle key req outcome).live = b.live.remove key := by
  simp [Broker.settle, store]

theorem Sound.live_view (h : Sound d) (found : d.broker.liveRequest key = some req) :
    d.broker.live.get? key = some (key, req.id) ∧ req.key = key ∧ req.future = none := by
  obtain ⟨entry, row⟩ := liveRequest_eq_some found
  obtain ⟨operator, shown⟩ := h.live_row entry
  rw [seen, row, Option.map_some, Option.some.injEq] at shown
  obtain ⟨rfl, future, _⟩ := View.mk.inj shown
  exact ⟨entry, rfl, future⟩

theorem Sound.finish_live (h : Sound d) {commits : List Claim}
    (found : d.broker.liveRequest key = some req)
    (finisher : Finisher d req.id outcome commits) :
    Advances d { d with broker := d.broker.finish key outcome, commits := commits } := by
  obtain ⟨entry, rfl, future⟩ := h.live_view found
  have row := (liveRequest_eq_some found).2
  have shown : seen d.broker req.id = some ⟨req.key, none, req.metadata.operatorId⟩ := by
    rw [seen, row, ← future]
    rfl
  have after : view (resolved req outcome) = ⟨req.key, some outcome, req.metadata.operatorId⟩ := by
    simp [view, resolved, future]
  refine h.settle ⟨entry, shown, ?_, ?_, .inr ⟨req.metadata, ?_⟩⟩ ?_ ?_ finisher
  · simp [Broker.finish, found, settle_live]
  · intro i
    have settled : ∀ i, seen (d.broker.settle req.key req outcome) i =
        if req.id = i then some (view (resolved req outcome)) else seen d.broker i := seen_settle
    simp only [Broker.finish, found]
    rw [seen_fireHook]
    · rw [← after]
      exact settled i
    · exact (settled req.id).trans (if_pos rfl)
  · simp [Broker.finish, found, Broker.settle, store]
  · simp [Broker.finish, found, Broker.settle, store]
  · simp [Broker.finish, found, Broker.settle, store]

theorem Sound.finish (h : Sound d) (key : Key) (quiet : outcome.isAnswered = false) :
    Advances d { d with broker := d.broker.finish key outcome } := by
  cases found : d.broker.liveRequest key with
  | none =>
    simp only [Broker.finish, found]
    exact h.advances
  | some req => exact h.finish_live found (.inl ⟨rfl, quiet⟩)

theorem Sound.finishAll (h : Sound d) (keys : List Key) (outcome : Outcome)
    (quiet : outcome.isAnswered = false) :
    Advances d { d with broker := d.broker.finishAll keys outcome } := by
  induction keys generalizing d with
  | nil => exact h.advances
  | cons key rest ih => exact (h.finish key quiet).trans fun next => ih next

theorem Sound.unregister (h : Sound d) (key : Key) :
    Advances d { d with broker := d.broker.unregister key } := by
  cases found : d.broker.liveRequest key with
  | none =>
    simp only [Broker.unregister, found]
    exact h.advances
  | some req =>
    obtain ⟨entry, rfl, future⟩ := h.live_view found
    have shown : seen d.broker req.id = some ⟨req.key, none, req.metadata.operatorId⟩ := by
      rw [seen, (liveRequest_eq_some found).2, ← future]
      rfl
    have finisher : Finisher d req.id .deliveryFailed d.commits := .inl ⟨rfl, rfl⟩
    simp only [Broker.unregister, found]
    refine h.settle ⟨entry, shown, settle_live, fun i => ?_, .inl ?_⟩ ?_ ?_ finisher
    · rw [seen_settle]
      simp [view, resolved, future]
    · simp [Broker.settle, store]
    · simp [Broker.settle, store]
    · simp [Broker.settle, store]

theorem finish_of_ne (b : Broker T) (outcome : Outcome) {other : Key} (ne : other ≠ key) :
    (b.finish other outcome).live.get? key = b.live.get? key ∧
      (b.finish other outcome).retired.get? key = b.retired.get? key := by
  unfold Broker.finish
  split
  · exact ⟨rfl, rfl⟩
  · simp only [fireHook_live, fireHook_retired, settle_live, Table.get?_remove, Table.get?_put,
      if_neg ne, true_and]
    simp [Broker.settle, store]

theorem finishAll_of_not_mem (b : Broker T) (outcome : Outcome) {keys : List Key}
    (absent : key ∉ keys) :
    (b.finishAll keys outcome).live.get? key = b.live.get? key ∧
      (b.finishAll keys outcome).retired.get? key = b.retired.get? key := by
  induction keys generalizing b with
  | nil => exact ⟨rfl, rfl⟩
  | cons first rest ih =>
    rw [List.mem_cons, not_or] at absent
    obtain ⟨live, retired⟩ := ih (b.finish first outcome) absent.2
    obtain ⟨live', retired'⟩ := finish_of_ne b outcome (Ne.symm absent.1)
    exact ⟨live.trans live', retired.trans retired'⟩

theorem Sound.register [Add T] (h : Sound d) {now timeoutS : T} {metadata : Meta}
    {supersede : Bool} {result : Registration × Broker T}
    (ok : d.broker.register now key timeoutS metadata supersede = .ok result) :
    Advances d { d with broker := result.2 } := by
  unfold Broker.register at ok
  split at ok
  · rename_i valid
    split at ok
    · obtain rfl := Except.ok.inj ok
      exact h.advances
    · obtain rfl := Except.ok.inj ok
      exact h.touch rfl rfl (fun _ => rfl) (Nat.le_succ _) le_rfl
    · rename_i free unretired
      obtain rfl := Except.ok.inj ok
      cases supersede with
      | false => exact h.enroll valid free unretired
      | true =>
        have absent : key ∉ d.broker.scopeKeys key.namespace_ key.scope := by
          intro mem
          have present := List.mem_of_mem_filter mem
          exact Table.get?_eq_none_iff.mp free present
        obtain ⟨live, retired⟩ := finishAll_of_not_mem d.broker
          (.cancelled "superseded") absent
        have cleared := h.finishAll (d.broker.scopeKeys key.namespace_ key.scope)
          (.cancelled "superseded") rfl
        refine cleared.trans fun next => ?_
        exact next.enroll valid (live.trans free) (retired.trans unretired)
  · cases ok

theorem Sound.timeout (h : Sound d) (handle : Nat) :
    Advances d { d with broker := d.broker.timeout handle } := by
  unfold Broker.timeout
  split
  · rename_i key _
    have dropped : Advances d { d with broker :=
        { d.broker with timers := d.broker.timers.remove handle } } :=
      h.touch rfl rfl (fun _ => rfl) le_rfl le_rfl
    exact dropped.trans fun next => next.finish key rfl
  · exact h.advances

theorem Sound.popTombstone (h : Sound d) (key : Key) (entryId : Nat) :
    Advances d { d with broker := d.broker.popTombstone key entryId } := by
  unfold Broker.popTombstone
  split
  · dsimp only
    split
    · exact h.pop
    · exact h.touch rfl rfl (fun _ => rfl) le_rfl le_rfl
  · exact h.advances

theorem actorIsBound_iff {metadata : Meta} {actorId : Identity} :
    actorIsBound metadata actorId = true ↔
      ∃ n : Int, 0 < n ∧ metadata.operatorId = .int n ∧ actorId = .int n := by
  unfold actorIsBound
  split
  · rename_i expected actor operator
    simp only [operator, decide_eq_true_eq, Identity.int.injEq]
    constructor
    · rintro ⟨positive, rfl⟩
      exact ⟨actor, positive, rfl, rfl⟩
    · rintro ⟨n, positive, rfl, rfl⟩
      exact ⟨positive, rfl⟩
  · rename_i other
    refine ⟨nofun, ?_⟩
    rintro ⟨n, _, operator, rfl⟩
    exact absurd rfl (other n n operator)

theorem seen_store_cancelTimer {req' : PendingRequest T} (row : b.requests.get? req.id = some req)
    (id : req'.id = req.id) (same : view req' = view req) (i : Nat) :
    seen ((b.cancelTimer req).store req') i = seen b i := by
  rw [seen_store, id, same]
  split
  · rename_i at_
    rw [← at_, seen, row]
    rfl
  · rename_i other
    exact seen_cancelTimer other

theorem Sound.claim (h : Sound d) {optionIndex : Int} {actorId : Identity}
    {optionIndices : Option (List Int)} :
    Advances d (match d.broker.claim key optionIndex actorId optionIndices with
      | (.ok c, b) => { d with broker := b, issued := c :: d.issued }
      | (.error _, b) => { d with broker := b }) := by
  unfold Broker.claim
  cases found : d.broker.liveRequest key with
  | none =>
    dsimp only
    cases d.broker.retired.get? key with
    | none => exact h.advances
    | some entry => exact h.advances
  | some req =>
    dsimp only
    by_cases bound : actorIsBound req.metadata actorId = true
    · simp only [bound, Bool.not_true, Bool.false_eq_true, if_false]
      by_cases claimed : req.claimed.isSome = true
      · simp only [claimed, if_true]
        exact h.advances
      · simp only [claimed, Bool.false_eq_true, if_false]
        have row := (liveRequest_eq_some found).2
        have shown : ∀ i, seen ((cancelTimer { d.broker with nextToken := d.broker.nextToken + 1 }
            req).store { req with claimed := some d.broker.nextToken, timer := none }) i =
            seen { d.broker with nextToken := d.broker.nextToken + 1 } i :=
          seen_store_cancelTimer row rfl rfl
        refine h.issue (v := view req) rfl ?_ (actorIsBound_iff.mp bound) ?_ ?_ ?_ ?_ ?_
        · rw [seen, row]
          rfl
        · simp [store]
        · simp [store]
        · simp [store]
        · exact shown
        · simp [store]
    · simp only [bound, Bool.not_false, if_true]
      exact h.advances

theorem Sound.liveRequest_of_pending (h : Sound d) (row : d.broker.requests.get? req.id = some req)
    (pending : req.future = none) : d.broker.liveRequest req.key = some req := by
  have shown : seen d.broker req.id = some (view req) := by rw [seen, row]; rfl
  have entry := h.pending_live shown pending
  rw [liveRequest, show d.broker.live.get? req.key = some (req.key, req.id) from entry]
  exact row

theorem holds_iff {c : Claim} : b.holds c = true ↔ ∃ req, b.requests.get? c.req = some req ∧
    req.claimed = some c.token ∧ req.future = none := by
  unfold holds
  cases b.requests.get? c.req <;> simp

theorem Sound.commit (h : Sound d) {c : Claim} (issued : c ∈ d.issued) :
    Advances d (match d.broker.commit c with
      | (true, b) => { d with broker := b, commits := c :: d.commits }
      | (false, b) => { d with broker := b }) := by
  unfold Broker.commit
  cases row : d.broker.requests.get? c.req with
  | none => exact h.advances
  | some req =>
    dsimp only
    by_cases valid : d.broker.holds c = true
    · simp only [valid, if_true]
      obtain ⟨found, foundRow, _, pending⟩ := holds_iff.mp valid
      obtain rfl := Option.some.inj (row.symm.trans foundRow)
      have id : req.id = c.req := Table.key_of_get? row
      have live := h.liveRequest_of_pending (id ▸ row) pending
      exact h.finish_live live (.inr ⟨c, issued, id.symm, rfl, rfl⟩)
    · simp only [valid, Bool.false_eq_true, if_false]
      exact h.advances

theorem Sound.abortClaim [LinearOrder T] [Sub T] [Zero T] (h : Sound d) (now : T) (c : Claim) :
    Advances d { d with broker := d.broker.abortClaim now c } := by
  unfold Broker.abortClaim
  cases row : d.broker.requests.get? c.req with
  | none => exact h.advances
  | some req =>
    have own : d.broker.requests.get? req.id = some req := by
      rw [show req.id = c.req from Table.key_of_get? row, row]
    dsimp only
    split
    · split
      · have freed : Advances d
            { d with broker := (d.broker.store { req with claimed := none }) } :=
          h.touch rfl rfl (seen_store_same own rfl rfl) le_rfl le_rfl
        exact freed.trans fun next => next.finish req.key rfl
      · exact h.touch rfl rfl (seen_store_same own rfl rfl) le_rfl le_rfl
    · exact h.advances

theorem Sound.toggleSelection (h : Sound d) (idx : Int) :
    Advances d { d with broker := (d.broker.toggleSelection key idx).2 } := by
  unfold Broker.toggleSelection
  cases found : d.broker.liveRequest key with
  | none => exact h.advances
  | some req =>
    dsimp only
    split
    · exact h.advances
    · exact h.touch rfl rfl (seen_store_same (liveRequest_eq_some found).2 rfl rfl) le_rfl le_rfl

theorem Sound.setFinishHook (h : Sound d) {req' : PendingRequest T}
    (row : d.broker.requests.get? req.id = some req) (id : req'.id = req.id)
    (same : view req' = view req) :
    Advances d { d with broker := d.broker.setFinishHook req' } := by
  have hooked : ∀ i, seen (d.broker.store { req' with hook := true }) i = seen d.broker i :=
    seen_store_same row id same
  unfold Broker.setFinishHook
  dsimp only
  split
  · split
    · exact h.touch rfl rfl hooked le_rfl le_rfl
    · refine h.touch (by simp [store]) (by simp [store]) (fun i => ?_) (by simp [store])
        (by simp [store])
      rw [seen_fireHook]
      · exact hooked i
      · simp
  · exact h.touch rfl rfl hooked le_rfl le_rfl

theorem Sound.ensurePosted (h : Sound d) (id : Nat) :
    Advances d { d with broker := d.broker.ensurePosted id } := by
  unfold Broker.ensurePosted
  cases row : d.broker.requests.get? id with
  | none => exact h.advances
  | some req =>
    obtain rfl : req.id = id := Table.key_of_get? row
    dsimp only
    split
    · exact h.touch rfl rfl (seen_store_same row rfl rfl) le_rfl le_rfl
    · exact h.advances

theorem Sound.setupDone (h : Sound d) (id : Nat) (posted : Option Int) :
    Advances d { d with broker := d.broker.setupDone id posted } := by
  unfold Broker.setupDone
  cases row : d.broker.requests.get? id with
  | none => exact h.advances
  | some req =>
    obtain rfl : req.id = id := Table.key_of_get? row
    dsimp only
    split
    · cases posted with
      | none =>
        have marked : Advances d { d with broker := d.broker.store { req with setup := .done } } :=
          h.touch rfl rfl (seen_store_same row rfl rfl) le_rfl le_rfl
        exact marked.trans fun next => next.unregister req.key
      | some mid => exact h.setFinishHook row rfl rfl
    · exact h.advances

end Operations

section Runs
variable {d d' : Desk T}

theorem sound_init : Sound (Desk.init : Desk T) := by
  have nothing : ∀ id, seen (Broker.init : Broker T) id = none := fun _ => rfl
  refine ⟨?_, ?_, fun _ => rfl, ?_, ?_, ?_, ?_, List.nodup_nil, ?_, List.nodup_nil, ?_, ?_⟩
  · intro key id entry
    cases entry
  · intro id v row
    cases (nothing id).symm.trans row
  · intro key entry at_
    cases at_
  · intro id v row
    cases (nothing id).symm.trans row
  · intro id v row
    cases (nothing id).symm.trans row
  · intro c mem
    cases mem
  · intro c mem
    cases mem
  · intro c mem
    cases mem
  · intro id v outcome row
    cases (nothing id).symm.trans row

theorem Sound.register_retired [Add T] (h : Sound d) {key : Key} {entry : RetiredEntry}
    (at_ : d.broker.retired.get? key = some entry) (now timeoutS : T) (metadata : Meta)
    (supersede : Bool) :
    d.broker.register now key timeoutS metadata supersede =
      .ok (.retired entry.outcome entry.metadata,
        { d.broker with nextId := d.broker.nextId + 1 }) := by
  obtain ⟨operator, row⟩ := h.tombstone at_
  have valid : validNamespace key.namespace_ = true := h.named row
  have free : d.broker.live.get? key = none := by
    by_contra live
    rw [h.apart live] at at_
    cases at_
  simp only [Broker.register, valid, if_true, free, at_]

theorem Sound.claim_unique (h : Sound d) {c c' : Claim} (issued : c ∈ d.issued)
    (issued' : c' ∈ d.issued) (same : c.req = c'.req) (valid : d.broker.holds c = true)
    (valid' : d.broker.holds c' = true) : c = c' := by
  obtain ⟨req, row, token, _⟩ := holds_iff.mp valid
  obtain ⟨req', row', token', _⟩ := holds_iff.mp valid'
  rw [← same] at row'
  obtain rfl := Option.some.inj (row.symm.trans row')
  exact List.inj_on_of_nodup_map h.distinct issued issued'
    (Option.some.inj (token.symm.trans token'))

theorem Sound.answered_iff (h : Sound d) {id : Nat} {req : PendingRequest T}
    (row : d.broker.requests.get? id = some req) :
    (∃ outcome, req.future = some outcome ∧ outcome.isAnswered = true) ↔
      (d.commits.map Claim.req).count id = 1 := by
  have shown : seen d.broker id = some (view req) := by rw [seen, row]; rfl
  constructor
  · rintro ⟨outcome, future, isAnswered⟩
    obtain ⟨c, mem, rfl⟩ := h.answered shown future isAnswered
    exact List.count_eq_one_of_mem h.once (List.mem_map_of_mem mem)
  · intro count
    have mem : id ∈ d.commits.map Claim.req := List.count_pos_iff.mp (by omega)
    obtain ⟨c, committed, rfl⟩ := List.mem_map.mp mem
    obtain ⟨_, v, found, future⟩ := h.committed c committed
    obtain rfl := Option.some.inj (shown.symm.trans found)
    exact ⟨c.outcome, future, rfl⟩

variable [LinearOrder T] [Add T] [Sub T] [Zero T]

theorem Sound.step (h : Sound d) {e : Event T} (held : Held e d) : Advances d (d.step e) := by
  cases e with
  | register now key timeoutS metadata supersede =>
    simp only [Desk.step]
    split
    · rename_i ok
      exact h.register ok
    · exact h.advances
  | claim key optionIndex actorId optionIndices => exact h.claim
  | commit c => exact h.commit held
  | abortClaim now c => exact h.abortClaim now c
  | timeout handle => exact h.timeout handle
  | popTombstone key entryId => exact h.popTombstone key entryId
  | unregister key => exact h.unregister key
  | cancel key reason =>
    simp only [Desk.step, Broker.cancel]
    split
    · exact h.finish key rfl
    · exact h.advances
  | cancelScope namespace_ scope reason => exact h.finishAll _ (.cancelled reason) rfl
  | cancelAll reason => exact h.finishAll _ (.cancelled reason) rfl
  | toggleSelection key idx => exact h.toggleSelection idx
  | setFinishHook id =>
    simp only [Desk.step]
    split
    · rename_i req row
      obtain rfl : req.id = id := Table.key_of_get? row
      exact h.setFinishHook row rfl rfl
    · exact h.advances
  | ensurePosted id => exact h.ensurePosted id
  | setupDone id posted => exact h.setupDone id posted

theorem sound_of_runs {events : List (Event T)} (run : Runs Desk.step Held d events d')
    (h : Sound d) : Sound d' :=
  run.invariant (I := Sound) (fun _ _ held h => (h.step held).sound) h

theorem evolves_of_runs {events : List (Event T)} (run : Runs Desk.step Held d events d')
    (h : Sound d) : Evolves d d' :=
  run.relation (I := Sound) (R := Evolves) (fun _ _ held h => (h.step held).sound) .refl
    (fun _ _ _ => .trans) (fun _ _ held h => (h.step held).evolves) h

/-- Every request is resolved once, by a finisher entitled to it, in every interleaving. -/
theorem requests_resolved_once {events : List (Event T)}
    (run : Runs Desk.step Held .init events d) :
    (∀ key, d.broker.live.get? key ≠ none → d.broker.retired.get? key = none) ∧
    (∀ id req, d.broker.requests.get? id = some req →
      (req.future = none ↔ d.broker.live.get? req.key = some (req.key, id))) ∧
    (∀ id req outcome, d.broker.requests.get? id = some req → req.future = some outcome →
      ∀ later d', Runs Desk.step Held d later d' → ∃ req', d'.broker.requests.get? id = some req' ∧
        req'.key = req.key ∧ req'.future = some outcome) ∧
    (∀ id req, d.broker.requests.get? id = some req →
      ((∃ outcome, req.future = some outcome ∧ outcome.isAnswered = true) ↔
        (d.commits.map Claim.req).count id = 1) ∧
      (d.commits.map Claim.req).count id ≤ 1 ∧
      ∀ outcome, req.future = some outcome → outcome.isAnswered = true →
        ∃ c ∈ d.issued, c ∈ d.commits ∧ c.req = id ∧ outcome = c.outcome ∧
          ∃ n : Int, 0 < n ∧ req.metadata.operatorId = .int n ∧ c.actorId = .int n) ∧
    (∀ key entry, d.broker.retired.get? key = some entry →
      (∃ req, d.broker.requests.get? entry.entryId = some req ∧ req.key = key ∧
        req.future = some entry.outcome) ∧
      ∀ (now timeoutS : T) metadata supersede,
        d.broker.register now key timeoutS metadata supersede =
          .ok (.retired entry.outcome entry.metadata,
            { d.broker with nextId := d.broker.nextId + 1 })) ∧
    (∀ c ∈ d.issued, ∀ c' ∈ d.issued, c.req = c'.req → d.broker.holds c = true →
      d.broker.holds c' = true → c = c') := by
  have h : Sound d := sound_of_runs run sound_init
  have shown : ∀ {id req}, d.broker.requests.get? id = some req →
      seen d.broker id = some (view req) := by
    intro id req row
    rw [seen, row]
    rfl
  refine ⟨fun key => h.apart, fun id req row => ⟨h.pending_live (shown row), fun live => ?_⟩,
    fun id req outcome row future later d' rest => ?_, fun id req row => ⟨h.answered_iff row,
      List.nodup_iff_count_le_one.mp h.once id, fun outcome future isAnswered => ?_⟩,
    fun key entry at_ => ⟨?_, h.register_retired at_⟩,
    fun c issued c' issued' same valid valid' => h.claim_unique issued issued' same valid valid'⟩
  · obtain ⟨operator, found⟩ := h.live_row live
    exact congrArg View.future (Option.some.inj ((shown row).symm.trans found))
  · obtain ⟨v, found, key, _, kept⟩ := evolves_of_runs rest h id _ (shown row)
    obtain ⟨req', row', rfl⟩ := seen_eq_some_iff.mp found
    exact ⟨req', row', key, kept outcome future⟩
  · obtain ⟨c, committed, rfl⟩ := h.answered (shown row) future isAnswered
    obtain ⟨issued, v, found, same⟩ := h.committed c committed
    obtain ⟨v', found', actor⟩ := h.bound c issued
    obtain rfl := Option.some.inj ((shown row).symm.trans found)
    obtain rfl := Option.some.inj ((shown row).symm.trans found')
    exact ⟨c, issued, committed, rfl, Option.some.inj (future.symm.trans same), actor⟩
  · obtain ⟨operator, found⟩ := h.tombstone at_
    obtain ⟨req, row, same⟩ := seen_eq_some_iff.mp found
    exact ⟨req, row, congrArg View.key same, congrArg View.future same⟩

def tapped : List (Event Int) :=
  [.register 0 ⟨"permission", "chat", "ask"⟩ 60 ⟨.int 7, none, none⟩ true,
    .claim ⟨"permission", "chat", "ask"⟩ 0 (.int 7) none, .commit ⟨0, 0, 0, .int 7, none⟩]

def tappedDesk : Desk Int := tapped.foldl (fun d e => d.step e) .init

theorem tapped_answer_retained :
    (tappedDesk.broker.register 5 ⟨"permission", "chat", "ask"⟩ 60 ⟨.int 7, none, none⟩ true).map
      Prod.fst = .ok (.retired (.answered 0 (.int 7) none) ⟨.int 7, none, none⟩) := by
  have run : Runs Desk.step Held .init tapped tappedDesk :=
    .cons trivial (.cons trivial (.cons (by change _ ∈ Desk.issued _; decide) (.nil _)))
  obtain ⟨-, -, -, -, retained, -⟩ := requests_resolved_once run
  have at_ : tappedDesk.broker.retired.get? ⟨"permission", "chat", "ask"⟩ =
      some ⟨⟨"permission", "chat", "ask"⟩, .answered 0 (.int 7) none, ⟨.int 7, none, none⟩, 0⟩ := rfl
  rw [(retained _ _ at_).2]
  rfl

end Runs

end Casa.VerdictOutcomes
