import Casa.KeyedTable

/-! The discrete sends of one engagement: what an ingress registers before the relay reaches
its block, and the store that keeps the registrations of a turn in order. A registration is a
ticket that never changes and the progress made on it. Retries and cancels find it by request
id; a writer that walks over a list of intents holds on to them by number. -/

namespace Casa.SequencerIntents
open KeyedTable

abbrev MsgId := Nat

inductive Tool where
  | ask
  | reply
  | emitCompletion
  | other (name : String)
deriving DecidableEq

/-- `HOLD_ELIGIBLE_TOOLS`. -/
def Tool.holdEligible : Tool → Bool
  | .other _ => false
  | _ => true

inductive SendState where
  | pending
  | armed
  | posted
  | cancelled
deriving DecidableEq

/-- The outcomes the sequencer records, and the `ok: false` ones an ingress brings. -/
inductive Outcome where
  | posted (mid : MsgId) (outOfBand : Bool)
  | failed (outOfBand : Bool)
  | interrupted (outOfBand : Bool)
  | terminal
  | compensated (mid : MsgId)
  | refused (error : String) (message : Option String)
deriving DecidableEq

namespace Outcome

def ok : Outcome → Bool
  | posted _ _ => true
  | _ => false

def messageId : Outcome → Option MsgId
  | posted mid _ => some mid
  | compensated mid => some mid
  | _ => none

def isCompensated : Outcome → Bool
  | compensated _ => true
  | _ => false

end Outcome

structure Ticket where
  requestId : String
  toolName : Tool
  projectionHash : String
  registeredAt : Nat
  seq : Nat
  onRetire : Bool
deriving DecidableEq

structure Progress where
  state : SendState := .pending
  armedAt : Option Nat := none
  messageId : Option MsgId := none
  outcome : Option Outcome := none
  posting : Bool := false
  slotMissed : Bool := false
  timeoutPosted : Bool := false
  consumed : Bool := false
  retired : Bool := false
  postFailed : Bool := false
deriving DecidableEq

structure SendIntent extends Ticket, Progress
deriving DecidableEq

namespace SendIntent

def matchable (i : SendIntent) : Bool :=
  if i.consumed || i.postFailed then false
  else match i.state with
    | .posted => i.timeoutPosted
    | _ => true

def armedUnposted (i : SendIntent) : Bool :=
  decide (i.state = .armed) && !i.consumed && !i.postFailed && i.messageId.isNone

def isLiveCompletionDebt (i : SendIntent) : Bool :=
  decide (i.toolName = .emitCompletion) && decide (i.state = .posted) && i.timeoutPosted &&
    !i.consumed && !i.postFailed && i.outcome.isNone

/-- Progress on intent `k`; the others stay as they are. -/
def progress (k : Nat) (f : Progress → Progress) (i : SendIntent) : SendIntent :=
  if i.seq = k then { i with toProgress := f i.toProgress } else i

theorem ticket_progress (k : Nat) (f : Progress → Progress) (i : SendIntent) :
    (i.progress k f).toTicket = i.toTicket := by
  unfold progress
  split <;> rfl

end SendIntent

namespace Progress

def arm (now : Nat) (p : Progress) : Progress :=
  if p.state = .pending then { p with state := .armed, armedAt := some now } else p

def cancel (p : Progress) : Progress :=
  match p.state with
  | .pending | .armed => { p with state := .cancelled }
  | _ => p

end Progress

abbrev seqOf (i : SendIntent) : Nat := i.seq

/-- `_by_seq`; `_by_request` is the same intents by request id, which `requests` makes a
function of it. -/
structure IntentRegistry where
  bySeq : Table seqOf
  nextSeq : Nat
  fresh : ∀ i ∈ bySeq.rows, i.seq < nextSeq
  requests : (bySeq.rows.map (·.requestId)).Nodup

namespace IntentRegistry

def empty : IntentRegistry where
  bySeq := .empty
  nextSeq := 0
  fresh _ mem := absurd mem List.not_mem_nil
  requests := List.nodup_nil

def intents (r : IntentRegistry) : List SendIntent := r.bySeq.rows

def get? (r : IntentRegistry) (k : Nat) : Option SendIntent := r.bySeq.get? k

def byRequestId (r : IntentRegistry) (rid : String) : Option SendIntent :=
  r.intents.find? fun i => decide (i.requestId = rid)

theorem get?_nextSeq (r : IntentRegistry) : r.bySeq.get? r.nextSeq = none := by
  rw [Table.get?_eq_none_iff]
  intro mem
  obtain ⟨i, inside, same⟩ := List.mem_map.mp mem
  exact absurd (r.fresh i inside) (same ▸ Nat.lt_irrefl _)

theorem not_mem_of_byRequestId {r : IntentRegistry} {rid : String}
    (h : r.byRequestId rid = none) : rid ∉ r.intents.map (·.requestId) := by
  intro mem
  obtain ⟨i, inside, same⟩ := List.mem_map.mp mem
  have absent := List.find?_eq_none.mp h i inside
  exact absent (decide_eq_true same)

/-- What `register` stores for a request id it does not know. -/
def newIntent (r : IntentRegistry) (now : Nat) (rid : String) (tool : Tool) (hash : String)
    (onRetire : Bool) : SendIntent where
  requestId := rid
  toolName := tool
  projectionHash := hash
  registeredAt := now
  seq := r.nextSeq
  onRetire := onRetire

def register (r : IntentRegistry) (now : Nat) (rid : String) (tool : Tool) (hash : String)
    (onRetire : Bool) : SendIntent × IntentRegistry :=
  match h : r.byRequestId rid with
  | some existing => (existing, r)
  | none =>
      let intent := r.newIntent now rid tool hash onRetire
      (intent, {
        bySeq := r.bySeq.put intent
        nextSeq := r.nextSeq + 1
        fresh := by
          intro i mem
          rcases Table.mem_put.mp mem with rfl | old
          · exact Nat.lt_succ_self _
          · exact Nat.lt_succ_of_lt (r.fresh i old.1)
        requests := by
          rw [Table.rows_put_of_none r.get?_nextSeq, List.map_append, List.map_singleton]
          refine r.requests.append (List.nodup_singleton _) ?_
          exact List.disjoint_singleton.mpr (not_mem_of_byRequestId h) })

def modify (r : IntentRegistry) (k : Nat) (f : Progress → Progress) : IntentRegistry where
  bySeq := r.bySeq.revise (·.progress k f) fun i => congrArg Ticket.seq (i.ticket_progress k f)
  nextSeq := r.nextSeq
  fresh := by
    intro i mem
    obtain ⟨j, inside, rfl⟩ := List.mem_map.mp mem
    rw [SendIntent.ticket_progress]
    exact r.fresh j inside
  requests := by
    have same : (r.bySeq.rows.map (·.progress k f)).map (·.requestId) =
        r.bySeq.rows.map (·.requestId) := by
      rw [List.map_map]
      exact List.map_congr_left fun i _ =>
        congrArg Ticket.requestId (i.ticket_progress k f)
    exact same ▸ r.requests

def modifyAll (r : IntentRegistry) (f : Progress → Progress) : IntentRegistry where
  bySeq := r.bySeq.revise (fun i => { i with toProgress := f i.toProgress }) fun _ => rfl
  nextSeq := r.nextSeq
  fresh := by
    intro i mem
    obtain ⟨j, inside, rfl⟩ := List.mem_map.mp mem
    exact r.fresh j inside
  requests := by
    have same : (r.bySeq.rows.map fun i => { i with toProgress := f i.toProgress }).map
        (·.requestId) = r.bySeq.rows.map (·.requestId) := by
      rw [List.map_map]
      exact List.map_congr_left fun _ _ => rfl
    exact same ▸ r.requests

def oldestMatchable (r : IntentRegistry) (tool : Tool) (hash : String) : Option SendIntent :=
  r.intents.find? fun i =>
    i.matchable && decide (i.toolName = tool) && decide (i.projectionHash = hash)

def armedUnposted (r : IntentRegistry) : List Nat :=
  (r.intents.filter (·.armedUnposted)).map (·.seq)

def dropped (r : IntentRegistry) (keep : SendIntent → Bool) : List SendIntent :=
  r.intents.filter fun i => !keep i

def retiring (r : IntentRegistry) (keep : SendIntent → Bool) : List Nat :=
  ((r.dropped keep).filter fun i => i.onRetire && !i.retired).map (·.seq)

def prune (r : IntentRegistry) (keep : SendIntent → Bool) : IntentRegistry where
  bySeq := r.bySeq.filter keep
  nextSeq := r.nextSeq
  fresh i mem := r.fresh i (Table.mem_filter.mp mem).1
  requests := r.requests.sublist (List.filter_sublist.map _)

section Lookup
variable {r : IntentRegistry} {i : SendIntent} {k : Nat} {f : Progress → Progress}

theorem get?_eq_some_iff : r.get? k = some i ↔ i ∈ r.intents ∧ i.seq = k :=
  Table.get?_eq_some_iff

theorem mem_of_byRequestId {rid : String} (h : r.byRequestId rid = some i) : i ∈ r.intents :=
  List.mem_of_find?_eq_some h

theorem mem_of_oldestMatchable {tool : Tool} {hash : String}
    (h : r.oldestMatchable tool hash = some i) : i ∈ r.intents ∧ i.matchable = true := by
  refine ⟨List.mem_of_find?_eq_some h, ?_⟩
  have found := List.find?_some h
  simp only [Bool.and_eq_true] at found
  exact found.1.1

theorem eq_of_seq {j : SendIntent} (here : i ∈ r.intents) (there : j ∈ r.intents)
    (same : i.seq = j.seq) : i = j :=
  List.inj_on_of_nodup_map r.bySeq.nodup here there same

theorem mem_modify : i ∈ (r.modify k f).intents ↔ ∃ j ∈ r.intents, j.progress k f = i :=
  List.mem_map

theorem exists_of_mem_modify (mem : i ∈ (r.modify k f).intents) :
    ∃ j ∈ r.intents, j.toTicket = i.toTicket ∧
      (j.seq ≠ k ∧ j.toProgress = i.toProgress ∨
        r.get? k = some j ∧ f j.toProgress = i.toProgress) := by
  obtain ⟨j, inside, rfl⟩ := mem_modify.mp mem
  refine ⟨j, inside, (j.ticket_progress k f).symm, ?_⟩
  unfold SendIntent.progress
  split
  · rename_i here
    exact .inr ⟨get?_eq_some_iff.mpr ⟨inside, here⟩, rfl⟩
  · rename_i other
    exact .inl ⟨other, rfl⟩

theorem get?_modify (j : Nat) :
    (r.modify k f).get? j = (r.get? j).map (SendIntent.progress k f) :=
  Table.get?_revise r.bySeq _ (fun i => congrArg Ticket.seq (i.ticket_progress k f)) j

theorem mem_modifyAll : i ∈ (r.modifyAll f).intents ↔
    ∃ j ∈ r.intents, { j with toProgress := f j.toProgress } = i :=
  List.mem_map

theorem mem_prune {keep : SendIntent → Bool} :
    i ∈ (r.prune keep).intents ↔ i ∈ r.intents ∧ keep i = true :=
  Table.mem_filter

theorem mem_dropped {keep : SendIntent → Bool} :
    i ∈ r.dropped keep ↔ i ∈ r.intents ∧ keep i = false := by
  rw [dropped, List.mem_filter, Bool.not_eq_true']

theorem mem_armedUnposted : k ∈ r.armedUnposted ↔
    ∃ i ∈ r.intents, i.armedUnposted = true ∧ i.seq = k := by
  simp only [armedUnposted, List.mem_map, List.mem_filter, and_assoc]

theorem nodup_armedUnposted : r.armedUnposted.Nodup :=
  r.bySeq.nodup.sublist (List.filter_sublist.map _)

theorem register_cases (r : IntentRegistry) (now : Nat) (rid : String) (tool : Tool)
    (hash : String) (onRetire : Bool) :
    (r.register now rid tool hash onRetire).2 = r ∨
    (r.register now rid tool hash onRetire).2.nextSeq = r.nextSeq + 1 ∧
    (r.register now rid tool hash onRetire).2.intents =
      r.intents ++ [r.newIntent now rid tool hash onRetire] := by
  unfold register
  split
  · exact .inl rfl
  · exact .inr ⟨rfl, Table.rows_put_of_none r.get?_nextSeq⟩

end Lookup

end IntentRegistry

end Casa.SequencerIntents
