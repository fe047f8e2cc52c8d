import Casa.StepRuns
import Mathlib.Data.List.Perm.Basic
import Mathlib.Data.List.Nodup
import Mathlib.Data.Nat.Notation
import Mathlib.Logic.Function.Basic
import Mathlib.Tactic.Common

/-! The message bus: a priority queue and a consumer for each name, one dispatch task for each
message taken from a queue, one future for each request. A message is its number, as its
`id` is unique; the consumer and the tasks take their steps in any order. -/

namespace Casa.BusRequests

open Casa.StepRuns

/-- `MessageType`, as far as the bus asks. -/
inductive Kind
  | request
  | other
  deriving DecidableEq

structure BusMessage (Name : Type) where
  type : Kind
  target : Name
  priority : Int

/-- Where the caller of `request` is: in `wait_for`, with its future settled, or gone. -/
inductive Caller
  | waiting
  | answered
  | returned
  | timedOut
  | cancelled
  deriving DecidableEq

/-- A dispatch task that has not ended: whether `_dispatch` took its first step, and whether
its cancellation was requested. -/
structure Dispatch where
  started : Bool
  cancelling : Bool
  deriving DecidableEq

/-- A live consumer: whether `run_agent_loop` took its first step. -/
inductive Loop
  | fresh
  | running
  deriving DecidableEq

inductive Outcome
  | result
  | none
  | failure
  | cancelled
  deriving DecidableEq

/-- The bus, its tasks and the callers. `cancelled` is the mutable field of each message and
`begun` remembers whose handler was started. -/
structure State (Name Handler : Type) where
  queues : Name → Option (List (Int × ℕ))
  handlers : Name → Option Handler
  loops : Name → Option Loop
  messages : ℕ → Option (BusMessage Name)
  cancelled : ℕ → Bool
  pending : ℕ → Bool
  callers : ℕ → Option Caller
  dispatches : ℕ → Option Dispatch
  dispatch_tasks : ℕ → Bool
  dispatch_by_agent : Name → ℕ → Bool
  begun : ℕ → Bool
  next : ℕ

inductive Label (Name Handler : Type)
  | register (n : Name) (handler : Option Handler)
  | startLoop (n : Name)
  | enterLoop (n : Name)
  | consume (n : Name)
  | unregister (n : Name)
  | send (m : BusMessage Name)
  | request (target : Name) (priority : Int)
  | resume (i : ℕ)
  | timeout (i : ℕ)
  | cancel (i : ℕ)
  | start (i : ℕ)
  | finish (i : ℕ) (o : Outcome)

/-- `PriorityQueue.put` with the next sequence number: behind everything of its priority. -/
def put (q : List (Int × ℕ)) (priority : Int) (i : ℕ) : List (Int × ℕ) :=
  q.takeWhile (fun e => e.1 ≤ priority) ++ (priority, i) :: q.dropWhile (fun e => e.1 ≤ priority)

theorem put_perm (q : List (Int × ℕ)) (priority : Int) (i : ℕ) :
    (put q priority i).Perm ((priority, i) :: q) := by
  unfold put
  refine List.perm_middle.trans (.cons _ ?_)
  rw [List.takeWhile_append_dropWhile]

variable {Name Handler : Type}

/-- `send_checked`, after the message got its number. -/
def State.enqueue [DecidableEq Name] (s : State Name Handler) (i : ℕ) (m : BusMessage Name) :
    State Name Handler :=
  match s.queues m.target with
  | none => s
  | some q => { s with queues := Function.update s.queues m.target (some (put q m.priority i)) }

/-- `respond`, and the same pop in the other places that settle a caller. -/
def State.respond (s : State Name Handler) (i : ℕ) : State Name Handler :=
  if s.pending i then
    { s with
      pending := Function.update s.pending i false
      callers :=
        if s.callers i = some .waiting then Function.update s.callers i (some .answered)
        else s.callers }
  else s

def State.retire [DecidableEq Name] (s : State Name Handler) (i : ℕ) (m : BusMessage Name) :
    State Name Handler :=
  { s with
    dispatches := Function.update s.dispatches i none
    dispatch_by_agent := fun n j => s.dispatch_by_agent n j && !(n = m.target && j = i) }

/-- The `finally` of `_dispatch`. -/
def State.conclude [DecidableEq Name] (s : State Name Handler) (i : ℕ) (m : BusMessage Name) :
    State Name Handler :=
  { s with
    dispatch_tasks :=
      if m.type = Kind.request then Function.update s.dispatch_tasks i false else s.dispatch_tasks }
    |>.retire i m

/-- `dispatch.cancel()` on a task that is not done. -/
def State.stop (s : State Name Handler) (i : ℕ) : State Name Handler :=
  { s with dispatches :=
      Function.update s.dispatches i ((s.dispatches i).map ({ · with cancelling := true })) }

section Steps
variable [DecidableEq Name]

/-- The loop of `unregister` over the dispatch tasks of the name. -/
def State.stopAll (s : State Name Handler) (n : Name) : State Name Handler :=
  { s with
    dispatches := fun i =>
      if s.dispatch_by_agent n i then (s.dispatches i).map ({ · with cancelling := true })
      else s.dispatches i
    dispatch_by_agent := Function.update s.dispatch_by_agent n fun _ => false }

def State.evict (s : State Name Handler) (n : Name) : State Name Handler :=
  ((s.queues n).getD []).foldl (fun s e => s.respond e.2) (s.stopAll n)

def step : Label Name Handler → State Name Handler → State Name Handler
  | .register n handler, s =>
      { s with
        queues := if s.queues n = none then Function.update s.queues n (some []) else s.queues
        handlers := Function.update s.handlers n handler }
  | .startLoop n, s =>
      if s.loops n = none then { s with loops := Function.update s.loops n (some .fresh) } else s
  -- `queue = self.queues[agent_name]` ends the task where there is no queue
  | .enterLoop n, s =>
      if s.loops n = some .fresh then
        { s with loops :=
            Function.update s.loops n (if s.queues n = none then none else some .running) }
      else s
  | .consume n, s =>
      match s.loops n, s.queues n with
      | some .running, some (e :: rest) =>
          let s := { s with queues := Function.update s.queues n (some rest) }
          match s.messages e.2 with
          | none => s
          | some m =>
              if s.cancelled e.2 then s
              else
                { s with
                  dispatches := Function.update s.dispatches e.2 (some ⟨false, false⟩)
                  dispatch_tasks :=
                    if m.type = .request then Function.update s.dispatch_tasks e.2 true
                    else s.dispatch_tasks
                  dispatch_by_agent := Function.update s.dispatch_by_agent n
                    (Function.update (s.dispatch_by_agent n) e.2 true) }
      | _, _ => s
  | .unregister n, s =>
      let s := s.evict n
      { s with
        loops := Function.update s.loops n none
        queues := Function.update s.queues n none
        handlers := Function.update s.handlers n none }
  | .send m, s =>
      { s with
        messages := Function.update s.messages s.next (some m), next := s.next + 1 }
        |>.enqueue s.next m
  | .request target priority, s =>
      let m : BusMessage Name := ⟨.request, target, priority⟩
      { s with
        messages := Function.update s.messages s.next (some m)
        pending := Function.update s.pending s.next true
        callers := Function.update s.callers s.next (some .waiting)
        next := s.next + 1 }
        |>.enqueue s.next m
  | .resume i, s =>
      if s.callers i = some .answered then
        { s with callers := Function.update s.callers i (some .returned) }
      else s
  | .timeout i, s =>
      if s.callers i = some .waiting then
        { s with
          pending := Function.update s.pending i false
          callers := Function.update s.callers i (some .timedOut) }
      else s
  | .cancel i, s =>
      if s.callers i = some .waiting ∨ s.callers i = some .answered then
        let s := { s with
          pending := Function.update s.pending i false
          callers := Function.update s.callers i (some .cancelled) }
        if s.dispatch_tasks i then s.stop i
        else { s with cancelled := Function.update s.cancelled i true }
      else s
  | .start i, s =>
      match s.dispatches i, s.messages i with
      | some ⟨false, cancelling⟩, some m =>
          -- a task cancelled before its first step never runs its body
          if cancelling then s.retire i m
          else
            match s.handlers m.target with
            | none => s.conclude i m
            | some _ =>
                { s with
                  dispatches := Function.update s.dispatches i (some ⟨true, false⟩)
                  begun := Function.update s.begun i true }
      | _, _ => s
  | .finish i o, s =>
      match s.dispatches i, s.messages i with
      | some ⟨true, _⟩, some m =>
          (if m.type = .request ∨ o = .cancelled then s.respond i else s).conclude i m
      | _, _ => s

def State.start : State Name Handler :=
  { queues := fun _ => none, handlers := fun _ => none, loops := fun _ => none
    messages := fun _ => none, cancelled := fun _ => false, pending := fun _ => false, callers := fun _ => none
    dispatches := fun _ => none, dispatch_tasks := fun _ => false
    dispatch_by_agent := fun _ _ => false, begun := fun _ => false, next := 0 }

end Steps

/-! ### What every step keeps -/

def State.Unstarted (s : State Name Handler) (i : ℕ) : Prop :=
  ∃ m d, s.messages i = some m ∧ m.type = .request ∧ s.dispatches i = some d ∧ d.started = false

/-- Message `i` waits in the queue of `n`. -/
def State.Queued (s : State Name Handler) (n : Name) (i : ℕ) : Prop :=
  ∃ q, s.queues n = some q ∧ i ∈ q.map Prod.snd

structure Good (s : State Name Handler) : Prop where
  waits : ∀ i, s.pending i = true ↔ s.callers i = some .waiting
  asked : ∀ i c, s.callers i = some c → ∃ m, s.messages i = some m ∧ m.type = .request
  unborn : ∀ i, s.next ≤ i → s.messages i = none ∧ s.begun i = false
  known : ∀ i, s.messages i = none → s.dispatches i = none ∧ s.dispatch_tasks i = false
  addressed : ∀ n i, s.Queued n i → ∃ m, s.messages i = some m ∧ m.target = n
  idle : ∀ n i, s.Queued n i →
    s.dispatches i = none ∧ s.dispatch_tasks i = false ∧ s.begun i = false
  once : ∀ n q, s.queues n = some q → (q.map Prod.snd).Nodup
  tracked : ∀ i d m, s.dispatches i = some d → s.messages i = some m →
    s.dispatch_by_agent m.target i = true ∨ d.cancelling = true
  listed : ∀ i m, s.dispatches i ≠ none → s.messages i = some m → m.type = .request →
    s.dispatch_tasks i = true

section Keeps
variable {s : State Name Handler} {i : ℕ} {m : BusMessage Name}

theorem Good.respond (h : Good s) (i : ℕ) : Good (s.respond i) := by
  unfold State.respond
  split
  case isFalse => exact h
  case isTrue =>
    refine { h with waits := ?_, asked := ?_ }
    · grind [h.waits]
    · grind [h.asked]

theorem Good.redispatch (h : Good s) {dispatches : ℕ → Option Dispatch} {tasks : ℕ → Bool}
    {by_agent : Name → ℕ → Bool} (fewer : ∀ j, s.dispatches j = none → dispatches j = none)
    (cleared : ∀ j, s.dispatch_tasks j = false → tasks j = false)
    (tracked : ∀ j d m, dispatches j = some d → s.messages j = some m →
      by_agent m.target j = true ∨ d.cancelling = true)
    (listed : ∀ j, dispatches j ≠ none → s.dispatch_tasks j = true → tasks j = true) :
    Good { s with
      dispatches := dispatches, dispatch_tasks := tasks, dispatch_by_agent := by_agent } :=
  { h with
    known := fun j unknown =>
      ⟨fewer j (h.known j unknown).1, cleared j (h.known j unknown).2⟩
    idle := fun n j here =>
      have was := h.idle n j here
      ⟨fewer j was.1, cleared j was.2.1, was.2.2⟩
    tracked := tracked
    listed := fun j m alive found asks =>
      listed j alive (h.listed j m (mt (fewer j) alive) found asks) }

theorem Good.stop (h : Good s) (i : ℕ) : Good (s.stop i) := by
  refine h.redispatch (fun j none => ?_) (fun j clear => clear) (fun j d m there found => ?_)
    fun j _ entry => entry
  · simp only [Function.update_apply]
    split
    case isTrue same => rw [← same, none, Option.map_none]
    case isFalse => exact none
  · rw [Function.update_apply] at there
    split at there
    case isTrue same =>
      obtain ⟨_, _, rfl⟩ := Option.map_eq_some_iff.mp there
      exact .inr rfl
    case isFalse => exact h.tracked j d m there found

theorem Good.vacant (h : Good s) (le : s.next ≤ i) :
    (∀ n, ¬ s.Queued n i) ∧ s.dispatches i = none ∧ s.dispatch_tasks i = false ∧
      s.begun i = false := by
  obtain ⟨unknown, still⟩ := h.unborn i le
  obtain ⟨idle, clear⟩ := h.known i unknown
  refine ⟨fun n here => ?_, idle, clear, still⟩
  obtain ⟨m, found, _⟩ := h.addressed n i here
  cases unknown.symm.trans found

theorem Good.born (h : Good s) (m : BusMessage Name) :
    Good { s with
      messages := Function.update s.messages s.next (some m), next := s.next + 1 } := by
  have unborn := h.unborn s.next (Nat.le_refl _)
  have older {j : ℕ} {m' : BusMessage Name} (found : s.messages j = some m') :
      Function.update s.messages s.next (some m) j = some m' := by
    rw [Function.update_of_ne, found]
    rintro rfl
    cases unborn.1.symm.trans found
  refine { h with
    asked := ?_, unborn := ?_, known := ?_, addressed := ?_, tracked := ?_, listed := ?_ }
  · intro j c held
    obtain ⟨m', found, asks⟩ := h.asked j c held
    exact ⟨m', older found, asks⟩
  · intro j (le : s.next + 1 ≤ j)
    have := h.unborn j (Nat.le_of_succ_le le)
    refine ⟨?_, this.2⟩
    exact (Function.update_of_ne (by omega) _ _).trans this.1
  · intro j (unknown : Function.update _ _ _ _ = _)
    rw [Function.update_apply] at unknown
    split at unknown
    case isTrue => cases unknown
    case isFalse => exact h.known j unknown
  · intro n j here
    obtain ⟨m', found, target⟩ := h.addressed n j here
    exact ⟨m', older found, target⟩
  · intro j d m' there (found : Function.update _ _ _ _ = _)
    rw [Function.update_apply] at found
    split at found
    case isTrue same =>
      cases (h.known _ unborn.1).1.symm.trans (same ▸ there)
    case isFalse => exact h.tracked j d m' there found
  · intro j m' alive (found : Function.update _ _ _ _ = _) asks
    rw [Function.update_apply] at found
    split at found
    case isTrue same => exact absurd (h.known _ unborn.1).1 (same ▸ alive)
    case isFalse => exact h.listed j m' alive found asks

theorem Good.move (h : Good s) (found : s.messages i = some m) (asks : m.type = .request)
    {w : Bool} {c : Caller} (same : w = true ↔ c = .waiting) :
    Good { s with
      pending := Function.update s.pending i w
      callers := Function.update s.callers i (some c) } := by
  refine { h with waits := fun j => ?_, asked := fun j c' held => ?_ }
  · by_cases own : j = i <;> simp [own, same, h.waits]
  · by_cases own : j = i
    · exact ⟨m, own ▸ found, asks⟩
    · exact h.asked j c' (by simpa [own] using held)

theorem Good.launch (h : Good s) (fresh : s.dispatches i = some ⟨false, false⟩) :
    Good { s with
      dispatches := Function.update s.dispatches i (some ⟨true, false⟩)
      begun := Function.update s.begun i true } := by
  have busy {j : ℕ} (idle : s.dispatches j = none) : j ≠ i := by
    rintro rfl
    cases idle.symm.trans fresh
  have known {j : ℕ} (unknown : s.messages j = none) := h.known j unknown
  refine { h with
    unborn := fun j le => ?_
    known := fun j unknown => ?_
    idle := fun n j here => ?_
    tracked := fun j d m there found => ?_
    listed := fun j m _ found asks => ?_ }
  · obtain ⟨unknown, still⟩ := h.unborn j le
    exact ⟨unknown, (Function.update_of_ne (busy (known unknown).1) _ _).trans still⟩
  · exact ⟨(Function.update_of_ne (busy (known unknown).1) _ _).trans (known unknown).1,
      (known unknown).2⟩
  · obtain ⟨idle, clear, still⟩ := h.idle n j here
    exact ⟨(Function.update_of_ne (busy idle) _ _).trans idle, clear,
      (Function.update_of_ne (busy idle) _ _).trans still⟩
  · by_cases own : j = i
    · subst own
      exact .inl ((h.tracked j _ m fresh found).resolve_right (by simp))
    · exact h.tracked j d m (by simpa [own] using there) found
  · by_cases own : j = i
    · exact h.listed j m (own ▸ fresh ▸ Option.some_ne_none _) found asks
    · exact h.listed j m (by simp_all) found asks

variable [DecidableEq Name]

theorem Good.remove (h : Good s) {tasks : ℕ → Bool}
    (cleared : s.dispatch_tasks i = false → tasks i = false)
    (others : ∀ j, j ≠ i → tasks j = s.dispatch_tasks j) :
    Good ({ s with dispatch_tasks := tasks }.retire i m) := by
  refine h.redispatch (fun j none => ?_) (fun j clear => ?_) (fun j d m' there found => ?_)
    fun j alive entry => ?_
  · simp only [Function.update_apply]
    split
    case isTrue => rfl
    case isFalse => exact none
  · by_cases own : j = i
    · exact own ▸ cleared (own ▸ clear)
    · exact (others j own).trans clear
  · rw [Function.update_apply] at there
    split at there
    case isTrue => cases there
    case isFalse other => simpa [other] using h.tracked j d m' there found
  · have other : j ≠ i := by
      rintro rfl
      exact alive (Function.update_self ..)
    exact (others j other).trans entry

theorem Good.retire (h : Good s) : Good (s.retire i m) := h.remove id fun _ _ => rfl

theorem Good.conclude (h : Good s) : Good (s.conclude i m) := by
  refine h.remove (fun clear => ?_) fun j other => ?_
  · split
    case isTrue => exact Function.update_self ..
    case isFalse => exact clear
  · split
    case isTrue => exact Function.update_of_ne other ..
    case isFalse => rfl

theorem Good.requeue (h : Good s) (n : Name) {r : Option (List (Int × ℕ))}
    (nodup : ∀ q, r = some q → (q.map Prod.snd).Nodup)
    (mem : ∀ q j, r = some q → j ∈ q.map Prod.snd → s.Queued n j ∨
      (∃ m, s.messages j = some m ∧ m.target = n) ∧
        s.dispatches j = none ∧ s.dispatch_tasks j = false ∧ s.begun j = false) :
    Good { s with queues := Function.update s.queues n r } := by
  have at_n {n' : Name} {q : List (Int × ℕ)} (there : Function.update s.queues n r n' = some q) :
      n' = n ∧ r = some q ∨ s.queues n' = some q := by
    rw [Function.update_apply] at there
    split at there
    case isTrue same => exact .inl ⟨same, there⟩
    case isFalse => exact .inr there
  refine { h with addressed := ?_, idle := ?_, once := ?_ }
  · rintro n' j ⟨q, there, here⟩
    rcases at_n there with ⟨rfl, new⟩ | old
    · exact (mem q j new here).elim (h.addressed n' j) And.left
    · exact h.addressed n' j ⟨q, old, here⟩
  · rintro n' j ⟨q, there, here⟩
    rcases at_n there with ⟨rfl, new⟩ | old
    · exact (mem q j new here).elim (h.idle n' j) And.right
    · exact h.idle n' j ⟨q, old, here⟩
  · intro n' q there
    rcases at_n there with ⟨_, new⟩ | old
    · exact nodup q new
    · exact h.once n' q old

theorem Good.enqueue (h : Good s) (found : s.messages i = some m)
    (absent : ∀ n, ¬ s.Queued n i) (idle : s.dispatches i = none)
    (clear : s.dispatch_tasks i = false) (still : s.begun i = false) :
    Good (s.enqueue i m) := by
  unfold State.enqueue
  split
  case h_1 => exact h
  case h_2 q at_target =>
    have numbers : ((put q m.priority i).map Prod.snd).Perm (i :: q.map Prod.snd) :=
      (put_perm q m.priority i).map Prod.snd
    refine h.requeue m.target ?_ ?_
    · rintro _ ⟨⟩
      rw [numbers.nodup_iff, List.nodup_cons]
      exact ⟨fun mem => absent _ ⟨q, at_target, mem⟩, h.once _ q at_target⟩
    · rintro _ j ⟨⟩ mem
      rcases List.mem_cons.mp (numbers.mem_iff.mp mem) with rfl | old
      · exact .inr ⟨⟨m, found, rfl⟩, idle, clear, still⟩
      · exact .inl ⟨q, at_target, old⟩

theorem Good.dispatch (h : Good s) (found : s.messages i = some m)
    (absent : ∀ n, ¬ s.Queued n i) :
    Good { s with
      dispatches := Function.update s.dispatches i (some ⟨false, false⟩)
      dispatch_tasks :=
        if m.type = .request then Function.update s.dispatch_tasks i true else s.dispatch_tasks
      dispatch_by_agent := Function.update s.dispatch_by_agent m.target
        (Function.update (s.dispatch_by_agent m.target) i true) } := by
  have others {j : ℕ} (ne : j ≠ i) :
      (if m.type = .request then Function.update s.dispatch_tasks i true
        else s.dispatch_tasks) j = s.dispatch_tasks j := by
    split <;> simp [ne]
  refine { h with
    known := fun j unknown => ?_, idle := fun n j here => ?_, tracked := ?_, listed := ?_ }
  · have ne : j ≠ i := by
      rintro rfl
      cases found.symm.trans unknown
    exact ⟨(Function.update_of_ne ne _ _).trans (h.known j unknown).1,
      (others ne).trans (h.known j unknown).2⟩
  · have ne : j ≠ i := by
      rintro rfl
      exact absent n here
    have was := h.idle n j here
    exact ⟨(Function.update_of_ne ne _ _).trans was.1, (others ne).trans was.2.1, was.2.2⟩
  · intro j d m' there found'
    by_cases own : j = i
    · subst own
      obtain rfl := Option.some_inj.mp (found.symm.trans found')
      exact .inl (by simp)
    · have was := h.tracked j d m' (by simpa [own] using there) found'
      refine was.imp_left fun mine => ?_
      by_cases target : m'.target = m.target <;> simp_all
  · intro j m' alive found' asks
    by_cases own : j = i
    · subst own
      obtain rfl := Option.some_inj.mp (found.symm.trans found')
      simp [asks]
    · exact (others own).trans (h.listed j m' (by simpa [own] using alive) found' asks)

theorem Good.stopAll (h : Good s) (n : Name) : Good (s.stopAll n) := by
  refine h.redispatch (fun j none => ?_) (fun j clear => clear) ?_ fun j _ entry => entry
  · split
    case isTrue => rw [none, Option.map_none]
    case isFalse => exact none
  · intro j d m there found
    split at there
    case isTrue =>
      obtain ⟨_, _, rfl⟩ := Option.map_eq_some_iff.mp there
      exact .inr rfl
    case isFalse other =>
      refine (h.tracked j d m there found).imp_left fun mine => ?_
      rw [Function.update_of_ne, mine]
      rintro rfl
      exact other mine

theorem Good.evict (h : Good s) (n : Name) : Good (s.evict n) := by
  have drained (q : List (Int × ℕ)) {t : State Name Handler} (good : Good t) :
      Good (q.foldl (fun s e => s.respond e.2) t) := by
    induction q generalizing t with
    | nil => exact good
    | cons e rest ih => exact ih (good.respond e.2)
  exact drained _ (h.stopAll n)

end Keeps

section Run
variable [DecidableEq Name] {s : State Name Handler}

theorem Good.consume (h : Good s) (n : Name) : Good (step (.consume n) s) := by
  simp only [step]
  split
  case h_2 => exact h
  case h_1 e rest _ at_n =>
    have once := h.once n _ at_n
    rw [List.map_cons, List.nodup_cons] at once
    have popped : Good { s with queues := Function.update s.queues n (some rest) } := by
      refine h.requeue n ?_ ?_
      · rintro _ ⟨⟩
        exact once.2
      · rintro _ j ⟨⟩ mem
        exact .inl ⟨_, at_n, List.mem_cons_of_mem _ mem⟩
    split
    case h_1 => exact popped
    case h_2 m found =>
      split
      case isTrue => exact popped
      case isFalse =>
        obtain ⟨m', found', rfl⟩ := h.addressed n e.2 ⟨_, at_n, by simp⟩
        obtain rfl := Option.some_inj.mp (found.symm.trans found')
        refine popped.dispatch found fun n' here => ?_
        obtain ⟨m', found', rfl⟩ := popped.addressed n' e.2 here
        obtain rfl := Option.some_inj.mp (found.symm.trans found')
        obtain ⟨q, there, mem⟩ := here
        obtain rfl : rest = q := by simpa using there
        exact once.1 mem

theorem Good.step (l : Label Name Handler) (h : Good s) : Good (step l s) := by
  cases l with
  | register n handler =>
    change Good { s with queues := _, handlers := _ }
    split
    case isFalse => exact { h with }
    case isTrue => exact { h.requeue n (r := some []) (by simp) (by rintro _ j ⟨⟩ ⟨⟩) with }
  | startLoop n =>
    simp only [BusRequests.step]
    split
    case isFalse => exact h
    case isTrue => exact { h with }
  | enterLoop n =>
    simp only [BusRequests.step]
    split
    case isFalse => exact h
    case isTrue => exact { h with }
  | consume n => exact h.consume n
  | unregister n =>
    exact { (h.evict n).requeue n (r := none) (by simp) (by simp) with }
  | send m =>
    obtain ⟨absent, idle, clear, still⟩ := h.vacant (Nat.le_refl _)
    exact (h.born m).enqueue (Function.update_self ..) absent idle clear still
  | request target priority =>
    obtain ⟨absent, idle, clear, still⟩ := h.vacant (Nat.le_refl _)
    have asked := (h.born ⟨.request, target, priority⟩).move (Function.update_self ..) rfl
      (w := true) (c := .waiting) (by simp)
    exact asked.enqueue (Function.update_self ..) absent idle clear still
  | resume i =>
    simp only [BusRequests.step]
    split
    case isFalse => exact h
    case isTrue held =>
      obtain ⟨m, found, asks⟩ := h.asked i _ held
      have settled : s.pending i = false := by simp [← Bool.not_eq_true, h.waits, held]
      have moved := h.move found asks (w := false) (c := .returned) (by simp)
      rwa [← settled, Function.update_eq_self] at moved
  | timeout i =>
    simp only [BusRequests.step]
    split
    case isFalse => exact h
    case isTrue held =>
      obtain ⟨m, found, asks⟩ := h.asked i _ held
      exact h.move found asks (by simp)
  | cancel i =>
    simp only [BusRequests.step]
    split
    case isFalse => exact h
    case isTrue held =>
      obtain ⟨m, found, asks⟩ := held.elim (h.asked i _) (h.asked i _)
      have moved := h.move found asks (w := false) (c := .cancelled) (by simp)
      split
      case isTrue => exact moved.stop i
      case isFalse => exact { moved with }
  | start i =>
    simp only [BusRequests.step]
    split
    case h_2 => exact h
    case h_1 cancelling m fresh found =>
      cases cancelling with
      | true => exact h.retire
      | false =>
        cases s.handlers m.target with
        | none => exact h.conclude
        | some handler => exact h.launch fresh
  | finish i o =>
    simp only [BusRequests.step]
    split
    case h_2 => exact h
    case h_1 m found =>
      split
      case isTrue => exact (h.respond i).conclude
      case isFalse => exact h.conclude

end Run

/-! ### What one step does to one message -/

section Frames
variable (s : State Name Handler) (i j : ℕ)

theorem respond_frame : ∃ pending callers,
    s.respond j = { s with pending := pending, callers := callers } ∧
      (callers i = s.callers i ∨ s.callers i = some .waiting ∧ callers i = some .answered) := by
  unfold State.respond
  split
  case isFalse => exact ⟨_, _, rfl, .inl rfl⟩
  case isTrue =>
    refine ⟨_, _, rfl, ?_⟩
    split
    case isFalse => exact .inl rfl
    case isTrue held =>
      by_cases own : i = j
      · subst own
        exact .inr ⟨held, Function.update_self ..⟩
      · exact .inl (Function.update_of_ne own ..)

theorem drain_frame (q : List (Int × ℕ)) : ∃ pending callers,
    q.foldl (fun s e => s.respond e.2) s = { s with pending := pending, callers := callers } ∧
      (callers i = s.callers i ∨ s.callers i = some .waiting ∧ callers i = some .answered) := by
  induction q generalizing s with
  | nil => exact ⟨_, _, rfl, .inl rfl⟩
  | cons e rest ih =>
    obtain ⟨pending, callers, same, first⟩ := respond_frame s i e.2
    obtain ⟨pending', callers', same', rest⟩ := ih (s.respond e.2)
    refine ⟨pending', callers', by rw [List.foldl_cons, same', same], ?_⟩
    rw [same] at rest
    grind

theorem evict_frame [DecidableEq Name] (n : Name) : ∃ pending callers,
    s.evict n =
      { s with
        dispatches := fun i =>
          if s.dispatch_by_agent n i then (s.dispatches i).map ({ · with cancelling := true })
          else s.dispatches i
        dispatch_by_agent := Function.update s.dispatch_by_agent n fun _ => false
        pending := pending, callers := callers } ∧
      (callers i = s.callers i ∨ s.callers i = some .waiting ∧ callers i = some .answered) :=
  drain_frame _ i _

end Frames

/-- What a step does to the task of message `i`. -/
inductive Turn (s t : State Name Handler) (l : Label Name Handler) (i : ℕ)
    (m : BusMessage Name) : Prop
  | rest (task : t.dispatches i = s.dispatches i) (begun : t.begun i = s.begun i)
      (entry : t.dispatch_tasks i = s.dispatch_tasks i)
  | create (here : ∃ n, s.Queued n i) (wanted : s.cancelled i = false)
      (task : t.dispatches i = some ⟨false, false⟩) (begun : t.begun i = s.begun i)
      (entry : t.dispatch_tasks i = (s.dispatch_tasks i || m.type = .request))
  | stop
      (who : l = .cancel i ∧ (s.callers i = some .waiting ∨ s.callers i = some .answered) ∨
        ∃ n, l = .unregister n ∧ s.dispatch_by_agent n i = true)
      (task : t.dispatches i = (s.dispatches i).map ({ · with cancelling := true }))
      (begun : t.begun i = s.begun i) (entry : t.dispatch_tasks i = s.dispatch_tasks i)
  | drop (was : s.dispatches i = some ⟨false, true⟩) (task : t.dispatches i = none)
      (begun : t.begun i = s.begun i) (entry : t.dispatch_tasks i = s.dispatch_tasks i)
  | launch (was : s.dispatches i = some ⟨false, false⟩) (task : t.dispatches i = some ⟨true, false⟩)
      (entry : t.dispatch_tasks i = s.dispatch_tasks i)
  | conclude (d : Dispatch) (was : s.dispatches i = some d) (awake : d.started = true ∨ d.cancelling = false)
      (task : t.dispatches i = none) (begun : t.begun i = s.begun i)
      (entry : t.dispatch_tasks i = (s.dispatch_tasks i && m.type ≠ .request))
      (settled : d.started = true → m.type = .request → t.callers i ≠ some .waiting)

section Turns
variable [DecidableEq Name] {s : State Name Handler} {i : ℕ} {m : BusMessage Name}

omit [DecidableEq Name] in
theorem Good.responded (h : Good s) (i : ℕ) : (s.respond i).callers i ≠ some .waiting := by
  have waits := h.waits i
  unfold State.respond
  split
  case isFalse settled => exact fun held => settled (waits.mpr held)
  case isTrue held => simp [waits.mp held]

theorem turn (h : Good s) (agree : ∀ m', s.messages i = some m' → m = m')
    (l : Label Name Handler) :
    Turn s (step l s) l i m := by
  cases l with
  | register n handler => exact .rest rfl rfl rfl
  | startLoop n =>
    simp only [step]
    split <;> exact .rest rfl rfl rfl
  | enterLoop n =>
    simp only [step]
    split <;> exact .rest rfl rfl rfl
  | consume n =>
    simp only [step]
    split
    case h_2 => exact .rest rfl rfl rfl
    case h_1 e rest _ at_n =>
      split
      case h_1 => exact .rest rfl rfl rfl
      case h_2 m' found' =>
        split
        case isTrue => exact .rest rfl rfl rfl
        case isFalse wanted =>
          by_cases own : i = e.2
          · subst own
            obtain rfl := agree _ found'
            refine .create ⟨n, _, at_n, by simp⟩ (by simpa using wanted)
              (Function.update_self ..) rfl ?_
            by_cases asks : m.type = .request <;> simp [asks]
          · refine .rest (Function.update_of_ne own ..) rfl ?_
            by_cases asks : m'.type = .request <;> simp [asks, own]
  | unregister n =>
    obtain ⟨_, _, same, _⟩ := evict_frame s i n
    simp only [step, same]
    by_cases mine : s.dispatch_by_agent n i = true
    · exact .stop (.inr ⟨n, rfl, mine⟩) (if_pos mine) rfl rfl
    · exact .rest (if_neg mine) rfl rfl
  | send m' =>
    simp only [step, State.enqueue]
    split <;> exact .rest rfl rfl rfl
  | request target priority =>
    simp only [step, State.enqueue]
    split <;> exact .rest rfl rfl rfl
  | resume j =>
    simp only [step]
    split <;> exact .rest rfl rfl rfl
  | timeout j =>
    simp only [step]
    split <;> exact .rest rfl rfl rfl
  | cancel j =>
    simp only [step]
    split
    case isFalse => exact .rest rfl rfl rfl
    case isTrue held =>
      split
      case isFalse => exact .rest rfl rfl rfl
      case isTrue =>
        by_cases own : i = j
        · subst own
          exact .stop (.inl ⟨rfl, held⟩) (Function.update_self ..) rfl rfl
        · exact .rest (Function.update_of_ne own ..) rfl rfl
  | start j =>
    simp only [step]
    split
    case h_2 => exact .rest rfl rfl rfl
    case h_1 cancelling m' fresh found' =>
      by_cases own : i = j
      · subst own
        obtain rfl := agree _ found'
        cases cancelling with
        | true => exact .drop fresh (Function.update_self ..) rfl rfl
        | false =>
          cases s.handlers m.target with
          | none =>
            refine .conclude _ fresh (.inr rfl) (Function.update_self ..) rfl ?_ (by simp)
            by_cases asks : m.type = .request <;> simp [State.conclude, State.retire, asks]
          | some handler => exact .launch fresh (Function.update_self ..) rfl
      · cases cancelling with
        | true => exact .rest (Function.update_of_ne own ..) rfl rfl
        | false =>
          cases s.handlers m'.target with
          | none =>
            refine .rest (Function.update_of_ne own ..) rfl ?_
            by_cases asks : m'.type = .request <;> simp [State.conclude, State.retire, asks, own]
          | some handler =>
            exact .rest (Function.update_of_ne own ..) (Function.update_of_ne own ..) rfl
  | finish j o =>
    simp only [step]
    split
    case h_2 => exact .rest rfl rfl rfl
    case h_1 cancelling m' running found' =>
      have answered : ∃ u : State Name Handler,
          (if m'.type = .request ∨ o = .cancelled then s.respond j else s) = u ∧
          u.dispatches = s.dispatches ∧ u.begun = s.begun ∧ u.dispatch_tasks = s.dispatch_tasks ∧
          (m'.type = .request → u.callers j ≠ some .waiting) := by
        refine ⟨_, rfl, ?_⟩
        obtain ⟨_, _, same, _⟩ := respond_frame s i j
        split
        case isTrue =>
          refine ⟨?_, ?_, ?_, fun _ => h.responded j⟩ <;> rw [same]
        case isFalse other => exact ⟨rfl, rfl, rfl, fun asks => absurd (.inl asks) other⟩
      obtain ⟨u, same, tasks, begun, entries, settled⟩ := answered
      rw [same]
      by_cases own : i = j
      · subst own
        obtain rfl := agree _ found'
        refine .conclude _ running (.inl rfl) (Function.update_self ..) (congrFun begun i) ?_
          fun _ => settled
        by_cases asks : m.type = .request <;>
          simp [State.conclude, State.retire, asks, entries]
      · refine .rest ((Function.update_of_ne own ..).trans (congrFun tasks i)) (congrFun begun i) ?_
        by_cases asks : m'.type = .request <;>
          simp [State.conclude, State.retire, asks, own, entries]

omit [DecidableEq Name] in
theorem Good.younger (h : Good s) (found : s.messages i = some m) : i ≠ s.next := by
  rintro rfl
  cases (h.unborn _ (Nat.le_refl _)).1.symm.trans found

theorem step_old (h : Good s) (found : s.messages i = some m) (l : Label Name Handler) :
    (step l s).messages i = some m ∧
      (s.cancelled i = true → (step l s).cancelled i = true) ∧
      ∀ n, (step l s).Queued n i → s.Queued n i := by
  have enqueued {t : State Name Handler} {m' : BusMessage Name}
      (messages : t.messages i = some m) (n : Name)
      (here : (t.enqueue s.next m').Queued n i) : t.Queued n i := by
    unfold State.enqueue at here
    split at here
    case h_1 => exact here
    case h_2 q at_target =>
      obtain ⟨r, there, mem⟩ := here
      by_cases target : n = m'.target
      · subst target
        obtain rfl : put q m'.priority s.next = r := by simpa using there
        rw [((put_perm q m'.priority s.next).map Prod.snd).mem_iff, List.map_cons] at mem
        exact ⟨q, at_target, (List.mem_cons.mp mem).resolve_left (h.younger found)⟩
      · exact ⟨r, by simpa [target] using there, mem⟩
  have posted {t : State Name Handler} (m' : BusMessage Name) :
      (t.enqueue s.next m').messages = t.messages ∧
        (t.enqueue s.next m').cancelled = t.cancelled := by
    unfold State.enqueue
    split <;> exact ⟨rfl, rfl⟩
  have kept (m' : BusMessage Name) :
      Function.update s.messages s.next (some m') i = some m :=
    (Function.update_of_ne (h.younger found) ..).trans found
  cases l with
  | register n handler =>
    refine ⟨found, id, fun n' here => ?_⟩
    obtain ⟨q, there, mem⟩ := here
    simp only [step] at there
    split at there
    case isFalse => exact ⟨q, there, mem⟩
    case isTrue =>
      by_cases own : n' = n
      · subst own
        obtain rfl : [] = q := by simpa using there
        cases mem
      · exact ⟨q, by simpa [own] using there, mem⟩
  | startLoop n =>
    simp only [step]
    split <;> exact ⟨found, id, fun _ => id⟩
  | enterLoop n =>
    simp only [step]
    split <;> exact ⟨found, id, fun _ => id⟩
  | consume n =>
    simp only [step]
    split
    case h_2 => exact ⟨found, id, fun _ => id⟩
    case h_1 e rest _ at_n =>
      have shorter (n' : Name) (here : State.Queued
          { s with queues := Function.update s.queues n (some rest) } n' i) : s.Queued n' i := by
        obtain ⟨q, there, mem⟩ := here
        by_cases own : n' = n
        · subst own
          obtain rfl : rest = q := by simpa using there
          exact ⟨_, at_n, List.mem_cons_of_mem _ mem⟩
        · exact ⟨q, by simpa [own] using there, mem⟩
      split
      case h_1 => exact ⟨found, id, shorter⟩
      case h_2 => split <;> exact ⟨found, id, shorter⟩
  | unregister n =>
    obtain ⟨_, _, same, _⟩ := evict_frame s i n
    simp only [step, same]
    refine ⟨found, id, fun n' here => ?_⟩
    obtain ⟨r, there, mem⟩ := here
    by_cases own : n' = n
    · subst own
      simp at there
    · exact ⟨r, by simpa [own] using there, mem⟩
  | send m' =>
    obtain ⟨messages, marks⟩ := posted (t := { s with messages := _, next := _ }) m'
    exact ⟨(congrFun messages i).trans (kept m'), fun mark => (congrFun marks i).trans mark,
      enqueued (kept m')⟩
  | request target priority =>
    obtain ⟨messages, marks⟩ := posted
      (t := { s with messages := _, pending := _, callers := _, next := _ })
      ⟨.request, target, priority⟩
    exact ⟨(congrFun messages i).trans (kept _), fun mark => (congrFun marks i).trans mark,
      enqueued (kept _)⟩
  | resume j =>
    simp only [step]
    split <;> exact ⟨found, id, fun _ => id⟩
  | timeout j =>
    simp only [step]
    split <;> exact ⟨found, id, fun _ => id⟩
  | cancel j =>
    simp only [step]
    split
    case isFalse => exact ⟨found, id, fun _ => id⟩
    case isTrue =>
      split
      case isTrue => exact ⟨found, id, fun _ => id⟩
      case isFalse =>
        refine ⟨found, fun mark => ?_, fun _ => id⟩
        by_cases own : i = j <;> simp [own, mark]
  | start j =>
    simp only [step]
    split
    case h_2 => exact ⟨found, id, fun _ => id⟩
    case h_1 cancelling m' _ _ =>
      split
      case isTrue => exact ⟨found, id, fun _ => id⟩
      case isFalse => cases s.handlers m'.target <;> exact ⟨found, id, fun _ => id⟩
  | finish j o =>
    simp only [step]
    split
    case h_2 => exact ⟨found, id, fun _ => id⟩
    case h_1 =>
      obtain ⟨_, _, same, _⟩ := respond_frame s i j
      split
      case isTrue =>
        rw [same]
        exact ⟨found, id, fun _ => id⟩
      case isFalse => exact ⟨found, id, fun _ => id⟩

/-- How the caller of message `i` moves. -/
inductive Turned (s t : State Name Handler) (l : Label Name Handler) (i : ℕ) : Prop
  | rest (same : t.callers i = s.callers i)
  | answer (was : s.callers i = some .waiting) (now : t.callers i = some .answered)
  | leave (was : s.callers i = some .answered) (now : t.callers i = some .returned)
  | own (who : l = .timeout i ∨ l = .cancel i) (was : s.callers i ≠ none)
      (now : t.callers i = some .timedOut ∨ t.callers i = some .cancelled)

theorem turned (h : Good s) (found : s.messages i = some m) (l : Label Name Handler) :
    Turned s (step l s) l i := by
  cases l with
  | register n handler => exact .rest rfl
  | startLoop n =>
    simp only [step]
    split <;> exact .rest rfl
  | enterLoop n =>
    simp only [step]
    split <;> exact .rest rfl
  | consume n =>
    simp only [step]
    split
    case h_2 => exact .rest rfl
    case h_1 =>
      split
      case h_1 => exact .rest rfl
      case h_2 => split <;> exact .rest rfl
  | unregister n =>
    obtain ⟨_, _, same, moved⟩ := evict_frame s i n
    simp only [step, same]
    rcases moved with still | ⟨was, now⟩
    · exact .rest still
    · exact .answer was now
  | send m' =>
    simp only [step, State.enqueue]
    split <;> exact .rest rfl
  | request target priority =>
    simp only [step, State.enqueue]
    split <;> exact .rest (Function.update_of_ne (h.younger found) ..)
  | resume j =>
    simp only [step]
    split
    case isFalse => exact .rest rfl
    case isTrue was =>
      by_cases own : i = j
      · subst own
        exact .leave was (Function.update_self ..)
      · exact .rest (Function.update_of_ne own ..)
  | timeout j =>
    simp only [step]
    split
    case isFalse => exact .rest rfl
    case isTrue was =>
      by_cases own : i = j
      · subst own
        exact .own (.inl rfl) (by simp [was]) (.inl (Function.update_self ..))
      · exact .rest (Function.update_of_ne own ..)
  | cancel j =>
    simp only [step]
    split
    case isFalse => exact .rest rfl
    case isTrue was =>
      by_cases own : i = j
      · subst own
        have held : s.callers i ≠ none := by rcases was with was | was <;> simp [was]
        split <;> exact .own (.inr rfl) held (.inr (Function.update_self ..))
      · split <;> exact .rest (Function.update_of_ne own ..)
  | start j =>
    simp only [step]
    split
    case h_2 => exact .rest rfl
    case h_1 cancelling m' _ _ =>
      split
      case isTrue => exact .rest rfl
      case isFalse => cases s.handlers m'.target <;> exact .rest rfl
  | finish j o =>
    simp only [step]
    split
    case h_2 => exact .rest rfl
    case h_1 =>
      obtain ⟨_, _, same, moved⟩ := respond_frame s i j
      split
      case isFalse => exact .rest rfl
      case isTrue =>
        rw [same]
        rcases moved with still | ⟨was, now⟩
        · exact .rest still
        · exact .answer was now

end Turns

/-! ### Requests that are cancelled -/

section Cancelled
variable [DecidableEq Name] {s t : State Name Handler} {i : ℕ} {m : BusMessage Name}
  {ls : List (Label Name Handler)}

abbrev Free : Label Name Handler → State Name Handler → Prop := fun _ _ => True

def State.Fresh (s : State Name Handler) : Prop :=
  ∀ i d, s.dispatches i = some d → d.started = false → s.begun i = false

omit [DecidableEq Name] in
theorem Good.some_message {i : ℕ} {d : Dispatch} (h : Good s) (there : s.dispatches i = some d) :
    ∃ m, s.messages i = some m := by
  cases found : s.messages i with
  | none => cases (h.known i found).1.symm.trans there
  | some m => exact ⟨m, rfl⟩

theorem fresh_step (h : Good s) (fresh : s.Fresh) (l : Label Name Handler) :
    (step l s).Fresh := by
  intro i d there unstarted
  obtain ⟨m, found⟩ := (h.step l).some_message there
  have agree (m' : BusMessage Name) (found' : s.messages i = some m') : m = m' :=
    Option.some_inj.mp (found.symm.trans (step_old h found' l).1)
  cases turn h agree l with
  | rest task begun _ => exact begun.trans (fresh i d (task.symm.trans there) unstarted)
  | create here _ _ begun _ =>
    obtain ⟨n, queued⟩ := here
    exact begun.trans (h.idle n i queued).2.2
  | stop _ task begun _ =>
    obtain ⟨d', was, rfl⟩ := Option.map_eq_some_iff.mp (task.symm.trans there)
    exact begun.trans (fresh i d' was unstarted)
  | drop _ task => cases task.symm.trans there
  | launch _ task =>
    obtain rfl := Option.some_inj.mp (task.symm.trans there)
    cases unstarted
  | conclude _ _ _ task => cases task.symm.trans there

theorem good_run (run : Runs step Free .start ls s) : Good s ∧ s.Fresh := by
  refine run.invariant (I := fun s => Good s ∧ s.Fresh)
    (fun l s _ h => ⟨h.1.step l, fresh_step h.1 h.2 l⟩) ?_
  refine ⟨?_, by simp [State.Fresh, State.start]⟩
  constructor <;> simp [State.start, State.Queued]

/-- The message is marked or out of the queues, and its task, if it has one, was cancelled
before its first step. -/
def State.Barred (s : State Name Handler) (i : ℕ) : Prop :=
  (∃ m, s.messages i = some m) ∧ s.begun i = false ∧
    (∀ d, s.dispatches i = some d → d = ⟨false, true⟩) ∧
    (s.cancelled i = true ∨ ∀ n, ¬ s.Queued n i)

theorem barred_step (h : Good s) (barred : s.Barred i) (l : Label Name Handler) :
    (step l s).Barred i := by
  obtain ⟨⟨m, found⟩, still, task, away⟩ := barred
  obtain ⟨kept, mark, queued⟩ := step_old h found l
  have away' : (step l s).cancelled i = true ∨ ∀ n, ¬ (step l s).Queued n i :=
    away.imp mark fun none n here => none n (queued n here)
  cases turn h (fun m' found' => Option.some_inj.mp (found.symm.trans found')) l with
  | rest same begun _ =>
    exact ⟨⟨m, kept⟩, begun.trans still, fun d there => task d (same.symm.trans there), away'⟩
  | create here wanted _ _ _ =>
    obtain ⟨n, here⟩ := here
    rcases away with mark | none
    · simp [mark] at wanted
    · exact absurd here (none n)
  | stop _ same begun _ =>
    refine ⟨⟨m, kept⟩, begun.trans still, fun d there => ?_, away'⟩
    obtain ⟨d', was, rfl⟩ := Option.map_eq_some_iff.mp (same.symm.trans there)
    rw [task d' was]
  | drop _ gone begun _ =>
    exact ⟨⟨m, kept⟩, begun.trans still, fun d there => (nomatch gone.symm.trans there), away'⟩
  | launch was _ _ => cases task _ was
  | conclude d was awake _ _ _ _ => simp [task d was] at awake

theorem barred_cancel (h : Good s) (fresh : s.Fresh)
    (held : s.callers i = some .waiting ∨ s.callers i = some .answered)
    (early : (∃ n, s.Queued n i) ∨ s.Unstarted i) : (step (.cancel i) s).Barred i := by
  simp only [step, if_pos held]
  rcases early with ⟨n, here⟩ | ⟨m, d, found, asks, there, unstarted⟩
  · obtain ⟨idle, clear, still⟩ := h.idle n i here
    obtain ⟨m, found, _⟩ := h.addressed n i here
    rw [if_neg (by simp [clear])]
    exact ⟨⟨m, found⟩, still, fun d there => (nomatch idle.symm.trans there),
      .inl (Function.update_self ..)⟩
  · have entry := h.listed i m (by simp [there]) found asks
    rw [if_pos entry]
    refine ⟨⟨m, found⟩, fresh i d there unstarted, fun d' now => ?_, .inr fun n here => ?_⟩
    · have map : Function.update s.dispatches i
          ((s.dispatches i).map ({ · with cancelling := true })) i = some d' := now
      rw [Function.update_self, there, Option.map_some, Option.some_inj] at map
      rw [← map, unstarted]
    · cases (h.idle n i here).1.symm.trans there

end Cancelled

/-! ### Eviction and bookkeeping -/

/-- The condition on a step: it cancels no dispatch task of a request before its first step. -/
def Gentle : Label Name Handler → State Name Handler → Prop
  | .cancel i, s =>
      s.callers i = some .waiting ∨ s.callers i = some .answered → ¬ s.Unstarted i
  | .unregister n, s => ∀ i, s.dispatch_by_agent n i = true → ¬ s.Unstarted i
  | _, _ => True

structure Tidy (s : State Name Handler) : Prop where
  good : Good s
  awake : ∀ i m d, s.messages i = some m → m.type = .request → s.dispatches i = some d →
    d.started = true ∨ d.cancelling = false
  entries : ∀ i, s.dispatch_tasks i = true →
    s.dispatches i ≠ none ∧ ∃ m, s.messages i = some m ∧ m.type = .request

section Eviction
variable [DecidableEq Name] {s t : State Name Handler} {i : ℕ} {m : BusMessage Name} {n : Name}
  {ls : List (Label Name Handler)}

theorem Tidy.awake_step (h : Tidy s) {l : Label Name Handler} (gentle : Gentle l s)
    {d : Dispatch} (found : (step l s).messages i = some m) (asks : m.type = .request)
    (there : (step l s).dispatches i = some d) : d.started = true ∨ d.cancelling = false := by
  have agree (m' : BusMessage Name) (found' : s.messages i = some m') : m = m' :=
    Option.some_inj.mp (found.symm.trans (step_old h.good found' l).1)
  have earlier {d' : Dispatch} (was : s.dispatches i = some d') : s.messages i = some m := by
    obtain ⟨m', found'⟩ := h.good.some_message was
    rw [agree m' found', found']
  cases turn h.good agree l with
  | rest task _ _ =>
    have was := task.symm.trans there
    exact h.awake i m d (earlier was) asks was
  | create _ _ task _ _ =>
    obtain rfl := Option.some_inj.mp (task.symm.trans there)
    exact .inr rfl
  | stop who task _ _ =>
    obtain ⟨d', was, rfl⟩ := Option.map_eq_some_iff.mp (task.symm.trans there)
    refine .inl ?_
    by_contra unstarted
    have rough : s.Unstarted i := ⟨m, d', earlier was, asks, was, by simpa using unstarted⟩
    rcases who with ⟨rfl, held⟩ | ⟨n, rfl, mine⟩
    · exact gentle held rough
    · exact gentle i mine rough
  | drop _ task _ _ => cases task.symm.trans there
  | launch _ task _ =>
    obtain rfl := Option.some_inj.mp (task.symm.trans there)
    exact .inl rfl
  | conclude _ _ _ task _ _ _ => cases task.symm.trans there

theorem Tidy.entries_step (h : Tidy s) (l : Label Name Handler)
    (entry : (step l s).dispatch_tasks i = true) :
    (step l s).dispatches i ≠ none ∧ ∃ m, (step l s).messages i = some m ∧ m.type = .request := by
  obtain ⟨m, found⟩ : ∃ m, (step l s).messages i = some m := by
    refine Option.ne_none_iff_exists'.mp fun unknown => ?_
    simp [((h.good.step l).known i unknown).2] at entry
  have agree (m' : BusMessage Name) (found' : s.messages i = some m') : m = m' :=
    Option.some_inj.mp (found.symm.trans (step_old h.good found' l).1)
  have asks (was : s.dispatch_tasks i = true) : m.type = .request := by
    obtain ⟨m', found', asks⟩ := (h.entries i was).2
    rwa [agree m' found']
  cases turn h.good agree l with
  | rest task _ same =>
    have was := same.symm.trans entry
    exact ⟨task ▸ (h.entries i was).1, m, found, asks was⟩
  | create here _ task _ same =>
    obtain ⟨n, here⟩ := here
    have clear := (h.good.idle n i here).2.1
    exact ⟨by simp [task], m, found, by simpa [clear, entry] using same⟩
  | stop _ task _ same =>
    have was := same.symm.trans entry
    exact ⟨by simpa [task] using (h.entries i was).1, m, found, asks was⟩
  | drop was _ _ same =>
    have listed := same.symm.trans entry
    obtain ⟨m', found', _⟩ := (h.entries i listed).2
    have := h.awake i m _ (agree m' found' ▸ found') (asks listed) was
    simp at this
  | launch _ task same => exact ⟨by simp [task], m, found, asks (same.symm.trans entry)⟩
  | conclude _ _ _ _ _ same _ =>
    rw [entry, eq_comm, Bool.and_eq_true] at same
    simp [asks same.1] at same

theorem Tidy.step (h : Tidy s) {l : Label Name Handler} (gentle : Gentle l s) :
    Tidy (step l s) where
  good := h.good.step l
  awake := fun _ _ _ found asks there => h.awake_step gentle found asks there
  entries := fun _ entry => h.entries_step l entry

theorem tidy_run (run : Runs BusRequests.step Gentle .start ls s) : Tidy s := by
  refine run.invariant (fun l s gentle h => h.step gentle) ⟨?_, ?_, ?_⟩
  · exact (good_run (.nil _)).1
  · simp [State.start]
  · simp [State.start]

def State.Served (s : State Name Handler) (i : ℕ) : Prop :=
  s.callers i = some .answered ∨ s.callers i = some .returned ∨
    s.callers i = some .waiting ∧
      ∃ d, s.dispatches i = some d ∧ d.started = true ∧ d.cancelling = true

theorem served_step (h : Good s) (found : s.messages i = some m) (asks : m.type = .request)
    (served : s.Served i) {l : Label Name Handler} (stays : ¬ (l = .timeout i ∨ l = .cancel i)) :
    (BusRequests.step l s).Served i := by
  cases turned h found l with
  | answer _ now => exact .inl now
  | leave _ now => exact .inr (.inl now)
  | own who _ _ => exact absurd who stays
  | rest same =>
    rcases served with done | done | ⟨waits, d, there, started, cancelling⟩
    · exact .inl (same.trans done)
    · exact .inr (.inl (same.trans done))
    · have still := same.trans waits
      refine .inr (.inr ⟨still, ?_⟩)
      cases turn h (fun m' found' => Option.some_inj.mp (found.symm.trans found')) l with
      | rest task _ _ => exact ⟨d, task.trans there, started, cancelling⟩
      | create here _ _ _ _ =>
        obtain ⟨n, here⟩ := here
        cases (h.idle n i here).1.symm.trans there
      | stop _ task _ _ =>
        exact ⟨{ d with cancelling := true }, task.trans (by rw [there, Option.map_some]),
          started, rfl⟩
      | drop was _ _ _ =>
        obtain rfl := Option.some_inj.mp (was.symm.trans there)
        cases started
      | launch was _ _ =>
        obtain rfl := Option.some_inj.mp (was.symm.trans there)
        cases started
      | conclude d' was _ _ _ _ settled =>
        obtain rfl := Option.some_inj.mp (was.symm.trans there)
        exact absurd still (settled started asks)

theorem served_run (run : Runs BusRequests.step Free s ls t) (h : Good s)
    (found : s.messages i = some m) (asks : m.type = .request) (served : s.Served i) :
    t.Served i ∨ ∃ l ∈ ls, l = .timeout i ∨ l = .cancel i := by
  induction run with
  | nil s => exact .inl served
  | @cons s t l ls _ _ ih =>
    by_cases gone : l = .timeout i ∨ l = .cancel i
    · exact .inr ⟨l, List.mem_cons_self, gone⟩
    · have later := ih (h.step l) (step_old h found l).1 (served_step h found asks served gone)
      refine later.imp_right ?_
      rintro ⟨l', mem, who⟩
      exact ⟨l', List.mem_cons_of_mem _ mem, who⟩

omit [DecidableEq Name] in
theorem drained (h : Good s) {q : List (Int × ℕ)} (mem : i ∈ q.map Prod.snd) :
    (q.foldl (fun s e => s.respond e.2) s).callers i ≠ some .waiting := by
  induction q generalizing s with
  | nil => cases mem
  | cons e rest ih =>
    rw [List.foldl_cons]
    rcases List.mem_cons.mp mem with rfl | later
    · obtain ⟨_, _, same, moved⟩ := drain_frame (s.respond e.2) e.2 rest
      rw [same]
      rcases moved with still | ⟨was, _⟩
      · exact fun held => h.responded e.2 (still.symm.trans held)
      · exact absurd was (h.responded e.2)
    · exact ih (h.respond e.2) later

theorem served_unregister (h : Tidy s) (gentle : Gentle (.unregister n) s)
    (waits : s.callers i = some .waiting) (found : s.messages i = some m)
    (asks : m.type = .request) (stuck : s.Queued n i ∨ m.target = n ∧ s.dispatches i ≠ none) :
    (BusRequests.step (.unregister n) s).Served i := by
  have after : (BusRequests.step (.unregister n) s).callers i = some .answered ∨
      (BusRequests.step (.unregister n) s).callers i = some .waiting := by
    cases turned h.good found (.unregister n) with
    | rest same => exact .inr (same.trans waits)
    | answer _ now => exact .inl now
    | leave was _ => cases waits.symm.trans was
    | own who _ _ => simp at who
  rcases after with done | still
  · exact .inl done
  rcases stuck with ⟨q, at_n, mem⟩ | ⟨rfl, alive⟩
  · have gone := drained (h.good.stopAll n) mem
    change (s.evict n).callers i = some .waiting at still
    rw [State.evict, at_n, Option.getD_some] at still
    exact absurd still gone
  · obtain ⟨d, there⟩ := Option.ne_none_iff_exists'.mp alive
    refine .inr (.inr ⟨still, ?_⟩)
    obtain ⟨_, _, same, _⟩ := evict_frame s i m.target
    simp only [BusRequests.step, same]
    by_cases mine : s.dispatch_by_agent m.target i = true
    · refine ⟨{ d with cancelling := true }, by rw [if_pos mine, there, Option.map_some], ?_, rfl⟩
      by_contra unstarted
      exact gentle i mine ⟨m, d, found, asks, there, by simpa using unstarted⟩
    · have cancelling := (h.good.tracked i d m there found).resolve_left mine
      refine ⟨d, by rw [if_neg mine, there], ?_, cancelling⟩
      exact (h.awake i m d found asks there).resolve_right (by simp [cancelling])

/-- An entry whose task was cancelled before its first step: nothing takes it out again. -/
def State.Leaked (s : State Name Handler) (i : ℕ) : Prop :=
  (∃ m, s.messages i = some m ∧ m.type = .request) ∧ s.dispatch_tasks i = true ∧
    (∀ d, s.dispatches i = some d → d = ⟨false, true⟩) ∧ ∀ n, ¬ s.Queued n i

theorem leaked_step (h : Good s) (leaked : s.Leaked i) (l : Label Name Handler) :
    (step l s).Leaked i := by
  obtain ⟨⟨m, found, asks⟩, entry, task, away⟩ := leaked
  obtain ⟨kept, _, queued⟩ := step_old h found l
  have away' (n : Name) (here : (step l s).Queued n i) := away n (queued n here)
  cases turn h (fun m' found' => Option.some_inj.mp (found.symm.trans found')) l with
  | rest still _ same =>
    exact ⟨⟨m, kept, asks⟩, same.trans entry, fun d there => task d (still.symm.trans there),
      away'⟩
  | create here _ _ _ _ =>
    obtain ⟨n, here⟩ := here
    exact absurd here (away n)
  | stop _ now _ same =>
    refine ⟨⟨m, kept, asks⟩, same.trans entry, fun d there => ?_, away'⟩
    obtain ⟨d', was, rfl⟩ := Option.map_eq_some_iff.mp (now.symm.trans there)
    rw [task d' was]
  | drop _ gone _ same =>
    exact ⟨⟨m, kept, asks⟩, same.trans entry, fun d there => (nomatch gone.symm.trans there),
      away'⟩
  | launch was _ _ => cases task _ was
  | conclude d was awake _ _ _ _ => simp [task d was] at awake

end Eviction

def oneRequest : List (Label ℕ Unit) :=
  [.register 0 (some ()), .startLoop 0, .enterLoop 0, .request 0 1]

end Casa.BusRequests
