import Casa.SpoolSafety

/-! The spool, the processes that read its FIFO and the relay that hands their frames to the
driver. A message is stamped with the epoch of the last spawn frame the driver has seen; its
turn is safe once the process of that epoch begins it. -/

namespace Casa.InboundSpool

open JsonText Coroutine CoroutinePool StepRuns

/-! ### Processes and frames -/

/-- A frame, with the epoch of the process that emits it. The driver reads that of a spawn. -/
inductive Frame
  | spawn (epoch : Int)
  | turn_start (epoch : Int)
  | result (epoch : Int)
  deriving DecidableEq

/-- How far a process is: it has read nothing yet, it has read that write, or its turn runs. -/
inductive Phase
  | fresh
  | read (write : ℕ)
  | begun
  deriving DecidableEq

/-- The process that runs, the frames emitted so far, and how many of them the driver has
handled. `began` has the turns: an epoch, and the write its process had read. -/
structure Cli where
  process : Option (Int × Phase) := none
  epochs : List Int := []
  trace : List Frame := []
  handled : ℕ := 0
  began : List (Int × ℕ) := []

/-- The next process starts, whatever became of the one before; it reads a message; its turn
begins; its turn ends. -/
inductive Act
  | spawn (epoch : Int)
  | read (write : ℕ)
  | begin
  | finish

def Cli.emit (c : Cli) (f : Frame) (process : Option (Int × Phase)) : Cli :=
  { c with trace := c.trace ++ [f], process := process }

/-- Only what a process can do happens: epochs are distinct, a process reads once, begins what
it has read, and ends what it has begun. -/
def Cli.act (writes : ℕ) : Act → Cli → Cli
  | .spawn epoch, c =>
      if epoch ∈ c.epochs then c
      else { c.emit (.spawn epoch) (some (epoch, .fresh)) with epochs := epoch :: c.epochs }
  | .read k, c =>
      match c.process with
      | some (epoch, .fresh) =>
          if k < writes then { c with process := some (epoch, .read k) } else c
      | _ => c
  | .begin, c =>
      match c.process with
      | some (epoch, .read k) =>
          { c.emit (.turn_start epoch) (some (epoch, .begun)) with began := (epoch, k) :: c.began }
      | _ => c
  | .finish, c =>
      match c.process with
      | some (epoch, .begun) => c.emit (.result epoch) none
      | _ => c

def Cli.last (c : Cli) : Option Frame := if c.handled = 0 then none else c.trace[c.handled - 1]?

def Cli.next (c : Cli) : Option Frame := c.trace[c.handled]?

/-! ### The driver -/

inductive Handled
  | nothing
  | spawned
  | noted

/-- `_on_stream_event` up to its first await: the spool's part of it runs in one block with the
driver's own. -/
def handle (f : Frame) : Block Cli Handled := fun i w =>
  match f with
  | .spawn epoch =>
      if w.current_epoch = some epoch then (.ok .nothing, w)
      else
        let r := arm i { w with turn_running := false, current_epoch := some epoch }
        (r.1.map fun _ => .spawned, r.2)
  | .turn_start _ =>
      let r := consume i { w with turn_running := true }
      (r.1.map fun _ => .noted, r.2)
  | .result _ => (.ok .noted, { w with current_epoch := none, turn_running := false })

def hand (replay : Bool) : Block Cli Handled := fun i w =>
  match (if replay then w.outside.last else w.outside.next) with
  | none => (.ok .nothing, w)
  | some f =>
      handle f i (if replay then w
        else { w with outside := { w.outside with handled := w.outside.handled + 1 } })

/-- `_on_stream_event`; what it does for summaries and anchors leaves the spool alone. -/
def on_stream_event (fuel : ℕ) (replay : Bool) : Task Cli Unit := do
  match ← Co.block (hand replay) with
  | .nothing => pure ⟨⟩
  | .spawned => pump fuel
  | .noted => flush fuel

inductive Job
  | enqueue (text : Text) (tg : Option Int) (is_initial : Bool)
  | frame (replay : Bool)

def Job.program (j : Job × ℕ) : Task Cli Unit :=
  match j.1 with
  | .enqueue text tg is_initial => do
      let _ ← InboundSpool.enqueue j.2 text tg is_initial
  | .frame replay => on_stream_event j.2 replay

def session : System Act (Job × ℕ) Input (World Cli) Raised where
  env a w := { w with outside := w.outside.act w.written.length a }
  program := Job.program
  restart := World.restart

def opened (file : List Char) : World Cli := World.restart { file := file, outside := {} }

/-! ### The invariant -/

def pending : Option Frame → Option Int
  | some (.spawn epoch) => some epoch
  | some (.turn_start epoch) => some epoch
  | _ => none

structure Cli.Sound (c : Cli) (writes : ℕ) : Prop where
  inside : c.handled ≤ c.trace.length
  distinct : ∀ (i j : ℕ) epoch, c.trace[i]? = some (Frame.spawn epoch) → c.trace[j]? = some (Frame.spawn epoch) →
    i = j
  turned : ∀ (i : ℕ) epoch, c.trace[i]? = some (Frame.turn_start epoch) →
    ∃ j, i = j + 1 ∧ c.trace[j]? = some (Frame.spawn epoch)
  known : ∀ f ∈ c.trace, ∀ epoch, f = .spawn epoch ∨ f = .turn_start epoch → epoch ∈ c.epochs
  waiting : ∀ epoch phase, c.process = some (epoch, phase) → phase ≠ .begun →
    c.trace[c.trace.length - 1]? = some (Frame.spawn epoch) ∧ 0 < c.trace.length ∧
      Frame.turn_start epoch ∉ c.trace
  process : ∀ epoch phase, c.process = some (epoch, phase) → epoch ∈ c.epochs
  read : ∀ epoch k, c.process = some (epoch, .read k) → k < writes
  began : ∀ epoch k, (epoch, k) ∈ c.began → k < writes ∧ Frame.turn_start epoch ∈ c.trace

def Exposed (c : Cli) (k : ℕ) (x : Write) : Prop :=
  ∃ epoch, x.epoch = some epoch ∧ ((epoch, k) ∈ c.began ∨
    c.process = some (epoch, .fresh) ∨ c.process = some (epoch, .read k))

/-- An envelope whose next frame is the one that consumes it: it is stamped with the epoch of
the spawn frame handled last, and what follows is the start of its turn, or nothing yet. -/
def Due (c : Cli) (x : Write) (e : Envelope) : Prop :=
  ∃ epoch, x.epoch = some epoch ∧ e.delivery_epoch = some epoch ∧ c.last = some (.spawn epoch) ∧
    (c.next = some (.turn_start epoch) ∨
      c.handled = c.trace.length ∧ ∃ phase, c.process = some (epoch, phase) ∧ phase ≠ .begun)

def Sheltered (w : World Cli) (x : Write) : Prop :=
  ∀ e ∈ w.envelopes, e.seq = x.seq → e.state ≠ .queued ∧
    (e.state = .delivered → Due w.outside x e)

structure Tidy (w : World Cli) : Prop where
  cli : w.outside.Sound w.written.length
  current : w.current_epoch = pending w.outside.last
  numbers : ∀ e ∈ w.envelopes, e.seq < w.next_seq
  spent : ∀ x ∈ w.written, x.seq < w.next_seq
  stamps : ∀ x ∈ w.written, ∀ epoch, x.epoch = some epoch → epoch ∈ w.outside.epochs
  armings : w.written.Pairwise (·.arming < ·.arming)
  armed : ∀ x ∈ w.written, x.arming ≤ w.armed
  ready : w.reader_ready = true → ∀ x ∈ w.written, x.arming < w.armed
  sheltered : ∀ k x, w.written[k]? = some x → Exposed w.outside k x → Sheltered w x
  once : ∀ k x, w.written[k]? = some x → Exposed w.outside k x →
    ∀ j y, k < j → w.written[j]? = some y → y.seq ≠ x.seq

def Clear (n : Int) (w : World Cli) : Prop :=
  n < w.next_seq ∧ ∀ k x, w.written[k]? = some x → Exposed w.outside k x → x.seq ≠ n

/-- The token is the pump's lock: under it the reader stays ready and a message that may be
written stays so. -/
def locked : Contract (World Cli) where
  inv := Tidy
  later := fun _ _ => True
  calm := fun w v => (w.pump_lock = true → v.pump_lock = true) ∧
    (w.reader_ready = true → v.reader_ready = true) ∧ ∀ n, Clear n w → Clear n v
  taken := fun w => w.pump_lock = true
  calm_refl := fun _ => ⟨id, id, fun _ => id⟩
  calm_trans := fun first second => ⟨second.1 ∘ first.1, second.2.1 ∘ first.2.1,
    fun n clear => second.2.2 n (first.2.2 n clear)⟩
  later_trans := fun _ _ => trivial
  calm_later := fun _ => trivial
  calm_taken := fun calm => calm.1

structure Quiet (w v : World Cli) : Prop where
  tidy : Tidy v
  calm : locked.calm w v

variable {w v u : World Cli}

theorem Tidy.refl (h : Tidy w) : Quiet w w := ⟨h, locked.calm_refl w⟩

theorem Quiet.trans (h : Quiet w v) (h' : Quiet v u) : Quiet w u :=
  ⟨h'.tidy, locked.calm_trans h.calm h'.calm⟩

/-- Every envelope is consumed or stands as an old one of its number stood, or it is new. -/
def Drawn (w : World Cli) (es : List Envelope) (next : Int) : Prop :=
  ∀ e ∈ es, (∃ f ∈ w.envelopes, e.seq = f.seq ∧
    (e.state = .consumed ∨ e.state = f.state ∧ e.delivery_epoch = f.delivery_epoch)) ∨
      (e.seq = w.next_seq ∧ w.next_seq < next)

theorem Tidy.redraw (h : Tidy w) (lock : v.pump_lock = w.pump_lock)
    (ready : v.reader_ready = w.reader_ready) (epoch : v.current_epoch = w.current_epoch)
    (outside : v.outside = w.outside) (written : v.written = w.written) (armed : v.armed = w.armed)
    (next : w.next_seq ≤ v.next_seq) (drawn : Drawn w v.envelopes v.next_seq) : Quiet w v where
  tidy :=
    { cli := by rw [outside, written]; exact h.cli
      current := by rw [outside, epoch]; exact h.current
      numbers := by
        intro e mem
        rcases drawn e mem with ⟨f, there, same, -⟩ | ⟨new, less⟩
        · have old := h.numbers f there
          omega
        · omega
      spent := by
        rw [written]
        intro x mem
        have old := h.spent x mem
        omega
      stamps := by rw [outside, written]; exact h.stamps
      armings := by rw [written]; exact h.armings
      armed := by rw [armed, written]; exact h.armed
      ready := by rw [ready, armed, written]; exact h.ready
      sheltered := by
        rw [outside, written]
        intro k x at_k exposed e mem same
        rw [outside]
        rcases drawn e mem with ⟨f, there, number, kept⟩ | ⟨new, -⟩
        · have old := h.sheltered k x at_k exposed f there (number.symm.trans same)
          rcases kept with taken | ⟨state, stamp⟩
          · simp [taken]
          · rw [state]
            exact ⟨old.1, fun delivered => by simpa [Due, stamp] using old.2 delivered⟩
        · have old := h.spent x (List.mem_of_getElem? at_k)
          omega
      once := by rw [outside, written]; exact h.once }
  calm := by
    refine ⟨fun held => lock.trans held, fun held => ready.trans held, fun n clear => ?_⟩
    refine ⟨Int.lt_of_lt_of_le clear.1 next, ?_⟩
    rw [outside, written]
    exact clear.2

theorem Drawn.of_subset {es : List Envelope} {next : Int} (sub : ∀ e ∈ es, e ∈ w.envelopes) :
    Drawn w es next :=
  fun e mem => .inl ⟨e, sub e mem, rfl, .inr ⟨rfl, rfl⟩⟩

theorem Drawn.map {f : Envelope → Envelope} {next : Int}
    (same : ∀ e, (f e).seq = e.seq ∧ (f e).state = e.state ∧
      (f e).delivery_epoch = e.delivery_epoch) : Drawn w (w.envelopes.map f) next := by
  intro e' mem
  obtain ⟨e, here, rfl⟩ := List.mem_map.mp mem
  exact .inl ⟨e, here, (same e).1, .inr (same e).2⟩

theorem Tidy.persist (h : Tidy w) (disk : Disk) : Quiet w (persist disk w).2 := by
  rcases persist_cases disk w with ⟨text, -, saved⟩ | failed | failed
  · rw [saved]
    exact h.redraw rfl rfl rfl rfl rfl rfl (Int.le_refl _) (.of_subset fun _ => id)
  · rw [failed]
    exact h.redraw rfl rfl rfl rfl rfl rfl (Int.le_refl _) (.of_subset fun _ => id)
  · rw [failed]
    exact h.refl

theorem Tidy.persistQuiet (h : Tidy w) (disk : Disk) : Quiet w (persistQuiet disk w).2 := by
  have saved := h.persist disk
  simp only [InboundSpool.persistQuiet]
  split
  case h_1 v same =>
    rw [same] at saved
    exact saved.trans
      (saved.tidy.redraw rfl rfl rfl rfl rfl rfl (Int.le_refl _) (.of_subset fun _ => id))
  case h_2 => exact saved

theorem Quiet.persistQuiet (h : Quiet w v) (disk : Disk) : Quiet w (persistQuiet disk v).2 :=
  h.trans (h.tidy.persistQuiet disk)

/-! ### Blocks that the processes do not see -/

theorem Drawn.append {env : Envelope} (number : env.seq = w.next_seq) :
    Drawn w (w.envelopes ++ [env]) (w.next_seq + 1) := by
  intro e mem
  rcases List.mem_append.mp mem with old | new
  · exact .inl ⟨e, old, rfl, .inr ⟨rfl, rfl⟩⟩
  · obtain rfl := List.mem_singleton.mp new
    exact .inr ⟨number, by omega⟩

theorem Tidy.append (h : Tidy w) {env : Envelope} (number : env.seq = w.next_seq) :
    Quiet w (w.append env) :=
  h.redraw rfl rfl rfl rfl rfl rfl (by simp only [World.append]; omega) (.append number)

theorem Tidy.modify (h : Tidy w) (seq : Int) {f : Envelope → Envelope}
    (same : ∀ e, (f e).seq = e.seq ∧ (f e).state = e.state ∧
      (f e).delivery_epoch = e.delivery_epoch) : Quiet w (w.modify seq f) := by
  refine h.redraw rfl rfl rfl rfl rfl rfl (Int.le_refl _) (.map fun e => ?_)
  split
  · exact same e
  · exact ⟨rfl, rfl, rfl⟩

theorem Tidy.mark (h : Tidy w) (seq : Int) (f : Entry → Entry) : Quiet w (w.mark seq f) :=
  h.redraw rfl rfl rfl rfl rfl rfl (Int.le_refl _) (.of_subset fun _ => id)

theorem Tidy.evict (h : Tidy w) (victim : Option Envelope) : Quiet w (w.evict victim) := by
  cases victim with
  | none => exact h.refl
  | some v => exact h.modify v.seq fun _ => ⟨rfl, rfl, rfl⟩

theorem Tidy.noteEviction (h : Tidy w) (victim : Option Envelope) :
    Quiet w (w.noteEviction victim) := by
  cases victim with
  | none => exact h.refl
  | some v =>
    rw [World.noteEviction]
    split
    · exact h.mark v.seq _
    · exact h.refl

theorem unevict_mem {tg : Option Int} {es : List Envelope} {e' : Envelope}
    (mem : e' ∈ unevict tg es) : ∃ e ∈ es, e' = e ∨ e' = { e with notice := .none } := by
  obtain ⟨n, inside, rfl⟩ := List.getElem_of_mem mem
  have undone := unevict_notices tg es
  have long : n < es.length := undone.length_eq ▸ inside
  exact ⟨es[n], List.getElem_mem long, undone.get long inside⟩

theorem Tidy.rollback (h : Tidy w) (victim : Option Envelope) : Quiet w (w.rollback victim) := by
  refine h.redraw rfl rfl rfl rfl rfl rfl (Int.le_refl _) ?_
  cases victim with
  | none => exact .of_subset fun e mem => List.dropLast_subset _ mem
  | some v =>
    intro e' mem
    obtain ⟨e, old, same⟩ := unevict_mem mem
    refine .inl ⟨e, List.dropLast_subset _ old, ?_⟩
    rcases same with rfl | rfl <;> exact ⟨rfl, .inr ⟨rfl, rfl⟩⟩

theorem Tidy.accept (h : Tidy w) (text : Text) (tg : Option Int) (is_initial redirect : Bool)
    (i : Input) : Quiet w (accept text tg is_initial redirect i w).2 := by
  simp only [InboundSpool.accept]
  generalize w.victim redirect = victim
  generalize made : w.envelope text tg is_initial redirect i.time = env
  have evicted := h.evict victim
  have number : env.seq = (w.evict victim).next_seq := by
    subst made
    cases victim <;> rfl
  have appended := evicted.trans (evicted.tidy.append number)
  have written := appended.trans (appended.tidy.persist i.disk)
  split
  case h_1 v same =>
    rw [same] at written
    have counted : Quiet v (v.accepted { seq := env.seq, text := text, priority := redirect }) :=
      written.tidy.redraw rfl rfl rfl rfl rfl rfl (Int.le_refl _) (.of_subset fun _ => id)
    exact (written.trans counted).trans (counted.tidy.noteEviction victim)
  case h_2 v same =>
    rw [same] at written
    have rolled := written.trans (written.tidy.rollback victim)
    exact rolled.trans (rolled.tidy.noteEviction victim)
  case h_3 v _ same =>
    rw [same] at written
    exact written.trans (written.tidy.noteEviction victim)

theorem Tidy.offer (h : Tidy w) (text : Text) (tg : Option Int) (is_initial : Bool) (i : Input) :
    Quiet w (offer text tg is_initial i w).2 := by
  rw [InboundSpool.offer]
  split
  case h_1 copy _ => exact (h.append rfl).persistQuiet i.disk
  case h_2 => exact h.accept text tg is_initial _ i

theorem Tidy.promote (h : Tidy w) (seq : Int) (i : Input) : Quiet w (promote seq i w).2 := by
  rw [InboundSpool.promote]
  split
  case h_1 => exact h.refl
  case h_2 mid _ =>
    have noted := h.modify seq (f := ({ · with answer_anchor_mid := some mid }))
      fun _ => ⟨rfl, rfl, rfl⟩
    exact noted.persistQuiet i.disk

theorem Tidy.sentNotice (h : Tidy w) (seq : Int) (i : Input) : Quiet w (sentNotice seq i w).2 := by
  rw [InboundSpool.sentNotice]
  cases i.ok with
  | false => exact h.refl
  | true =>
    have flipped := h.modify seq (f := fun e => { e with
      notice := .sent
      receipt := if e.receipt = .pending then .notRequired else e.receipt })
      fun _ => ⟨rfl, rfl, rfl⟩
    exact flipped.trans (flipped.tidy.mark seq _)

theorem Tidy.sentReceipt (h : Tidy w) (seq : Int) (i : Input) :
    Quiet w (sentReceipt seq i w).2 := by
  rw [InboundSpool.sentReceipt]
  cases i.ok with
  | false => exact h.refl
  | true => exact h.modify seq fun _ => ⟨rfl, rfl, rfl⟩

theorem Tidy.prune (h : Tidy w) : Quiet w w.prune :=
  h.redraw rfl rfl rfl rfl rfl rfl (Int.le_refl _) (.of_subset fun _ => List.mem_of_mem_filter)

theorem Tidy.endFlush (h : Tidy w) (changed : Bool) (i : Input) :
    Quiet w (endFlush changed i w).2 := by
  cases changed with
  | true => exact h.prune.persistQuiet i.disk
  | false =>
    simp only [InboundSpool.endFlush, Bool.false_eq_true, if_false, Bool.false_or]
    split
    case isTrue => exact h.persistQuiet i.disk
    case isFalse => exact h.refl

/-! ### Frames -/

def Idle (w : World Cli) (es : List Envelope) : Prop :=
  ∀ k x, w.written[k]? = some x → Exposed w.outside k x →
    ∀ e ∈ es, e.seq = x.seq → e.state ≠ .delivered

def World.pass (w : World Cli) (f : Frame) (es : List Envelope) (ledger : List Entry)
    (running : Bool) : World Cli :=
  { w with
    envelopes := es, ledger := ledger, turn_running := running
    current_epoch := pending (some f)
    outside := { w.outside with handled := w.outside.handled + 1 } }

theorem Tidy.pass (h : Tidy w) {f : Frame} (next : w.outside.next = some f)
    {es : List Envelope} (drawn : Drawn w es w.next_seq) (idle : Idle w es)
    (ledger : List Entry) (running : Bool) : Quiet w (w.pass f es ledger running) where
  tidy :=
    { cli := { h.cli with
        inside := by
          have less := (List.getElem?_eq_some_iff.mp next).1
          exact less }
      current := by
        simp only [World.pass, Cli.last, Nat.add_one_ne_zero, if_false, Nat.add_sub_cancel]
        exact congrArg pending next.symm
      numbers := by
        intro e mem
        rcases drawn e mem with ⟨g, there, same, -⟩ | ⟨-, less⟩
        · exact same ▸ h.numbers g there
        · omega
      spent := h.spent
      stamps := h.stamps
      armings := h.armings
      armed := h.armed
      ready := h.ready
      sheltered := by
        intro k x at_k exposed e mem same
        refine ⟨fun queued => ?_, fun delivered => absurd delivered (idle k x at_k exposed e mem same)⟩
        rcases drawn e mem with ⟨g, there, number, kept⟩ | ⟨-, less⟩
        · have old := h.sheltered k x at_k exposed g there (number.symm.trans same)
          rcases kept with taken | ⟨state, -⟩
          · simp [queued] at taken
          · exact old.1 (state.symm.trans queued)
        · omega
      once := h.once }
  calm := ⟨id, id, fun _ => id⟩

theorem Tidy.idle (h : Tidy w) {f : Frame} (next : w.outside.next = some f)
    (other : ∀ epoch, f ≠ .turn_start epoch) : Idle w w.envelopes := by
  intro k x at_k exposed e mem same delivered
  obtain ⟨epoch, -, -, -, due⟩ := (h.sheltered k x at_k exposed e mem same).2 delivered
  rcases due with starts | ⟨all, -⟩
  · exact other epoch (Option.some.inj (next.symm.trans starts))
  · have less := (List.getElem?_eq_some_iff.mp next).1
    omega

theorem Tidy.arm (h : Tidy w) (idle : Idle w w.envelopes) (i : Input) :
    Quiet w (arm i w).2 := by
  have reverted : Quiet w { w with
      reader_ready := true, armed := w.armed + 1
      envelopes := w.envelopes.map fun e =>
        if e.state = .delivered then { e with state := .queued, delivery_epoch := none } else e } :=
    { tidy := { h with
        numbers := by
          simp only [List.forall_mem_map]
          intro e mem
          have old := h.numbers e mem
          split <;> exact old
        armed := fun x mem => Nat.le_succ_of_le (h.armed x mem)
        ready := fun _ x mem => Nat.lt_succ_of_le (h.armed x mem)
        sheltered := by
          intro k x at_k exposed
          simp only [Sheltered, List.forall_mem_map]
          intro e mem same
          have number : e.seq = x.seq := by
            split at same <;> exact same
          have rests := idle k x at_k exposed e mem number
          rw [if_neg rests]
          exact h.sheltered k x at_k exposed e mem number }
      calm := ⟨id, fun _ => rfl, fun _ => id⟩ }
  simp only [InboundSpool.arm, revert]
  split
  case isTrue => exact reverted.persistQuiet i.disk
  case isFalse => exact reverted

theorem Cli.Sound.starts {c : Cli} {writes : ℕ} (h : c.Sound writes) {epoch : Int}
    (next : c.next = some (.turn_start epoch)) : c.last = some (.spawn epoch) := by
  obtain ⟨j, at_j, spawned⟩ := h.turned c.handled epoch next
  simpa [Cli.last, at_j] using spawned

def settled (w : World Cli) (e : Envelope) : Envelope :=
  if e.isDue w.current_epoch then { e with state := .consumed } else e

theorem drawn_settled (next : Int) : Drawn w (w.envelopes.map (settled w)) next := by
  intro e' mem
  obtain ⟨e, here, rfl⟩ := List.mem_map.mp mem
  refine .inl ⟨e, here, ?_⟩
  rw [settled]
  split
  · exact ⟨rfl, .inl rfl⟩
  · exact ⟨rfl, .inr ⟨rfl, rfl⟩⟩

theorem Tidy.due (h : Tidy w) {x : Write} {e : Envelope} (delivered : e.state = .delivered)
    (due : Due w.outside x e) : e.isDue w.current_epoch = true := by
  obtain ⟨epoch, -, stamp, last, -⟩ := due
  simp [Envelope.isDue, delivered, stamp, h.current, last, pending]

theorem Tidy.idle_settled (h : Tidy w) : Idle w (w.envelopes.map (settled w)) := by
  intro k x at_k exposed e' mem same delivered
  obtain ⟨e, here, rfl⟩ := List.mem_map.mp mem
  rw [settled] at same delivered
  split at delivered
  case isTrue => simp at delivered
  case isFalse undue =>
    rw [if_neg undue] at same
    exact undue (h.due delivered ((h.sheltered k x at_k exposed e here same).2 delivered))

theorem Idle.filter {es : List Envelope} (h : Idle w es) (p : Envelope → Bool) :
    Idle w (es.filter p) :=
  fun k x at_k exposed e mem => h k x at_k exposed e (List.mem_of_mem_filter mem)

theorem Drawn.filter {es : List Envelope} {next : Int} (h : Drawn w es next)
    (p : Envelope → Bool) : Drawn w (es.filter p) next :=
  fun e mem => h e (List.mem_of_mem_filter mem)

theorem settled_undue (none_ : ¬ (w.envelopes.any (·.isDue w.current_epoch)) = true) :
    w.envelopes.map (settled w) = w.envelopes := by
  rw [List.map_congr_left (g := id) ?_, List.map_id]
  intro e here
  have undue : ¬ e.isDue w.current_epoch = true := fun due =>
    none_ (List.any_eq_true.mpr ⟨e, here, due⟩)
  rw [settled, if_neg undue, id]

theorem Tidy.start (h : Tidy w) {epoch : Int} (next : w.outside.next = some (.turn_start epoch))
    (i : Input) : Quiet w (consume i { w with
      turn_running := true
      outside := { w.outside with handled := w.outside.handled + 1 } }).2 := by
  have current : w.current_epoch = some epoch := by
    rw [h.current, h.cli.starts next]
    rfl
  have passes (es : List Envelope) (ledger : List Entry) :
      w.pass (.turn_start epoch) es ledger true = { w with
        envelopes := es, ledger := ledger, turn_running := true
        outside := { w.outside with handled := w.outside.handled + 1 } } := by
    simp [World.pass, pending, current]
  simp only [InboundSpool.consume]
  split
  case isTrue =>
    refine Quiet.persistQuiet ?_ i.disk
    exact passes _ _ ▸ h.pass next ((drawn_settled w.next_seq).filter Envelope.shouldRetain)
      (h.idle_settled.filter Envelope.shouldRetain) _ true
  case isFalse nothing =>
    have same := settled_undue nothing
    exact passes _ _ ▸ h.pass next (same ▸ drawn_settled w.next_seq) (same ▸ h.idle_settled) _ true

theorem Tidy.restart_turn (h : Tidy w) (i : Input) :
    Quiet w (consume i { w with turn_running := true }).2 := by
  simp only [InboundSpool.consume]
  split
  case isTrue =>
    refine Quiet.persistQuiet ?_ i.disk
    exact h.redraw rfl rfl rfl rfl rfl rfl (Int.le_refl _)
      ((drawn_settled w.next_seq).filter Envelope.shouldRetain)
  case isFalse => exact h.redraw rfl rfl rfl rfl rfl rfl (Int.le_refl _) (.of_subset fun _ => id)

theorem Tidy.hand (h : Tidy w) (replay : Bool) (i : Input) : Quiet w (hand replay i w).2 := by
  rw [InboundSpool.hand]
  split
  case h_1 => exact h.refl
  case h_2 f found =>
    cases replay with
    | true =>
      have current := h.current
      rw [show w.outside.last = some f from found] at current
      cases f with
      | spawn epoch =>
        have same : w.current_epoch = some epoch := current
        simp only [handle, if_true]
        rw [if_pos same]
        exact h.refl
      | turn_start epoch => exact h.restart_turn i
      | result epoch =>
        exact h.redraw rfl rfl current.symm rfl rfl rfl (Int.le_refl _) (.of_subset fun _ => id)
    | false =>
      have next : w.outside.next = some f := found
      cases f with
      | turn_start epoch => exact h.start next i
      | result epoch =>
        exact h.pass next (.of_subset fun _ => id) (h.idle next (by simp)) w.ledger false
      | spawn epoch =>
        have idle := h.idle next (by simp)
        simp only [handle, Bool.false_eq_true, if_false]
        split
        case isTrue same =>
          have passed := h.pass next (.of_subset fun _ => id) idle w.ledger w.turn_running
          simpa [World.pass, pending, ← same] using passed
        case isFalse =>
          have passed := h.pass next (.of_subset fun _ => id) idle w.ledger false
          exact passed.trans (passed.tidy.arm idle i)

/-! ### The write -/

theorem concat_cases {α : Type} {xs : List α} {a x : α} {k : ℕ}
    (at_k : (xs ++ [a])[k]? = some x) : xs[k]? = some x ∨ k = xs.length ∧ x = a := by
  rcases Nat.lt_trichotomy k xs.length with less | rfl | more
  · rw [List.getElem?_append_left less] at at_k
    exact .inl at_k
  · exact .inr ⟨rfl, by simpa using at_k.symm⟩
  · rw [List.getElem?_eq_none (by simp only [List.length_append, List.length_singleton]; omega)]
      at at_k
    simp at at_k

theorem Tidy.fresh_due (h : Tidy w) {epoch : Int} {phase : Phase}
    (process : w.outside.process = some (epoch, phase)) (waits : phase ≠ .begun)
    (current : w.current_epoch = some epoch) :
    w.outside.last = some (.spawn epoch) ∧ w.outside.handled = w.outside.trace.length := by
  obtain ⟨spawned, -, unturned⟩ := h.cli.waiting epoch phase process waits
  have seen : pending w.outside.last = some epoch := h.current.symm.trans current
  have last : w.outside.last = some (.spawn epoch) := by
    cases last : w.outside.last with
    | none => simp [last, pending] at seen
    | some f =>
      have inside : f ∈ w.outside.trace := by
        rw [Cli.last] at last
        split at last
        case isTrue => simp at last
        case isFalse => exact List.mem_of_getElem? last
      cases f with
      | spawn epoch' => simpa [last, pending] using seen
      | turn_start epoch' =>
        obtain rfl : epoch' = epoch := by simpa [last, pending] using seen
        exact absurd inside unturned
      | result epoch' => simp [last, pending] at seen
  refine ⟨last, ?_⟩
  have handled : w.outside.handled ≠ 0 := by
    intro zero
    simp [Cli.last, zero] at last
  rw [Cli.last, if_neg handled] at last
  have same := h.cli.distinct _ _ epoch last spawned
  have inside := h.cli.inside
  omega

theorem Tidy.deliver (h : Tidy w) {e : Envelope} (clear : Clear e.seq w)
    (ready : w.reader_ready = true) : Tidy (w.delivered e) where
  cli :=
    { h.cli with
      read := fun epoch k reads => by
        have less := h.cli.read epoch k reads
        simp only [World.delivered, List.length_append, List.length_singleton]
        omega
      began := fun epoch k turn => by
        have old := h.cli.began epoch k turn
        refine ⟨?_, old.2⟩
        simp only [World.delivered, List.length_append, List.length_singleton]
        omega }
  current := h.current
  numbers := by
    simp only [World.delivered, List.forall_mem_map]
    intro f mem
    have old := h.numbers f mem
    split <;> exact old
  spent := by
    simp only [World.delivered, List.forall_mem_append, List.forall_mem_singleton]
    exact ⟨h.spent, clear.1⟩
  stamps := by
    simp only [World.delivered, List.forall_mem_append, List.forall_mem_singleton]
    refine ⟨h.stamps, fun epoch same => ?_⟩
    have seen : pending w.outside.last = some epoch := h.current.symm.trans same
    cases last : w.outside.last with
    | none => simp [last, pending] at seen
    | some f =>
      have inside : f ∈ w.outside.trace := by
        rw [Cli.last] at last
        split at last
        case isTrue => simp at last
        case isFalse => exact List.mem_of_getElem? last
      refine h.cli.known f inside epoch ?_
      cases f <;> simp_all [pending]
  armings := List.pairwise_append.mpr ⟨h.armings, List.pairwise_singleton _ _, by
    simpa using h.ready ready⟩
  armed := by
    simp only [World.delivered, List.forall_mem_append, List.forall_mem_singleton]
    exact ⟨h.armed, Nat.le_refl _⟩
  ready := by simp [World.delivered]
  sheltered := by
    intro k x at_k exposed
    simp only [Sheltered, World.delivered, List.forall_mem_map]
    intro f mem same
    have number : f.seq = x.seq := by
      split at same <;> exact same
    rcases concat_cases at_k with old | ⟨rfl, rfl⟩
    · have other : ¬ f.seq = e.seq := fun own => clear.2 k x old exposed (number.symm.trans own)
      rw [if_neg other]
      exact h.sheltered k x old exposed f mem number
    · -- the new write: its process has not begun, so the next frame is the start of its turn
      rw [if_pos number]
      refine ⟨by simp, fun _ => ?_⟩
      obtain ⟨epoch, current, turn | waits | waits⟩ := exposed
      · exact absurd (h.cli.began epoch _ turn).1 (Nat.lt_irrefl _)
      · obtain ⟨last, all⟩ := h.fresh_due waits (by simp) current
        exact ⟨epoch, current, current, last, .inr ⟨all, _, waits, by simp⟩⟩
      · exact absurd (h.cli.read epoch _ waits) (Nat.lt_irrefl _)
  once := by
    intro k x at_k exposed j y later at_j
    rcases concat_cases at_k with old | ⟨rfl, rfl⟩
    · rcases concat_cases at_j with before | ⟨rfl, rfl⟩
      · exact h.once k x old exposed j y later before
      · exact (clear.2 k x old exposed).symm
    · rcases concat_cases at_j with before | ⟨rfl, rfl⟩
      · have less := (List.getElem?_eq_some_iff.mp before).1
        omega
      · omega

/-! ### Processes -/

section
variable {c : Cli} {writes : ℕ} (h : c.Sound writes) {f : Frame}
include h

theorem Cli.Sound.emit_inside : c.handled ≤ (c.trace ++ [f]).length := by
  have inside := h.inside
  simp only [List.length_append, List.length_singleton]
  omega

theorem Cli.Sound.emit_known {epochs : List Int} (grow : ∀ epoch ∈ c.epochs, epoch ∈ epochs)
    (own : ∀ epoch, f = .spawn epoch ∨ f = .turn_start epoch → epoch ∈ epochs) :
    ∀ g ∈ c.trace ++ [f], ∀ epoch, g = .spawn epoch ∨ g = .turn_start epoch → epoch ∈ epochs := by
  intro g mem epoch named
  rcases List.mem_append.mp mem with old | new
  · exact grow epoch (h.known g old epoch named)
  · obtain rfl := List.mem_singleton.mp new
    exact own epoch named

theorem Cli.Sound.emit_distinct (fresh : ∀ epoch, f = .spawn epoch → f ∉ c.trace) (i j : ℕ)
    (epoch : Int) (at_i : (c.trace ++ [f])[i]? = some (.spawn epoch))
    (at_j : (c.trace ++ [f])[j]? = some (.spawn epoch)) : i = j := by
  rcases concat_cases at_i with old | ⟨rfl, same⟩
  · rcases concat_cases at_j with old' | ⟨rfl, same'⟩
    · exact h.distinct i j epoch old old'
    · exact absurd (List.mem_of_getElem? (same' ▸ old)) (fresh epoch same'.symm)
  · rcases concat_cases at_j with old' | ⟨rfl, same'⟩
    · exact absurd (List.mem_of_getElem? (same ▸ old')) (fresh epoch same.symm)
    · rfl

theorem Cli.Sound.emit_turned
    (spawned : ∀ epoch, f = .turn_start epoch →
      c.trace[c.trace.length - 1]? = some (.spawn epoch) ∧ 0 < c.trace.length)
    (i : ℕ) (epoch : Int) (at_i : (c.trace ++ [f])[i]? = some (.turn_start epoch)) :
    ∃ j, i = j + 1 ∧ (c.trace ++ [f])[j]? = some (.spawn epoch) := by
  rcases concat_cases at_i with old | ⟨rfl, same⟩
  · obtain ⟨j, rfl, at_j⟩ := h.turned i epoch old
    refine ⟨j, rfl, ?_⟩
    exact (List.getElem?_append_left (List.getElem?_eq_some_iff.mp at_j).1).trans at_j
  · obtain ⟨last, some_⟩ := spawned epoch same.symm
    refine ⟨c.trace.length - 1, by omega, ?_⟩
    exact (List.getElem?_append_left (by omega)).trans last

theorem Cli.Sound.spawn {epoch : Int} (unused : epoch ∉ c.epochs) :
    (c.act writes (.spawn epoch)).Sound writes := by
  rw [Cli.act, if_neg unused]
  have absent : Frame.turn_start epoch ∉ c.trace :=
    fun mem => unused (h.known _ mem epoch (.inr rfl))
  refine
    { inside := h.emit_inside
      distinct := h.emit_distinct fun _ _ mem => unused (h.known _ mem epoch (.inl rfl))
      turned := h.emit_turned nofun
      known := h.emit_known (fun _ => List.mem_cons_of_mem _) (by simp)
      waiting := ?_
      process := ?_
      read := by simp [Cli.emit]
      began := fun epoch' k turn => ?_ }
  · rintro epoch' phase ⟨⟩ _
    refine ⟨by simp [Cli.emit], by simp [Cli.emit], ?_⟩
    simpa [Cli.emit] using absent
  · rintro epoch' phase ⟨⟩
    exact List.mem_cons_self
  · have old := h.began epoch' k turn
    exact ⟨old.1, List.mem_append_left _ old.2⟩

theorem Cli.Sound.begin {epoch : Int} {k : ℕ} (reads : c.process = some (epoch, .read k)) :
    (c.act writes .begin).Sound writes := by
  obtain ⟨spawned, some_, -⟩ := h.waiting epoch _ reads (by simp)
  simp only [Cli.act, reads]
  refine
    { inside := h.emit_inside
      distinct := h.emit_distinct nofun
      turned := h.emit_turned ?_
      known := h.emit_known (fun _ => id) (by simpa [Cli.emit] using h.process epoch _ reads)
      waiting := by simp [Cli.emit]
      process := ?_
      read := by simp [Cli.emit]
      began := fun epoch' k' turn => ?_ }
  · rintro epoch' ⟨⟩
    exact ⟨spawned, some_⟩
  · rintro epoch' phase ⟨⟩
    exact h.process epoch _ reads
  · rcases List.mem_cons.mp turn with new | old
    · obtain ⟨rfl, rfl⟩ := Prod.mk.inj new
      exact ⟨h.read _ _ reads, List.mem_append_right _ (List.mem_singleton_self _)⟩
    · have old := h.began epoch' k' old
      exact ⟨old.1, List.mem_append_left _ old.2⟩

theorem Cli.Sound.finish {epoch : Int} (begun : c.process = some (epoch, .begun)) :
    (c.act writes .finish).Sound writes := by
  simp only [Cli.act, begun]
  refine
    { inside := h.emit_inside
      distinct := h.emit_distinct nofun
      turned := h.emit_turned nofun
      known := h.emit_known (fun _ => id) (by simp)
      waiting := by simp [Cli.emit]
      process := by simp [Cli.emit]
      read := by simp [Cli.emit]
      began := fun epoch' k' turn => ?_ }
  have old := h.began epoch' k' turn
  exact ⟨old.1, List.mem_append_left _ old.2⟩

end

theorem act_cases (writes : ℕ) (a : Act) (c : Cli) :
    c.act writes a = c ∨
    (∃ epoch, a = .spawn epoch ∧ epoch ∉ c.epochs) ∨
    (∃ epoch k, a = .read k ∧ c.process = some (epoch, .fresh) ∧ k < writes) ∨
    (∃ epoch k, a = .begin ∧ c.process = some (epoch, .read k)) ∨
    (∃ epoch, a = .finish ∧ c.process = some (epoch, .begun)) := by
  cases a with
  | spawn epoch =>
    by_cases used : epoch ∈ c.epochs
    · exact .inl (if_pos used)
    · exact .inr (.inl ⟨epoch, rfl, used⟩)
  | read k =>
    by_cases fits : k < writes
    · cases process : c.process with
      | none => exact .inl (by simp [Cli.act, process])
      | some p =>
        obtain ⟨epoch, phase⟩ := p
        cases phase with
        | fresh => exact .inr (.inr (.inl ⟨epoch, k, rfl, rfl, fits⟩))
        | read j => exact .inl (by simp [Cli.act, process])
        | begun => exact .inl (by simp [Cli.act, process])
    · refine .inl ?_
      simp only [Cli.act, if_neg fits]
      split <;> rfl
  | begin =>
    cases process : c.process with
    | none => exact .inl (by simp [Cli.act, process])
    | some p =>
      obtain ⟨epoch, phase⟩ := p
      cases phase with
      | fresh => exact .inl (by simp [Cli.act, process])
      | read k => exact .inr (.inr (.inr (.inl ⟨epoch, k, rfl, rfl⟩)))
      | begun => exact .inl (by simp [Cli.act, process])
  | finish =>
    cases process : c.process with
    | none => exact .inl (by simp [Cli.act, process])
    | some p =>
      obtain ⟨epoch, phase⟩ := p
      cases phase with
      | fresh => exact .inl (by simp [Cli.act, process])
      | read k => exact .inl (by simp [Cli.act, process])
      | begun => exact .inr (.inr (.inr (.inr ⟨epoch, rfl, rfl⟩)))

theorem Cli.Sound.act {c : Cli} {writes : ℕ} (h : c.Sound writes) (a : Act) :
    (c.act writes a).Sound writes := by
  rcases act_cases writes a c with same | ⟨epoch, rfl, unused⟩ |
    ⟨epoch, k, rfl, fresh, fits⟩ | ⟨epoch, k, rfl, reads⟩ | ⟨epoch, rfl, begun⟩
  · exact same.symm ▸ h
  · exact h.spawn unused
  · simp only [Cli.act, fresh, if_pos fits]
    refine { h with waiting := ?_, process := ?_, read := ?_ }
    · rintro epoch' phase ⟨⟩ -
      exact h.waiting epoch _ fresh (by simp)
    · rintro epoch' phase ⟨⟩
      exact h.process epoch _ fresh
    · rintro epoch' k' ⟨⟩
      exact fits
  · exact h.begin reads
  · exact h.finish begun

theorem act_trace (writes : ℕ) (a : Act) (c : Cli) :
    (c.act writes a).handled = c.handled ∧ ∃ fs, (c.act writes a).trace = c.trace ++ fs := by
  rcases act_cases writes a c with same | ⟨epoch, rfl, unused⟩ |
    ⟨epoch, k, rfl, fresh, fits⟩ | ⟨epoch, k, rfl, reads⟩ | ⟨epoch, rfl, begun⟩
  · exact same.symm ▸ ⟨rfl, [], by simp⟩
  · simp only [Cli.act, if_neg unused]
    exact ⟨rfl, _, rfl⟩
  · simp only [Cli.act, fresh, if_pos fits]
    exact ⟨trivial, [], by simp⟩
  · simp only [Cli.act, reads]
    exact ⟨rfl, _, rfl⟩
  · simp only [Cli.act, begun]
    exact ⟨rfl, _, rfl⟩

theorem Cli.Sound.last_act {c : Cli} {writes : ℕ} (h : c.Sound writes) (a : Act) :
    (c.act writes a).last = c.last := by
  obtain ⟨handled, fs, trace⟩ := act_trace writes a c
  have inside := h.inside
  rw [Cli.last, Cli.last, handled, trace]
  by_cases zero : c.handled = 0
  · rw [if_pos zero, if_pos zero]
  · rw [if_neg zero, if_neg zero, List.getElem?_append_left (by omega)]

theorem next_act {c : Cli} {writes : ℕ} {f : Frame} (next : c.next = some f) (a : Act) :
    (c.act writes a).next = some f := by
  obtain ⟨handled, fs, trace⟩ := act_trace writes a c
  rw [Cli.next] at next
  rw [Cli.next, handled, trace, List.getElem?_append_left (List.getElem?_eq_some_iff.mp next).1,
    next]

theorem Exposed.back {c : Cli} {writes k : ℕ} {x : Write} {a : Act}
    (stamps : ∀ epoch, x.epoch = some epoch → epoch ∈ c.epochs)
    (h : Exposed (c.act writes a) k x) : Exposed c k x := by
  obtain ⟨stamp, same, turn⟩ := h
  rcases act_cases writes a c with idle | ⟨epoch, rfl, unused⟩ |
    ⟨epoch, j, rfl, fresh, fits⟩ | ⟨epoch, j, rfl, reads⟩ | ⟨epoch, rfl, begun⟩
  · exact ⟨stamp, same, idle ▸ turn⟩
  · simp only [Cli.act, if_neg unused, Cli.emit] at turn
    rcases turn with old | new | new
    · exact ⟨stamp, same, .inl old⟩
    · obtain ⟨rfl, -⟩ : epoch = stamp ∧ True := by simpa using new
      exact absurd (stamps epoch same) unused
    · simp at new
  · simp only [Cli.act, fresh, if_pos fits] at turn
    rcases turn with old | new | new
    · exact ⟨stamp, same, .inl old⟩
    · simp at new
    · obtain ⟨rfl, -⟩ : epoch = stamp ∧ j = k := by simpa using new
      exact ⟨epoch, same, .inr (.inl fresh)⟩
  · simp only [Cli.act, reads, Cli.emit] at turn
    rcases turn with began | new | new
    · rcases List.mem_cons.mp began with new | old
      · obtain ⟨rfl, rfl⟩ := Prod.mk.inj new
        exact ⟨_, same, .inr (.inr reads)⟩
      · exact ⟨stamp, same, .inl old⟩
    · simp at new
    · simp at new
  · simp only [Cli.act, begun, Cli.emit] at turn
    rcases turn with old | new | new
    · exact ⟨stamp, same, .inl old⟩
    · simp at new
    · simp at new

theorem Due.act {c : Cli} {writes k : ℕ} {x : Write} {e : Envelope} (sound : c.Sound writes)
    (stamps : ∀ epoch, x.epoch = some epoch → epoch ∈ c.epochs) {a : Act}
    (exposed : Exposed (c.act writes a) k x) (h : Due c x e) : Due (c.act writes a) x e := by
  obtain ⟨epoch, same, stamp, last, due⟩ := h
  refine ⟨epoch, same, stamp, (sound.last_act a).trans last, ?_⟩
  rcases due with next | ⟨all, phase, process, waits⟩
  · exact .inl (next_act next a)
  · rcases act_cases writes a c with idle | ⟨epoch', rfl, unused⟩ |
      ⟨epoch', j, rfl, fresh, fits⟩ | ⟨epoch', j, rfl, reads⟩ | ⟨epoch', rfl, begun⟩
    · exact idle.symm ▸ .inr ⟨all, phase, process, waits⟩
    · -- the process of the write died before its turn began
      obtain ⟨_, -, unturned⟩ := sound.waiting epoch phase process waits
      obtain ⟨stamp', same', turn⟩ := exposed
      obtain rfl := Option.some.inj (same.symm.trans same')
      simp only [Cli.act, if_neg unused, Cli.emit] at turn
      rcases turn with old | new | new
      · exact absurd (sound.began epoch k old).2 unturned
      · obtain ⟨rfl, -⟩ : epoch' = epoch ∧ True := by simpa using new
        exact absurd (stamps _ same) unused
      · simp at new
    · obtain ⟨rfl, rfl⟩ := Prod.mk.inj (Option.some.inj (process.symm.trans fresh))
      simp only [Cli.act, fresh, if_pos fits]
      exact .inr ⟨all, .read j, rfl, by simp⟩
    · obtain ⟨rfl, rfl⟩ := Prod.mk.inj (Option.some.inj (process.symm.trans reads))
      simp only [Cli.act, reads]
      exact .inl (by simp [Cli.next, Cli.emit, all])
    · obtain ⟨rfl, rfl⟩ := Prod.mk.inj (Option.some.inj (process.symm.trans begun))
      exact absurd rfl waits

theorem epochs_act {writes : ℕ} (a : Act) (c : Cli) :
    ∀ epoch ∈ c.epochs, epoch ∈ (c.act writes a).epochs := by
  intro epoch mem
  rcases act_cases writes a c with same | ⟨epoch', rfl, unused⟩ |
    ⟨epoch', k, rfl, fresh, fits⟩ | ⟨epoch', k, rfl, reads⟩ | ⟨epoch', rfl, begun⟩
  · exact same.symm ▸ mem
  · simp only [Cli.act, if_neg unused]
    exact List.mem_cons_of_mem _ mem
  · simpa only [Cli.act, fresh, if_pos fits] using mem
  · simpa only [Cli.act, reads, Cli.emit] using mem
  · simpa only [Cli.act, begun, Cli.emit] using mem

theorem Tidy.act (h : Tidy w) (a : Act) :
    Quiet w { w with outside := w.outside.act w.written.length a } := by
  have back {k : ℕ} {x : Write} (at_k : w.written[k]? = some x) :
      Exposed (w.outside.act w.written.length a) k x → Exposed w.outside k x :=
    Exposed.back (h.stamps x (List.mem_of_getElem? at_k))
  exact
    { tidy := { h with
        cli := h.cli.act a
        current := h.current.trans (congrArg pending (h.cli.last_act a).symm)
        stamps := fun x mem epoch same => epochs_act a w.outside epoch (h.stamps x mem epoch same)
        sheltered := by
          intro k x at_k exposed e mem same
          have old := h.sheltered k x at_k (back at_k exposed) e mem same
          refine ⟨old.1, fun delivered => (old.2 delivered).act h.cli ?_ exposed⟩
          exact h.stamps x (List.mem_of_getElem? at_k)
        once := fun k x at_k exposed => h.once k x at_k (back at_k exposed) }
      calm := ⟨id, id, fun n clear => ⟨clear.1, fun k x at_k exposed =>
        clear.2 k x at_k (back at_k exposed)⟩⟩ }

/-! ### Tasks -/

theorem quiet_block {α : Type} {f : Block Cli α} (quiet : ∀ i v, Tidy v → Quiet v (f i v).2) :
    Keeps locked false (Co.block f) w fun _ holds _ => holds = false :=
  keeps_block fun v _ tidy _ i =>
    ⟨(quiet i v tidy).tidy, (quiet i v tidy).calm, fun _ _ _ => rfl⟩

theorem quiet_done {α : Type} {r : Except Raised α} :
    Keeps locked false (.done r : Task Cli α) w fun _ holds _ => holds = false :=
  fun _ _ _ _ => rfl

theorem quiet_bind {α β : Type} {p : Task Cli α} {k : α → Task Cli β}
    {Q : Except Raised β → Bool → World Cli → Prop}
    (h : Keeps locked false p w fun _ holds _ => holds = false) (tidy : Tidy w)
    (next : ∀ a v, Tidy v → Keeps locked false (k a) v Q)
    (failed : ∀ e v, Q (.error e) false v) :
    Keeps locked false (p >>= k) w Q := by
  refine h.bind tidy (by simp) (fun a holds v tidyV _ free => ?_) fun e holds v _ free => ?_
  · subst free
    exact next a v tidyV
  · subst free
    exact failed e v

theorem quiet_await : Keeps locked false await_ w fun _ holds _ => holds = false :=
  quiet_block fun _ _ tidy => tidy.refl

theorem quiet_flushFrom (fuel : ℕ) (after : Option Int) (changed : Bool) (tidy : Tidy w) :
    Keeps locked false (flushFrom fuel after changed) w fun _ holds _ => holds = false := by
  induction fuel generalizing after changed w with
  | zero => exact quiet_done
  | succ fuel ih =>
    refine quiet_bind (quiet_block fun _ _ tidy => tidy.refl) tidy (fun next v tidyV => ?_)
      fun _ _ => rfl
    cases next with
    | none => exact quiet_block fun i u tidyU => tidyU.endFlush changed i
    | some e =>
      refine quiet_bind (quiet_block fun i u tidyU => ?_) tidyV (fun ok u tidyU => ih _ _ tidyU)
        fun _ _ => rfl
      dsimp only
      split
      case isTrue => exact tidyU.sentNotice e.seq i
      case isFalse => exact tidyU.sentReceipt e.seq i

theorem quiet_flush (fuel : ℕ) (tidy : Tidy w) :
    Keeps locked false (flush fuel) w fun _ holds _ => holds = false :=
  quiet_flushFrom fuel none false tidy

theorem quiet_hooks (is_initial : Bool) (seq : Int) (tidy : Tidy w) :
    Keeps locked false (hooks is_initial seq) w fun _ holds _ => holds = false := by
  cases is_initial with
  | true => exact quiet_done
  | false =>
    refine quiet_bind quiet_await tidy (fun _ v tidyV => ?_) fun _ _ => rfl
    refine quiet_bind quiet_await tidyV (fun _ u tidyU => ?_) fun _ _ => rfl
    refine (quiet_block fun i t tidyT => tidyT.promote seq i).rescue tidyU (by simp)
      (fun _ _ _ _ free => free) (fun e q found holds t tidyT _ free => ?_)
      fun _ _ _ _ _ free => free
    subst free
    obtain ⟨-, same⟩ := Option.ite_none_right_eq_some.mp found
    obtain rfl := Option.some.inj same
    exact quiet_done

theorem nextDeliverable_lane {e : Envelope} (found : w.nextDeliverable = some e) :
    e ∈ w.envelopes ∧ e.state = .queued := by
  have lane : e ∈ w.laneMembers := by
    have picked := pick_mem found
    split at picked
    case isTrue => exact picked
    case isFalse => exact List.mem_of_mem_filter picked
  have queued := (List.mem_filter.mp lane).2
  simp only [Envelope.isLane, Bool.and_eq_true, decide_eq_true_eq] at queued
  exact ⟨List.mem_of_mem_filter lane, queued.1⟩

theorem Tidy.clear (h : Tidy w) {e : Envelope} (here : e ∈ w.envelopes)
    (queued : e.state = .queued) : Clear e.seq w :=
  ⟨h.numbers e here, fun k x at_k exposed same =>
    (h.sheltered k x at_k exposed e here same.symm).1 queued⟩

theorem holds_nextLine : Keeps locked true nextLine w fun r holds v =>
    holds = true ∧ ∀ e, r = .ok (some e) → Clear e.seq v ∧ v.reader_ready = true := by
  refine keeps_step fun v _ tidy token _ => ⟨tidy, ⟨token rfl, trivial⟩, fun u calm _ => ?_⟩
  refine ⟨rfl, fun e same => ?_⟩
  have found := Except.ok.inj same
  split at found
  case isFalse => simp at found
  case isTrue ready =>
    obtain ⟨here, queued⟩ := nextDeliverable_lane found
    exact ⟨calm.2.2 _ (tidy.clear here queued), calm.2.1 ready⟩

theorem holds_deliver {e : Envelope} (clear : Clear e.seq w) (ready : w.reader_ready = true) :
    Keeps locked true (Co.block (deliver e)) w fun _ holds _ => holds = true := by
  refine keeps_block fun v calm tidy token i => ?_
  rw [InboundSpool.deliver]
  cases i.ok with
  | false => exact ⟨tidy, ⟨token rfl, trivial⟩, fun _ _ _ => rfl⟩
  | true =>
    have written := tidy.deliver (calm.2.2 _ clear) (calm.2.1 ready)
    have stored := written.persistQuiet i.disk
    exact ⟨stored.tidy, ⟨stored.calm.1 (token rfl), trivial⟩, fun _ _ _ => rfl⟩

theorem holds_await : Keeps locked true await_ w fun _ holds _ => holds = true :=
  keeps_block fun _ _ tidy token _ => ⟨tidy, ⟨token rfl, trivial⟩, fun _ _ _ => rfl⟩

theorem holds_bind {α β : Type} {p : Task Cli α} {k : α → Task Cli β}
    (h : Keeps locked true p w fun _ holds _ => holds = true) (tidy : Tidy w)
    (lock : w.pump_lock = true)
    (next : ∀ a v, Tidy v → v.pump_lock = true →
      Keeps locked true (k a) v fun _ holds _ => holds = true) :
    Keeps locked true (p >>= k) w fun _ holds _ => holds = true := by
  refine h.bind tidy (fun _ => lock) (fun a holds v tidyV token held => ?_)
    fun _ _ _ _ held => held
  subst held
  exact next a v tidyV (token rfl)

theorem holds_pumpLoop (fuel : ℕ) (tidy : Tidy w) (lock : w.pump_lock = true) :
    Keeps locked true (pumpLoop fuel) w fun _ holds _ => holds = true := by
  induction fuel generalizing w with
  | zero => exact keeps_raise fun _ _ _ _ => rfl
  | succ fuel ih =>
    refine holds_nextLine.bind tidy (fun _ => lock) (fun next holds v tidyV token post => ?_)
      fun _ _ _ _ post => post.1
    obtain ⟨rfl, clear⟩ := post
    cases next with
    | none => exact keeps_pure fun _ _ _ _ => rfl
    | some e =>
      obtain ⟨clear, ready⟩ := clear e rfl
      refine holds_bind (holds_deliver clear ready) tidyV (token rfl) fun ok u tidyU lockU => ?_
      cases ok with
      | false => exact keeps_pure fun _ _ _ _ => rfl
      | true =>
        refine holds_bind holds_await tidyU lockU fun _ t tidyT lockT => ?_
        exact holds_bind holds_await tidyT lockT fun _ t' tidyT' lockT' => ih tidyT' lockT'

theorem holds_release : Keeps locked true release w fun _ holds _ => holds = false :=
  keeps_pass (fun _ _ => false) fun _ _ tidy _ _ =>
    ⟨{ tidy with }, trivial, fun _ _ _ => rfl⟩

theorem locked_acquire : Keeps locked false acquire w fun r holds _ =>
    (r = .ok () → holds = true) ∧ (r ≠ .ok () → holds = false) := by
  refine keeps_pass (fun _ v => !v.pump_lock) fun v _ tidy _ _ => ?_
  cases lock : v.pump_lock with
  | true => exact ⟨tidy, locked.calm_refl v, fun _ _ _ => ⟨nofun, fun _ => rfl⟩⟩
  | false =>
    refine ⟨{ tidy with }, ⟨by simp [locked, lock], rfl, trivial⟩, fun _ _ _ => ?_⟩
    exact ⟨fun _ => rfl, fun other => absurd rfl other⟩

theorem quiet_pump (fuel : ℕ) (tidy : Tidy w) :
    Keeps locked false (pump fuel) w fun _ _ _ => True := by
  refine locked_acquire.bind tidy (by simp) (fun _ holds v tidyV token took => ?_)
    fun _ _ _ _ _ => trivial
  obtain rfl : holds = true := took.1 rfl
  have loop : Keeps locked true ((pumpLoop fuel).rescue fun e =>
      if e = .cancelled then none else some (do release; Co.raise e)) v
      fun r holds _ => r = .ok () → holds = true := by
    refine (holds_pumpLoop fuel tidyV (token rfl)).rescue tidyV token (fun _ _ _ _ held _ => held)
      (fun e q found holds u tidyU tokenU held => ?_) fun _ _ _ _ _ held _ => held
    subst held
    obtain ⟨-, same⟩ := Option.ite_none_left_eq_some.mp found
    obtain rfl := Option.some.inj same
    exact holds_release.bind tidyU tokenU
      (fun _ _ _ _ _ _ => keeps_raise fun _ _ _ _ other => by simp at other)
      fun _ _ _ _ _ other => by simp at other
  refine loop.bind tidyV token (fun a holds u tidyU tokenU held => ?_) fun _ _ _ _ _ => trivial
  obtain rfl := held rfl
  exact holds_release.imp fun _ _ _ _ _ => trivial

theorem Job.keeps (j : Job × ℕ) (tidy : Tidy w) :
    Keeps locked false (Job.program j) w fun _ _ _ => True := by
  obtain ⟨job, fuel⟩ := j
  cases job with
  | frame replay =>
    refine quiet_bind (quiet_block fun i v tidyV => tidyV.hand replay i) tidy
      (fun handled v tidyV => ?_) fun _ _ => trivial
    cases handled with
    | nothing => exact keeps_pure fun _ _ _ _ => trivial
    | spawned => exact quiet_pump fuel tidyV
    | noted => exact (quiet_flush fuel tidyV).imp fun _ _ _ _ _ => trivial
  | enqueue text tg is_initial =>
    have enqueued : Keeps locked false (InboundSpool.enqueue fuel text tg is_initial) w
        fun _ _ _ => True := by
      refine quiet_bind (quiet_block fun i v tidyV => tidyV.offer text tg is_initial i) tidy
        (fun admission v tidyV => ?_) fun _ _ => trivial
      cases admission with
      | dropped =>
        exact quiet_bind (quiet_flush fuel tidyV) tidyV
          (fun _ _ _ => keeps_pure fun _ _ _ _ => trivial) fun _ _ => trivial
      | failed =>
        exact quiet_bind quiet_await tidyV
          (fun _ _ _ => keeps_pure fun _ _ _ _ => trivial) fun _ _ => trivial
      | accepted seq victim =>
        refine quiet_bind (quiet_hooks is_initial seq tidyV) tidyV (fun _ u tidyU => ?_)
          fun _ _ => trivial
        refine quiet_bind (quiet_flush fuel tidyU) tidyU (fun _ t tidyT => ?_) fun _ _ => trivial
        exact (quiet_pump fuel tidyT).bind tidyT (by simp)
          (fun _ _ _ _ _ _ => keeps_pure fun _ _ _ _ => trivial) fun _ _ _ _ _ => trivial
    exact enqueued.bind tidy (by simp)
      (fun _ _ _ _ _ _ => keeps_pure fun _ _ _ _ => trivial) fun _ _ _ _ _ => trivial

/-! ### Runs -/

theorem tidy_opened (file : List Char) : Tidy (opened file) where
  cli := ⟨Nat.le_refl _, by simp [opened, World.restart], by simp [opened, World.restart],
    by simp [opened, World.restart], by simp [opened, World.restart],
    by simp [opened, World.restart], by simp [opened, World.restart],
    by simp [opened, World.restart]⟩
  current := rfl
  numbers := by
    intro e mem
    have most := (le_foldl_max ((load file).map Envelope.seq) (-1)).2 e.seq
      (List.mem_map_of_mem mem)
    exact Int.lt_add_one_of_le most
  spent := by simp [opened, World.restart]
  stamps := by simp [opened, World.restart]
  armings := .nil
  armed := by simp [opened, World.restart]
  ready := by simp [opened, World.restart]
  sheltered := by simp [opened, World.restart]
  once := by simp [opened, World.restart]

def Lasting (l : Action Act (Job × ℕ) Input) (_ : Pool Input (World Cli) Raised) : Prop :=
  l ≠ .crash

/-- A message whose turn was begun by the process it was written for is not written again, and
every arming of the reader leads to one write at most. -/
theorem turn_delivered_once (file : List Char) {ls : List (Action Act (Job × ℕ) Input)}
    {c : Pool Input (World Cli) Raised}
    (run : Runs session.step Lasting ⟨opened file, []⟩ ls c) :
    (∀ epoch k x, (epoch, k) ∈ c.state.outside.began → c.state.written[k]? = some x →
      x.epoch = some epoch → ∀ j y, k < j → c.state.written[j]? = some y → y.seq ≠ x.seq) ∧
    c.state.written.Pairwise (·.arming < ·.arming) ∧
      ∀ x ∈ c.state.written, x.arming ≤ c.state.armed := by
  have start : Guarded locked (⟨opened file, []⟩ : Pool Input (World Cli) Raised) :=
    ⟨tidy_opened file, none, by simp, by simp⟩
  have guarded : Guarded locked c := by
    refine guarded_of_runs run start (fun a c _ tidy => ?_) (fun j c _ tidy => Job.keeps j tidy)
      fun c lasting _ => absurd rfl lasting
    exact ⟨(Tidy.act tidy a).tidy, (Tidy.act tidy a).calm⟩
  have tidy : Tidy c.state := guarded.inv
  refine ⟨fun epoch k x began at_k stamp => ?_, tidy.armings, tidy.armed⟩
  exact tidy.once k x at_k ⟨epoch, stamp, .inl began⟩

def blocks (n count : ℕ) : List (Action Act (Job × ℕ) Input) :=
  List.replicate count (.advance n ⟨true, .saved, zeroFloat, none, false⟩)

/-- The first process spawns, the message is written, the process dies before its turn, and the
second process, for which the message is written again, begins it. -/
def redelivery : List (Action Act (Job × ℕ) Input) :=
  .env (.spawn 1) :: .start (.frame false, 2) :: blocks 0 4 ++
    .start (.enqueue (str "hello") none true, 2) :: blocks 1 10 ++
    .env (.spawn 2) :: .start (.frame false, 2) :: blocks 2 7 ++
    [.env (.read 1), .env .begin]

def afterwards : List (Action Act (Job × ℕ) Input) :=
  .start (.frame false, 2) :: blocks 3 3 ++
    .env (.spawn 3) :: .start (.frame false, 2) :: blocks 4 4

theorem lasting_session : ∀ l ∈ redelivery ++ afterwards, ∀ c, Lasting l c := by
  rintro l mem c rfl
  simp [redelivery, afterwards, blocks] at mem

def play (ls : List (Action Act (Job × ℕ) Input)) : Pool Input (World Cli) Raised :=
  ls.foldl (fun c l => session.step l c) ⟨opened [], []⟩

theorem play_runs : Runs session.step Lasting ⟨opened [], []⟩ (redelivery ++ afterwards)
    (play (redelivery ++ afterwards)) :=
  Runs.foldl lasting_session ⟨opened [], []⟩

theorem second_turn_delivered_once :
    ((∀ epoch k x, (epoch, k) ∈ (play (redelivery ++ afterwards)).state.outside.began →
      (play (redelivery ++ afterwards)).state.written[k]? = some x → x.epoch = some epoch →
      ∀ j y, k < j → (play (redelivery ++ afterwards)).state.written[j]? = some y →
        y.seq ≠ x.seq) ∧
    (play (redelivery ++ afterwards)).state.written.Pairwise (·.arming < ·.arming) ∧
      ∀ x ∈ (play (redelivery ++ afterwards)).state.written,
        x.arming ≤ (play (redelivery ++ afterwards)).state.armed) ∧
    (play (redelivery ++ afterwards)).state.outside.began = [(2, 1)] ∧
    ((play (redelivery ++ afterwards)).state.written.map fun x => (x.seq, x.epoch, x.arming)) =
      [(0, some 1, 1), (0, some 2, 2)] ∧
    (play (redelivery ++ afterwards)).state.armed = 3 :=
  ⟨turn_delivered_once [] play_runs, by decide +kernel, by decide +kernel, by decide +kernel⟩

-- the process that reads and begins the message is not the one its write was stamped for: the
-- driver handles the spawn frame of that process later, and writes the message again
example :
    let c := play (.env (.spawn 1) :: .start (.frame false, 2) :: blocks 0 4 ++
      .env (.spawn 2) :: .start (.enqueue (str "hello") none true, 2) :: blocks 1 10 ++
      .env (.read 0) :: .env .begin :: .start (.frame false, 2) :: blocks 2 7)
    c.state.outside.began = [(2, 0)] ∧ c.state.written.map Write.seq = [0, 0] := by
  decide +kernel

/-- A message of which a turn has begun was written twice: its first process died before. -/
theorem begun_written_twice : Runs session.step Lasting ⟨opened [], []⟩ redelivery
      (play redelivery) ∧
    (play redelivery).state.outside.began = [(2, 1)] ∧
    (play redelivery).state.written.map Write.seq = [0, 0] :=
  ⟨Runs.foldl (fun l mem => lasting_session l (List.mem_append_left _ mem)) _,
    by decide +kernel, by decide +kernel⟩

end Casa.InboundSpool
