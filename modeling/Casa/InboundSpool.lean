import Casa.Coroutine
import Casa.JsonText
import Casa.PythonValue

/-! The inbound message spool of one engagement: envelopes in memory, one JSON line each in the
file, and the coroutines that enqueue, deliver, consume and answer them. A coroutine is a
program of blocks; what its awaits return and whether a write succeeds are its inputs. -/

namespace Casa.InboundSpool

open Casa.JsonText Casa.Coroutine

def str (s : String) : Text := plain s.toList

inductive Receipt
  | notRequired
  | pending
  | sent
  deriving DecidableEq

inductive Notice
  | none
  | pending
  | sent
  deriving DecidableEq

inductive Delivery
  | queued
  | delivered
  | consumed
  deriving DecidableEq

structure Envelope where
  text : Text
  tg_message_id : Option Int
  priority : Bool
  receipt : Receipt
  notice : Notice
  enqueued_at : FloatText
  delivery_epoch : Option Int
  state : Delivery
  seq : Int
  is_initial : Bool := false
  notice_text : Option Text := none
  answer_anchor_mid : Option Int := none

/-! ### The line of an envelope -/

def Receipt.value : Receipt → Text
  | .notRequired => str "not_required"
  | .pending => str "pending"
  | .sent => str "sent"

def Notice.value : Notice → Text
  | .none => str "none"
  | .pending => str "pending"
  | .sent => str "sent"

def Delivery.value : Delivery → Text
  | .queued => str "queued"
  | .delivered => str "delivered"
  | .consumed => str "consumed"

def optional {α : Type} (f : α → Json) : Option α → Json
  | none => .null
  | some a => f a

/-- The pairs of `_ENVELOPE_PERSIST_FIELDS`. -/
def Envelope.fields (e : Envelope) : List (Text × Json) :=
  [(str "text", .str e.text), (str "tg_message_id", optional .int e.tg_message_id),
    (str "priority", .bool e.priority), (str "receipt", .str e.receipt.value),
    (str "notice", .str e.notice.value), (str "notice_text", optional .str e.notice_text),
    (str "enqueued_at", .float e.enqueued_at),
    (str "delivery_epoch", optional .int e.delivery_epoch), (str "state", .str e.state.value),
    (str "seq", .int e.seq), (str "is_initial", .bool e.is_initial),
    (str "answer_anchor_mid", optional .int e.answer_anchor_mid)]

def Envelope.to_line (e : Envelope) : Text := dumps (.obj e.fields)

/-- `data.get(key, default)`: the last of several equal keys counts. -/
def get (fields : List (Text × Json)) (key : Text) (default_ : Json) : Json :=
  ((fields.reverse.find? fun f => f.1 = key).map Prod.snd).getD default_

def textOf : Json → Option Text
  | .str s => some s
  | _ => none

def intOf : Json → Option Int
  | .int n => some n
  | _ => none

def boolOf : Json → Option Bool
  | .bool b => some b
  | _ => none

def floatOf : Json → Option FloatText
  | .float x => some x
  | _ => none

def orNull {α : Type} (f : Json → Option α) : Json → Option (Option α)
  | .null => some none
  | v => (f v).map some

def Receipt.ofValue (t : Text) : Option Receipt :=
  if t = str "not_required" then some .notRequired
  else if t = str "pending" then some .pending
  else if t = str "sent" then some .sent
  else none

def Notice.ofValue (t : Text) : Option Notice :=
  if t = str "none" then some .none
  else if t = str "pending" then some .pending
  else if t = str "sent" then some .sent
  else none

def Delivery.ofValue (t : Text) : Option Delivery :=
  if t = str "queued" then some .queued
  else if t = str "delivered" then some .delivered
  else if t = str "consumed" then some .consumed
  else none

def zeroFloat : FloatText := ⟨['0', '.', '0'], by decide +kernel⟩

/-- A line whose values have other types than the ones written is not read: nothing writes
one. -/
def from_line (line : List Char) : Option Envelope :=
  match loads line with
  | some (.obj data) =>
      match textOf (get data (str "text") .null), orNull intOf (get data (str "tg_message_id") .null),
        boolOf (get data (str "priority") (.bool false)),
        (textOf (get data (str "receipt") (.str (str "not_required")))).bind Receipt.ofValue,
        (textOf (get data (str "notice") (.str (str "none")))).bind Notice.ofValue,
        orNull textOf (get data (str "notice_text") .null),
        floatOf (get data (str "enqueued_at") (.float zeroFloat)),
        orNull intOf (get data (str "delivery_epoch") .null),
        (textOf (get data (str "state") (.str (str "queued")))).bind Delivery.ofValue,
        intOf (get data (str "seq") (.int 0)), boolOf (get data (str "is_initial") (.bool false)),
        orNull intOf (get data (str "answer_anchor_mid") .null) with
      | some text, some tg_message_id, some priority, some receipt, some notice, some notice_text,
        some enqueued_at, some delivery_epoch, some state, some seq, some is_initial,
        some answer_anchor_mid =>
          some ⟨text, tg_message_id, priority, receipt, notice, enqueued_at, delivery_epoch, state,
            seq, is_initial, notice_text, answer_anchor_mid⟩
      | _, _, _, _, _, _, _, _, _, _, _, _ => none
  | _ => none

theorem Receipt.ofValue_value (r : Receipt) : Receipt.ofValue r.value = some r := by
  cases r <;> decide +kernel

theorem Notice.ofValue_value (n : Notice) : Notice.ofValue n.value = some n := by
  cases n <;> decide +kernel

theorem Delivery.ofValue_value (d : Delivery) : Delivery.ofValue d.value = some d := by
  cases d <;> decide +kernel

theorem orNull_optional {α : Type} {f : Json → Option α} {g : α → Json}
    (back : ∀ a, f (g a) = some a) (solid : ∀ a, g a ≠ .null) (o : Option α) :
    orNull f (optional g o) = some o := by
  cases o with
  | none => rfl
  | some a => simp [optional, orNull, back, solid]

theorem from_line_to_line {e : Envelope} {line : List Char}
    (written : encode e.to_line = some line) : from_line line = some e := by
  rw [from_line, loads_dumps written]
  have text : get e.fields (str "text") .null = .str e.text := rfl
  have tg : get e.fields (str "tg_message_id") .null = optional .int e.tg_message_id := rfl
  have priority : get e.fields (str "priority") (.bool false) = .bool e.priority := rfl
  have receipt : get e.fields (str "receipt") (.str (str "not_required")) =
      .str e.receipt.value := rfl
  have notice : get e.fields (str "notice") (.str (str "none")) = .str e.notice.value := rfl
  have copy : get e.fields (str "notice_text") .null = optional .str e.notice_text := rfl
  have time : get e.fields (str "enqueued_at") (.float zeroFloat) = .float e.enqueued_at := rfl
  have epoch : get e.fields (str "delivery_epoch") .null = optional .int e.delivery_epoch := rfl
  have state : get e.fields (str "state") (.str (str "queued")) = .str e.state.value := rfl
  have seq : get e.fields (str "seq") (.int 0) = .int e.seq := rfl
  have initial : get e.fields (str "is_initial") (.bool false) = .bool e.is_initial := rfl
  have anchor : get e.fields (str "answer_anchor_mid") .null =
      optional .int e.answer_anchor_mid := rfl
  have int (o : Option Int) : orNull intOf (optional .int o) = some o :=
    orNull_optional (f := intOf) (g := .int) (fun _ => rfl) (by simp) o
  have texts (o : Option Text) : orNull textOf (optional .str o) = some o :=
    orNull_optional (f := textOf) (g := .str) (fun _ => rfl) (by simp) o
  have receipts : (textOf (.str e.receipt.value)).bind Receipt.ofValue = some e.receipt :=
    Receipt.ofValue_value e.receipt
  have notices : (textOf (.str e.notice.value)).bind Notice.ofValue = some e.notice :=
    Notice.ofValue_value e.notice
  have states : (textOf (.str e.state.value)).bind Delivery.ofValue = some e.state :=
    Delivery.ofValue_value e.state
  dsimp only
  rw [text, tg, priority, receipt, notice, copy, time, epoch, state, seq, initial, anchor,
    int, int, int, texts, receipts, notices, states]
  rfl

/-- What `_persist` writes. -/
def payload (envelopes : List Envelope) : Text :=
  envelopes.flatMap fun e => e.to_line ++ [.scalar '\n']

/-- What `_load` reads. -/
def load (file : List Char) : List Envelope :=
  (splitlines file).filterMap fun line =>
    if line.all PythonValue.isSpace then none else from_line line

/-! ### Redirects -/

def ordinaryLaneCap : ℕ := 10

def priorityLaneCap : ℕ := 3

def priorityCapCopy : Text := str "⚠️ Too many pending redirects — this one was dropped."

def ordinaryFullCopy : Text :=
  str "Your engagement already has 10 messages waiting to be delivered — this one was dropped. Please wait for it to catch up, then resend."

def redirectPrefix : Text :=
  str "[OPERATOR REDIRECT — drop your current agenda, re-plan from this message]"

def isSpaceCode : Code → Bool
  | .scalar c => PythonValue.isSpace c
  | .surrogate _ => false

def isBreakCode : Code → Bool
  | .scalar c => isLineBreak c
  | .surrogate _ => false

def strip (t : Text) : Text :=
  ((t.dropWhile isSpaceCode).reverse.dropWhile isSpaceCode).reverse

/-- `str.lower`, as far as a comparison with ASCII letters sees it. -/
def lower (t : Text) : Text :=
  t.map fun
    | .scalar c => .scalar c.toLower
    | .surrogate n => .surrogate n

def is_redirect (text : Text) : Bool :=
  let stripped := strip text
  (str "redirect:").isPrefixOf (lower stripped) ||
    lower (strip (stripped.takeWhile fun c => !isBreakCode c)) = str "stop"

/-! ### State -/

/-- Where a write of the file ends: done, or an `OSError` before or after the text is encoded. -/
inductive Disk
  | saved
  | openFails
  | writeFails
  deriving DecidableEq

inductive Raised
  | osError
  | unicodeError
  | cancelled
  deriving DecidableEq

/-- What happened to an accepted message: the epochs it was delivered in, those of the turns
that consumed it, whether a redirect evicted it and whether its notice was sent. -/
structure Entry where
  seq : Int
  text : Text
  priority : Bool
  stamps : List (Option Int) := []
  consumed : List (Option Int) := []
  evicted : Bool := false
  noticed : Bool := false

/-- A write that the FIFO took: its epoch, and how often the reader had been armed. -/
structure Write where
  seq : Int
  text : Text
  epoch : Option Int
  arming : ℕ

/-- The spool, its file, and what the driver says of the current process. `outside` is what no
coroutine of the spool touches. History: `saved` holds the envelopes of the last write of the
file that succeeded, `ledger` every accepted message, `written` what the FIFO was given and
`armed` how often the reader was armed. -/
structure World (X : Type) where
  envelopes : List Envelope := []
  reader_ready : Bool := false
  pump_lock : Bool := false
  next_seq : Int := 0
  persist_dirty : Bool := false
  generation : ℕ := 0
  file : List Char := []
  turn_running : Bool := false
  current_epoch : Option Int := none
  saved : List Envelope := []
  ledger : List Entry := []
  written : List Write := []
  armed : ℕ := 0
  outside : X

/-- What a block learns from outside: the answer of the await before it, how its write ends,
the clock, the anchor a promotion found, and whether a prune of another coroutine has rebound
the list under a flush. -/
structure Input where
  ok : Bool
  disk : Disk
  time : FloatText
  anchor : Option Int
  rebound : Bool

variable {X : Type}

def World.store (w : World X) (text : List Char) : World X :=
  { w with file := text, persist_dirty := false, saved := w.envelopes }

def persist (disk : Disk) (w : World X) : Except Raised Unit × World X :=
  if disk = .openFails then (.error .osError, { w with persist_dirty := true })
  else
    match encode (payload w.envelopes) with
    | none => (.error .unicodeError, w)
    | some text =>
        if disk = .saved then (.ok ⟨⟩, w.store text)
        else (.error .osError, { w with persist_dirty := true })

/-- `_persist_quiet`: an `OSError` is logged. -/
def persistQuiet (disk : Disk) (w : World X) : Except Raised Unit × World X :=
  match persist disk w with
  | (.error .osError, w) => (.ok ⟨⟩, { w with persist_dirty := true })
  | r => r

def World.modify (w : World X) (seq : Int) (f : Envelope → Envelope) : World X :=
  { w with envelopes := w.envelopes.map fun e => if e.seq = seq then f e else e }

def World.mark (w : World X) (seq : Int) (f : Entry → Entry) : World X :=
  { w with ledger := w.ledger.map fun m => if m.seq = seq then f m else m }

/-! ### Lanes -/

def Envelope.isLane (e : Envelope) : Bool := e.state = .queued && e.notice = .none

def World.laneMembers (w : World X) : List Envelope := w.envelopes.filter Envelope.isLane

def World.ordinary (w : World X) : List Envelope := w.laneMembers.filter fun e => !e.priority

def World.urgent (w : World X) : List Envelope := w.laneMembers.filter fun e => e.priority

/-- The first member that `better` prefers to every other. -/
def pick (better : Int → Int → Bool) : List Envelope → Option Envelope
  | [] => none
  | e :: rest =>
      match pick better rest with
      | none => some e
      | some b => if better b.seq e.seq then some b else some e

def World.nextDeliverable (w : World X) : Option Envelope :=
  pick (· < ·) (if w.urgent = [] then w.laneMembers else w.urgent)

def Envelope.shouldRetain (e : Envelope) : Bool :=
  e.notice = .pending || e.receipt = .pending ||
    ((e.state = .queued || e.state = .delivered) && e.notice ≠ .sent)

def World.prune (w : World X) : World X :=
  { w with envelopes := w.envelopes.filter Envelope.shouldRetain }

/-! ### Blocks -/

abbrev Block (X α : Type) := Input → World X → Except Raised α × World X

/-- `_record_drop_notice`, up to its flush. -/
def recordDropNotice (copy : Text) (tg : Option Int) : Block X Unit := fun i w =>
  let env : Envelope := {
    text := [], tg_message_id := tg, priority := false, receipt := .notRequired
    notice := .pending, notice_text := some copy, enqueued_at := i.time
    delivery_epoch := none, state := .consumed, seq := w.next_seq }
  persistQuiet i.disk
    { w with next_seq := w.next_seq + 1, envelopes := w.envelopes ++ [env] }

def World.victim (w : World X) (redirect : Bool) : Option Envelope :=
  if redirect && ordinaryLaneCap ≤ w.ordinary.length then pick (· > ·) w.ordinary else none

def World.evict (w : World X) : Option Envelope → World X
  | none => w
  | some v => w.modify v.seq ({ · with notice := .pending })

/-- The rollback of an eviction goes by the message id: the first envelope that matches. -/
def unevict (tg : Option Int) : List Envelope → List Envelope
  | [] => []
  | e :: rest =>
      if e.tg_message_id = tg ∧ e.notice = .pending then { e with notice := .none } :: rest
      else e :: unevict tg rest

def World.rollback (w : World X) (victim : Option Envelope) : World X :=
  { w with envelopes :=
      match victim with
      | none => w.envelopes.dropLast
      | some v => unevict v.tg_message_id w.envelopes.dropLast }

def World.noteEviction (w : World X) : Option Envelope → World X
  | none => w
  | some v =>
      if w.envelopes.any (fun e => e.seq = v.seq && e.notice = .pending) then
        w.mark v.seq ({ · with evicted := true })
      else w

/-- What `enqueue` does up to its first await. -/
inductive Admission
  | dropped
  | failed
  | accepted (seq : Int) (victim : Option Envelope)

def World.append (w : World X) (env : Envelope) : World X :=
  { w with next_seq := w.next_seq + 1, envelopes := w.envelopes ++ [env] }

def World.accepted (w : World X) (m : Entry) : World X :=
  { w with generation := w.generation + 1, ledger := w.ledger ++ [m] }

def World.envelope (w : World X) (text : Text) (tg : Option Int) (is_initial redirect : Bool)
    (time : FloatText) : Envelope where
  text := text
  tg_message_id := tg
  priority := redirect
  receipt := if !is_initial && w.turn_running then .pending else .notRequired
  notice := .none
  enqueued_at := time
  delivery_epoch := none
  state := .queued
  seq := w.next_seq
  is_initial := is_initial

def accept (text : Text) (tg : Option Int) (is_initial redirect : Bool) : Block X Admission :=
  fun i w =>
    let victim := w.victim redirect
    let env := w.envelope text tg is_initial redirect i.time
    match persist i.disk ((w.evict victim).append env) with
    | (.ok _, w) =>
        (.ok (.accepted env.seq victim),
          (w.accepted { seq := env.seq, text := text, priority := redirect }).noteEviction victim)
    | (.error .osError, w) => (.ok .failed, (w.rollback victim).noteEviction victim)
    | (.error e, w) => (.error e, w.noteEviction victim)

def offer (text : Text) (tg : Option Int) (is_initial : Bool) : Block X Admission := fun i w =>
  let redirect := !is_initial && is_redirect text
  let full :=
    if redirect then if priorityLaneCap ≤ w.urgent.length then some priorityCapCopy else none
    else if ordinaryLaneCap ≤ w.ordinary.length then some ordinaryFullCopy
    else none
  match full with
  | some copy =>
      let r := recordDropNotice copy tg i w
      (r.1.map fun _ => .dropped, r.2)
  | none => accept text tg is_initial redirect i w

def promote (seq : Int) : Block X Unit := fun i w =>
  match i.anchor with
  | none => (.ok ⟨⟩, w)
  | some mid => persistQuiet i.disk (w.modify seq ({ · with answer_anchor_mid := some mid }))

/-- The next envelope of the loop in `_flush_pending` that owes a notice or a receipt. -/
def World.owing (w : World X) (after : Option Int) : Option Envelope :=
  w.envelopes.find? fun e =>
    after.all (· < e.seq) && (e.notice = .pending || e.receipt = .pending)

def sentNotice (seq : Int) : Input → World X → Bool × World X := fun i w =>
  (i.ok,
    if i.ok then
      (w.modify seq fun e =>
          { e with
            notice := .sent
            receipt := if e.receipt = .pending then .notRequired else e.receipt })
        |>.mark seq ({ · with noticed := true })
    else w)

def sentReceipt (seq : Int) : Input → World X → Bool × World X := fun i w =>
  (i.ok, if i.ok then w.modify seq ({ · with receipt := .sent }) else w)

/-- The end of `_flush_pending`; what it logs, `_persist_quiet` logs. -/
def endFlush (changed : Bool) : Block X Unit := fun i w =>
  let w := if changed then w.prune else w
  if changed || w.persist_dirty then persistQuiet i.disk w else (.ok ⟨⟩, w)

def revert : Block X Unit := fun i w =>
  let reverted := w.envelopes.any fun e => e.state = .delivered
  let w := { w with envelopes := w.envelopes.map fun e =>
    if e.state = .delivered then { e with state := .queued, delivery_epoch := none } else e }
  if reverted then persistQuiet i.disk w else (.ok ⟨⟩, w)

def arm : Block X Unit := fun i w =>
  revert i { w with reader_ready := true, armed := w.armed + 1 }

def Envelope.isDue (e : Envelope) (epoch : Option Int) : Bool :=
  e.state = .delivered && e.delivery_epoch = epoch

/-- `on_turn_start`, up to its flush. -/
def consume : Block X Unit := fun i w =>
  let epoch := w.current_epoch
  if w.envelopes.any (·.isDue epoch) then
    persistQuiet i.disk <| World.prune
      { w with
        envelopes := w.envelopes.map fun e =>
          if e.isDue epoch then { e with state := .consumed } else e
        ledger := w.ledger.map fun m =>
          if w.envelopes.any (fun e => e.seq = m.seq && e.isDue epoch) then
            { m with consumed := m.consumed ++ [epoch] }
          else m }
  else (.ok ⟨⟩, w)

/-- The line `_pump` hands to the FIFO. -/
def Envelope.line (e : Envelope) : Text :=
  if e.priority then redirectPrefix ++ .scalar '\n' :: e.text else e.text

/-- The FIFO took the line of `e`: it is stamped, and the reader's turn is spent. -/
def World.delivered (w : World X) (e : Envelope) : World X :=
  { w with
    envelopes := w.envelopes.map fun f => if f.seq = e.seq then
      { f with state := .delivered, delivery_epoch := w.current_epoch } else f
    ledger := w.ledger.map fun m => if m.seq = e.seq then
      { m with stamps := m.stamps ++ [w.current_epoch] } else m
    reader_ready := false
    written := w.written ++ [⟨e.seq, e.line, w.current_epoch, w.armed⟩] }

/-- `_pump` after `_write_fifo` returned. -/
def deliver (e : Envelope) : Block X Bool := fun i w =>
  if i.ok then
    let r := persistQuiet i.disk (w.delivered e)
    (r.1.map fun _ => true, r.2)
  else (.ok false, w)

/-! ### Coroutines -/

abbrev Task (X α : Type) := Co Input (World X) Raised α

def await_ : Task X Unit := Co.block fun _ w => (.ok ⟨⟩, w)

/-- The loop of `_flush_pending` goes on to the next envelope that owes something. -/
def nextOwing (after : Option Int) : Task X (Option Envelope) :=
  Co.step fun i w => (if i.rebound then none else w.owing after, w)

def sendOwed (e : Envelope) : Task X Bool :=
  Co.step (if e.notice = .pending then sentNotice e.seq else sentReceipt e.seq)

/-- `_flush_pending` from the envelope after `after`; `fuel` bounds the rounds of the loop. -/
def flushFrom : ℕ → Option Int → Bool → Task X Unit
  | 0, _, _ => Co.raise .cancelled
  | fuel + 1, after, changed => do
      match ← nextOwing after with
      | none => Co.block (endFlush changed)
      | some e =>
          let ok ← sendOwed e
          flushFrom fuel (some e.seq) (changed || ok)

def flush (fuel : ℕ) : Task X Unit := flushFrom fuel none false

/-- A task that runs again while the lock is taken is one that was cancelled in its wait. -/
def acquire : Task X Unit := Co.block fun _ w =>
  if w.pump_lock then (.error .cancelled, w) else (.ok ⟨⟩, { w with pump_lock := true })

def release : Task X Unit := Co.block fun _ w => (.ok ⟨⟩, { w with pump_lock := false })

def nextLine : Task X (Option Envelope) :=
  Co.step fun _ w => (if w.reader_ready then w.nextDeliverable else none, w)

/-- The loop of `_pump`. -/
def pumpLoop : ℕ → Task X Unit
  | 0 => Co.raise .cancelled
  | fuel + 1 => do
      match ← nextLine with
      | none => pure ⟨⟩
      | some e => do
          let ok ← Co.block (deliver e)
          if ok then
            await_
            await_
            pumpLoop fuel

/-- `_pump`: the lock is released also when the loop raises. -/
def pump (fuel : ℕ) : Task X Unit := do
  acquire
  (pumpLoop fuel).rescue fun e => if e = .cancelled then none else some (do release; Co.raise e)
  release

inductive Disposition
  | queued
  | droppedFull
  | evictedOther (tg : Option Int)
  | error

/-- The hooks of an operator message: the asks it supersedes, the end of an absence, and the
answer it promotes. -/
def hooks (is_initial : Bool) (seq : Int) : Task X Unit :=
  if is_initial then pure ⟨⟩
  else do
    await_
    await_
    (Co.block (promote seq)).rescue fun e => if e = .unicodeError then some (pure ⟨⟩) else none

def enqueue (fuel : ℕ) (text : Text) (tg : Option Int) (is_initial : Bool) :
    Task X Disposition := do
  match ← Co.block (offer text tg is_initial) with
  | .dropped =>
      flush fuel
      pure .droppedFull
  | .failed =>
      await_
      pure .error
  | .accepted seq victim =>
      hooks is_initial seq
      flush fuel
      pump fuel
      pure (match victim with
        | none => .queued
        | some v => .evictedOther v.tg_message_id)

def on_spawn (fuel : ℕ) : Task X Unit := do
  Co.block arm
  pump fuel

def on_turn_start (fuel : ℕ) : Task X Unit := do
  Co.block consume
  flush fuel

def on_turn_end (fuel : ℕ) : Task X Unit := flush fuel

def recover (fuel : ℕ) : Task X Unit := do
  Co.block revert
  flush fuel
  pump fuel

def drain (fuel : ℕ) : Task X Unit := flush fuel

/-- `__init__` and `_load`: a new spool from the file. -/
def World.restart (w : World X) : World X :=
  let envelopes := load w.file
  { w with
    envelopes := envelopes, reader_ready := false, pump_lock := false
    next_seq := (envelopes.map Envelope.seq).foldl max (-1) + 1
    persist_dirty := false, generation := 0, turn_running := false, current_epoch := none }

end Casa.InboundSpool
