import Casa.CoroutinePool
import Casa.InboundSpool
import Mathlib.Data.List.Forall2
import Mathlib.Data.List.Nodup

/-! No accepted message is lost. Until its turn consumed it or its eviction notice went out, an
accepted message stands in the list and in the last written file, with its text, its lane and
its place. The history only grows, and this carries the proof over every await. -/

namespace Casa.InboundSpool

open JsonText Coroutine CoroutinePool StepRuns

variable {X : Type} {w : World X} {e : Envelope} {m m' : Entry}

/-! ### The file gives back the list -/

def Envelope.Tame (e : Envelope) : Prop :=
  JsonText.Tame e.text ∧ ∀ t, e.notice_text = some t → JsonText.Tame t

theorem tame_str {s : String} (tame : (str s).all isTameCode = true) : JsonText.Tame (str s) :=
  all_isTameCode.mp tame

theorem tame_fields (tame : e.Tame) : (Json.obj e.fields).Tame := by
  have keys : ∀ f ∈ e.fields, JsonText.Tame f.1 := by
    simp only [Envelope.fields, List.forall_mem_cons, List.not_mem_nil, false_imp_iff, implies_true,
      and_true]
    refine ⟨?_, ?_, ?_, ?_, ?_, ?_, ?_, ?_, ?_, ?_, ?_, ?_⟩ <;> exact tame_str (by decide +kernel)
  have values : ∀ f ∈ e.fields, f.2.Tame := by
    have receipt : JsonText.Tame e.receipt.value := by
      cases e.receipt <;> exact tame_str (by decide +kernel)
    have notice : JsonText.Tame e.notice.value := by
      cases e.notice <;> exact tame_str (by decide +kernel)
    have state : JsonText.Tame e.state.value := by
      cases e.state <;> exact tame_str (by decide +kernel)
    have number (o : Option Int) : (optional Json.int o).Tame := by cases o <;> trivial
    have copy : (optional Json.str e.notice_text).Tame := by
      cases own : e.notice_text with
      | none => trivial
      | some t => exact tame.2 t own
    simp only [Envelope.fields, List.forall_mem_cons, List.not_mem_nil, false_imp_iff, implies_true,
      and_true]
    exact ⟨tame.1, number _, trivial, receipt, notice, copy, trivial, number _, state, trivial,
      trivial, number _⟩
  have members : ∀ fields : List (Text × Json), (∀ f ∈ fields, JsonText.Tame f.1) →
      (∀ f ∈ fields, f.2.Tame) → TameMembers fields := by
    intro fields
    induction fields with
    | nil => exact fun _ _ => trivial
    | cons f rest ih =>
      intro keys values
      rw [List.forall_mem_cons] at keys values
      exact ⟨keys.1, values.1, ih keys.2 values.2⟩
  exact members e.fields keys values

theorem payload_lines {es : List Envelope} {cs : List Char} (tame : ∀ e ∈ es, e.Tame)
    (written : payload es = plain cs) :
    ∃ ls : List (List Char), cs = ls.flatMap (· ++ ['\n']) ∧
      (∀ l ∈ ls, ∀ c ∈ l, isLineBreak c = false) ∧
      List.Forall₂ (fun e l => e.to_line = plain l) es ls := by
  induction es generalizing cs with
  | nil =>
    obtain rfl : [] = cs := plain_injective written
    exact ⟨[], rfl, by simp, .nil⟩
  | cons e es ih =>
    rw [List.forall_mem_cons] at tame
    obtain ⟨first, rest, headed, tailed, rfl⟩ := plain_eq_append (a := e.to_line ++ [.scalar '\n'])
      (b := payload es) written
    obtain ⟨l, stop, line, broken, rfl⟩ := plain_eq_append headed
    obtain rfl : ['\n'] = stop := plain_injective broken
    obtain ⟨ls, rfl, whole, lines⟩ := ih tame.2 tailed
    refine ⟨l :: ls, by simp, List.forall_mem_cons.mpr ⟨fun c mem => ?_, whole⟩, .cons line lines⟩
    have single : OneLine e.to_line := oneLine_dumps _ (tame_fields tame.1)
    exact single c (by rw [line]; exact List.mem_map_of_mem mem)

theorem to_line_solid {l : List Char} (line : e.to_line = plain l) :
    l.all PythonValue.isSpace = false := by
  have opens : ∃ rest, e.to_line = .scalar '{' :: rest := ⟨_, rfl⟩
  obtain ⟨rest, opens⟩ := opens
  cases l with
  | nil => simp [plain, opens] at line
  | cons c l =>
    have first : Code.scalar '{' = Code.scalar c := by
      rw [opens] at line
      exact (List.cons.inj line).1
    obtain rfl := Code.scalar.inj first
    simp [show PythonValue.isSpace '{' = false by decide]

theorem load_payload {es : List Envelope} {cs : List Char} (tame : ∀ e ∈ es, e.Tame)
    (written : encode (payload es) = some cs) : load cs = es := by
  obtain ⟨ls, rfl, whole, lines⟩ := payload_lines tame (encode_eq_some.mp written)
  rw [load, splitlines_lines whole]
  clear whole written
  induction lines with
  | nil => rfl
  | cons line _ ih =>
    rw [List.forall_mem_cons] at tame
    rw [List.filterMap_cons, to_line_solid line]
    simp only [Bool.false_eq_true, if_false]
    rw [from_line_to_line (encode_eq_some.mpr line)]
    exact congrArg _ (ih tame.2)

/-! ### What is kept of a message -/

/-- A turn of an epoch it was delivered in has consumed the message, or a redirect evicted it
and its notice went out. -/
def Entry.Done (m : Entry) : Prop :=
  (∃ epoch ∈ m.consumed, epoch ∈ m.stamps) ∨ (m.evicted = true ∧ m.noticed = true)

/-- The envelope that holds the message: its text, its lane, queued or delivered, and with a
pending notice only when a redirect has evicted it. -/
structure Kept (m : Entry) (e : Envelope) : Prop where
  seq : e.seq = m.seq
  text : e.text = m.text
  priority : e.priority = m.priority
  live : e.state ≠ .consumed
  notice : e.notice = .none ∨ e.notice = .pending ∧ m.evicted = true
  stamp : e.state = .delivered → e.delivery_epoch ∈ m.stamps

structure Entry.Grows (m m' : Entry) : Prop where
  seq : m'.seq = m.seq
  text : m'.text = m.text
  priority : m'.priority = m.priority
  stamps : ∀ epoch ∈ m.stamps, epoch ∈ m'.stamps
  consumed : ∀ epoch ∈ m.consumed, epoch ∈ m'.consumed
  evicted : m.evicted = true → m'.evicted = true
  noticed : m.noticed = true → m'.noticed = true

theorem Entry.Grows.refl (m : Entry) : m.Grows m :=
  ⟨rfl, rfl, rfl, fun _ => id, fun _ => id, id, id⟩

theorem Entry.Done.grow (h : m.Done) (grows : m.Grows m') : m'.Done :=
  h.imp (fun ⟨epoch, taken, stamped⟩ => ⟨epoch, grows.consumed _ taken, grows.stamps _ stamped⟩)
    fun ⟨evicted, noticed⟩ => ⟨grows.evicted evicted, grows.noticed noticed⟩

theorem Kept.grow (h : Kept m e) (grows : m.Grows m') : Kept m' e where
  seq := h.seq.trans grows.seq.symm
  text := h.text.trans grows.text.symm
  priority := h.priority.trans grows.priority.symm
  live := h.live
  notice := h.notice.imp_right fun ⟨pending, evicted⟩ => ⟨pending, grows.evicted evicted⟩
  stamp := fun delivered => grows.stamps _ (h.stamp delivered)

structure Holds (ledger : List Entry) (es : List Envelope) : Prop where
  sorted : es.Pairwise (·.seq < ·.seq)
  tame : ∀ e ∈ es, e.Tame
  kept : ∀ m ∈ ledger, m.Done ∨ ∃ e ∈ es, Kept m e

theorem Holds.unique {ledger : List Entry} {es : List Envelope} (h : Holds ledger es)
    {e f : Envelope} (memE : e ∈ es) (memF : f ∈ es) (same : e.seq = f.seq) : e = f := by
  have distinct : (es.map Envelope.seq).Nodup :=
    List.pairwise_map.mpr (h.sorted.imp fun less => Int.ne_of_lt less)
  exact List.inj_on_of_nodup_map distinct memE memF same

theorem Holds.grow {ledger : List Entry} {es : List Envelope} (h : Holds ledger es)
    {g : Entry → Entry} (grows : ∀ m : Entry, m.Grows (g m)) : Holds (ledger.map g) es where
  sorted := h.sorted
  tame := h.tame
  kept := by
    simp only [List.forall_mem_map]
    intro m mem
    exact (h.kept m mem).imp (·.grow (grows m)) fun ⟨e, here, kept⟩ => ⟨e, here, kept.grow (grows m)⟩

theorem Holds.rewrite {ledger : List Entry} {es es' : List Envelope} (h : Holds ledger es)
    {g : Entry → Entry} (grows : ∀ m : Entry, m.Grows (g m))
    (step : List.Forall₂ (fun e e' => e'.seq = e.seq ∧ (e.Tame → e'.Tame) ∧
      ∀ m ∈ ledger, Kept m e → (g m).Done ∨ Kept (g m) e') es es') :
    Holds (ledger.map g) es' where
  sorted := by
    have seqs : es.map Envelope.seq = es'.map Envelope.seq := by
      refine List.forall₂_eq_eq_eq ▸ List.forall₂_map_left_iff.mpr ?_
      exact List.forall₂_map_right_iff.mpr (step.imp fun _ _ both => both.1.symm)
    have mapped : (es'.map Envelope.seq).Pairwise (· < ·) := by
      rw [← seqs]
      exact List.pairwise_map.mpr h.sorted
    exact List.pairwise_map.mp mapped
  tame := by
    intro e' mem
    obtain ⟨n, inside, rfl⟩ := List.getElem_of_mem mem
    have long : n < es.length := step.length_eq ▸ inside
    exact (step.get long inside).2.1 (h.tame _ (List.getElem_mem long))
  kept := by
    simp only [List.forall_mem_map]
    intro m mem
    rcases h.kept m mem with done | ⟨e, here, kept⟩
    · exact .inl (done.grow (grows m))
    · obtain ⟨n, inside, rfl⟩ := List.getElem_of_mem here
      have long : n < es'.length := step.length_eq ▸ inside
      have now := (step.get inside long).2.2 m mem kept
      exact now.imp_right fun kept => ⟨_, List.getElem_mem long, kept⟩

theorem Holds.prune {ledger : List Entry} {es : List Envelope} (h : Holds ledger es) :
    Holds ledger (es.filter Envelope.shouldRetain) where
  sorted := h.sorted.filter _
  tame := fun e mem => h.tame e (List.mem_of_mem_filter mem)
  kept := by
    intro m mem
    refine (h.kept m mem).imp_right fun ⟨e, here, kept⟩ => ⟨e, List.mem_filter.mpr ⟨here, ?_⟩, kept⟩
    have live := kept.live
    rcases kept.notice with quiet | ⟨pending, -⟩
    · cases state : e.state <;> simp_all [Envelope.shouldRetain]
    · simp [Envelope.shouldRetain, pending]

theorem Holds.append {ledger : List Entry} {es : List Envelope} (h : Holds ledger es)
    {env : Envelope} (newest : ∀ e ∈ es, e.seq < env.seq) (tame : env.Tame) :
    Holds ledger (es ++ [env]) where
  sorted := List.pairwise_append.mpr ⟨h.sorted, List.pairwise_singleton _ _, by simpa using newest⟩
  tame := by
    intro e mem
    rcases List.mem_append.mp mem with old | new
    · exact h.tame e old
    · obtain rfl := List.mem_singleton.mp new
      exact tame
  kept := fun m mem => (h.kept m mem).imp_right fun ⟨e, here, kept⟩ =>
    ⟨e, List.mem_append_left _ here, kept⟩

theorem Holds.accept {ledger : List Entry} {es : List Envelope} (h : Holds ledger es)
    (new : ∃ e ∈ es, Kept m e) : Holds (ledger ++ [m]) es where
  sorted := h.sorted
  tame := h.tame
  kept := by
    intro m' mem
    rcases List.mem_append.mp mem with old | same
    · exact h.kept m' old
    · obtain rfl := List.mem_singleton.mp same
      exact .inr new

/-! ### The invariant -/

structure Sound (w : World X) : Prop where
  memory : Holds w.ledger w.envelopes
  disk : Holds w.ledger w.saved
  fresh : ∀ e ∈ w.envelopes, e.seq < w.next_seq
  order : w.ledger.Pairwise fun m m' => m.Done ∨ m'.Done ∨ m.seq < m'.seq
  loaded : load w.file = w.saved

def Doomed (n : Int) (w : World X) : Prop :=
  n < w.next_seq ∧ ∀ m ∈ w.ledger, m.seq = n → m.Done ∨ m.evicted = true

def contract (X : Type) : Contract (World X) :=
  .tokenless Sound (fun w v => ∀ n, Doomed n w → Doomed n v) (fun _ _ => id)
    fun first second n held => second n (first n held)

structure Stays (w v : World X) : Prop where
  sound : Sound v
  doomed : ∀ n, Doomed n w → Doomed n v

theorem Stays.trans {u v : World X} (h : Stays w v) (h' : Stays v u) : Stays w u :=
  ⟨h'.sound, fun n held => h'.doomed n (h.doomed n held)⟩

theorem Sound.refl (h : Sound w) : Stays w w := ⟨h, fun _ => id⟩

theorem Doomed.grow {n : Int} {v : World X} {g : Entry → Entry} (grows : ∀ m : Entry, m.Grows (g m))
    (ledger : v.ledger = w.ledger.map g) (next : w.next_seq ≤ v.next_seq) (h : Doomed n w) :
    Doomed n v := by
  refine ⟨Int.lt_of_lt_of_le h.1 next, ?_⟩
  rw [ledger, List.forall_mem_map]
  intro m mem same
  exact (h.2 m mem ((grows m).seq.symm.trans same)).imp (·.grow (grows m)) (grows m).evicted

theorem Sound.rewrite (h : Sound w) {g : Entry → Entry} (grows : ∀ m : Entry, m.Grows (g m))
    {es : List Envelope}
    (step : List.Forall₂ (fun e e' => e'.seq = e.seq ∧ (e.Tame → e'.Tame) ∧
      ∀ m ∈ w.ledger, Kept m e → (g m).Done ∨ Kept (g m) e') w.envelopes es) :
    Stays w { w with envelopes := es, ledger := w.ledger.map g } where
  sound :=
    { memory := h.memory.rewrite grows step
      disk := h.disk.grow grows
      fresh := by
        intro e' mem
        obtain ⟨n, inside, rfl⟩ := List.getElem_of_mem mem
        have long : n < w.envelopes.length := step.length_eq ▸ inside
        exact (step.get long inside).1 ▸ h.fresh _ (List.getElem_mem long)
      order := List.pairwise_map.mpr (h.order.imp fun {m m'} earlier => by
        rw [(grows m).seq, (grows m').seq]
        exact earlier.imp (·.grow (grows m)) (·.imp_left (·.grow (grows m'))))
      loaded := h.loaded }
  doomed := fun _ held => held.grow grows rfl (Int.le_refl _)

theorem Sound.map (h : Sound w) {f : Envelope → Envelope} {g : Entry → Entry}
    (grows : ∀ m : Entry, m.Grows (g m)) (seq : ∀ e, (f e).seq = e.seq) (tame : ∀ e, e.Tame → (f e).Tame)
    (step : ∀ e ∈ w.envelopes, ∀ m ∈ w.ledger, Kept m e → (g m).Done ∨ Kept (g m) (f e)) :
    Stays w { w with envelopes := w.envelopes.map f, ledger := w.ledger.map g } := by
  refine h.rewrite grows (List.forall₂_map_right_iff.mpr (List.forall₂_same.mpr fun e mem => ?_))
  exact ⟨seq e, tame e, step e mem⟩

theorem Sound.modify (h : Sound w) {f : Envelope → Envelope} (seq : ∀ e, (f e).seq = e.seq)
    (tame : ∀ e, e.Tame → (f e).Tame)
    (step : ∀ e ∈ w.envelopes, ∀ m ∈ w.ledger, Kept m e → m.Done ∨ Kept m (f e)) :
    Stays w { w with envelopes := w.envelopes.map f } := by
  have moved := h.map (g := id) Entry.Grows.refl seq tame step
  simpa using moved

theorem Sound.prune (h : Sound w) : Stays w w.prune where
  sound := { h with
    memory := h.memory.prune
    fresh := fun e mem => h.fresh e (List.mem_of_mem_filter mem) }
  doomed := fun _ => id

theorem persist_cases (disk : Disk) (w : World X) :
    (∃ text, encode (payload w.envelopes) = some text ∧ persist disk w =
      (.ok (), w.store text)) ∨
    persist disk w = (.error .osError, { w with persist_dirty := true }) ∨
    persist disk w = (.error .unicodeError, w) := by
  cases disk with
  | openFails => exact .inr (.inl rfl)
  | saved =>
    cases written : encode (payload w.envelopes) with
    | none => exact .inr (.inr (by simp [persist, written]))
    | some text => exact .inl ⟨text, rfl, by simp [persist, written]⟩
  | writeFails =>
    cases written : encode (payload w.envelopes) with
    | none => exact .inr (.inr (by simp [persist, written]))
    | some text => exact .inr (.inl (by simp [persist, written]))

theorem Sound.written (h : Sound w) {text : List Char}
    (written : encode (payload w.envelopes) = some text) :
    Stays w (w.store text) where
  sound := { h with disk := h.memory, loaded := load_payload h.memory.tame written }
  doomed := fun _ => id

theorem Sound.persist (h : Sound w) (disk : Disk) : Stays w (persist disk w).2 := by
  rcases persist_cases disk w with ⟨text, written, saved⟩ | failed | failed
  · rw [saved]
    exact h.written written
  · rw [failed]
    exact ⟨{ h with }, fun _ => id⟩
  · rw [failed]
    exact h.refl

theorem Sound.persistQuiet (h : Sound w) (disk : Disk) : Stays w (persistQuiet disk w).2 := by
  have saved := h.persist disk
  simp only [InboundSpool.persistQuiet]
  split
  case h_1 v same =>
    rw [same] at saved
    exact ⟨{ saved.sound with }, saved.doomed⟩
  case h_2 => exact saved

theorem Stays.persistQuiet {v : World X} (h : Stays w v) (disk : Disk) :
    Stays w (persistQuiet disk v).2 :=
  h.trans (h.sound.persistQuiet disk)

/-! ### Blocks -/

theorem Entry.Grows.ite {p : Entry → Prop} [DecidablePred p] {f : Entry → Entry}
    (grows : ∀ m : Entry, m.Grows (f m)) (m : Entry) : m.Grows (if p m then f m else m) := by
  split
  · exact grows m
  · exact .refl m

theorem grows_evicted (m : Entry) : m.Grows { m with evicted := true } :=
  ⟨rfl, rfl, rfl, fun _ => id, fun _ => id, fun _ => rfl, id⟩

theorem grows_noticed (m : Entry) : m.Grows { m with noticed := true } :=
  ⟨rfl, rfl, rfl, fun _ => id, fun _ => id, id, fun _ => rfl⟩

theorem grows_stamped (epoch : Option Int) (m : Entry) :
    m.Grows { m with stamps := m.stamps ++ [epoch] } :=
  ⟨rfl, rfl, rfl, fun _ mem => List.mem_append_left _ mem, fun _ => id, id, id⟩

theorem grows_consumed (epoch : Option Int) (m : Entry) :
    m.Grows { m with consumed := m.consumed ++ [epoch] } :=
  ⟨rfl, rfl, rfl, fun _ => id, fun _ mem => List.mem_append_left _ mem, id, id⟩

theorem Sound.append (h : Sound w) {env : Envelope} (number : env.seq = w.next_seq)
    (tame : env.Tame) : Stays w (w.append env) where
  sound :=
    { memory := h.memory.append (fun e mem => number ▸ h.fresh e mem) tame
      disk := h.disk
      fresh := by
        intro e mem
        rcases List.mem_append.mp mem with old | new
        · exact Int.lt_of_lt_of_le (h.fresh e old) (by simp only [World.append]; omega)
        · obtain rfl := List.mem_singleton.mp new
          simp only [World.append]
          omega
      order := h.order
      loaded := h.loaded }
  doomed := fun n held => ⟨by simp only [World.append]; have := held.1; omega, held.2⟩

theorem Sound.recordDropNotice (h : Sound w) {copy : Text} (tame : JsonText.Tame copy)
    (tg : Option Int) (i : Input) : Stays w (recordDropNotice copy tg i w).2 := by
  refine Stays.persistQuiet (h.append rfl ⟨?_, ?_⟩) i.disk
  · exact fun c mem => absurd mem (List.not_mem_nil)
  · rintro t ⟨⟩
    exact tame

theorem pick_mem {better : Int → Int → Bool} {es : List Envelope} (found : pick better es = some e) :
    e ∈ es := by
  induction es generalizing e with
  | nil => simp [pick] at found
  | cons f rest ih =>
    rw [pick] at found
    split at found
    case h_1 =>
      obtain rfl := Option.some.inj found
      exact List.mem_cons_self
    case h_2 b picked =>
      split at found
      case isTrue =>
        obtain rfl := Option.some.inj found
        exact List.mem_cons_of_mem _ (ih picked)
      case isFalse =>
        obtain rfl := Option.some.inj found
        exact List.mem_cons_self

theorem victim_mem {redirect : Bool} (found : w.victim redirect = some e) : e ∈ w.envelopes := by
  rw [World.victim] at found
  split at found
  case isTrue => exact List.mem_of_mem_filter (List.mem_of_mem_filter (pick_mem found))
  case isFalse => simp at found

def World.evicts (w : World X) : Option Envelope → World X
  | none => w
  | some v => w.mark v.seq ({ · with evicted := true })

theorem Sound.evict (h : Sound w) (victim : Option Envelope) :
    Stays w ((w.evict victim).evicts victim) := by
  cases victim with
  | none => exact h.refl
  | some v =>
    refine h.map (Entry.Grows.ite grows_evicted) ?_ ?_ ?_
    · intro e
      split <;> rfl
    · intro e tame
      split
      · exact tame
      · exact tame
    · intro e here m mem kept
      by_cases own : e.seq = v.seq
      · rw [if_pos own, if_pos (kept.seq.symm.trans own)]
        exact .inr ⟨kept.seq, kept.text, kept.priority, kept.live, .inr ⟨rfl, rfl⟩, kept.stamp⟩
      · rw [if_neg own, if_neg (kept.seq ▸ own)]
        exact .inr kept

theorem noteEviction_standing {victim : Option Envelope}
    (stands : ∀ v, victim = some v → ∃ e ∈ w.envelopes, e.seq = v.seq ∧ e.notice = .pending) :
    w.noteEviction victim = w.evicts victim := by
  cases victim with
  | none => rfl
  | some v =>
    obtain ⟨e, mem, same, pending⟩ := stands v rfl
    refine if_pos (List.any_eq_true.mpr ⟨e, mem, ?_⟩)
    simp [same, pending]

theorem noteEviction_accepted {victim : Option Envelope}
    (stands : ∀ v, victim = some v → ∃ e ∈ w.envelopes, e.seq = v.seq ∧ e.notice = .pending)
    {m : Entry} (other : ∀ v, victim = some v → v.seq ≠ m.seq) :
    (w.accepted m).noteEviction victim = (w.evicts victim).accepted m := by
  have standing : ∀ v, victim = some v →
      ∃ e ∈ (w.accepted m).envelopes, e.seq = v.seq ∧ e.notice = .pending := stands
  rw [noteEviction_standing standing]
  cases victim with
  | none => rfl
  | some v => simp [World.evicts, World.mark, World.accepted, (other v rfl).symm]

theorem evict_stands {victim : Option Envelope}
    (inside : ∀ v, victim = some v → v ∈ w.envelopes) :
    ∀ v, victim = some v →
      ∃ e ∈ (w.evict victim).envelopes, e.seq = v.seq ∧ e.notice = .pending := by
  rintro v rfl
  refine ⟨_, List.mem_map_of_mem (inside v rfl), ?_⟩
  simp

theorem Sound.accepted (h : Sound w) {m : Entry} (live : ∃ e ∈ w.envelopes, Kept m e)
    (written : ∃ e ∈ w.saved, Kept m e) (last : ∀ m' ∈ w.ledger, m'.Done ∨ m'.seq < m.seq) :
    Sound (w.accepted m) where
  memory := h.memory.accept live
  disk := h.disk.accept written
  fresh := h.fresh
  order := by
    refine List.pairwise_append.mpr ⟨h.order, List.pairwise_singleton _ _, ?_⟩
    intro m' mem m'' same
    obtain rfl := List.mem_singleton.mp same
    exact (last m' mem).imp_right .inr
  loaded := h.loaded

theorem Doomed.accepted {n : Int} (held : Doomed n w) {m : Entry} (other : n ≠ m.seq) :
    Doomed n (w.accepted m) := by
  refine ⟨held.1, fun m' mem same => ?_⟩
  rcases List.mem_append.mp mem with old | new
  · exact held.2 m' old same
  · obtain rfl := List.mem_singleton.mp new
    exact absurd same.symm other

theorem unevict_notices (tg : Option Int) (es : List Envelope) :
    List.Forall₂ (fun e e' => e' = e ∨ e' = { e with notice := .none }) es (unevict tg es) := by
  induction es with
  | nil => exact .nil
  | cons e rest ih =>
    rw [unevict]
    split
    case isTrue => exact .cons (.inr rfl) (List.forall₂_same.mpr fun _ _ => .inl rfl)
    case isFalse => exact .cons (.inl rfl) ih

section
variable (h : Sound w)
include h

theorem Sound.spend {next : Int} (later : w.next_seq ≤ next) (dirty : Bool) :
    Stays w { w with next_seq := next, persist_dirty := dirty } where
  sound := { h with fresh := fun e mem => Int.lt_of_lt_of_le (h.fresh e mem) later }
  doomed := fun _ held => ⟨Int.lt_of_lt_of_le held.1 later, held.2⟩

theorem Sound.rollback (victim : Option Envelope) (env : Envelope) :
    Stays w (World.noteEviction (World.rollback
      { (w.evict victim).append env with persist_dirty := true } victim) victim) := by
  cases victim with
  | none =>
    have same : (World.noteEviction (World.rollback
        { (w.evict none).append env with persist_dirty := true } none) none) =
        { w with next_seq := w.next_seq + 1, persist_dirty := true } := by
      simp [World.noteEviction, World.rollback, World.append, World.evict]
    rw [same]
    exact h.spend (by omega) true
  | some v =>
    -- the list with the eviction, and what taking it back makes of it
    let es := w.envelopes.map fun e => if e.seq = v.seq then { e with notice := .pending } else e
    let back := unevict v.tg_message_id es
    let owed : Bool := back.any fun e => e.seq = v.seq && e.notice = .pending
    let g : Entry → Entry := fun m => if owed ∧ m.seq = v.seq then { m with evicted := true } else m
    have ends : (World.noteEviction (World.rollback
        { (w.evict (some v)).append env with persist_dirty := true } (some v)) (some v)) =
        { w with
          envelopes := back, ledger := w.ledger.map g, next_seq := w.next_seq + 1,
          persist_dirty := true } := by
      have list : (World.rollback { (w.evict (some v)).append env with persist_dirty := true }
          (some v)) =
          { w with envelopes := back, next_seq := w.next_seq + 1, persist_dirty := true } := by
        simp [World.rollback, World.append, World.evict, World.modify, back, es]
      rw [list, World.noteEviction]
      cases standing : owed with
      | true =>
        rw [if_pos (by simpa [owed] using standing)]
        simp [World.mark, g, standing]
      | false =>
        rw [if_neg (by simpa [owed] using standing)]
        have idle : g = id := funext fun m => by simp [g, standing]
        simp [idle]
    rw [ends]
    have grows : ∀ m : Entry, m.Grows (g m) :=
      Entry.Grows.ite (p := fun m => owed = true ∧ m.seq = v.seq) grows_evicted
    have rewritten : Stays w { w with envelopes := back, ledger := w.ledger.map g } := by
      refine h.rewrite grows ?_
      have length : es.length = w.envelopes.length := List.length_map ..
      have undone := unevict_notices v.tg_message_id es
      refine List.forall₂_iff_get.mpr ⟨length.symm.trans undone.length_eq, fun n inside there => ?_⟩
      have both := undone.get (length ▸ inside) there
      have mem : back.get ⟨n, there⟩ ∈ back := List.get_mem ..
      have first : es.get ⟨n, length ▸ inside⟩ =
          if (w.envelopes.get ⟨n, inside⟩).seq = v.seq then
            { w.envelopes.get ⟨n, inside⟩ with notice := .pending }
          else w.envelopes.get ⟨n, inside⟩ := by simp [es]
      rw [first] at both
      generalize back.get ⟨n, there⟩ = e' at both mem
      generalize w.envelopes.get ⟨n, inside⟩ = e at both
      refine ⟨?_, fun tame => ?_, fun m _ kept => .inr ?_⟩
      · rcases both with rfl | rfl <;> split <;> rfl
      · rcases both with rfl | rfl <;> split <;> exact tame
      · have grown : Kept (g m) e := kept.grow (grows m)
        rcases both with rfl | rfl
        · by_cases own : e.seq = v.seq
          · rw [if_pos own] at mem ⊢
            have standing : owed = true := List.any_eq_true.mpr ⟨_, mem, by simp [own]⟩
            have evicted : (g m).evicted = true := by
              simp only [g, if_pos (And.intro standing (kept.seq.symm.trans own))]
            exact ⟨grown.seq, grown.text, grown.priority, grown.live, .inr ⟨rfl, evicted⟩,
              grown.stamp⟩
          · rw [if_neg own]
            exact grown
        · by_cases own : e.seq = v.seq
          · rw [if_pos own]
            exact ⟨grown.seq, grown.text, grown.priority, grown.live, .inl rfl, grown.stamp⟩
          · rw [if_neg own]
            exact ⟨grown.seq, grown.text, grown.priority, grown.live, .inl rfl, grown.stamp⟩
    exact rewritten.trans
      (rewritten.sound.spend (show w.next_seq ≤ w.next_seq + 1 by omega) true)

theorem Sound.accept {text : Text} (tame : JsonText.Tame text) (tg : Option Int)
    (is_initial redirect : Bool) (i : Input) :
    Stays w (accept text tg is_initial redirect i w).2 := by
  have inside : ∀ v, w.victim redirect = some v → v ∈ w.envelopes := fun v => victim_mem
  simp only [InboundSpool.accept]
  generalize w.victim redirect = victim at inside ⊢
  generalize made : w.envelope text tg is_initial redirect i.time = env
  have number : env.seq = w.next_seq := made ▸ rfl
  have kept : Kept { seq := env.seq, text := text, priority := redirect } env := by
    subst made
    exact ⟨rfl, rfl, rfl, by simp [World.envelope], .inl rfl, by simp [World.envelope]⟩
  have clean : env.Tame := by
    subst made
    exact ⟨tame, by simp [World.envelope]⟩
  -- the history notes the eviction first: its envelope stays in the list whatever the write does
  have evicted := h.evict victim
  have grown : Stays w (((w.evict victim).append env).evicts victim) := by
    cases victim with
    | none => exact h.append number clean
    | some v => exact evicted.trans (evicted.sound.append number clean)
  have stands : ∀ v, victim = some v →
      ∃ e ∈ ((w.evict victim).append env).envelopes, e.seq = v.seq ∧ e.notice = .pending := by
    intro v same
    obtain ⟨e, mem, here⟩ := evict_stands inside v same
    exact ⟨e, List.mem_append_left _ mem, here⟩
  rcases persist_cases i.disk ((w.evict victim).append env) with
    ⟨file, written, saved⟩ | failed | failed
  · rw [saved]
    have standing : ∀ v, victim = some v →
        ∃ e ∈ (((w.evict victim).append env).store file).envelopes,
          e.seq = v.seq ∧ e.notice = .pending := stands
    have list : (((w.evict victim).append env).evicts victim).envelopes =
        ((w.evict victim).append env).envelopes := by cases victim <;> rfl
    have ends : (((w.evict victim).append env).store file).evicts victim =
        (((w.evict victim).append env).evicts victim).store file := by cases victim <;> rfl
    change Stays w ((World.accepted _ _).noteEviction victim)
    rw [noteEviction_accepted standing fun v same =>
      Int.ne_of_lt (number ▸ h.fresh v (inside v same)), ends]
    have stored : Stays _ (World.store _ file) := grown.sound.written (by rw [← written, list])
    have here : ∃ e ∈ (((w.evict victim).append env).evicts victim).envelopes,
        Kept { seq := env.seq, text := text, priority := redirect } e :=
      ⟨env, list ▸ List.mem_append_right _ (List.mem_singleton_self env), kept⟩
    refine ⟨stored.sound.accepted here here fun m' mem => ?_, fun n held => ?_⟩
    · have old : m' ∈ ((w.evict victim).evicts victim).ledger := by cases victim <;> exact mem
      have next : ((w.evict victim).evicts victim).next_seq = w.next_seq := by
        cases victim <;> rfl
      refine (evicted.sound.memory.kept m' old).imp_right fun ⟨e, there, own⟩ => ?_
      have older := evicted.sound.fresh e there
      rwa [next, ← number, own.seq] at older
    · refine (stored.doomed n (grown.doomed n held)).accepted ?_
      exact Int.ne_of_lt (number ▸ held.1)
  · rw [failed]
    exact h.rollback victim env
  · rw [failed]
    change Stays w (World.noteEviction _ victim)
    rw [noteEviction_standing stands]
    exact grown

theorem Sound.offer {text : Text} (tame : JsonText.Tame text) (tg : Option Int)
    (is_initial : Bool) (i : Input) : Stays w (offer text tg is_initial i w).2 := by
  rw [InboundSpool.offer]
  split
  case h_1 copy full =>
    refine h.recordDropNotice ?_ tg i
    split at full
    case isTrue =>
      obtain ⟨-, same⟩ := Option.ite_none_right_eq_some.mp full
      obtain rfl := Option.some.inj same
      exact tame_str (by decide +kernel)
    case isFalse =>
      obtain ⟨-, same⟩ := Option.ite_none_right_eq_some.mp full
      obtain rfl := Option.some.inj same
      exact tame_str (by decide +kernel)
  case h_2 => exact h.accept tame tg is_initial _ i

theorem Sound.promote (seq : Int) (i : Input) : Stays w (promote seq i w).2 := by
  rw [InboundSpool.promote]
  split
  case h_1 => exact h.refl
  case h_2 mid _ =>
    refine (h.modify (fun e => ?_) (fun e tame => ?_) fun e _ m _ kept => .inr ?_).persistQuiet i.disk
    · split <;> rfl
    · split <;> exact tame
    · split
      · exact ⟨kept.seq, kept.text, kept.priority, kept.live, kept.notice, kept.stamp⟩
      · exact kept

theorem Sound.doomed (here : e ∈ w.envelopes) (owes : e.notice = .pending) : Doomed e.seq w := by
  refine ⟨h.fresh e here, fun m mem same => ?_⟩
  refine (h.memory.kept m mem).imp_right fun ⟨f, there, kept⟩ => ?_
  obtain rfl := h.memory.unique here there (same.symm.trans kept.seq.symm)
  rcases kept.notice with quiet | ⟨-, evicted⟩
  · simp [owes] at quiet
  · exact evicted

theorem Sound.sentNotice {seq : Int} (doomed : Doomed seq w) (i : Input) :
    Stays w (sentNotice seq i w).2 := by
  rw [InboundSpool.sentNotice]
  cases i.ok with
  | false => exact h.refl
  | true =>
    refine h.map (Entry.Grows.ite grows_noticed) (fun e => ?_) (fun e tame => ?_)
      fun e _ m mem kept => ?_
    · split <;> rfl
    · split <;> exact tame
    · by_cases own : e.seq = seq
      · have same := kept.seq.symm.trans own
        rw [if_pos same]
        refine .inl ((doomed.2 m mem same).elim (·.grow (grows_noticed m)) fun evicted => ?_)
        exact .inr ⟨evicted, rfl⟩
      · rw [if_neg own, if_neg (kept.seq ▸ own)]
        exact .inr kept

theorem Sound.sentReceipt (seq : Int) (i : Input) : Stays w (sentReceipt seq i w).2 := by
  rw [InboundSpool.sentReceipt]
  cases i.ok with
  | false => exact h.refl
  | true =>
    refine h.modify (fun e => ?_) (fun e tame => ?_) fun e _ m _ kept => .inr ?_
    · split <;> rfl
    · split <;> exact tame
    · split
      · exact ⟨kept.seq, kept.text, kept.priority, kept.live, kept.notice, kept.stamp⟩
      · exact kept

theorem Sound.endFlush (changed : Bool) (i : Input) : Stays w (endFlush changed i w).2 := by
  cases changed with
  | true => exact h.prune.persistQuiet i.disk
  | false =>
    simp only [InboundSpool.endFlush, Bool.false_eq_true, if_false, Bool.false_or]
    split
    case isTrue => exact h.persistQuiet i.disk
    case isFalse => exact h.refl

theorem Sound.revert (i : Input) : Stays w (revert i w).2 := by
  have queued := h.modify (f := fun e => if e.state = .delivered then
      { e with state := .queued, delivery_epoch := none } else e)
    (fun e => by split <;> rfl) (fun e tame => by split <;> exact tame) fun e _ m _ kept => .inr (by
      split
      · exact ⟨kept.seq, kept.text, kept.priority, by simp, kept.notice, by simp⟩
      · exact kept)
  simp only [InboundSpool.revert]
  split
  case isTrue => exact queued.persistQuiet i.disk
  case isFalse => exact queued

theorem Sound.arm (i : Input) : Stays w (arm i w).2 := by
  have armed : Sound { w with reader_ready := true, armed := w.armed + 1 } := { h with }
  exact ⟨(armed.revert i).sound, (armed.revert i).doomed⟩

theorem Sound.consume (i : Input) : Stays w (consume i w).2 := by
  simp only [InboundSpool.consume]
  split
  case isFalse => exact h.refl
  case isTrue =>
    have grows : ∀ m : Entry, m.Grows (if w.envelopes.any (fun e => e.seq = m.seq &&
        e.isDue w.current_epoch) then { m with consumed := m.consumed ++ [w.current_epoch] }
        else m) :=
      fun m => by
        split
        · exact grows_consumed _ m
        · exact .refl m
    have taken := h.map (f := fun e => if e.isDue w.current_epoch then
        { e with state := .consumed } else e) grows (fun e => by split <;> rfl)
      (fun e tame => by split <;> exact tame) fun e here m mem kept => by
        by_cases due : e.isDue w.current_epoch = true
        · have any : (w.envelopes.any fun e => e.seq = m.seq && e.isDue w.current_epoch) = true :=
            List.any_eq_true.mpr ⟨e, here, by simp [kept.seq, due]⟩
          simp only [Envelope.isDue, Bool.and_eq_true, decide_eq_true_eq] at due
          rw [if_pos any]
          refine .inl (.inl ⟨w.current_epoch, by simp, ?_⟩)
          exact due.2 ▸ kept.stamp due.1
        · rw [if_neg due]
          exact .inr (kept.grow (grows m))
    exact (taken.trans taken.sound.prune).persistQuiet i.disk

theorem Sound.deliver (e : Envelope) (i : Input) : Stays w (deliver e i w).2 := by
  rw [InboundSpool.deliver]
  cases i.ok with
  | false => exact h.refl
  | true =>
    have marked := h.map (f := fun f => if f.seq = e.seq then
        { f with state := .delivered, delivery_epoch := w.current_epoch } else f)
      (Entry.Grows.ite (p := fun m => m.seq = e.seq) (grows_stamped w.current_epoch))
      (fun e => by split <;> rfl) (fun e tame => by split <;> exact tame) fun f _ m _ kept => .inr (by
        by_cases own : f.seq = e.seq
        · rw [if_pos own, if_pos (kept.seq.symm.trans own)]
          exact ⟨kept.seq, kept.text, kept.priority, by simp, kept.notice, by simp⟩
        · rw [if_neg own, if_neg (kept.seq ▸ own)]
          exact kept)
    have ended : Stays w (w.delivered e) := ⟨{ marked.sound with }, marked.doomed⟩
    exact ended.persistQuiet i.disk

end

/-! ### Tasks -/

theorem contract_free (w : World X) : ¬ (contract X).taken w := id

theorem keeps_stays {α : Type} {f : Block X α} (stays : ∀ i v, Sound v → Stays v (f i v).2) :
    Keeps (contract X) false (Co.block f) w fun _ _ _ => True :=
  keeps_block fun v _ sound _ i =>
    ⟨(stays i v sound).sound, (stays i v sound).doomed, fun _ _ _ => trivial⟩

theorem keeps_done {α : Type} {r : Except Raised α} :
    Keeps (contract X) false (.done r : Task X α) w fun _ _ _ => True :=
  fun _ _ _ _ => trivial

theorem keeps_await : Keeps (contract X) false await_ w fun _ _ _ => True :=
  keeps_stays fun _ _ sound => sound.refl

theorem keeps_nextOwing (after : Option Int) :
    Keeps (contract X) false (nextOwing after) w fun r _ v =>
      ∀ e, r = .ok (some e) → e.notice = .pending → Doomed e.seq v := by
  refine keeps_step fun v _ sound _ i => ⟨sound, fun _ => id, fun u later _ e same owes => ?_⟩
  have found := Except.ok.inj same
  split at found
  case isTrue => simp at found
  case isFalse => exact later e.seq (sound.doomed (List.mem_of_find?_eq_some found) owes)

theorem keeps_sendOwed (owes : e.notice = .pending → Doomed e.seq w) :
    Keeps (contract X) false (sendOwed e) w fun _ _ _ => True := by
  refine keeps_step fun v later sound _ i => ?_
  have stays : Stays v
      ((if e.notice = .pending then sentNotice e.seq else sentReceipt e.seq) i v).2 := by
    split
    case isTrue pending => exact sound.sentNotice (later e.seq (owes pending)) i
    case isFalse => exact sound.sentReceipt e.seq i
  exact ⟨stays.sound, stays.doomed, fun _ _ _ => trivial⟩

theorem keeps_flushFrom (fuel : ℕ) (after : Option Int) (changed : Bool) (sound : Sound w) :
    Keeps (contract X) false (flushFrom fuel after changed) w fun _ _ _ => True := by
  induction fuel generalizing after changed w with
  | zero => exact keeps_done
  | succ fuel ih =>
    refine (keeps_nextOwing after).tokenless_bind contract_free sound fun next v soundV owes => ?_
    cases next with
    | none => exact keeps_stays fun i u soundU => soundU.endFlush changed i
    | some e =>
      exact (keeps_sendOwed (owes e rfl)).tokenless_bind contract_free soundV
        fun ok u soundU _ => ih (some e.seq) _ soundU

theorem keeps_flush (fuel : ℕ) (sound : Sound w) :
    Keeps (contract X) false (flush fuel) w fun _ _ _ => True :=
  keeps_flushFrom fuel none false sound

theorem keeps_pumpLoop (fuel : ℕ) (sound : Sound w) :
    Keeps (contract X) false (pumpLoop fuel) w fun _ _ _ => True := by
  induction fuel generalizing w with
  | zero => exact keeps_done
  | succ fuel ih =>
    have picked : Keeps (contract X) false (nextLine : Task X _) w fun _ _ _ => True :=
      keeps_stays fun _ _ sound => sound.refl
    refine picked.tokenless_bind contract_free sound fun next v soundV _ => ?_
    cases next with
    | none => exact keeps_done
    | some e =>
      refine (keeps_stays fun i u soundU => soundU.deliver e i).tokenless_bind contract_free soundV
        fun ok u soundU _ => ?_
      cases ok with
      | false => exact keeps_done
      | true =>
        refine keeps_await.tokenless_bind contract_free soundU fun _ t soundT _ => ?_
        exact keeps_await.tokenless_bind contract_free soundT fun _ t' soundT' _ => ih soundT'

theorem keeps_release : Keeps (contract X) false release w fun _ _ _ => True :=
  keeps_stays fun _ _ sound => ⟨{ sound with }, fun _ => id⟩

theorem keeps_pump (fuel : ℕ) (sound : Sound w) :
    Keeps (contract X) false (pump fuel) w fun _ _ _ => True := by
  have taken : Keeps (contract X) false (acquire : Task X Unit) w fun _ _ _ => True := by
    refine keeps_stays fun _ v soundV => ?_
    split
    · exact soundV.refl
    · exact ⟨{ soundV with }, fun _ => id⟩
  refine taken.tokenless_bind contract_free sound fun _ v soundV _ => ?_
  refine ((keeps_pumpLoop fuel soundV).tokenless_rescue contract_free soundV
    fun e q found u soundU => ?_).tokenless_bind contract_free soundV fun _ u _ _ => keeps_release
  obtain ⟨-, same⟩ := Option.ite_none_left_eq_some.mp found
  obtain rfl := Option.some.inj same
  exact keeps_release.tokenless_bind contract_free soundU fun _ _ _ _ => keeps_done

theorem keeps_hooks (is_initial : Bool) (seq : Int) (sound : Sound w) :
    Keeps (contract X) false (hooks is_initial seq) w fun _ _ _ => True := by
  cases is_initial with
  | true => exact keeps_done
  | false =>
    refine keeps_await.tokenless_bind contract_free sound fun _ v soundV _ => ?_
    refine keeps_await.tokenless_bind contract_free soundV fun _ u soundU _ => ?_
    refine (keeps_stays fun i t soundT => soundT.promote seq i).tokenless_rescue contract_free
      soundU fun e q found t _ => ?_
    obtain ⟨-, same⟩ := Option.ite_none_right_eq_some.mp found
    obtain rfl := Option.some.inj same
    exact keeps_done

theorem keeps_enqueue (fuel : ℕ) {text : Text} (tame : JsonText.Tame text) (tg : Option Int)
    (is_initial : Bool) (sound : Sound w) :
    Keeps (contract X) false (enqueue fuel text tg is_initial) w fun _ _ _ => True := by
  refine (keeps_stays fun i v soundV => soundV.offer tame tg is_initial i).tokenless_bind
    contract_free sound fun admission v soundV _ => ?_
  cases admission with
  | dropped =>
    exact (keeps_flush fuel soundV).tokenless_bind contract_free soundV fun _ _ _ _ => keeps_done
  | failed => exact keeps_await.tokenless_bind contract_free soundV fun _ _ _ _ => keeps_done
  | accepted seq victim =>
    refine (keeps_hooks is_initial seq soundV).tokenless_bind contract_free soundV
      fun _ u soundU _ => ?_
    refine (keeps_flush fuel soundU).tokenless_bind contract_free soundU fun _ t soundT _ => ?_
    exact (keeps_pump fuel soundT).tokenless_bind contract_free soundT fun _ _ _ _ => keeps_done

/-! ### Runs -/

/-- What outside the spool sets: whether a turn runs, and the epoch of the current process. -/
structure Driver where
  turn_running : Bool
  current_epoch : Option Int

inductive Call
  | enqueue (text : Text) (tg : Option Int) (is_initial : Bool)
  | on_spawn
  | on_turn_start
  | on_turn_end
  | recover
  | drain

def Call.program (c : Call × ℕ) : Task X Unit :=
  match c.1 with
  | .enqueue text tg is_initial => do
      let _ ← InboundSpool.enqueue c.2 text tg is_initial
  | .on_spawn => InboundSpool.on_spawn c.2
  | .on_turn_start => InboundSpool.on_turn_start c.2
  | .on_turn_end => InboundSpool.on_turn_end c.2
  | .recover => InboundSpool.recover c.2
  | .drain => InboundSpool.drain c.2

def engagement : System Driver (Call × ℕ) Input (World Unit) Raised where
  env d w := { w with turn_running := d.turn_running, current_epoch := d.current_epoch }
  program := Call.program
  restart := World.restart

def Gentle (l : Action Driver (Call × ℕ) Input)
    (_ : Pool Input (World Unit) Raised) : Prop :=
  ∀ text tg is_initial fuel, l = .start (.enqueue text tg is_initial, fuel) → JsonText.Tame text

theorem le_foldl_max (ns : List Int) (a : Int) :
    a ≤ ns.foldl max a ∧ ∀ n ∈ ns, n ≤ ns.foldl max a := by
  induction ns generalizing a with
  | nil => exact ⟨Int.le_refl a, by simp⟩
  | cons n ns ih =>
    obtain ⟨base, rest⟩ := ih (max a n)
    refine ⟨Int.le_trans (Int.le_max_left a n) base, List.forall_mem_cons.mpr ⟨?_, rest⟩⟩
    exact Int.le_trans (Int.le_max_right a n) base

theorem Sound.restart (h : Sound w) : Sound w.restart where
  memory := by
    simp only [World.restart, h.loaded]
    exact h.disk
  disk := h.disk
  fresh := by
    intro e mem
    have most := (le_foldl_max ((load w.file).map Envelope.seq) (-1)).2 e.seq
      (List.mem_map_of_mem mem)
    exact Int.lt_add_one_of_le most
  order := h.order
  loaded := h.loaded

theorem Call.keeps (c : Call × ℕ) (sound : Sound w)
    (tame : ∀ text tg is_initial, c.1 = .enqueue text tg is_initial → JsonText.Tame text) :
    Keeps (contract X) false (Call.program c) w fun _ _ _ => True := by
  obtain ⟨call, fuel⟩ := c
  cases call with
  | enqueue text tg is_initial =>
    exact (keeps_enqueue fuel (tame text tg is_initial rfl) tg is_initial sound).tokenless_bind
      contract_free sound fun _ _ _ _ => keeps_done
  | on_spawn =>
    exact (keeps_stays fun i v soundV => soundV.arm i).tokenless_bind contract_free sound
      fun _ v soundV _ => keeps_pump fuel soundV
  | on_turn_start =>
    exact (keeps_stays fun i v soundV => soundV.consume i).tokenless_bind contract_free sound
      fun _ v soundV _ => keeps_flush fuel soundV
  | on_turn_end => exact keeps_flush fuel sound
  | recover =>
    refine (keeps_stays fun i v soundV => soundV.revert i).tokenless_bind contract_free sound
      fun _ v soundV _ => ?_
    exact (keeps_flush fuel soundV).tokenless_bind contract_free soundV
      fun _ u soundU _ => keeps_pump fuel soundU
  | drain => exact keeps_flush fuel sound

theorem sound_empty : Sound ({ outside := () } : World Unit) :=
  ⟨⟨.nil, by simp, by simp⟩, ⟨.nil, by simp, by simp⟩, by simp, .nil, rfl⟩

/-- Every accepted message is done or stands in the list, both in the order of acceptance, and
the file gives back what was last written. -/
structure Preserved (w : World X) : Prop where
  kept : ∀ m ∈ w.ledger, m.Done ∨ ∃ e ∈ w.envelopes, Kept m e
  sorted : w.envelopes.Pairwise (·.seq < ·.seq)
  order : w.ledger.Pairwise fun m m' => m.Done ∨ m'.Done ∨ m.seq < m'.seq
  loaded : load w.file = w.saved
  written : ∀ disk, (persist disk w).1 = .ok () → load (persist disk w).2.file = w.envelopes

theorem Sound.preserved (h : Sound w) : Preserved w where
  kept := h.memory.kept
  sorted := h.memory.sorted
  order := h.order
  loaded := h.loaded
  written := by
    intro disk fine
    rcases persist_cases disk w with ⟨text, written, saved⟩ | failed | failed
    · rw [saved]
      exact load_payload h.memory.tame written
    · simp [failed] at fine
    · simp [failed] at fine

/-- No accepted message is lost while no text holds a separator that JSON writes raw. -/
theorem accepted_preserved {ls : List (Action Driver (Call × ℕ) Input)}
    {c : Pool Input (World Unit) Raised}
    (run : Runs engagement.step Gentle ⟨{ outside := () }, []⟩ ls c) : Preserved c.state := by
  have start : Guarded (contract Unit)
      (⟨{ outside := () }, []⟩ : Pool Input (World Unit) Raised) :=
    ⟨sound_empty, none, by simp, by simp⟩
  have guarded : Guarded (contract Unit) c := by
    refine guarded_of_runs run start (fun d c _ sound => ?_) (fun call c gentle sound => ?_)
      fun c _ sound => sound.restart
    · exact ⟨{ (sound : Sound c.state) with }, fun _ => id⟩
    · exact Call.keeps call sound fun text tg is_initial same =>
        gentle text tg is_initial call.2 (by rw [← same])
  exact guarded.inv.preserved

/-- The accepted message of a run that enqueues `text` as the task of an engagement, lets the
call return, and restarts. -/
def enqueued (text : Text) : List (Action Driver (Call × ℕ) Input) :=
  .start (.enqueue text none true, 1) ::
    List.replicate 6 (.advance 0 ⟨true, .saved, zeroFloat, none, false⟩) ++ [.crash]

theorem gentle_enqueued {text : Text} (tame : JsonText.Tame text) :
    ∀ l ∈ enqueued text, ∀ c, Gentle l c := by
  rintro l mem c text' tg is_initial fuel rfl
  simp only [enqueued, List.cons_append, List.mem_cons, List.mem_append, List.mem_replicate,
    List.not_mem_nil, or_false, Action.start.injEq, Prod.mk.injEq, Call.enqueue.injEq, reduceCtorEq,
    and_false] at mem
  exact mem.1.1 ▸ tame

theorem hello_preserved : Preserved
    ((enqueued (str "hello")).foldl (fun c l => engagement.step l c)
      ⟨{ outside := () }, []⟩).state ∧
    (((enqueued (str "hello")).foldl (fun c l => engagement.step l c)
      ⟨{ outside := () }, []⟩).state.ledger.length,
    ((enqueued (str "hello")).foldl (fun c l => engagement.step l c)
      ⟨{ outside := () }, []⟩).state.envelopes.length) = (1, 1) :=
  ⟨accepted_preserved
      (Runs.foldl (gentle_enqueued (tame_str (by decide +kernel))) ⟨{ outside := () }, []⟩),
    by decide +kernel⟩

/-- A line separator tears the line of the message: after the restart it is gone. -/
theorem separator_lost : ¬ Preserved
    ((enqueued (str "a\u2028b")).foldl (fun c l => engagement.step l c)
      ⟨{ outside := () }, []⟩).state := by
  have ends : ((enqueued (str "a\u2028b")).foldl (fun c l => engagement.step l c)
      ⟨{ outside := () }, []⟩).state.ledger.length = 1 ∧
      ((enqueued (str "a\u2028b")).foldl (fun c l => engagement.step l c)
      ⟨{ outside := () }, []⟩).state.envelopes.length = 0 ∧
      (((enqueued (str "a\u2028b")).foldl (fun c l => engagement.step l c)
      ⟨{ outside := () }, []⟩).state.ledger.all fun m => m.consumed.isEmpty && !m.evicted) = true := by
    decide +kernel
  generalize ((enqueued (str "a\u2028b")).foldl (fun c l => engagement.step l c)
      ⟨{ outside := () }, []⟩).state = w at ends
  obtain ⟨accepted, nothing, unread⟩ := ends
  rintro ⟨kept, -⟩
  obtain ⟨m, mem⟩ := List.exists_mem_of_length_pos (by rw [accepted]; decide : 0 < w.ledger.length)
  have fresh := List.all_eq_true.mp unread m mem
  simp only [Bool.and_eq_true, List.isEmpty_iff, Bool.not_eq_true'] at fresh
  rcases kept m mem with (⟨epoch, taken, -⟩ | ⟨evicted, -⟩) | ⟨e, here, -⟩
  · simp [fresh.1] at taken
  · simp [fresh.2] at evicted
  · simp [List.length_eq_zero_iff.mp nothing] at here

end Casa.InboundSpool
