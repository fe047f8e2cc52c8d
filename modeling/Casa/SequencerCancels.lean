import Casa.SequencerLedger

/-! Whether a cancelled send can still post. A tombstone is never armed again and never listed
again; but a walk keeps the list it took when it started, and `_post_intent_locked` does not look
at the state of the intent it is handed. So a cancel is final unless it lands on an intent that
the walk in progress has listed and not reached. -/

namespace Casa.SequencerCancels
open SequencerIntents SequencerWriter SequencerLedger StepRuns

section Tombstones
variable {k intentTimeout : Nat} {l m : Ledger}

/-- Intent `k` has been settled, and no walk that has it on its list is going to post it. -/
structure Dead (intentTimeout k : Nat) (l : Ledger) : Prop where
  known : k < l.registry.nextSeq
  settled : ∀ i ∈ l.registry.intents, i.seq = k → settled i.toProgress
  passed : ∀ walk, (walk, k) ∈ l.ahead → ∀ i ∈ l.registry.intents, i.seq = k →
    walk.due intentTimeout i = false

theorem Dead.not_listed (dead : Dead intentTimeout k l) : k ∉ l.registry.armedUnposted := by
  intro mem
  obtain ⟨i, inside, listed, same⟩ := IntentRegistry.mem_armedUnposted.mp mem
  simp only [SendIntent.armedUnposted, Bool.and_eq_true, decide_eq_true_eq] at listed
  rcases dead.settled i inside same with no | no
  · exact absurd (listed.1.1.1.symm.trans no) nofun
  · exact absurd (listed.1.1.1.symm.trans no) nofun

/-- Whether the watcher finds an intent due depends on nothing that changes once it is settled. -/
theorem due_of_frozen {walk : Walk} {i j : SendIntent} (ticket : j.toTicket = i.toTicket)
    (frozen : i.armedAt = j.armedAt ∧ i.slotMissed = j.slotMissed) :
    walk.due intentTimeout i = walk.due intentTimeout j := by
  unfold Walk.due
  rw [frozen.1, frozen.2, ticket]

theorem Dead.carry (dead : Dead intentTimeout k l)
    (come : ∀ i ∈ m.registry.intents, i.seq = k → ∃ j ∈ l.registry.intents,
      j.toTicket = i.toTicket ∧ Advances j.toProgress i.toProgress) :
    ∀ i ∈ m.registry.intents, i.seq = k → SequencerLedger.settled i.toProgress ∧
      ∀ walk, (walk, k) ∈ l.ahead → walk.due intentTimeout i = false := by
  intro i mem same
  obtain ⟨j, inside, ticket, advances⟩ := come i mem same
  have before : j.seq = k := (congrArg Ticket.seq ticket).trans same
  have done := dead.settled j inside before
  refine ⟨advances.settled done, fun walk listed => ?_⟩
  rw [due_of_frozen ticket (advances.frozen done)]
  exact dead.passed walk listed j inside before

theorem Dead.move (dead : Dead intentTimeout k l) (move : Moves intentTimeout l m) :
    Dead intentTimeout k m ∧ m.invoked.count k = l.invoked.count k := by
  have after := dead.carry (m := m) fun i mem same =>
    (move.intents mem).resolve_right fun new =>
      absurd dead.known (new.1.symm.trans same ▸ Nat.lt_irrefl _)
  have settled := fun i mem same => (after i mem same).1
  have known := Nat.lt_of_lt_of_le dead.known move.nextSeq
  have still : (∀ walk, (walk, k) ∈ m.ahead → (walk, k) ∈ l.ahead) →
      ∀ walk, (walk, k) ∈ m.ahead → ∀ i ∈ m.registry.intents, i.seq = k →
        walk.due intentTimeout i = false :=
    fun fewer walk mem i inside same => (after i inside same).2 walk (fewer walk mem)
  cases move with
  | register live now rid tool hash onRetire =>
    exact ⟨⟨known, settled, still fun _ mem => mem⟩, rfl⟩
  | touch j f mild => exact ⟨⟨known, settled, still fun _ mem => mem⟩, rfl⟩
  | resolve j mid f serving resolves => exact ⟨⟨known, settled, still fun _ mem => mem⟩, rfl⟩
  | release free => exact ⟨⟨known, settled, still nofun⟩, rfl⟩
  | pass entry rest free next =>
    exact ⟨⟨known, settled, still fun _ mem => next ▸ List.mem_cons_of_mem entry mem⟩, rfl⟩
  | list walk free =>
    refine ⟨⟨known, settled, fun walk mem => ?_⟩, rfl⟩
    obtain ⟨j, listed, same⟩ := List.mem_map.mp mem
    cases same
    exact absurd listed dead.not_listed
  | invoke walk j rest i free found next =>
    obtain ⟨inside, here⟩ := IntentRegistry.get?_eq_some_iff.mp found
    have other : j ≠ k := by
      rintro rfl
      rcases next with ⟨next, due⟩ | ⟨-, live⟩
      · have passed := dead.passed walk (next ▸ List.mem_cons_self) i inside here
        exact Bool.false_ne_true (passed.symm.trans due)
      · exact live (.inl (dead.settled i inside here))
    refine ⟨⟨known, settled, still fun walk mem => ?_⟩, ?_⟩
    · rcases next with ⟨next, -⟩ | ⟨rfl, -⟩
      · exact next ▸ List.mem_cons_of_mem _ mem
      · exact absurd mem List.not_mem_nil
    · rw [List.count_append, List.count_singleton, beq_eq_false_iff_ne.mpr other]
      rfl

theorem Dead.remove (dead : Dead intentTimeout k l) (removal : Removes l m) :
    Dead intentTimeout k m ∧ m.invoked.count k = l.invoked.count k := by
  have after := dead.carry (m := m) fun i mem _ => removal.intents mem
  have known : k < m.registry.nextSeq := removal.nextSeq ▸ dead.known
  cases removal <;> exact ⟨⟨known, fun i mem same => (after i mem same).1, nofun⟩, rfl⟩

variable {w v : World}

theorem Dead.step (dead : Dead intentTimeout k (ledger w)) (l : Label) :
    Dead intentTimeout k (ledger (step intentTimeout l w)) ∧
      (step intentTimeout l w).topic.invoked.count k = w.topic.invoked.count k := by
  refine (step_evolves l).keeps (J := fun m => Dead intentTimeout k m ∧
    m.invoked.count k = w.topic.invoked.count k) ⟨dead, rfl⟩ ?_ ?_
  · rintro l m ⟨dead, same⟩ move
    exact ⟨(dead.move move).1, (dead.move move).2.trans same⟩
  · rintro l m ⟨dead, same⟩ removal
    exact ⟨(dead.remove removal).1, (dead.remove removal).2.trans same⟩

theorem Dead.runs {allowed : Label → World → Prop} {ls : List Label}
    (run : Runs (SequencerWriter.step intentTimeout) allowed w ls v)
    (dead : Dead intentTimeout k (ledger w)) :
    v.topic.invoked.count k = w.topic.invoked.count k := by
  have kept := run.invariant (I := fun u => Dead intentTimeout k (ledger u) ∧
    u.topic.invoked.count k = w.topic.invoked.count k)
    (fun l u _ held => ⟨(held.1.step l).1, (held.1.step l).2.trans held.2⟩) ⟨dead, rfl⟩
  exact kept.2

end Tombstones

section Cancels
variable {k intentTimeout : Nat} {w v : World} {c : Call}

/-- The call tombstones intent `k`, whose poster is not being awaited. -/
def Cancels (s : Sequencer) (k : Nat) : Call → Prop
  | .cancelIntent rid => ∃ i, s.registry.byRequestId rid = some i ∧ i.seq = k ∧
      (i.state = .pending ∨ i.state = .armed) ∧ i.posting = false
  | .recordIntentCancelledNowait rid error message =>
      (recordIntentCancelledNowait rid (.refused error message) s).1 = .cancelled ∧
        ∃ i, s.registry.byRequestId rid = some i ∧ i.seq = k
  | _ => False

/-- The walk in progress has intent `k` on its list, has not reached it, and finds it due. -/
def willPost (intentTimeout k : Nat) (w : World) : Bool :=
  (Doing.ahead w.doing).any fun entry =>
    decide (entry.2 = k) && (w.seq.registry.get? k).any (entry.1.due intentTimeout)

theorem run_cancels (cancels : Cancels w.seq k c) :
    ∃ i f, i ∈ w.seq.registry.intents ∧ i.seq = k ∧ c.run w.seq = w.seq.progress k f ∧
      ∀ p, settled (f p) ∧ (f p).armedAt = p.armedAt ∧ (f p).slotMissed = p.slotMissed := by
  cases c with
  | cancelIntent rid =>
    obtain ⟨i, found, rfl, -⟩ := cancels
    refine ⟨i, Progress.cancel, IntentRegistry.mem_of_byRequestId found, rfl, ?_, ?_⟩
    · simp only [Call.run, cancelIntent, Sequencer.progressRequest, found]
    · exact fun p => ⟨settled_cancel p, armedAt_cancel p, slotMissed_cancel p⟩
  | recordIntentCancelledNowait rid error message =>
    obtain ⟨result, i, found, rfl⟩ := cancels
    refine ⟨i, fun p => { p.cancel with outcome := some (.refused error message) },
      IntentRegistry.mem_of_byRequestId found, rfl, ?_, ?_⟩
    · rcases recordIntentCancelledNowait_cases w.seq rid (.refused error message) with
        ⟨lost, -⟩ | ⟨j, also, -, -, effect⟩
      · exact absurd result lost
      · cases found.symm.trans also
        exact effect
    · exact fun p => ⟨settled_cancel p, armedAt_cancel p, slotMissed_cancel p⟩
  | _ => cases cancels

theorem dead_of_cancels (cancels : Cancels w.seq k c)
    (clear : willPost intentTimeout k w = false) :
    Dead intentTimeout k (ledger (step intentTimeout (.call c) w)) := by
  obtain ⟨i, f, mem, rfl, run, tombstone⟩ := run_cancels cancels
  have after : ∀ j ∈ (c.run w.seq).registry.intents, j.seq = i.seq →
      j.toTicket = i.toTicket ∧ settled j.toProgress ∧
        j.armedAt = i.armedAt ∧ j.slotMissed = i.slotMissed := by
    intro j inside same
    rw [run] at inside
    obtain ⟨o, before, rfl⟩ := IntentRegistry.mem_modify.mp inside
    rw [SendIntent.ticket_progress] at same
    obtain rfl := IntentRegistry.eq_of_seq before mem same
    simp only [SendIntent.progress, if_true]
    exact ⟨trivial, tombstone _⟩
  refine ⟨?_, fun j inside same => (after j inside same).2.1, fun walk listed j inside same => ?_⟩
  · change i.seq < (c.run w.seq).registry.nextSeq
    rw [run]
    exact w.seq.registry.fresh i mem
  · obtain ⟨ticket, -, frozen⟩ := after j inside same
    rw [due_of_frozen ticket.symm frozen]
    have found : w.seq.registry.get? i.seq = some i :=
      IntentRegistry.get?_eq_some_iff.mpr ⟨mem, rfl⟩
    have off := List.any_eq_false.mp clear (walk, i.seq) listed
    simpa [found] using off

/-- A cancel that does not land on an intent the walk in progress is still going to post is
final: along every later run the poster of that intent is not called again. -/
theorem cancelled_silent {ms : List Label} (cancels : Cancels w.seq k c)
    (clear : willPost intentTimeout k w = false)
    (later : Runs (step intentTimeout) (fun l u => scheduled l u = true)
      (step intentTimeout (.call c) w) ms v) :
    v.topic.invoked.count k = w.topic.invoked.count k := by
  have silent := Dead.runs later (dead_of_cancels cancels clear)
  exact silent

/-- Two asks are armed and the turn ends: the drain lists both and waits for the first poster. -/
def drainOfTwo : List Label :=
  [.call (.registerIntent "a" .ask "x" false), .call (.armIntent "a"),
    .call (.registerIntent "b" .ask "y" false), .call (.armIntent "b"),
    .start .drainAndPruneTurn, .proceed, .proceed]

def twoListed : World := drainOfTwo.foldl (fun w l => step 10 l w) {}

/-- The second ask's caller goes away while the first poster is awaited; the cancel takes
effect, the first post fails, and then the walk posts the second ask all the same. -/
theorem walk_posts_cancelled :
    Runs (step 10) (fun l u => scheduled l u = true) {} drainOfTwo twoListed ∧
    Cancels twoListed.seq 1 (.recordIntentCancelledNowait "b" "cancelled" none) ∧
    ∃ v ms, Runs (step 10) (fun l u => scheduled l u = true)
      (step 10 (.call (.recordIntentCancelledNowait "b" "cancelled" none)) twoListed) ms v ∧
      v.topic.invoked.count 1 ≠ twoListed.topic.invoked.count 1 := by
  refine ⟨Legal.runs ?_, ⟨rfl, _, rfl, rfl⟩, _, [.reply (.returns none), .proceed],
    Legal.runs ?_, ?_⟩
  · decide +kernel
  · decide +kernel
  · decide +kernel

/-- The same ask cancelled before the drain lists it stays silent. -/
theorem cancelled_before_drain :
    ∃ w : World, Cancels w.seq 0 (.cancelIntent "a") ∧ willPost 10 0 w = false ∧
      ∃ v, Runs (step 10) (fun l u => scheduled l u = true)
        (step 10 (.call (.cancelIntent "a")) w) [.start .drainAndPruneTurn, .proceed] v ∧
        v.topic.invoked.count 0 = w.topic.invoked.count 0 := by
  have legal : Legal (step 10) (fun l u => scheduled l u = true)
      (step 10 (.call (.cancelIntent "a")) ([Label.call (.registerIntent "a" .ask "x" false),
        .call (.armIntent "a")].foldl (fun w l => step 10 l w) {}))
      [.start .drainAndPruneTurn, .proceed] := by decide +kernel
  have cancels : Cancels ([Label.call (.registerIntent "a" .ask "x" false),
      .call (.armIntent "a")].foldl (fun w l => step 10 l w) {}).seq 0 (.cancelIntent "a") :=
    ⟨_, rfl, rfl, .inr rfl, rfl⟩
  exact ⟨_, cancels, rfl, _, legal.runs, cancelled_silent cancels rfl legal.runs⟩

end Cancels

end Casa.SequencerCancels
