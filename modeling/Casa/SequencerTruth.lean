import Casa.SequencerLedger

/-! What is true of the intents along every run: a poster is called at most once, a recorded
success is what the poster returned, what a drain or `terminalize` removes has its outcome, a
retirement hook fires when its intent leaves and not before, and after `terminalize` nothing is
sent but the completion. -/

namespace Casa.SequencerTruth
open SequencerIntents SequencerWriter SequencerLedger StepRuns

section Invariant
variable {intentTimeout : Nat} {l m : Ledger}

/-- Posters are called once, in the order in which their intents are spent. -/
structure Once (l : Ledger) : Prop where
  sound : ∀ i ∈ l.registry.intents, Sound i.toProgress
  known : ∀ k ∈ l.invoked, k < l.registry.nextSeq
  once : l.invoked.Nodup
  done : ∀ i ∈ l.registry.intents, i.seq ∈ l.invoked → spent i.toProgress ∨ l.current = some i.seq
  current : ∀ k, l.current = some k → k ∈ l.invoked
  distinct : (l.ahead.map (·.2)).Nodup
  waiting : ∀ e ∈ l.ahead, e.2 ∉ l.invoked ∧ e.2 < l.registry.nextSeq

theorem sound_empty : Sound {} := ⟨nofun, fun _ => by simp, rfl⟩

theorem not_spent_of_armedUnposted {i : SendIntent} (h : i.armedUnposted = true) :
    ¬ spent i.toProgress := by
  simp only [SendIntent.armedUnposted, Bool.and_eq_true, decide_eq_true_eq,
    Bool.not_eq_true'] at h
  obtain ⟨⟨⟨armed, -⟩, live⟩, -⟩ := h
  rintro ((no | no) | failed)
  · exact absurd (armed.symm.trans no) nofun
  · exact absurd (armed.symm.trans no) nofun
  · exact Bool.false_ne_true (live.symm.trans failed)

theorem Once.fresh (once : Once l) (free : l.current = none) {i : SendIntent}
    (mem : i ∈ l.registry.intents) (live : ¬ spent i.toProgress) : i.seq ∉ l.invoked := by
  intro called
  rcases once.done i mem called with done | serving
  · exact live done
  · rw [free] at serving
    cases serving

theorem Once.sounds (once : Once l) (move : Moves intentTimeout l m) :
    ∀ i ∈ m.registry.intents, Sound i.toProgress := by
  intro i mem
  rcases move.intents mem with ⟨j, inside, -, advances⟩ | ⟨-, new⟩
  · exact advances.sound (once.sound j inside)
  · exact new ▸ sound_empty

theorem Once.dones (once : Once l) (move : Moves intentTimeout l m) :
    ∀ i ∈ m.registry.intents, i.seq ∈ l.invoked →
      spent i.toProgress ∨ l.current = some i.seq := by
  intro i mem called
  rcases move.intents mem with ⟨j, inside, ticket, advances⟩ | ⟨new, -⟩
  · rw [← ticket] at called ⊢
    exact (once.done j inside called).imp_left advances.spent
  · exact absurd (once.known _ called) (new ▸ Nat.lt_irrefl _)

theorem Once.move (once : Once l) (move : Moves intentTimeout l m) : Once m := by
  have sound := once.sounds move
  have done := once.dones move
  have known : ∀ k ∈ l.invoked, k < m.registry.nextSeq :=
    fun k mem => Nat.lt_of_lt_of_le (once.known k mem) move.nextSeq
  have waiting : ∀ e ∈ l.ahead, e.2 ∉ l.invoked ∧ e.2 < m.registry.nextSeq :=
    fun e mem => (once.waiting e mem).imp_right fun low => Nat.lt_of_lt_of_le low move.nextSeq
  cases move with
  | register live now rid tool hash onRetire =>
    exact ⟨sound, known, once.once, done, once.current, once.distinct, waiting⟩
  | touch k f mild =>
    exact ⟨sound, known, once.once, done, once.current, once.distinct, waiting⟩
  | release free => exact ⟨sound, known, once.once, done, once.current, List.nodup_nil, nofun⟩
  | list walk free =>
    refine ⟨sound, known, once.once, done, once.current, ?_, fun e mem => ?_⟩
    · rw [List.map_map]
      exact (List.map_id _).symm ▸ IntentRegistry.nodup_armedUnposted
    · obtain ⟨k, listed, rfl⟩ := List.mem_map.mp mem
      obtain ⟨i, inside, armed, rfl⟩ := IntentRegistry.mem_armedUnposted.mp listed
      exact ⟨once.fresh free inside (not_spent_of_armedUnposted armed), l.registry.fresh i inside⟩
  | pass entry rest free next =>
    rw [next] at waiting
    have distinct := once.distinct
    rw [next, List.map_cons, List.nodup_cons] at distinct
    exact ⟨sound, known, once.once, done, once.current, distinct.2,
      fun e mem => waiting e (List.mem_cons_of_mem _ mem)⟩
  | invoke walk k rest i free found next =>
    obtain ⟨inside, rfl⟩ := IntentRegistry.get?_eq_some_iff.mp found
    -- nobody has called this poster, and nobody will on behalf of this walk
    have first : i.seq ∉ l.invoked ∧ i.seq ∉ rest.map (·.2) ∧ (rest.map (·.2)).Nodup ∧
        ∀ e ∈ rest, e.2 ∉ l.invoked ∧ e.2 < l.registry.nextSeq := by
      rcases next with ⟨next, -⟩ | ⟨rfl, live⟩
      · have distinct := once.distinct
        rw [next, List.map_cons, List.nodup_cons] at distinct
        rw [next] at waiting
        exact ⟨(waiting _ List.mem_cons_self).1, distinct.1, distinct.2,
          fun e mem => waiting e (List.mem_cons_of_mem _ mem)⟩
      · exact ⟨once.fresh free inside live, List.not_mem_nil, List.nodup_nil, nofun⟩
    obtain ⟨new, away, distinct, rest'⟩ := first
    refine ⟨sound, ?_, ?_, ?_, ?_, distinct, ?_⟩
    · intro k mem
      rcases List.mem_append.mp mem with old | now
      · exact known k old
      · exact List.mem_singleton.mp now ▸ l.registry.fresh i inside
    · exact once.once.append (List.nodup_singleton _) (List.disjoint_singleton.mpr new)
    · intro j mem called
      rcases List.mem_append.mp called with old | now
      · refine .inl ((done j mem old).resolve_right fun serving => ?_)
        rw [free] at serving
        cases serving
      · exact .inr (List.mem_singleton.mp now ▸ rfl)
    · rintro k ⟨⟩
      exact List.mem_append_right _ List.mem_cons_self
    · intro e mem
      refine ⟨fun called => ?_, (rest' e mem).2⟩
      rcases List.mem_append.mp called with old | now
      · exact (rest' e mem).1 old
      · exact away (List.mem_singleton.mp now ▸ List.mem_map_of_mem mem)
  | resolve k mid f serving resolves =>
    refine ⟨sound, known, once.once, fun i mem called => .inl ?_, nofun, once.distinct, waiting⟩
    rcases done i mem called with before | now
    · exact before
    · rw [serving] at now
      obtain ⟨j, inside, ticket, ⟨other, -⟩ | ⟨found, same⟩⟩ :=
        IntentRegistry.exists_of_mem_modify mem
      · exact absurd (ticket ▸ (Option.some.inj now).symm) other
      · exact same ▸ resolves.resolved j found (once.sound j inside)

theorem Once.remove (once : Once l) (removal : Removes l m) : Once m := by
  have known : ∀ k ∈ l.invoked, k < m.registry.nextSeq :=
    fun k mem => removal.nextSeq ▸ once.known k mem
  have sound : ∀ i ∈ m.registry.intents, Sound i.toProgress := by
    intro i mem
    obtain ⟨j, inside, -, advances⟩ := removal.intents mem
    exact advances.sound (once.sound j inside)
  have done : ∀ i ∈ m.registry.intents, i.seq ∈ l.invoked →
      spent i.toProgress ∨ l.current = some i.seq := by
    intro i mem called
    obtain ⟨j, inside, ticket, advances⟩ := removal.intents mem
    rw [← ticket] at called ⊢
    exact (once.done j inside called).imp_left advances.spent
  cases removal <;> exact ⟨sound, known, once.once, done, once.current, List.nodup_nil, nofun⟩

structure Honest (l : Ledger) : Prop where
  called : ∀ p ∈ l.returned, p.1 ∈ l.invoked
  single : (l.returned.map (·.1)).Nodup
  unanswered : ∀ k, l.current = some k → k ∉ l.returned.map (·.1)
  told : ∀ i, i ∈ l.registry.intents ∨ i ∈ l.gone → ∀ o, i.outcome = some o → o.ok = true →
    ∃ m, o.messageId = some m ∧ (i.seq, m) ∈ l.returned

theorem Honest.worked (honest : Honest l) {k : Nat} {f : Progress → Progress}
    {rs : List (Nat × MsgId)}
    (truth : ∀ j, l.registry.get? k = some j → ∀ o, (f j.toProgress).outcome = some o →
      o.ok = true → j.outcome = some o ∨ ∃ m, o.messageId = some m ∧ (k, m) ∈ rs) :
    ∀ i, i ∈ (l.registry.modify k f).intents ∨ i ∈ l.gone → ∀ o, i.outcome = some o →
      o.ok = true → ∃ m, o.messageId = some m ∧ (i.seq, m) ∈ l.returned ++ rs := by
  have old : ∀ i o, (i ∈ l.registry.intents ∨ i ∈ l.gone) → i.outcome = some o → o.ok = true →
      ∃ m, o.messageId = some m ∧ (i.seq, m) ∈ l.returned ++ rs := by
    intro i o mem has ok
    obtain ⟨m, same, told⟩ := honest.told i mem o has ok
    exact ⟨m, same, List.mem_append_left _ told⟩
  rintro i (mem | left) o has ok
  · obtain ⟨j, inside, ticket, ⟨-, same⟩ | ⟨found, same⟩⟩ :=
      IntentRegistry.exists_of_mem_modify mem
    · rw [← same] at has
      exact ticket ▸ old j o (.inl inside) has ok
    · rw [← same] at has
      rw [← ticket]
      rcases truth j found o has ok with before | ⟨m, now, told⟩
      · exact old j o (.inl inside) before ok
      · refine ⟨m, now, List.mem_append_right _ ?_⟩
        rw [(IntentRegistry.get?_eq_some_iff.mp found).2]
        exact told
  · exact old i o (.inr left) has ok

theorem Honest.move (honest : Honest l) (once : Once l) (move : Moves intentTimeout l m) :
    Honest m := by
  cases move with
  | register live now rid tool hash onRetire =>
    refine ⟨honest.called, honest.single, honest.unanswered, ?_⟩
    rintro i (mem | left) o has ok
    · rcases IntentRegistry.register_cases l.registry now rid tool hash onRetire with same | new
      · exact honest.told i (.inl (same ▸ mem)) o has ok
      · rw [new.2, List.mem_append, List.mem_singleton] at mem
        rcases mem with old | rfl
        · exact honest.told i (.inl old) o has ok
        · cases has
    · exact honest.told i (.inr left) o has ok
  | touch k f mild =>
    refine ⟨honest.called, honest.single, honest.unanswered, ?_⟩
    rw [← List.append_nil l.returned]
    exact honest.worked fun j found o has ok => .inl ((mild j found).honest o has ok)
  | release free => exact ⟨honest.called, honest.single, honest.unanswered, honest.told⟩
  | list walk free => exact ⟨honest.called, honest.single, honest.unanswered, honest.told⟩
  | pass entry rest free next =>
    exact ⟨honest.called, honest.single, honest.unanswered, honest.told⟩
  | invoke walk k rest i free found next =>
    have fresh : k ∉ l.invoked := by
      obtain ⟨inside, rfl⟩ := IntentRegistry.get?_eq_some_iff.mp found
      rcases next with ⟨next, -⟩ | ⟨-, live⟩
      · exact (once.waiting (walk, i.seq) (next ▸ List.mem_cons_self)).1
      · exact once.fresh free inside live
    refine ⟨fun p mem => List.mem_append_left _ (honest.called p mem), honest.single, ?_,
      honest.told⟩
    rintro j ⟨⟩ mem
    obtain ⟨p, inside, rfl⟩ := List.mem_map.mp mem
    exact fresh (honest.called p inside)
  | resolve k mid f serving resolves =>
    have new := honest.unanswered k serving
    refine ⟨?_, ?_, nofun, ?_⟩
    · intro p mem
      rcases List.mem_append.mp mem with old | now
      · exact honest.called p old
      · obtain ⟨m, -, rfl⟩ := List.mem_map.mp now
        exact once.current k serving
    · cases mid with
      | none =>
        rw [Option.toList_none, List.map_nil, List.append_nil]
        exact honest.single
      | some m =>
        rw [Option.toList_some, List.map_singleton, List.map_append, List.map_singleton]
        exact honest.single.append (List.nodup_singleton _) (List.disjoint_singleton.mpr new)
    · refine honest.worked fun j found o has ok => ?_
      refine (resolves.honest j found o has ok).imp_right ?_
      rintro ⟨m, rfl, same⟩
      exact ⟨m, same, List.mem_singleton_self _⟩

theorem Honest.remove (honest : Honest l) (removal : Removes l m) : Honest m := by
  cases removal with
  | prune free drained =>
    refine ⟨honest.called, honest.single, honest.unanswered, ?_⟩
    rintro i (mem | left) o has ok
    · exact honest.told i (.inl (IntentRegistry.mem_prune.mp mem).1) o has ok
    · rcases List.mem_append.mp left with old | now
      · exact honest.told i (.inr old) o has ok
      · exact honest.told i (.inl (IntentRegistry.mem_dropped.mp now).1) o has ok
  | close free live =>
    have aborted : ∀ i ∈ (l.registry.modifyAll abort).intents, ∀ o, i.outcome = some o →
        o.ok = true → ∃ m, o.messageId = some m ∧ (i.seq, m) ∈ l.returned := by
      intro i mem o has ok
      obtain ⟨j, inside, rfl⟩ := IntentRegistry.mem_modifyAll.mp mem
      exact honest.told j (.inl inside) o ((mild_abort _).honest o has ok) ok
    refine ⟨honest.called, honest.single, honest.unanswered, ?_⟩
    rintro i (mem | left) o has ok
    · exact aborted i (IntentRegistry.mem_prune.mp mem).1 o has ok
    · rcases List.mem_append.mp left with old | now
      · exact honest.told i (.inr old) o has ok
      · exact aborted i (IntentRegistry.mem_dropped.mp now).1 o has ok

/-- The intents that are gone, and the hooks that fired for them. -/
structure Left (l : Ledger) : Prop where
  known : ∀ g ∈ l.gone, g.seq < l.registry.nextSeq
  apart : ∀ g ∈ l.gone, ∀ i ∈ l.registry.intents, i.seq ≠ g.seq
  distinct : (l.gone.map (·.seq)).Nodup
  hooks : l.hooks = (l.gone.filter (·.onRetire)).map (·.seq)

theorem Left.move (left : Left l) (move : Moves intentTimeout l m) : Left m := by
  obtain ⟨gone, hooks⟩ := move.gone
  refine ⟨?_, ?_, gone ▸ left.distinct, gone ▸ hooks ▸ left.hooks⟩
  · intro g mem
    exact Nat.lt_of_lt_of_le (left.known g (gone ▸ mem)) move.nextSeq
  · intro g mem i inside same
    rcases move.intents inside with ⟨j, before, ticket, -⟩ | ⟨new, -⟩
    · exact left.apart g (gone ▸ mem) j before ((congrArg Ticket.seq ticket).trans same)
    · exact absurd (left.known g (gone ▸ mem)) (same ▸ new ▸ Nat.lt_irrefl _)

theorem Left.prune (left : Left l) (sound : ∀ i ∈ l.registry.intents, Sound i.toProgress)
    (keep : SendIntent → Bool) : Left (l.prune keep) where
  known g mem := by
    rcases List.mem_append.mp mem with old | now
    · exact left.known g old
    · exact l.registry.fresh g (IntentRegistry.mem_dropped.mp now).1
  apart := by
    intro g mem i inside same
    obtain ⟨here, kept⟩ := IntentRegistry.mem_prune.mp inside
    rcases List.mem_append.mp mem with old | now
    · exact left.apart g old i here same
    · obtain ⟨there, dropped⟩ := IntentRegistry.mem_dropped.mp now
      rw [IntentRegistry.eq_of_seq here there same, dropped] at kept
      cases kept
  distinct := by
    change ((l.gone ++ l.registry.dropped keep).map (·.seq)).Nodup
    rw [List.map_append]
    refine left.distinct.append (l.registry.bySeq.nodup.sublist (List.filter_sublist.map _)) ?_
    intro k old now
    obtain ⟨g, there, rfl⟩ := List.mem_map.mp old
    obtain ⟨i, dropped, same⟩ := List.mem_map.mp now
    exact left.apart g there i (IntentRegistry.mem_dropped.mp dropped).1 same
  hooks := by
    have pinned : l.registry.retiring keep =
        ((l.registry.dropped keep).filter (·.onRetire)).map (·.seq) := by
      unfold IntentRegistry.retiring
      congr 1
      refine List.filter_congr fun i mem => ?_
      rw [(sound i (IntentRegistry.mem_dropped.mp mem).1).pinned]
      exact Bool.and_true _
    change l.hooks ++ l.registry.retiring keep =
      ((l.gone ++ l.registry.dropped keep).filter (·.onRetire)).map (·.seq)
    rw [List.filter_append, List.map_append, left.hooks, pinned]

theorem Left.close (left : Left l) : Left l.close := by
  refine ⟨left.known, fun g mem i inside same => ?_, left.distinct, left.hooks⟩
  obtain ⟨j, there, rfl⟩ := IntentRegistry.mem_modifyAll.mp inside
  exact left.apart g mem j there same

theorem Once.sound_close (once : Once l) :
    ∀ i ∈ l.close.registry.intents, Sound i.toProgress := by
  intro i mem
  obtain ⟨j, inside, rfl⟩ := IntentRegistry.mem_modifyAll.mp mem
  exact (mild_abort _).sound (once.sound j inside)

theorem Left.remove (left : Left l) (once : Once l) (removal : Removes l m) : Left m := by
  cases removal with
  | prune free drained => exact left.prune once.sound _
  | close free live => exact left.close.prune once.sound_close _

/-- After `terminalize` only completion debts are left, and no walk has anything to do. -/
structure Closed (l : Ledger) : Prop where
  posted : l.terminal = true → ∀ i ∈ l.registry.intents, i.state = .posted
  free : l.terminal = true → l.current = none
  nothing : l.terminal = true → l.ahead = []

theorem Closed.none_armed (closed : Closed l) (terminal : l.terminal = true) :
    l.registry.armedUnposted = [] := by
  rw [List.eq_nil_iff_forall_not_mem]
  intro k mem
  obtain ⟨i, inside, armed, -⟩ := IntentRegistry.mem_armedUnposted.mp mem
  exact not_spent_of_armedUnposted armed (.inl (.inr (closed.posted terminal i inside)))

theorem Closed.move (closed : Closed l) (move : Moves intentTimeout l m) : Closed m := by
  cases move with
  | register live now rid tool hash onRetire =>
    have never : l.terminal ≠ true := fun terminal => Bool.false_ne_true (live.symm.trans terminal)
    exact ⟨fun terminal => absurd terminal never, fun terminal => absurd terminal never,
      fun terminal => absurd terminal never⟩
  | touch k f mild =>
    refine ⟨fun terminal i mem => ?_, closed.free, closed.nothing⟩
    obtain ⟨j, inside, -, ⟨-, same⟩ | ⟨found, same⟩⟩ := IntentRegistry.exists_of_mem_modify mem
    · exact same ▸ closed.posted terminal j inside
    · exact same ▸ (mild j found).posted (closed.posted terminal j inside)
  | release free => exact ⟨closed.posted, closed.free, fun _ => rfl⟩
  | list walk free =>
    refine ⟨closed.posted, closed.free, fun terminal => ?_⟩
    rw [closed.none_armed terminal]
    rfl
  | pass entry rest free next =>
    refine ⟨closed.posted, closed.free, fun terminal => ?_⟩
    cases (closed.nothing terminal).symm.trans next
  | invoke walk k rest i free found next =>
    have never : l.terminal ≠ true := by
      intro terminal
      rcases next with ⟨next, -⟩ | ⟨-, live⟩
      · cases (closed.nothing terminal).symm.trans next
      · refine live (.inl (.inr (closed.posted terminal i ?_)))
        exact (IntentRegistry.get?_eq_some_iff.mp found).1
    exact ⟨fun terminal => absurd terminal never, fun terminal => absurd terminal never,
      fun terminal => absurd terminal never⟩
  | resolve k mid f serving resolves =>
    have never : l.terminal ≠ true := by
      intro terminal
      cases (closed.free terminal).symm.trans serving
    exact ⟨fun terminal => absurd terminal never, fun terminal => absurd terminal never,
      fun terminal => absurd terminal never⟩

theorem Closed.remove (closed : Closed l) (removal : Removes l m) : Closed m := by
  cases removal with
  | prune free drained =>
    refine ⟨fun terminal i mem => ?_, closed.free, fun _ => rfl⟩
    exact closed.posted terminal i (IntentRegistry.mem_prune.mp mem).1
  | close free live =>
    refine ⟨fun _ i mem => ?_, fun _ => free, fun _ => rfl⟩
    have debt := (IntentRegistry.mem_prune.mp mem).2
    simp only [SendIntent.isLiveCompletionDebt, Bool.and_eq_true, decide_eq_true_eq] at debt
    exact debt.1.1.1.1.2

structure Truthful (l : Ledger) : Prop where
  once : Once l
  honest : Honest l
  left : Left l
  closed : Closed l

theorem Truthful.step {w : World} (h : Truthful (ledger w)) (lab : Label) :
    Truthful (ledger (step intentTimeout lab w)) := by
  refine (step_evolves lab).keeps h ?_ ?_
  · exact fun l m h move => ⟨h.once.move move, h.honest.move h.once move, h.left.move move,
      h.closed.move move⟩
  · exact fun l m h removal => ⟨h.once.remove removal, h.honest.remove removal,
      h.left.remove h.once removal, h.closed.remove removal⟩

theorem truthful_empty : Truthful (ledger {}) := by
  have none : ∀ i, i ∉ (ledger {}).registry.intents := fun _ => List.not_mem_nil
  have free : ∀ k, (ledger {}).current ≠ some k := fun k no => Option.some_ne_none k no.symm
  have live : (ledger {}).terminal ≠ true := Bool.false_ne_true
  refine ⟨⟨?_, ?_, List.nodup_nil, ?_, ?_, List.nodup_nil, ?_⟩, ⟨?_, List.nodup_nil, ?_, ?_⟩,
    ⟨?_, ?_, List.nodup_nil, rfl⟩, ⟨?_, ?_, ?_⟩⟩
  · exact fun i mem => absurd mem (none i)
  · exact fun k mem => absurd mem List.not_mem_nil
  · exact fun i mem => absurd mem (none i)
  · exact fun k serving => absurd serving (free k)
  · exact fun e mem => absurd mem List.not_mem_nil
  · exact fun p mem => absurd mem List.not_mem_nil
  · exact fun k serving => absurd serving (free k)
  · exact fun i mem => mem.elim (fun mem => absurd mem (none i)) fun mem =>
      absurd mem List.not_mem_nil
  · exact fun g mem => absurd mem List.not_mem_nil
  · exact fun g mem => absurd mem List.not_mem_nil
  · exact fun terminal => absurd terminal live
  · exact fun terminal => absurd terminal live
  · exact fun terminal => absurd terminal live

end Invariant

section Removal
variable {intentTimeout k : Nat} {l m : Ledger}

theorem Many.persists (many : Many intentTimeout l m) :
    (∀ i ∈ l.registry.intents, ∃ j ∈ m.registry.intents, j.toTicket = i.toTicket) ∧
      m.gone = l.gone ∧ m.hooks = l.hooks := by
  induction many with
  | refl => exact ⟨fun i mem => ⟨i, mem, rfl⟩, rfl, rfl⟩
  | tail _ move ih =>
    obtain ⟨kept, gone, hooks⟩ := ih
    refine ⟨fun i mem => ?_, move.gone.1.trans gone, move.gone.2.trans hooks⟩
    obtain ⟨j, inside, same⟩ := kept i mem
    obtain ⟨o, there, also⟩ := move.persists inside
    exact ⟨o, there, also.trans same⟩

theorem answered_of_drained (once : Once l) (drained : l.registry.armedUnposted = [])
    {i : SendIntent} (mem : i ∈ l.registry.intents) (armed : i.state = .armed) :
    i.outcome.isSome = true := by
  have open_ : ¬ settled i.toProgress := by simp [settled, armed]
  have unlisted : i.armedUnposted ≠ true := by
    intro listed
    have inside := IntentRegistry.mem_armedUnposted.mpr ⟨i, mem, listed, rfl⟩
    rw [drained] at inside
    exact absurd inside List.not_mem_nil
  refine (once.sound i mem).answered open_ ?_
  simpa [SendIntent.armedUnposted, armed, Option.isSome_iff_ne_none, or_assoc,
    imp_iff_not_or] using unlisted

theorem answered_of_abort (once : Once l) {i : SendIntent} (mem : i ∈ l.registry.intents)
    (armed : i.state = .armed) :
    (abort i.toProgress).outcome.isSome = true ∧ (abort i.toProgress).state ≠ .posted := by
  have open_ : ¬ settled i.toProgress := by simp [settled, armed]
  have unposted : i.state ≠ .posted := by simp [armed]
  unfold abort
  split
  · rename_i skipped
    refine ⟨?_, unposted⟩
    simp only [Bool.or_eq_true, decide_eq_true_eq] at skipped
    rcases skipped with ((consumed | failed) | outcome) | posted
    · exact (once.sound i mem).answered open_ (.inl consumed)
    · exact (once.sound i mem).answered open_ (.inr (.inl failed))
    · exact outcome
    · exact absurd posted unposted
  · refine ⟨rfl, ?_⟩
    simp [Progress.cancel, armed]

theorem removed_of_evolves (once : Once l) (evolves : Evolves intentTimeout l m)
    {i : SendIntent} (mem : i ∈ l.registry.intents) (armed : i.state = .armed) :
    (∃ j ∈ m.registry.intents, j.seq = i.seq) ∨
    ∃ g ∈ m.gone, g.seq = i.seq ∧ g.outcome.isSome = true := by
  rcases evolves with many | removal
  · obtain ⟨j, inside, same⟩ := (Many.persists many).1 i mem
    exact .inl ⟨j, inside, congrArg Ticket.seq same⟩
  · cases removal with
    | prune free drained =>
      refine .inr ⟨i, List.mem_append_right _ ?_, rfl, answered_of_drained once drained mem armed⟩
      exact IntentRegistry.mem_dropped.mpr ⟨mem, rfl⟩
    | close free live =>
      obtain ⟨answered, open_⟩ := answered_of_abort once mem armed
      refine .inr ⟨{ i with toProgress := abort i.toProgress }, List.mem_append_right _ ?_, rfl,
        answered⟩
      refine IntentRegistry.mem_dropped.mpr ⟨IntentRegistry.mem_modifyAll.mpr ⟨i, mem, rfl⟩, ?_⟩
      simp [SendIntent.isLiveCompletionDebt, open_]

theorem hooks_prune (left : Left l) (sound : ∀ i ∈ l.registry.intents, Sound i.toProgress)
    (keep : SendIntent → Bool) :
    k ∈ (l.prune keep).hooks ∧ k ∉ l.hooks ↔ ∃ i ∈ l.registry.intents, i.seq = k ∧
      i.onRetire = true ∧ ∀ j ∈ (l.prune keep).registry.intents, j.seq ≠ k := by
  have after := left.prune sound keep
  constructor
  · rintro ⟨fired, before⟩
    rcases List.mem_append.mp fired with old | now
    · exact absurd old before
    · obtain ⟨i, mem, rfl⟩ := List.mem_map.mp now
      obtain ⟨dropped, hook⟩ := List.mem_filter.mp mem
      refine ⟨i, (IntentRegistry.mem_dropped.mp dropped).1, rfl, (Bool.and_eq_true_iff.mp hook).1,
        fun j inside same => ?_⟩
      exact after.apart i (List.mem_append_right _ dropped) j inside same
  · rintro ⟨i, mem, rfl, hook, out⟩
    have dropped : i ∈ l.registry.dropped keep := by
      refine IntentRegistry.mem_dropped.mpr ⟨mem, Bool.eq_false_iff.mpr fun kept => ?_⟩
      exact out i (IntentRegistry.mem_prune.mpr ⟨mem, kept⟩) rfl
    refine ⟨List.mem_append_right _ (List.mem_map_of_mem (List.mem_filter.mpr ⟨dropped, ?_⟩)), ?_⟩
    · rw [hook, (sound i mem).pinned]
      rfl
    · intro fired
      rw [left.hooks] at fired
      obtain ⟨g, there, same⟩ := List.mem_map.mp fired
      exact left.apart g (List.mem_of_mem_filter there) i mem same.symm

theorem hooks_of_evolves (h : Truthful l) (evolves : Evolves intentTimeout l m) :
    k ∈ m.hooks ∧ k ∉ l.hooks ↔ ∃ i ∈ l.registry.intents, i.seq = k ∧ i.onRetire = true ∧
      ∀ j ∈ m.registry.intents, j.seq ≠ k := by
  rcases evolves with many | removal
  · obtain ⟨kept, -, hooks⟩ := Many.persists many
    refine ⟨fun fired => absurd (hooks ▸ fired.1) fired.2, ?_⟩
    rintro ⟨i, mem, rfl, -, out⟩
    obtain ⟨j, inside, same⟩ := kept i mem
    exact absurd (congrArg Ticket.seq same) (out j inside)
  · cases removal with
    | prune free drained => exact hooks_prune h.left h.once.sound _
    | close free live =>
      refine (hooks_prune h.left.close h.once.sound_close _).trans ⟨?_, ?_⟩
      · rintro ⟨i, mem, same, hook, out⟩
        obtain ⟨j, inside, rfl⟩ := IntentRegistry.mem_modifyAll.mp mem
        exact ⟨j, inside, same, hook, out⟩
      · rintro ⟨i, mem, same, hook, out⟩
        exact ⟨_, IntentRegistry.mem_modifyAll.mpr ⟨i, mem, rfl⟩, same, hook, out⟩

end Removal

section Terminal
variable {intentTimeout : Nat} {w v : World}

/-- Where the locked call may stand after `terminalize`. -/
def Doing.quiet : Doing → Bool
  | .idle => true
  | .sending (.notice true) _ => true
  | .editing (.narration _ _ _ _) => false
  | .editing _ => true
  | .revalidatingEdit _ _ _ => true
  | .walking _ _ => true
  | _ => false

def Topic.ordinary (t : Topic) : List (Sender × MsgId) :=
  t.sent.filter fun e => decide (e.1 ≠ .completion)

/-- A step after `terminalize`: the lock holder is quiet and nothing ordinary is sent. -/
structure Silent (w v : World) : Prop where
  terminal : v.seq.terminal = true
  quiet : Doing.quiet v.doing = true
  invoked : v.topic.invoked = w.topic.invoked
  ordinary : Topic.ordinary v.topic = Topic.ordinary w.topic

theorem Silent.finish {s : Sequencer} (terminal : s.terminal = true) (a : Answer) :
    Silent w ({ w with seq := s }.finish a) := ⟨terminal, rfl, rfl, rfl⟩

theorem terminal_call (c : Call) (s : Sequencer) : (c.run s).terminal = s.terminal := by
  have many : Many 0 (ledger { seq := s }) (ledger { seq := c.run s }) := many_call c
  exact Many.terminal many

theorem terminal_proceed {walk : Walk} {rest : List Nat} (here : w.doing = .walking walk rest) :
    (proceed intentTimeout walk rest w).seq.terminal = w.seq.terminal := by
  cases rest with
  | cons k more =>
    have many : Many intentTimeout (ledger w) (ledger (visit intentTimeout walk k more w)) :=
      many_visit (by rw [here]; rfl) (.inl (by rw [here]; rfl))
    exact Many.terminal many
  | nil =>
    cases walk with
    | drain =>
      simp only [proceed]
      split
      · simp [World.prune, World.finish]
      · rfl
    | _ => rfl

theorem silent_proceed {walk : Walk} {rest : List Nat} (closed : Closed (ledger w))
    (terminal : w.seq.terminal = true) (here : w.doing = .walking walk rest) :
    Silent w (proceed intentTimeout walk rest w) := by
  have nothing := closed.nothing terminal
  simp only [ledger, here, ahead_walking, List.map_eq_nil_iff] at nothing
  subst nothing
  cases walk with
  | block => exact .finish terminal _
  | process now => exact .finish terminal _
  | flush => exact .finish terminal _
  | drain =>
    simp only [proceed]
    split
    · exact ⟨by simpa [World.prune, World.finish] using terminal, rfl, rfl, rfl⟩
    · exact ⟨terminal, rfl, rfl, rfl⟩

theorem silent_start (closed : Closed (ledger w)) (terminal : w.seq.terminal = true)
    (task : Task) : Silent w (task.start intentTimeout w) := by
  cases task with
  | openNarration text =>
    simp only [Task.start, openNarration, terminal, if_true]
    exact .finish terminal _
  | editNarrationIfLatest m text markup =>
    simp only [Task.start, editNarrationIfLatest, terminal, if_true]
    exact .finish terminal _
  | postUnlessAnchorOpen text seam posts =>
    simp only [Task.start, postUnlessAnchorOpen, terminal, if_true]
    exact .finish terminal _
  | editSummary m text =>
    simp only [Task.start, editSummary]
    split
    · exact .finish terminal _
    · exact ⟨terminal, rfl, rfl, rfl⟩
  | sealNarration => exact .finish (by simpa using terminal) _
  | advanceHighWaterForInbound o =>
    cases o with
    | none => exact .finish (by simpa using terminal) _
    | some m =>
      refine ⟨?_, rfl, rfl, rfl⟩
      simpa [Task.start, advanceHighWaterForInbound, World.finish] using terminal
  | postPlatformNotice =>
    simp only [Task.start, postPlatformNotice, terminal, if_true]
    exact .finish terminal _
  | postCompletionNotice => exact ⟨by simpa [Task.start, postCompletionNotice], rfl, rfl, rfl⟩
  | postDiscrete text markup revalidate budgeted =>
    simp only [Task.start, postDiscrete, terminal, if_true]
    exact .finish terminal _
  | editDiscrete m text markup revalidate =>
    simp only [Task.start, editDiscrete, gateDiscreteEdit]
    split
    · exact ⟨terminal, rfl, rfl, rfl⟩
    · split
      · exact .finish terminal _
      · exact ⟨terminal, rfl, rfl, rfl⟩
  | postForBlock tool hash last =>
    simp only [Task.start, postForBlock]
    split
    · rename_i i found
      have posted := closed.posted terminal i (IntentRegistry.mem_of_oldestMatchable found).1
      rw [posted]
      exact .finish (by simpa [Sequencer.progress] using terminal) _
    · split
      · exact .finish terminal _
      · split <;> exact .finish terminal _
  | processIntentsOnce => exact ⟨terminal, rfl, rfl, rfl⟩
  | flushArmedIntents => exact ⟨terminal, rfl, rfl, rfl⟩
  | drainAndPruneTurn => exact ⟨terminal, rfl, rfl, rfl⟩
  | terminalize =>
    simp only [Task.start, terminalize, terminal, if_true]
    exact .finish terminal _

theorem ordinary_completion (t : Topic) (mid : MsgId) :
    Topic.ordinary { t with top := mid, sent := t.sent ++ [(.completion, mid)] } =
      Topic.ordinary t := by
  simp [Topic.ordinary]

theorem silent_completion (terminal : w.seq.terminal = true) {ids : List MsgId}
    (here : w.doing = .sending (.notice true) ids) (r : Reply) :
    Silent w (r.answer w w.doing) := by
  have stays : Silent w w := ⟨terminal, by rw [here]; rfl, rfl, rfl⟩
  rw [here]
  cases r with
  | lands gap => exact ⟨terminal, rfl, rfl, ordinary_completion w.topic _⟩
  | returns mid => exact .finish (by simpa using terminal) _
  | raises => exact .finish terminal _
  | interrupted => exact .finish terminal _
  | _ => exact stays

theorem silent_edit (terminal : w.seq.terminal = true) {what : Edit}
    (here : w.doing = .editing what) (quiet : Doing.quiet w.doing = true) (r : Reply) :
    Silent w (r.answer w w.doing) := by
  have stays : Silent w w := ⟨terminal, quiet, rfl, rfl⟩
  rw [here] at quiet ⊢
  cases what with
  | narration m text tri origin => cases quiet
  | summary m text =>
    cases r with
    | editReturns ok => cases ok <;> exact ⟨terminal, rfl, rfl, rfl⟩
    | raises => exact .finish terminal _
    | _ => exact stays
  | discrete m text tri =>
    cases r with
    | editReturns ok => cases ok <;> exact ⟨terminal, rfl, rfl, rfl⟩
    | raises => exact .finish terminal _
    | _ => exact stays

theorem silent_reply (terminal : w.seq.terminal = true) (quiet : Doing.quiet w.doing = true)
    (r : Reply) : Silent w (r.answer w w.doing) := by
  have stays : Silent w w := ⟨terminal, quiet, rfl, rfl⟩
  cases here : w.doing with
  | idle => exact stays
  | walking walk rest => exact stays
  | editing what => exact here ▸ silent_edit terminal here quiet r
  | revalidatingEdit m text markup =>
    cases r with
    | raises => exact .finish terminal _
    | revalidates yes =>
      cases yes with
      | false => exact .finish terminal _
      | true =>
        simp only [Reply.answer, if_true, gateDiscreteEdit]
        split
        · exact .finish terminal _
        · exact ⟨terminal, rfl, rfl, rfl⟩
    | _ => exact stays
  | sending what ids =>
    rw [here] at quiet
    cases what with
    | notice completion =>
      cases completion with
      | false => cases quiet
      | true => exact here ▸ silent_completion terminal here r
    | _ => cases quiet
  | _ =>
    rw [here] at quiet
    cases quiet

theorem silent_step (closed : Closed (ledger w)) (terminal : w.seq.terminal = true)
    (quiet : Doing.quiet w.doing = true) (lab : Label) :
    Silent w (step intentTimeout lab w) := by
  have stays : Silent w w := ⟨terminal, quiet, rfl, rfl⟩
  cases lab with
  | call c => exact ⟨(terminal_call c w.seq).trans terminal, quiet, rfl, rfl⟩
  | operator gap => exact ⟨terminal, quiet, rfl, rfl⟩
  | tick n => exact ⟨terminal, quiet, rfl, rfl⟩
  | start task =>
    simp only [step]
    split
    · exact silent_start closed terminal task
    · exact stays
  | proceed =>
    simp only [step]
    split
    · exact silent_proceed closed terminal ‹_›
    · exact stays
  | reply r => exact silent_reply terminal quiet r

theorem terminal_step (lab : Label) :
    (step intentTimeout lab w).seq.terminal = w.seq.terminal ∨
      (step intentTimeout lab w).doing = .idle := by
  cases lab with
  | call c => exact .inl (terminal_call c w.seq)
  | operator gap => exact .inl rfl
  | tick n => exact .inl rfl
  | start task =>
    simp only [step]
    split
    · rename_i here
      by_cases ends : task = .terminalize
      · subst ends
        refine .inr ?_
        simp only [Task.start, terminalize]
        split <;> rfl
      · have many : Many intentTimeout (ledger w) (ledger (task.start intentTimeout w)) :=
          many_start here ends
        exact .inl (Many.terminal many)
    · exact .inl rfl
  | proceed =>
    simp only [step]
    split
    · exact .inl (terminal_proceed ‹_›)
    · exact .inl rfl
  | reply r =>
    have many : Many intentTimeout (ledger w) (ledger (r.answer w w.doing)) := many_reply r
    exact .inl (Many.terminal many)

structure Kept (w : World) : Prop where
  truthful : Truthful (ledger w)
  quiet : w.seq.terminal = true → Doing.quiet w.doing = true

theorem Kept.step (kept : Kept w) (lab : Label) : Kept (step intentTimeout lab w) := by
  refine ⟨kept.truthful.step lab, fun terminal => ?_⟩
  have latch : (SequencerWriter.step intentTimeout lab w).seq.terminal = w.seq.terminal ∨
      (SequencerWriter.step intentTimeout lab w).doing = .idle := terminal_step lab
  rcases latch with same | idle
  · rw [same] at terminal
    exact (silent_step kept.truthful.closed terminal (kept.quiet terminal) lab).quiet
  · rw [idle]
    rfl

theorem kept_of_runs {ls : List Label} {allowed : Label → World → Prop}
    (run : Runs (step intentTimeout) allowed w ls v) (kept : Kept w) : Kept v :=
  run.invariant (fun lab _ _ held => held.step lab) kept

theorem kept_empty : Kept {} := ⟨truthful_empty, fun no => absurd no Bool.false_ne_true⟩

theorem silent_of_runs {ls : List Label} {allowed : Label → World → Prop} (kept : Kept w)
    (terminal : w.seq.terminal = true) (run : Runs (step intentTimeout) allowed w ls v) :
    Silent w v := by
  have start : Kept w ∧ Silent w w := ⟨kept, terminal, kept.quiet terminal, rfl, rfl⟩
  refine (run.invariant (I := fun u => Kept u ∧ Silent w u) ?_ start).2
  rintro lab u - ⟨held, silent⟩
  have next : Silent u (step intentTimeout lab u) :=
    silent_step held.truthful.closed silent.terminal silent.quiet lab
  exact ⟨held.step lab, next.terminal, next.quiet, next.invoked.trans silent.invoked,
    next.ordinary.trans silent.ordinary⟩

theorem sender_of_quiet {d : Doing} (quiet : Doing.quiet d = true) {what : Send}
    {ids : List MsgId} (here : d = .sending what ids) : what.sender = .completion := by
  subst here
  cases what with
  | notice completion =>
    cases completion with
    | true => rfl
    | false => cases quiet
  | _ => cases quiet

theorem terminalize_step (idle : w.doing = .idle) :
    (step intentTimeout (.start .terminalize) w).seq.terminal = true ∧
    (step intentTimeout (.start .terminalize) w).topic.invoked = w.topic.invoked ∧
    Topic.ordinary (step intentTimeout (.start .terminalize) w).topic =
      Topic.ordinary w.topic := by
  simp only [step, idle, Task.start, terminalize]
  split
  · rename_i terminal
    exact ⟨terminal, rfl, rfl⟩
  · exact ⟨rfl, rfl, rfl⟩

/-- Along every run: each registration's poster is called at most once; a recorded success names
the one message that the poster returned; an armed intent that a step removes has its outcome;
a hook fires once, in the step that removes its intent; and once `terminalize` has returned
nothing is sent, or waits to be sent, but the completion. -/
theorem discrete_sends_accounted {ls : List Label}
    (run : Runs (step intentTimeout) (fun l u => scheduled l u = true) {} ls w) :
    w.topic.invoked.Nodup ∧
    (∀ i, i ∈ w.seq.registry.intents ∨ i ∈ w.topic.gone → ∀ o, i.outcome = some o →
      o.ok = true → ∃ m, o.messageId = some m ∧ ∀ n, (i.seq, n) ∈ w.topic.returned ↔ n = m) ∧
    (∀ lab, ∀ i ∈ w.seq.registry.intents, i.state = .armed →
      (∃ j ∈ (step intentTimeout lab w).seq.registry.intents, j.seq = i.seq) ∨
      ∃ g ∈ (step intentTimeout lab w).topic.gone, g.seq = i.seq ∧ g.outcome.isSome = true) ∧
    w.topic.hooks.Nodup ∧
    (∀ lab k, (k ∈ (step intentTimeout lab w).topic.hooks ∧ k ∉ w.topic.hooks) ↔
      ∃ i ∈ w.seq.registry.intents, i.seq = k ∧ i.onRetire = true ∧
        ∀ j ∈ (step intentTimeout lab w).seq.registry.intents, j.seq ≠ k) ∧
    (w.doing = .idle → ∀ ms v, Runs (step intentTimeout) (fun l u => scheduled l u = true)
      (step intentTimeout (.start .terminalize) w) ms v →
        v.topic.invoked = w.topic.invoked ∧ Topic.ordinary v.topic = Topic.ordinary w.topic ∧
        ∀ what ids, v.doing = .sending what ids → what.sender = .completion) := by
  have kept := kept_of_runs run kept_empty
  have truthful := kept.truthful
  refine ⟨truthful.once.once, ?_, ?_, ?_, ?_, ?_⟩
  · intro i mem o has ok
    obtain ⟨m, same, told⟩ := truthful.honest.told i mem o has ok
    refine ⟨m, same, fun n => ⟨fun also => ?_, fun eq => eq ▸ told⟩⟩
    have single := List.inj_on_of_nodup_map truthful.honest.single also told rfl
    exact congrArg Prod.snd single
  · exact fun lab i mem armed => removed_of_evolves truthful.once (step_evolves lab) mem armed
  · have hooks := truthful.left.hooks
    change w.topic.hooks = _ at hooks
    rw [hooks]
    exact truthful.left.distinct.sublist (List.filter_sublist.map _)
  · exact fun lab k => hooks_of_evolves truthful (step_evolves lab)
  · intro idle ms v later
    have silent := silent_of_runs (kept.step _) (terminalize_step idle).1 later
    refine ⟨?_, ?_, fun what ids here => sender_of_quiet silent.quiet here⟩
    · exact silent.invoked.trans (terminalize_step idle).2.1
    · exact silent.ordinary.trans (terminalize_step idle).2.2

def askPosted : List Label :=
  [.call (.registerIntent "a" .ask "x" true), .call (.armIntent "a"), .start .flushArmedIntents,
    .proceed, .reply (.lands 0), .reply (.returns (some 1)), .proceed]

theorem askPosted_accounted :
    ∃ w, Runs (step 10) (fun l u => scheduled l u = true) {} askPosted w ∧
      w.topic.sent = [(.intent 0, 1)] ∧ w.topic.invoked = [0] ∧ w.topic.invoked.Nodup ∧
      ∀ i ∈ w.seq.registry.intents, ∀ o, i.outcome = some o → o.ok = true →
        ∃ m, o.messageId = some m ∧ ∀ n, (i.seq, n) ∈ w.topic.returned ↔ n = m := by
  have legal : Legal (step 10) (fun l u => scheduled l u = true) {} askPosted := by
    decide +kernel
  have accounted := discrete_sends_accounted legal.runs
  exact ⟨_, legal.runs, rfl, rfl, accounted.1, fun i mem => accounted.2.1 i (.inl mem)⟩

end Terminal

end Casa.SequencerTruth
