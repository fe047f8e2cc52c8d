import Casa.SequencerWriter
import Mathlib.Logic.Relation

/-! The sequencer as a ledger of its intents. Everything the writer does, seen from the
registry, is a sequence of a few moves: an intent is registered, touched, listed for a walk,
passed over, handed to its poster, resolved. Two calls remove intents, the end of a drain and
`terminalize`. -/

namespace Casa.SequencerLedger
open SequencerIntents SequencerWriter

section Progress

def settled (p : Progress) : Prop := p.state = .cancelled ∨ p.state = .posted

def spent (p : Progress) : Prop := settled p ∨ p.postFailed = true

structure Sound (p : Progress) : Prop where
  resolved : p.outcome.isSome = true → spent p
  answered : ¬ settled p →
    p.consumed = true ∨ p.postFailed = true ∨ p.messageId.isSome = true → p.outcome.isSome = true
  pinned : p.retired = false

structure Advances (p q : Progress) : Prop where
  sound : Sound p → Sound q
  settled : settled p → settled q
  posted : p.state = .posted → q.state = .posted
  spent : spent p → spent q
  frozen : SequencerLedger.settled p → q.armedAt = p.armedAt ∧ q.slotMissed = p.slotMissed

structure Mild (p q : Progress) : Prop extends Advances p q where
  honest : ∀ o, q.outcome = some o → o.ok = true → p.outcome = some o

variable {p q u : Progress}

theorem Mild.refl (p : Progress) : Mild p p :=
  ⟨⟨id, id, id, id, fun _ => ⟨rfl, rfl⟩⟩, fun _ h _ => h⟩

theorem Mild.trans (h : Mild p q) (h' : Mild q u) : Mild p u where
  sound := h'.sound ∘ h.sound
  settled := h'.settled ∘ h.settled
  posted := h'.posted ∘ h.posted
  spent := h'.spent ∘ h.spent
  frozen done :=
    ⟨(h'.frozen (h.settled done)).1.trans (h.frozen done).1,
      (h'.frozen (h.settled done)).2.trans (h.frozen done).2⟩
  honest o here ok := h.honest o (h'.honest o here ok) ok

theorem Advances.refl (p : Progress) : Advances p p := (Mild.refl p).toAdvances

theorem advances_of_settled (done : settled q) (posted : p.state = .posted → q.state = .posted)
    (pinned : q.retired = p.retired) (armedAt : q.armedAt = p.armedAt)
    (slotMissed : q.slotMissed = p.slotMissed) : Advances p q where
  sound h := ⟨fun _ => .inl done, fun no => absurd done no, pinned.trans h.pinned⟩
  settled _ := done
  posted := posted
  spent _ := .inl done
  frozen _ := ⟨armedAt, slotMissed⟩

theorem mild_of_failed (state : q.state = p.state) (failed : q.postFailed = true)
    (outcome : q.outcome.isSome = true) (pinned : q.retired = p.retired)
    (armedAt : q.armedAt = p.armedAt) (slotMissed : q.slotMissed = p.slotMissed)
    (honest : ∀ o, q.outcome = some o → o.ok = true → p.outcome = some o) : Mild p q where
  sound h := ⟨fun _ => .inr failed, fun _ _ => outcome, pinned.trans h.pinned⟩
  settled h := by rwa [settled, state]
  posted h := state.trans h
  spent _ := .inr failed
  frozen _ := ⟨armedAt, slotMissed⟩
  honest := honest

theorem mild_of_flags (state : q.state = p.state) (outcome : q.outcome = p.outcome)
    (failed : q.postFailed = p.postFailed) (message : q.messageId = p.messageId)
    (pinned : q.retired = p.retired) (armedAt : q.armedAt = p.armedAt)
    (slotMissed : settled p → q.slotMissed = p.slotMissed)
    (consumed : q.consumed = true → p.consumed = true ∨ settled p) : Mild p q where
  sound h := by
    refine ⟨fun has => ?_, fun open_ some => ?_, pinned.trans h.pinned⟩
    · rw [outcome] at has
      exact (h.resolved has).imp (fun done => by rwa [settled, state]) failed.trans
    · rw [settled, state] at open_
      rw [failed, message] at some
      rw [outcome]
      rcases some with eaten | rest
      · exact h.answered open_ (.inl ((consumed eaten).resolve_right open_))
      · exact h.answered open_ (.inr rest)
  settled h := by rwa [settled, state]
  posted h := state.trans h
  spent h := h.imp (fun done => by rwa [settled, state]) failed.trans
  frozen done := ⟨armedAt, slotMissed done⟩
  honest o here _ := outcome ▸ here

theorem mild_arm (now : Nat) (p : Progress) : Mild p (p.arm now) := by
  unfold Progress.arm
  split
  case isFalse => exact .refl p
  case isTrue pending =>
    have before : ¬ settled p := by simp [settled, pending]
    refine ⟨⟨fun h => ⟨fun has => ?_, fun _ => h.answered before, h.pinned⟩, ?_, ?_, ?_, ?_⟩,
      fun _ here _ => here⟩
    · exact .inr ((h.resolved has).resolve_left before)
    · exact fun done => absurd done before
    · exact fun posted => absurd (.inr posted) before
    · exact fun done => .inr (done.resolve_left before)
    · exact fun done => absurd done before

theorem settled_cancel (p : Progress) : settled p.cancel := by
  unfold Progress.cancel settled
  split
  · exact .inl rfl
  · exact .inl rfl
  · rename_i no _
    cases h : p.state <;> simp_all

theorem posted_cancel (h : p.state = .posted) : p.cancel = p := by
  rw [Progress.cancel, h]

@[simp] theorem outcome_cancel (p : Progress) : p.cancel.outcome = p.outcome := by
  unfold Progress.cancel
  split <;> rfl

@[simp] theorem retired_cancel (p : Progress) : p.cancel.retired = p.retired := by
  unfold Progress.cancel
  split <;> rfl

@[simp] theorem armedAt_cancel (p : Progress) : p.cancel.armedAt = p.armedAt := by
  unfold Progress.cancel
  split <;> rfl

@[simp] theorem slotMissed_cancel (p : Progress) : p.cancel.slotMissed = p.slotMissed := by
  unfold Progress.cancel
  split <;> rfl

theorem advances_cancel (p : Progress) (outcome : Option Outcome) (postFailed : Bool) :
    Advances p { p.cancel with outcome := outcome, postFailed := postFailed } :=
  advances_of_settled (settled_cancel p) (fun h => (posted_cancel h).symm ▸ h) (retired_cancel p)
    (armedAt_cancel p) (slotMissed_cancel p)

theorem mild_cancel (p : Progress) : Mild p p.cancel where
  toAdvances := advances_cancel p p.cancel.outcome p.cancel.postFailed
  honest _ here _ := outcome_cancel p ▸ here

theorem mild_refuse (p : Progress) (error : String) (message : Option String) :
    Mild p { p.cancel with outcome := some (.refused error message) } where
  toAdvances := advances_cancel p _ p.cancel.postFailed
  honest := by
    rintro o ⟨⟩ ok
    cases ok

theorem mild_leaveDebt (walk : Walk) (p : Progress) : Mild p (walk.leaveDebt p) := by
  unfold Walk.leaveDebt
  split
  · split
    · exact .refl p
    · exact mild_of_flags rfl rfl rfl rfl rfl rfl (fun _ => rfl) nofun
  · exact .refl p

theorem mild_abort (p : Progress) : Mild p (abort p) := by
  unfold abort
  split
  · exact .refl p
  · refine ⟨advances_cancel p _ true, ?_⟩
    rintro o ⟨⟩ ok
    cases ok

end Progress

section Moves

structure Ledger where
  registry : IntentRegistry
  terminal : Bool
  current : Option Nat
  ahead : List (Walk × Nat)
  invoked : List Nat
  returned : List (Nat × MsgId)
  gone : List SendIntent
  hooks : List Nat

def Doing.current : Doing → Option Nat
  | .sending (.intent k _ _) _ => some k
  | _ => none

def Doing.ahead : Doing → List (Walk × Nat)
  | .sending (.intent _ walk rest) _ => rest.map fun k => (walk, k)
  | .walking walk rest => rest.map fun k => (walk, k)
  | _ => []

@[simp] theorem current_walking (walk : Walk) (rest : List Nat) :
    Doing.current (.walking walk rest) = none := rfl

@[simp] theorem ahead_walking (walk : Walk) (rest : List Nat) :
    Doing.ahead (.walking walk rest) = rest.map fun k => (walk, k) := rfl

@[simp] theorem current_intent (k : Nat) (walk : Walk) (rest ids : List Nat) :
    Doing.current (.sending (.intent k walk rest) ids) = some k := rfl

@[simp] theorem ahead_intent (k : Nat) (walk : Walk) (rest ids : List Nat) :
    Doing.ahead (.sending (.intent k walk rest) ids) = rest.map fun k => (walk, k) := rfl

def ledger (w : World) : Ledger where
  registry := w.seq.registry
  terminal := w.seq.terminal
  current := Doing.current w.doing
  ahead := Doing.ahead w.doing
  invoked := w.topic.invoked
  returned := w.topic.returned
  gone := w.topic.gone
  hooks := w.topic.hooks

/-- The end of a poster's call that returned `mid`: the intent is spent, and a success that is
recorded now is the one that was returned. -/
structure Resolves (r : IntentRegistry) (k : Nat) (mid : Option MsgId)
    (f : Progress → Progress) : Prop where
  advances : ∀ i, r.get? k = some i → Advances i.toProgress (f i.toProgress)
  resolved : ∀ i, r.get? k = some i → Sound i.toProgress → spent (f i.toProgress)
  honest : ∀ i, r.get? k = some i → ∀ o, (f i.toProgress).outcome = some o → o.ok = true →
    i.outcome = some o ∨ ∃ m, mid = some m ∧ o.messageId = some m

inductive Moves (intentTimeout : Nat) : Ledger → Ledger → Prop
  | register (l : Ledger) (live : l.terminal = false) (now : Nat) (rid : String) (tool : Tool)
      (hash : String) (onRetire : Bool) :
      Moves intentTimeout l
        { l with registry := (l.registry.register now rid tool hash onRetire).2 }
  | touch (l : Ledger) (k : Nat) (f : Progress → Progress)
      (mild : ∀ i, l.registry.get? k = some i → Mild i.toProgress (f i.toProgress)) :
      Moves intentTimeout l { l with registry := l.registry.modify k f }
  | release (l : Ledger) (free : l.current = none) : Moves intentTimeout l { l with ahead := [] }
  | list (l : Ledger) (walk : Walk) (free : l.current = none) :
      Moves intentTimeout l
        { l with ahead := l.registry.armedUnposted.map fun k => (walk, k) }
  | pass (l : Ledger) (entry : Walk × Nat) (rest : List (Walk × Nat)) (free : l.current = none)
      (next : l.ahead = entry :: rest) : Moves intentTimeout l { l with ahead := rest }
  | invoke (l : Ledger) (walk : Walk) (k : Nat) (rest : List (Walk × Nat)) (i : SendIntent)
      (free : l.current = none) (found : l.registry.get? k = some i)
      (next : l.ahead = (walk, k) :: rest ∧ walk.due intentTimeout i = true ∨
        rest = [] ∧ ¬ spent i.toProgress) :
      Moves intentTimeout l
        { l with invoked := l.invoked ++ [k], current := some k, ahead := rest }
  | resolve (l : Ledger) (k : Nat) (mid : Option MsgId) (f : Progress → Progress)
      (serving : l.current = some k) (resolves : Resolves l.registry k mid f) :
      Moves intentTimeout l { l with
        registry := l.registry.modify k f
        returned := l.returned ++ mid.toList.map fun m => (k, m)
        current := none }

def Ledger.prune (keep : SendIntent → Bool) (l : Ledger) : Ledger :=
  { l with
    registry := l.registry.prune keep
    ahead := []
    gone := l.gone ++ l.registry.dropped keep
    hooks := l.hooks ++ l.registry.retiring keep }

def Ledger.close (l : Ledger) : Ledger :=
  { l with terminal := true, registry := l.registry.modifyAll abort }

inductive Removes : Ledger → Ledger → Prop
  | prune (l : Ledger) (free : l.current = none) (drained : l.registry.armedUnposted = []) :
      Removes l (l.prune fun _ => false)
  | close (l : Ledger) (free : l.current = none) (live : l.terminal = false) :
      Removes l (l.close.prune (·.isLiveCompletionDebt))

end Moves

section Simulation
variable {w : World} {intentTimeout : Nat}

abbrev Many (intentTimeout : Nat) := Relation.ReflTransGen (Moves intentTimeout)

/-- Nothing changed that the ledger shows, but for where the locked call stands. -/
structure SameIntents (w v : World) : Prop where
  registry : v.seq.registry = w.seq.registry
  terminal : v.seq.terminal = w.seq.terminal
  invoked : v.topic.invoked = w.topic.invoked
  returned : v.topic.returned = w.topic.returned
  gone : v.topic.gone = w.topic.gone
  hooks : v.topic.hooks = w.topic.hooks

theorem SameIntents.ledger {v : World} (h : SameIntents w v) : ledger v =
    { ledger w with current := Doing.current v.doing, ahead := Doing.ahead v.doing } := by
  simp [SequencerLedger.ledger, h.registry, h.terminal, h.invoked, h.returned, h.gone, h.hooks]

theorem many_of_same {v : World} (h : SameIntents w v) (free : Doing.current w.doing = none)
    (quiet : Doing.current v.doing = none) (empty : Doing.ahead v.doing = []) :
    Many intentTimeout (ledger w) (ledger v) := by
  rw [h.ledger, quiet, empty, ← free]
  exact .single (.release _ free)

theorem sameIntents_back {s : Sequencer} (registry : s.registry = w.seq.registry)
    (terminal : s.terminal = w.seq.terminal) (origin : Origin) (a : Answer) :
    SameIntents w ({ w with seq := s }.back origin a) := by
  cases origin <;> exact ⟨registry, terminal, rfl, rfl, rfl, rfl⟩

theorem current_back (origin : Origin) (a : Answer) :
    Doing.current (w.back origin a).doing = none := by
  cases origin <;> rfl

theorem ahead_back (origin : Origin) (a : Answer) : Doing.ahead (w.back origin a).doing = [] := by
  cases origin <;> rfl

section
variable {s : Sequencer} (free : Doing.current w.doing = none)
  (registry : s.registry = w.seq.registry) (terminal : s.terminal = w.seq.terminal)
include free registry terminal

theorem many_back (origin : Origin) (a : Answer) :
    Many intentTimeout (ledger w) (ledger ({ w with seq := s }.back origin a)) :=
  many_of_same (sameIntents_back registry terminal origin a) free
    (current_back origin a) (ahead_back origin a)

theorem many_finish (a : Answer) :
    Many intentTimeout (ledger w) (ledger ({ w with seq := s }.finish a)) :=
  many_back free registry terminal .caller a

theorem many_wait {d : Doing} (quiet : Doing.current d = none) (empty : Doing.ahead d = []) :
    Many intentTimeout (ledger w) (ledger { w with seq := s, doing := d }) :=
  many_of_same ⟨registry, terminal, rfl, rfl, rfl, rfl⟩ free quiet empty

end

theorem many_touch (k : Nat) (f : Progress → Progress)
    (mild : ∀ i, w.seq.registry.get? k = some i → Mild i.toProgress (f i.toProgress)) :
    Many intentTimeout (ledger w) (ledger { w with seq := w.seq.progress k f }) :=
  .single (.touch (ledger w) k f mild)

theorem many_touchRequest (rid : String) (f : Progress → Progress)
    (mild : ∀ p, Mild p (f p)) :
    Many intentTimeout (ledger w) (ledger { w with seq := w.seq.progressRequest rid f }) := by
  unfold Sequencer.progressRequest
  split
  · exact many_touch _ f fun i _ => mild i.toProgress
  · exact .refl

theorem many_call (c : Call) : Many intentTimeout (ledger w) (ledger { w with seq := c.run w.seq }) := by
  cases c with
  | registerIntent rid tool hash onRetire =>
    simp only [Call.run, registerIntent]
    split
    · exact .refl
    · rename_i live
      exact .single (.register (ledger w) ((Bool.not_eq_true _).mp live) w.seq.clock rid tool hash onRetire)
  | armIntent rid => exact many_touchRequest rid _ (mild_arm w.seq.clock)
  | cancelIntent rid => exact many_touchRequest rid _ mild_cancel
  | recordIntentRefusal rid error message =>
    exact many_touchRequest rid _ fun p => mild_refuse p error message
  | recordIntentCancelledNowait rid error message =>
    simp only [Call.run]
    rcases recordIntentCancelledNowait_cases w.seq rid (.refused error message) with
      ⟨-, same⟩ | ⟨i, -, -, -, effect⟩
    · rw [same]
    · rw [effect]
      exact many_touch _ _ fun i _ => mild_refuse i.toProgress error message
  | registerCompletionConsumption rid hash =>
    simp only [Call.run, registerCompletionConsumption]
    split
    · exact .refl
    · rename_i live
      refine .tail (.single (.register (ledger w) ((Bool.not_eq_true _).mp live) w.seq.clock rid
        .emitCompletion hash false)) (.touch _ _ _ fun i _ => ?_)
      exact ⟨advances_of_settled (.inr rfl) (fun _ => rfl) rfl rfl rfl, fun _ here _ => here⟩
  | setTurnReplyTo mid => exact .refl
  | consumeTurnReplyTo => exact .refl
  | restoreTurnReplyTo mid =>
    simp only [Call.run]
    split <;> exact .refl

theorem many_visit {walk : Walk} {k : Nat} {rest : List Nat}
    (free : Doing.current w.doing = none)
    (next : Doing.ahead w.doing = (walk, k) :: rest.map (fun j => (walk, j)) ∨
      Doing.ahead w.doing = [] ∧ rest = [] ∧
        ∀ i, w.seq.registry.get? k = some i → ¬ spent i.toProgress) :
    Many intentTimeout (ledger w) (ledger (visit intentTimeout walk k rest w)) := by
  -- passing over an intent: nothing is left of a block's own
  have passed : ∀ s : Sequencer, Many intentTimeout (ledger { w with seq := s })
      (ledger { w with seq := s, doing := .walking walk rest }) := by
    intro s
    rcases next with ahead | ⟨empty, rfl, -⟩
    · have same : ledger { w with seq := s, doing := .walking walk rest } =
          { ledger { w with seq := s } with ahead := rest.map fun j => (walk, j) } := by
        simp [ledger, free]
      rw [same]
      exact .single (.pass _ (walk, k) _ free ahead)
    · have same : ledger { w with seq := s, doing := .walking walk [] } =
          ledger { w with seq := s } := by
        simp [ledger, free, empty]
      rw [same]
  unfold visit
  split
  · exact passed w.seq
  · rename_i i found
    split
    · exact passed w.seq
    · split
      · refine (many_touch k _ fun j _ => ?_).trans (passed _)
        refine (mild_of_failed ?_ ?_ ?_ ?_ ?_ ?_ ?_).trans (mild_leaveDebt walk _)
        · rfl
        · rfl
        · rfl
        · rfl
        · rfl
        · rfl
        · rintro o ⟨⟩ ok
          cases ok
      · rename_i due _
        refine .tail (.single (.invoke (ledger w) walk k (rest.map fun j => (walk, j)) i free
          found ?_)) (.touch _ k _ fun j _ => ?_)
        · exact next.imp (fun ahead => ⟨ahead, (Bool.not_eq_false _).mp due⟩)
            (fun block => ⟨List.map_eq_nil_iff.mpr block.2.1, block.2.2 i found⟩)
        exact mild_of_flags rfl rfl rfl rfl rfl rfl (fun _ => rfl) fun eaten => .inl eaten

theorem recorded_iff {s : Sequencer} {k : Nat} {i : SendIntent}
    (found : s.registry.get? k = some i) : s.recorded k = i.outcome.isSome := by
  rw [Sequencer.recorded, found, Option.bind_some]

theorem mild_posted (p : Progress) : Mild p { p with posting := false } :=
  mild_of_flags rfl rfl rfl rfl rfl rfl (fun _ => rfl) fun eaten => .inl eaten

theorem mild_missed (walk : Walk) (p : Progress) : Mild p (walk.missed p) := by
  refine Mild.trans ?_ (mild_leaveDebt walk _)
  split
  · exact mild_posted p
  · refine mild_of_failed rfl rfl rfl rfl rfl rfl ?_
    rintro o ⟨⟩ ok
    cases ok

theorem spent_missed (walk : Walk) {p : Progress} (sound : Sound p) : spent (walk.missed p) := by
  refine (mild_leaveDebt walk _).spent ?_
  split
  · rename_i compensated
    refine (mild_posted p).spent (sound.resolved ?_)
    exact Option.isSome_of_any compensated
  · exact .inr rfl

theorem advances_delivered (walk : Walk) (m : MsgId) (p : Progress) :
    Advances p (walk.delivered m p) ∧ spent (walk.delivered m p) := by
  have done : settled (walk.delivered m p) := (mild_leaveDebt walk _).settled (.inr rfl)
  refine ⟨advances_of_settled done (fun _ => (mild_leaveDebt walk _).posted rfl) ?_ ?_ ?_,
    .inl done⟩
  all_goals unfold Walk.delivered Walk.leaveDebt
  all_goals split
  all_goals try split
  all_goals rfl

theorem outcome_delivered (walk : Walk) (m : MsgId) (p : Progress) :
    (walk.delivered m p).outcome = some (.posted m walk.outOfBand) := by
  unfold Walk.delivered Walk.leaveDebt
  split
  · split <;> rfl
  · rfl

theorem resolves_of_mild {r : IntentRegistry} {k : Nat} {f : Progress → Progress}
    (mid : Option MsgId) (mild : ∀ p, Mild p (f p))
    (resolved : ∀ i, r.get? k = some i → Sound i.toProgress → spent (f i.toProgress)) :
    Resolves r k mid f where
  advances _ _ := (mild _).toAdvances
  resolved := resolved
  honest _ _ o has ok := .inl ((mild _).honest o has ok)

theorem resolves_delivered (r : IntentRegistry) (k : Nat) (walk : Walk) (m : MsgId) :
    Resolves r k (some m) (walk.delivered m) where
  advances _ _ := (advances_delivered walk m _).1
  resolved _ _ _ := (advances_delivered walk m _).2
  honest := by
    intro i _ o has _
    rw [outcome_delivered] at has
    cases has
    exact .inr ⟨m, rfl, rfl⟩

theorem resolvePost_resolves (walk : Walk) (k : Nat) (mid : Option MsgId) (s : Sequencer) :
    ∃ f, Resolves s.registry k mid f ∧
      (resolvePost walk k mid s).registry = s.registry.modify k f ∧
      (resolvePost walk k mid s).terminal = s.terminal := by
  cases mid with
  | none =>
    refine ⟨walk.missed, resolves_of_mild none (mild_missed walk) ?_, rfl, rfl⟩
    exact fun i _ => spent_missed walk
  | some m =>
    simp only [resolvePost]
    split
    · rename_i recorded
      have mild : ∀ p : Progress, Mild p (walk.leaveDebt { p with posting := false }) :=
        fun p => (mild_posted p).trans (mild_leaveDebt walk _)
      refine ⟨_, resolves_of_mild (some m) mild ?_, rfl, rfl⟩
      intro i found sound
      rw [recorded_iff found] at recorded
      exact (mild _).spent (sound.resolved recorded)
    · exact ⟨walk.delivered m, resolves_delivered _ k walk m, by simp [Sequencer.progress],
        by simp [Sequencer.progress]⟩

theorem interruptPost_resolves (walk : Walk) (k : Nat) (s : Sequencer) :
    ∃ f, Resolves s.registry k none f ∧
      (interruptPost walk k s).registry = s.registry.modify k f ∧
      (interruptPost walk k s).terminal = s.terminal := by
  unfold interruptPost
  split
  · rename_i recorded
    refine ⟨_, resolves_of_mild none mild_posted ?_, rfl, rfl⟩
    intro i found sound
    rw [recorded_iff found] at recorded
    exact (mild_posted _).spent (sound.resolved recorded)
  · refine ⟨fun p => { p with
        posting := false
        postFailed := true
        consumed := true
        outcome := some (.interrupted walk.outOfBand) },
      resolves_of_mild none (fun p => ?_) (fun i _ _ => .inr rfl),
      by simp [Sequencer.progress], by simp [Sequencer.progress]⟩
    refine mild_of_failed rfl rfl rfl rfl rfl rfl ?_
    rintro o ⟨⟩ ok
    cases ok

theorem many_resolve {k : Nat} {mid : Option MsgId} {f : Progress → Progress} {v : World}
    (serving : Doing.current w.doing = some k) (resolves : Resolves w.seq.registry k mid f)
    (registry : v.seq.registry = w.seq.registry.modify k f)
    (terminal : v.seq.terminal = w.seq.terminal)
    (topic : v.topic = { w.topic with
      returned := w.topic.returned ++ mid.toList.map fun m => (k, m) })
    (quiet : Doing.current v.doing = none)
    (rest : Doing.ahead v.doing = Doing.ahead w.doing ∨ Doing.ahead v.doing = []) :
    Many intentTimeout (ledger w) (ledger v) := by
  have move : Moves intentTimeout (ledger w) _ :=
    .resolve (ledger w) k mid f serving resolves
  have after : ledger v = { ledger w with
      registry := (ledger w).registry.modify k f
      returned := (ledger w).returned ++ mid.toList.map fun m => (k, m)
      current := none
      ahead := Doing.ahead v.doing } := by
    simp [ledger, registry, terminal, topic, quiet]
  rw [after]
  rcases rest with same | left
  · rw [same]
    exact .single move
  · rw [left]
    exact .tail (.single move) (.release _ rfl)

def Evolves (intentTimeout : Nat) (l m : Ledger) : Prop :=
  Many intentTimeout l m ∨ Removes l m

theorem evolves_proceed {walk : Walk} {rest : List Nat} (here : w.doing = .walking walk rest) :
    Evolves intentTimeout (ledger w) (ledger (proceed intentTimeout walk rest w)) := by
  have free : Doing.current w.doing = none := by rw [here]; rfl
  cases rest with
  | cons k more => exact .inl (many_visit free (.inl (by rw [here]; rfl)))
  | nil =>
    cases walk with
    | block => exact .inl (many_finish free rfl rfl _)
    | process now => exact .inl (many_finish free rfl rfl _)
    | flush => exact .inl (many_finish free rfl rfl _)
    | drain =>
      simp only [proceed]
      split
      · rename_i drained
        refine .inr ?_
        have after : ledger ({ w.prune (fun _ => false) with
            seq := (w.prune fun _ => false).seq.sealNarrationLocked }.finish .nothing) =
            (ledger w).prune fun _ => false := by
          simp [ledger, Ledger.prune, World.prune, World.finish, here, Doing.current, Doing.ahead]
        rw [after]
        exact .prune _ free drained
      · refine .inl (.single ?_)
        have after : ledger { w with doing := .walking .drain w.seq.registry.armedUnposted } =
            { ledger w with
              ahead := w.seq.registry.armedUnposted.map fun k => (Walk.drain, k) } := by
          simp [ledger, free]
        rw [after]
        exact .list _ _ free

theorem not_spent_of_matchable {i : SendIntent} (armed : i.state = .armed)
    (matchable : i.matchable = true) : ¬ spent i.toProgress := by
  rintro (done | failed)
  · rcases done with no | no
    · rw [armed] at no
      cases no
    · rw [armed] at no
      cases no
  · simp [SendIntent.matchable, failed] at matchable

theorem many_postForBlock (tool : Tool) (hash : String) (last : Bool) (here : w.doing = .idle) :
    Many intentTimeout (ledger w) (ledger (postForBlock intentTimeout tool hash last w)) := by
  have free : Doing.current w.doing = none := by rw [here]; rfl
  have empty : Doing.ahead w.doing = [] := by rw [here]; rfl
  have touched : ∀ (i : SendIntent) (s : Sequencer) (f : Progress → Progress) (a : Answer),
      i ∈ w.seq.registry.intents → s.registry = w.seq.registry.modify i.seq f →
      s.terminal = w.seq.terminal → Mild i.toProgress (f i.toProgress) →
      Many intentTimeout (ledger w) (ledger ({ w with seq := s }.finish a)) := by
    intro i s f a mem registry terminal mild
    refine (many_touch i.seq f fun j found => ?_).trans
      (many_finish (w := { w with seq := w.seq.progress i.seq f }) free registry terminal a)
    obtain ⟨inside, same⟩ := IntentRegistry.get?_eq_some_iff.mp found
    rwa [IntentRegistry.eq_of_seq inside mem same]
  unfold postForBlock
  split
  · rename_i i found
    obtain ⟨mem, matchable⟩ := IntentRegistry.mem_of_oldestMatchable found
    split
    · rename_i armed
      refine many_visit free (.inr ⟨empty, rfl, fun j found => ?_⟩)
      obtain ⟨inside, same⟩ := IntentRegistry.get?_eq_some_iff.mp found
      rw [IntentRegistry.eq_of_seq inside mem same]
      exact not_spent_of_matchable armed matchable
    · rename_i cancelled
      exact touched i _ _ _ mem rfl rfl
        (mild_of_flags rfl rfl rfl rfl rfl rfl (fun _ => rfl) fun _ => .inr (.inl cancelled))
    · rename_i posted
      refine touched i _ (fun p => { p with consumed := true }) _ mem ?_ ?_
        (mild_of_flags rfl rfl rfl rfl rfl rfl (fun _ => rfl) fun _ => .inr (.inr posted))
      · simp [Sequencer.progress]
      · simp [Sequencer.progress]
    · rename_i pending
      have before : ¬ settled i.toProgress := by simp [settled, pending]
      split
      · exact touched i _ _ _ mem rfl rfl (mild_of_flags rfl rfl rfl rfl rfl rfl
          (fun done => absurd done before) fun eaten => .inl eaten)
      · exact many_finish free rfl rfl _
  · split
    · exact many_finish free rfl rfl _
    · split <;> exact many_finish free rfl rfl _

theorem evolves_terminalize (here : w.doing = .idle) :
    Evolves intentTimeout (ledger w) (ledger (terminalize w)) := by
  have free : Doing.current w.doing = none := by rw [here]; rfl
  unfold terminalize
  split
  · exact .inl (many_finish free rfl rfl _)
  · rename_i live
    refine .inr ?_
    have after : ledger (({ w with seq := { w.seq with
        terminal := true
        registry := w.seq.registry.modifyAll abort } }.prune (·.isLiveCompletionDebt)).finish
          .nothing) = (ledger w).close.prune (·.isLiveCompletionDebt) := by
      simp [ledger, Ledger.prune, Ledger.close, World.prune, World.finish, here, Doing.current,
        Doing.ahead]
    rw [after]
    exact .close _ free ((Bool.not_eq_true _).mp live)

theorem many_openNarration (text : String) (origin : Origin)
    (free : Doing.current w.doing = none) :
    Many intentTimeout (ledger w) (ledger (openNarration text origin w)) := by
  unfold openNarration
  split
  · exact many_back free rfl rfl origin _
  · exact many_wait free rfl rfl rfl rfl

theorem many_editNarrationIfLatest (m : MsgId) (text : String) (markup : Markup)
    (origin : Origin) (free : Doing.current w.doing = none) :
    Many intentTimeout (ledger w) (ledger (editNarrationIfLatest m text markup origin w)) := by
  unfold editNarrationIfLatest
  split
  · exact many_back free rfl rfl origin _
  · split
    · exact many_back free rfl rfl origin _
    · split
      · exact many_back free rfl rfl origin _
      · exact many_wait free rfl rfl rfl rfl

theorem many_gateDiscreteEdit (m : MsgId) (text : Option String) (markup : Markup)
    (free : Doing.current w.doing = none) :
    Many intentTimeout (ledger w) (ledger (gateDiscreteEdit m text markup w)) := by
  unfold gateDiscreteEdit
  split
  · exact many_finish free rfl rfl _
  · exact many_wait free rfl rfl rfl rfl

theorem many_start {task : Task} (here : w.doing = .idle) (lives : task ≠ .terminalize) :
    Many intentTimeout (ledger w) (ledger (task.start intentTimeout w)) := by
  have free : Doing.current w.doing = none := by rw [here]; rfl
  have listed : ∀ walk, Many intentTimeout (ledger w)
      (ledger { w with doing := .walking walk w.seq.registry.armedUnposted }) := by
    intro walk
    have after : ledger { w with doing := .walking walk w.seq.registry.armedUnposted } =
        { ledger w with ahead := w.seq.registry.armedUnposted.map fun k => (walk, k) } := by
      simp [ledger, free]
    rw [after]
    exact .single (.list _ walk free)
  cases task with
  | openNarration text => exact many_openNarration text .caller free
  | editNarrationIfLatest m text markup =>
    exact many_editNarrationIfLatest m text markup .caller free
  | postUnlessAnchorOpen text seam posts =>
    simp only [Task.start, postUnlessAnchorOpen]
    split
    · exact many_finish free rfl rfl _
    · split
      · exact many_wait free rfl rfl rfl rfl
      · split <;> exact many_wait free rfl rfl rfl rfl
  | editSummary m text =>
    simp only [Task.start, editSummary]
    split
    · exact many_finish free rfl rfl _
    · exact many_wait free rfl rfl rfl rfl
  | sealNarration => exact many_finish free (by simp) (by simp) _
  | advanceHighWaterForInbound o =>
    cases o with
    | none => exact many_finish free (by simp) (by simp) _
    | some m =>
      refine many_of_same ⟨?_, ?_, rfl, rfl, rfl, rfl⟩ free rfl rfl
      · simp [Task.start, advanceHighWaterForInbound, World.finish]
      · simp [Task.start, advanceHighWaterForInbound, World.finish]
  | postPlatformNotice =>
    simp only [Task.start, postPlatformNotice]
    split
    · exact many_finish free rfl rfl _
    · exact many_wait free (by simp) (by simp) rfl rfl
  | postCompletionNotice => exact many_wait free (by simp) (by simp) rfl rfl
  | postDiscrete text markup revalidate budgeted =>
    simp only [Task.start, postDiscrete]
    split
    · exact many_finish free rfl rfl _
    · split <;> exact many_wait free rfl rfl rfl rfl
  | editDiscrete m text markup revalidate =>
    simp only [Task.start, editDiscrete]
    split
    · exact many_wait free rfl rfl rfl rfl
    · exact many_gateDiscreteEdit m text markup free
  | postForBlock tool hash last => exact many_postForBlock tool hash last here
  | processIntentsOnce => exact listed _
  | flushArmedIntents => exact listed _
  | drainAndPruneTurn => exact many_wait free rfl rfl rfl rfl
  | terminalize => exact absurd rfl lives

theorem many_edited (what : Edit) (ok : Bool) (free : Doing.current w.doing = none) :
    Many intentTimeout (ledger w) (ledger (edited what ok w)) := by
  unfold edited
  split
  · split <;> exact many_back (s := w.seq.cache _ _) free rfl rfl _ _
  · split <;> exact many_finish (s := w.seq.cache _ _) free rfl rfl _
  · split
    · exact many_finish (s := (w.seq.cache _ _).registerDiscreteCache _) free rfl rfl _
    · exact many_finish (s := (w.seq.cache _ _).forgetDiscreteCache _) free rfl rfl _

theorem many_editRaised (what : Edit) (free : Doing.current w.doing = none) :
    Many intentTimeout (ledger w) (ledger (editRaised what w)) := by
  unfold editRaised
  split
  · exact many_back free rfl rfl .relay _
  · exact many_finish free rfl rfl _

theorem many_returned {what : Send} {ids : List MsgId} (mid : Option MsgId)
    (here : w.doing = .sending what ids) : Many intentTimeout (ledger w) (ledger (returned what mid w)) := by
  cases what with
  | narration text replyTo origin =>
    exact many_back (by rw [here]; rfl) (by simp) (by simp) origin _
  | notice completion => exact many_finish (by rw [here]; rfl) (by simp) (by simp) _
  | discrete text markup budgeted => exact many_finish (by rw [here]; rfl) (by simp) (by simp) _
  | intent k walk rest =>
    obtain ⟨f, resolves, registry, terminal⟩ := resolvePost_resolves walk k mid w.seq
    exact many_resolve (by rw [here]; rfl) resolves registry terminal rfl rfl
      (.inl (by rw [here]; rfl))

theorem many_raised {what : Send} {ids : List MsgId} (here : w.doing = .sending what ids) :
    Many intentTimeout (ledger w) (ledger (raised what w)) := by
  cases what with
  | narration text replyTo origin =>
    have free : Doing.current w.doing = none := by rw [here]; rfl
    cases origin with
    | relay => exact many_back free rfl rfl .relay _
    | caller => exact many_finish free rfl rfl _
    | fallback => exact many_finish free rfl rfl _
  | notice completion => exact many_finish (by rw [here]; rfl) rfl rfl _
  | discrete text markup budgeted => exact many_finish (by rw [here]; rfl) rfl rfl _
  | intent k walk rest =>
    obtain ⟨f, resolves, registry, terminal⟩ := resolvePost_resolves walk k none w.seq
    exact many_resolve (by rw [here]; rfl) resolves registry terminal (by simp [raised]) rfl
      (.inl (by rw [here]; rfl))

theorem many_interrupted {what : Send} {ids : List MsgId} (here : w.doing = .sending what ids) :
    Many intentTimeout (ledger w) (ledger (interrupted what w)) := by
  cases what with
  | narration text replyTo origin => cases origin <;> exact many_raised here
  | notice completion => exact many_raised here
  | discrete text markup budgeted => exact many_raised here
  | intent k walk rest =>
    obtain ⟨f, resolves, registry, terminal⟩ := interruptPost_resolves walk k w.seq
    exact many_resolve (by rw [here]; rfl) resolves registry terminal
      (by simp [interrupted, World.finish]) rfl (.inr rfl)

theorem many_compensate (k : Nat) (mid : MsgId) :
    Many intentTimeout (ledger w) (ledger { w with seq := compensate k mid w.seq }) := by
  unfold compensate
  split
  · unfold markIntentCompensated
    split
    · exact .refl
    · split
      · exact .refl
      · rename_i i _ _
        have after : ∀ f, ledger { w with
            seq := (w.seq.sealNarrationLocked.progress i.seq f).raiseHighWater mid } =
            ledger { w with seq := w.seq.progress i.seq f } := by
          intro f
          simp [ledger, Sequencer.progress]
        rw [after]
        refine many_touch i.seq _ fun j _ =>
          ⟨advances_of_settled (.inr rfl) (fun _ => rfl) rfl rfl rfl, ?_⟩
        rintro o ⟨⟩ ok
        cases ok
  · exact .refl

theorem many_reply (r : Reply) : Many intentTimeout (ledger w) (ledger (r.answer w w.doing)) := by
  unfold Reply.answer
  split
  · rename_i what ids gap here
    have after : ledger (landed what ids gap w) = ledger w := by
      cases what <;> simp [ledger, landed, here, Doing.current, Doing.ahead]
    rw [after]
  · exact many_returned _ ‹_›
  · exact many_raised ‹_›
  · exact many_interrupted ‹_›
  · exact many_finish (by simp [Doing.current, *]) (by simp) (by simp) _
  · exact many_compensate _ _
  · rename_i m text ok _
    have same : SameIntents w { w with seq := nestedSummary m text ok w.seq } :=
      ⟨by simp, by simp, rfl, rfl, rfl, rfl⟩
    rw [same.ledger]
    exact .refl
  -- from here on no intent is in hand
  all_goals try have free : Doing.current w.doing = none := by rw [‹w.doing = _›]; rfl
  · exact many_edited _ _ free
  · exact many_editRaised _ free
  · split
    · exact many_finish free rfl rfl _
    · split <;> exact many_wait free rfl rfl rfl rfl
  · exact many_finish free rfl rfl _
  · exact many_openNarration _ .relay free
  · exact many_editNarrationIfLatest _ _ _ .relay free
  · exact many_finish free rfl rfl _
  · exact many_finish free rfl rfl _
  · split
    · exact many_wait free rfl rfl rfl rfl
    · exact many_finish free rfl rfl _
  · exact many_finish free rfl rfl _
  · split
    · exact many_gateDiscreteEdit _ _ _ free
    · exact many_finish free rfl rfl _
  · exact many_finish free rfl rfl _
  · exact .refl

theorem step_evolves (l : Label) : Evolves intentTimeout (ledger w) (ledger (step intentTimeout l w)) := by
  cases l with
  | call c => exact .inl (many_call c)
  | operator gap => exact .inl .refl
  | tick n => exact .inl .refl
  | start task =>
    simp only [step]
    split
    · rename_i here
      by_cases ends : task = .terminalize
      · exact ends ▸ evolves_terminalize here
      · exact .inl (many_start here ends)
    · exact .inl .refl
  | proceed =>
    simp only [step]
    split
    · exact evolves_proceed ‹_›
    · exact .inl .refl
  | reply r => exact .inl (many_reply r)

end Simulation

section Intents
variable {l m : Ledger} {intentTimeout : Nat}

section
variable (move : Moves intentTimeout l m)
include move

theorem Moves.nextSeq : l.registry.nextSeq ≤ m.registry.nextSeq := by
  cases move with
  | register _ now rid tool hash onRetire =>
    rcases IntentRegistry.register_cases l.registry now rid tool hash onRetire with same | new
    · exact Nat.le_of_eq (congrArg IntentRegistry.nextSeq same.symm)
    · exact new.1 ▸ Nat.le_succ _
  | _ => exact Nat.le_refl _

theorem Moves.intents {i : SendIntent} (mem : i ∈ m.registry.intents) :
    (∃ j ∈ l.registry.intents, j.toTicket = i.toTicket ∧ Advances j.toProgress i.toProgress) ∨
    i.seq = l.registry.nextSeq ∧ i.toProgress = {} := by
  have worked : ∀ (k : Nat) (f : Progress → Progress),
      (∀ j, l.registry.get? k = some j → Advances j.toProgress (f j.toProgress)) →
      i ∈ (l.registry.modify k f).intents →
      ∃ j ∈ l.registry.intents, j.toTicket = i.toTicket ∧
        Advances j.toProgress i.toProgress := by
    intro k f advances mem
    obtain ⟨j, inside, ticket, ⟨-, same⟩ | ⟨found, same⟩⟩ :=
      IntentRegistry.exists_of_mem_modify mem
    · exact ⟨j, inside, ticket, same ▸ .refl _⟩
    · exact ⟨j, inside, ticket, same ▸ advances j found⟩
  cases move with
  | register _ now rid tool hash onRetire =>
    rcases IntentRegistry.register_cases l.registry now rid tool hash onRetire with same | new
    · simp only [same] at mem
      exact .inl ⟨i, mem, rfl, .refl _⟩
    · simp only [new.2, List.mem_append, List.mem_singleton] at mem
      rcases mem with old | rfl
      · exact .inl ⟨i, old, rfl, .refl _⟩
      · exact .inr ⟨rfl, rfl⟩
  | touch k f mild => exact .inl (worked k f (fun j found => (mild j found).toAdvances) mem)
  | resolve k mid f _ resolves => exact .inl (worked k f resolves.advances mem)
  | _ => exact .inl ⟨i, mem, rfl, .refl _⟩

theorem Moves.persists {i : SendIntent}
    (mem : i ∈ l.registry.intents) : ∃ j ∈ m.registry.intents, j.toTicket = i.toTicket := by
  have worked : ∀ (k : Nat) (f : Progress → Progress),
      ∃ j ∈ (l.registry.modify k f).intents, j.toTicket = i.toTicket :=
    fun k f => ⟨_, IntentRegistry.mem_modify.mpr ⟨i, mem, rfl⟩, i.ticket_progress k f⟩
  cases move with
  | register _ now rid tool hash onRetire =>
    rcases IntentRegistry.register_cases l.registry now rid tool hash onRetire with same | new
    · refine ⟨i, ?_, rfl⟩
      rw [same]
      exact mem
    · refine ⟨i, ?_, rfl⟩
      rw [new.2]
      exact List.mem_append_left _ mem
  | touch k f _ => exact worked k f
  | resolve k mid f _ _ => exact worked k f
  | _ => exact ⟨i, mem, rfl⟩

theorem Moves.terminal : m.terminal = l.terminal := by
  cases move <;> rfl

end

theorem Many.terminal (many : Many intentTimeout l m) : m.terminal = l.terminal := by
  induction many with
  | refl => rfl
  | tail _ move ih => exact move.terminal.trans ih

theorem Moves.gone (move : Moves intentTimeout l m) : m.gone = l.gone ∧ m.hooks = l.hooks := by
  cases move <;> exact ⟨rfl, rfl⟩

theorem Removes.intents (removal : Removes l m) {i : SendIntent}
    (mem : i ∈ m.registry.intents) :
    ∃ j ∈ l.registry.intents, j.toTicket = i.toTicket ∧ Advances j.toProgress i.toProgress := by
  cases removal with
  | prune _ _ => exact absurd (IntentRegistry.mem_prune.mp mem).2 Bool.false_ne_true
  | close _ _ =>
    obtain ⟨j, inside, rfl⟩ := IntentRegistry.mem_modifyAll.mp (IntentRegistry.mem_prune.mp mem).1
    exact ⟨j, inside, rfl, (mild_abort _).toAdvances⟩

theorem Removes.nextSeq (removal : Removes l m) : m.registry.nextSeq = l.registry.nextSeq := by
  cases removal <;> rfl

theorem Evolves.keeps {J : Ledger → Prop} (evolves : Evolves intentTimeout l m) (held : J l)
    (moves : ∀ l m, J l → Moves intentTimeout l m → J m) (removes : ∀ l m, J l → Removes l m → J m) : J m := by
  rcases evolves with many | removal
  · induction many with
    | refl => exact held
    | tail _ move ih => exact moves _ _ ih move
  · exact removes l m held removal

end Intents

end Casa.SequencerLedger
