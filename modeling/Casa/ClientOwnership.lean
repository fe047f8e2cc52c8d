import Casa.ClientTurns

/-! Who closes a connected client. It is an entry, or a closer has it, or a turn waits for its
disconnect: a turn that merely runs on a client owns nothing that it need not give back. Two steps
of the pool break this: the publication of a fresh client over another one, or into a pool that is
closing, and a closer that is cancelled while it waits for the lock. -/

namespace Casa.ClientOwnership
open StepRuns ClientPool ClientTurns

def cuts (e : ℕ) : Stage → Option ℕ
  | .flushing _ => some e
  | .failing c => some c
  | .breaking _ => some e
  | .dropping => some e
  | _ => none

def queries (e : ℕ) : Stage → Option ℕ
  | .running => some e
  | .cleaning => some e
  | _ => none

def connects : Stage → Option ℕ
  | .connecting _ c => some c
  | _ => none

def At (calls : ℕ → Option Call) (j : ℕ) (here : ℕ → Stage → Prop) : Prop :=
  ∃ t e s, calls j = some (.turn t) ∧ t.place = .holds e s ∧ here e s

structure Hands where
  keyOf : ℕ → String
  entries : String → Option ℕ
  taken : ℕ → Option Closer
  state : ℕ → ClientState
  client : ℕ → Bool
  connected : ℕ → Bool

def hands (p : Pool) : Hands where
  keyOf := p.keyOf
  entries := p.entries
  taken := p.taken
  state := p.state
  client := p.client
  connected := p.connected

def Disconnecting (c : Option Closer) : Prop := ∃ d, c = some d ∧ d.phase ≠ .waiting

/-- One client; the call `x` is under way and answers for nothing. -/
structure ClientOk (x : Option ℕ) (p : Hands) (calls : ℕ → Option Call) (c : ℕ) : Prop where
  owner : p.connected c = true → p.entries (p.keyOf c) = some c ∨ p.taken c ≠ none ∨
    ∃ j, x ≠ some j ∧ At calls j fun e s => cuts e s = some c
  closable : p.connected c = true → p.client c = true ∨ Disconnecting (p.taken c) ∨
    ∃ j, x ≠ some j ∧ At calls j fun e s => cuts e s = some c
  ended : p.state c = .closed ∨ p.state c = .invalid → p.client c = false
  inTurn : p.state c = .inTurn → ∃ j, x ≠ some j ∧ At calls j fun e s => queries e s = some c
  coming : ∀ j, x ≠ some j → (At calls j fun _ s => connects s = some c) → p.client c = true

def Owned (x y : Option ℕ) (p : Pool) : Prop :=
  ∀ c, y ≠ some c → ClientOk x (hands p) p.calls c

variable {p q : Pool} {x y : Option ℕ} {i j e c : ℕ} {k : String} {t : Turn} {s : Stage}

section Clients

structure Agree (p q : Hands) (c : ℕ) : Prop where
  connected : q.connected c = true → p.connected c = true
  entry : q.connected c = true → p.entries (p.keyOf c) = some c →
    q.entries (q.keyOf c) = some c
  taken : q.taken c = p.taken c
  client : q.client c = p.client c
  state : q.state c = p.state c

theorem ClientOk.agree {p q : Hands} {calls : ℕ → Option Call} (ok : ClientOk x p calls c)
    (same : Agree p q c) : ClientOk x q calls c where
  owner up := by
    rw [same.taken]
    exact (ok.owner (same.connected up)).imp_left (same.entry up)
  closable up := by
    rw [same.taken, same.client]
    exact ok.closable (same.connected up)
  ended := by
    rw [same.state, same.client]
    exact ok.ended
  inTurn := by
    rw [same.state]
    exact ok.inTurn
  coming := by
    rw [same.client]
    exact ok.coming

theorem Owned.change (h : Owned x y p) (calls : q.calls = p.calls)
    (same : ∀ c, y ≠ some c → Agree (hands p) (hands q) c) : Owned x y q := by
  intro c other
  rw [calls]
  exact (h c other).agree (same c other)

theorem Owned.fill (h : Owned x (some e) p) (ok : ClientOk x (hands p) p.calls e) :
    Owned x none p := by
  intro c _
  by_cases here : c = e
  · exact here ▸ ok
  · exact h c fun same => here (Option.some.inj same).symm

theorem Owned.but (h : Owned x none p) (y : Option ℕ) : Owned x y p := fun c _ => h c nofun

theorem At.other {new : Option Call} {here : ℕ → Stage → Prop} (apart : j ≠ i)
    (at_ : At p.calls j here) : At (p.setCall i new).calls j here := by
  obtain ⟨t, e, s, called, rest⟩ := at_
  exact ⟨t, e, s, (Function.update_of_ne apart _ _).trans called, rest⟩

theorem At.old {new : Option Call} {here : ℕ → Stage → Prop} (apart : j ≠ i)
    (at_ : At (p.setCall i new).calls j here) : At p.calls j here := by
  obtain ⟨t, e, s, called, rest⟩ := at_
  exact ⟨t, e, s, (Function.update_of_ne apart _ _).symm.trans called, rest⟩

theorem ClientOk.settle {new : Option Call} (ok : ClientOk (some i) (hands p) p.calls c)
    (coming : (At (p.setCall i new).calls i fun _ s => connects s = some c) → p.client c = true) :
    ClientOk none (hands p) (p.setCall i new).calls c := by
  have others {here : ℕ → Stage → Prop} :
      (∃ j, some i ≠ some j ∧ At p.calls j here) →
        ∃ j, none ≠ some j ∧ At (p.setCall i new).calls j here := by
    rintro ⟨j, other, at_⟩
    exact ⟨j, nofun, at_.other fun same => other (congrArg some same.symm)⟩
  refine ⟨fun up => (ok.owner up).imp_right fun rest => rest.imp_right others,
    fun up => (ok.closable up).imp_right fun rest => rest.imp_right others, ok.ended,
    fun now => others (ok.inTurn now), fun j _ at_ => ?_⟩
  by_cases same : j = i
  · exact coming (same ▸ at_)
  · exact ok.coming j (fun eq => same (Option.some.inj eq).symm) (at_.old same)

theorem owned_setCall {new : Option Call} (h : Owned (some i) y p)
    (mine : ∀ c, y = some c → ClientOk none (hands p) (p.setCall i new).calls c)
    (coming : ∀ c, (At (p.setCall i new).calls i fun _ s => connects s = some c) →
      p.client c = true) : Owned none none (p.setCall i new) := by
  intro c _
  by_cases own : y = some c
  · exact mine c own
  · exact (h c own).settle (coming c)

theorem owned_idle {new : Option Call} (h : Owned (some i) none p)
    (idle : ∀ t, new = some (.turn t) → ∀ e s, t.place ≠ .holds e s) :
    Owned none none (p.setCall i new) := by
  refine owned_setCall h nofun ?_
  rintro c ⟨t, e, s, called, place, -⟩
  exact absurd place (idle t ((Function.update_self i _ _).symm.trans called) e s)

theorem owned_wait (h : Owned (some i) none p) (quiet : connects s = none) :
    Owned none none (p.goto i t (.holds e s)) := by
  refine owned_setCall h nofun ?_
  rintro c ⟨u, e', s', called, place, there⟩
  cases (Function.update_self i _ _).symm.trans called
  cases place
  rw [quiet] at there
  cases there

theorem owned_cut (h : Owned (some i) (some c) p) (cut : cuts e s = some c)
    (unlinked : p.client c = false) (out : p.state c ≠ .inTurn)
    (alone : ∀ j, j ≠ i → ¬ At p.calls j fun _ s => connects s = some c) :
    Owned none none (p.goto i t (.holds e s)) := by
  have quiet : connects s = none := by
    cases s <;> first | rfl | cases cut
  have away (c' : ℕ) : ¬ At (p.goto i t (.holds e s)).calls i fun _ s => connects s = some c' := by
    rintro ⟨u, e', s', called, place, there⟩
    cases (Function.update_self i _ _).symm.trans called
    cases place
    rw [quiet] at there
    cases there
  have here : ∃ j, (none : Option ℕ) ≠ some j ∧
      At (p.goto i t (.holds e s)).calls j fun e s => cuts e s = some c :=
    ⟨i, nofun, _, e, s, Function.update_self i _ _, rfl, cut⟩
  refine owned_setCall h ?_ fun c' at_ => absurd at_ (away c')
  rintro _ ⟨⟩
  refine ⟨fun _ => .inr (.inr here), fun _ => .inr (.inr here), fun _ => unlinked,
    fun now => absurd now out, fun j _ at_ => ?_⟩
  by_cases same : j = i
  · exact absurd (same ▸ at_) (away c)
  · exact absurd (at_.old same) (alone j same)

theorem owned_query (h : Owned (some i) none p) :
    Owned none none ((p.setState e .inTurn).goto i t (.holds e .running)) := by
  have away (c' : ℕ) :
      ¬ At ((p.setState e .inTurn).goto i t (.holds e .running)).calls i
        fun _ s => connects s = some c' := by
    rintro ⟨u, e', s', called, place, there⟩
    cases (Function.update_self i _ _).symm.trans called
    cases place
    cases there
  have here : ∃ j, (none : Option ℕ) ≠ some j ∧
      At ((p.setState e .inTurn).goto i t (.holds e .running)).calls j
        fun e' s => queries e' s = some e :=
    ⟨i, nofun, _, e, .running, Function.update_self i _ _, rfl, rfl⟩
  have moved : Owned (some i) (some e) (p.setState e .inTurn) := by
    refine (h.but _).change rfl fun c other => ⟨id, fun _ => id, rfl, rfl, ?_⟩
    exact Function.update_of_ne (fun same => other (congrArg some same.symm)) _ _
  refine owned_setCall moved ?_ fun c' at_ => absurd at_ (away c')
  rintro _ ⟨⟩
  have settled : ClientOk none (hands p) (p.goto i t (.holds e .running)).calls e :=
    (h e nofun).settle fun at_ => absurd at_ (away e)
  refine ⟨settled.owner, settled.closable, ?_, fun _ => here, settled.coming⟩
  intro now
  have active : (p.setState e .inTurn).state e = .inTurn := Function.update_self e _ _
  change (p.setState e .inTurn).state e = _ ∨ (p.setState e .inTurn).state e = _ at now
  rw [active] at now
  rcases now with now | now <;> cases now

end Clients

section Moves

theorem ne_of_other {e : ℕ} (other : some e ≠ some c) : c ≠ e :=
  fun same => other (congrArg some same.symm)

section
variable (h : Owned x (some e) p)
include h

theorem owned_unlink {state : ClientState} : Owned x (some e) (p.unlink e state) :=
  h.change rfl fun _ other => ⟨id, fun _ => id, rfl,
    Function.update_of_ne (ne_of_other other) _ _, Function.update_of_ne (ne_of_other other) _ _⟩

theorem owned_setState {state : ClientState} : Owned x (some e) (p.setState e state) :=
  h.change rfl fun _ other => ⟨id, fun _ => id, rfl, rfl,
    Function.update_of_ne (ne_of_other other) _ _⟩

theorem owned_setConnected {up : Bool} : Owned x (some e) (p.setConnected e up) := by
  refine h.change rfl fun c other => ⟨fun now => ?_, fun _ => id, rfl, rfl, rfl⟩
  exact (Function.update_of_ne (ne_of_other other) _ _).symm.trans now

theorem owned_setTaken {new : Option Closer} : Owned x (some e) (p.setTaken e new) :=
  h.change rfl fun _ other => ⟨id, fun _ => id, Function.update_of_ne (ne_of_other other) _ _,
    rfl, rfl⟩

theorem owned_unregister : Owned x (some e) (p.unregister k e) := by
  unfold Pool.unregister
  split
  swap
  · exact h
  rename_i entry
  refine h.change rfl fun c other => ⟨id, fun _ old => ?_, rfl, rfl, rfl⟩
  refine (Function.update_of_ne (fun same => ?_) _ _).trans old
  change p.entries (p.keyOf c) = some c at old
  rw [show p.keyOf c = k from same, entry] at old
  exact other old

end

theorem owned_make {lock : ℕ} {client : Bool} (h : Owned x none p) :
    Owned x (some p.next) (p.make k lock client) := by
  refine (h.but _).change rfl fun c other => ?_
  have away := ne_of_other other
  refine ⟨fun up => (Function.update_of_ne away _ _).symm.trans up, fun _ entry => ?_, rfl,
    Function.update_of_ne away _ _, Function.update_of_ne away _ _⟩
  change p.entries ((p.make k lock client).keyOf c) = some c
  rw [show (p.make k lock client).keyOf c = p.keyOf c from Function.update_of_ne away _ _]
  exact entry

theorem owned_register (h : Owned x (some c) p)
    (free : ∀ e, p.entries k = some e → p.connected e = false) :
    Owned x (some c) (p.register k c) := by
  refine h.change rfl fun c' _ => ⟨id, fun up old => ?_, rfl, rfl, rfl⟩
  refine (Function.update_of_ne (fun same => ?_) _ _).trans old
  change p.entries (p.keyOf c') = some c' at old
  rw [show p.keyOf c' = k from same] at old
  cases (free c' old).symm.trans up

theorem ClientOk.down {p : Hands} {calls : ℕ → Option Call} (off : p.connected c = false)
    (ended : p.state c = .closed ∨ p.state c = .invalid → p.client c = false)
    (out : p.state c ≠ .inTurn)
    (coming : ∀ j, x ≠ some j → (At calls j fun _ s => connects s = some c) →
      p.client c = true) : ClientOk x p calls c where
  owner up := by cases off.symm.trans up
  closable up := by cases off.symm.trans up
  ended := ended
  inTurn now := absurd now out
  coming := coming

end Moves

section Locks

theorem held_lock (held : Held False (core p) i k e s) (mine : c = e ∨ freshOf s = some c) :
    p.locks (p.lockOf c) = some (.call i) := by
  rcases mine with rfl | fresh
  · exact held.owner
  · rw [show p.lockOf c = p.lockOf e from (held.fresh c fresh).lock]
    exact held.owner

theorem turn_lock (ord : Orderly False none p) {here : ℕ → Stage → Prop} (at_ : At p.calls j here)
    (mine : ∀ e s, here e s → c = e ∨ freshOf s = some c) :
    p.locks (p.lockOf c) = some (.call j) := by
  obtain ⟨t, e, s, called, place, there⟩ := at_
  exact held_lock (turn_held ord called place) (mine e s there)

theorem cuts_mine (cut : cuts e s = some c) : c = e ∨ freshOf s = some c := by
  cases s <;> cases cut <;> first | exact .inl rfl | exact .inr rfl

theorem queries_mine (query : queries e s = some c) : c = e ∨ freshOf s = some c := by
  cases s <;> cases query <;> exact .inl rfl

theorem connects_fresh (connect : connects s = some c) : freshOf s = some c := by
  cases s <;> cases connect
  rfl

theorem alone_connecting (ord : Orderly False none p)
    (owner : p.locks (p.lockOf c) = some (.call i))
    {j : ℕ} (ne : j ≠ i) : ¬ At p.calls j fun _ s => connects s = some c := by
  intro at_
  have other := turn_lock ord at_ fun _ _ connect => .inr (connects_fresh connect)
  rw [owner] at other
  cases other
  exact ne rfl

theorem out_of_turn (h : Owned none none p) (ord : Orderly False none p)
    (owner : p.locks (p.lockOf c) = some (.call i)) (called : p.calls i = some (.turn t))
    (place : t.place = .holds e s) (quiet : queries e s ≠ some c) : p.state c ≠ .inTurn := by
  intro now
  obtain ⟨j, -, at_⟩ := (h c nofun).inTurn now
  have other := turn_lock ord at_ fun _ _ query => queries_mine query
  rw [owner] at other
  cases other
  obtain ⟨t', e', s', called', place', query⟩ := at_
  cases called.symm.trans called'
  cases place.symm.trans place'
  exact quiet query

theorem Owned.under (h : Owned none none p) (mine : ∀ t e s, p.calls i = some (.turn t) →
    t.place = .holds e s → ∀ c, cuts e s = some c ∨ queries e s = some c → y = some c) :
    Owned (some i) y p := by
  intro c other
  have ok := h c nofun
  have others {here : ℕ → Stage → Prop}
      (own : ∀ e s, here e s → cuts e s = some c ∨ queries e s = some c) :
      (∃ j, none ≠ some j ∧ At p.calls j here) → ∃ j, some i ≠ some j ∧ At p.calls j here := by
    rintro ⟨j, -, at_⟩
    refine ⟨j, ?_, at_⟩
    rintro ⟨⟩
    obtain ⟨t, e, s, called, place, there⟩ := at_
    exact other (mine t e s called place c (own e s there))
  have cut := others fun e s there => Or.inl there
  have query := others fun e s there => Or.inr there
  exact ⟨fun up => (ok.owner up).imp_right fun rest => rest.imp_right cut,
    fun up => (ok.closable up).imp_right fun rest => rest.imp_right cut, ok.ended,
    fun now => query (ok.inTurn now), fun j _ at_ => ok.coming j nofun at_⟩

theorem Owned.turn (h : Owned none none p) (called : p.calls i = some (.turn t))
    (mine : ∀ e s, t.place = .holds e s → ∀ c, cuts e s = some c ∨ queries e s = some c →
      y = some c) : Owned (some i) y p := by
  refine h.under fun u e s called' => ?_
  cases called.symm.trans called'
  exact mine e s

theorem Owned.call (h : Owned none none p) (other : ∀ t, p.calls i ≠ some (.turn t)) :
    Owned (some i) none p :=
  h.under fun t _ _ called => absurd called (other t)

end Locks

section Turns

def Alone (p : Pool) (i c : ℕ) : Prop := ∀ j, j ≠ i → ¬ At p.calls j fun _ s => connects s = some c

section
variable (h : Owned (some i) none p)
include h

theorem owned_leave : Owned none none (p.leave i e) :=
  owned_idle (p := p.setLock e none) h nofun

theorem owned_retry : Owned none none (p.retry i t) := by
  unfold Pool.retry
  split
  · exact owned_idle h nofun
  · refine owned_idle h ?_
    rintro u ⟨⟩ e s ⟨⟩

theorem owned_drop (alone : Alone p i e) : Owned none none (p.drop i t e) := by
  have removed : Owned (some i) (some e) ((p.unregister t.key e).unlink e .closed) :=
    owned_unlink (owned_unregister (h.but _))
  have calls : (p.unregister t.key e).calls = p.calls := by
    unfold Pool.unregister
    split <;> rfl
  have alone' : Alone ((p.unregister t.key e).unlink e .closed) i e := by
    intro j ne at_
    change At (p.unregister t.key e).calls j _ at at_
    rw [calls] at at_
    exact alone j ne at_
  have unlinked : ((p.unregister t.key e).unlink e .closed).client e = false :=
    Function.update_self e _ _
  have closed : ((p.unregister t.key e).unlink e .closed).state e = .closed :=
    Function.update_self e _ _
  have out : ((p.unregister t.key e).unlink e .closed).state e ≠ .inTurn := by
    rw [closed]
    exact nofun
  unfold Pool.drop
  simp only
  split
  · exact owned_cut removed rfl unlinked out alone'
  rename_i idle
  have taken : ((p.unregister t.key e).unlink e .closed).taken e = p.taken e := by
    change (p.unregister t.key e).taken e = _
    unfold Pool.unregister
    split <;> rfl
  have up : ((p.unregister t.key e).unlink e .closed).connected e = p.connected e := by
    change (p.unregister t.key e).connected e = _
    unfold Pool.unregister
    split <;> rfl
  -- what is not disconnected here is disconnected by somebody else
  have elsewhere (now : p.connected e = true) : Disconnecting (p.taken e) ∨
      ∃ j, some i ≠ some j ∧ At p.calls j fun e' s => cuts e' s = some e := by
    rcases (h e nofun).closable now with linked | rest
    · have closed : p.state e = .closed := by
        by_contra open_
        exact idle (by simp [Pool.closes, open_, show p.client e = true from linked])
      cases ((h e nofun).ended (.inl closed)).symm.trans linked
    · exact rest
  refine owned_leave (removed.fill ⟨fun now => ?_, fun now => ?_, fun _ => unlinked,
    fun now => absurd now out, fun j other at_ => ?_⟩)
  · change _ ∨ ((p.unregister t.key e).unlink e .closed).taken e ≠ none ∨ ∃ j, _ ∧
      At (p.unregister t.key e).calls j _
    rw [taken, calls]
    rcases elsewhere (up.symm.trans now) with ⟨d, closer, -⟩ | cut
    · refine .inr (.inl ?_)
      rw [closer]
      exact nofun
    · exact .inr (.inr cut)
  · change _ ∨ Disconnecting (((p.unregister t.key e).unlink e .closed).taken e) ∨ ∃ j, _ ∧
      At (p.unregister t.key e).calls j _
    rw [taken, calls]
    exact .inr (elsewhere (up.symm.trans now))
  · exact absurd at_ (alone' j fun same => other (congrArg some same.symm))

theorem owned_start (alone : Alone p i e) : Owned none none (p.start i t e) := by
  unfold Pool.start
  split
  · exact owned_query h
  · exact owned_drop h alone

theorem owned_finish (alone : Alone p i e) : Owned none none (p.finish i t e) := by
  unfold Pool.finish
  split
  · exact owned_leave h
  · exact owned_drop h alone

theorem owned_returned {sid : Bool} (alone : Alone p i e) :
    Owned none none (p.returned i t e sid) := by
  unfold Pool.returned
  split
  · exact owned_wait h rfl
  · exact owned_finish h alone

end

theorem fresh_alone (ord : Orderly False none p) : Alone p i p.next := by
  rintro j - ⟨t, e, s, called, place, connect⟩
  exact Nat.lt_irrefl _ ((turn_held ord called place).fresh _ (connects_fresh connect)).made

theorem owned_made {lock : ℕ} {client : Bool} (h : Owned (some i) none p)
    (ord : Orderly False none p) : Owned (some i) none (p.make k lock client) := by
  have state : (p.make k lock client).state p.next = .new := Function.update_self _ _ _
  refine (owned_make h).fill (ClientOk.down (Function.update_self _ _ _) ?_ ?_ ?_)
  · intro now
    change (p.make k lock client).state p.next = _ ∨ (p.make k lock client).state p.next = _ at now
    rw [state] at now
    rcases now with now | now <;> cases now
  · change (p.make k lock client).state p.next ≠ _
    rw [state]
    exact nofun
  · intro j other at_
    exact absurd at_ (fresh_alone ord j fun same => other (congrArg some same.symm))

theorem owned_entryStub (h : Owned none none p) (ord : Orderly False none p)
    (called : p.calls i = some (.turn t)) (place : t.place = .stub) :
    Owned none none (p.entryStub i t) := by
  have start : Owned (some i) none p := by
    refine h.turn called fun e s there => ?_
    cases place.symm.trans there
  have waits {q : Pool} {place : Place} (h : Owned (some i) none q)
      (idle : ∀ e s, place ≠ .holds e s) : Owned none none (q.goto i t place) := by
    refine owned_idle h ?_
    rintro u ⟨⟩ e s there
    exact idle e s there
  unfold Pool.entryStub
  split
  · exact owned_idle start (by rintro u ⟨⟩)
  split
  · exact waits start (by rintro e s ⟨⟩)
  split
  · exact waits start (by rintro e s ⟨⟩)
  rename_i absent
  have stub : Owned (some i) none (p.make t.key p.next false) := owned_made start ord
  have registered := owned_register (k := t.key) (stub.but (some p.next)) fun e entry => by
    cases absent.symm.trans entry
  refine waits (registered.fill ?_) (by rintro e s ⟨⟩)
  have made := stub p.next (by rintro ⟨⟩)
  have off : (p.make t.key p.next false).connected p.next = false := Function.update_self _ _ _
  refine ClientOk.down off made.ended ?_ made.coming
  change (p.make t.key p.next false).state p.next ≠ _
  rw [show (p.make t.key p.next false).state p.next = .new from Function.update_self _ _ _]
  rintro ⟨⟩

theorem entry_linked (h : Owned none none p) (ord : Orderly False none p)
    (entry : p.entries k = some e) (free : p.locks (p.lockOf e) = none) :
    (p.connected e = true → p.client e = true) ∧ p.state e ≠ .inTurn := by
  have taken : p.taken e = none := (ord.entry k e entry).2.2
  constructor
  · intro up
    rcases (h e nofun).closable up with linked | ⟨d, closer, -⟩ | ⟨j, -, at_⟩
    · exact linked
    · cases taken.symm.trans closer
    · have owner := turn_lock ord at_ fun _ _ cut => cuts_mine cut
      cases free.symm.trans owner
  · intro now
    obtain ⟨j, -, at_⟩ := (h e nofun).inTurn now
    have owner := turn_lock ord at_ fun _ _ query => queries_mine query
    cases free.symm.trans owner

theorem entry_alone (ord : Orderly False none p) (entry : p.entries k = some e) : Alone p i e := by
  rintro j - ⟨t, e', s, called, place, connect⟩
  exact ((turn_held ord called place).fresh _ (connects_fresh connect)).apart k entry

theorem owned_decide {resume same : Bool} (h : Owned none none p) (ord : Orderly False none p)
    (start : Owned (some i) none p) (entry : p.entries t.key = some e)
    (free : p.locks (p.lockOf e) = none) : Owned none none (p.decide_ i t e resume same) := by
  have locked : Owned (some i) none (p.setLock e (some (.call i))) := start
  have linked := (entry_linked h ord entry free).1
  unfold Pool.decide_
  simp only
  split
  · exact owned_wait locked rfl
  split
  swap
  · exact owned_wait locked rfl
  have unlinked : ((p.setLock e (some (.call i))).unlink e .closed).client e = false :=
    Function.update_self e _ _
  have closed : ((p.setLock e (some (.call i))).unlink e .closed).state e = .closed :=
    Function.update_self e _ _
  have out : ((p.setLock e (some (.call i))).unlink e .closed).state e ≠ .inTurn := by
    rw [closed]
    exact nofun
  have removed : Owned (some i) (some e) ((p.setLock e (some (.call i))).unlink e .closed) :=
    owned_unlink (locked.but _)
  cases client : p.client e with
  | true => exact owned_cut removed rfl unlinked out (entry_alone (p := p) ord entry)
  | false =>
    have off : p.connected e = false := by
      cases up : p.connected e with
      | false => rfl
      | true => cases client.symm.trans (linked up)
    exact owned_wait (removed.fill (ClientOk.down off (fun _ => unlinked) out
      fun j other at_ => absurd at_ (entry_alone (i := i) ord entry j
        fun same => other (congrArg some same.symm)))) rfl

theorem owned_acquire {resume same : Bool} (h : Owned none none p) (ord : Orderly False none p)
    (called : p.calls i = some (.turn t)) (place : t.place = .wants e) :
    Owned none none (p.acquire i t e resume same) := by
  have start : Owned (some i) none p := by
    refine h.turn called fun e' s there => ?_
    cases place.symm.trans there
  unfold Pool.acquire
  split
  · exact h
  rename_i free
  rw [not_not] at free
  split
  · exact owned_retry start
  rename_i entry
  rw [not_not] at entry
  split
  · exact owned_decide h ord start entry free
  -- an entry that is neither new nor warm has no client
  rename_i stale
  rw [not_or] at stale
  obtain ⟨linked, out⟩ := entry_linked h ord entry free
  have ended : p.client e = false := by
    refine (h e nofun).ended ?_
    change p.state e = _ ∨ p.state e = _
    cases state : p.state e with
    | new => exact absurd state stale.1
    | warm => exact absurd state stale.2
    | inTurn => exact absurd state out
    | invalid => exact .inr rfl
    | closed => exact .inl rfl
  have off : p.connected e = false := by
    cases up : p.connected e with
    | false => rfl
    | true => cases ended.symm.trans (linked up)
  refine owned_retry ((owned_unregister (start.but (some e))).fill ?_)
  rw [Pool.unregister, if_pos entry]
  exact ClientOk.down off (fun _ => ended) out fun j other at_ =>
    absurd at_ (entry_alone (i := i) ord entry j fun same => other (congrArg some same.symm))

section Holding

theorem held_alone (ord : Orderly False none p) (called : p.calls i = some (.turn t))
    (place : t.place = .holds e s) (mine : c = e ∨ freshOf s = some c) : Alone p i c :=
  fun _ ne => alone_connecting ord (held_lock (turn_held ord called place) mine) ne

variable (h : Owned none none p) (called : p.calls i = some (.turn t))
  (place : t.place = .holds e s)

include h called place

theorem owned_turn (cut : cuts e s = none) (query : queries e s = none) :
    Owned (some i) none p := by
  refine h.turn called fun e' s' there c mine => ?_
  cases place.symm.trans there
  rw [cut, query] at mine
  rcases mine with mine | mine <;> cases mine

theorem owned_answered (query : queries e s = some e) :
    Owned (some i) none (p.setState e .warm) := by
  have idle : cuts e s = none := by
    cases s <;> first | rfl | cases query
  have start : Owned (some i) (some e) p := by
    refine h.turn called fun e' s'' there c' mine => ?_
    cases place.symm.trans there
    rcases mine with mine | mine
    · cases idle.symm.trans mine
    · exact query.symm.trans mine
  have others : (∃ j, none ≠ some j ∧ At p.calls j fun e' s' => cuts e' s' = some e) →
      ∃ j, some i ≠ some j ∧ At p.calls j fun e' s' => cuts e' s' = some e := by
    rintro ⟨j, -, at_⟩
    refine ⟨j, ?_, at_⟩
    rintro ⟨⟩
    obtain ⟨u, e', s', called', place', cut⟩ := at_
    cases called.symm.trans called'
    cases place.symm.trans place'
    cases idle.symm.trans cut
  have ok := h e nofun
  have warm : (p.setState e .warm).state e = .warm := Function.update_self e _ _
  refine (owned_setState start).fill ⟨fun up => (ok.owner up).imp_right fun rest =>
    rest.imp_right others, fun up => (ok.closable up).imp_right fun rest => rest.imp_right others,
    fun now => ?_, fun now => ?_, fun j _ at_ => ok.coming j nofun at_⟩
  · change (p.setState e .warm).state e = _ ∨ (p.setState e .warm).state e = _ at now
    rw [warm] at now
    rcases now with now | now <;> cases now
  · cases warm.symm.trans now

theorem owned_still {s' : Stage} (cut : cuts e s = cuts e s') (query : queries e s = queries e s')
    (connect : connects s' = connects s) : Owned none none (p.goto i t (.holds e s')) := by
  have kept {here : ℕ → Stage → Prop} (same : here e s → here e s') :
      (∃ j, none ≠ some j ∧ At p.calls j here) →
        ∃ j, none ≠ some j ∧ At (p.goto i t (.holds e s')).calls j here := by
    rintro ⟨j, -, at_⟩
    refine ⟨j, nofun, ?_⟩
    by_cases own : j = i
    · subst own
      obtain ⟨u, e', s'', called', place', there⟩ := at_
      cases called.symm.trans called'
      cases place.symm.trans place'
      exact ⟨_, e, s', Function.update_self j _ _, rfl, same there⟩
    · exact at_.other own
  intro c _
  have ok := h c nofun
  have cut' := @kept (fun e s => cuts e s = some c) fun now => cut.symm.trans now
  have query' := @kept (fun e s => queries e s = some c) fun now => query.symm.trans now
  refine ⟨fun up => (ok.owner up).imp_right fun rest => rest.imp_right cut',
    fun up => (ok.closable up).imp_right fun rest => rest.imp_right cut', ok.ended,
    fun now => query' (ok.inTurn now), fun j _ at_ => ?_⟩
  by_cases own : j = i
  · subst own
    obtain ⟨u, e', s'', called', place', there⟩ := at_
    cases (Function.update_self j _ _).symm.trans called'
    cases place'
    exact ok.coming j nofun ⟨t, e, s, called, place, connect.symm.trans there⟩
  · exact ok.coming j nofun (at_.old own)

variable (ord : Orderly False none p)

include ord

theorem owned_disconnected {a : Answer} (cut : cuts e s = some c) (ok : a ≠ .fail) :
    Owned (some i) none (p.disconnected c a) := by
  have quiet : queries e s = none := by
    cases s <;> first | rfl | cases cut
  have start : Owned (some i) (some c) p := by
    refine h.turn called fun e' s' there c' mine => ?_
    cases place.symm.trans there
    rcases mine with mine | mine
    · exact cut.symm.trans mine
    · cases quiet.symm.trans mine
  have owner := held_lock (turn_held ord called place) (cuts_mine cut)
  have out : p.state c ≠ .inTurn := by
    refine out_of_turn h ord owner called place ?_
    rw [quiet]
    exact nofun
  rw [Pool.disconnected, if_neg ok]
  refine (owned_setConnected start).fill (ClientOk.down (Function.update_self c _ _)
    (h c nofun).ended out fun j other at_ => ?_)
  exact absurd at_ (alone_connecting ord owner fun same => other (congrArg some same.symm))

theorem owned_unlinked {s' : Stage} {state : ClientState} (cut : cuts e s' = some e)
    (idle : cuts e s = none) (out : state ≠ .inTurn) :
    Owned none none ((p.unlink e state).goto i t (.holds e s')) := by
  have start : Owned (some i) (some e) p := by
    refine h.turn called fun e' s'' there c' mine => ?_
    cases place.symm.trans there
    rcases mine with mine | mine
    · cases idle.symm.trans mine
    · cases s <;> cases mine <;> rfl
  refine owned_cut (owned_unlink start) cut (Function.update_self e _ _) ?_
    (held_alone (p := p) ord called place (.inl rfl))
  rw [show (p.unlink e state).state e = state from Function.update_self e _ _]
  exact out

theorem owned_failed {c' : ℕ} (connect : connects s = some c') :
    Owned none none (((p.unlink c' .invalid).setConnected c' true).goto i t
        (.holds e (.failing c'))) ∧
      Owned none none ((p.unlink c' .invalid).goto i t (.holds e (.failing c'))) := by
  have start : Owned (some i) none p := by
    refine owned_turn h called place ?_ ?_ <;> cases s <;> first | rfl | cases connect
  have alone := held_alone (p := p) ord called place (.inr (connects_fresh connect))
  have unlinked : (p.unlink c' .invalid).client c' = false := Function.update_self c' _ _
  have out : (p.unlink c' .invalid).state c' ≠ .inTurn := by
    rw [show (p.unlink c' .invalid).state c' = .invalid from Function.update_self c' _ _]
    exact nofun
  have moved : Owned (some i) (some c') (p.unlink c' .invalid) := owned_unlink (start.but _)
  exact ⟨owned_cut (owned_setConnected moved) rfl unlinked out alone,
    owned_cut moved rfl unlinked out alone⟩

theorem owned_publish {resume : Bool} {c' : ℕ} (connect : connects s = some c')
    (free : ∀ e, p.entries t.key = some e → p.connected e = false) :
    Owned none none (p.publish i t c' resume) := by
  have start : Owned (some i) none p := by
    refine owned_turn h called place ?_ ?_ <;> cases s <;> first | rfl | cases connect
  have fresh := (turn_held ord called place).fresh c' (connects_fresh connect)
  have alone := held_alone (p := p) ord called place (.inr (connects_fresh connect))
  have linked : p.client c' = true :=
    (h c' nofun).coming i nofun ⟨t, e, s, called, place, connect⟩
  have moved : Owned (some i) (some c') ((p.setState c' .warm).setConnected c' true) :=
    owned_setConnected (owned_setState (start.but _))
  have registered := owned_register (k := t.key) moved fun e' entry => by
    have apart : e' ≠ c' := by
      rintro rfl
      exact fresh.apart _ entry
    exact (Function.update_of_ne apart _ _).trans (free e' entry)
  have warm : (p.setState c' .warm).state c' = .warm := Function.update_self c' _ _
  have whole := registered.fill ⟨fun _ => .inl ?_, fun _ => .inl linked, fun now => ?_,
    fun now => ?_, fun _ _ _ => linked⟩
  · unfold Pool.publish
    simp only
    split
    · exact owned_wait whole rfl
    · exact owned_start whole alone
  · change Function.update p.entries t.key (some c') (p.keyOf c') = some c'
    rw [show p.keyOf c' = t.key from fresh.key]
    exact Function.update_self _ _ _
  · change (p.setState c' .warm).state c' = _ ∨ (p.setState c' .warm).state c' = _ at now
    rw [warm] at now
    rcases now with now | now <;> cases now
  · cases warm.symm.trans now

end Holding

/-- What a step of a turn under the lock must not do: fail to disconnect, or publish a client
into a pool that is closing or over a connected client. -/
def Fits (p : Pool) (t : Turn) (e : ℕ) (s : Stage) (a : Answer) : Prop :=
  (cuts e s ≠ none → a ≠ .fail) ∧
    (connects s ≠ none → a = .ok →
      p.closing = false ∧ ∀ e, p.entries t.key = some e → p.connected e = false)

section
variable (h : Owned none none p) (ord : Orderly False none p) (called : p.calls i = some (.turn t))
include h ord called

theorem owned_built {resume : Bool} (place : t.place = .holds e (.building resume)) :
    Owned none none ((p.make t.key (p.lockOf e) true).goto i t
      (.holds e (.connecting resume p.next))) := by
  refine owned_setCall (owned_made (owned_turn h called place rfl rfl) ord) nofun ?_
  rintro c ⟨u, e', s, called', place', connect⟩
  cases (Function.update_self i _ _).symm.trans called'
  cases place'
  cases connect
  exact Function.update_self _ _ _

theorem owned_advanceHolding {a : Answer} (place : t.place = .holds e s) (fits : Fits p t e s a) :
    Owned none none (p.advanceHolding i t e s a) := by
  have alone : Alone p i e := held_alone ord called place (.inl rfl)
  have alone' (c : ℕ) : Alone (p.disconnected c a) i e := by
    unfold Alone
    rw [Pool.disconnected_calls]
    exact alone
  cases s with
  | flushing resume =>
    exact owned_wait (owned_disconnected h called place ord rfl (fits.1 nofun)) rfl
  | building resume =>
    cases a with
    | ok => exact owned_built h ord called place
    | _ => exact owned_leave (owned_turn h called place rfl rfl)
  | connecting resume c =>
    cases a with
    | ok => exact owned_publish h called place ord rfl (fits.2 nofun rfl).2
    | late => exact (owned_failed h called place ord rfl).1
    | _ => exact (owned_failed h called place ord rfl).2
  | failing c => exact owned_leave (owned_disconnected h called place ord rfl (fits.1 nofun))
  | touching =>
    cases a with
    | ok => exact owned_start (owned_turn h called place rfl rfl) alone
    | _ => exact owned_leave (owned_turn h called place rfl rfl)
  | running =>
    cases a with
    | reply errored retried sid =>
      cases errored with
      | false => exact owned_returned (owned_answered h called place rfl) alone
      | true => exact owned_unlinked h called place ord rfl rfl nofun
    | _ => exact owned_unlinked h called place ord rfl rfl nofun
  | cleaning =>
    cases a with
    | ok => exact owned_leave (owned_answered h called place rfl)
    | _ => exact owned_unlinked h called place ord rfl rfl nofun
  | breaking exit =>
    have down := owned_disconnected h called place ord rfl (fits.1 nofun)
    cases exit with
    | raises => exact owned_drop down (alone' e)
    | returns sid => exact owned_returned down (alone' e)
  | publishing =>
    cases a with
    | ok => exact owned_finish (owned_turn h called place rfl rfl) alone
    | _ => exact owned_drop (owned_turn h called place rfl rfl) alone
  | dropping => exact owned_leave (owned_disconnected h called place ord rfl (fits.1 nofun))

theorem owned_advanceTurn {a : Answer} (fits : ∀ e s, t.place = .holds e s → Fits p t e s a) :
    Owned none none (p.advanceTurn i t a) := by
  unfold Pool.advanceTurn
  split
  · rename_i place
    exact owned_entryStub h ord called place
  · rename_i b place
    split
    · refine owned_idle (h.turn called fun e s there => ?_) ?_
      · cases place.symm.trans there
      · rintro u ⟨⟩ e s ⟨⟩
    · exact h
  · rename_i e place
    split
    · exact owned_acquire h ord called place
    · exact h
  · rename_i e s place
    exact owned_advanceHolding h ord called place (fits e s place)

theorem owned_cancelHolding (place : t.place = .holds e s)
    (apart : cuts e s = none) : Owned none none (p.cancelHolding i t e s) := by
  have alone : Alone p i e := held_alone ord called place (.inl rfl)
  cases s with
  | connecting resume c => exact (owned_failed h called place ord rfl).2
  | running => exact owned_still h called place rfl rfl rfl
  | cleaning => exact owned_unlinked h called place ord rfl rfl nofun
  | publishing => exact owned_drop (owned_turn h called place rfl rfl) alone
  | building resume => exact owned_leave (owned_turn h called place rfl rfl)
  | touching => exact owned_leave (owned_turn h called place rfl rfl)
  | flushing resume => cases apart
  | failing c => cases apart
  | breaking exit => cases apart
  | dropping => cases apart

end

end Turns

section Closers

theorem taken_alone {d : Closer} (ord : Orderly False none p) (taken : p.taken e = some d) :
    ¬ At p.calls j fun _ s => connects s = some e := by
  rintro ⟨t, e', s, called, place, connect⟩
  have free : p.taken e = none :=
    ((turn_held ord called place).fresh _ (connects_fresh connect)).free
  cases taken.symm.trans free

theorem ClientOk.untaken (ok : ClientOk none (hands p) p.calls c) (free : p.taken c = none)
    (up : p.connected c = true) : p.client c = true ∨
      ∃ j, (none : Option ℕ) ≠ some j ∧ At p.calls j fun e s => cuts e s = some c := by
  rcases ok.closable up with linked | ⟨d, closer, -⟩ | cut
  · exact .inl linked
  · cases free.symm.trans closer
  · exact .inr cut

section
variable (h : Owned none none p)
include h

theorem owned_take {r : Remover} (ord : Orderly False none p) (entry : p.entries k = some e) :
    Owned none none ((p.unregister k e).setTaken e (some ⟨r, .waiting⟩)) := by
  have moved : Owned none (some e) ((p.unregister k e).setTaken e (some ⟨r, .waiting⟩)) :=
    owned_setTaken (owned_unregister (h.but _))
  have ok := h e nofun
  have free : p.taken e = none := (ord.entry k e entry).2.2
  have taken : ((p.unregister k e).setTaken e (some ⟨r, .waiting⟩)).taken e ≠ none := by
    rw [show ((p.unregister k e).setTaken e (some ⟨r, .waiting⟩)).taken e = _ from
      Function.update_self e _ _]
    exact nofun
  rw [Pool.unregister, if_pos entry] at moved taken ⊢
  exact moved.fill ⟨fun _ => .inr (.inl taken), fun up => (ok.untaken free up).imp_right .inr,
    ok.ended, ok.inTurn, ok.coming⟩

theorem owned_evict {sweep : Bool} (ord : Orderly False none p) :
    Owned none none (p.evict k sweep) := by
  unfold Pool.evict
  split
  · exact h
  · rename_i e entry
    split
    · exact h
    · exact owned_take h ord entry

theorem owned_pop {mark : ℕ} {o : Option ℕ} (ord : Orderly False none p)
    (called : p.calls i = some (.closeKey k mark o)) : Owned none none (p.pop i k mark) := by
  have other (t : Turn) : p.calls i ≠ some (.turn t) := by
    rw [called]
    rintro ⟨⟩
  unfold Pool.pop
  split
  · exact h
  split
  · exact owned_idle (h.call other) (by rintro u ⟨⟩)
  · rename_i e entry
    refine owned_idle (p := (p.unregister k e).setTaken e (some ⟨.reset, .waiting⟩)) ?_
      (by rintro u ⟨⟩)
    refine (owned_take h ord entry).call ?_
    rw [Pool.unregister, if_pos entry]
    exact other

theorem owned_gone : Owned none none ((p.setConnected e false).setTaken e none) := by
  have ok := h e nofun
  have off : ((p.setConnected e false).setTaken e none).connected e = false :=
    Function.update_self e _ _
  refine (owned_setTaken (owned_setConnected (h.but _))).fill ⟨fun up => ?_, fun up => ?_,
    ok.ended, ok.inTurn, ok.coming⟩
  · cases off.symm.trans up
  · cases off.symm.trans up

theorem owned_released (off : p.connected e = false) : Owned none none (p.setTaken e none) := by
  have gone := owned_gone (e := e) h
  rwa [show p.setConnected e false = p by
    unfold Pool.setConnected
    rw [← off, Function.update_eq_self]] at gone

theorem owned_shut {d' : Closer}
    (alone : ∀ j, ¬ At p.calls j fun _ s => connects s = some e) (active : d'.phase ≠ .waiting) :
    Owned none none ((p.unlink e .closed).setTaken e (some d')) := by
  have moved : Owned none (some e) ((p.unlink e .closed).setTaken e (some d')) :=
    owned_setTaken (owned_unlink (h.but _))
  have now : ((p.unlink e .closed).setTaken e (some d')).taken e = some d' :=
    Function.update_self e _ _
  have unlinked : ((p.unlink e .closed).setTaken e (some d')).client e = false :=
    Function.update_self e _ _
  have closed : ((p.unlink e .closed).setTaken e (some d')).state e = .closed :=
    Function.update_self e _ _
  refine moved.fill ⟨fun _ => .inr (.inl ?_), fun _ => .inr (.inl ⟨d', now, active⟩),
    fun _ => unlinked, fun inTurn => ?_, fun j _ at_ => absurd at_ (alone j)⟩
  · change ((p.unlink e .closed).setTaken e (some d')).taken e ≠ none
    rw [now]
    exact nofun
  · cases closed.symm.trans inTurn

theorem owned_unneeded {r : Remover} (alone : ∀ j, ¬ At p.calls j fun _ s => connects s = some e)
    (taken : p.taken e = some ⟨r, .waiting⟩) (idle : p.closes e = false) :
    Owned none none ((p.unlink e .closed).setTaken e none) := by
  have moved : Owned none (some e) ((p.unlink e .closed).setTaken e none) :=
    owned_setTaken (owned_unlink (h.but _))
  have ok := h e nofun
  have unlinked : ((p.unlink e .closed).setTaken e none).client e = false :=
    Function.update_self e _ _
  have closed : ((p.unlink e .closed).setTaken e none).state e = .closed :=
    Function.update_self e _ _
  have elsewhere (up : p.connected e = true) :
      ∃ j, (none : Option ℕ) ≠ some j ∧ At p.calls j fun e' s => cuts e' s = some e := by
    rcases ok.closable up with linked | ⟨d, closer, active⟩ | cut
    · have linked : p.client e = true := linked
      rw [Pool.closes, linked, Bool.and_true, decide_eq_false_iff_not, not_not] at idle
      cases (ok.ended (.inl idle)).symm.trans linked
    · cases taken.symm.trans closer
      exact absurd rfl active
    · exact cut
  refine moved.fill ⟨fun up => .inr (.inr (elsewhere up)), fun up => .inr (.inr (elsewhere up)),
    fun _ => unlinked, fun inTurn => ?_, fun j _ at_ => absurd at_ (alone j)⟩
  cases closed.symm.trans inTurn

end

theorem owned_releaseBarrier (h : Owned x y p) : Owned x y (p.releaseBarrier e) := by
  unfold Pool.releaseBarrier
  split <;> exact h

section
variable (h : Owned none none p) (ord : Orderly False none p)
include h ord

theorem owned_closeLocked {r : Remover}
    (taken : p.taken e = some ⟨r, .waiting⟩) : Owned none none (p.closeLocked e r) := by
  obtain ⟨q, same, owned, calls, taken'⟩ : ∃ q,
      q = (if r = .worker then p.releaseBarrier e else p) ∧ Owned none none q ∧
        q.calls = p.calls ∧ q.taken = p.taken := by
    refine ⟨_, rfl, ?_⟩
    split
    · refine ⟨owned_releaseBarrier h, ?_⟩
      unfold Pool.releaseBarrier
      split <;> exact ⟨rfl, rfl⟩
    · exact ⟨h, rfl, rfl⟩
  have closes : q.closes = p.closes := by
    rw [same]
    split
    · unfold Pool.releaseBarrier
      split <;> rfl
    · rfl
  have alone (j : ℕ) : ¬ At q.calls j fun _ s => connects s = some e := by
    rw [calls]
    exact taken_alone ord taken
  unfold Pool.closeLocked
  rw [← same]
  simp only
  split
  · exact @owned_shut _ _ owned ⟨r, .shutting⟩ alone nofun
  · rename_i idle
    refine owned_unneeded owned alone (taken' ▸ taken) ?_
    rw [closes]
    exact Bool.eq_false_iff.mpr idle

theorem owned_close : Owned none none (p.close e true) := by
  have off : p.disconnected e .ok = p.setConnected e false := rfl
  unfold Pool.close
  simp only [if_true, off]
  split
  · exact h
  · rename_i r taken
    split
    · rename_i free
      exact owned_closeLocked h ord taken
    · exact h
  · exact owned_gone h
  · exact owned_gone h

theorem owned_force : Owned none none (p.force e) := by
  unfold Pool.force
  split
  · rename_i taken
    split
    · exact owned_shut h (fun j => taken_alone ord taken) nofun
    · rename_i idle
      exact owned_unneeded h (fun j => taken_alone ord taken) taken (Bool.eq_false_iff.mpr idle)
  · exact h

end

theorem owned_abandon (h : Owned none none p) (off : p.connected e = false) :
    Owned none none (p.abandon e) := by
  unfold Pool.abandon
  split
  · exact owned_released (p := p.setLock e none) h off
  · exact owned_released h off

theorem owned_abandonDrains {snap : ℕ → Bool} (h : Owned none none p)
    (off : ∀ e, (snap e && p.takenBy e .drain) = true → p.connected e = false) :
    Owned none none (p.abandonDrains snap) := by
  intro c _
  have ok := h c nofun
  by_cases gone : (snap c && p.takenBy c .drain) = true
  · refine ⟨fun up => ?_, fun up => ?_, ok.ended, ok.inTurn, ok.coming⟩
    · cases (off c gone).symm.trans up
    · cases (off c gone).symm.trans up
  · have same : (p.abandonDrains snap).taken c = p.taken c := if_neg gone
    exact ok.agree ⟨id, fun _ => id, same, rfl, rfl⟩

/-- Where the map is emptied, a closer takes each entry, and no closer of a connected client
goes. -/
theorem owned_emptied {r : Remover} (h : Owned none none p) (ord : Orderly False none p)
    (state : q.state = p.state) (client : q.client = p.client)
    (connected : q.connected = p.connected) (calls : q.calls = p.calls)
    (now : ∀ e, p.registered e = true → q.taken e = some ⟨r, .waiting⟩)
    (old : ∀ e, p.registered e = false → q.taken e = p.taken e ∨ p.connected e = false) :
    Owned none none q := by
  intro c _
  have ok := h c nofun
  have frame : (hands q).connected c = p.connected c ∧ (hands q).client c = p.client c ∧
      (hands q).state c = p.state c :=
    ⟨congrFun connected c, congrFun client c, congrFun state c⟩
  obtain ⟨connected, client, state⟩ := frame
  have rest : ClientOk none (hands q) p.calls c := by
    cases registered : p.registered c with
    | true =>
      have entry := of_decide_eq_true registered
      have free : p.taken c = none := (ord.entry _ c entry).2.2
      refine ⟨fun _ => .inr (.inl ?_), ?_, ?_, ?_, ?_⟩
      · rw [show (hands q).taken c = _ from now c registered]
        exact nofun
      · rw [connected, client]
        exact fun up => (ok.untaken free up).imp_right .inr
      · rw [state, client]
        exact ok.ended
      · rw [state]
        exact ok.inTurn
      · rw [client]
        exact ok.coming
    | false =>
      have absent : p.entries (p.keyOf c) ≠ some c := of_decide_eq_false registered
      rcases old c registered with same | off
      · exact ok.agree ⟨fun up => connected.symm.trans up, fun _ entry => absurd entry absent, same,
          client, state⟩
      · have off : (hands q).connected c = false := connected.trans off
        refine ⟨fun up => ?_, fun up => ?_, ?_, ?_, ?_⟩
        · cases off.symm.trans up
        · cases off.symm.trans up
        · rw [state, client]
          exact ok.ended
        · rw [state]
          exact ok.inTurn
        · rw [client]
          exact ok.coming
  rw [calls]
  exact rest

theorem owned_begin {new : Call} (h : Owned none none p) (absent : p.calls p.nextCall = none)
    (idle : ∀ t, new = .turn t → t.place = .stub) : Owned none none (p.begin_ new) := by
  have start : Owned (some p.nextCall) none p := by
    refine h.call fun t called => ?_
    cases absent.symm.trans called
  refine owned_idle (p := { p with nextCall := p.nextCall + 1 }) start ?_
  rintro t ⟨⟩ e s place
  cases (idle t rfl).symm.trans place

theorem owned_invalidateAll (h : Owned none none p) (ord : Orderly False none p) :
    Owned none none p.invalidateAll := by
  unfold Pool.invalidateAll
  refine owned_begin ?_ (ord.idle _ (Nat.le_refl _)) nofun
  exact owned_emptied (r := .worker) h ord rfl rfl rfl rfl (fun e yes => if_pos yes)
    fun e no => .inl (if_neg (by rw [no]; exact nofun))

theorem owned_aclose (h : Owned none none p) (ord : Orderly False none p)
    (off : ∀ e, p.taken e = some ⟨.eviction true, .waiting⟩ → p.connected e = false) :
    Owned none none p.aclose := by
  unfold Pool.aclose
  refine owned_begin ?_ (ord.idle _ (Nat.le_refl _)) nofun
  refine owned_emptied (r := .drain) h ord rfl rfl rfl rfl (fun e yes => if_pos yes)
    fun e no => ?_
  have other : ¬ p.registered e = true := by
    rw [no]
    exact nofun
  simp only [if_neg other]
  split
  · rename_i swept
    exact .inr (off e swept)
  · exact .inl rfl

end Closers

end Casa.ClientOwnership
