import Casa.EngagementRegistry

/-! An engagement ends once. The one regime in which memory runs ahead of what is decided is a
strict transition whose write is in flight, so every statement is made about `standing`, memory
without an ending that may still be taken back: a run changes it one record at a time, no step
touches what is recorded of an ended engagement, and the permit of a standing record has been
released exactly when the record is terminal. -/

namespace Casa.EngagementTermination
open EngagementRecord KeyedTable StepRuns EngagementRegistry

def standing (w : World) : Records :=
  match w.holder with
  | some c => if c.edit.pending then c.before else w.records
  | none => w.records

/-- The engagement has ended: its record is terminal, and not by a transition whose write is
still in flight. -/
def Terminated (w : World) (id : String) : Prop :=
  ∃ r, w.records.get? id = some r ∧ r.status.terminal = true ∧
    ∀ c, w.holder = some c → c.id = id → c.edit.pending = false

structure SameEnd (r s : Row) : Prop where
  status : s.status = r.status
  completedAt : s.completedAt = r.completedAt
  errorKind : s.origin.errorKind = r.origin.errorKind
  errorMessage : s.origin.errorMessage = r.origin.errorMessage

theorem SameEnd.refl (r : Row) : SameEnd r r := ⟨rfl, rfl, rfl, rfl⟩

theorem SameEnd.trans {r s t : Row} (first : SameEnd r s) (second : SameEnd s t) : SameEnd r t :=
  ⟨second.status.trans first.status, second.completedAt.trans first.completedAt,
    second.errorKind.trans first.errorKind, second.errorMessage.trans first.errorMessage⟩

theorem SameEnd.of_later {r s : Row} (later : Later r s) (ended : r.status.terminal = true) :
    SameEnd r s := by
  obtain ⟨status, completedAt, errorKind, errorMessage⟩ := later.ended ended
  exact ⟨status, completedAt, errorKind, errorMessage⟩

theorem SameEnd.symm {r s : Row} (same : SameEnd r s) : SameEnd s r :=
  ⟨same.status.symm, same.completedAt.symm, same.errorKind.symm, same.errorMessage.symm⟩

/-- A permit that a record holds has been released exactly when the record is terminal. -/
def Settled (r : Record) : Prop :=
  ∀ p, r.permit = some p → (p = .released ↔ r.status.terminal = true)

section Pending
variable {id : String} {found : Option Record} {e : Edit}

theorem terminal_of_live {r : Record} (live : r.live = true) : r.status.terminal = false := by
  simpa [Record.live] using live

theorem strict_of_pending (mutates : Mutates id found e) (pending : e.pending = true) :
    ∃ r, found = some r ∧ r.live = true ∧ Later r.toRow e.next.toRow ∧
      e.next.permit = r.permit ∧ e.next.status.terminal = true ∧
      e = ⟨e.next, e.next.releasePermit, some r, true, .once, .flag true⟩ := by
  cases mutates with
  | insert name live unreleased =>
    simp [Edit.pending, flipped, terminal_of_live live] at pending
  | @adjust r next failed strict shield answer later same permit back =>
    have level : failed.status.terminal = next.status.terminal := by
      rcases back with rfl | rfl
      · exact same.symm
      · rfl
    simp [Edit.pending, flipped, level] at pending
  | finish => simp [Edit.pending, flipped] at pending
  | finishStrict live ended later permit => exact ⟨_, rfl, live, later, permit, ended, rfl⟩

theorem going_of_pending {w : World} {c : Call} (h : Held w c) (pending : c.edit.pending = true) :
    c.undoing = false := by
  obtain ⟨r, found, live, later, permit, ended, shape⟩ := strict_of_pending h.mutates pending
  apply Bool.eq_false_iff.mpr
  intro undoing
  have shield := h.undoes undoing
  rw [shape] at shield
  cases shield

end Pending

section Held
variable {w : World} {c : Call}

theorem records_held (h : Held w c) (going : c.undoing = false) :
    w.records = c.before.put c.edit.next := by
  rw [h.memory, going]
  rfl

theorem get?_held (h : Held w c) (going : c.undoing = false) :
    w.records.get? c.id = some c.edit.next := by
  rw [records_held h going, Table.get?_put, if_pos (next_id h.mutates)]

end Held

section Standing
variable {w : World} {id : String}

theorem standing_free (free : w.holder = none) : standing w = w.records := by
  simp [standing, free]

theorem standing_pending {c : Call} (held : w.holder = some c) (pending : c.edit.pending = true) :
    standing w = c.before := by
  simp [standing, held, pending]

theorem standing_firm {c : Call} (held : w.holder = some c) (firm : c.edit.pending = false) :
    standing w = w.records := by
  simp [standing, held, firm]

theorem get?_standing (sane : Sane w)
    (decided : ∀ c, w.holder = some c → c.id = id → c.edit.pending = false) :
    (standing w).get? id = w.records.get? id := by
  cases held : w.holder with
  | none => rw [standing_free held]
  | some c =>
    cases pending : c.edit.pending with
    | false => rw [standing_firm held pending]
    | true =>
      have h := sane c held
      have away : c.edit.next.id ≠ id := by
        intro same
        rw [decided c held ((next_id h.mutates).symm.trans same)] at pending
        cases pending
      rw [standing_pending held pending, records_held h (going_of_pending h pending),
        Table.get?_put, if_neg away]

theorem standing_of_terminated (sane : Sane w) (done : Terminated w id) :
    ∃ r, (standing w).get? id = some r ∧ w.records.get? id = some r ∧ r.status.terminal = true := by
  obtain ⟨r, found, ended, decided⟩ := done
  exact ⟨r, (get?_standing sane decided).trans found, found, ended⟩

theorem terminated_of_standing {r : Record} (sane : Sane w)
    (stands : (standing w).get? id = some r) (ended : r.status.terminal = true) :
    Terminated w id := by
  have decided : ∀ c, w.holder = some c → c.id = id → c.edit.pending = false := by
    intro c held here
    apply Bool.eq_false_iff.mpr
    intro pending
    -- the record a pending ending has found is live
    obtain ⟨q, found, live, -⟩ := strict_of_pending (sane c held).mutates pending
    rw [standing_pending held pending, ← here, found] at stands
    cases stands
    rw [terminal_of_live live] at ended
    cases ended
  exact ⟨r, (get?_standing sane decided).symm.trans stands, ended, decided⟩

end Standing

/-- What one step can do to the standing records and to the list of endings. -/
inductive Evolves : Records → List Mark → Records → List Mark → Prop
  | same (s : Records) (f : List Mark) : Evolves s f s f
  | insert {s : Records} {f : List Mark} {r : Record} (absent : s.get? r.id = none)
      (live : r.live = true) (unreleased : r.permit ≠ some .released) : Evolves s f (s.put r) f
  | change {s : Records} {f : List Mark} {r t : Record} (found : s.get? t.id = some r)
      (level : t.status.terminal = r.status.terminal)
      (same : r.status.terminal = true → SameEnd r.toRow t.toRow) (permit : t.permit = r.permit) :
      Evolves s f (s.put t) f
  | finish {s : Records} {f : List Mark} {r t : Record} {m : Mark} (found : s.get? t.id = some r)
      (live : r.live = true) (ended : t.status.terminal = true)
      (released : t.permit ≠ some .held) (name : m.id = t.id) : Evolves s f (s.put t) (f ++ [m])
  | drop {s : Records} {f : List Mark} {r : Record} (found : s.get? r.id = some r)
      (live : r.live = true) : Evolves s f (s.remove r.id) f

/-- Cancellations reach every caller but the one whose strict ending has been cancelled once
already; new ids are new. -/
def undisturbed : Label → World → Bool
  | .start op _, w => freshId w op
  | .cancel, w => w.holder.all fun c => !(c.exposed && c.edit.pending)
  | _, _ => true

theorem released_releasePermit (r : Record) : r.releasePermit.permit ≠ some .held := by
  cases h : r.permit <;> simp [Record.releasePermit, h]

section Step
variable {w : World} {c : Call}

theorem fail_records (w : World) (c : Call) :
    (w.fail c).records = World.assign c.id w.records c.edit.failed := by
  obtain ⟨trues, eq⟩ := fail_eq w c
  rw [eq]

theorem fail_flips (w : World) (c : Call) : (w.fail c).flips = w.flips := by
  obtain ⟨trues, eq⟩ := fail_eq w c
  rw [eq]

theorem evolves_hold {op : Op} {now : Int} {e : Edit} (free : w.holder = none)
    (mutates : Mutates op.id (w.records.get? op.id) e) :
    Evolves (standing w) w.flips (standing (w.hold op now e)) (w.hold op now e).flips := by
  rw [standing_free free]
  cases pending : e.pending with
  | true =>
    have before : standing (w.hold op now e) = w.records := by
      simp [standing, World.hold, pending]
    have flips : (w.hold op now e).flips = w.flips := by simp [World.hold, pending]
    rw [before, flips]
    exact .same _ _
  | false =>
    have after : standing (w.hold op now e) = w.records.put e.next := by
      simp [standing, World.hold, pending]
    rw [after]
    generalize looked : w.records.get? op.id = found at mutates
    have named : ∀ r, found = some r → r.id = op.id := fun r some_ =>
      id_of_get? (looked.trans some_)
    cases mutates with
    | @insert r name live unreleased =>
      have flips : ∀ now, (w.hold op now ⟨r, r, none, true, .compensating, .unit⟩).flips = w.flips :=
        fun now => by simp [World.hold, flipped, terminal_of_live live]
      rw [flips]
      exact .insert (name ▸ looked) live unreleased
    | @adjust r next failed strict shield answer later same permit back shielded =>
      have flips : ∀ now,
          (w.hold op now ⟨next, next, some failed, strict, shield, answer⟩).flips = w.flips :=
        fun now => by simp [World.hold, flipped, looked, same]
      rw [flips]
      have found : w.records.get? next.id = some r := by
        rw [later.id, named r rfl]
        exact looked
      exact .change found same (SameEnd.of_later later) permit
    | @finish r next answer live ended later permit =>
      have found : w.records.get? next.releasePermit.id = some r := by
        rw [Record.releasePermit_toRow, later.id, named r rfl]
        exact looked
      have logged : flipped (w.records.get? op.id) next.releasePermit = true := by
        simp [flipped, looked, ended, terminal_of_live live]
      simp only [World.hold, logged, pending, Bool.not_false, Bool.and_self, if_true]
      exact .finish found live ended (released_releasePermit next)
        ((named r rfl).symm.trans later.id.symm)
    | finishStrict live ended later permit =>
      simp [Edit.pending, flipped, ended, terminal_of_live live] at pending

theorem evolves_fail (h : Held w c) (held : w.holder = some c) (going : c.undoing = false) :
    Evolves (standing w) w.flips (standing (w.fail c)) (w.fail c).flips := by
  rw [standing_free (fail_holder w c), fail_records, fail_flips]
  have memory := records_held h going
  have present := get?_held h going
  cases pending : c.edit.pending with
  | true =>
    obtain ⟨r, found, live, later, permit, ended, shape⟩ := strict_of_pending h.mutates pending
    have failed : c.edit.failed = some r := by rw [shape]
    have back : w.records.put r = c.before := by
      have named : r.id = c.id := id_of_get? found
      rw [memory, put_put ((next_id h.mutates).trans named.symm)]
      exact Table.put_self (named ▸ found)
    rw [standing_pending held pending, failed, World.assign, back]
    exact .same _ _
  | false =>
    rw [standing_firm held pending]
    have named := next_id h.mutates
    have mutates := h.mutates
    generalize looked : c.before.get? c.id = found at mutates
    generalize c.edit = e at mutates present named pending
    cases mutates with
    | @insert r name live unreleased =>
      rw [World.assign, ← name]
      exact .drop (name ▸ present) live
    | @adjust r next failed strict shield answer later same permit back shielded =>
      rw [World.assign]
      rcases back with rfl | rfl
      · have found : w.records.get? failed.id = some next := by
          rw [id_of_get? looked]
          exact present
        refine .change found same.symm (fun ended => ?_) permit.symm
        exact (SameEnd.of_later later (same ▸ ended)).symm
      · rw [Table.put_self (named ▸ present)]
        exact .same _ _
    | @finish r next answer live ended later permit =>
      rw [World.assign, Table.put_self (named ▸ present)]
      exact .same _ _
    | finishStrict live ended later permit =>
      simp [Edit.pending, flipped, ended, terminal_of_live live] at pending

end Step

section Step
variable {w : World} {c : Call}

theorem commit_records (w : World) (c : Call) :
    (w.commit c).records = w.records.put c.edit.written := by
  obtain ⟨trues, eq⟩ := commit_eq w c
  rw [eq]

theorem commit_flips (w : World) (c : Call) :
    (w.commit c).flips = if c.edit.pending then w.flips ++ [c.mark] else w.flips := by
  obtain ⟨trues, eq⟩ := commit_eq w c
  rw [eq]

theorem evolves_commit (h : Held w c) (held : w.holder = some c) (going : c.undoing = false) :
    Evolves (standing w) w.flips (standing (w.commit c)) (w.commit c).flips := by
  rw [standing_free (commit_holder w c), commit_records, commit_flips]
  have memory := records_held h going
  have present := get?_held h going
  have named := next_id h.mutates
  cases pending : c.edit.pending with
  | true =>
    obtain ⟨r, found, live, later, permit, ended, shape⟩ := strict_of_pending h.mutates pending
    have written : c.edit.written = c.edit.next.releasePermit := by rw [shape]
    have once : (c.before.put c.edit.next).put c.edit.next.releasePermit =
        c.before.put c.edit.next.releasePermit := put_put rfl
    rw [standing_pending held pending, written, memory, once, if_pos rfl]
    refine .finish (r := r) ?_ live ended (released_releasePermit _) ?_
    · exact named ▸ found
    · exact named.symm
  | false =>
    have written : c.edit.written = c.edit.next := by
      have mutates := h.mutates
      generalize looked : c.before.get? c.id = found at mutates
      generalize c.edit = e at mutates pending
      cases mutates with
      | finishStrict live ended later permit =>
        simp [Edit.pending, flipped, ended, terminal_of_live live] at pending
      | _ => rfl
    rw [standing_firm held pending, written, Table.put_self (named ▸ present), if_neg (by simp)]
    exact .same _ _

theorem evolves_compensate {now : Int} (h : Held w c) (held : w.holder = some c)
    (going : c.undoing = false) (shield : c.edit.shield = .compensating) :
    Evolves (standing w) w.flips (standing (w.compensate c now)) (w.compensate c now).flips := by
  have present := get?_held h going
  have firm : c.edit.pending = false ∧ c.edit.next.live = true ∧ c.edit.next.id = c.id := by
    have mutates := h.mutates
    generalize looked : c.before.get? c.id = found at mutates
    generalize c.edit = e at mutates shield
    cases mutates with
    | insert name live unreleased =>
      exact ⟨by simp [Edit.pending, flipped, terminal_of_live live], live, name⟩
    | adjust later same permit back shielded => exact absurd shield shielded
    | finish => cases shield
    | finishStrict => cases shield
  have after : standing (w.compensate c now) = w.records.remove c.id := by
    simp [standing, World.compensate, firm.1]
  rw [standing_firm held firm.1, after, ← firm.2.2]
  exact .drop (firm.2.2 ▸ present) firm.2.1

theorem evolves_step {l : Label} (ok : undisturbed l w = true) (sane : Sane w) :
    Evolves (standing w) w.flips (standing (step l w)) (step l w).flips := by
  have moves := moves_step l w
  generalize step l w = v at moves
  cases moves with
  | stay => exact .same _ _
  | hold free edit => exact evolves_hold free (Op.mutates (absent_of_fresh ok) edit)
  | replace held waiting =>
    simp only [standing, held]
    exact .same _ _
  | @undone _ c now held undoing =>
    have firm : c.edit.pending = false := by
      apply Bool.eq_false_iff.mpr
      intro pending
      rw [going_of_pending (sane c held) pending] at undoing
      cases undoing
    rw [standing_firm held firm]
    exact .same _ _
  | @fail _ c now held undoing lost => exact evolves_fail (sane c held) held undoing
  | @compensate _ c now held undoing landed shield =>
    exact evolves_compensate (sane c held) held undoing shield
  | @commit _ c now held undoing landed kept => exact evolves_commit (sane c held) held undoing
  | absorb held =>
    simp only [standing, held]
    exact .same _ _
  | @abandon _ c held exposed =>
    have firm : c.edit.pending = false := by
      simpa [undisturbed, held, exposed] using ok
    rw [standing_firm held firm]
    simp only [standing, World.abandon, firm]
    exact .same _ _
  | stray left => exact .same _ _

end Step

/-- What holds of the standing records and the list of endings: permits agree with statuses,
every listed engagement has ended and is listed under one call, and whatever has ended is
listed or was loaded that way. -/
structure Ends (loaded s : Records) (flips : List Mark) : Prop where
  settled : ∀ id r, s.get? id = some r → Settled r
  ended : ∀ m ∈ flips, ∃ r, s.get? m.id = some r ∧ r.status.terminal = true
  single : ∀ m ∈ flips, ∀ n ∈ flips, m.id = n.id → m.number = n.number
  listed : ∀ id r, s.get? id = some r → r.status.terminal = true →
    (∃ m ∈ flips, m.id = id) ∨ ∃ q, loaded.get? id = some q ∧ q.status.terminal = true

section Evolution
variable {loaded s t : Records} {f g : List Mark}

theorem Evolves.final (evolves : Evolves s f t g) {id : String} {r : Record}
    (found : s.get? id = some r) (ended : r.status.terminal = true) :
    ∃ q, t.get? id = some q ∧ SameEnd r.toRow q.toRow := by
  cases evolves with
  | same => exact ⟨r, found, .refl _⟩
  | @insert q absent live unreleased =>
    have away : q.id ≠ id := fun same => by
      rw [same, found] at absent
      cases absent
    exact ⟨r, by rw [Table.get?_put, if_neg away]; exact found, .refl _⟩
  | @change p q present level same permit =>
    by_cases here : q.id = id
    · rw [here, found] at present
      cases present
      exact ⟨q, by rw [Table.get?_put, if_pos here], same ended⟩
    · exact ⟨r, by rw [Table.get?_put, if_neg here]; exact found, .refl _⟩
  | @finish p q m present live done released name =>
    have away : q.id ≠ id := fun same => by
      rw [same, found] at present
      cases present
      rw [terminal_of_live live] at ended
      cases ended
    exact ⟨r, by rw [Table.get?_put, if_neg away]; exact found, .refl _⟩
  | @drop q present live =>
    have away : q.id ≠ id := fun same => by
      rw [same, found] at present
      cases present
      rw [terminal_of_live live] at ended
      cases ended
    exact ⟨r, by rw [Table.get?_remove, if_neg away]; exact found, .refl _⟩

theorem SameEnd.terminal {r q : Row} (same : SameEnd r q) (ended : r.status.terminal = true) :
    q.status.terminal = true := by
  rw [same.status]
  exact ended

theorem settled_of_unreleased {r : Record} (live : r.live = true)
    (unreleased : r.permit ≠ some .released) : Settled r := by
  intro p some_
  rw [terminal_of_live live]
  constructor
  · rintro rfl
    exact absurd some_ unreleased
  · intro no
    cases no

theorem settled_of_released {r : Record} (ended : r.status.terminal = true)
    (released : r.permit ≠ some .held) : Settled r := by
  intro p some_
  refine ⟨fun _ => ended, fun _ => ?_⟩
  cases p with
  | held => exact absurd some_ released
  | released => rfl

theorem Evolves.settled (evolves : Evolves s f t g) (h : ∀ id r, s.get? id = some r → Settled r)
    {id : String} {r : Record} (found : t.get? id = some r) : Settled r := by
  cases evolves with
  | same => exact h id r found
  | insert absent live unreleased =>
    rw [Table.get?_put] at found
    split at found
    · cases found
      exact settled_of_unreleased live unreleased
    · exact h id r found
  | change present level same permit =>
    rw [Table.get?_put] at found
    split at found
    · cases found
      have before := h _ _ present
      intro p some_
      rw [level]
      exact before p (permit ▸ some_)
    · exact h id r found
  | finish present live done released name =>
    rw [Table.get?_put] at found
    split at found
    · cases found
      exact settled_of_released done released
    · exact h id r found
  | drop present live =>
    rw [Table.get?_remove] at found
    split at found
    · cases found
    · exact h id r found

theorem Evolves.ends (evolves : Evolves s f t g) (h : Ends loaded s f) : Ends loaded t g := by
  have kept : ∀ m ∈ f, ∃ r, t.get? m.id = some r ∧ r.status.terminal = true := by
    intro m mem
    obtain ⟨r, found, ended⟩ := h.ended m mem
    obtain ⟨q, after, same⟩ := evolves.final found ended
    exact ⟨q, after, same.terminal ended⟩
  refine ⟨fun id r found => evolves.settled h.settled found, ?_, ?_, ?_⟩
  · intro m mem
    cases evolves with
    | finish present live done released name =>
      rcases List.mem_append.mp mem with old | new
      · exact kept m old
      · cases List.mem_singleton.mp new
        exact ⟨_, by rw [Table.get?_put, if_pos name.symm], done⟩
    | _ => exact kept m mem
  · intro m mem n inside same
    cases evolves with
    | @finish r q k present live done released name =>
      -- the engagement was live, so no earlier ending of it is listed
      have unlisted : ∀ x ∈ f, x.id ≠ k.id := by
        intro x old eq
        obtain ⟨p, found, ended⟩ := h.ended x old
        rw [eq, name, present] at found
        cases found
        rw [terminal_of_live live] at ended
        cases ended
      rcases List.mem_append.mp mem with old | new
      · rcases List.mem_append.mp inside with old' | new'
        · exact h.single m old n old' same
        · cases List.mem_singleton.mp new'
          exact absurd same (unlisted m old)
      · cases List.mem_singleton.mp new
        rcases List.mem_append.mp inside with old' | new'
        · exact absurd same.symm (unlisted n old')
        · cases List.mem_singleton.mp new'
          rfl
    | _ => exact h.single m mem n inside same
  · intro id r found ended
    cases evolves with
    | same => exact h.listed id r found ended
    | insert absent live unreleased =>
      rw [Table.get?_put] at found
      split at found
      · cases found
        rw [terminal_of_live live] at ended
        cases ended
      · exact h.listed id r found ended
    | change present level same permit =>
      rw [Table.get?_put] at found
      split at found
      · rename_i here
        cases found
        exact h.listed id _ (here ▸ present) (level ▸ ended)
      · exact h.listed id r found ended
    | finish present live done released name =>
      rw [Table.get?_put] at found
      split at found
      · rename_i here
        exact .inl ⟨_, List.mem_append_right _ List.mem_cons_self, name.trans here⟩
      · rcases h.listed id r found ended with ⟨m, mem, same⟩ | before
        · exact .inl ⟨m, List.mem_append_left _ mem, same⟩
        · exact .inr before
    | drop present live =>
      rw [Table.get?_remove] at found
      split at found
      · cases found
      · exact h.listed id r found ended

end Evolution

/-- The invariant: every call that holds the lock and may claim the ending is listed for it,
unless its write still decides, and whoever has claimed it is listed. -/
structure Fair (loaded : Records) (w : World) : Prop where
  sane : Sane w
  ends : Ends loaded (standing w) w.flips
  claimed : ∀ c, w.holder = some c → c.op.claims = true → c.edit.pending = false →
    c.mark ∈ w.flips
  truthful : ∀ m ∈ w.trues, m ∈ w.flips

section Invariant
variable {loaded : Records} {w : World} {l : Label}

theorem Evolves.flips_subset {s t : Records} {f g : List Mark} (evolves : Evolves s f t g) :
    f ⊆ g := by
  cases evolves with
  | finish => exact List.subset_append_left _ _
  | _ => exact fun _ mem => mem

theorem trues_return {c : Call} {m : Mark} (mem : m ∈ (w.return_ c).trues) :
    m ∈ w.trues ∨ m = c.mark ∧ c.op.claims = true := by
  unfold World.return_ at mem
  split at mem
  · rename_i said
    rcases List.mem_append.mp mem with old | new
    · exact .inl old
    · exact .inr ⟨List.mem_singleton.mp new, said.2.1⟩
  · exact .inl mem

section
variable (ok : undisturbed l w = true) (fair : Fair loaded w)
include ok fair

theorem claimed_step (c : Call) (held : (step l w).holder = some c) (claims : c.op.claims = true)
    (firm : c.edit.pending = false) : c.mark ∈ (step l w).flips := by
  have grow := (evolves_step ok fair.sane).flips_subset
  have moves := moves_step l w
  generalize step l w = v at moves held grow
  cases moves with
  | stay => exact fair.claimed c held claims firm
  | @hold _ op now e free edit =>
    cases held
    obtain ⟨r, found, live, ended⟩ := Op.ends_of_claims claims edit
    have logged : flipped (w.records.get? op.id) e.next = true := by
      simp [flipped, found, ended, terminal_of_live live]
    have firm' : e.pending = false := firm
    simp [World.hold, logged, firm']
  | @replace _ d same waiting =>
    cases held
    exact fair.claimed d same claims firm
  | undone => cases held
  | fail => cases (fail_holder _ _).symm.trans held
  | @compensate _ d now same undoing landed shield =>
    cases held
    exact grow (fair.claimed d same claims firm)
  | commit => cases (commit_holder _ _).symm.trans held
  | @absorb _ d same =>
    cases held
    exact fair.claimed d same claims firm
  | abandon => cases held
  | stray => exact fair.claimed c held claims firm

theorem truthful_step (m : Mark) (mem : m ∈ (step l w).trues) : m ∈ (step l w).flips := by
  have grow := (evolves_step ok fair.sane).flips_subset
  have moves := moves_step l w
  generalize step l w = v at moves mem grow
  cases moves with
  | @fail _ c now held undoing lost =>
    have old : m ∈ w.trues ∨ m = c.mark ∧ c.op.claims = true ∧ c.edit.strict = false := by
      unfold World.fail at mem
      simp only at mem
      split at mem
      · exact .inl mem
      · rename_i loose
        rcases trues_return mem with old | ⟨new, claims⟩
        · exact .inl old
        · exact .inr ⟨new, claims, Bool.eq_false_iff.mpr loose⟩
    rcases old with old | ⟨rfl, claims, loose⟩
    · exact grow (fair.truthful m old)
    · refine grow (fair.claimed c held claims (Bool.eq_false_iff.mpr fun pending => ?_))
      -- an ending that can be taken back is strict, and a strict failure is raised
      obtain ⟨_, _, _, _, _, _, shape⟩ := strict_of_pending (fair.sane c held).mutates pending
      rw [shape] at loose
      cases loose
  | @commit _ c now held undoing landed kept =>
    rcases trues_return mem with old | ⟨rfl, claims⟩
    · exact grow (fair.truthful m old)
    · cases pending : c.edit.pending with
      | true =>
        rw [commit_flips, if_pos pending]
        exact List.mem_append_right _ List.mem_cons_self
      | false => exact grow (fair.claimed c held claims pending)
  | _ => exact grow (fair.truthful m mem)

theorem fair_step : Fair loaded (step l w) := by
  refine ⟨sane_step (fun op now same => ?_) fair.sane,
    (evolves_step ok fair.sane).ends fair.ends, claimed_step ok fair, truthful_step ok fair⟩
  subst same
  exact ok

end

theorem fair_boot (rows : List Row) (written : Option Int) :
    Fair (load rows) (boot rows written) := by
  have none (m : Mark) (mem : m ∈ (boot rows written).flips) : False := List.not_mem_nil mem
  refine ⟨sane_free rfl, ⟨fun id r found => ?_, fun m mem => (none m mem).elim,
    fun m mem => (none m mem).elim, fun id r found ended => ?_⟩, fun c held => ?_,
    fun m mem => absurd mem List.not_mem_nil⟩
  · obtain ⟨row, -, -, rfl⟩ := exists_row_of_load found
    intro p some_
    cases some_
  · exact .inr ⟨r, found, ended⟩
  · cases held

def Final (w v : World) : Prop :=
  ∀ id r, (standing w).get? id = some r → r.status.terminal = true →
    ∃ q, (standing v).get? id = some q ∧ SameEnd r.toRow q.toRow

theorem final_run {ls : List Label} {v : World} (fair : Fair loaded w)
    (run : Runs step (fun l w => undisturbed l w = true) w ls v) : Final w v := by
  refine Runs.relation (I := Fair loaded) (fun l s ok h => fair_step ok h) ?_ ?_ ?_ run fair
  · exact fun s id r found ended => ⟨r, found, .refl _⟩
  · intro s t u first second id r found ended
    obtain ⟨q, inside, same⟩ := first id r found ended
    obtain ⟨p, after, same'⟩ := second id q inside (same.terminal ended)
    exact ⟨p, after, same.trans same'⟩
  · exact fun l s ok h id r found ended => (evolves_step ok h.sane).final found ended

end Invariant

theorem permit_iff {loaded : Records} {w : World} (fair : Fair loaded w) {id : String}
    {r : Record} {p : Permit} (found : w.records.get? id = some r) (permit : r.permit = some p) :
    p = .released ↔ Terminated w id := by
  by_cases decided : ∀ c, w.holder = some c → c.id = id → c.edit.pending = false
  · have stands : (standing w).get? id = some r := (get?_standing fair.sane decided).trans found
    rw [fair.ends.settled id r stands p permit]
    refine ⟨fun ended => ⟨r, found, ended, decided⟩, fun ⟨q, inside, ended, _⟩ => ?_⟩
    cases found.symm.trans inside
    exact ended
  · obtain ⟨c, held, here, pending⟩ : ∃ c, w.holder = some c ∧ c.id = id ∧ c.edit.pending = true := by
      simpa using decided
    have h := fair.sane c held
    obtain ⟨q, before, live, later, kept, ended, shape⟩ := strict_of_pending h.mutates pending
    have next : r = c.edit.next := by
      have present := get?_held h (going_of_pending h pending)
      rw [here, found] at present
      exact Option.some.inj present
    have unreleased := fair.ends.settled c.id q (standing_pending held pending ▸ before) p
      (kept.symm.trans (next ▸ permit))
    rw [unreleased, terminal_of_live live]
    refine ⟨fun no => absurd no Bool.false_ne_true, fun ⟨_, _, _, decided⟩ => ?_⟩
    rw [decided c held here] at pending
    cases pending

theorem restored_of_failed {w : World} {c : Call} (now : Int) (sane : Sane w)
    (held : w.holder = some c) (pending : c.edit.pending = true) (lost : c.replaced = false) :
    (step (.settle now) w).records = c.before ∧
    ∃ r, c.before.get? c.id = some r ∧ r.live = true := by
  have h := sane c held
  have going := going_of_pending h pending
  obtain ⟨r, found, live, later, permit, ended, shape⟩ := strict_of_pending h.mutates pending
  have failed : c.edit.failed = some r := by rw [shape]
  have named : r.id = c.id := id_of_get? found
  refine ⟨?_, r, found, live⟩
  have settles : step (.settle now) w = w.fail c := by
    simp [step, World.settle, held, going, lost]
  rw [settles, fail_records, failed, World.assign, records_held h going,
    put_put ((next_id h.mutates).trans named.symm)]
  exact Table.put_self (named ▸ found)

theorem start_vetoed {w : World} {id reason : String} {args : Terminal} {now : Int}
    (veto : args.veto = some reason) : step (.start (.tryTransitionTerminal id args) now) w = w := by
  cases h : w.holder with
  | some c => simp [step, World.start, h]
  | none =>
    cases found : w.records.get? id with
    | none => simp [step, World.start, h, Op.id, found, Op.edit]
    | some r =>
      have refused : ∃ a, r.tryTransitionTerminal now args = .error a := by
        unfold Record.tryTransitionTerminal
        split
        · exact ⟨_, rfl⟩
        split
        · exact ⟨_, rfl⟩
        rw [veto]
        exact ⟨_, rfl⟩
      obtain ⟨a, answer⟩ := refused
      simp [step, World.start, h, Op.id, found, Op.edit, answer]

/-- An engagement ends once. At most one call ends it or says so, and it has then ended; an
engagement that has ended was ended by a listed call or was loaded that way, and in every
continuation it keeps its status, its completion time and its error. A vetoed transition changes
nothing, a strict one whose write fails leaves the table it found, with the record live. And a
permit has been released exactly when its engagement has ended. -/
theorem engagement_ends_once {rows : List Row} {written : Option Int} {ls : List Label} {w : World}
    (run : Runs step (fun l w => undisturbed l w = true) (boot rows written) ls w) :
    (∀ m ∈ w.flips ++ w.trues, Terminated w m.id ∧
      ∀ n ∈ w.flips ++ w.trues, m.id = n.id → m.number = n.number) ∧
    (∀ id, Terminated w id → (∃ m ∈ w.flips, m.id = id) ∨
      ∃ q, (load rows).get? id = some q ∧ q.status.terminal = true) ∧
    (∀ id ms v, Terminated w id → Runs step (fun l w => undisturbed l w = true) w ms v →
      Terminated v id ∧ ∃ r q, w.records.get? id = some r ∧ v.records.get? id = some q ∧
        SameEnd r.toRow q.toRow) ∧
    (∀ id args reason now, args.veto = some reason →
      step (.start (.tryTransitionTerminal id args) now) w = w) ∧
    (∀ c now, w.holder = some c → c.edit.pending = true → c.replaced = false →
      (step (.settle now) w).records = c.before ∧
      ∃ r, c.before.get? c.id = some r ∧ r.live = true ∧ r.permit ≠ some .released) ∧
    ∀ id r p, w.records.get? id = some r → r.permit = some p →
      (p = .released ↔ Terminated w id) := by
  have fair : Fair (load rows) w := run.invariant (fun l s ok h => fair_step ok h)
    (fair_boot rows written)
  have inFlips : ∀ m ∈ w.flips ++ w.trues, m ∈ w.flips := by
    intro m mem
    rcases List.mem_append.mp mem with flip | said
    · exact flip
    · exact fair.truthful m said
  refine ⟨fun m mem => ⟨?_, fun n inside same => ?_⟩, fun id done => ?_, fun id ms v done more => ?_,
    fun id args reason now veto => ?_, fun c now held pending lost => ?_,
    fun id r p found permit => permit_iff fair found permit⟩
  · obtain ⟨r, found, ended⟩ := fair.ends.ended m (inFlips m mem)
    exact terminated_of_standing fair.sane found ended
  · exact fair.ends.single m (inFlips m mem) n (inFlips n inside) same
  · obtain ⟨r, stands, found, ended⟩ := standing_of_terminated fair.sane done
    exact fair.ends.listed id r stands ended
  · obtain ⟨r, stands, found, ended⟩ := standing_of_terminated fair.sane done
    obtain ⟨q, after, same⟩ := final_run fair more id r stands ended
    have fair' : Fair (load rows) v := more.invariant (fun l s ok h => fair_step ok h) fair
    have still := terminated_of_standing fair'.sane after (same.terminal ended)
    obtain ⟨q', after', found', -⟩ := standing_of_terminated fair'.sane still
    cases after.symm.trans after'
    exact ⟨still, r, q, found, found', same⟩
  · exact start_vetoed veto
  · obtain ⟨restored, r, found, live⟩ := restored_of_failed now fair.sane held pending lost
    refine ⟨restored, r, found, live, fun released => ?_⟩
    have settled := fair.ends.settled c.id r (standing_pending held pending ▸ found) _ released
    rw [terminal_of_live live] at settled
    cases settled.mp rfl

/-- A delegation whose first strict ending cannot be written, whose second one is, and that is
then neither cancelled nor woken. -/
def secondTry : List Label :=
  let strict : Terminal := { outcome := .completed, strict := true }
  [.start (.create "e" {} .notRequired true) 0, .replace, .settle 0,
    .start (.tryTransitionTerminal "e" strict) 5, .settle 5,
    .start (.tryTransitionTerminal "e" strict) 6, .replace, .cancel, .settle 6,
    .start (.markError "e" "resume" "lost") 7, .start (.markIdle "e") 8,
    .start (.updateUserTurn "e" 9) 9]

theorem ended_by_second_try :
    Legal step (fun l w => undisturbed l w = true) (boot [] none) secondTry ∧
    Terminated (secondTry.foldl (fun w l => step l w) (boot [] none)) "e" := by
  have legal : Legal step (fun l w => undisturbed l w = true) (boot [] none) secondTry := by
    decide +kernel
  refine ⟨legal, ?_⟩
  have listed : (⟨"e", 2⟩ : Mark) ∈ (secondTry.foldl (fun w l => step l w) (boot [] none)).flips := by
    decide +kernel
  exact ((engagement_ends_once legal.runs).1 ⟨"e", 2⟩ (List.mem_append_left _ listed)).1

end Casa.EngagementTermination
