import Casa.EventLicence

/-! What each part of the event spool's code establishes, and that every task asks for its
operations only where they are licensed. -/

namespace Casa.EventSpecs
open KeyedTable OperationTree EventSpool EventPasses EventLicence

variable {S U K T : Type} [LinearOrder S] {bytes : Anchor S U T → Nat} {l : Ledger S U K T}

section Pictures
variable {records : Records S K T} {s : S} {r : Record K T}

/-- What a scan shows is on disk, and it shows everything unless its listing failed. -/
structure Seen (records : Records S K T) (l : Ledger S U K T) : Prop where
  known : ∀ s r, lookup records s = some r → l.recordOf s = some r
  all : l.overlooked = false → ∀ s r, l.recordOf s = some r → lookup records s = some r

def Exact (records : Records S K T) (l : Ledger S U K T) : Prop :=
  l.overlooked = false → l.unreported = false → ∀ s, lookup records s = l.recordOf s

theorem Seen.exact (seen : Seen records l) : Exact records l := by
  intro listed _ s
  cases here : l.recordOf s with
  | some r => exact seen.all listed s r here
  | none =>
    cases shown : lookup records s with
    | none => rfl
    | some r =>
      rw [seen.known s r shown] at here
      cases here

theorem lookup_put {t : S} :
    lookup (records.put (s, r)) t = if s = t then some r else lookup records t := by
  rw [lookup, Table.get?_put]
  split <;> rfl

theorem lookup_mem {e : S × Record K T} (mem : e ∈ records.rows) :
    lookup records e.1 = some e.2 := by
  rw [lookup, Table.get?_key mem]
  rfl

theorem mem_of_lookup (found : lookup records s = some r) : (s, r) ∈ records.rows := by
  obtain ⟨e, there, same⟩ := Option.map_eq_some_iff.mp found
  have key := Table.key_of_get? there
  have eq : e = (s, r) := Prod.ext key same
  exact eq ▸ Table.mem_of_get? there

theorem le_maxGen (found : lookup records s = some r) : r.gen ≤ maxGen records := by
  have mem := mem_of_lookup found
  rw [maxGen]
  generalize records.rows = rows at mem
  induction rows with
  | nil => cases mem
  | cons e rest ih =>
    rw [List.map_cons, List.foldr_cons]
    rcases List.mem_cons.mp mem with rfl | mem
    · exact le_max_left _ _
    · exact (ih mem).trans (le_max_right _ _)

theorem lookup_validRecords {reads : S → Bool} {files : Deliveries S K T} {s : S} {r : Record K T} :
    lookup (validRecords reads files) s = some r ↔
      (∃ e, files.get? s = some e ∧ e.2 = .record r) ∧ reads s = true := by
  rw [lookup, validRecords, Table.get?_pick]
  cases here : files.get? s with
  | none => simp
  | some e =>
    obtain ⟨t, file⟩ := e
    have key : t = s := Table.key_of_get? here
    subst key
    cases file with
    | scribbled => simp [validRecord]
    | record q =>
      by_cases readable : reads t = true
      · simp [validRecord, readable]
      · simp [validRecord, readable]

theorem recordOf_eq_some : l.recordOf s = some r ↔
    ∃ e, l.delivery.get? s = some e ∧ e.2 = .record r := by
  rw [Ledger.recordOf]
  cases here : l.delivery.get? s with
  | none => simp
  | some e =>
    obtain ⟨t, file⟩ := e
    cases file <;> simp

theorem mem_sorted {items : List S} : s ∈ sorted items ↔ s ∈ items := by
  rw [sorted, List.mem_insertionSort, List.mem_dedup]

theorem nodup_sorted (items : List S) : (sorted items).Nodup :=
  ((List.perm_insertionSort _ _).nodup_iff).mpr items.nodup_dedup

end Pictures

section Reading
variable [LinearOrder U] [DecidableEq K] {P : Pair S U K T → Prop}

section
variable (stable : Stable (discipline bytes) P)
include stable

theorem spec_read {op : PairOp S U K T}
    (lic : ∀ p, Licence bytes op p) (still : ∀ i p, (runPair bytes op i p).2 = p) :
    Spec (discipline bytes) P (Prog.ask (S := pairSig S U K T) op) (fun _ => P) := by
  refine spec_ask (S := pairSig S U K T) stable (fun _ => stable) fun p _ held =>
    ⟨lic p, fun i => ?_⟩
  rw [still i p]
  exact held

theorem spec_openDir : Spec (discipline bytes) P openDir (fun _ => P) :=
  spec_read stable (fun _ => trivial) fun _ _ => rfl

theorem spec_reprove (names : List S) : Spec (discipline bytes) P (reprove names) (fun _ => P) :=
  spec_read stable (fun _ => trivial) fun _ _ => rfl

theorem spec_listDelivery : Spec (discipline bytes) P listDelivery (fun _ => P) :=
  spec_read stable (fun _ => trivial) fun _ _ => rfl

theorem spec_writeRemovalRecord (s : S) :
    Spec (discipline bytes) P (writeRemovalRecord s) (fun _ => P) :=
  spec_read stable (fun _ => trivial) fun _ _ => rfl

theorem spec_listEmissions : Spec (discipline bytes) P listEmissions
      (fun emissions p => P p ∧ ∀ u ∈ emissions.map (·.1), u ∈ p.emitted) := by
  refine spec_ask (S := pairSig S U K T) stable (fun emissions => stable.and (stable_emitted _))
    fun p wf held => ⟨trivial, fun i => ⟨held, ?_⟩⟩
  intro u mem
  obtain ⟨e, shown, rfl⟩ := List.mem_map.mp mem
  change e ∈ (if i.ok then p.emissions.rows.filter fun e => i.sees e.1 else []) at shown
  split at shown
  · exact wf.queued e (List.mem_filter.mp shown).1
  · cases shown

end

theorem spec_readDelivery (s : S) :
    Spec (discipline bytes) (fun _ => True) (readDelivery (U := U) (K := K) (T := T) s)
      (fun marker p => ∀ r, marker = .present r → p.ledger.recordOf s = some r) := by
  refine spec_ask (S := pairSig S U K T) (stable_const _) (fun marker => ?_) fun p _ _ =>
    ⟨trivial, fun i r shown => ?_⟩
  · exact stable_ledger (φ := fun l => ∀ r, marker = .present r → l.recordOf s = some r)
      fun _ held => held
  · change (if i.ok then deliveryMarker (p.ledger.delivery.get? s) else Marker.unreadable) =
      Marker.present r at shown
    change p.ledger.recordOf s = some r
    rw [recordOf_eq_some]
    split at shown
    · cases here : p.ledger.delivery.get? s with
      | none =>
        rw [here] at shown
        cases shown
      | some e =>
        obtain ⟨t, file⟩ := e
        rw [here] at shown
        cases file with
        | scribbled => cases shown
        | record q =>
          cases shown
          exact ⟨_, rfl, rfl⟩
    · cases shown

end Reading

section Stances
variable {records : Records S K T} {a : Anchor S U T} {routed : List S} {n : Nat}

/-- Where a fold pass stands: whom it routes, how many generations it has opened, the anchor
it works from, and that no record is ahead of that anchor. -/
structure Working (a : Anchor S U T) (routed : List S) (n : Nat) (l : Ledger S U K T) : Prop where
  routing : l.routing = routed
  opens : l.opens = n
  stands : Stands a l
  bound : l.overlooked = false → Bounded a.gen l

def Read (bytes : Anchor S U T → Nat) (l : Ledger S U K T) : Marker (Anchor S U T) → Prop
  | .present a => Stands a l ∧ (l.overlooked = false → Bounded a.gen l)
  | .absent | .invalid => Unread bytes l
  | .unreadable => True

structure Ready (bytes : Anchor S U T → Nat) (curGen : Nat) (routed : List S)
    (records : Records S K T) (l : Ledger S U K T) : Prop where
  routing : l.routing = routed
  opens : l.opens = 0
  next : ∀ b, l.anchor = some b → b.reads bytes = true → curGen = b.gen
  bound : l.overlooked = false → Bounded curGen l
  exact_ : Exact records l

omit [LinearOrder S] in
theorem stands_scribble : Stands a l.scribble :=
  ⟨fun _ there => (Option.some_ne_none _ there.symm).elim,
    fun no => (Bool.false_ne_true no.symm).elim⟩

theorem unread_scribble : Unread bytes l.scribble :=
  fun _ there => (Option.some_ne_none _ there.symm).elim

theorem Working.scribble (h : Working a routed n l) : Working a routed n l.scribble :=
  ⟨h.routing, h.opens, stands_scribble, h.bound⟩

theorem Read.scribble {marker : Marker (Anchor S U T)} (h : Read bytes l marker) :
    Read bytes l.scribble marker := by
  cases marker with
  | present a => exact ⟨stands_scribble, h.2⟩
  | unreadable => trivial
  | absent => exact unread_scribble
  | invalid => exact unread_scribble

theorem Ready.scribble {curGen : Nat} (h : Ready bytes curGen routed records l) :
    Ready bytes curGen routed records l.scribble :=
  ⟨h.routing, h.opens, fun _ there => (Option.some_ne_none _ there.symm).elim, h.bound, h.exact_⟩

theorem Working.ready (h : Working a routed 0 l) (exact_ : Exact records l) :
    Ready bytes a.gen routed records l :=
  ⟨h.routing, h.opens, fun b there _ => by rw [h.stands.only b there], h.bound, exact_⟩

def Served (a : Anchor S U T) (s : S) (l : Ledger S U K T) : Prop :=
  ∃ r, l.recordOf s = some r ∧ r.gen = a.gen

theorem covered_of_served {p : Pair S U K T} (wf : Wf p) (listed : p.ledger.overlooked = false)
    (there : p.ledger.anchor = some a) {u : U} (mem : u ∈ a.folded)
    (served : ∀ s ∈ a.cohort, s ∈ p.ledger.routing → Served a s p.ledger) :
    Covered p.ledger u := by
  refine ⟨a, there, mem, fun s member routed => ?_⟩
  obtain ⟨r, found, gen⟩ := served s member routed
  exact ⟨r, found, gen, wf.served listed a there s r found gen u mem⟩

/-- What REPAIR's loop knows of the members it has not come to yet. -/
structure Picture (a : Anchor S U T) (routed todo : List S) (records : Records S K T)
    (l : Ledger S U K T) : Prop where
  working : Working a routed 0 l
  ahead : ∀ s ∈ todo, ∀ r, lookup records s = some r → l.recordOf s = some r
  exact_ : Exact records l

theorem Picture.scribble {todo : List S} {records : Records S K T}
    (h : Picture a routed todo records l) : Picture a routed todo records l.scribble :=
  ⟨h.working.scribble, h.ahead, h.exact_⟩

theorem Picture.skip {s : S} {todo : List S} {records : Records S K T}
    (h : Picture a routed (s :: todo) records l) : Picture a routed todo records l :=
  ⟨h.working, fun t mem => h.ahead t (List.mem_cons_of_mem s mem), h.exact_⟩

theorem Working.writeDelivery (h : Working a routed n l) {site : DeliverySite} {s : S}
    {r : Record K T} {emitted : List U} {unreported : Bool} (gen : r.gen = a.gen) :
    Working a routed n
      { l.writeDelivery emitted s r site with unreported := unreported } := by
  refine ⟨?_, ?_, ⟨fun b there => ?_, fun clean => ?_⟩, fun listed t q found => ?_⟩
  · cases site <;> exact h.routing
  · cases site <;> exact h.opens
  · exact h.stands.only b ((anchor_writeDelivery emitted s r site) ▸ there)
  · refine (anchor_writeDelivery emitted s r site).trans (h.stands.there ?_)
    cases site <;> exact clean
  · have seen : l.overlooked = false := by cases site <;> exact listed
    change (l.writeDelivery emitted s r site).recordOf t = some q at found
    rw [recordOf_writeDelivery] at found
    split at found
    · cases found
      exact gen.le
    · exact h.bound seen t q found

theorem mem_eligible {s : S} : s ∈ eligible a routed ↔ s ∈ a.cohort ∧ s ∈ routed := by
  rw [eligible, mem_sorted, List.mem_filter, List.contains_iff_mem]

theorem served_of_complete {records : Records S K T}
    (complete : fanOutComplete a (eligible a routed) records = true)
    (routing : l.routing = routed) (exact_ : ∀ s, lookup records s = l.recordOf s) {s : S}
    (member : s ∈ a.cohort) (routes : s ∈ l.routing) : Served a s l := by
  have each := List.all_eq_true.mp complete s (mem_eligible.mpr ⟨member, routing ▸ routes⟩)
  obtain ⟨r, found, gen⟩ := (Option.any_eq_true _ _).mp each
  exact ⟨r, (exact_ s) ▸ found, of_decide_eq_true gen⟩

end Stances

section Repair
variable {a : Anchor S U T} {routed : List S} {n : Nat} {φ : Ledger S U K T → Prop}

variable [LinearOrder U] [DecidableEq K]

theorem spec_newToken (stable : ∀ l, φ l → φ l.scribble)
    (blind : ∀ l b, φ l → φ { l with repeated := b }) :
    Spec (discipline bytes) (fun p => φ p.ledger) (newToken (U := U) (K := K) (T := T))
      (fun token p => φ p.ledger ∧ (p.ledger.repeated = false → token ∉ p.ledger.used)) := by
  have kept : ∀ token : K, Stable (discipline bytes) (fun p : Pair S U K T =>
      φ p.ledger ∧ (p.ledger.repeated = false → token ∉ p.ledger.used)) := fun token =>
    (stable_ledger stable).and (stable_ledger
      (φ := fun l => l.repeated = false → token ∉ l.used) fun _ held => held)
  refine spec_ask (S := pairSig S U K T) (stable_ledger stable) kept fun p _ held =>
    ⟨trivial, fun i => ⟨blind _ _ held, ?_⟩⟩
  intro once
  have fresh : decide (i.token ∈ p.ledger.used) = false := (Bool.or_eq_false_iff.mp once).2
  have new : i.token ∉ p.ledger.used := of_decide_eq_false fresh
  exact new

theorem unlinkEmission_ledger (disposal : Disposal) (u : U) (i : Input S U K)
    (p : Pair S U K T) : (runPair bytes (.unlinkEmission disposal u) i p).2.ledger = p.ledger := by
  simp only [runPair]
  split <;> rfl

theorem spec_unlinkAll (stable : ∀ l, φ l → φ l.scribble) {disposal : Disposal} {us : List U}
    (lic : ∀ u ∈ us, ∀ p, Wf p → φ p.ledger → Licence bytes (.unlinkEmission disposal u) p) :
    Spec (discipline bytes) (fun p => φ p.ledger)
      (unlinkAll (S := S) (K := K) (T := T) disposal us) (fun _ p => φ p.ledger) := by
  have kept : Stable (discipline bytes) (fun p : Pair S U K T => φ p.ledger) :=
    stable_ledger stable
  refine (spec_forEach_keeps kept us fun u mem => ?_).bind fun _ =>
    spec_pure kept fun _ _ held => held
  refine spec_ask (S := pairSig S U K T) kept (fun _ => kept) fun p wf held =>
    ⟨lic u mem p wf held, fun i => ?_⟩
  rw [unlinkEmission_ledger]
  exact held

theorem spec_unlinkFolded (stable : ∀ l, φ l → φ l.scribble) {names : List S} {complete : Bool}
    (stands : ∀ l, φ l → Stands a l)
    (served : complete = true → ∀ l, φ l → l.overlooked = false → l.unreported = false →
      ∀ s ∈ a.cohort, s ∈ l.routing → Served a s l) :
    Spec (discipline bytes) (fun p => φ p.ledger)
      (unlinkFolded (K := K) a names complete) (fun _ p => φ p.ledger) := by
  have kept : Stable (discipline bytes) (fun p : Pair S U K T => φ p.ledger) :=
    stable_ledger stable
  rw [unlinkFolded]
  split
  · next done =>
    refine (spec_reprove kept names).bind fun proven => ?_
    split
    · refine spec_unlinkAll stable fun u mem p wf held listed reported clean => ?_
      exact covered_of_served wf listed ((stands _ held).there clean) mem
        (served done _ held listed reported)
    · exact spec_pure kept fun _ _ held => held
  · exact spec_pure kept fun _ _ held => held

variable [Add T] [NatCast T] {now : T}

/-- The write of a back-fill: the picture stays right only when the write reports what it did. -/
theorem spec_writeRepaired {s : S} {todo : List S} {records : Records S K T} {r₀ : Record K T}
    {token : K} (out : s ∉ todo) (shown : lookup records s = some r₀) (stale : r₀.gen < a.gen)
    (member : s ∈ a.cohort) (routes : s ∈ routed) :
    Spec (discipline bytes)
      (fun p => Picture a routed (s :: todo) records p.ledger ∧
        (p.ledger.repeated = false → token ∉ p.ledger.used))
      (writeDelivery (U := U) .repaired s (newRecord a.gen token now))
      (fun ok p => Picture a routed todo
        (if ok then records.put (s, newRecord a.gen token now) else records) p.ledger) := by
  have stable : Stable (discipline bytes) (fun p : Pair S U K T =>
      Picture a routed (s :: todo) records p.ledger ∧
        (p.ledger.repeated = false → token ∉ p.ledger.used)) :=
    stable_ledger (φ := fun l => Picture a routed (s :: todo) records l ∧
      (l.repeated = false → token ∉ l.used)) fun _ held => ⟨held.1.scribble, held.2⟩
  refine spec_ask (S := pairSig S U K T) stable
    (fun ok => stable_ledger (φ := Picture a routed todo _) fun _ held => held.scribble) ?_
  rintro p wf ⟨picture, fresh⟩
  have before := picture.ahead s List.mem_cons_self r₀ shown
  refine ⟨⟨a, ⟨picture.working.stands, member, rfl, rfl, fresh, ?_⟩,
    picture.working.routing ▸ routes, r₀, before, stale⟩, fun i => ?_⟩
  · intro _ q found
    rw [before] at found
    cases found
    exact stale
  · -- the three outcomes: not landed, landed and reported, landed and reported as failed
    cases landed : i.landed with
    | false =>
      simp only [runPair, landed, Bool.false_eq_true, if_false]
      exact picture.skip
    | true =>
      simp only [runPair, landed, if_true]
      refine ⟨picture.working.writeDelivery rfl, fun t mem q found => ?_, ?_⟩
      · have other : ¬s = t := by
          rintro rfl
          exact out mem
        change (p.ledger.writeDelivery p.emitted s _ .repaired).recordOf t = some q
        rw [recordOf_writeDelivery, if_neg other]
        refine picture.ahead t (List.mem_cons_of_mem s mem) q ?_
        split at found
        · rwa [lookup_put, if_neg other] at found
        · exact found
      · intro listed reported t
        obtain ⟨earlier, now_⟩ := Bool.or_eq_false_iff.mp reported
        have ok : i.ok = true := by simpa using now_
        rw [if_pos ok, lookup_put]
        change _ = (p.ledger.writeDelivery p.emitted s _ .repaired).recordOf t
        rw [recordOf_writeDelivery, picture.exact_ listed earlier t]

theorem spec_backfill {todo : List S} (nodup : todo.Nodup) (member : ∀ s ∈ todo, s ∈ a.cohort)
    (routes : ∀ s ∈ todo, s ∈ routed) (records : Records S K T) :
    Spec (discipline bytes) (fun p => Picture a routed todo records p.ledger)
      (backfill (U := U) a now todo records)
      (fun out p => Working a routed 0 p.ledger ∧ Exact out.1 p.ledger) := by
  have kept : ∀ records : Records S K T, Stable (discipline bytes) (fun p : Pair S U K T =>
      Working a routed 0 p.ledger ∧ Exact records p.ledger) := fun records =>
    stable_ledger (φ := fun l => Working a routed 0 l ∧ Exact records l)
      fun _ held => ⟨held.1.scribble, held.2⟩
  induction todo generalizing records with
  | nil => exact spec_pure (kept records) fun p _ held => ⟨held.working, held.exact_⟩
  | cons s rest ih =>
    rw [List.nodup_cons] at nodup
    have tail := ih nodup.2 (fun t mem => member t (List.mem_cons_of_mem s mem))
      (fun t mem => routes t (List.mem_cons_of_mem s mem))
    have skip : Spec (discipline bytes) (fun p => Picture a routed (s :: rest) records p.ledger)
        (backfill (U := U) a now rest records)
        (fun out p => Working a routed 0 p.ledger ∧ Exact out.1 p.ledger) :=
      (tail records).pre fun p _ held => held.skip
    rw [backfill]
    cases shown : lookup records s with
    | none => exact skip
    | some r₀ =>
      dsimp only
      split
      · next stale =>
        refine (spec_newToken (φ := Picture a routed (s :: rest) records)
          (fun _ held => held.scribble)
          (fun _ _ held => ⟨⟨held.working.routing, held.working.opens,
            ⟨held.working.stands.only, held.working.stands.there⟩, held.working.bound⟩,
            held.ahead, held.exact_⟩)).bind fun token => ?_
        refine (spec_writeRepaired nodup.1 shown stale (member s List.mem_cons_self)
          (routes s List.mem_cons_self)).bind fun ok => ?_
        cases ok with
        | true =>
          refine (tail _).bind fun out => spec_pure (kept out.1) fun _ _ held => held
        | false => exact tail records
      · exact skip

theorem spec_repair (records : Records S K T) :
    Spec (discipline bytes)
      (fun p => Working a routed 0 p.ledger ∧ Seen records p.ledger)
      (repair (U := U) a routed now records)
      (fun out p => Ready bytes a.gen routed out.1 p.ledger) := by
  have start : Spec (discipline bytes)
      (fun p => Working a routed 0 p.ledger ∧ Seen records p.ledger)
      (backfill (U := U) a now (eligible a routed) records)
      (fun out p => Working a routed 0 p.ledger ∧ Exact out.1 p.ledger) :=
    (spec_backfill (nodup_sorted _) (fun s mem => (mem_eligible.mp mem).1)
      (fun s mem => (mem_eligible.mp mem).2) records).pre
      fun p _ held => ⟨held.1, fun s _ => held.2.known s, held.2.exact⟩
  refine start.bind fun out => ?_
  refine (spec_unlinkFolded (φ := fun l => Working a routed 0 l ∧ Exact out.1 l)
    (fun _ held => ⟨held.1.scribble, held.2⟩) (fun _ held => held.1.stands) ?_).bind fun _ => ?_
  · intro complete l held listed reported s member routes
    exact served_of_complete complete held.1.routing (held.2 listed reported) member routes
  · exact spec_pure (stable_ledger (φ := Ready bytes a.gen routed out.1)
      fun _ held => held.scribble) fun _ _ held => held.1.ready held.2

end Repair

section Open
variable [LinearOrder U] [DecidableEq K] {a : Anchor S U T} {routed : List S}

/-- The members of a fresh generation that have their record, and those still to come. -/
structure Fanning (a : Anchor S U T) (routed done todo : List S) (l : Ledger S U K T) : Prop where
  working : Working a routed 1 l
  served : ∀ s ∈ done, Served a s l
  newer : l.overlooked = false → ∀ s ∈ todo, ∀ r, l.recordOf s = some r → r.gen < a.gen

omit [LinearOrder U] [DecidableEq K] in
theorem Fanning.scribble {done todo : List S} (h : Fanning a routed done todo l) :
    Fanning a routed done todo l.scribble :=
  ⟨h.working.scribble, h.served, h.newer⟩

theorem spec_writeOpenedState {curGen : Nat} {records : Records S K T} (quiet : idle records = true)
    (gen : a.gen = curGen + 1) (nodup : a.cohort.Nodup) (routes : ∀ s ∈ a.cohort, s ∈ routed) :
    Spec (discipline bytes)
      (fun p => Ready bytes curGen routed records p.ledger ∧ ∀ u ∈ a.folded, u ∈ p.emitted)
      (writeState (K := K) .opened a)
      (fun ok p => ok = true → Fanning a routed [] a.cohort p.ledger) := by
  have stable : Stable (discipline bytes) (fun p : Pair S U K T =>
      Ready bytes curGen routed records p.ledger ∧ ∀ u ∈ a.folded, u ∈ p.emitted) :=
    (stable_ledger fun _ held => held.scribble).and (stable_emitted _)
  refine spec_ask (S := pairSig S U K T) stable
    (fun ok => .imp fun _ => stable_ledger (φ := Fanning a routed [] a.cohort)
      fun _ held => held.scribble) ?_
  rintro p wf ⟨ready, queued⟩
  have newer : p.ledger.overlooked = false → ∀ s r, p.ledger.recordOf s = some r →
      r.gen < a.gen := by
    intro listed s r found
    have := ready.bound listed s r found
    omega
  refine ⟨⟨ready.opens, queued, ?_, nodup, ?_, ?_, newer, ?_⟩, fun i ok => ?_⟩
  · omega
  · intro s mem
    rw [ready.routing]
    exact routes s mem
  · intro b there valid
    rw [gen, ready.next b there valid]
  · intro listed reported s r found
    rw [← ready.exact_ listed reported s] at found
    exact of_decide_eq_true (List.all_eq_true.mp quiet (s, r) (mem_of_lookup found))
  · cases landed : i.landed with
    | false =>
      simp only [runPair, landed, Bool.false_eq_true, if_false] at ok
    | true =>
      simp only [runPair, landed, if_true]
      refine ⟨⟨ready.routing, ?_, ⟨fun b there => ?_, fun _ => ?_⟩, fun listed s r found => ?_⟩,
        fun s mem => absurd mem List.not_mem_nil, fun listed s _ r found => ?_⟩
      · change p.ledger.opens + 1 = 1
        rw [ready.opens]
      · rw [anchor_writeState] at there
        exact (Option.some.inj there).symm
      · exact anchor_writeState a .opened
      · exact (newer listed s r found).le
      · exact newer listed s r found

variable [Add T] [NatCast T] {now : T}

theorem spec_writeOpened {s : S} {done todo : List S} {token : K} (out : s ∉ todo)
    (member : s ∈ a.cohort) :
    Spec (discipline bytes)
      (fun p => Fanning a routed done (s :: todo) p.ledger ∧
        (p.ledger.repeated = false → token ∉ p.ledger.used))
      (writeDelivery (U := U) .opened s (newRecord a.gen token now))
      (fun ok p => Fanning a routed (if ok then s :: done else done) todo p.ledger) := by
  have stable : Stable (discipline bytes) (fun p : Pair S U K T =>
      Fanning a routed done (s :: todo) p.ledger ∧
        (p.ledger.repeated = false → token ∉ p.ledger.used)) :=
    stable_ledger (φ := fun l => Fanning a routed done (s :: todo) l ∧
      (l.repeated = false → token ∉ l.used)) fun _ held => ⟨held.1.scribble, held.2⟩
  refine spec_ask (S := pairSig S U K T) stable
    (fun ok => stable_ledger (φ := Fanning a routed _ todo) fun _ held => held.scribble) ?_
  rintro p wf ⟨fanning, fresh⟩
  refine ⟨⟨a, ⟨fanning.working.stands, member, rfl, rfl, fresh, ?_⟩, ?_⟩, fun i => ?_⟩
  · exact fun listed r₀ found => fanning.newer listed s List.mem_cons_self r₀ found
  · exact fanning.working.opens.ge
  · cases landed : i.landed with
    | false =>
      simp only [runPair, landed, Bool.false_eq_true, if_false]
      exact ⟨fanning.working, fanning.served,
        fun listed t mem => fanning.newer listed t (List.mem_cons_of_mem s mem)⟩
    | true =>
      simp only [runPair, landed, if_true]
      refine ⟨fanning.working.writeDelivery rfl, fun t mem => ?_, fun listed t mem r found => ?_⟩
      · by_cases same : s = t
        · refine ⟨newRecord a.gen token now, ?_, rfl⟩
          change (p.ledger.writeDelivery p.emitted s _ .opened).recordOf t = _
          rw [recordOf_writeDelivery, if_pos same]
        · have earlier : t ∈ done := by
            split at mem
            · exact (List.mem_cons.mp mem).resolve_left (Ne.symm same)
            · exact mem
          obtain ⟨r, found, gen⟩ := fanning.served t earlier
          refine ⟨r, ?_, gen⟩
          change (p.ledger.writeDelivery p.emitted s _ .opened).recordOf t = _
          rw [recordOf_writeDelivery, if_neg same]
          exact found
      · have other : ¬s = t := by
          rintro rfl
          exact out mem
        change (p.ledger.writeDelivery p.emitted s _ .opened).recordOf t = some r at found
        rw [recordOf_writeDelivery, if_neg other] at found
        exact fanning.newer listed t (List.mem_cons_of_mem s mem) r found

theorem spec_fanOut (done todo : List S) (nodup : todo.Nodup) (member : ∀ s ∈ todo, s ∈ a.cohort) :
    Spec (discipline bytes) (fun p => Fanning a routed done todo p.ledger)
      (fanOut (U := U) (K := K) a now todo)
      (fun out p => Working a routed 1 p.ledger ∧ (∀ s ∈ done, Served a s p.ledger) ∧
        (out.2 = true → ∀ s ∈ todo, Served a s p.ledger)) := by
  have kept : ∀ (todo done : List S) (all : Bool), Stable (discipline bytes)
      (fun p : Pair S U K T => Working a routed 1 p.ledger ∧ (∀ s ∈ done, Served a s p.ledger) ∧
        (all = true → ∀ s ∈ todo, Served a s p.ledger)) := fun todo done all =>
    stable_ledger (φ := fun l => Working a routed 1 l ∧ (∀ s ∈ done, Served a s l) ∧
      (all = true → ∀ s ∈ todo, Served a s l)) fun _ held => ⟨held.1.scribble, held.2⟩
  induction todo generalizing done with
  | nil =>
    refine spec_pure (kept [] done true) fun p _ held => ⟨held.working, held.served, ?_⟩
    exact fun _ s mem => absurd mem List.not_mem_nil
  | cons s rest ih =>
    rw [List.nodup_cons] at nodup
    have tail := fun done => ih done nodup.2
      (fun t mem => member t (List.mem_cons_of_mem s mem))
    refine (spec_newToken (φ := Fanning a routed done (s :: rest))
      (fun _ held => held.scribble)
      (fun _ _ held => ⟨⟨held.working.routing, held.working.opens,
        ⟨held.working.stands.only, held.working.stands.there⟩, held.working.bound⟩,
        held.served, held.newer⟩)).bind fun token => ?_
    refine (spec_writeOpened nodup.1 (member s List.mem_cons_self)).bind fun ok => ?_
    refine (tail _).bind fun out => ?_
    cases ok with
    | true =>
      refine spec_pure (kept (s :: rest) done out.2) fun p _ held =>
        ⟨held.1, fun t mem => held.2.1 t (List.mem_cons_of_mem s mem), fun all t mem => ?_⟩
      rcases List.mem_cons.mp mem with rfl | mem
      · exact held.2.1 t List.mem_cons_self
      · exact held.2.2 all t mem
    | false =>
      exact spec_pure (kept (s :: rest) done false) fun p _ held =>
        ⟨held.1, held.2.1, fun no => (Bool.false_ne_true no).elim⟩

variable [LinearOrder T]

omit [Add T] [NatCast T] [DecidableEq K] in
theorem folded_subset {curGen : Nat} {emissions : List (U × T)} :
    ∀ u ∈ (openedAnchor (S := S) curGen routed emissions now).folded, u ∈ emissions.map (·.1) := by
  intro u mem
  obtain ⟨e, taken, rfl⟩ := List.mem_map.mp mem
  have shown := List.mem_of_mem_take taken
  rw [byAge, List.mem_insertionSort] at shown
  exact List.mem_map_of_mem shown

theorem spec_openGeneration {curGen : Nat} {records : Records S K T} :
    Spec (discipline bytes) (fun p => Ready bytes curGen routed records p.ledger)
      (openGeneration (U := U) curGen routed now records) (fun _ _ => True) := by
  refine (spec_listEmissions (stable_ledger fun _ held => held.scribble)).bind fun emissions => ?_
  dsimp only
  split
  · next may =>
    refine ((spec_writeOpenedState (a := openedAnchor curGen routed emissions now) may.2.2 rfl
      (nodup_sorted _) (fun s mem => mem_sorted.mp mem)).pre ?_).bind fun ok => ?_
    · exact fun p _ held => ⟨held.1, fun u mem => held.2 u (folded_subset u mem)⟩
    · cases ok with
      | false => exact spec_pure (stable_const _) fun _ _ _ => trivial
      | true =>
        refine ((spec_fanOut [] _ (nodup_sorted _) fun s mem => mem).pre
          fun p _ held => held rfl).bind fun out => ?_
        refine (spec_unlinkFolded (φ := fun l => Working (openedAnchor curGen routed emissions now)
          routed 1 l ∧ (out.2 = true → ∀ s ∈ (openedAnchor curGen routed emissions now).cohort,
            Served (openedAnchor curGen routed emissions now) s l))
          (fun _ held => ⟨held.1.scribble, held.2⟩) (fun _ held => held.1.stands) ?_).pre
          (fun p _ held => ⟨held.1, held.2.2⟩) |>.bind fun _ => ?_
        · exact fun all l held _ _ s member _ => held.2 all s member
        · exact spec_pure (stable_const _) fun _ _ _ => trivial
  · exact spec_pure (stable_const _) fun _ _ _ => trivial

end Open

section Fold
variable [LinearOrder U] [DecidableEq K] {routed : List S}

theorem spec_enter :
    Spec (discipline bytes) (fun _ => True) (enter (U := U) (K := K) (T := T) routed)
      (fun _ p => p.ledger.routing = routed ∧ p.ledger.opens = 0) :=
  spec_ask (S := pairSig S U K T) (stable_const _)
    (fun _ => stable_ledger (φ := fun l => l.routing = routed ∧ l.opens = 0) fun _ held => held)
    fun _ _ _ => ⟨trivial, fun _ => ⟨rfl, rfl⟩⟩

def Started (bytes : Anchor S U T → Nat) (routed : List S) (marker : Marker (Anchor S U T))
    (l : Ledger S U K T) : Prop :=
  (l.routing = routed ∧ l.opens = 0) ∧ Read bytes l marker

theorem spec_readState :
    Spec (discipline bytes) (fun p => p.ledger.routing = routed ∧ p.ledger.opens = 0)
      (readState (S := S) (U := U) (K := K) (T := T))
      (fun marker p => Started bytes routed marker p.ledger) := by
  refine spec_ask (S := pairSig S U K T)
    (stable_ledger (φ := fun l => l.routing = routed ∧ l.opens = 0) fun _ held => held)
    (fun marker => stable_ledger (φ := Started bytes routed marker)
      fun _ held => ⟨held.1, held.2.scribble⟩) fun p wf held => ⟨trivial, fun i => ⟨held, ?_⟩⟩
  change Read bytes p.ledger (if i.ok then stateMarker bytes p.ledger.state else Marker.unreadable)
  split
  · cases here : p.ledger.state with
    | none =>
      intro b there
      rw [Ledger.anchor, here] at there
      cases there
    | some file =>
      cases file with
      | scribbled =>
        intro b there
        rw [Ledger.anchor, here] at there
        cases there
      | anchor a =>
        have there : p.ledger.anchor = some a := by rw [Ledger.anchor, here]
        rw [stateMarker]
        split
        · refine ⟨⟨fun b other => ?_, fun _ => there⟩, fun listed => wf.bound listed a there⟩
          rw [there] at other
          exact (Option.some.inj other).symm
        · next no =>
          intro b other
          rw [there] at other
          cases other
          exact Bool.not_eq_true _ ▸ no
  · trivial

theorem spec_scan {marker : Marker (Anchor S U T)} :
    Spec (discipline bytes) (fun p => Started bytes routed marker p.ledger)
      (scan (S := S) (U := U) (K := K) (T := T))
      (fun out p => Started bytes routed marker p.ledger ∧
        (out.2 = false → Seen out.1 p.ledger)) := by
  refine spec_ask (S := pairSig S U K T)
    (stable_ledger (φ := Started bytes routed marker) fun _ held => ⟨held.1, held.2.scribble⟩)
    (fun out => stable_ledger
      (φ := fun l => Started bytes routed marker l ∧ (out.2 = false → Seen out.1 l))
      fun _ held => ⟨⟨held.1.1, held.1.2.scribble⟩,
        fun no => ⟨(held.2 no).known, (held.2 no).all⟩⟩)
    fun p wf held => ⟨trivial, fun i => ?_⟩
  simp only [runPair]
  split
  · refine ⟨held, fun complete => ⟨fun s r shown => ?_, fun _ s r found => ?_⟩⟩
    · exact recordOf_eq_some.mpr (lookup_validRecords.mp shown).1
    · obtain ⟨e, here, same⟩ := recordOf_eq_some.mp found
      refine lookup_validRecords.mpr ⟨⟨e, here, same⟩, ?_⟩
      have readable := List.any_eq_false.mp complete e (Table.mem_of_get? here)
      rw [← Table.key_of_get? here]
      simpa using readable
  · refine ⟨⟨held.1, ?_⟩, fun _ => ⟨fun s r shown => ?_, fun listed => ?_⟩⟩
    · cases marker with
      | present a =>
        exact ⟨⟨held.2.1.only, held.2.1.there⟩,
          fun listed => (Bool.false_ne_true listed.symm).elim⟩
      | unreadable => trivial
      | absent => exact held.2
      | invalid => exact held.2
    · cases shown
    · cases listed

variable {records : Records S K T} {now : T}

def Settled (bytes : Anchor S U T → Nat) (routed : List S) (records : Records S K T)
    (l : Ledger S U K T) : Standing S U T → Prop
  | .known (some a) => Working a routed 0 l ∧ Seen records l
  | .known none => Ready bytes 0 routed records l
  | .failed => True

omit [LinearOrder U] [DecidableEq K] in
theorem Seen.scribble (h : Seen records l) : Seen records l.scribble := ⟨h.known, h.all⟩

theorem stable_settled (standing : Standing S U T) :
    Stable (discipline bytes) (fun p : Pair S U K T =>
      Settled bytes routed records p.ledger standing) := by
  refine stable_ledger (φ := fun l => Settled bytes routed records l standing) fun l held => ?_
  cases standing with
  | failed => trivial
  | known found =>
    cases found with
    | none => exact held.scribble
    | some a => exact ⟨held.1.scribble, held.2.scribble⟩

omit [LinearOrder U] [DecidableEq K] in
theorem ready_of_nothing (started : l.routing = routed ∧ l.opens = 0) (unread : Unread bytes l)
    (seen : Seen records l) (nothing : records.rows = []) : Ready bytes 0 routed records l := by
  refine ⟨started.1, started.2, fun b there valid => ?_, fun listed s r found => ?_, seen.exact⟩
  · rw [unread b there] at valid
    cases valid
  · have shown := mem_of_lookup (seen.all listed s r found)
    rw [nothing] at shown
    cases shown

theorem spec_writeRebuilt (some_ : records.rows ≠ []) :
    Spec (discipline bytes)
      (fun p => ((p.ledger.routing = routed ∧ p.ledger.opens = 0) ∧ Unread bytes p.ledger) ∧
        Seen records p.ledger)
      (writeState (U := U) (K := K) .reconstructed (rebuiltAnchor records now))
      (fun ok p => ok = true → Settled bytes routed records p.ledger
        (.known (some (rebuiltAnchor records now)))) := by
  refine spec_ask (S := pairSig S U K T)
    (stable_ledger (φ := fun l => ((l.routing = routed ∧ l.opens = 0) ∧ Unread bytes l) ∧
      Seen records l) fun _ held => ⟨⟨held.1.1, unread_scribble⟩, held.2.scribble⟩)
    (fun ok => .imp fun _ => stable_settled _) ?_
  rintro p wf ⟨⟨started, unread⟩, seen⟩
  have bound : p.ledger.overlooked = false → Bounded (maxGen records) p.ledger :=
    fun listed s r found => le_maxGen (seen.all listed s r found)
  refine ⟨⟨unread, ?_, rfl, bound⟩, fun i ok => ?_⟩
  · obtain ⟨e, mem⟩ := List.exists_mem_of_ne_nil _ some_
    exact ⟨e.1, e.2, seen.known e.1 e.2 (lookup_mem mem)⟩
  · cases landed : i.landed with
    | false => simp only [runPair, landed, Bool.false_eq_true, if_false] at ok
    | true =>
      simp only [runPair, landed, if_true]
      refine ⟨⟨started.1, started.2, ⟨fun b there => ?_, fun _ => ?_⟩, bound⟩,
        ⟨seen.known, seen.all⟩⟩
      · rw [anchor_writeState] at there
        exact (Option.some.inj there).symm
      · exact anchor_writeState _ .reconstructed

theorem spec_quarantineState :
    Spec (discipline bytes)
      (fun p => ((p.ledger.routing = routed ∧ p.ledger.opens = 0) ∧ Unread bytes p.ledger) ∧
        Seen records p.ledger)
      (quarantineState (S := S) (U := U) (K := K) (T := T))
      (fun _ p => ((p.ledger.routing = routed ∧ p.ledger.opens = 0) ∧ Unread bytes p.ledger) ∧
        Seen records p.ledger) := by
  have stable : Stable (discipline bytes) (fun p : Pair S U K T =>
      ((p.ledger.routing = routed ∧ p.ledger.opens = 0) ∧ Unread bytes p.ledger) ∧
        Seen records p.ledger) :=
    stable_ledger (φ := fun l => ((l.routing = routed ∧ l.opens = 0) ∧ Unread bytes l) ∧
      Seen records l) fun _ held => ⟨⟨held.1.1, unread_scribble⟩, held.2.scribble⟩
  refine spec_ask (S := pairSig S U K T) stable (fun _ => stable) fun p _ held =>
    ⟨held.1.2, fun i => ?_⟩
  simp only [runPair]
  split
  · exact ⟨⟨held.1.1, fun b there => (Option.some_ne_none _ there.symm).elim⟩,
      ⟨held.2.known, held.2.all⟩⟩
  · exact held

theorem spec_reconstruct {marker : Marker (Anchor S U T)} :
    Spec (discipline bytes)
      (fun p => Started bytes routed marker p.ledger ∧ Seen records p.ledger)
      (reconstruct (K := K) marker records now)
      (fun standing p => Settled bytes routed records p.ledger standing) := by
  have failed : ∀ {P : Pair S U K T → Prop}, Spec (discipline bytes) P (pure .failed)
      (fun standing p => Settled bytes routed records p.ledger standing) := fun {P} =>
    spec_pure (stable_settled .failed) fun _ _ _ => trivial
  -- with records but no anchor, the anchor is rebuilt
  have rebuild (some_ : records.rows ≠ []) : Spec (discipline bytes)
      (fun p => ((p.ledger.routing = routed ∧ p.ledger.opens = 0) ∧ Unread bytes p.ledger) ∧
        Seen records p.ledger)
      (do
        if ← writeState (U := U) (K := K) .reconstructed (rebuiltAnchor records now) then
          pure (.known (some (rebuiltAnchor records now)))
        else pure .failed)
      (fun standing p => Settled bytes routed records p.ledger standing) := by
    refine (spec_writeRebuilt some_).bind fun ok => ?_
    cases ok with
    | false => exact failed
    | true => exact spec_pure (stable_settled _) fun _ _ held => held rfl
  cases marker with
  | unreadable => exact failed
  | present a =>
    refine spec_pure (stable_settled _) fun p _ held => ?_
    exact ⟨⟨held.1.1.1, held.1.1.2, held.1.2.1, held.1.2.2⟩, held.2⟩
  | absent =>
    rw [reconstruct]
    split
    · next nothing =>
      exact spec_pure (stable_settled _) fun p _ held =>
        ready_of_nothing held.1.1 held.1.2 held.2 nothing
    · next some_ => exact rebuild some_
  | invalid =>
    rw [reconstruct]
    split
    · next nothing =>
      exact spec_pure (stable_settled _) fun p _ held =>
        ready_of_nothing held.1.1 held.1.2 held.2 nothing
    · next some_ =>
      refine spec_quarantineState.bind fun ok => ?_
      cases ok with
      | false => exact failed
      | true => exact rebuild some_

variable [LinearOrder T] [Add T] [NatCast T]

theorem spec_foldOne :
    Spec (discipline bytes) (fun _ => True) (foldOne (U := U) (K := K) routed now)
      (fun _ _ => True) := by
  have quit : ∀ {P : Pair S U K T → Prop} {out : List S},
      Spec (discipline bytes) P (pure out) (fun _ _ => True) := fun {P out} =>
    spec_pure (stable_const _) fun _ _ _ => trivial
  refine spec_enter.bind fun _ => ?_
  refine (spec_openDir (stable_ledger (φ := fun l => l.routing = routed ∧ l.opens = 0)
    fun _ held => held)).bind fun opened => ?_
  cases opened with
  | false => exact quit
  | true =>
    refine spec_readState.bind fun marker => ?_
    dsimp only
    split
    · exact quit
    · refine spec_scan.bind fun out => ?_
      obtain ⟨records, unreadable⟩ := out
      cases unreadable with
      | true => exact quit
      | false =>
        refine ((spec_reconstruct).pre fun p _ held => ⟨held.1, held.2 rfl⟩).bind
          fun standing => ?_
        cases standing with
        | failed => exact quit
        | known found =>
          cases found with
          | none => exact spec_openGeneration
          | some a =>
            refine (spec_repair records).bind fun out => ?_
            exact spec_openGeneration.bind fun _ => quit

end Fold

section Updates
variable {s : S} {now : T}

omit [LinearOrder S] in
theorem terminalize_token (r : Record K T) (outcome : Outcome) :
    (terminalize r outcome now).ackToken = r.ackToken := by
  rw [terminalize]
  split <;> rfl

variable [LinearOrder U] [DecidableEq K]

theorem spec_rewrite {r r₀ : Record K T} (pending : r₀.status = .pending) (gen : r.gen = r₀.gen)
    (token : r.ackToken = r₀.ackToken) :
    Spec (discipline bytes) (fun p => p.ledger.recordOf s = some r₀)
      (writeDelivery (U := U) .rewritten s r) (fun _ _ => True) :=
  spec_ask (S := pairSig S U K T)
    (stable_ledger (φ := fun l => l.recordOf s = some r₀) fun _ held => held)
    (fun _ => stable_const _) fun _ _ held =>
      ⟨⟨r₀, held, pending, gen, token⟩, fun _ => trivial⟩

theorem spec_done {α : Type} {P : Pair S U K T → Prop} {a : α} :
    Spec (discipline bytes) P (pure a) (fun _ _ => True) :=
  spec_pure (stable_const _) fun _ _ _ => trivial

theorem spec_free {P : Pair S U K T → Prop} (op : PairOp S U K T) (lic : ∀ p, Licence bytes op p) :
    Spec (discipline bytes) P (Prog.ask (S := pairSig S U K T) op) (fun _ _ => True) :=
  (spec_ask (S := pairSig S U K T) (stable_const True) (fun _ => stable_const True)
    fun p _ _ => ⟨lic p, fun _ => trivial⟩).pre fun _ _ _ => trivial

theorem spec_retireUnrouted {routed installed : List S} {r : Record K T} :
    Spec (discipline bytes) (fun p => p.ledger.recordOf s = some r)
      (retireUnrouted (U := U) routed installed now s r) (fun _ _ => True) := by
  rw [retireUnrouted]
  split
  · next out =>
    refine (spec_rewrite out.2 (terminalize_gen _ _ _) (terminalize_token _ _)).bind fun ok => ?_
    cases ok <;> exact spec_done
  · exact spec_done

theorem spec_sweepRecord {routed installed : List S} :
    Spec (discipline bytes) (fun _ => True)
      (sweepRecord (U := U) (K := K) routed installed now s) (fun _ _ => True) := by
  refine (spec_readDelivery s).bind fun marker => ?_
  cases marker with
  | absent => exact spec_done
  | unreadable => exact spec_done
  | invalid => exact (spec_free (.quarantineDelivery s) fun _ => trivial).bind fun _ => spec_done
  | present r =>
    refine (spec_retireUnrouted.pre fun p _ held => held r rfl).bind fun _ => spec_done

theorem spec_dropRemoved :
    Spec (discipline bytes) (fun _ => True) (dropRemoved (U := U) (K := K) (T := T) s)
      (fun _ _ => True) := by
  refine (spec_writeRemovalRecord (stable_const _) s).bind fun ok => ?_
  cases ok with
  | false => exact spec_done
  | true => exact (spec_free (.unlinkDelivery s) fun _ => trivial).bind fun _ => spec_done

theorem spec_ackAmong [DecidableEq T] {token : K} (names : List S) :
    Spec (discipline bytes) (fun _ => True)
      (ackAmong (U := U) token now names) (fun _ _ => True) := by
  induction names with
  | nil => exact spec_done
  | cons s rest ih =>
    have others : ∀ {P : Pair S U K T → Prop}, Spec (discipline bytes) P
        (ackAmong (U := U) token now rest) (fun _ _ => True) := fun {P} =>
      ih.pre fun _ _ _ => trivial
    refine (spec_readDelivery s).bind fun marker => ?_
    cases marker with
    | absent => exact others
    | unreadable => exact others
    | invalid => exact others
    | present r =>
      dsimp only
      split
      · split
        · next pending =>
          refine ((spec_rewrite pending (terminalize_gen _ _ _) (terminalize_token _ _)).pre
            fun p _ held => held r rfl).bind fun ok => ?_
          cases ok <;> exact spec_done
        · exact spec_done
      · exact others

theorem spec_ack [DecidableEq T] {token : K} :
    Spec (discipline bytes) (fun _ => True) (ack (S := S) (U := U) token now)
      (fun _ _ => True) := by
  refine (spec_openDir (stable_const _)).bind fun opened => ?_
  cases opened with
  | false => exact spec_done
  | true => exact (spec_listDelivery (stable_const _)).bind fun names => spec_ackAmong _

theorem spec_updateDeliveryNudge [DecidableEq T] {gen : Nat}
    {mutator : Record K T → Option (Record K T)} :
    Spec (discipline bytes) (fun _ => True)
      (updateDeliveryNudge (U := U) s gen mutator) (fun _ _ => True) := by
  refine (spec_readDelivery s).bind fun marker => ?_
  cases marker with
  | absent => exact spec_done
  | unreadable => exact spec_done
  | invalid => exact spec_done
  | present r =>
    dsimp only
    split
    · next current =>
      split
      · exact spec_done
      · next merged _ =>
        split
        · next same =>
          refine ((spec_openDir (stable_ledger (φ := fun l => l.recordOf s = some r)
            fun _ held => held)).pre fun p _ held => held r rfl).bind fun opened => ?_
          cases opened with
          | false => exact spec_done
          | true => exact spec_rewrite current.1 same.1 same.2.1
        · exact spec_done
    · exact spec_done

variable [LinearOrder T]

theorem spec_sweep {routed installed : List S} {overflow : Nat} :
    Spec (discipline bytes) (fun _ => True)
      (sweep (U := U) (K := K) routed installed overflow now) (fun _ _ => True) := by
  have swept : ∀ us : List U, Spec (discipline bytes) (fun _ => True)
      (unlinkAll (S := S) (K := K) (T := T) .swept us) (fun _ _ => True) := fun us =>
    spec_unlinkAll (φ := fun _ => True) (fun _ _ => trivial) fun _ _ _ _ _ => trivial
  have queue : Spec (discipline bytes) (fun _ => True)
      (sweepEmissions (K := K) (U := U) (T := T) routed overflow) (fun _ _ => True) := by
    refine (spec_openDir (stable_const _)).bind fun opened => ?_
    cases opened with
    | false => exact spec_done
    | true =>
      refine (spec_free .listEmissions fun _ => trivial).bind fun emissions => ?_
      split <;> exact swept _
  refine queue.bind fun _ => ?_
  refine (spec_openDir (stable_const _)).bind fun opened => ?_
  cases opened with
  | false => exact spec_done
  | true =>
    refine (spec_listDelivery (stable_const _)).bind fun names => ?_
    refine (spec_forEach_keeps (stable_const _) _ fun s _ => spec_sweepRecord).bind fun drops => ?_
    exact (spec_forEach_keeps (stable_const _) _ fun s _ => spec_dropRemoved).bind
      fun _ => spec_done

end Updates

section Runs

theorem wf_empty : Wf (emptyPair (S := S) (U := U) (K := K) (T := T)).state where
  queued _ mem := absurd mem List.not_mem_nil
  folded _ there := (Option.some_ne_none _ there.symm).elim
  bound _ _ there := (Option.some_ne_none _ there.symm).elim
  served _ _ there := (Option.some_ne_none _ there.symm).elim
  opens := Nat.zero_le 1
  used _ _ found := (Option.some_ne_none _ found.symm).elim
  distinct _ _ _ _ _ found := (Option.some_ne_none _ found.symm).elim

variable [LinearOrder U] [DecidableEq K] [LinearOrder T] [Add T] [NatCast T]

theorem lawful (bytes : Anchor S U T → Nat) :
    Lawful (spool (K := K) bytes) (discipline bytes) (fun _ => True) (fun _ _ => True) where
  stable := stable_const _
  env e p _ := .single ⟨e, rfl⟩
  crash p wf := ⟨wf, trivial⟩
  program task := by
    refine Spec.pre (P := fun _ => True) ?_ fun _ _ _ => trivial
    cases task with
    | foldPass routed now =>
      cases routed with
      | none => exact spec_done
      | some routed => exact spec_foldOne.bind fun _ => spec_done
    | sweep routed installed registryValid overflow now =>
      cases routed with
      | none => exact spec_done
      | some routed =>
        cases registryValid with
        | false => exact spec_done
        | true => exact spec_sweep
    | ack token now => exact spec_ack.bind fun _ => spec_done
    | updateDeliveryNudge s gen mutator =>
      exact spec_updateDeliveryNudge.bind fun _ => spec_done

abbrev Lawed (bytes : Anchor S U T → Nat) (c : PairConfig S U K T) : Prop :=
  Guarded (m := spool (K := K) bytes) (discipline bytes) (fun _ => True) c

theorem lawed_empty : Lawed bytes (emptyPair (S := S) (U := U) (K := K) (T := T)) :=
  ⟨wf_empty, fun _ => trivial, fun _ _ held => (Option.some_ne_none _ held.symm).elim⟩

theorem Lawed.step {c : PairConfig S U K T} (lawed : Lawed bytes c) (label : PairLabel S U K T) :
    Lawed bytes ((spool bytes).step label c) :=
  Guarded.step (lawful bytes) lawed label fun _ _ _ => trivial

/-- What one step of the system does to the files: a move of the others, nothing, or what one
licensed operation does. -/
theorem Lawed.step_cases {c : PairConfig S U K T} (lawed : Lawed bytes c)
    (label : PairLabel S U K T) :
    (∃ e, label = .env e ∧ ((spool bytes).step label c).state = c.state.outside e) ∨
      ((spool bytes).step label c).state = c.state ∨
      ∃ task op i, label = .advance i ∧ c.next = some (task, op) ∧ Licence bytes op c.state ∧
        Effect c.state op ((spool bytes).step label c).state := by
  refine Guarded.keeps (m := spool bytes) (J := fun q =>
    (∃ e, label = .env e ∧ q = c.state.outside e) ∨ q = c.state ∨
      ∃ task op i, label = .advance i ∧ c.next = some (task, op) ∧ Licence bytes op c.state ∧
        Effect c.state op q) lawed label (.inr (.inl rfl)) ?_ ?_ ?_
  · exact fun e same => .inl ⟨e, same, rfl⟩
  · exact fun _ => .inr (.inl rfl)
  · exact fun task op i same asked licence =>
      .inr (.inr ⟨task, op, i, same, asked, licence, run_effect bytes op i c.state⟩)

end Runs

end Casa.EventSpecs
