import Casa.EventPasses
import Mathlib.Logic.Relation

/-! Where the event spool may ask for each of its file operations, and what every pair obeys
whatever happens. The anchor's file can be spoilt at any moment, so a pass knows of it only that
nobody has put another anchor there. -/

namespace Casa.EventLicence
open KeyedTable OperationTree EventSpool EventPasses

variable {S U K T : Type} {l : Ledger S U K T}

section Facts

@[simp] theorem anchor_writeState (a : Anchor S U T) (site : StateSite) :
    (l.writeState a site).anchor = some a := by
  cases site <;> rfl

variable [DecidableEq S]

@[simp] theorem recordOf_writeState (a : Anchor S U T) (site : StateSite) (s : S) :
    (l.writeState a site).recordOf s = l.recordOf s := by
  cases site <;> rfl

variable (emitted : List U) (s t : S) (r : Record K T) (site : DeliverySite)

@[simp] theorem anchor_writeDelivery : (l.writeDelivery emitted s r site).anchor = l.anchor := by
  cases site <;> rfl

theorem delivery_writeDelivery :
    (l.writeDelivery emitted s r site).delivery = l.delivery.put (s, .record r) := by
  cases site <;> rfl

@[simp] theorem recordOf_writeDelivery :
    (l.writeDelivery emitted s r site).recordOf t = if s = t then some r else l.recordOf t := by
  rw [Ledger.recordOf, delivery_writeDelivery, Table.get?_put]
  by_cases same : s = t
  · simp [same]
  · simp [same, Ledger.recordOf]

@[simp] theorem recordOf_remove :
    { l with delivery := l.delivery.remove s : Ledger S U K T }.recordOf t =
      if s = t then none else l.recordOf t := by
  rw [Ledger.recordOf]
  simp only [Table.get?_remove]
  by_cases same : s = t
  · simp [same]
  · simp [same, Ledger.recordOf]

end Facts

section Effects
variable [DecidableEq S] [DecidableEq U] [DecidableEq K] {p q : Pair S U K T}

inductive Effect (p : Pair S U K T) : PairOp S U K T → Pair S U K T → Prop
  | nothing (op : PairOp S U K T) : Effect p op p
  | entered (routed : List S) :
      Effect p (.enter routed) { p with ledger := p.ledger.enter routed }
  | overlooked : Effect p .scan { p with ledger := { p.ledger with overlooked := true } }
  | quarantined : Effect p .quarantineState { p with ledger := { p.ledger with state := none } }
  | anchored (site : StateSite) (a : Anchor S U T) :
      Effect p (.writeState site a) { p with ledger := p.ledger.writeState a site }
  | handed (token : K) :
      Effect p .newToken
        { p with
          ledger :=
            { p.ledger with repeated := p.ledger.repeated || decide (token ∈ p.ledger.used) } }
  | wrote (site : DeliverySite) (s : S) (r : Record K T) (ok : Bool) :
      Effect p (.writeDelivery site s r)
        { p with
          ledger :=
            { p.ledger.writeDelivery p.emitted s r site with
              unreported := p.ledger.unreported || (decide (site = .repaired) && !ok) } }
  | unlinked (disposal : Disposal) (u : U) :
      Effect p (.unlinkEmission disposal u) { p with emissions := p.emissions.remove u }
  | quarantinedDelivery (s : S) :
      Effect p (.quarantineDelivery s)
        { p with ledger := { p.ledger with delivery := p.ledger.delivery.remove s } }
  | dropped (s : S) :
      Effect p (.unlinkDelivery s)
        { p with ledger := { p.ledger with delivery := p.ledger.delivery.remove s } }

theorem run_effect (bytes : Anchor S U T → Nat) (op : PairOp S U K T) (i : Input S U K)
    (p : Pair S U K T) : Effect p op (runPair bytes op i p).2 := by
  cases op with
  | enter routed => exact .entered routed
  | scan =>
    simp only [runPair]
    split
    · exact .nothing _
    · exact .overlooked
  | quarantineState =>
    simp only [runPair]
    split
    · exact .quarantined
    · exact .nothing _
  | writeState site a =>
    simp only [runPair]
    split
    · exact .anchored site a
    · exact .nothing _
  | newToken => exact .handed i.token
  | writeDelivery site s r =>
    simp only [runPair]
    split
    · exact .wrote site s r i.ok
    · exact .nothing _
  | unlinkEmission disposal u =>
    simp only [runPair]
    split
    · exact .unlinked disposal u
    · exact .nothing _
  | quarantineDelivery s =>
    simp only [runPair]
    split
    · exact .quarantinedDelivery s
    · exact .nothing _
  | unlinkDelivery s =>
    simp only [runPair]
    split
    · exact .dropped s
    · exact .nothing _
  | _ => exact .nothing _

end Effects

section Licences
variable [DecidableEq S]

def Bounded (gen : Nat) (l : Ledger S U K T) : Prop := ∀ s r, l.recordOf s = some r → r.gen ≤ gen

/-- The anchor on disk is `a`, unless it has been spoilt. -/
structure Stands (a : Anchor S U T) (l : Ledger S U K T) : Prop where
  only : ∀ b, l.anchor = some b → b = a
  there : l.scribbled = false → l.anchor = some a

def Unread (bytes : Anchor S U T → Nat) (l : Ledger S U K T) : Prop :=
  ∀ b, l.anchor = some b → b.reads bytes = false

/-- Every routed member of the generation that folded `u` has a record of that generation,
minted when `u` was queued already. -/
def Covered (l : Ledger S U K T) (u : U) : Prop :=
  ∃ a, l.anchor = some a ∧ u ∈ a.folded ∧
    ∀ s ∈ a.cohort, s ∈ l.routing → ∃ r, l.recordOf s = some r ∧ r.gen = a.gen ∧ u ∈ l.born s

structure OpenLicence (bytes : Anchor S U T → Nat) (a : Anchor S U T) (p : Pair S U K T) :
    Prop where
  first : p.ledger.opens = 0
  queued : ∀ u ∈ a.folded, u ∈ p.emitted
  positive : 1 ≤ a.gen
  nodup : a.cohort.Nodup
  routed : ∀ s ∈ a.cohort, s ∈ p.ledger.routing
  next : ∀ b, p.ledger.anchor = some b → b.reads bytes = true → a.gen = b.gen + 1
  newer : p.ledger.overlooked = false → ∀ s r, p.ledger.recordOf s = some r → r.gen < a.gen
  idle : p.ledger.overlooked = false → p.ledger.unreported = false →
    ∀ s r, p.ledger.recordOf s = some r → r.status ≠ .pending

structure RebuildLicence (bytes : Anchor S U T → Nat) (a : Anchor S U T) (l : Ledger S U K T) :
    Prop where
  unread : Unread bytes l
  some_ : ∃ s r, l.recordOf s = some r
  folded : a.folded = []
  bound : l.overlooked = false → Bounded a.gen l

/-- A record minted for a member of the generation that stands. -/
structure MintLicence (a : Anchor S U T) (s : S) (r : Record K T) (l : Ledger S U K T) : Prop where
  stands : Stands a l
  member : s ∈ a.cohort
  gen : r.gen = a.gen
  pending : r.status = .pending
  fresh : l.repeated = false → r.ackToken ∉ l.used
  newer : l.overlooked = false → ∀ r₀, l.recordOf s = some r₀ → r₀.gen < a.gen

def DeliveryLicence (s : S) (r : Record K T) (l : Ledger S U K T) : DeliverySite → Prop
  | .repaired => ∃ a, MintLicence a s r l ∧ s ∈ l.routing ∧ ∃ r₀, l.recordOf s = some r₀ ∧
      r₀.gen < a.gen
  | .opened => ∃ a, MintLicence a s r l ∧ 1 ≤ l.opens
  | .rewritten => ∃ r₀, l.recordOf s = some r₀ ∧ r₀.status = .pending ∧ r.gen = r₀.gen ∧
      r.ackToken = r₀.ackToken

def Licence (bytes : Anchor S U T → Nat) : PairOp S U K T → Pair S U K T → Prop
  | .quarantineState, p => Unread bytes p.ledger
  | .writeState .reconstructed a, p => RebuildLicence bytes a p.ledger
  | .writeState .opened a, p => OpenLicence bytes a p
  | .writeDelivery site s r, p => DeliveryLicence s r p.ledger site
  | .unlinkEmission .folded u, p =>
      p.ledger.overlooked = false → p.ledger.unreported = false → p.ledger.scribbled = false →
        Covered p.ledger u
  | _, _ => True

end Licences

section Upkeep
variable [DecidableEq S] {p q : Pair S U K T} {bytes : Anchor S U T → Nat} {op : PairOp S U K T}

structure Wf (p : Pair S U K T) : Prop where
  queued : ∀ e ∈ p.emissions.rows, e.1 ∈ p.emitted
  folded : ∀ a, p.ledger.anchor = some a → ∀ u ∈ a.folded, u ∈ p.emitted
  bound : p.ledger.overlooked = false → ∀ a, p.ledger.anchor = some a → Bounded a.gen p.ledger
  served : p.ledger.overlooked = false → ∀ a, p.ledger.anchor = some a →
    ∀ s r, p.ledger.recordOf s = some r → r.gen = a.gen → ∀ u ∈ a.folded, u ∈ p.ledger.born s
  opens : p.ledger.opens ≤ 1
  used : ∀ s r, p.ledger.recordOf s = some r → r.ackToken ∈ p.ledger.used
  distinct : p.ledger.repeated = false → ∀ s t r r', p.ledger.recordOf s = some r →
    p.ledger.recordOf t = some r' → r.ackToken = r'.ackToken → s = t

theorem Wf.shrink (wf : Wf p) {m : Ledger S U K T}
    (anchor : ∀ a, m.anchor = some a → p.ledger.anchor = some a)
    (records : ∀ s r, m.recordOf s = some r → p.ledger.recordOf s = some r)
    (born : m.born = p.ledger.born) (used : m.used = p.ledger.used) (opens : m.opens ≤ 1)
    (overlooked : m.overlooked = false → p.ledger.overlooked = false)
    (repeated : m.repeated = false → p.ledger.repeated = false) :
    Wf { p with ledger := m } where
  queued := wf.queued
  folded a there := wf.folded a (anchor a there)
  bound seen a there s r found :=
    wf.bound (overlooked seen) a (anchor a there) s r (records s r found)
  served seen a there s r found same u mem := by
    rw [born]
    exact wf.served (overlooked seen) a (anchor a there) s r (records s r found) same u mem
  opens := opens
  used s r found := by
    rw [used]
    exact wf.used s r (records s r found)
  distinct once s t r r' found found' same :=
    wf.distinct (repeated once) s t r r' (records s r found) (records t r' found') same

theorem Wf.anchored (wf : Wf p) {a : Anchor S U T} (queued : ∀ u ∈ a.folded, u ∈ p.emitted)
    (bound : p.ledger.overlooked = false → Bounded a.gen p.ledger)
    (served : p.ledger.overlooked = false → ∀ s r, p.ledger.recordOf s = some r →
      r.gen = a.gen → a.folded = [])
    {site : StateSite} (first : site = .opened → p.ledger.opens = 0) :
    Wf { p with ledger := p.ledger.writeState a site } := by
  have fields : (p.ledger.writeState a site).overlooked = p.ledger.overlooked ∧
      (p.ledger.writeState a site).repeated = p.ledger.repeated ∧
      (p.ledger.writeState a site).used = p.ledger.used := by
    cases site <;> exact ⟨rfl, rfl, rfl⟩
  obtain ⟨overlooked, repeated, used⟩ := fields
  refine ⟨wf.queued, ?_, ?_, ?_, ?_, ?_, ?_⟩
  · intro b there u mem
    rw [anchor_writeState] at there
    cases there
    exact queued u mem
  · intro seen b there s r found
    rw [anchor_writeState] at there
    cases there
    rw [recordOf_writeState] at found
    exact bound (overlooked ▸ seen) s r found
  · intro seen b there s r found same u mem
    rw [anchor_writeState] at there
    cases there
    rw [recordOf_writeState] at found
    rw [served (overlooked ▸ seen) s r found same] at mem
    cases mem
  · cases site with
    | reconstructed => exact wf.opens
    | opened =>
      change p.ledger.opens + 1 ≤ 1
      rw [first rfl]
  · intro s r found
    rw [recordOf_writeState] at found
    exact used ▸ wf.used s r found
  · intro once s t r r' found found'
    rw [recordOf_writeState] at found found'
    exact wf.distinct (repeated ▸ once) s t r r' found found'

theorem Wf.rewritten (wf : Wf p) {s : S} {r r₀ : Record K T} (old : p.ledger.recordOf s = some r₀)
    (gen : r.gen = r₀.gen) (token : r.ackToken = r₀.ackToken) :
    Wf { p with ledger := p.ledger.writeDelivery p.emitted s r .rewritten } := by
  -- every record of the new ledger has the generation and the token of the old one
  have same : ∀ t q, (p.ledger.writeDelivery p.emitted s r .rewritten).recordOf t = some q →
      ∃ q₀, p.ledger.recordOf t = some q₀ ∧ q.gen = q₀.gen ∧ q.ackToken = q₀.ackToken := by
    intro t q found
    rw [recordOf_writeDelivery] at found
    split at found
    · next hit =>
      cases found
      exact ⟨r₀, hit ▸ old, gen, token⟩
    · exact ⟨q, found, rfl, rfl⟩
  refine ⟨wf.queued, wf.folded, ?_, ?_, wf.opens, ?_, ?_⟩
  · intro seen a there t q found
    obtain ⟨q₀, before, gen₀, -⟩ := same t q found
    rw [gen₀]
    exact wf.bound seen a there t q₀ before
  · intro seen a there t q found level
    obtain ⟨q₀, before, gen₀, -⟩ := same t q found
    exact wf.served seen a there t q₀ before (gen₀ ▸ level)
  · intro t q found
    obtain ⟨q₀, before, -, token₀⟩ := same t q found
    rw [token₀]
    exact wf.used t q₀ before
  · intro once t t' q q' found found' equal
    obtain ⟨q₀, before, -, token₀⟩ := same t q found
    obtain ⟨q₁, before', -, token₁⟩ := same t' q' found'
    exact wf.distinct once t t' q₀ q₁ before before' (token₀ ▸ token₁ ▸ equal)

theorem Wf.minted (wf : Wf p) {a : Anchor S U T} {s : S} {r : Record K T}
    (lic : MintLicence a s r p.ledger) {site : DeliverySite} (mint : site ≠ .rewritten) :
    Wf { p with ledger := p.ledger.writeDelivery p.emitted s r site } := by
  have fields : (p.ledger.writeDelivery p.emitted s r site).overlooked = p.ledger.overlooked ∧
      (p.ledger.writeDelivery p.emitted s r site).repeated = p.ledger.repeated ∧
      (p.ledger.writeDelivery p.emitted s r site).opens = p.ledger.opens ∧
      (p.ledger.writeDelivery p.emitted s r site).used = r.ackToken :: p.ledger.used ∧
      ∀ t, (p.ledger.writeDelivery p.emitted s r site).born t =
        if t = s then p.emitted else p.ledger.born t := by
    cases site with
    | rewritten => exact absurd rfl mint
    | _ => exact ⟨rfl, rfl, rfl, rfl, fun _ => rfl⟩
  obtain ⟨overlooked, repeated, opens, used, born⟩ := fields
  refine ⟨wf.queued, ?_, ?_, ?_, opens ▸ wf.opens, ?_, ?_⟩
  · intro b there
    rw [anchor_writeDelivery] at there
    exact wf.folded b there
  · intro seen b there t q found
    rw [anchor_writeDelivery] at there
    rw [recordOf_writeDelivery] at found
    split at found
    · cases found
      rw [lic.stands.only b there, lic.gen]
    · exact wf.bound (overlooked ▸ seen) b there t q found
  · intro seen b there t q found level u mem
    rw [anchor_writeDelivery] at there
    rw [recordOf_writeDelivery] at found
    rw [born]
    split at found
    · next hit =>
      rw [if_pos hit.symm]
      exact wf.folded b there u mem
    · next miss =>
      rw [if_neg (Ne.symm miss)]
      exact wf.served (overlooked ▸ seen) b there t q found level u mem
  · intro t q found
    rw [recordOf_writeDelivery] at found
    rw [used]
    split at found
    · cases found
      exact List.mem_cons_self
    · exact List.mem_cons_of_mem _ (wf.used t q found)
  · intro once t t' q q' found found' equal
    have fresh := lic.fresh (repeated ▸ once)
    rw [recordOf_writeDelivery] at found found'
    split at found
    · next hit =>
      cases found
      split at found'
      · next hit' => exact hit.symm.trans hit'
      · exact absurd (equal ▸ wf.used t' q' found') fresh
    · split at found'
      · cases found'
        exact absurd (equal ▸ wf.used t q found) fresh
      · exact wf.distinct (repeated ▸ once) t t' q q' found found' equal

variable [DecidableEq U]

theorem Wf.outside (wf : Wf p) (e : Outside U T) : Wf (p.outside e) := by
  cases e with
  | emit u mtime =>
    rw [Pair.outside]
    split
    · exact wf
    · refine ⟨?_, ?_, wf.bound, wf.served, wf.opens, wf.used, wf.distinct⟩
      · intro e mem
        rcases Table.mem_put.mp mem with rfl | ⟨old, -⟩
        · exact List.mem_cons_self
        · exact List.mem_cons_of_mem _ (wf.queued e old)
      · exact fun a there u mem => List.mem_cons_of_mem _ (wf.folded a there u mem)
  | scribble =>
    refine ⟨wf.queued, ?_, ?_, ?_, wf.opens, wf.used, wf.distinct⟩
    · intro a there
      cases there
    · intro _ a there
      cases there
    · intro _ a there
      cases there

variable [DecidableEq K]

theorem Wf.effect (wf : Wf p) (lic : Licence bytes op p) (effect : Effect p op q) : Wf q := by
  cases effect with
  | nothing op => exact wf
  | entered routed =>
    exact wf.shrink (fun _ there => there) (fun _ _ found => found) rfl rfl (Nat.zero_le 1) id id
  | overlooked =>
    exact wf.shrink (fun _ there => there) (fun _ _ found => found) rfl rfl wf.opens
      (by simp) id
  | quarantined =>
    refine wf.shrink (fun a there => ?_) (fun _ _ found => found) rfl rfl wf.opens id id
    cases there
  | anchored site a =>
    cases site with
    | reconstructed =>
      refine wf.anchored ?_ lic.bound (fun _ _ _ _ _ => lic.folded) nofun
      rw [lic.folded]
      exact fun u mem => absurd mem List.not_mem_nil
    | opened =>
      refine wf.anchored lic.queued ?_ ?_ (fun _ => lic.first)
      · exact fun seen s r found => (lic.newer seen s r found).le
      · exact fun seen s r found same => absurd same (lic.newer seen s r found).ne
  | handed token =>
    refine wf.shrink (fun _ there => there) (fun _ _ found => found) rfl rfl wf.opens id ?_
    intro once
    exact (Bool.or_eq_false_iff.mp once).1
  | wrote site s r ok =>
    -- the note about REPAIR is no part of what is kept
    have body : Wf { p with ledger := p.ledger.writeDelivery p.emitted s r site } := by
      cases site with
      | rewritten =>
        obtain ⟨r₀, old, -, gen, token⟩ := lic
        exact wf.rewritten old gen token
      | repaired =>
        obtain ⟨a, mint, -⟩ := lic
        exact wf.minted mint (by simp)
      | opened =>
        obtain ⟨a, mint, -⟩ := lic
        exact wf.minted mint (by simp)
    exact ⟨body.queued, body.folded, body.bound, body.served, body.opens, body.used,
      body.distinct⟩
  | unlinked disposal u =>
    refine ⟨?_, wf.folded, wf.bound, wf.served, wf.opens, wf.used, wf.distinct⟩
    exact fun e mem => wf.queued e (Table.mem_remove.mp mem).1
  | quarantinedDelivery s =>
    refine wf.shrink (fun _ there => there) (fun t r found => ?_) rfl rfl wf.opens id id
    rw [recordOf_remove] at found
    split at found
    · cases found
    · exact found
  | dropped s =>
    refine wf.shrink (fun _ there => there) (fun t r found => ?_) rfl rfl wf.opens id id
    rw [recordOf_remove] at found
    split at found
    · cases found
    · exact found

end Upkeep

section Discipline
variable [DecidableEq S] [DecidableEq U] {p q : Pair S U K T}

def drift : Pair S U K T → Pair S U K T → Prop :=
  Relation.ReflTransGen fun p q => ∃ e, q = p.outside e

theorem Wf.drift (wf : Wf p) (moved : drift p q) : Wf q := by
  induction moved with
  | refl => exact wf
  | tail _ last ih =>
    obtain ⟨e, rfl⟩ := last
    exact ih.outside e

variable [DecidableEq K]

def discipline (bytes : Anchor S U T → Nat) :
    Discipline (runPair (S := S) (U := U) (K := K) (T := T) bytes) where
  inv := Wf
  drift := drift
  licence := Licence bytes
  refl _ := .refl
  trans first second := first.trans second
  drifted wf moved := wf.drift moved
  kept {op i p} wf lic := wf.effect lic (run_effect bytes op i p)

variable {bytes : Anchor S U T → Nat}

theorem stable_of {P : Pair S U K T → Prop} (h : ∀ p e, P p → P (p.outside e)) :
    Stable (discipline bytes) P := by
  intro p q _ moved held
  induction moved with
  | refl => exact held
  | tail _ last ih =>
    obtain ⟨e, rfl⟩ := last
    exact h _ e ih

theorem stable_ledger {φ : Ledger S U K T → Prop} (h : ∀ l, φ l → φ l.scribble) :
    Stable (discipline bytes) (fun p => φ p.ledger) := by
  refine stable_of fun p e held => ?_
  cases e with
  | emit u mtime =>
    rw [Pair.outside]
    split <;> exact held
  | scribble => exact h _ held

theorem stable_emitted (us : List U) :
    Stable (discipline (K := K) bytes) (fun p => ∀ u ∈ us, u ∈ p.emitted) := by
  refine stable_of fun p e held => ?_
  cases e with
  | emit u mtime =>
    rw [Pair.outside]
    split
    · exact held
    · exact fun w mem => List.mem_cons_of_mem _ (held w mem)
  | scribble => exact held

end Discipline

end Casa.EventLicence
