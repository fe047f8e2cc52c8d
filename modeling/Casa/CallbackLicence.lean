import Casa.CallbackHost
import Mathlib.Logic.Relation

/-! Where the spool may ask for each of its file operations. The code establishes a licence
by what it reads before, so it has to be a fact that no move of the consumer undoes. All
later results about runs use the licences only. -/

namespace Casa.CallbackLicence
open CallbackAttempts OperationTree CallbackSpool CallbackPasses CallbackHost

variable {H T M α β : Type} {c d : Cell T M} {v : Verb T M}

section Consumer

@[simp] theorem consumer_claim : (c.consumer v).claim = c.claim := by
  cases v <;> simp only [Cell.consumer] <;> split <;> rfl

@[simp] theorem consumer_temp : (c.consumer v).temp = c.temp := by
  cases v <;> simp only [Cell.consumer] <;> split <;> rfl

@[simp] theorem consumer_phase : (c.consumer v).phase = c.phase := by
  cases v <;> simp only [Cell.consumer] <;> split <;> rfl

@[simp] theorem consumer_due : (c.consumer v).due = c.due := by
  cases v <;> simp only [Cell.consumer] <;> split <;> rfl

@[simp] theorem consumer_doubt : (c.consumer v).doubt = c.doubt := by
  cases v <;> simp only [Cell.consumer] <;> split <;> rfl

@[simp] theorem consumer_created : (c.consumer v).created = c.created := by
  cases v <;> simp only [Cell.consumer] <;> split <;> rfl

@[simp] theorem consumer_spent : (c.consumer v).spent = c.spent := by
  cases v <;> simp only [Cell.consumer] <;> split <;> rfl

@[simp] theorem consumer_accepted : (c.consumer v).accepted = c.accepted := by
  cases v <;> simp only [Cell.consumer] <;> split <;> rfl

@[simp] theorem consumer_consumed : (c.consumer v).consumed = c.consumed := by
  cases v <;> simp only [Cell.consumer] <;> split <;> rfl

theorem consumer_minted (h : c.minted = true) : (c.consumer v).minted = true := by
  cases v <;> simp only [Cell.consumer] <;> split <;> exact h

theorem consumer_pending : (c.consumer v).pending = c.pending ∨ c.minted = false := by
  cases v with
  | mint m =>
    cases minted : c.minted with
    | false => exact .inr rfl
    | true => exact .inl (by simp [Cell.consumer, minted])
  | collect uid => left; simp only [Cell.consumer]; split <;> rfl
  | ack => left; simp only [Cell.consumer]; split <;> rfl

theorem consumer_result :
    ((c.consumer v).result = c.result ∧ (c.consumer v).held = c.held) ∨
      (c.result ≠ none ∧ (c.consumer v).result = none ∧ (c.consumer v).held ≠ []) := by
  cases v with
  | mint m => left; simp only [Cell.consumer]; split <;> exact ⟨rfl, rfl⟩
  | ack => left; simp only [Cell.consumer]; split <;> exact ⟨rfl, rfl⟩
  | collect uid =>
    simp only [Cell.consumer]
    split
    · exact .inl ⟨rfl, rfl⟩
    · next r found => exact .inr ⟨by simp [found], rfl, List.cons_ne_nil _ _⟩

theorem consumer_attempt :
    ((c.consumer v).attempt = c.attempt ∧ (c.consumer v).token = c.token) ∨
      (c.attempt ≠ none ∧ (c.consumer v).attempt = none ∧ (c.consumer v).token ≠ none) := by
  cases v with
  | mint m => left; simp only [Cell.consumer]; split <;> exact ⟨rfl, rfl⟩
  | collect uid => left; simp only [Cell.consumer]; split <;> exact ⟨rfl, rfl⟩
  | ack =>
    simp only [Cell.consumer]
    split
    · exact .inl ⟨rfl, rfl⟩
    · next file found => exact .inr ⟨by simp [found], rfl, by simp⟩

theorem consumer_unacked (other : v ≠ .ack) :
    (c.consumer v).attempt = c.attempt ∧ (c.consumer v).token = c.token := by
  cases v with
  | mint m => simp only [Cell.consumer]; split <;> exact ⟨rfl, rfl⟩
  | collect uid => simp only [Cell.consumer]; split <;> exact ⟨rfl, rfl⟩
  | ack => exact absurd rfl other

end Consumer

section Effects

inductive Effect (c : Cell T M) : CellOp T M → Cell T M → Prop
  | nothing (op : CellOp T M) : Effect c op c
  | claimed (there : c.pending ≠ none) :
      Effect c .linkClaim { c with claim := c.pending, phase := .taking }
  | restored : Effect c .restore { c with pending := c.claim }
  | published : Effect c .linkResult
      { c with result := c.temp, created := c.created + 1, phase := .landed }
  | anomalous : Effect c .linkResult { c with phase := .landed }
  | staged (metaInfo : Option M) (mintedTs : T) (r : Result T M) :
      Effect c (.stage metaInfo mintedTs) { c with temp := some r }
  | dropped (slot : Slot) (there : c.has slot = true) : Effect c (.unlink slot) (c.drop slot)
  | retired (there : c.attempt ≠ none) :
      Effect c .retire { c with attempt := none, retired := true }
  | wrote (site : Site) (a : Attempt T M) (other : site ≠ .accepted) :
      Effect c (.replace site a) (c.write site a)
  | counted (a : Attempt T M) :
      Effect c (.replace .accepted a) ({ c with due := none }.write .accepted a)
  | spared (a : Attempt T M) : Effect c (.replace .accepted a) { c with due := none }
  | unproven : Effect c .prove { c with doubt := true }
  | unsynced : Effect c .syncDir { c with doubt := true }
  | began (opened : Bool) : Effect c (.beginTeardown opened) { c with doubt := !opened }
  | entered : Effect c .enter { c with phase := .held }
  | left (recorded : Bool) :
      Effect c (.leave recorded) { c with phase := if recorded then .recorded else .idle }
  | remembered (due : Option (Attempt T M)) : Effect c (.remember due) { c with due := due }

theorem link_source {α : Type} {ok : Bool} {source target : Option α}
    (h : link ok source target = .linked) : source ≠ none := by
  rintro rfl
  cases ok <;> cases h

theorem run_effect (op : CellOp T M) (i : Input H T) (c : Cell T M) :
    Effect c op (runCell op i c).2 := by
  cases op with
  | linkClaim =>
    simp only [runCell]
    split
    · next linked => exact .claimed (link_source linked)
    · exact .nothing _
  | restore =>
    simp only [runCell]
    split
    · exact .restored
    · exact .nothing _
  | linkResult =>
    simp only [runCell]
    split
    · exact .published
    · exact .anomalous
    · exact .nothing _
  | stage metaInfo mintedTs =>
    simp only [runCell]
    split
    · exact .staged _ _ _
    · exact .nothing _
  | unlink slot =>
    simp only [runCell]
    split
    · next found => exact .dropped slot (Bool.and_eq_true _ _ ▸ found).2
    · exact .nothing _
  | retire =>
    simp only [runCell]
    split
    · next found =>
      exact .retired (Option.isSome_iff_ne_none.mp (Bool.and_eq_true _ _ ▸ found).2)
    · exact .nothing _
  | replace site a =>
    by_cases counted : site = .accepted
    · subst counted
      simp only [runCell]
      split
      · exact .counted a
      · exact .spared a
    · simp only [runCell, if_neg counted]
      split
      · exact .wrote site a counted
      · exact .nothing _
  | prove =>
    simp only [runCell]
    split
    · exact .nothing _
    · exact .unproven
  | syncDir =>
    simp only [runCell]
    split
    · exact .nothing _
    · exact .unsynced
  | beginTeardown opened => exact .began opened
  | enter => exact .entered
  | leave recorded => exact .left recorded
  | remember due => exact .remembered due
  | look => exact .nothing _
  | probe => exact .nothing _
  | listHeld => exact .nothing _
  | fsync => exact .nothing _

end Effects

section Licences

def Settled (c : Cell T M) : Prop := c.Done ∨ c.token ≠ none

/-- `a` is what the attempt file holds, unless the consumer has taken it away since. -/
def Snapshot (a : Attempt T M) (c : Cell T M) : Prop :=
  (c.attempt = some (.record a) ∨ (c.attempt = none ∧ c.token ≠ none)) ∧ a.nudges = c.spent

def Away (c : Cell T M) : Prop := c.phase = .idle ∨ c.phase = .recorded

structure Wf (c : Cell T M) : Prop where
  fresh : c.minted = false → c.Bare ∧ c.token = none ∧ Away c ∧ c.consumed = false
  spent : ∀ a, c.attempt = some (.record a) → a.nudges = c.spent
  claimed : c.phase = .taking ∨ c.phase = .held → c.claim ≠ none
  consumed : c.consumed = true → c.Bare ∧ c.token = none ∧ Away c

def Active (c : Cell T M) : Prop := c.minted = true ∧ c.consumed = false

def Continues (a : Attempt T M) (c : Cell T M) (p : Attempt T M) : Prop :=
  Snapshot p c ∧ a.nudges = p.nudges

def Anew (a : Attempt T M) : Prop := a.nudges = 0 ∧ a.status.isDone = false

def WriteLicence (a : Attempt T M) (c : Cell T M) : Site → Prop
  | .ready => c.phase = .held ∧ Anew a
  | .failed => c.phase = .held ∧ a.nudges = 0 ∧ a.status = .done .publishFailed
  | .settled .record => a.nudges = c.spent ∧ ∃ o, o ≠ .collected ∧ a.status = .done o
  | .settled .artifacts => a.nudges = 0 ∧ ∃ o, o ≠ .collected ∧ a.status = .done o
  | .rebuilt => c.Live ∧ Anew a
  | .materialized .record => Snapshot a c
  | .materialized .artifacts => c.Live ∧ Anew a
  | .raised => ∃ p, Continues a c p ∧ a.status = p.status
  | .inferred => ∃ p, Continues a c p ∧ p.status.isDone = false ∧ ¬c.Live
  | .evicted => ∃ p, Continues a c p ∧ a.status = .done .evicted
  | .accepted => ∃ p due, Snapshot p c ∧ c.due = some due ∧ a.nudges = due.nudges + 1 ∧
      a.status = p.status
  | .merged => ∃ p, Continues a c p ∧ a.status = p.status

def UnlinkLicence (c : Cell T M) : Slot → Prop
  | .pending => (c.phase = .taking ∧ c.claim ≠ none) ∨ Settled c
  | .claim => c.phase ≠ .taking ∧ c.phase ≠ .held ∧
      (c.result ≠ none ∨ c.held ≠ [] ∨ c.pending ≠ none ∨ Settled c ∨ c.phase = .recorded)
  | .temp => True
  | .result | .held _ => Settled c
  | .attempt => c.token ≠ none ∨ c.attempt = some .invalid
  | .token => c.Bare ∧ Away c ∧ c.doubt = false

def Licence : CellOp T M → Cell T M → Prop
  | .linkClaim, c => c.phase = .idle
  | .restore, c => Away c ∧ c.claim ≠ none ∧ c.result = none ∧ ¬c.Done
  | .linkResult, c => c.phase = .held
  | .stage _ _, c => c.phase = .held
  | .unlink slot, c => UnlinkLicence c slot
  | .retire, c => Settled c
  | .replace site a, c => Active c ∧ WriteLicence a c site
  | .enter, c => c.phase = .taking
  | .leave recorded, c => recorded = true → Settled c
  | .remember due, c => ∀ a, due = some a → a.nudges = c.spent ∧ a.nudges < maxNudges
  | _, _ => True

end Licences

section Upkeep

theorem Wf.minted_of (wf : Wf c) (h : ¬(c.Bare ∧ c.token = none)) : c.minted = true := by
  cases minted : c.minted with
  | true => rfl
  | false => exact absurd ⟨(wf.fresh minted).1, (wf.fresh minted).2.1⟩ h

theorem Wf.unconsumed_of (wf : Wf c) (h : ¬(c.Bare ∧ c.token = none ∧ Away c)) :
    c.consumed = false := by
  cases consumed : c.consumed with
  | false => rfl
  | true => exact absurd (wf.consumed consumed) h

theorem not_bare_of_live (h : c.Live) : ¬c.Bare := by
  rintro ⟨pending, claim, -, result, held, -⟩
  rcases h with live | live | live | live
  · exact live pending
  · exact live claim
  · exact live result
  · exact live held

theorem Wf.active_of (wf : Wf c) (h : ¬(c.Bare ∧ c.token = none)) : Active c :=
  ⟨wf.minted_of h, wf.unconsumed_of fun all => h ⟨all.1, all.2.1⟩⟩

theorem Wf.active_of_live (wf : Wf c) (h : c.Live) : Active c :=
  wf.active_of fun all => not_bare_of_live h all.1

theorem not_bare_of_snapshot {a : Attempt T M} (h : Snapshot a c) :
    ¬(c.Bare ∧ c.token = none) := by
  rintro ⟨⟨-, -, -, -, -, attempt⟩, token⟩
  rcases h.1 with present | ⟨-, acked⟩
  · rw [attempt] at present; cases present
  · exact acked token

theorem Wf.active_of_snapshot (wf : Wf c) {a : Attempt T M} (h : Snapshot a c) : Active c :=
  wf.active_of (not_bare_of_snapshot h)

theorem link_target {α : Type} {ok : Bool} {source target : Option α}
    (h : link ok source target = .exists_) : target ≠ none := by
  rintro rfl
  cases ok <;> cases source <;> cases h

theorem consumer_of_bare (bare : c.Bare) (minted : c.minted = true) : c.consumer v = c := by
  obtain ⟨-, -, -, result, -, attempt⟩ := bare
  cases v with
  | mint m => simp [Cell.consumer, minted]
  | collect uid => simp [Cell.consumer, result]
  | ack => simp [Cell.consumer, attempt]

theorem Wf.consumer (wf : Wf c) : Wf (c.consumer v) := by
  refine ⟨fun unminted => ?_, fun a present => ?_, fun busy => ?_, fun gone => ?_⟩
  · cases minted : c.minted with
    | true => rw [consumer_minted minted] at unminted; cases unminted
    | false =>
      have blank := wf.fresh minted
      have result := blank.1.2.2.2.1
      have attempt := blank.1.2.2.2.2.2
      cases v with
      | mint m => simp [Cell.consumer, minted] at unminted
      | collect uid => simpa [Cell.consumer, result] using blank
      | ack => simpa [Cell.consumer, attempt] using blank
  · rw [consumer_spent]
    rcases consumer_attempt (c := c) (v := v) with ⟨same, -⟩ | ⟨-, gone, -⟩
    · exact wf.spent a (same ▸ present)
    · rw [gone] at present; cases present
  · rw [consumer_phase] at busy
    rw [consumer_claim]
    exact wf.claimed busy
  · rw [consumer_consumed] at gone
    have minted : c.minted = true := by
      cases minted : c.minted with
      | true => rfl
      | false => rw [(wf.fresh minted).2.2.2] at gone; cases gone
    have bare := wf.consumed gone
    rw [consumer_of_bare bare.1 minted]
    exact bare

variable {op : CellOp T M} {i : Input H T}

theorem Wf.phase (wf : Wf c) {phase : Phase} (free : c.consumed = true → Away { c with phase := phase })
    (known : c.minted = false → Away { c with phase := phase })
    (claimed : phase = .taking ∨ phase = .held → c.claim ≠ none) :
    Wf { c with phase := phase } where
  fresh unminted :=
    ⟨(wf.fresh unminted).1, (wf.fresh unminted).2.1, known unminted, (wf.fresh unminted).2.2.2⟩
  spent := wf.spent
  claimed := claimed
  consumed gone := ⟨(wf.consumed gone).1, (wf.consumed gone).2.1, free gone⟩

theorem wf_of_active (minted : c.minted = true) (unconsumed : c.consumed = false)
    (spent : ∀ a, c.attempt = some (.record a) → a.nudges = c.spent)
    (claimed : c.phase = .taking ∨ c.phase = .held → c.claim ≠ none) : Wf c where
  fresh no := by rw [minted] at no; cases no
  spent := spent
  claimed := claimed
  consumed gone := by rw [unconsumed] at gone; cases gone

theorem Wf.drop (wf : Wf c) {slot : Slot} (lic : UnlinkLicence c slot) (present : c.has slot = true) :
    Wf (c.drop slot) := by
  have some_ : ¬(c.Bare ∧ c.token = none) := by
    rintro ⟨⟨h1, h2, h3, h4, h5, h6⟩, h7⟩
    cases slot <;> simp [Cell.has, h1, h2, h3, h4, h5, h6, h7] at present
  obtain ⟨minted, unconsumed⟩ := wf.active_of some_
  cases slot with
  | token =>
    refine ⟨fun no => ?_, wf.spent, wf.claimed, fun _ => ⟨lic.1, rfl, lic.2.1⟩⟩
    rw [show (c.drop .token).minted = c.minted from rfl, minted] at no
    cases no
  | claim =>
    refine wf_of_active minted unconsumed wf.spent fun busy => ?_
    rcases busy with busy | busy
    · exact absurd busy lic.1
    · exact absurd busy lic.2.1
  | attempt =>
    refine wf_of_active minted unconsumed (fun a same => ?_) wf.claimed
    change none = some _ at same
    cases same
  | _ => exact wf_of_active minted unconsumed wf.spent wf.claimed

theorem Wf.write (wf : Wf c) {site : Site} {a : Attempt T M} (unconsumed : c.consumed = false)
    (minted : c.minted = true) : Wf (c.write site a) := by
  refine wf_of_active minted unconsumed ?_ wf.claimed
  rintro b ⟨⟩
  rfl

theorem Wf.effect (wf : Wf c) (lic : Licence op c) (effect : Effect c op d) : Wf d := by
  cases effect with
  | nothing op => exact wf
  | claimed there =>
    have active := wf.active_of_live (.inl there)
    exact wf_of_active active.1 active.2 wf.spent fun _ => there
  | restored =>
    have active := wf.active_of_live (.inr (.inl lic.2.1))
    exact wf_of_active active.1 active.2 wf.spent wf.claimed
  | published =>
    have active := wf.active_of_live (.inr (.inl (wf.claimed (.inr lic))))
    exact wf_of_active active.1 active.2 wf.spent (by simp)
  | anomalous =>
    have active := wf.active_of_live (.inr (.inl (wf.claimed (.inr lic))))
    exact wf_of_active active.1 active.2 wf.spent (by simp)
  | staged metaInfo mintedTs r =>
    have active := wf.active_of_live (.inr (.inl (wf.claimed (.inr lic))))
    exact wf_of_active active.1 active.2 wf.spent wf.claimed
  | dropped slot there => exact wf.drop lic there
  | retired there =>
    have active := wf.active_of fun blank => there blank.1.2.2.2.2.2
    refine wf_of_active active.1 active.2 (fun a same => ?_) wf.claimed
    change none = some _ at same
    cases same
  | wrote site a other => exact wf.write lic.1.2 lic.1.1
  | counted a =>
    have spared : Wf { c with due := none } := ⟨wf.fresh, wf.spent, wf.claimed, wf.consumed⟩
    exact spared.write lic.1.2 lic.1.1
  | entered =>
    have claimed := wf.claimed (.inl lic)
    have active := wf.active_of_live (.inr (.inl claimed))
    exact wf_of_active active.1 active.2 wf.spent fun _ => claimed
  | left recorded =>
    refine wf.phase ?_ ?_ ?_ <;> cases recorded <;> simp [Away]
  | _ => exact ⟨wf.fresh, wf.spent, wf.claimed, wf.consumed⟩

theorem Wf.run (wf : Wf c) (lic : Licence op c) : Wf (runCell op i c).2 :=
  wf.effect lic (run_effect op i c)

end Upkeep

section Discipline

def drift : Cell T M → Cell T M → Prop :=
  Relation.ReflTransGen fun c d => ∃ v, d = c.consumer v

theorem Wf.drift (wf : Wf c) (moved : drift c d) : Wf d := by
  induction moved with
  | refl => exact wf
  | tail _ last ih =>
    obtain ⟨v, rfl⟩ := last
    exact ih.consumer

def discipline (H T M : Type) : Discipline (runCell (H := H) (T := T) (M := M)) where
  inv := Wf
  drift := drift
  licence := Licence
  refl _ := .refl
  trans first second := first.trans second
  drifted wf moved := wf.drift moved
  kept wf lic := wf.run lic

abbrev Lasts (H T M : Type) (P : Cell T M → Prop) : Prop := Stable (discipline H T M) P

abbrev Yields (H T M : Type) (P : Cell T M → Prop) (p : CellProg T M α)
    (Q : α → Cell T M → Prop) : Prop :=
  Spec (discipline H T M) P p Q

variable {P : Cell T M → Prop}

theorem stable_of (h : ∀ c v, Wf c → P c → P (c.consumer v)) : Lasts H T M P := by
  intro c d wf moved held
  induction moved with
  | refl => exact held
  | tail first last ih =>
    obtain ⟨v, rfl⟩ := last
    exact h _ v (wf.drift first) ih

theorem stable_phase (φ : Phase → Prop) : Lasts H T M (fun c => φ c.phase) :=
  stable_of fun c v _ held => by rwa [consumer_phase]

theorem stable_claim (φ : Option (Mint T M) → Prop) :
    Lasts H T M (fun c => φ c.claim) :=
  stable_of fun c v _ held => by rwa [consumer_claim]

theorem stable_due (φ : Option (Attempt T M) → Prop) :
    Lasts H T M (fun c => φ c.due) :=
  stable_of fun c v _ held => by rwa [consumer_due]

theorem stable_doubt (φ : Bool → Prop) : Lasts H T M (fun c => φ c.doubt) :=
  stable_of fun c v _ held => by rwa [consumer_doubt]

theorem stable_active : Lasts H T M Active :=
  stable_of fun c v _ held => ⟨consumer_minted held.1, by rw [consumer_consumed]; exact held.2⟩

theorem stable_pending : Lasts H T M (fun c => c.pending ≠ none) := by
  refine stable_of fun c v wf held => ?_
  rcases consumer_pending (c := c) (v := v) with same | unminted
  · rwa [same]
  · exact absurd (wf.fresh unminted).1.1 held

theorem stable_published :
    Lasts H T M (fun c => c.result ≠ none ∨ c.held ≠ []) := by
  refine stable_of fun c v _ held => ?_
  rcases consumer_result (c := c) (v := v) with ⟨result, hold⟩ | ⟨-, -, some_⟩
  · rwa [result, hold]
  · exact .inr some_

theorem stable_held : Lasts H T M (fun c => c.held ≠ []) := by
  refine stable_of fun c v _ held => ?_
  rcases consumer_result (c := c) (v := v) with ⟨-, hold⟩ | ⟨-, -, some_⟩
  · rwa [hold]
  · exact some_

theorem stable_live : Lasts H T M Cell.Live := by
  refine fun c d wf moved held => ?_
  rcases held with live | live | live
  · exact .inl (stable_pending (H := H) c d wf moved live)
  · exact .inr (.inl (stable_claim (H := H) (· ≠ none) c d wf moved live))
  · exact .inr (.inr (stable_published (H := H) c d wf moved live))

theorem stable_unpublished : Lasts H T M (fun c => c.result = none) := by
  refine stable_of fun c v _ held => ?_
  rcases consumer_result (c := c) (v := v) with ⟨result, -⟩ | ⟨-, none, -⟩
  · rwa [result]
  · exact none

theorem stable_uncollected :
    Lasts H T M (fun c => c.result = none ∧ c.held = []) := by
  refine stable_of fun c v _ held => ?_
  rcases consumer_result (c := c) (v := v) with ⟨result, hold⟩ | ⟨some_, -⟩
  · rwa [result, hold]
  · exact absurd held.1 some_

theorem stable_unpended :
    Lasts H T M (fun c => c.pending = none ∧ c.minted = true) := by
  refine stable_of fun c v _ held => ⟨?_, consumer_minted held.2⟩
  rcases consumer_pending (c := c) (v := v) with same | unminted
  · exact same.trans held.1
  · rw [held.2] at unminted; cases unminted

theorem stable_token : Lasts H T M (fun c => c.token ≠ none) := by
  refine stable_of fun c v _ held => ?_
  rcases consumer_attempt (c := c) (v := v) with ⟨-, token⟩ | ⟨-, -, some_⟩
  · rwa [token]
  · exact some_

theorem stable_settled : Lasts H T M Settled := by
  refine stable_of fun c v _ held => ?_
  rcases consumer_attempt (c := c) (v := v) with ⟨attempt, token⟩ | ⟨-, -, some_⟩
  · unfold Settled Cell.Done
    rwa [attempt, token]
  · exact .inr some_

theorem stable_undone : Lasts H T M (fun c => ¬c.Done) := by
  refine stable_of fun c v _ held => ?_
  rintro ⟨a, present, done⟩
  rcases consumer_attempt (c := c) (v := v) with ⟨attempt, -⟩ | ⟨-, none, -⟩
  · exact held ⟨a, attempt ▸ present, done⟩
  · rw [none] at present; cases present

theorem stable_snapshot (a : Attempt T M) : Lasts H T M (Snapshot a) := by
  refine stable_of fun c v _ held => ⟨?_, by rw [consumer_spent]; exact held.2⟩
  rcases consumer_attempt (c := c) (v := v) with ⟨attempt, token⟩ | ⟨-, none, some_⟩
  · rw [attempt, token]; exact held.1
  · exact .inr ⟨none, some_⟩

theorem stable_unreadable :
    Lasts H T M (fun c => c.token ≠ none ∨ c.attempt = some .invalid) := by
  refine stable_of fun c v _ held => ?_
  rcases consumer_attempt (c := c) (v := v) with ⟨attempt, token⟩ | ⟨-, -, some_⟩
  · rwa [attempt, token]
  · exact .inl some_

theorem stable_gone : Lasts H T M (fun c => c.Bare ∧ c.minted = true) := by
  refine stable_of fun c v _ held => ?_
  rwa [consumer_of_bare held.1 held.2]

def Kin (c d : Cell T M) : Prop :=
  d.phase = c.phase ∧ d.consumed = c.consumed ∧ (c.minted = true → d.minted = true)

theorem Kin.refl (c : Cell T M) : Kin c c := ⟨rfl, rfl, id⟩

theorem Kin.trans {e : Cell T M} (first : Kin c d) (second : Kin d e) : Kin c e :=
  ⟨second.1.trans first.1, second.2.1.trans first.2.1, fun h => second.2.2 (first.2.2 h)⟩

theorem Kin.active (kin : Kin c d) (h : Active c) : Active d :=
  ⟨kin.2.2 h.1, kin.2.1.trans h.2⟩

theorem Kin.away (kin : Kin c d) (h : Away c) : Away d := by
  unfold Away
  rwa [kin.1]

theorem kin_consumer : Kin c (c.consumer v) :=
  ⟨consumer_phase, consumer_consumed, consumer_minted⟩

theorem stable_kin (c : Cell T M) : Lasts H T M (Kin c) :=
  stable_of fun _ _ _ held => held.trans kin_consumer

theorem kin_of_drift (moved : drift c d) : Kin c d := by
  induction moved with
  | refl => exact .refl c
  | tail _ last ih =>
    obtain ⟨v, rfl⟩ := last
    exact ih.trans kin_consumer

end Discipline

end Casa.CallbackLicence
