import Casa.StepRuns
import Mathlib.Logic.Function.Basic
import Mathlib.Data.List.Nodup
import Mathlib.Data.List.ReduceOption
import Mathlib.Logic.Relation

/-! Programs as trees of named operations, run by one process that may die between any two
of them while another party keeps moving the state. An assertion about the state is usable
when the other party cannot falsify it; `Spec` is the proof rule for such assertions, and it
shows on the way that every operation is asked for only where it is licensed. -/

namespace Casa.OperationTree
open StepRuns

/-- The operations of a device and the type of the answer each gives. -/
structure Signature where
  Op : Type
  Answer : Op → Type

variable {S V : Signature} {I σ α β γ H E K : Type}

inductive Prog (S : Signature) (α : Type) where
  | done (a : α)
  | call (op : S.Op) (next : S.Answer op → Prog S α)

namespace Prog

def bind : Prog S α → (α → Prog S β) → Prog S β
  | done a, k => k a
  | call op next, k => call op fun r => (next r).bind k

instance : Monad (Prog S) where
  pure := done
  bind := bind

def ask (op : S.Op) : Prog S (S.Answer op) := call op done

def forEach (f : β → Prog S γ) : List β → Prog S (List γ)
  | [] => pure []
  | b :: rest => do
      let g ← f b
      let gs ← forEach f rest
      pure (g :: gs)

/-- Whatever the answers are, only these operations are asked for. -/
def Within (φ : S.Op → Prop) : Prog S α → Prop
  | done _ => True
  | call op next => φ op ∧ ∀ r, (next r).Within φ

variable {φ : S.Op → Prop}

theorem Within.bind {p : Prog S α} {k : α → Prog S β} (h : p.Within φ)
    (next : ∀ a, (k a).Within φ) : (p >>= k).Within φ := by
  change (p.bind k).Within φ
  induction p with
  | done a => exact next a
  | call op rest ih => exact ⟨h.1, fun r => ih r (h.2 r)⟩

theorem Within.mono {ψ : S.Op → Prop} {p : Prog S α} (h : p.Within φ)
    (weaker : ∀ op, φ op → ψ op) : p.Within ψ := by
  induction p with
  | done a => trivial
  | call op next ih => exact ⟨weaker op h.1, fun r => ih r (h.2 r)⟩

theorem within_ask {op : S.Op} (h : φ op) : (ask op).Within φ := ⟨h, fun _ => trivial⟩

theorem within_pure (a : α) : (pure a : Prog S α).Within φ := trivial

theorem within_of_forall (h : ∀ op, φ op) (p : Prog S α) : p.Within φ := by
  induction p with
  | done a => trivial
  | call op next ih => exact ⟨h op, ih⟩

theorem within_forEach {f : β → Prog S γ} (items : List β) (body : ∀ b, (f b).Within φ) :
    (forEach f items).Within φ := by
  induction items with
  | nil => exact within_pure _
  | cons b rest ih => exact (body b).bind fun _ => ih.bind fun _ => within_pure _

end Prog

/-- What an operation does, given what the outside world decides. -/
abbrev Device (S : Signature) (I σ : Type) := (op : S.Op) → I → σ → S.Answer op × σ

/-- How a device is used: what always holds, what the other party may do between two
operations, and where each operation may be asked for. -/
structure Discipline (run : Device S I σ) where
  inv : σ → Prop
  drift : σ → σ → Prop
  licence : S.Op → σ → Prop
  refl : ∀ s, drift s s
  trans : ∀ {s t u}, drift s t → drift t u → drift s u
  drifted : ∀ {s t}, inv s → drift s t → inv t
  kept : ∀ {op i s}, inv s → licence op s → inv (run op i s).2

section Rules
variable {run : Device S I σ} (C : Discipline run)

/-- Every operation is licensed where it is asked for, and the result satisfies `Q` from the end
of the program on. -/
def Meets : Prog S α → σ → (α → σ → Prop) → Prop
  | .done a, s, Q => ∀ t, C.drift s t → Q a t
  | .call op next, s, Q => ∀ t, C.drift s t →
      C.licence op t ∧ ∀ i, Meets (next (run op i t).1) (run op i t).2 Q

/-- The other party cannot falsify `P`. -/
def Stable (P : σ → Prop) : Prop := ∀ s t, C.inv s → C.drift s t → P s → P t

def Spec (P : σ → Prop) (p : Prog S α) (Q : α → σ → Prop) : Prop :=
  ∀ s, C.inv s → P s → Meets C p s Q

variable {C}
variable {P P' : σ → Prop} {Q Q' : α → σ → Prop} {R : β → σ → Prop} {s t : σ}

theorem Stable.and (h : Stable C P) (h' : Stable C P') : Stable C (fun s => P s ∧ P' s) :=
  fun s t inv drift both => ⟨h s t inv drift both.1, h' s t inv drift both.2⟩

theorem Stable.or (h : Stable C P) (h' : Stable C P') : Stable C (fun s => P s ∨ P' s) :=
  fun s t inv drift either => either.imp (h s t inv drift) (h' s t inv drift)

theorem Stable.imp {φ : Prop} (h : φ → Stable C P) : Stable C (fun s => φ → P s) :=
  fun s t inv drift held yes => h yes s t inv drift (held yes)

theorem stable_const (φ : Prop) : Stable C (fun _ => φ) := fun _ _ _ _ held => held

theorem Meets.drift {p : Prog S α} (h : Meets C p s Q) (moved : C.drift s t) : Meets C p t Q := by
  cases p with
  | done a => exact fun u first => h u (C.trans moved first)
  | call op next => exact fun u first => h u (C.trans moved first)

theorem Meets.mono {p : Prog S α} (h : Meets C p s Q) (inv : C.inv s)
    (weaker : ∀ a t, C.inv t → Q a t → Q' a t) : Meets C p s Q' := by
  induction p generalizing s with
  | done a => exact fun t moved => weaker a t (C.drifted inv moved) (h t moved)
  | call op next ih =>
    intro t moved
    obtain ⟨licensed, rest⟩ := h t moved
    refine ⟨licensed, fun i => ih _ (rest i) ?_⟩
    exact C.kept (C.drifted inv moved) licensed

theorem Meets.bind {p : Prog S α} {k : α → Prog S β} (h : Meets C p s Q) (inv : C.inv s)
    (next : ∀ a t, C.inv t → Q a t → Meets C (k a) t R) : Meets C (p >>= k) s R := by
  change Meets C (p.bind k) s R
  induction p generalizing s with
  | done a => exact next a s inv (h s (C.refl s))
  | call op rest ih =>
    intro t moved
    obtain ⟨licensed, after⟩ := h t moved
    refine ⟨licensed, fun i => ih _ (after i) ?_⟩
    exact C.kept (C.drifted inv moved) licensed

theorem Spec.pre {p : Prog S α} (h : Spec C P p Q) (stronger : ∀ s, C.inv s → P' s → P s) :
    Spec C P' p Q :=
  fun s inv held => h s inv (stronger s inv held)

theorem Spec.post {p : Prog S α} (h : Spec C P p Q)
    (weaker : ∀ a s, C.inv s → Q a s → Q' a s) : Spec C P p Q' :=
  fun s inv held => (h s inv held).mono inv weaker

theorem Spec.bind {p : Prog S α} {k : α → Prog S β} (h : Spec C P p Q)
    (next : ∀ a, Spec C (Q a) (k a) R) : Spec C P (p >>= k) R :=
  fun s inv held => (h s inv held).bind inv fun a t invT post => next a t invT post

theorem spec_pure {a : α} (stable : Stable C (Q a)) (h : ∀ s, C.inv s → P s → Q a s) :
    Spec C P (pure a) Q :=
  fun s inv held t moved => stable s t inv moved (h s inv held)

theorem spec_ask {op : S.Op} {Q : S.Answer op → σ → Prop} (stable : Stable C P)
    (kept : ∀ a, Stable C (Q a))
    (h : ∀ s, C.inv s → P s → C.licence op s ∧ ∀ i, Q (run op i s).1 (run op i s).2) :
    Spec C P (Prog.ask op) Q := by
  intro s inv held t moved
  have invT := C.drifted inv moved
  obtain ⟨licensed, post⟩ := h t invT (stable s t inv moved held)
  exact ⟨licensed, fun i u first => kept _ _ u (C.kept invT licensed) first (post i)⟩

/-- A loop whose body keeps `P` keeps `P`. -/
theorem spec_forEach_keeps {f : β → Prog S γ} (stable : Stable C P) (items : List β)
    (body : ∀ b ∈ items, Spec C P (f b) (fun _ => P)) :
    Spec C P (Prog.forEach f items) (fun _ => P) := by
  induction items with
  | nil => exact spec_pure stable fun _ _ held => held
  | cons b rest ih =>
    refine (body b List.mem_cons_self).bind fun _ => ?_
    refine (ih fun d mem => body d (List.mem_cons_of_mem b mem)).bind fun _ => ?_
    exact spec_pure stable fun _ _ held => held

/-- A fact about values may be used as a hypothesis. -/
theorem spec_of {φ : Prop} {p : Prog S α} (h : φ → Spec C P p Q) :
    Spec C (fun s => φ ∧ P s) p Q :=
  fun s inv held => h held.1 s inv held.2

theorem spec_or {p : Prog S α} (h : Spec C P p Q) (h' : Spec C P' p Q) :
    Spec C (fun s => P s ∨ P' s) p Q :=
  fun s inv held => held.elim (h s inv) (h' s inv)

end Rules

section Moves
variable {run : Device S I σ} {inv : σ → Prop} {licence : S.Op → σ → Prop}
variable {env : E → σ → σ} {moved : ∀ {e s}, inv s → inv (env e s)}
variable {kept : ∀ {op i s}, inv s → licence op s → inv (run op i s).2}

/-- Between two operations the other party makes any number of its moves. -/
def moves (env : E → σ → σ) (inv : σ → Prop) (licence : S.Op → σ → Prop)
    (moved : ∀ {e s}, inv s → inv (env e s))
    (kept : ∀ {op i s}, inv s → licence op s → inv (run op i s).2) : Discipline run where
  inv := inv
  drift := Relation.ReflTransGen fun s t => ∃ e, t = env e s
  licence := licence
  refl := fun _ => .refl
  trans := fun first second => first.trans second
  drifted := fun held path => by
    induction path with
    | refl => exact held
    | tail _ last ih =>
      obtain ⟨e, rfl⟩ := last
      exact moved ih
  kept := kept

/-- What no single move falsifies is usable. -/
theorem stable_moves {P : σ → Prop} (h : ∀ e s, inv s → P s → P (env e s)) :
    Stable (@moves S I σ E run env inv licence moved kept) P := by
  intro s t start path held
  have both : inv t ∧ P t := by
    induction path with
    | refl => exact ⟨start, held⟩
    | tail _ last ih =>
      obtain ⟨e, rfl⟩ := last
      exact ⟨moved ih.1, h e _ ih.1 ih.2⟩
  exact both.2

end Moves

section Pairs
variable {R : α → β → Prop} {as : List α} {bs : List β}

theorem forall₂_left (h : List.Forall₂ R as bs) {a : α} (mem : a ∈ as) : ∃ b ∈ bs, R a b := by
  induction h with
  | nil => cases mem
  | cons first _ ih =>
    rcases List.mem_cons.mp mem with rfl | mem
    · exact ⟨_, List.mem_cons_self, first⟩
    · obtain ⟨b, inside, related⟩ := ih mem
      exact ⟨b, List.mem_cons_of_mem _ inside, related⟩

theorem forall₂_right (h : List.Forall₂ R as bs) {b : β} (mem : b ∈ bs) : ∃ a ∈ as, R a b := by
  obtain ⟨a, inside, related⟩ := forall₂_left h.flip mem
  exact ⟨a, inside, related⟩

/-- A loop that returns something for some of its items keeps their keys apart. -/
theorem keys_sublist {key : α → H} {bs : List (Option (H × β))}
    (h : List.Forall₂ (fun a b => ∀ x, b = some x → x.1 = key a) as bs) :
    (bs.reduceOption.map (·.1)).Sublist (as.map key) := by
  induction h with
  | nil => exact .slnil
  | @cons a b as bs first _ ih =>
    cases b with
    | none => exact ih.cons _
    | some x =>
      rw [List.reduceOption_cons_of_some, List.map_cons, List.map_cons, first x rfl]
      exact ih.cons_cons _

end Pairs

section Keys
variable [DecidableEq H]

/-- A device for every key, and questions about all of them at once. -/
def keyed (H : Type) (S V : Signature) : Signature where
  Op := (H × S.Op) ⊕ V.Op
  Answer := Sum.elim (fun p => S.Answer p.2) V.Answer

def keyedRun (run : Device S I σ) (survey : (q : V.Op) → I → (H → σ) → V.Answer q) :
    Device (keyed H S V) I (H → σ)
  | .inl p, i, s => ((run p.2 i (s p.1)).1, Function.update s p.1 (run p.2 i (s p.1)).2)
  | .inr q, i, s => (survey q i s, s)

def Prog.atKey (h : H) : Prog S α → Prog (keyed H S V) α
  | .done a => .done a
  | .call op next => .call (.inl (h, op)) fun r => (next r).atKey h

def Prog.survey (q : V.Op) : Prog (keyed H S V) (V.Answer q) := .call (.inr q) .done

variable {run : Device S I σ} {survey : (q : V.Op) → I → (H → σ) → V.Answer q}

def Discipline.keyed (C : Discipline run) (survey : (q : V.Op) → I → (H → σ) → V.Answer q) :
    Discipline (keyedRun run survey) where
  inv s := ∀ h, C.inv (s h)
  drift s t := ∀ h, C.drift (s h) (t h)
  licence op s := Sum.elim (fun p => C.licence p.2 (s p.1)) (fun _ => True) op
  refl s h := C.refl (s h)
  trans first second h := C.trans (first h) (second h)
  drifted inv moved h := C.drifted (inv h) (moved h)
  kept := by
    rintro (⟨h, op⟩ | q) i s inv licensed k
    · change C.inv (Function.update s h (run op i (s h)).2 k)
      by_cases same : k = h
      · subst same
        rw [Function.update_self]
        exact C.kept (inv k) licensed
      · rw [Function.update_of_ne same]
        exact inv k
    · exact inv k

variable {C : Discipline run}
variable {P : σ → Prop} {Q : α → σ → Prop} {F : H → σ → Prop}

theorem stable_all {φ : H → Prop} (stable : ∀ h, φ h → Stable C (F h)) :
    Stable (C.keyed survey) (fun s => ∀ h, φ h → F h (s h)) :=
  fun s t inv moved held h yes => stable h yes (s h) (t h) (inv h) (moved h) (held h yes)

/-- Work at one key leaves the other keys to the other party. -/
theorem Meets.atKey {p : Prog S α} {h : H} {s : H → σ} (meets : Meets C p (s h) Q)
    (inv : ∀ k, C.inv (s k)) (others : ∀ k, k ≠ h → Stable C (F k))
    (held : ∀ k, k ≠ h → F k (s k)) :
    Meets (C.keyed survey) (p.atKey h) s
      (fun a t => Q a (t h) ∧ ∀ k, k ≠ h → F k (t k)) := by
  induction p generalizing s with
  | done a =>
    intro t moved
    exact ⟨meets (t h) (moved h), fun k ne => others k ne _ _ (inv k) (moved k) (held k ne)⟩
  | call op next ih =>
    intro t moved
    obtain ⟨licensed, rest⟩ := meets (t h) (moved h)
    refine ⟨licensed, fun i => ih (run op i (t h)).1 ?_ ?_ ?_⟩
    · change Meets C _ (Function.update t h (run op i (t h)).2 h) Q
      rw [Function.update_self]
      exact rest i
    · exact @Discipline.kept _ _ _ _ (C.keyed survey) (.inl (h, op)) i t
        (fun k => C.drifted (inv k) (moved k)) licensed
    · intro k ne
      change F k (Function.update t h (run op i (t h)).2 k)
      rw [Function.update_of_ne ne]
      exact others k ne _ _ (inv k) (moved k) (held k ne)

theorem Spec.atKey {p : Prog S α} {h : H} (spec : Spec C P p Q)
    (others : ∀ k, k ≠ h → Stable C (F k)) :
    Spec (C.keyed survey) (fun s => P (s h) ∧ ∀ k, k ≠ h → F k (s k)) (p.atKey h)
      (fun a s => Q a (s h) ∧ ∀ k, k ≠ h → F k (s k)) :=
  fun s inv held => (spec (s h) (inv h) held.1).atKey inv others held.2

theorem spec_survey {q : V.Op} {P : (H → σ) → Prop} {Q : V.Answer q → (H → σ) → Prop}
    (stable : Stable (C.keyed survey) P)
    (kept : ∀ a, Stable (C.keyed survey) (Q a))
    (h : ∀ s, (∀ k, C.inv (s k)) → P s → ∀ i, Q (survey q i s) s) :
    Spec (C.keyed survey) P (Prog.survey q) Q :=
  @spec_ask _ _ _ _ (C.keyed survey) P (Sum.inr q) Q stable kept
    fun s inv held => ⟨trivial, h s inv held⟩

/-- A loop over distinct keys: what is known of an item is used when its turn comes. -/
theorem spec_forEach {key : β → H} {f : β → Prog S γ} {A : β → σ → Prop}
    {B : β → γ → σ → Prop} (body : ∀ b, Spec C (A b) (f b) (B b)) (before : ∀ b, Stable C (A b))
    (after : ∀ b g, Stable C (B b g)) (items : List β) (distinct : (items.map key).Nodup)
    (others : ∀ h, Stable C (F h)) :
    Spec (C.keyed survey)
      (fun s => (∀ b ∈ items, A b (s (key b))) ∧ ∀ h, h ∉ items.map key → F h (s h))
      (Prog.forEach (fun b => (f b).atKey (key b)) items)
      (fun gs s => List.Forall₂ (fun b g => B b g (s (key b))) items gs ∧
        ∀ h, h ∉ items.map key → F h (s h)) := by
  induction items generalizing F with
  | nil =>
    refine spec_pure ?_ fun s _ held => ⟨.nil, held.2⟩
    exact fun s t inv moved held =>
      ⟨.nil, fun h out => others h _ _ (inv h) (moved h) (held.2 h out)⟩
  | cons b rest ih =>
    rw [List.map_cons, List.nodup_cons] at distinct
    -- while `b` is worked on, the frame keeps what the rest of the loop will need
    have first : Spec (C.keyed survey) _ _ _ := (body b).atKey (h := key b)
      (F := fun k c => (∀ d ∈ rest, key d = k → A d c) ∧ (k ∉ (b :: rest).map key → F k c))
      (fun k _ s t inv moved held =>
        ⟨fun d mem same => before d s t inv moved (held.1 d mem same),
          fun out => others k s t inv moved (held.2 out)⟩)
    refine (first.pre ?_).bind fun g => ?_
    · rintro s inv ⟨known, framed⟩
      refine ⟨known b List.mem_cons_self, fun k _ => ⟨?_, framed k⟩⟩
      rintro d mem rfl
      exact known d (List.mem_cons_of_mem b mem)
    · refine ((ih distinct.2 (F := fun k c => (k = key b → B b g c) ∧
        (k ∉ (b :: rest).map key → F k c)) ?_).pre ?_).bind fun gs => spec_pure ?_ ?_
      · exact fun k s t inv moved held =>
          ⟨fun same => after b g s t inv moved (held.1 same),
            fun out => others k s t inv moved (held.2 out)⟩
      · rintro s inv ⟨post, framed⟩
        refine ⟨fun d mem => ?_, fun k out => ⟨?_, fun away => ?_⟩⟩
        · have ne : key d ≠ key b := fun same =>
            distinct.1 (same ▸ List.mem_map_of_mem mem)
          exact (framed (key d) ne).1 d mem rfl
        · rintro rfl
          exact post
        · refine (framed k fun same => away ?_).2 away
          rw [same]
          exact List.mem_cons_self
      · refine Stable.and ?_ (stable_all fun h _ => others h)
        intro s t inv moved held
        exact held.imp fun d g now => after d g _ _ (inv _) (moved _) now
      · rintro s inv ⟨done, framed⟩
        refine ⟨.cons ((framed (key b) distinct.1).1 rfl) done, fun k out => ?_⟩
        refine (framed k fun mem => out ?_).2 out
        exact List.mem_cons_of_mem _ mem

/-- A loop whose items may share a key: every turn moves its key along `kin` only, so
whatever `kin` keeps is still there at the end. -/
theorem spec_forEach_kin {kin : σ → σ → Prop} {key : β → H} {f : β → Prog S γ}
    {A : β → σ → Prop} {B : β → γ → σ → Prop} (refl : ∀ c, kin c c)
    (passes : ∀ c d, C.inv c → C.drift c d → kin c d)
    (body : ∀ b c, A b c → Spec C (kin c) (f b) (fun g d => kin c d ∧ B b g d))
    (lasting : ∀ b g c d, kin c d → B b g c → B b g d) (items : List β)
    (within : ∀ b ∈ items, ∀ c, F (key b) c → A b c)
    (framed : ∀ h c d, kin c d → F h c → F h d) :
    Spec (C.keyed survey) (fun s => ∀ h, F h (s h))
      (Prog.forEach (fun b => (f b).atKey (key b)) items)
      (fun gs s => (∀ h, F h (s h)) ∧ List.Forall₂ (fun b g => B b g (s (key b))) items gs) := by
  induction items generalizing F with
  | nil =>
    refine spec_pure ?_ fun s _ held => ⟨held, .nil⟩
    exact fun s t inv moved held =>
      ⟨fun h => framed h _ _ (passes _ _ (inv h) (moved h)) (held.1 h), .nil⟩
  | cons b rest ih =>
    have turn : Spec (C.keyed survey) (fun s => ∀ h, F h (s h)) ((f b).atKey (key b))
        (fun g s => ∀ h, F h (s h) ∧ (h = key b → B b g (s h))) := by
      intro s inv held
      have known := within b List.mem_cons_self (s (key b)) (held _)
      refine ((body b (s (key b)) known (s (key b)) (inv _) (refl _)).atKey inv (F := F)
        (fun h _ c d invC moved => framed h c d (passes c d invC moved))
        (fun h _ => held h)).mono inv ?_
      rintro g t invT ⟨⟨stayed, post⟩, away⟩ h
      by_cases same : h = key b
      · rw [same]
        exact ⟨framed _ _ _ stayed (held _), fun _ => post⟩
      · exact ⟨away h same, fun eq => absurd eq same⟩
    refine turn.bind fun g => ?_
    refine (ih (F := fun h c => F h c ∧ (h = key b → B b g c))
      (fun d mem c both => within d (List.mem_cons_of_mem b mem) c both.1)
      (fun h c d moved both => ⟨framed h c d moved both.1,
        fun same => lasting b g c d moved (both.2 same)⟩)).bind fun gs => spec_pure ?_ ?_
    · intro s t inv moved held
      refine ⟨fun h => framed h _ _ (passes _ _ (inv h) (moved h)) (held.1 h), ?_⟩
      exact held.2.imp fun d g now => lasting d g _ _ (passes _ _ (inv _) (moved _)) now
    · rintro s inv ⟨kept, done⟩
      exact ⟨fun h => (kept h).1, .cons ((kept (key b)).2 rfl) done⟩

end Keys

section Hosts

/-- The state, and the program that holds the lock with the task it serves. -/
structure Config (S : Signature) (σ K : Type) where
  state : σ
  running : Option (K × Prog S PUnit)

inductive Label (E K I : Type) where
  | env (e : E)
  | start (task : K)
  | advance (input : I)
  | finish
  | crash

/-- One process that runs its tasks one at a time, the other party's moves, and what a crash of
the process does to the state. -/
structure Host (S : Signature) (I σ E K : Type) where
  run : Device S I σ
  env : E → σ → σ
  program : K → Prog S PUnit
  crash : σ → σ

/-- A task that finds the lock taken waits. -/
def Host.step (m : Host S I σ E K) : Label E K I → Config S σ K → Config S σ K
  | .env e, c => { c with state := m.env e c.state }
  | .start task, ⟨s, none⟩ => ⟨s, some (task, m.program task)⟩
  | .start _, c => c
  | .advance i, ⟨s, some (task, .call op next)⟩ =>
      ⟨(m.run op i s).2, some (task, next (m.run op i s).1)⟩
  | .advance _, c => c
  | .finish, ⟨s, some (_, .done _)⟩ => ⟨s, none⟩
  | .finish, c => c
  | .crash, c => ⟨m.crash c.state, none⟩

/-- The operation that the next `advance` runs, and for which task. -/
def Config.next (c : Config S σ K) : Option (K × S.Op) :=
  match c.running with
  | some (task, .call op _) => some (task, op)
  | _ => none

/-- A device that runs the operation of the step alike makes the same step. -/
theorem Host.step_congr (m : Host S I σ E K) {run : Device S I σ} {l : Label E K I}
    {c : Config S σ K} (same : ∀ i task op, l = .advance i → c.next = some (task, op) →
      run op i c.state = m.run op i c.state) :
    m.step l c = { m with run := run }.step l c := by
  obtain ⟨s, running⟩ := c
  cases l with
  | env e => rfl
  | start task => cases running <;> rfl
  | crash => rfl
  | finish =>
    cases running with
    | none => rfl
    | some held =>
      obtain ⟨task, p⟩ := held
      cases p <;> rfl
  | advance i =>
    cases running with
    | none => rfl
    | some held =>
      obtain ⟨task, p⟩ := held
      cases p with
      | done a => rfl
      | call op next =>
        have alike : run op i s = m.run op i s := same i task op rfl rfl
        simp only [Host.step, alike]

/-- Every program is licensed throughout, when it starts where it may. -/
structure Lawful (m : Host S I σ E K) (C : Discipline m.run) (rest : σ → Prop)
    (ready : K → σ → Prop) : Prop where
  stable : Stable C rest
  env : ∀ e s, C.inv s → C.drift s (m.env e s)
  program : ∀ task, Spec C (fun s => rest s ∧ ready task s) (m.program task) (fun _ s => rest s)
  crash : ∀ s, C.inv s → C.inv (m.crash s) ∧ rest (m.crash s)

variable {m : Host S I σ E K} {C : Discipline m.run} {rest : σ → Prop} {ready : K → σ → Prop}

structure Guarded (C : Discipline m.run) (rest : σ → Prop) (c : Config S σ K) : Prop where
  inv : C.inv c.state
  idle : c.running = none → rest c.state
  busy : ∀ task p, c.running = some (task, p) → Meets C p c.state (fun _ s => rest s)

theorem Guarded.licensed {c : Config S σ K} (h : Guarded C rest c) {task : K} {op : S.Op}
    (asked : c.next = some (task, op)) : C.licence op c.state := by
  obtain ⟨s, running⟩ := c
  cases running with
  | none => cases asked
  | some held =>
    obtain ⟨task', p⟩ := held
    cases p with
    | done a => cases asked
    | call op' next =>
      cases asked
      exact (h.busy task _ rfl s (C.refl s)).1

theorem Guarded.step (law : Lawful m C rest ready) {c : Config S σ K} (h : Guarded C rest c)
    (l : Label E K I) (start : ∀ task, l = .start task → c.running = none → ready task c.state) :
    Guarded C rest (m.step l c) := by
  obtain ⟨s, running⟩ := c
  have inv := h.inv
  cases l with
  | env e =>
    have moved := law.env e s inv
    refine ⟨C.drifted inv moved, fun none => law.stable _ _ inv moved (h.idle none), ?_⟩
    exact fun task p held => (h.busy task p held).drift moved
  | start task =>
    cases running with
    | some held => exact h
    | none =>
      refine ⟨inv, nofun, ?_⟩
      rintro task' p ⟨⟩
      exact law.program task s inv ⟨h.idle rfl, start task rfl rfl⟩
  | advance i =>
    cases running with
    | none => exact h
    | some held =>
      obtain ⟨task, p⟩ := held
      cases p with
      | done a => exact h
      | call op next =>
        obtain ⟨licensed, after⟩ := h.busy task _ rfl s (C.refl s)
        refine ⟨C.kept inv licensed, nofun, ?_⟩
        rintro task' p ⟨⟩
        exact after i
  | finish =>
    cases running with
    | none => exact h
    | some held =>
      obtain ⟨task, p⟩ := held
      cases p with
      | call op next => exact h
      | done a =>
        refine ⟨inv, fun _ => h.busy task _ rfl s (C.refl s), ?_⟩
        rintro task' p ⟨⟩
  | crash =>
    obtain ⟨invC, restC⟩ := law.crash s inv
    exact ⟨invC, fun _ => restC, nofun⟩

variable {allowed : Label E K I → Config S σ K → Prop} {c d : Config S σ K}
variable {ls : List (Label E K I)} {J : σ → Prop}

theorem guarded_of_runs (law : Lawful m C rest ready) (run : Runs m.step allowed c ls d)
    (start : ∀ task c, allowed (.start task) c → c.running = none → ready task c.state)
    (h : Guarded C rest c) : Guarded C rest d :=
  run.invariant (I := Guarded C rest)
    (fun l c ok held => held.step law l fun task same => start task c (same ▸ ok)) h

/-- A task asks for its own operations only. -/
theorem next_of_within {φ : K → S.Op → Prop} (within : ∀ task, (m.program task).Within (φ task))
    (run : Runs m.step allowed c ls d) (idle : c.running = none) {task : K} {op : S.Op}
    (asked : d.next = some (task, op)) : φ task op := by
  have kept : ∀ task p, d.running = some (task, p) → p.Within (φ task) := by
    refine run.invariant (I := fun d => ∀ task p, d.running = some (task, p) →
      p.Within (φ task)) ?_ ?_
    · rintro l ⟨s, running⟩ - held
      cases l with
      | env e => exact held
      | crash => exact fun task p no => absurd no.symm (Option.some_ne_none _)
      | start task' =>
        cases running with
        | some _ => exact held
        | none =>
          intro task p now
          cases now
          exact within task'
      | finish =>
        cases running with
        | none => exact held
        | some at_ =>
          obtain ⟨task', p⟩ := at_
          cases p with
          | done a => exact fun task p no => absurd no.symm (Option.some_ne_none _)
          | call o next => exact held
      | advance i =>
        cases running with
        | none => exact held
        | some at_ =>
          obtain ⟨task', p⟩ := at_
          cases p with
          | done a => exact held
          | call o next =>
            intro task p now
            cases now
            exact (held task' _ rfl).2 _
    · intro task p now
      rw [idle] at now
      cases now
  obtain ⟨s, running⟩ := d
  cases running with
  | none => cases asked
  | some at_ =>
    obtain ⟨task', p⟩ := at_
    cases p with
    | done a => cases asked
    | call o next =>
      cases asked
      exact (kept task _ rfl).1

/-- What the other party, a crash and every licensed operation keep holds along every run. -/
theorem Guarded.keeps (guarded : Guarded C rest c)
    (l : Label E K I) (held : J c.state)
    (env : ∀ e, l = .env e → J (m.env e c.state)) (crash : l = .crash → J (m.crash c.state))
    (op : ∀ task op i, l = .advance i → c.next = some (task, op) → C.licence op c.state →
      J (m.run op i c.state).2) : J (m.step l c).state := by
  obtain ⟨s, running⟩ := c
  cases l with
  | env e => exact env e rfl
  | crash => exact crash rfl
  | start task => cases running <;> exact held
  | finish =>
    cases running with
    | none => exact held
    | some at_ =>
      obtain ⟨task, p⟩ := at_
      cases p <;> exact held
  | advance i =>
    cases running with
    | none => exact held
    | some at_ =>
      obtain ⟨task, p⟩ := at_
      cases p with
      | done a => exact held
      | call o next => exact op task o i rfl rfl (guarded.licensed rfl)

end Hosts

end Casa.OperationTree
