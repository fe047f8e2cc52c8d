import Casa.OperationTree

/-! Programs whose operations may raise, run by one process with no other party: between two
operations nothing moves, but the process may die there. `Triple` is the proof rule; its two
postconditions are about the value returned and the exception raised, and the licence of each
operation says what holds whenever the process can die before it. -/

namespace Casa.FallibleTree
open OperationTree

variable {S : Signature} {I σ α β ε : Type}

/-- Operations that answer or raise. -/
def fallible (Op ε : Type) (Answer : Op → Type) : Signature where
  Op := Op
  Answer op := Except ε (Answer op)

def Script (S : Signature) (ε α : Type) := Prog S (Except ε α)

namespace Script

def raise (e : ε) : Script S ε α := Prog.done (.error e)

def bind (p : Script S ε α) (k : α → Script S ε β) : Script S ε β :=
  Prog.bind p fun
    | .ok a => k a
    | .error e => Prog.done (.error e)

instance : Monad (Script S ε) where
  pure a := Prog.done (.ok a)
  bind := bind

def rescue (p : Script S ε α) (handler : ε → Script S ε α) : Script S ε α :=
  Prog.bind p fun
    | .ok a => Prog.done (.ok a)
    | .error e => handler e

def lift : Except ε α → Script S ε α := Prog.done

def ask {Op : Type} {Answer : Op → Type} (op : Op) : Script (fallible Op ε Answer) ε (Answer op) :=
  Prog.call (S := fallible Op ε Answer) op Prog.done

def forEach (body : β → Script S ε PUnit) : List β → Script S ε PUnit
  | [] => pure ⟨⟩
  | b :: rest => do
      body b
      forEach body rest

section Within
variable {φ : S.Op → Prop}

/-- Whatever the answers are, only these operations are asked for. -/
def Within (φ : S.Op → Prop) (p : Script S ε α) : Prop := Prog.Within φ p

theorem within_raise (e : ε) : Within φ (raise e : Script S ε α) := trivial

theorem within_pure (a : α) : Within φ (pure a : Script S ε α) := trivial

theorem within_lift (x : Except ε α) : Within φ (lift x : Script S ε α) := trivial

theorem within_bind {p : Script S ε α} {k : α → Script S ε β} (h : Within φ p)
    (next : ∀ a, Within φ (k a)) : Within φ (p >>= k) := by
  change Prog.Within φ (Prog.bind p _)
  refine Prog.Within.bind h fun r => ?_
  cases r with
  | ok a => exact next a
  | error e => trivial

theorem within_rescue {p : Script S ε α} {handler : ε → Script S ε α} (h : Within φ p)
    (next : ∀ e, Within φ (handler e)) : Within φ (p.rescue handler) := by
  change Prog.Within φ (Prog.bind p _)
  refine Prog.Within.bind h fun r => ?_
  cases r with
  | ok a => trivial
  | error e => exact next e

theorem within_ite {c : Prop} [Decidable c] {p q : Script S ε α} (yes : Within φ p)
    (no : Within φ q) : Within φ (if c then p else q) := by
  by_cases h : c
  · rw [if_pos h]
    exact yes
  · rw [if_neg h]
    exact no

theorem within_forEach {body : β → Script S ε PUnit} (items : List β)
    (h : ∀ b, Within φ (body b)) : Within φ (forEach body items) := by
  induction items with
  | nil => exact within_pure (S := S) _
  | cons b rest ih => exact within_bind (h b) fun _ => ih

end Within

end Script

theorem within_ask {Op : Type} {Answer : Op → Type} {φ : Op → Prop} {op : Op} (h : φ op) :
    Script.Within φ (Script.ask op : Script (fallible Op ε Answer) ε (Answer op)) :=
  ⟨h, fun _ => trivial⟩

/-- What holds at the end, however the program ends. -/
def Ends (Q : α → σ → Prop) (E : ε → σ → Prop) : Except ε α → σ → Prop
  | .ok a => Q a
  | .error e => E e

/-- Nothing but the program moves the state. -/
def sequential {run : Device S I σ} (inv : σ → Prop) (licence : S.Op → σ → Prop)
    (kept : ∀ {op i s}, inv s → licence op s → inv (run op i s).2) : Discipline run where
  inv := inv
  drift := Eq
  licence := licence
  refl := fun _ => rfl
  trans := fun first second => first.trans second
  drifted := fun h same => same ▸ h
  kept := kept

section Rules
variable {run : Device S I σ} {inv : σ → Prop} {licence : S.Op → σ → Prop}
variable {kept : ∀ {op i s}, inv s → licence op s → inv (run op i s).2}

variable (run inv licence kept) in
def Triple (P : σ → Prop) (p : Script S ε α) (Q : α → σ → Prop) (E : ε → σ → Prop) : Prop :=
  Spec (@sequential S I σ run inv licence kept) P p (Ends Q E)

variable {P P' : σ → Prop} {Q Q' : α → σ → Prop} {R : β → σ → Prop} {E E' : ε → σ → Prop}

theorem stable_sequential (P : σ → Prop) :
    Stable (@sequential S I σ run inv licence kept) P := by
  rintro s t _ rfl held
  exact held

theorem triple_pure {a : α} (h : ∀ s, inv s → P s → Q a s) :
    Triple run inv licence kept P (pure a : Script S ε α) Q E :=
  spec_pure (stable_sequential _) h

theorem triple_raise {e : ε} (h : ∀ s, inv s → P s → E e s) :
    Triple run inv licence kept P (Script.raise e : Script S ε α) Q E :=
  spec_pure (stable_sequential _) h

theorem triple_lift {x : Except ε α} (h : ∀ s, inv s → P s → Ends Q E x s) :
    Triple run inv licence kept P (Script.lift x : Script S ε α) Q E :=
  spec_pure (stable_sequential _) h

theorem Triple.bind {p : Script S ε α} {k : α → Script S ε β}
    (h : Triple run inv licence kept P p Q E)
    (next : ∀ a, Triple run inv licence kept (Q a) (k a) R E) :
    Triple run inv licence kept P (p >>= k) R E := by
  refine Spec.bind (Q := Ends Q E) h fun r => ?_
  cases r with
  | ok a => exact next a
  | error e => exact spec_pure (stable_sequential _) fun _ _ held => held

theorem Triple.rescue {p : Script S ε α} {handler : ε → Script S ε α}
    (h : Triple run inv licence kept P p Q E)
    (next : ∀ e, Triple run inv licence kept (E e) (handler e) Q E') :
    Triple run inv licence kept P (p.rescue handler) Q E' := by
  refine Spec.bind (Q := Ends Q E) h fun r => ?_
  cases r with
  | ok a => exact spec_pure (stable_sequential _) fun _ _ held => held
  | error e => exact next e

theorem Triple.pre {p : Script S ε α} (h : Triple run inv licence kept P p Q E)
    (stronger : ∀ s, inv s → P' s → P s) : Triple run inv licence kept P' p Q E :=
  Spec.pre h stronger

theorem Triple.post {p : Script S ε α} (h : Triple run inv licence kept P p Q E)
    (value : ∀ a s, inv s → Q a s → Q' a s) (error : ∀ e s, inv s → E e s → E' e s) :
    Triple run inv licence kept P p Q' E' := by
  refine Spec.post h fun r s invS held => ?_
  cases r with
  | ok a => exact value a s invS held
  | error e => exact error e s invS held

theorem triple_of {φ : Prop} {p : Script S ε α} (h : φ → Triple run inv licence kept P p Q E) :
    Triple run inv licence kept (fun s => φ ∧ P s) p Q E :=
  fun s invS held => h held.1 s invS held.2

theorem triple_or {p : Script S ε α} (h : Triple run inv licence kept P p Q E)
    (h' : Triple run inv licence kept P' p Q E) :
    Triple run inv licence kept (fun s => P s ∨ P' s) p Q E :=
  spec_or h h'

/-- What none of its operations falsifies stands beside what a program does. -/
theorem Triple.frame {p : Script S ε α} {φ : S.Op → Prop} {R : σ → Prop}
    (h : Triple run inv licence kept P p Q E) (within : p.Within φ)
    (keeps : ∀ op i s, φ op → inv s → licence op s → R s → R (run op i s).2) :
    Triple run inv licence kept (fun s => P s ∧ R s) p (fun a s => Q a s ∧ R s)
      (fun e s => E e s ∧ R s) := by
  have frame : ∀ (p : Prog S (Except ε α)), p.Within φ → ∀ s, inv s → R s →
      Meets (@sequential S I σ run inv licence kept) p s (Ends Q E) →
      Meets (@sequential S I σ run inv licence kept) p s
        (Ends (fun a s => Q a s ∧ R s) fun e s => E e s ∧ R s) := by
    intro p
    induction p with
    | done r =>
      rintro - s invS held meets t rfl
      cases r with
      | ok a => exact ⟨meets s rfl, held⟩
      | error e => exact ⟨meets s rfl, held⟩
    | call op next ih =>
      rintro ⟨here, rest⟩ s invS held meets t rfl
      obtain ⟨licensed, after⟩ := meets s rfl
      refine ⟨licensed, fun i => ?_⟩
      exact ih _ (rest _) _ (kept invS licensed) (keeps op i s here invS licensed held) (after i)
  exact fun s invS held => frame p within s invS held.2 (h s invS held.1)

/-- A program of operations that are always allowed keeps what each of them keeps. -/
theorem triple_within {p : Script S ε α} {φ : S.Op → Prop} (within : p.Within φ)
    (may : ∀ op s, φ op → inv s → P s → licence op s)
    (keeps : ∀ op i s, φ op → inv s → P s → P (run op i s).2) :
    Triple run inv licence kept P p (fun _ => P) (fun _ => P) := by
  have all : ∀ (p : Prog S (Except ε α)), p.Within φ → ∀ s, inv s → P s →
      Meets (@sequential S I σ run inv licence kept) p s (Ends (fun _ => P) fun _ => P) := by
    intro p
    induction p with
    | done r =>
      rintro - s invS held t rfl
      cases r with
      | ok a => exact held
      | error e => exact held
    | call op next ih =>
      rintro ⟨here, rest⟩ s invS held t rfl
      have licensed := may op s here invS held
      exact ⟨licensed, fun i => ih _ (rest _) _ (kept invS licensed) (keeps op i s here invS held)⟩
  exact fun s invS held => all p within s invS held

/-- A loop that has its say about one item at a time, and keeps what it has said. -/
theorem triple_forEach_done {body : β → Script S ε PUnit} (said : β → σ → Prop) (items : List β)
    (h : ∀ b ∈ items, ∀ done : List β, done ⊆ items →
      Triple run inv licence kept (fun s => P s ∧ ∀ d ∈ done, said d s) (body b)
        (fun _ s => P s ∧ ∀ d ∈ b :: done, said d s) E) :
    Triple run inv licence kept P (Script.forEach body items)
      (fun _ s => P s ∧ ∀ b ∈ items, said b s) E := by
  have loop : ∀ rest done : List β, rest ⊆ items → done ⊆ items →
      Triple run inv licence kept (fun s => P s ∧ ∀ d ∈ done, said d s) (Script.forEach body rest)
        (fun _ s => P s ∧ ∀ d, d ∈ rest ∨ d ∈ done → said d s) E := by
    intro rest
    induction rest with
    | nil =>
      intro done _ _
      refine triple_pure fun s _ held => ⟨held.1, fun d mem => held.2 d (mem.resolve_left ?_)⟩
      exact List.not_mem_nil
    | cons b rest ih =>
      intro done subRest subDone
      obtain ⟨mem, sub⟩ := List.cons_subset.mp subRest
      refine (h b mem done subDone).bind fun _ => ?_
      refine (ih (b :: done) sub (List.cons_subset.mpr ⟨mem, subDone⟩)).post ?_ fun _ _ _ => id
      rintro - s - ⟨held, all⟩
      refine ⟨held, fun d here => all d ?_⟩
      simp only [List.mem_cons] at here ⊢
      tauto
  refine ((loop items [] (List.Subset.refl _) (List.nil_subset _)).pre ?_).post ?_ fun _ _ _ => id
  · exact fun s _ held => ⟨held, fun d none => absurd none List.not_mem_nil⟩
  · exact fun _ s _ held => ⟨held.1, fun b mem => held.2 b (.inl mem)⟩

/-- A loop whose body keeps `P` keeps `P`. -/
theorem triple_forEach {body : β → Script S ε PUnit} (items : List β)
    (h : ∀ b ∈ items, Triple run inv licence kept P (body b) (fun _ => P) E) :
    Triple run inv licence kept P (Script.forEach body items) (fun _ => P) E := by
  induction items with
  | nil => exact triple_pure fun _ _ held => held
  | cons b rest ih =>
    refine (h b List.mem_cons_self).bind fun _ => ?_
    exact ih fun d mem => h d (List.mem_cons_of_mem b mem)

end Rules

section Operations
variable {Op : Type} {Answer : Op → Type} {run : Device (fallible Op ε Answer) I σ}
variable {inv : σ → Prop} {licence : Op → σ → Prop}
variable {kept : ∀ {op : Op} {i s}, inv s → licence op s → inv (run op i s).2}

theorem triple_ask {P : σ → Prop} {op : Op} {Q : Answer op → σ → Prop} {E : ε → σ → Prop}
    (h : ∀ s, inv s → P s → licence op s ∧ ∀ i, Ends Q E (run op i s).1 (run op i s).2) :
    Triple run inv licence kept P (Script.ask op) Q E :=
  spec_ask (S := fallible Op ε Answer) (stable_sequential _) (fun _ => stable_sequential _) h

end Operations

section Exec
variable (run : Device S I σ) (plan : ℕ → I)

/-- The run of a program whose operations are given the inputs of a plan in turn: the result,
the number of the next operation and the state. -/
def Script.exec : Script S ε α → ℕ → σ → Except ε α × ℕ × σ
  | .done r, n, s => (r, n, s)
  | .call op next, n, s => exec (next (run op (plan n) s).1) (n + 1) (run op (plan n) s).2

variable {run plan} {n : ℕ} {s : σ}

@[simp]
theorem exec_lift (x : Except ε α) : (Script.lift x : Script S ε α).exec run plan n s = (x, n, s) :=
  rfl

theorem exec_prog_bind (p : Script S ε α) (k : Except ε α → Script S ε β) :
    Script.exec run plan (Prog.bind p k) n s =
      (k (p.exec run plan n s).1).exec run plan (p.exec run plan n s).2.1
        (p.exec run plan n s).2.2 := by
  induction p generalizing n s with
  | done r => rfl
  | call op next ih => exact ih _

theorem exec_bind_ok {p : Script S ε α} {k : α → Script S ε β} {a : α} {m : ℕ} {t : σ}
    (h : p.exec run plan n s = (.ok a, m, t)) :
    (p >>= k).exec run plan n s = (k a).exec run plan m t := by
  refine (exec_prog_bind p _).trans ?_
  rw [h]

theorem exec_bind_error {p : Script S ε α} {k : α → Script S ε β} {e : ε} {m : ℕ} {t : σ}
    (h : p.exec run plan n s = (.error e, m, t)) :
    (p >>= k).exec run plan n s = (.error e, m, t) := by
  refine (exec_prog_bind p _).trans ?_
  rw [h]
  rfl

theorem exec_rescue_ok {p : Script S ε α} {handler : ε → Script S ε α} {a : α} {m : ℕ} {t : σ}
    (h : p.exec run plan n s = (.ok a, m, t)) :
    (p.rescue handler).exec run plan n s = (.ok a, m, t) := by
  refine (exec_prog_bind p _).trans ?_
  rw [h]
  rfl

theorem exec_rescue_error {p : Script S ε α} {handler : ε → Script S ε α} {e : ε} {m : ℕ} {t : σ}
    (h : p.exec run plan n s = (.error e, m, t)) :
    (p.rescue handler).exec run plan n s = (handler e).exec run plan m t := by
  refine (exec_prog_bind p _).trans ?_
  rw [h]

end Exec

theorem exec_ask {Op : Type} {Answer : Op → Type} {run : Device (fallible Op ε Answer) I σ}
    {plan : ℕ → I} {n : ℕ} {s : σ} (op : Op) :
    Script.exec run plan (Script.ask op) n s =
      ((run op (plan n) s).1, n + 1, (run op (plan n) s).2) := rfl

end Casa.FallibleTree
