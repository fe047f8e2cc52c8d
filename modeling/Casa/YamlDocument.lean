import Casa.PythonDict

/-! YAML documents as the configuration writers see them: a mapping whose fields are lists of
items or something else, items that are mappings or something else, and the round trip through
text. What lies deeper, and every scalar that is no text, stays a parameter with Python's `==`. -/

namespace Casa.YamlDocument
open PythonDict

/-- A key of a mapping; keys that Python takes for equal are one. -/
inductive Key (S : Type) where
  | str (s : String)
  | other (s : S)
  deriving DecidableEq

inductive Value (W : Type) where
  | str (s : String)
  | other (w : W)
  deriving DecidableEq

abbrev Entry (S W : Type) := Dict (Key S) (Value W)

inductive Item (S W : Type) where
  | dict (entry : Entry S W)
  | other (v : Value W)
  deriving DecidableEq

inductive Field (S W : Type) where
  | list (items : List (Item S W))
  | other (item : Item S W)
  deriving DecidableEq

abbrev Document (S W : Type) := Dict (Key S) (Field S W)

/-- What `safe_load` makes of a text that it does not raise on. -/
inductive Loaded (S W : Type) where
  | mapping (doc : Document S W)
  | other (w : W)
  deriving DecidableEq

/-- `safe_load` and `safe_dump`, either of which may raise. -/
structure Yaml (S W : Type) where
  load : String → Option (Loaded S W)
  dump : Document S W → Option String
  load_dump : ∀ doc text, dump doc = some text → load text = some (.mapping doc)

section Equality
variable {S W : Type} [DecidableEq S] [BEq W]

instance : BEq (Value W) where
  beq
    | .str s, .str t => s = t
    | .other v, .other w => v == w
    | _, _ => false

instance : BEq (Item S W) where
  beq
    | .dict d, .dict e => d == e
    | .other v, .other w => v == w
    | _, _ => false

instance : BEq (Field S W) where
  beq
    | .list xs, .list ys => xs == ys
    | .other v, .other w => v == w
    | _, _ => false

instance : BEq (Loaded S W) where
  beq
    | .mapping d, .mapping e => d == e
    | .other v, .other w => v == w
    | _, _ => false

variable [EquivBEq W]

theorem mixed {p : Prop} (h : false = true) : p := absurd h Bool.false_ne_true

instance : EquivBEq (Value W) where
  rfl {v} := by
    cases v with
    | str s => exact decide_eq_true rfl
    | other w => exact BEq.refl w
  symm {v w} := by
    cases v <;> cases w
    case str.str => simp only [BEq.beq, eq_comm, imp_self]
    case other.other => exact BEq.symm (α := W)
    all_goals exact mixed
  trans {u v w} := by
    cases u <;> cases v <;> cases w
    case str.str.str =>
      simp only [BEq.beq, decide_eq_true_eq]
      exact Eq.trans
    case other.other.other => exact BEq.trans (α := W)
    all_goals first | exact mixed | exact fun _ => mixed

instance : EquivBEq (Item S W) where
  rfl {v} := by
    cases v with
    | dict d => exact BEq.refl d
    | other w => exact BEq.refl w
  symm {v w} := by
    cases v <;> cases w
    case dict.dict => exact BEq.symm (α := Entry S W)
    case other.other => exact BEq.symm (α := Value W)
    all_goals exact mixed
  trans {u v w} := by
    cases u <;> cases v <;> cases w
    case dict.dict.dict => exact BEq.trans (α := Entry S W)
    case other.other.other => exact BEq.trans (α := Value W)
    all_goals first | exact mixed | exact fun _ => mixed

instance : EquivBEq (Field S W) where
  rfl {v} := by
    cases v with
    | list xs => exact BEq.refl xs
    | other w => exact BEq.refl w
  symm {v w} := by
    cases v <;> cases w
    case list.list => exact BEq.symm (α := List (Item S W))
    case other.other => exact BEq.symm (α := Item S W)
    all_goals exact mixed
  trans {u v w} := by
    cases u <;> cases v <;> cases w
    case list.list.list => exact BEq.trans (α := List (Item S W))
    case other.other.other => exact BEq.trans (α := Item S W)
    all_goals first | exact mixed | exact fun _ => mixed

end Equality

end Casa.YamlDocument
