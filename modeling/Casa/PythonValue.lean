import Mathlib.Order.Defs.LinearOrder

/-! The Python values the runtime reads and writes: text as `str` sees it and the
JSON documents of its snapshots. Floats stay an arbitrary linear order `T`, with
no law for addition, so every rounding of the clock arithmetic is covered. -/

namespace Casa.PythonValue

/-- `str.isspace` for one character. -/
def isSpace (c : Char) : Bool :=
  let n := c.toNat
  (0x09 ≤ n && n ≤ 0x0D) || (0x1C ≤ n && n ≤ 0x20) || n == 0x85 || n == 0xA0 || n == 0x1680 ||
    (0x2000 ≤ n && n ≤ 0x200A) || n == 0x2028 || n == 0x2029 || n == 0x202F || n == 0x205F ||
    n == 0x3000

def strip (s : String) : String :=
  String.ofList ((s.toList.dropWhile isSpace).reverse.dropWhile isSpace).reverse

/-- Truth value of a `str | None`. -/
def truthy : Option String → Bool
  | some s => s ≠ ""
  | none => false

/-- A decoded JSON document. Integers and floats are different Python types. -/
inductive Json (T : Type) where
  | null
  | bool (b : Bool)
  | int (n : Int)
  | float (x : T)
  | str (s : String)
  | arr (items : List (Json T))
  | obj (fields : List (String × Json T))

namespace Json

/-- `row[key]` of an object, absent when the key is missing. -/
def field? {T : Type} (fields : List (String × Json T)) (key : String) : Option (Json T) :=
  (fields.find? (fun f => f.1 = key)).map Prod.snd

@[simp] theorem field?_nil {T : Type} (key : String) :
    field? ([] : List (String × Json T)) key = none := rfl

@[simp] theorem field?_cons {T : Type} (name key : String) (x : Json T)
    (rest : List (String × Json T)) :
    field? ((name, x) :: rest) key = if name = key then some x else field? rest key := by
  by_cases same : name = key <;> simp [field?, same]

/-- `row.get(key)`: a missing key reads as `None`. -/
def get {T : Type} (fields : List (String × Json T)) (key : String) : Json T :=
  (field? fields key).getD .null

def ofOption {T α : Type} (f : α → Json T) : Option α → Json T
  | some a => f a
  | none => .null

end Json

/-- Interpreter built-ins applied to decoded JSON and to text. The laws are the
documented identities of `str`, `float` and `int` on values already of the type;
Unicode normalisation and the digit category are used only as functions. -/
structure Builtins (T : Type) where
  str : Json T → String
  float : Json T → Except String T
  int : Json T → Except String Int
  nfc : String → String
  isDigit : Char → Bool
  str_str : ∀ s, str (.str s) = s
  float_float : ∀ x, float (.float x) = .ok x
  int_int : ∀ n, int (.int n) = .ok n

/-- `bool(value)`. -/
def Json.toBool {T : Type} [DecidableEq T] [IntCast T] : Json T → Bool
  | .null => false
  | .bool b => b
  | .int n => n ≠ 0
  | .float x => x ≠ ((0 : Int) : T)
  | .str s => s ≠ ""
  | .arr items => !items.isEmpty
  | .obj fields => !fields.isEmpty

end Casa.PythonValue
