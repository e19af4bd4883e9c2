import Persona.Lib.PyText
import Mathlib.Data.Rat.Floor

/-!
# JSON values

The values `json.loads` returns and the code handles without looking at their type:
`None`, booleans, integers, floats, texts, lists and dictionaries. A finite float is
the rational number it stands for.

What the code takes from Python's library on such values is a `Python`: any
functions of the right types, so that whatever is proved holds of Python's own.
-/

namespace Persona

/-- A float: a finite one, or an infinity or NaN. -/
inductive PyFloat where
  /-- A finite float. -/
  | fin (q : ℚ)
  /-- `inf`, `-inf` or `nan`. -/
  | nonfinite

/-- A JSON value. -/
inductive Json where
  /-- `None`. -/
  | null
  /-- `True` or `False`. -/
  | bool (b : Bool)
  /-- An integer. -/
  | int (n : ℤ)
  /-- A float. -/
  | float (x : PyFloat)
  /-- A text. -/
  | str (s : String)
  /-- A list. -/
  | arr (xs : List Json)
  /-- A dictionary, its items in order. -/
  | obj (kvs : List (String × Json))

namespace Json

/-- What `if v:` tests. -/
def truthy : Json → Bool
  | .null => false
  | .bool b => b
  | .int n => n ≠ 0
  | .float (.fin q) => q ≠ 0
  | .float .nonfinite => true
  | .str s => s ≠ ""
  | .arr xs => !xs.isEmpty
  | .obj kvs => !kvs.isEmpty

/-- `v is None`. -/
def isNull : Json → Bool
  | .null => true
  | _ => false

/-- `a or b`. -/
def or (a b : Json) : Json := if a.truthy then a else b

@[simp] theorem truthy_null : truthy .null = false := rfl

/-- `d.get(k)` of a JSON object: `None` when the key is missing. -/
def get (kvs : List (String × Json)) (k : String) : Json := (kvs.lookup k).getD .null

end Json

/-- Python's library, as far as the code calls it on JSON values. -/
structure Python where
  /-- `json.loads`; `none` is a `ValueError`. -/
  loads : String → Option Json
  /-- `str(v)` of a value that is no text. -/
  str : Json → String
  /-- `int(s)` of a text; `none` is a `ValueError`. -/
  int : String → Option ℤ

namespace Python

variable (P : Python)

/-- `str(v)`. -/
def toStr : Json → String
  | .str s => s
  | v => P.str v

@[simp] theorem toStr_str (s : String) : P.toStr (.str s) = s := rfl

/-- `int(v)`; `none` when it raises. -/
def toInt : Json → Option ℤ
  | .bool b => some b.toInt
  | .int n => some n
  | .float (.fin q) => some (if 0 ≤ q then ⌊q⌋ else ⌈q⌉)
  | .str s => P.int s
  | _ => none

/-- A library that reads just the given texts. -/
def ofTable (texts : List (String × Json)) : Python := ⟨fun s => texts.lookup s, fun _ => "", fun _ => none⟩

end Python

end Persona
