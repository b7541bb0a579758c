import Pricestream.Python.Decimal

/-!
# Decoded JSON

What `json.loads` returns, and the two things the consumer does with it besides comparing: asking
whether a value is true, and handing it to the `Decimal` constructor. The decoder accepts `NaN` and
the infinities as numbers. An object keeps its bindings in document order, and a repeated key counts
with its last value.

The constructor takes more than text. An integer or a boolean is taken exactly, and so is a float; a
list is read as a sign, a list of digits and an exponent. Everything else is a `TypeError`.
-/

namespace Pricestream.Python

inductive Float where
  | finite (value : ℚ)
  | infinity (negative : Bool)
  | nan
  deriving DecidableEq

inductive Json where
  | null
  | bool (b : Bool)
  | int (n : ℤ)
  | float (x : Float)
  | str (s : Str)
  | arr (elems : List Json)
  | obj (fields : List (Str × Json))

namespace Json

def truthy : Json → Bool
  | .null => false
  | .bool b => b
  | .int n => n != 0
  | .float (.finite x) => decide (x ≠ 0)
  | .float _ => true
  | .str s => !s.isEmpty
  | .arr elems => !elems.isEmpty
  | .obj fields => !fields.isEmpty

/-- `d.get(name)` on the bindings of an object: the last binding counts, and none gives `None`. -/
def get (fields : List (Str × Json)) (name : Str) : Json := (fields.reverse.lookup name).getD .null

/-- `d[name]`. -/
def getItem (fields : List (Str × Json)) (name : Str) : Except Exc Json :=
  orRaise .keyError (fields.reverse.lookup name)

/-- A value where Python wants an `int`; a boolean is one. -/
def int? : Json → Option ℤ
  | .bool b => some (if b then 1 else 0)
  | .int n => some n
  | _ => none

def digits? (elems : List Json) : Option (List ℕ) :=
  elems.mapM fun elem => do
    let d ← elem.int?
    if 0 ≤ d ∧ d ≤ 9 then some d.toNat else none

end Json

/-- `Decimal([sign, digits, exponent])`. -/
def Decimal.ofList (sign digits exponent : Json) : Option Decimal := do
  let sign ← sign.int?
  if sign ≠ 0 ∧ sign ≠ 1 then none
  else
    match digits with
    | .arr elems =>
        let digits ← Json.digits? elems
        match exponent with
        | .str e =>
            if e = Str.ofString "F" then some (.infinity (sign = 1))
            else if e = Str.ofString "n" then some (.nan false)
            else if e = Str.ofString "N" then some (.nan true)
            else none
        | exponent => do
            let e ← exponent.int?
            Decimal.ofTriple (sign = 1) (Str.ofDigits digits) e
    | _ => none

/-- `Decimal(value)` on a decoded value. -/
def Decimal.ofJson : Json → Except Exc Decimal
  | .str s => orRaise .invalidOperation (Decimal.ofStr s)
  | .int n => pure (.finite n)
  | .bool b => pure (.finite (if b then 1 else 0))
  | .float (.finite x) => pure (.finite x)
  | .float (.infinity negative) => pure (.infinity negative)
  | .float .nan => pure (.nan false)
  | .arr [sign, digits, exponent] => orRaise .valueError (Decimal.ofList sign digits exponent)
  | .arr _ => throw .valueError
  | .null | .obj _ => throw .typeError

end Pricestream.Python
