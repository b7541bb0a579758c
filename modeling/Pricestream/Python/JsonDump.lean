import Pricestream.Python.JsonText

/-!
# Values that JSON can hold

What `json.dumps` writes for the values that are put together from `None`, booleans, integers, texts,
lists and dictionaries with texts for keys. An object of texts is the case `Json.dumps` treats. Floats
are left out; an integer has as many digits as the interpreter is willing to convert.
-/

namespace Pricestream.Python

inductive Plain where
  | null
  | bool (b : Bool)
  | int (n : ℤ) (short : (Str.digitsOf n.natAbs).length ≤ 4300)
  | str (s : Str)
  | list (elems : List Plain)
  | dict (fields : List (Str × Plain))

namespace Plain

/-- `str(n)`. -/
def strInt (n : ℤ) : Str := (if n < 0 then [0x2d] else []) ++ Str.numeral (Str.digitsOf n.natAbs)

mutual

/-- `json.dumps(value)`. -/
def dumps : Plain → Str
  | .null => Str.ofString "null"
  | .bool true => Str.ofString "true"
  | .bool false => Str.ofString "false"
  | .int n _ => strInt n
  | .str s => Json.quoted s
  | .list [] => [0x5b, 0x5d]
  | .list (elem :: rest) => 0x5b :: (elem.dumps ++ dumpsElems rest)
  | .dict [] => [0x7b, 0x7d]
  | .dict ((name, value) :: rest) =>
      0x7b :: (Json.quoted name ++ [0x3a, 0x20] ++ value.dumps ++ dumpsFields rest)

/-- The elements behind the first one, and the end of the list. -/
def dumpsElems : List Plain → Str
  | [] => [0x5d]
  | elem :: rest => [0x2c, 0x20] ++ elem.dumps ++ dumpsElems rest

/-- The members behind the first one, and the end of the dictionary. -/
def dumpsFields : List (Str × Plain) → Str
  | [] => [0x7d]
  | (name, value) :: rest =>
      [0x2c, 0x20] ++ Json.quoted name ++ [0x3a, 0x20] ++ value.dumps ++ dumpsFields rest

end

/-- A dictionary of texts. -/
def texts (fields : List (Str × Str)) : Plain := .dict (fields.map fun field => (field.1, .str field.2))

/-- A property of all values, by the values they are put together from. -/
@[elab_as_elim]
theorem induct {P : Plain → Prop} (null : P .null) (bool : ∀ b, P (.bool b))
    (int : ∀ n short, P (.int n short)) (str : ∀ s, P (.str s))
    (list : ∀ elems, (∀ elem ∈ elems, P elem) → P (.list elems))
    (dict : ∀ fields, (∀ field ∈ fields, P field.2) → P (.dict fields)) (v : Plain) : P v :=
  match v with
  | .null => null
  | .bool b => bool b
  | .int n short => int n short
  | .str s => str s
  | .list elems => list elems fun elem _ => induct null bool int str list dict elem
  | .dict fields => dict fields fun field _ => induct null bool int str list dict field.2
termination_by sizeOf v
decreasing_by
  · rename_i h
    have hlt := List.sizeOf_lt_of_mem h
    simp only [Plain.list.sizeOf_spec]
    omega
  · rename_i h
    have hlt := List.sizeOf_lt_of_mem h
    obtain ⟨name, value⟩ := field
    simp only [Prod.mk.sizeOf_spec, Plain.dict.sizeOf_spec] at hlt ⊢
    omega

end Plain

end Pricestream.Python
