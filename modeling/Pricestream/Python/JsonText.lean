import Pricestream.Python.Json
import Pricestream.Python.Numeral
import Pricestream.Python.Utf8

/-!
# JSON as text

What a producer and a consumer of JSON messages do to a value on its way through a topic, but for its
encoding: `json.dumps` of an object of texts, and `json.loads`.

`dumps` escapes whatever is not printable ASCII, and a character beyond the basic plane as two
surrogates. `loads` joins an escaped high surrogate and an escaped low one behind it to one character.
It leaves the value of a number with a fraction or an exponent to `parse_float`. The interpreter's
limit on the depth of recursion is left out.
-/

namespace Pricestream.Python

namespace Json

/-! ### `json.dumps` -/

def hexDigit (d : ℕ) : ℕ := if d < 10 then 0x30 + d else 0x57 + d

/-- `\uXXXX`. -/
def unicodeEscape (u : ℕ) : Str :=
  [0x5c, 0x75, hexDigit (u / 0x1000), hexDigit (u / 0x100 % 0x10), hexDigit (u / 0x10 % 0x10),
    hexDigit (u % 0x10)]

def escapeChar (c : ℕ) : Str :=
  if c = 0x22 then [0x5c, 0x22]
  else if c = 0x5c then [0x5c, 0x5c]
  else if c = 0x0a then [0x5c, 0x6e]
  else if c = 0x0d then [0x5c, 0x72]
  else if c = 0x09 then [0x5c, 0x74]
  else if c = 0x0c then [0x5c, 0x66]
  else if c = 0x08 then [0x5c, 0x62]
  else if 0x20 ≤ c ∧ c ≤ 0x7e then [c]
  else if c < 0x10000 then unicodeEscape c
  else
    unicodeEscape (0xd800 + (c - 0x10000) / 0x400 % 0x400) ++
      unicodeEscape (0xdc00 + (c - 0x10000) % 0x400)

def quoted (s : Str) : Str := 0x22 :: (s.flatMap escapeChar ++ [0x22])

def member (field : Str × Str) : Str := quoted field.1 ++ [0x3a, 0x20] ++ quoted field.2

/-- The members of an object from the first one on, and its end. -/
def members (field : Str × Str) : List (Str × Str) → Str
  | [] => member field ++ [0x7d]
  | next :: rest => member field ++ [0x2c, 0x20] ++ members next rest

/-- `json.dumps` of an object of texts. -/
def dumps : List (Str × Str) → Str
  | [] => [0x7b, 0x7d]
  | field :: rest => 0x7b :: members field rest

/-! ### Texts -/

def hexValue? (c : ℕ) : Option ℕ :=
  if 0x30 ≤ c ∧ c ≤ 0x39 then some (c - 0x30)
  else if 0x41 ≤ c ∧ c ≤ 0x46 then some (c - 0x37)
  else if 0x61 ≤ c ∧ c ≤ 0x66 then some (c - 0x57)
  else none

def hexUnit? (a b c d : ℕ) : Option ℕ := do
  let a ← hexValue? a
  let b ← hexValue? b
  let c ← hexValue? c
  let d ← hexValue? d
  some (a * 0x1000 + b * 0x100 + c * 0x10 + d)

/-- The character behind a backslash, other than `u`. -/
def escaped? (c : ℕ) : Option ℕ :=
  if c = 0x22 ∨ c = 0x5c ∨ c = 0x2f then some c
  else if c = 0x62 then some 0x08
  else if c = 0x66 then some 0x0c
  else if c = 0x6e then some 0x0a
  else if c = 0x72 then some 0x0d
  else if c = 0x74 then some 0x09
  else none

/-- A character of a text, and whether it is written as `\uXXXX`. -/
structure CodeUnit where
  value : ℕ
  isUnicode : Bool

/-- The text behind an opening quote, up to the closing one, and what follows it. -/
def scanUnits : Str → Option (List CodeUnit × Str)
  | [] => none
  | c :: rest =>
      if c = 0x22 then some ([], rest)
      else if c = 0x5c then
        match rest with
        | 0x75 :: a :: b :: c :: d :: rest => do
            let u ← hexUnit? a b c d
            let (units, tail) ← scanUnits rest
            some (⟨u, true⟩ :: units, tail)
        | c :: rest => do
            let u ← escaped? c
            let (units, tail) ← scanUnits rest
            some (⟨u, false⟩ :: units, tail)
        | [] => none
      else if c < 0x20 then none
      else do
        let (units, tail) ← scanUnits rest
        some (⟨c, false⟩ :: units, tail)

def isPair (u v : CodeUnit) : Bool :=
  u.isUnicode && v.isUnicode && (0xd800 ≤ u.value && u.value < 0xdc00) &&
    (0xdc00 ≤ v.value && v.value < 0xe000)

/-- Two escaped surrogates that make a pair are one character. -/
def joinPairs : List CodeUnit → Str
  | [] => []
  | [u] => [u.value]
  | u :: v :: rest =>
      if isPair u v then
        (0x10000 + (u.value - 0xd800) * 0x400 + (v.value - 0xdc00)) :: joinPairs rest
      else u.value :: joinPairs (v :: rest)

def scanString (s : Str) : Option (Str × Str) := do
  let (units, tail) ← scanUnits s
  some (joinPairs units, tail)

/-! ### `json.loads` -/

def isBlank (c : ℕ) : Bool := c == 0x20 || c == 0x09 || c == 0x0a || c == 0x0d

def skipBlank (s : Str) : Str := s.dropWhile isBlank

/-- What the text begins with, and what follows it. -/
def literal? (s : Str) : Option (Json × Str) :=
  let literals : List (Str × Json) :=
    [(Str.ofString "null", .null), (Str.ofString "true", .bool true),
      (Str.ofString "false", .bool false), (Str.ofString "NaN", .float .nan),
      (Str.ofString "Infinity", .float (.infinity false)),
      (Str.ofString "-Infinity", .float (.infinity true))]
  literals.findSome? fun (name, value) =>
    if name.isPrefixOf s then some (value, s.drop name.length) else none

/-- A point and at least one digit, or nothing. -/
def fractionPart (s : Str) : Str × Str :=
  match s with
  | 0x2e :: rest =>
      let digits := rest.takeWhile Str.isAsciiDigit
      if digits = [] then ([], s) else (0x2e :: digits, rest.dropWhile Str.isAsciiDigit)
  | _ => ([], s)

/-- An `e`, an optional sign and at least one digit, or nothing. -/
def exponentPart (s : Str) : Str × Str :=
  match s with
  | e :: rest =>
      let sign := rest.take 1 |>.filter fun c => c == 0x2b || c == 0x2d
      let rest := rest.drop sign.length
      let digits := rest.takeWhile Str.isAsciiDigit
      if (e = 0x65 ∨ e = 0x45) ∧ digits ≠ [] then
        (e :: sign ++ digits, rest.dropWhile Str.isAsciiDigit)
      else ([], s)
  | [] => ([], [])

/-- A number. An integer of more than 4300 digits is refused. -/
def scanNumber (parseFloat : Str → Float) (s : Str) : Option (Json × Str) :=
  let negative := s.head? = some 0x2d
  let body := if negative then s.drop 1 else s
  let digits := body.takeWhile Str.isAsciiDigit
  let whole := if digits.head? = some 0x30 then [0x30] else digits
  if whole = [] then none
  else
    let (fraction, rest) := fractionPart (body.drop whole.length)
    let (exponent, rest) := exponentPart rest
    if fraction = [] ∧ exponent = [] then
      if 4300 < whole.length then none
      else
        let n := Str.ofDigits (whole.map (· - 0x30))
        some (.int (if negative then -n else n), rest)
    else
      let sign := if negative then [0x2d] else []
      some (.float (parseFloat (sign ++ whole ++ fraction ++ exponent)), rest)

mutual

/-- A value. Each step into a value costs a character at least, so the fuel never runs out if there is
as much of it as there are characters. -/
def scanOnce (parseFloat : Str → Float) : ℕ → Str → Option (Json × Str)
  | 0, _ => none
  | fuel + 1, s =>
      match s with
      | [] => none
      | c :: rest =>
          if c = 0x22 then do
            let (value, tail) ← scanString rest
            some (.str value, tail)
          else if c = 0x7b then
            match skipBlank rest with
            | 0x7d :: tail => some (.obj [], tail)
            | rest => do
                let (fields, tail) ← scanMembers parseFloat fuel rest
                some (.obj fields, tail)
          else if c = 0x5b then
            match skipBlank rest with
            | 0x5d :: tail => some (.arr [], tail)
            | rest => do
                let (elems, tail) ← scanElems parseFloat fuel rest
                some (.arr elems, tail)
          else (literal? s).or (scanNumber parseFloat s)

/-- The members of an object, up to its end. -/
def scanMembers (parseFloat : Str → Float) : ℕ → Str → Option (List (Str × Json) × Str)
  | 0, _ => none
  | fuel + 1, s =>
      match s with
      | 0x22 :: rest => do
          let (name, rest) ← scanString rest
          match skipBlank rest with
          | 0x3a :: rest => do
              let (value, rest) ← scanOnce parseFloat fuel (skipBlank rest)
              match skipBlank rest with
              | 0x7d :: tail => some ([(name, value)], tail)
              | 0x2c :: rest => do
                  let (fields, tail) ← scanMembers parseFloat fuel (skipBlank rest)
                  some ((name, value) :: fields, tail)
              | _ => none
          | _ => none
      | _ => none

/-- The elements of an array, up to its end. -/
def scanElems (parseFloat : Str → Float) : ℕ → Str → Option (List Json × Str)
  | 0, _ => none
  | fuel + 1, s => do
      let (value, rest) ← scanOnce parseFloat fuel s
      match skipBlank rest with
      | 0x5d :: tail => some ([value], tail)
      | 0x2c :: rest => do
          let (elems, tail) ← scanElems parseFloat fuel (skipBlank rest)
          some (value :: elems, tail)
      | _ => none

end

/-- `json.loads(s, parse_float=parseFloat)`; `none` is its exception. -/
def loads (parseFloat : Str → Float) (s : Str) : Option Json :=
  if s.head? = some 0xfeff then none
  else
    match scanOnce parseFloat (s.length + 1) (skipBlank s) with
    | some (value, rest) => if skipBlank rest = [] then some value else none
    | none => none

end Json

end Pricestream.Python
