import Pricestream.Library.Significant
import Pricestream.Python.Basic

/-!
# `decimal.Decimal`

A decimal is a finite number, an infinity or a NaN. A finite one is kept as the rational it denotes:
the exponent of its representation shows only in `str()`, and nothing below prints one.

Arithmetic rounds every result in the active `Context`, so the context is an argument. `exact` rounds
nothing; `default` is the interpreter's own, 28 significant digits with ties to even. It has no digits
below the exponent -1000026, so a small result underflows, in the end to zero, and a quotient by it
raises. Its largest exponent, 999999, is left out: beyond it an operation raises `Overflow`. No sum of
prices that passed their columns comes near it, and where the prices of an event do, the mid is refused
by the column of the bar: the same event raises, with another exception.

Comparing with a NaN raises, and so do a signaling NaN and the difference of infinities.

`ofStr` is the constructor on text: surrounding white space is stripped, underscores are dropped, and
digits of any script count. A number whose exponent the implementation cannot hold is refused, like
malformed text.
-/

namespace Pricestream.Python

open Library

inductive Decimal where
  | finite (value : ℚ)
  | infinity (negative : Bool)
  | nan (signaling : Bool)
  deriving DecidableEq

/-- The rounding the active decimal context applies to every arithmetic result. -/
structure Context where
  round : ℚ → ℚ
  mono : Monotone round
  round_zero : round 0 = 0

namespace Context

/-- Arithmetic on the rationals themselves. -/
def exact : Context := ⟨id, monotone_id, rfl⟩

/-- `prec` is 28, and `Emin` -999999. -/
def decimal28 : Format := ⟨10, 28, -1000026, by decide, by decide⟩

/-- `DefaultContext`. -/
def default : Context := ⟨decimal28.round, Format.round_mono, Format.round_zero⟩

/-- Below `10 ^ 15` a number is moved by less than half of the tenth decimal place. -/
theorem abs_default_round_sub_lt {x : ℚ} (hx : |x| < 10 ^ 15) :
    |default.round x - x| < 1 / (2 * 10 ^ 10) := by
  have herror : |decimal28.round x - x| ≤ (10 : ℚ) ^ (15 - 28 : ℤ) / 2 :=
    Format.abs_round_sub_le_of_lt (f := decimal28) (n := 15) (by decide) (by exact_mod_cast hx)
  have hsmall : (10 : ℚ) ^ (15 - 28 : ℤ) / 2 < 1 / (2 * 10 ^ 10) := by norm_num
  exact herror.trans_lt hsmall

/-- A number of at most 28 digits is not rounded. -/
theorem default_round_of_lt {k : ℤ} {n : ℕ} (hk : |k| < 10 ^ 28) (hn : n ≤ 1000026) :
    default.round (k / 10 ^ n) = k / 10 ^ n := by
  have hkept := Format.round_of_lt (f := decimal28) (k := k) (n := -n) (by exact_mod_cast hk)
    (by change (-1000026 : ℤ) ≤ -n; omega)
  have heq : (k : ℚ) / 10 ^ n = k * ((decimal28.base : ℕ) : ℚ) ^ (-n : ℤ) := by
    rw [zpow_neg, zpow_natCast, ← div_eq_mul_inv]
    rfl
  rw [heq]
  exact hkept

variable (ctx : Context)

theorem round_nonneg {x : ℚ} (hx : 0 ≤ x) : 0 ≤ ctx.round x := ctx.round_zero ▸ ctx.mono hx

theorem round_nonpos {x : ℚ} (hx : x ≤ 0) : ctx.round x ≤ 0 := ctx.round_zero ▸ ctx.mono hx

def add (x y : ℚ) : ℚ := ctx.round (x + y)
def sub (x y : ℚ) : ℚ := ctx.round (x - y)
def mul (x y : ℚ) : ℚ := ctx.round (x * y)
def div (x y : ℚ) : ℚ := ctx.round (x / y)

/-- `x / y`, for a divisor that may be zero. -/
def divide (x y : ℚ) : Except Exc ℚ :=
  if y = 0 then throw (if x = 0 then .invalidOperation else .divisionByZero) else pure (ctx.div x y)

@[simp] theorem exact_add (x y : ℚ) : exact.add x y = x + y := rfl
@[simp] theorem exact_sub (x y : ℚ) : exact.sub x y = x - y := rfl
@[simp] theorem exact_mul (x y : ℚ) : exact.mul x y = x * y := rfl
@[simp] theorem exact_div (x y : ℚ) : exact.div x y = x / y := rfl

end Context

namespace Decimal

/-! ### Arithmetic and comparison -/

def add (ctx : Context) : Decimal → Decimal → Except Exc Decimal
  | .nan true, _ | _, .nan true => throw .invalidOperation
  | .nan false, _ | _, .nan false => pure (.nan false)
  | .infinity s, .infinity t => if s = t then pure (.infinity s) else throw .invalidOperation
  | .infinity s, .finite _ | .finite _, .infinity s => pure (.infinity s)
  | .finite x, .finite y => pure (.finite (ctx.add x y))

def divNat (ctx : Context) (x : Decimal) (n : ℕ) : Except Exc Decimal :=
  match x with
  | .nan true => throw .invalidOperation
  | .nan false => pure (.nan false)
  | .infinity s => pure (.infinity s)
  | .finite x => pure (.finite (ctx.div x n))

def lt : Decimal → Decimal → Except Exc Bool
  | .nan _, _ | _, .nan _ => throw .invalidOperation
  | .finite x, .finite y => pure (decide (x < y))
  | .infinity s, .finite _ => pure s
  | .finite _, .infinity s => pure !s
  | .infinity s, .infinity t => pure (s && !t)

/-- `max(x, y)`: the second argument only if it compares greater. -/
def max (x y : Decimal) : Except Exc Decimal := do
  let greater ← lt x y
  pure (if greater then y else x)

/-- `min(x, y)`: the second argument only if it compares less. -/
def min (x y : Decimal) : Except Exc Decimal := do
  let less ← lt y x
  pure (if less then y else x)

@[simp] theorem max_finite (x y : ℚ) :
    max (.finite x) (.finite y) = .ok (.finite (Max.max x y)) := by
  by_cases h : x < y
  · simp [max, lt, h, max_eq_right h.le, pure, Except.pure, bind, Except.bind]
  · simp [max, lt, h, max_eq_left (not_lt.mp h), pure, Except.pure, bind, Except.bind]

@[simp] theorem min_finite (x y : ℚ) :
    min (.finite x) (.finite y) = .ok (.finite (Min.min x y)) := by
  by_cases h : y < x
  · simp [min, lt, h, min_eq_right h.le, pure, Except.pure, bind, Except.bind]
  · simp [min, lt, h, min_eq_left (not_lt.mp h), pure, Except.pure, bind, Except.bind]

theorem add_eq_finite {ctx : Context} {x y : Decimal} {s : ℚ} (h : add ctx x y = .ok (.finite s)) :
    ∃ a b, x = .finite a ∧ y = .finite b ∧ s = ctx.add a b := by
  match x, y with
  | .finite a, .finite b => exact ⟨a, b, rfl, rfl, (Decimal.finite.inj (Except.ok.inj h)).symm⟩
  | .nan true, _ => cases h
  | .nan false, .nan true | .nan false, .nan false => cases h
  | .nan false, .finite _ | .nan false, .infinity _ => cases h
  | .finite _, .nan true | .finite _, .nan false | .finite _, .infinity _ => cases h
  | .infinity _, .nan true | .infinity _, .nan false | .infinity _, .finite _ => cases h
  | .infinity negative, .infinity negative' =>
      simp only [add] at h
      split_ifs at h
      cases h

theorem divNat_eq_finite {ctx : Context} {x : Decimal} {n : ℕ} {q : ℚ}
    (h : divNat ctx x n = .ok (.finite q)) : ∃ a, x = .finite a ∧ q = ctx.div a n := by
  match x with
  | .finite a => exact ⟨a, rfl, (Decimal.finite.inj (Except.ok.inj h)).symm⟩
  | .infinity _ | .nan true | .nan false => cases h

/-! ### Construction -/

/-- The largest adjusted exponent and the smallest exponent the implementation can hold. -/
def maxEmax : ℤ := 999999999999999999
def minEtiny : ℤ := -1999999999999999997

/-- The number `± coefficient * 10 ^ exponent`, if it can be represented. -/
def ofTriple (negative : Bool) (coefficient : ℕ) (exponent : ℤ) : Option Decimal :=
  if minEtiny ≤ exponent ∧ exponent + Nat.log 10 coefficient ≤ maxEmax then
    some (.finite ((if negative then -1 else 1) * coefficient * 10 ^ exponent))
  else none

def spanSign : Str → Bool × Str
  | 0x2b :: rest => (false, rest)
  | 0x2d :: rest => (true, rest)
  | s => (false, s)

/-- The exponent part of a number: nothing, or `e`, an optional sign and digits to the end. -/
def exponent? : Str → Option ℤ
  | [] => some 0
  | c :: rest =>
      if c = 0x65 ∨ c = 0x45 then
        let (negative, rest) := spanSign rest
        match Str.spanDigits rest with
        | ([], _) => none
        | (digits, []) => some ((if negative then -1 else 1) * Str.ofDigits digits)
        | _ => none
      else none

/-- A finite number: digits around an optional point, then an optional exponent. -/
def number? (negative : Bool) (s : Str) : Option Decimal :=
  let (whole, s) := Str.spanDigits s
  let (fraction, s) :=
    match s with
    | 0x2e :: rest => Str.spanDigits rest
    | _ => ([], s)
  if whole ++ fraction = [] then none
  else
    match exponent? s with
    | none => none
    | some e => ofTriple negative (Str.ofDigits (whole ++ fraction)) (e - fraction.length)

def isPayload (s : Str) : Bool := s.all fun c => (Str.digit? c).isSome

/-- `inf` or `infinity`, `nan` or `snan` with an optional payload, in any case. -/
def special? (negative : Bool) (s : Str) : Option Decimal :=
  let lower := Str.asciiLower s
  if lower = Str.ofString "inf" ∨ lower = Str.ofString "infinity" then some (.infinity negative)
  else if lower.take 3 = Str.ofString "nan" ∧ isPayload (s.drop 3) then some (.nan false)
  else if lower.take 4 = Str.ofString "snan" ∧ isPayload (s.drop 4) then some (.nan true)
  else none

/-- `Decimal(s)` for a text. -/
def ofStr (s : Str) : Option Decimal :=
  let (negative, body) := spanSign ((Str.strip s).filter fun c => c != 0x5f)
  (number? negative body).or (special? negative body)

example : ofStr (Str.ofString " -1_0.50e-1 ") = some (.finite (-105 / 100)) := by decide +kernel
example : ofStr (Str.ofString "sNaN7") = some (.nan true) := by decide +kernel
example : ofStr (Str.ofString "1e") = none := by decide +kernel

end Decimal

end Pricestream.Python
