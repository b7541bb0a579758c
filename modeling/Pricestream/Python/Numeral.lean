import Pricestream.Python.Basic
import Mathlib.Data.Nat.Digits.Lemmas

/-!
# Numerals

The decimal numerals Python writes, and what reading them gives. A numeral is handled as the list of
its digits, of which its text is an image, so that cutting it up and padding it with zeros are
operations on lists.
-/

namespace Pricestream.Python.Str

/-- The text of some digits. -/
def numeral (digits : List ℕ) : Str := digits.map (0x30 + ·)

/-- The digits of `str(n)`. -/
def digitsOf (n : ℕ) : List ℕ := if n = 0 then [0] else (Nat.digits 10 n).reverse

/-- `"%+d" % n`. -/
def signed (n : ℤ) : Str := (if n < 0 then 0x2d else 0x2b) :: numeral (digitsOf n.natAbs)

/-- The digits of `n`, padded with zeros to a width that they fit. -/
def padded : ℕ → ℕ → List ℕ
  | 0, _ => []
  | width + 1, n => padded width (n / 10) ++ [n % 10]

/-! ### What digits amount to -/

section Digits

variable {digits digits' : List ℕ} {d n : ℕ}

theorem ofDigits_eq (digits : List ℕ) : ofDigits digits = Nat.ofDigits 10 digits.reverse := by
  rw [ofDigits, Nat.ofDigits_eq_foldr, List.foldr_reverse]
  congr 1
  funext n d
  exact Nat.add_comm _ _

theorem ofDigits_append : ofDigits (digits ++ digits') =
    ofDigits digits * 10 ^ digits'.length + ofDigits digits' := by
  rw [ofDigits_eq, ofDigits_eq, ofDigits_eq, List.reverse_append, Nat.ofDigits_append,
    List.length_reverse]
  ring

@[simp] theorem ofDigits_replicate (k : ℕ) : ofDigits (List.replicate k 0) = 0 := by
  rw [ofDigits_eq, List.reverse_replicate, Nat.ofDigits_replicate_zero]

@[simp] theorem ofDigits_digitsOf (n : ℕ) : ofDigits (digitsOf n) = n := by
  rw [ofDigits_eq, digitsOf]
  split_ifs with hzero
  · rw [hzero]
    rfl
  · rw [List.reverse_reverse, Nat.ofDigits_digits]

theorem lt_of_mem_digitsOf (h : d ∈ digitsOf n) : d < 10 := by
  rw [digitsOf] at h
  split_ifs at h
  · rw [List.mem_singleton.mp h]
    omega
  · exact Nat.digits_lt_base (by omega) (List.mem_reverse.mp h)

theorem digitsOf_ne_nil (n : ℕ) : digitsOf n ≠ [] := by
  rw [digitsOf]
  split_ifs with hzero
  · exact List.cons_ne_nil _ _
  · rw [ne_eq, List.reverse_eq_nil_iff, Nat.digits_eq_nil_iff_eq_zero]
    exact hzero

@[simp] theorem length_padded (width n : ℕ) : (padded width n).length = width := by
  induction width generalizing n with
  | zero => rfl
  | succ width ih => rw [padded, List.length_append, ih, List.length_singleton]

theorem lt_of_mem_padded {width : ℕ} (h : d ∈ padded width n) : d < 10 := by
  induction width generalizing n with
  | zero => exact absurd h List.not_mem_nil
  | succ width ih =>
      rcases List.mem_append.mp h with h | h
      · exact ih h
      · rw [List.mem_singleton.mp h]
        omega

theorem ofDigits_padded {width : ℕ} (h : n < 10 ^ width) : ofDigits (padded width n) = n := by
  induction width generalizing n with
  | zero =>
      rw [pow_zero, Nat.lt_one_iff] at h
      rw [h]
      rfl
  | succ width ih =>
      have hquot : n / 10 < 10 ^ width := by omega
      rw [padded, ofDigits_append, ih hquot]
      simp only [ofDigits, List.length_singleton, List.foldl_cons, List.foldl_nil]
      omega

end Digits

/-! ### Reading numerals -/

section Reading

variable {digits digits' : List ℕ} {rest : Str}

theorem digit?_numeral {d : ℕ} (h : d < 10) : digit? (0x30 + d) = some d := by
  have hzero : 0x30 ≤ 0x30 + d && 0x30 + d < 0x30 + 10 := by
    simp only [Bool.and_eq_true, decide_eq_true_eq]
    omega
  rw [digit?, decimalZeros, List.findSome?_cons, if_pos hzero, Nat.add_sub_cancel_left]

/-- The text does not go on with a digit. -/
def Stops (rest : Str) : Prop := ∀ c ∈ rest.head?, digit? c = none

theorem stops_nil : Stops [] := fun _ hc => nomatch hc

theorem stops_cons {c : ℕ} (h : digit? c = none) : Stops (c :: rest) := by
  intro c' hc
  obtain rfl := Option.some.inj hc
  exact h

theorem spanDigits_of_stops (h : Stops rest) : spanDigits rest = ([], rest) := by
  cases rest with
  | nil => rfl
  | cons c rest => simp only [spanDigits, h c rfl]

/-- A numeral is read to its end. -/
theorem spanDigits_numeral (hdigits : ∀ d ∈ digits, d < 10) (hrest : Stops rest) :
    spanDigits (numeral digits ++ rest) = (digits, rest) := by
  induction digits with
  | nil => exact spanDigits_of_stops hrest
  | cons d digits ih =>
      have hread := ih fun d' hd' => hdigits d' (List.mem_cons_of_mem _ hd')
      rw [numeral] at hread
      simp only [numeral, List.map_cons, List.cons_append, spanDigits,
        digit?_numeral (hdigits d List.mem_cons_self), hread]

theorem isAsciiDigit_of_mem_numeral {c : ℕ} (hdigits : ∀ d ∈ digits, d < 10)
    (h : c ∈ numeral digits) : isAsciiDigit c = true := by
  obtain ⟨d, hd, rfl⟩ := List.mem_map.mp h
  have hlt := hdigits d hd
  simp only [isAsciiDigit, Bool.and_eq_true, decide_eq_true_eq]
  omega

end Reading

end Pricestream.Python.Str
