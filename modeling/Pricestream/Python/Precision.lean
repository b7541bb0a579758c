import Pricestream.Library.Factor
import Pricestream.Python.Decimal

/-!
# Twenty-eight digits

What the default context does to positive numbers and to sums. How far it moves a number is a matter of
the power of ten above it, and as long as the number has all its digits it is moved by no more than half
a unit in the 27th digit behind the first. A number that is at least a power of ten stays so when it is
rounded, which keeps the operations of a computation clear of the numbers that have fewer digits.
Numbers counted in units of one decimal place are added without rounding, one after the other, as long
as there is room for all the units.
-/

namespace Pricestream.Python.Context

open Library

/-! ### Error -/

/-- Below a power of ten a number is moved by at most half of the 28th digit from there. -/
theorem abs_default_round_sub_le {x : ℚ} {n : ℤ} (hn : -999998 ≤ n) (hx : |x| < 10 ^ n) :
    |default.round x - x| ≤ 10 ^ (n - 28) / 2 := by
  have hleast : decimal28.least ≤ n - decimal28.digits := by
    change (-1000026 : ℤ) ≤ n - 28
    omega
  exact Format.abs_round_sub_le_of_lt (f := decimal28) hleast (by exact_mod_cast hx)

/-- The greatest relative error of one operation. -/
def roundoff : ℚ := 1 / (2 * 10 ^ 27)

theorem abs_default_round_sub_le_mul {x : ℚ} (hx : 10 ^ (-999999 : ℤ) ≤ |x|) :
    |default.round x - x| ≤ roundoff * |x| := by
  have herror : |default.round x - x| ≤ (10 : ℚ) ^ (1 - 28 : ℤ) / 2 * |x| :=
    Format.abs_round_sub_le_mul (f := decimal28) (by exact_mod_cast hx)
  have heq : (10 : ℚ) ^ (1 - 28 : ℤ) / 2 = roundoff := by norm_num [roundoff]
  rwa [heq] at herror

/-- The factor by which one operation may be off. -/
def slack : ℚ := (1 - roundoff)⁻¹

theorem one_le_slack : 1 ≤ slack := by
  unfold slack roundoff
  norm_num

/-! ### Clear of zero -/

/-- Zero, or at least a power of ten. -/
def Clear (n : ℤ) (x : ℚ) : Prop := x = 0 ∨ (10 : ℚ) ^ n ≤ x

namespace Clear

variable {n m : ℤ} {x y : ℚ}

theorem nonneg (h : Clear n x) : 0 ≤ x := by
  have hpow : (0 : ℚ) < 10 ^ n := zpow_pos (by norm_num) _
  rcases h with rfl | hx
  · exact le_rfl
  · exact hpow.le.trans hx

theorem mono (h : Clear n x) (hmn : m ≤ n) : Clear m x :=
  h.imp_right (zpow_le_zpow_right₀ (by norm_num) hmn).trans

theorem add (hx : Clear n x) (hy : Clear n y) : Clear n (x + y) := by
  rcases hx with rfl | hx
  · rwa [zero_add]
  · exact Or.inr (le_add_of_le_of_nonneg hx hy.nonneg)

theorem div (hx : Clear n x) (hy : 0 ≤ y) (hle : y ≤ 10 ^ m) : Clear (n - m) (x / y) := by
  rcases hx with rfl | hx
  · exact Or.inl (zero_div y)
  · rcases hy.eq_or_lt with rfl | hy
    · exact Or.inl (div_zero x)
    · refine Or.inr ?_
      have hpow : (0 : ℚ) < 10 ^ n := zpow_pos (by norm_num) _
      rw [zpow_sub₀ (by norm_num)]
      exact div_le_div₀ (hpow.le.trans hx) hx hy hle

theorem mul (hx : Clear n x) (hy : 1 ≤ y) : Clear n (x * y) := by
  rcases hx with rfl | hx
  · exact Or.inl (zero_mul y)
  · exact Or.inr (hx.trans (le_mul_of_one_le_right ((zpow_pos (by norm_num) _).le.trans hx) hy))

/-- A power of ten is kept, so what is above it stays there. -/
theorem round (hx : Clear n x) (hn : -1000026 ≤ n) : Clear n (default.round x) := by
  rcases hx with rfl | hx
  · exact Or.inl default.round_zero
  · refine Or.inr ?_
    have hkept : decimal28.round (((1 : ℤ) : ℚ) * ((10 : ℕ) : ℚ) ^ n) = ((1 : ℤ) : ℚ) * ((10 : ℕ) : ℚ) ^ n :=
      Format.round_of_lt (f := decimal28) (by decide) hn
    have hmono := default.mono hx
    rw [Int.cast_one, one_mul] at hkept
    calc (10 : ℚ) ^ n = default.round (10 ^ n) := by exact_mod_cast hkept.symm
      _ ≤ default.round x := hmono

theorem within_round (hx : Clear (-999999) x) : Within slack (default.round x) x := by
  rcases hx with rfl | hle
  · rw [default.round_zero]
    exact .refl one_le_slack le_rfl
  · have hpos : 0 < x := (zpow_pos (by norm_num) _).trans_le hle
    have herror := abs_default_round_sub_le_mul (x := x) (by rwa [abs_of_pos hpos])
    rw [abs_of_pos hpos] at herror
    exact .of_abs_sub_le (by norm_num [roundoff]) (by norm_num [roundoff]) hpos.le herror

end Clear

/-! ### Sums -/

/-- Units of one decimal place, of which there are fewer than `m` in each number, add up exactly. -/
theorem foldl_default_add {n : ℕ} {m : ℤ} {l : List ℚ} (hm : 0 ≤ m)
    (hn : n ≤ 1000026) (hl : ∀ x ∈ l, ∃ k : ℤ, x = k / 10 ^ n ∧ |k| < m) {s : ℤ}
    (hroom : |s| + m * l.length ≤ 10 ^ 28) :
    l.foldl default.add (s / 10 ^ n) = s / 10 ^ n + l.sum := by
  induction l generalizing s with
  | nil => simp
  | cons x l ih =>
      obtain ⟨k, rfl, hk⟩ := hl x List.mem_cons_self
      have hlen : m * ((((k : ℚ) / 10 ^ n) :: l).length : ℤ) = m * l.length + m := by
        rw [List.length_cons]
        push_cast
        ring
      rw [hlen] at hroom
      have hsum : |s + k| ≤ |s| + |k| := abs_add_le s k
      have hrest : 0 ≤ m * (l.length : ℤ) := by positivity
      have hadd : default.add (s / 10 ^ n) (k / 10 ^ n) = ((s + k : ℤ) : ℚ) / 10 ^ n := by
        have heq : (s : ℚ) / 10 ^ n + k / 10 ^ n = ((s + k : ℤ) : ℚ) / 10 ^ n := by
          push_cast
          ring
        rw [add, heq, default_round_of_lt (by omega) hn]
      rw [List.foldl_cons, hadd, ih (fun y hy => hl y (List.mem_cons_of_mem _ hy)) (by omega),
        List.sum_cons]
      push_cast
      ring

/-- So do units that are not negative, as long as the sum has no more digits. -/
theorem foldl_default_add_of_sum_lt {n : ℕ} {l : List ℚ} (hn : n ≤ 1000026)
    (hl : ∀ x ∈ l, ∃ k : ℕ, x = k / 10 ^ n) {s : ℕ} (hroom : s / 10 ^ n + l.sum < 10 ^ 28 / 10 ^ n) :
    l.foldl default.add (s / 10 ^ n) = s / 10 ^ n + l.sum := by
  induction l generalizing s with
  | nil => simp
  | cons x l ih =>
      obtain ⟨k, rfl⟩ := hl x List.mem_cons_self
      have hl' : ∀ x ∈ l, ∃ k : ℕ, x = k / 10 ^ n := fun x hx => hl x (List.mem_cons_of_mem _ hx)
      have hrest : 0 ≤ l.sum := by
        refine List.sum_nonneg fun x hx => ?_
        obtain ⟨j, rfl⟩ := hl' x hx
        positivity
      have heq : (s : ℚ) / 10 ^ n + k / 10 ^ n = ((s + k : ℕ) : ℚ) / 10 ^ n := by
        push_cast
        ring
      rw [List.sum_cons, ← add_assoc, heq] at hroom
      have hlt : ((s + k : ℕ) : ℤ) < 10 ^ 28 := by
        have hpow : (0 : ℚ) < 10 ^ n := by positivity
        have hlt' : ((s + k : ℕ) : ℚ) / 10 ^ n < 10 ^ 28 / 10 ^ n := by linarith
        rw [div_lt_div_iff_of_pos_right hpow] at hlt'
        exact_mod_cast hlt'
      have hadd : default.add (s / 10 ^ n) (k / 10 ^ n) = ((s + k : ℕ) : ℚ) / 10 ^ n := by
        rw [add, heq, ← Int.cast_natCast, default_round_of_lt _ hn]
        rwa [abs_of_nonneg (Int.natCast_nonneg _)]
      rw [List.foldl_cons, hadd, ih hl' hroom, List.sum_cons, ← add_assoc, heq]

end Pricestream.Python.Context
