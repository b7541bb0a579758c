import Mathlib.Algebra.BigOperators.Group.List.Basic
import Mathlib.Algebra.Order.Field.Basic
import Mathlib.Algebra.Order.Ring.Pow
import Mathlib.Tactic.FieldSimp
import Mathlib.Tactic.Linarith
import Mathlib.Tactic.Positivity

/-!
# Numbers that differ by a factor

Each operation of an arithmetic that rounds is off by a small factor, either way. For numbers that are
not negative these factors multiply: through sums, products with an exact number, and quotients by one.
So the error of a computation is a power of the factor of a single operation, and its exponent is the
number of operations on the longest path. The factor may be stated as `(1 - u)⁻¹`, where `u` bounds the
relative error of one operation; its powers then grow no faster than their exponents, as long as these
are small against `1 / u`.
-/

namespace Pricestream.Library

variable {K : Type} [Field K] [LinearOrder K] [IsStrictOrderedRing K]

/-- Each of two numbers is at most `r` times the other. -/
structure Within (r x y : K) : Prop where
  le : x ≤ r * y
  ge : y ≤ r * x

namespace Within

variable {r s t x y z x' y' c u : K}

theorem refl (hr : 1 ≤ r) (hx : 0 ≤ x) : Within r x x :=
  ⟨le_mul_of_one_le_left hx hr, le_mul_of_one_le_left hx hr⟩

theorem trans (hr : 0 ≤ r) (hs : 0 ≤ s) (hxy : Within r x y) (hyz : Within s y z) :
    Within (r * s) x z where
  le := calc
    x ≤ r * y := hxy.le
    _ ≤ r * (s * z) := mul_le_mul_of_nonneg_left hyz.le hr
    _ = r * s * z := (mul_assoc r s z).symm
  ge := calc
    z ≤ s * y := hyz.ge
    _ ≤ s * (r * x) := mul_le_mul_of_nonneg_left hxy.ge hs
    _ = r * s * x := by rw [← mul_assoc, mul_comm s r]

/-- A number is positive, zero or negative together with one it is close to. -/
theorem nonneg (h : Within r x y) (hr : 0 < r) (hy : 0 ≤ y) : 0 ≤ x :=
  nonneg_of_mul_nonneg_right (hy.trans h.ge) hr

theorem mono (h : Within r x y) (hrs : r ≤ s) (hx : 0 ≤ x) (hy : 0 ≤ y) : Within s x y :=
  ⟨h.le.trans (mul_le_mul_of_nonneg_right hrs hy), h.ge.trans (mul_le_mul_of_nonneg_right hrs hx)⟩

theorem add (h : Within r x y) (h' : Within r x' y') : Within r (x + x') (y + y') where
  le := by
    rw [mul_add]
    exact add_le_add h.le h'.le
  ge := by
    rw [mul_add]
    exact add_le_add h.ge h'.ge

theorem mul_right (h : Within r x y) (hc : 0 ≤ c) : Within r (x * c) (y * c) where
  le := by
    rw [← mul_assoc]
    exact mul_le_mul_of_nonneg_right h.le hc
  ge := by
    rw [← mul_assoc]
    exact mul_le_mul_of_nonneg_right h.ge hc

theorem div_right (h : Within r x y) (hc : 0 ≤ c) : Within r (x / c) (y / c) := by
  rw [div_eq_mul_inv, div_eq_mul_inv]
  exact h.mul_right (inv_nonneg.mpr hc)

/-! ### Sums -/

/-- Adding up close numbers with an operation that is close to addition, between numbers of a kind it
stays within. -/
theorem foldl {op : K → K → K} {P : K → Prop} (hP : ∀ a, P a → 0 ≤ a)
    (hop : ∀ a b, P a → P b → P (op a b) ∧ Within r (op a b) (a + b)) (hr : 1 ≤ r) (hs : 1 ≤ s)
    {l l' : List K} (hl : List.Forall₂ (Within s) l l') (hlP : ∀ b ∈ l, P b) {a a' : K} (haP : P a)
    (ha : Within t a a') (ha' : 0 ≤ a') (hnonneg : ∀ b ∈ l', 0 ≤ b) (hst : s ≤ t) :
    P (l.foldl op a) ∧ Within (r ^ l.length * t) (l.foldl op a) (a' + l'.sum) := by
  induction hl generalizing a a' t with
  | nil => exact ⟨haP, by simpa using ha⟩
  | @cons b b' l l' hb hl ih =>
      obtain ⟨hb', hnonneg⟩ := List.forall_mem_cons.mp hnonneg
      obtain ⟨hbP, hlP⟩ := List.forall_mem_cons.mp hlP
      obtain ⟨hopP, hclose⟩ := hop a b haP hbP
      have htpos : 0 < t := (zero_lt_one.trans_le hs).trans_le hst
      have hstep : Within (r * t) (op a b) (a' + b') :=
        hclose.trans (zero_le_one.trans hr) htpos.le (ha.add (hb.mono hst (hP b hbP) hb'))
      have hrt : t ≤ r * t := le_mul_of_one_le_left htpos.le hr
      have hrest := ih hlP hopP hstep (add_nonneg ha' hb') hnonneg (hst.trans hrt)
      rw [List.foldl_cons, List.sum_cons, ← add_assoc, List.length_cons, pow_succ, mul_assoc]
      exact hrest

/-! ### Relative errors -/

/-- A relative error below one is a factor. -/
theorem of_abs_sub_le (hu : 0 ≤ u) (hlt : u < 1) (hy : 0 ≤ y) (h : |x - y| ≤ u * y) :
    Within (1 - u)⁻¹ x y := by
  have hpos : 0 < 1 - u := sub_pos.mpr hlt
  obtain ⟨hlow, hhigh⟩ := abs_le.mp h
  constructor
  · rw [← div_eq_inv_mul, le_div_iff₀ hpos]
    have hprod : 0 ≤ u * y * u := mul_nonneg (mul_nonneg hu hy) hu
    have hscaled : x * (1 - u) ≤ (y + u * y) * (1 - u) :=
      mul_le_mul_of_nonneg_right (by linarith) hpos.le
    linarith
  · rw [← div_eq_inv_mul, le_div_iff₀ hpos]
    linarith

/-- A factor just above one is a relative error. -/
theorem abs_sub_le (h : Within (1 + u) x y) (hu : 0 ≤ u) (hy : 0 ≤ y) : |x - y| ≤ u * y := by
  have hle : x ≤ y + u * y := by
    have := h.le
    linarith
  have hsmall : u * x - u * y ≤ u * (u * y) := by
    rw [← mul_sub]
    exact mul_le_mul_of_nonneg_left (by linarith) hu
  rw [abs_le]
  constructor
  · by_contra hnot
    have hx : x < y - u * y := by linarith
    have hux : u * x ≤ u * (y - u * y) := mul_le_mul_of_nonneg_left hx.le hu
    have huy : 0 ≤ u * (u * y) := mul_nonneg hu (mul_nonneg hu hy)
    have := h.ge
    linarith
  · linarith

/-- The powers of a factor grow about linearly. -/
theorem pow_le (hu : 0 ≤ u) (hlt : u < 1) {n : ℕ} (hn : n * (2 * u) ≤ 1) :
    (1 - u)⁻¹ ^ n ≤ 1 + n * (2 * u) := by
  have hbernoulli : 1 + n * (-u) ≤ (1 + -u) ^ n := one_add_mul_le_pow (by linarith) n
  rw [← sub_eq_add_neg] at hbernoulli
  have hpow : 0 < (1 - u) ^ n := pow_pos (sub_pos.mpr hlt) n
  have hnu : 0 ≤ n * (2 * u) := by positivity
  have hsquare : 0 ≤ n * (2 * u) * (1 - n * (2 * u)) := mul_nonneg hnu (by linarith)
  have hscaled : (1 + n * (2 * u)) * (1 + n * (-u)) ≤ (1 + n * (2 * u)) * (1 - u) ^ n :=
    mul_le_mul_of_nonneg_left hbernoulli (by linarith)
  rw [inv_pow, inv_le_iff_one_le_mul₀ hpow]
  linarith

end Within

end Pricestream.Library
