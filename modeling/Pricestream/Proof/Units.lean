import Pricestream.Proof.Book
import Pricestream.Python.Precision

/-!
# Prices with ten decimal places

A price the columns hold exactly is a whole number of units of the tenth decimal place, and has at most
24 of its digits. Differences and sums of two such prices, and half a sum, have fewer than the 28 digits
of the default context, so it computes them as they are; so it does the sum of up to a thousand mids.
-/

namespace Pricestream

open Library Python

variable {db : Engine} {Venue : Type} {ctx : Context}

/-- The prices of a quote fit their columns exactly. -/
def ExactQuote (db : Engine) (q : Quote Venue) : Prop :=
  (priceColumn db).Holds q.bid ∧ (priceColumn db).Holds q.ask

instance (db : Engine) (q : Quote Venue) : Decidable (ExactQuote db q) :=
  inferInstanceAs (Decidable (_ ∧ _))

theorem round_price_eq_self_iff {x : ℚ} :
    (priceColumn db).round x = x ↔ ∃ k : ℤ, x = k / 10 ^ 10 :=
  db.price.round_eq_self_iff

theorem units_of_holds {x : ℚ} (h : (priceColumn db).Holds x) :
    ∃ k : ℤ, x = k / 10 ^ 10 ∧ |k| < 10 ^ 24 := by
  obtain ⟨k, rfl⟩ := round_price_eq_self_iff.mp h.1
  refine ⟨k, rfl, ?_⟩
  have hlt : |(k : ℚ) / 10 ^ 10| < 10 ^ 14 := h.2
  rw [abs_div, abs_of_pos (by norm_num : (0 : ℚ) < 10 ^ 10), div_lt_iff₀ (by norm_num)] at hlt
  have hcast : ((|k| : ℤ) : ℚ) < ((10 ^ 24 : ℤ) : ℚ) := by
    push_cast
    linarith
  exact_mod_cast hcast

theorem half_eq_units (b a : ℤ) :
    ((b : ℚ) / 10 ^ 10 + a / 10 ^ 10) / 2 = ((5 * (b + a) : ℤ) : ℚ) / 10 ^ 11 := by
  push_cast
  ring

theorem half_sum_units (hctx : ctx = .exact ∨ ctx = .default) {b a : ℤ}
    (hb : |b| < 10 ^ 24) (ha : |a| < 10 ^ 24) :
    ctx.div (ctx.add (b / 10 ^ 10) (a / 10 ^ 10)) 2 = (b / 10 ^ 10 + a / 10 ^ 10) / 2 := by
  rcases hctx with rfl | rfl
  · rfl
  · have habs : |b + a| ≤ |b| + |a| := abs_add_le b a
    have hadd : (b : ℚ) / 10 ^ 10 + a / 10 ^ 10 = ((b + a : ℤ) : ℚ) / 10 ^ 10 := by
      push_cast
      ring
    have hdiv : |5 * (b + a)| < 10 ^ 28 := by
      rw [abs_mul]
      norm_num
      linarith
    rw [Context.add, hadd, Context.default_round_of_lt (by linarith) (by norm_num), ← hadd, Context.div,
      half_eq_units, Context.default_round_of_lt hdiv (by norm_num)]

theorem default_round_of_exact {x : ℚ} (hx : (priceColumn db).Holds x) :
    Context.default.round x = x := by
  obtain ⟨k, rfl, hk⟩ := units_of_holds hx
  exact Context.default_round_of_lt (by omega) (by norm_num)

theorem sub_of_exact (hctx : ctx = .exact ∨ ctx = .default) {x y : ℚ} (hx : (priceColumn db).Holds x)
    (hy : (priceColumn db).Holds y) :
    ctx.sub x y = x - y ∧ (priceColumn db).round (x - y) = x - y := by
  obtain ⟨i, rfl, hi⟩ := units_of_holds hx
  obtain ⟨j, rfl, hj⟩ := units_of_holds hy
  have hunits : (i : ℚ) / 10 ^ 10 - j / 10 ^ 10 = ((i - j : ℤ) : ℚ) / 10 ^ 10 := by
    push_cast
    ring
  have hlt : |i - j| < 10 ^ 28 := by
    have htriangle := abs_sub i j
    linarith
  constructor
  · rcases hctx with rfl | rfl
    · rfl
    · rw [Context.sub, hunits, Context.default_round_of_lt hlt (by norm_num)]
  · exact round_price_eq_self_iff.mpr ⟨i - j, hunits⟩

theorem half_of_exact (hctx : ctx = .exact ∨ ctx = .default) {x y : ℚ} (hx : (priceColumn db).Holds x)
    (hy : (priceColumn db).Holds y) : ctx.div (ctx.add x y) 2 = (x + y) / 2 := by
  obtain ⟨i, rfl, hi⟩ := units_of_holds hx
  obtain ⟨j, rfl, hj⟩ := units_of_holds hy
  exact half_sum_units hctx hi hj

/-! ### Books -/

section Book

variable [LinearOrder Venue]

theorem plainBook_default {qs : List (Quote Venue)} {bestBid bestAsk : ℚ}
    (hbid : (priceColumn db).Holds bestBid) (hask : (priceColumn db).Holds bestAsk) :
    plainBook .default qs bestBid bestAsk = plainBook .exact qs bestBid bestAsk := by
  simp only [plainBook, half_of_exact (Or.inr rfl) hbid hask, Context.exact_div, Context.exact_add]

omit [LinearOrder Venue] in
/-- Mids of exact quotes have eleven places, and twenty-five digits. -/
theorem mid_units {q : Quote Venue} (h : ExactQuote db q) :
    ∃ k : ℤ, q.mid .exact = k / 10 ^ 11 ∧ |k| < 10 ^ 25 := by
  obtain ⟨b, hb, hblt⟩ := units_of_holds h.1
  obtain ⟨a, ha, halt⟩ := units_of_holds h.2
  refine ⟨5 * (b + a), ?_, ?_⟩
  · rw [exact_mid, hb, ha, half_eq_units]
  · have hsum : |b + a| ≤ |b| + |a| := abs_add_le b a
    rw [abs_mul]
    norm_num
    linarith

/-- Only the mean of the mids is rounded, and only once. -/
theorem crossedBook_default {qs : List (Quote Venue)} (hexact : ∀ q ∈ qs, ExactQuote db q)
    (hcount : qs.length ≤ 1000) (bestBid bestAsk : ℚ) :
    crossedBook .default qs bestBid bestAsk =
      ⟨Context.default.round (meanMid qs), min bestBid (Context.default.round (meanMid qs)),
        max bestAsk (Context.default.round (meanMid qs)), sortedSources qs⟩ := by
  have hmids : qs.map (Quote.mid .default) = qs.map (Quote.mid .exact) := by
    apply List.map_congr_left
    intro q hq
    rw [Quote.mid, half_of_exact (Or.inr rfl) (hexact q hq).1 (hexact q hq).2, exact_mid]
  have hunits : ∀ x ∈ qs.map (Quote.mid .exact), ∃ k : ℤ, x = k / 10 ^ 11 ∧ |k| < 10 ^ 25 := by
    intro x hx
    obtain ⟨q, hq, rfl⟩ := List.mem_map.mp hx
    exact mid_units (hexact q hq)
  have hroom : |(0 : ℤ)| + 10 ^ 25 * ((qs.map (Quote.mid .exact)).length : ℤ) ≤ 10 ^ 28 := by
    rw [List.length_map, abs_zero]
    omega
  have hsum := Context.foldl_default_add (n := 11) (by norm_num) (by norm_num) hunits hroom
  simp only [Int.cast_zero, zero_div, zero_add] at hsum
  simp only [crossedBook, hmids, hsum, Context.div]
  rfl

end Book

end Pricestream
