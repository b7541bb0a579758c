import Pricestream.Python.Decimal
import Pricestream.Python.Numeral

/-!
# Decimals as text

A finite `Decimal` is a sign, a coefficient and an exponent within what the implementation can hold.
`str()` writes all three of them, in plain notation if the exponent is at most 0 and the number not too
small, else in scientific notation. Reading the text gives the number back, whichever it is.
-/

namespace Pricestream.Python

open Str

structure DecimalTuple where
  negative : Bool
  coefficient : ℕ
  exponent : ℤ
  representable : Decimal.minEtiny ≤ exponent ∧ exponent + Nat.log 10 coefficient ≤ Decimal.maxEmax

namespace DecimalTuple

variable (d : DecimalTuple)

def value : ℚ := (if d.negative then -1 else 1) * d.coefficient * 10 ^ d.exponent

def digits : List ℕ := digitsOf d.coefficient

/-- How many digits stand to the left of the point, without an exponent. -/
def leftDigits : ℤ := d.exponent + d.digits.length

/-- How many digits stand to the left of the point in the text. -/
def dotPlace : ℤ := if d.exponent ≤ 0 ∧ -6 < d.leftDigits then d.leftDigits else 1

/-- The digits on both sides of the point. -/
def parts : List ℕ × List ℕ :=
  if d.dotPlace ≤ 0 then ([0], List.replicate (-d.dotPlace).toNat 0 ++ d.digits)
  else if d.digits.length ≤ d.dotPlace then
    (d.digits ++ List.replicate (d.dotPlace - d.digits.length).toNat 0, [])
  else (d.digits.take d.dotPlace.toNat, d.digits.drop d.dotPlace.toNat)

/-- A fraction with its point, if there is one. -/
def pointed (fraction : List ℕ) : Str := if fraction = [] then [] else 0x2e :: numeral fraction

def exponentPart (e : ℤ) : Str := if e = 0 then [] else 0x45 :: signed e

/-- `str(d)`. -/
def str : Str :=
  (if d.negative then [0x2d] else []) ++ numeral d.parts.1 ++ pointed d.parts.2 ++
    exponentPart (d.leftDigits - d.dotPlace)

/-! ### The parts -/

variable {d}

theorem ofTriple_eq : Decimal.ofTriple d.negative d.coefficient d.exponent = some (.finite d.value) :=
  if_pos d.representable

theorem dotPlace_le : d.dotPlace ≤ d.digits.length := by
  have hpos : 0 < d.digits.length := List.length_pos_of_ne_nil (digitsOf_ne_nil _)
  rw [dotPlace, leftDigits]
  split_ifs <;> omega

/-- The point cuts the digits without losing one. -/
theorem parts_digits : ofDigits (d.parts.1 ++ d.parts.2) = d.coefficient := by
  rw [parts]
  split_ifs with hzero hlen
  · rw [← List.append_assoc, ofDigits_append, List.singleton_append, ← List.replicate_succ,
      ofDigits_replicate, Nat.zero_mul, Nat.zero_add]
    exact ofDigits_digitsOf _
  · have hnone : (d.dotPlace - d.digits.length).toNat = 0 := by
      have := d.dotPlace_le
      omega
    rw [hnone, List.replicate_zero, List.append_nil, List.append_nil]
    exact ofDigits_digitsOf _
  · rw [List.take_append_drop]
    exact ofDigits_digitsOf _

/-- The exponent written makes up for the place of the point. -/
theorem parts_exponent : d.leftDigits - d.dotPlace - d.parts.2.length = d.exponent := by
  have hle := d.dotPlace_le
  rw [leftDigits, parts]
  split_ifs with hzero hlen
  · simp only [List.length_append, List.length_replicate]
    omega
  · simp only [List.length_nil]
    omega
  · simp only [List.length_drop]
    omega

theorem parts_ne_nil : d.parts.1 ≠ [] := by
  rw [parts]
  split_ifs with hzero hlen
  · exact List.cons_ne_nil _ _
  · exact List.append_ne_nil_of_left_ne_nil (digitsOf_ne_nil _) _
  · rw [← List.length_pos_iff, List.length_take]
    omega

theorem lt_of_mem_parts {n : ℕ} (h : n ∈ d.parts.1 ++ d.parts.2) : n < 10 := by
  have hdigits : ∀ n ∈ d.digits, n < 10 := fun n hn => lt_of_mem_digitsOf hn
  have hzeros : ∀ k, ∀ n ∈ List.replicate k 0, n < 10 := by
    intro k n hn
    rw [List.eq_of_mem_replicate hn]
    omega
  rw [parts] at h
  split_ifs at h with hzero hlen
  · rcases List.mem_cons.mp (show n ∈ 0 :: (List.replicate _ 0 ++ d.digits) from h) with rfl | h
    · omega
    · rcases List.mem_append.mp h with h | h
      · exact hzeros _ n h
      · exact hdigits n h
  · rw [List.append_nil] at h
    rcases List.mem_append.mp h with h | h
    · exact hdigits n h
    · exact hzeros _ n h
  · rw [List.take_append_drop] at h
    exact hdigits n h

end DecimalTuple

/-! ### Reading -/

section Reading

open DecimalTuple

variable {negative : Bool} {whole fraction : List ℕ} {e : ℤ}

theorem exponent?_exponentPart (e : ℤ) : Decimal.exponent? (exponentPart e) = some e := by
  have hspan : spanDigits (numeral (digitsOf e.natAbs)) = (digitsOf e.natAbs, []) := by
    have hread : spanDigits (numeral (digitsOf e.natAbs) ++ []) = _ :=
      spanDigits_numeral (fun d hd => lt_of_mem_digitsOf hd) stops_nil
    rwa [List.append_nil] at hread
  rw [exponentPart]
  split_ifs with hzero
  · rw [hzero]
    rfl
  · obtain ⟨d, ds, hdigits⟩ := List.exists_cons_of_ne_nil (digitsOf_ne_nil e.natAbs)
    have hvalue : ofDigits (d :: ds) = e.natAbs := by rw [← hdigits, ofDigits_digitsOf]
    rw [hdigits] at hspan
    by_cases hneg : e < 0
    · simp only [signed, if_pos hneg, hdigits, Decimal.exponent?, Decimal.spanSign, hspan, hvalue]
      simp only [or_true, if_true, Option.some.injEq]
      omega
    · simp only [signed, if_neg hneg, hdigits, Decimal.exponent?, Decimal.spanSign, hspan, hvalue]
      simp only [or_true, if_true, Bool.false_eq_true, if_false, Option.some.injEq]
      omega

theorem stops_exponentPart (e : ℤ) : Stops (exponentPart e) := by
  rw [exponentPart]
  split_ifs
  · exact stops_nil
  · exact stops_cons (by decide)

theorem stops_pointed (fraction : List ℕ) (e : ℤ) : Stops (pointed fraction ++ exponentPart e) := by
  rw [pointed]
  split_ifs
  · exact stops_exponentPart e
  · exact stops_cons (by decide)

/-- A number in either notation. -/
theorem number?_text (hwhole : whole ≠ []) (hdigits : ∀ d ∈ whole ++ fraction, d < 10) (e : ℤ) :
    Decimal.number? negative (numeral whole ++ (pointed fraction ++ exponentPart e)) =
      Decimal.ofTriple negative (ofDigits (whole ++ fraction)) (e - fraction.length) := by
  have hspan := spanDigits_numeral (fun d hd => hdigits d (List.mem_append_left _ hd))
    (stops_pointed fraction e)
  have hne : whole ++ fraction ≠ [] := List.append_ne_nil_of_left_ne_nil hwhole _
  by_cases hfraction : fraction = []
  · subst hfraction
    rw [pointed, if_pos rfl, List.nil_append] at hspan ⊢
    have hread := exponent?_exponentPart e
    rw [exponentPart] at hspan hread ⊢
    split_ifs at hspan hread ⊢ with hzero
    · simp only [Decimal.number?, hspan, if_neg hne, hread]
    · simp only [Decimal.number?, hspan, if_neg hne, hread]
  · have hspan' := spanDigits_numeral (fun d hd => hdigits d (List.mem_append_right _ hd))
      (stops_exponentPart e)
    rw [pointed, if_neg hfraction, List.cons_append] at hspan ⊢
    simp only [Decimal.number?, hspan, hspan', if_neg hne, exponent?_exponentPart]

/-- A text without blanks and underscores is read as it is. -/
theorem ofStr_of_clean {s : Str} (hblank : ∀ c ∈ s, isSpace c = false) (hline : ∀ c ∈ s, c ≠ 0x5f) :
    Decimal.ofStr s = (Decimal.number? (Decimal.spanSign s).1 (Decimal.spanSign s).2).or
      (Decimal.special? (Decimal.spanSign s).1 (Decimal.spanSign s).2) := by
  have hdrop : ∀ t : Str, (∀ c ∈ t, isSpace c = false) → t.dropWhile isSpace = t := by
    intro t ht
    cases t with
    | nil => rfl
    | cons c t => rw [List.dropWhile_cons, ht c List.mem_cons_self, if_neg Bool.false_ne_true]
  have hstrip : strip s = s := by
    rw [strip, hdrop s hblank, hdrop _ fun c hc => hblank c (List.mem_reverse.mp hc),
      List.reverse_reverse]
  have hfilter : s.filter (fun c => c != 0x5f) = s :=
    List.filter_eq_self.mpr fun c hc => bne_iff_ne.mpr (hline c hc)
  rw [Decimal.ofStr, hstrip, hfilter]

theorem spanSign_of_ne {c : ℕ} {rest : Str} (hplus : c ≠ 0x2b) (hminus : c ≠ 0x2d) :
    Decimal.spanSign (c :: rest) = (false, c :: rest) := by
  unfold Decimal.spanSign
  split
  · rename_i heq
    exact absurd (List.cons.inj heq).1 hplus
  · rename_i heq
    exact absurd (List.cons.inj heq).1 hminus
  · rfl

theorem spanSign_str (d : DecimalTuple) :
    Decimal.spanSign d.str = (d.negative, numeral d.parts.1 ++ (pointed d.parts.2 ++
      exponentPart (d.leftDigits - d.dotPlace))) := by
  obtain ⟨n, ns, hparts⟩ := List.exists_cons_of_ne_nil d.parts_ne_nil
  have hn : n < 10 := d.lt_of_mem_parts (by simp [hparts])
  rw [DecimalTuple.str, List.append_assoc, List.append_assoc, hparts, numeral, List.map_cons]
  cases d.negative with
  | true => rfl
  | false => exact spanSign_of_ne (by omega) (by omega)

/-- Digits, signs, the point and the `E`. -/
theorem range_of_mem_str {d : DecimalTuple} {c : ℕ} (h : c ∈ d.str) : 0x2b ≤ c ∧ c ≤ 0x45 := by
  have hnumeral : ∀ digits, (∀ n ∈ digits, n < 10) → ∀ c ∈ numeral digits, 0x2b ≤ c ∧ c ≤ 0x45 := by
    intro digits hdigits c hc
    obtain ⟨n, hn, rfl⟩ := List.mem_map.mp hc
    have := hdigits n hn
    omega
  rw [DecimalTuple.str, List.mem_append, List.mem_append, List.mem_append] at h
  rcases h with ((h | h) | h) | h
  · split_ifs at h
    · rw [List.mem_singleton.mp h]
      omega
    · exact absurd h List.not_mem_nil
  · exact hnumeral _ (fun n hn => d.lt_of_mem_parts (List.mem_append_left _ hn)) c h
  · rw [pointed] at h
    split_ifs at h
    · exact absurd h List.not_mem_nil
    · rcases List.mem_cons.mp h with rfl | h
      · omega
      · exact hnumeral _ (fun n hn => d.lt_of_mem_parts (List.mem_append_right _ hn)) c h
  · rw [exponentPart, signed] at h
    split_ifs at h
    · exact absurd h List.not_mem_nil
    all_goals
      rcases List.mem_cons.mp h with rfl | h
      · omega
      · rcases List.mem_cons.mp h with rfl | h
        · omega
        · exact hnumeral _ (fun n hn => lt_of_mem_digitsOf hn) c h

/-- **Reading a decimal's text gives its value.** -/
theorem ofStr_str (d : DecimalTuple) : Decimal.ofStr d.str = some (.finite d.value) := by
  have hblank : ∀ c ∈ d.str, isSpace c = false := by
    intro c hc
    obtain ⟨hlow, hhigh⟩ := range_of_mem_str hc
    interval_cases c <;> rfl
  have hline : ∀ c ∈ d.str, c ≠ 0x5f := by
    intro c hc
    have := range_of_mem_str hc
    omega
  rw [ofStr_of_clean hblank hline, spanSign_str,
    number?_text d.parts_ne_nil (fun _ hn => d.lt_of_mem_parts hn), d.parts_digits, d.parts_exponent,
    d.ofTriple_eq, Option.some_or]

/-- Both notations, and a zero that keeps its sign and exponent. -/
example : DecimalTuple.str ⟨true, 1230, -7, by decide⟩ = Str.ofString "-0.0001230" := by decide +kernel
example : DecimalTuple.str ⟨false, 1230, -10, by decide⟩ = Str.ofString "1.230E-7" := by decide +kernel
example : DecimalTuple.str ⟨true, 0, 3, by decide⟩ = Str.ofString "-0E+3" := by decide +kernel

end Reading

end Pricestream.Python
