import Pricestream.Proof.Wire.JsonText
import Pricestream.Python.JsonDump

/-!
# Reading back any value

A value without floats that is dumped and loaded again is the same value, whatever it is put together
from: lists and dictionaries become arrays and objects, and texts come back as far as they have no
surrogates. The decoder reads a value up to its last character and leaves what follows it, which by
induction on the value holds of its parts too.
-/

namespace Pricestream.Python

open Json

variable {parseFloat : Str → Float}

namespace Plain

/-! ### What is got back -/

mutual

/-- The decoded value. -/
def decoded : Plain → Json
  | .null => .null
  | .bool b => .bool b
  | .int n _ => .int n
  | .str s => .str (reread s)
  | .list elems => .arr (decodedElems elems)
  | .dict fields => .obj (decodedFields fields)

def decodedElems : List Plain → List Json
  | [] => []
  | elem :: rest => elem.decoded :: decodedElems rest

def decodedFields : List (Str × Plain) → List (Str × Json)
  | [] => []
  | (name, value) :: rest => (reread name, value.decoded) :: decodedFields rest

end

theorem decodedElems_eq (elems : List Plain) : decodedElems elems = elems.map decoded := by
  induction elems with
  | nil => rfl
  | cons elem elems ih => rw [decodedElems, ih, List.map_cons]

/-! ### Where a value ends -/

/-- What follows a value in a text: nothing, a comma or a closing bracket. -/
def Ends (tail : Str) : Prop := ∀ c ∈ tail.head?, c = 0x2c ∨ c = 0x5d ∨ c = 0x7d

theorem ends_nil : Ends [] := fun c hc => absurd hc (Option.not_mem_none c)

theorem ends_cons {c : ℕ} (h : c = 0x2c ∨ c = 0x5d ∨ c = 0x7d) (tail : Str) : Ends (c :: tail) := by
  intro c' hc
  obtain rfl := Option.some.inj hc
  exact h

theorem ends_dumpsElems (elems : List Plain) (tail : Str) : Ends (dumpsElems elems ++ tail) := by
  cases elems with
  | nil => exact ends_cons (by decide) _
  | cons elem elems => exact ends_cons (by decide) _

theorem ends_dumpsFields (fields : List (Str × Plain)) (tail : Str) :
    Ends (dumpsFields fields ++ tail) := by
  cases fields with
  | nil => exact ends_cons (by decide) _
  | cons field fields => exact ends_cons (by decide) _

/-! ### Integers -/

theorem takeWhile_numeral {digits : List ℕ} (hdigits : ∀ d ∈ digits, d < 10) {tail : Str} (h : Ends tail) :
    (Str.numeral digits ++ tail).takeWhile Str.isAsciiDigit = Str.numeral digits := by
  rw [List.takeWhile_append_of_pos fun c hc => Str.isAsciiDigit_of_mem_numeral hdigits hc]
  cases tail with
  | nil => rw [List.takeWhile_nil, List.append_nil]
  | cons c tail =>
      have hc : Str.isAsciiDigit c = false := by
        rcases h c rfl with rfl | rfl | rfl <;> rfl
      rw [List.takeWhile_cons_of_neg (by simp [hc]), List.append_nil]

theorem digitsOf_of_head? {n : ℕ} (h : (Str.digitsOf n).head? = some 0) : Str.digitsOf n = [0] := by
  rw [Str.digitsOf] at h ⊢
  split_ifs at h ⊢ with hzero
  · rfl
  · rw [List.head?_reverse] at h
    obtain ⟨hne, hlast⟩ := List.mem_getLast?_eq_getLast h
    exact absurd hlast.symm (Nat.getLast_digit_ne_zero 10 hzero)

theorem whole_numeral (n : ℕ) :
    (if (Str.numeral (Str.digitsOf n)).head? = some 0x30 then [0x30] else Str.numeral (Str.digitsOf n)) =
      Str.numeral (Str.digitsOf n) := by
  refine ite_eq_right_iff.mpr fun hhead => ?_
  have hzero : (Str.digitsOf n).head? = some 0 := by
    rw [Str.numeral, List.head?_map] at hhead
    obtain ⟨d, hd, heq⟩ := Option.map_eq_some_iff.mp hhead
    obtain rfl : d = 0 := by omega
    exact hd
  rw [digitsOf_of_head? hzero]
  rfl

theorem fractionPart_of_ends {tail : Str} (h : Ends tail) : Json.fractionPart tail = ([], tail) := by
  cases tail with
  | nil => rfl
  | cons c tail =>
      rcases h c rfl with rfl | rfl | rfl <;> rfl

theorem exponentPart_of_ends {tail : Str} (h : Ends tail) : Json.exponentPart tail = ([], tail) := by
  cases tail with
  | nil => rfl
  | cons c tail =>
      have hc : ¬ (c = 0x65 ∨ c = 0x45) := by
        rcases h c rfl with rfl | rfl | rfl <;> decide
      simp only [Json.exponentPart, hc, false_and, if_false]

theorem map_numeral (digits : List ℕ) : (Str.numeral digits).map (· - 0x30) = digits := by
  rw [Str.numeral, List.map_map]
  exact (List.map_congr_left fun d _ => Nat.add_sub_cancel_left 0x30 d).trans (List.map_id _)

theorem head?_numeral (n : ℕ) : ∃ d, d < 10 ∧ (Str.numeral (Str.digitsOf n)).head? = some (0x30 + d) := by
  obtain ⟨d, rest, hdigits⟩ := List.exists_cons_of_ne_nil (Str.digitsOf_ne_nil n)
  refine ⟨d, Str.lt_of_mem_digitsOf (hdigits ▸ List.mem_cons_self), ?_⟩
  rw [hdigits]
  rfl

theorem scanNumber_strInt {n : ℤ} (short : (Str.digitsOf n.natAbs).length ≤ 4300) {tail : Str}
    (h : Ends tail) : scanNumber parseFloat (strInt n ++ tail) = some (.int n, tail) := by
  obtain ⟨d, hd, hhead⟩ := head?_numeral n.natAbs
  have hne : Str.numeral (Str.digitsOf n.natAbs) ≠ [] := by
    intro hnil
    rw [hnil] at hhead
    cases hhead
  have hsign : (strInt n ++ tail).head? = some 0x2d ↔ n < 0 := by
    rw [strInt]
    split_ifs with hneg
    · simp [hneg]
    · rw [List.nil_append, List.head?_append, hhead, Option.some_or, Option.some.injEq]
      omega
  have hbody : (if n < 0 then (strInt n ++ tail).drop 1 else strInt n ++ tail) =
      Str.numeral (Str.digitsOf n.natAbs) ++ tail := by
    rw [strInt]
    split_ifs with hneg <;> rfl
  have hlength : ¬ 4300 < (Str.numeral (Str.digitsOf n.natAbs)).length := by
    rw [Str.numeral, List.length_map]
    exact not_lt.mpr short
  have hvalue : (if n < 0 then -(n.natAbs : ℤ) else n.natAbs) = n := by
    split_ifs <;> omega
  simp only [scanNumber, hbody, takeWhile_numeral (fun d hd => Str.lt_of_mem_digitsOf hd) h,
    whole_numeral, if_neg hne, List.drop_left, fractionPart_of_ends h, exponentPart_of_ends h,
    and_self, if_true, if_neg hlength, map_numeral, Str.ofDigits_digitsOf, hsign, hvalue]

theorem strInt_append (n : ℤ) (tail : Str) : ∃ d rest, d < 10 ∧
    (strInt n ++ tail = (0x30 + d) :: rest ∨ strInt n ++ tail = 0x2d :: (0x30 + d) :: rest) := by
  obtain ⟨d, hd, hhead⟩ := head?_numeral n.natAbs
  obtain ⟨rest, hrest⟩ := List.head?_eq_some_iff.mp hhead
  refine ⟨d, rest ++ tail, hd, ?_⟩
  rw [strInt, hrest]
  split_ifs with hneg
  · exact Or.inr rfl
  · exact Or.inl rfl

theorem scanOnce_strInt {n : ℤ} (short : (Str.digitsOf n.natAbs).length ≤ 4300) {tail : Str}
    (h : Ends tail) (fuel : ℕ) :
    scanOnce parseFloat (fuel + 1) (strInt n ++ tail) = some (.int n, tail) := by
  have hnumber : scanNumber parseFloat (strInt n ++ tail) = _ := scanNumber_strInt short h
  obtain ⟨d, rest, hd, hform | hform⟩ := strInt_append n tail
  · have hliteral : literal? ((0x30 + d) :: rest) = none := by interval_cases d <;> rfl
    rw [hform] at hnumber ⊢
    rw [scanOnce, if_neg (by omega), if_neg (by omega), if_neg (by omega), hliteral, hnumber]
    rfl
  · have hliteral : literal? (0x2d :: (0x30 + d) :: rest) = none := by interval_cases d <;> rfl
    rw [hform] at hnumber ⊢
    rw [scanOnce, if_neg (by omega), if_neg (by omega), if_neg (by omega), hliteral, hnumber]
    rfl

/-! ### Values -/

theorem dumps_cons (v : Plain) : ∃ c s, v.dumps = c :: s ∧ isBlank c = false ∧ c ≠ 0x5d ∧ c < 0x80 := by
  cases v with
  | null => exact ⟨_, _, rfl, by decide⟩
  | bool b => cases b <;> exact ⟨_, _, rfl, by decide⟩
  | int n short =>
      obtain ⟨d, rest, hd, hform | hform⟩ := strInt_append n []
      · rw [List.append_nil] at hform
        exact ⟨_, _, hform, by interval_cases d <;> decide⟩
      · rw [List.append_nil] at hform
        exact ⟨_, _, hform, by decide⟩
  | str s => exact ⟨_, _, rfl, by decide⟩
  | list elems => cases elems <;> exact ⟨_, _, rfl, by decide⟩
  | dict fields => cases fields <;> exact ⟨_, _, rfl, by decide⟩

theorem skipBlank_dumps (v : Plain) (tail : Str) : skipBlank (v.dumps ++ tail) = v.dumps ++ tail := by
  obtain ⟨c, s, hv, hblank, _⟩ := v.dumps_cons
  rw [hv, List.cons_append, skipBlank, List.dropWhile_cons_of_neg (by simp [hblank])]

/-- The decoder reads the value from the front of a text, if it has fuel for each of its characters. -/
def Reads (parseFloat : Str → Float) (v : Plain) : Prop :=
  ∀ {fuel : ℕ} {tail : Str}, Ends tail → v.dumps.length ≤ fuel →
    scanOnce parseFloat fuel (v.dumps ++ tail) = some (v.decoded, tail)

theorem length_dumpsElems_pos (elems : List Plain) : 0 < (dumpsElems elems).length := by
  cases elems <;> exact Nat.succ_pos _

theorem length_dumpsFields_pos (fields : List (Str × Plain)) : 0 < (dumpsFields fields).length := by
  cases fields <;> exact Nat.succ_pos _

theorem scanElems_dumps {elem : Plain} {rest : List Plain}
    (h : ∀ v ∈ elem :: rest, Reads parseFloat v) {fuel : ℕ}
    (hfuel : (elem.dumps ++ dumpsElems rest).length ≤ fuel) (tail : Str) :
    scanElems parseFloat fuel (elem.dumps ++ dumpsElems rest ++ tail) =
      some (decodedElems (elem :: rest), tail) := by
  induction rest generalizing elem fuel with
  | nil =>
      rw [List.length_append] at hfuel
      have hpos := length_dumpsElems_pos []
      obtain ⟨fuel, rfl⟩ := Nat.exists_eq_add_of_le' (show 1 ≤ fuel by omega)
      have hread := h elem List.mem_cons_self (ends_dumpsElems [] tail) (show _ ≤ fuel by omega)
      rw [scanElems, List.append_assoc, hread]
      rfl
  | cons next rest ih =>
      rw [List.length_append] at hfuel
      have hpos := length_dumpsElems_pos (next :: rest)
      obtain ⟨fuel, rfl⟩ := Nat.exists_eq_add_of_le' (show 1 ≤ fuel by omega)
      have hread := h elem List.mem_cons_self (ends_dumpsElems (next :: rest) tail)
        (show _ ≤ fuel by omega)
      have hrest : (next.dumps ++ dumpsElems rest).length ≤ fuel := by
        simp only [dumpsElems, List.length_append, List.length_cons, List.length_nil] at hfuel ⊢
        omega
      have htext : dumpsElems (next :: rest) ++ tail =
          0x2c :: 0x20 :: (next.dumps ++ dumpsElems rest ++ tail) := by
        simp [dumpsElems]
      have hcomma : ∀ s, skipBlank (0x2c :: s) = 0x2c :: s := fun s => rfl
      have hspace : skipBlank (0x20 :: (next.dumps ++ (dumpsElems rest ++ tail))) =
          next.dumps ++ (dumpsElems rest ++ tail) := skipBlank_dumps next _
      have hnext := ih (fun v hv => h v (List.mem_cons_of_mem _ hv)) hrest
      rw [List.append_assoc] at htext hnext
      rw [scanElems, List.append_assoc, hread, htext]
      simp only [Option.bind_eq_bind, Option.bind_some, hcomma, hspace, hnext]
      rfl

theorem field_append (name : Str) (value : Plain) (rest tail : Str) :
    quoted name ++ [0x3a, 0x20] ++ value.dumps ++ rest ++ tail =
      0x22 :: (name.flatMap escapeChar ++ 0x22 :: 0x3a :: 0x20 :: (value.dumps ++ (rest ++ tail))) := by
  simp [quoted]

theorem scanMembers_dumps {name : Str} {value : Plain} {rest : List (Str × Plain)}
    (h : ∀ field ∈ (name, value) :: rest, Reads parseFloat field.2) {fuel : ℕ}
    (hfuel : (quoted name ++ [0x3a, 0x20] ++ value.dumps ++ dumpsFields rest).length ≤ fuel) (tail : Str) :
    scanMembers parseFloat fuel (quoted name ++ [0x3a, 0x20] ++ value.dumps ++ dumpsFields rest ++ tail) =
      some (decodedFields ((name, value) :: rest), tail) := by
  have hcolon : ∀ s, skipBlank (0x3a :: s) = 0x3a :: s := fun s => rfl
  have hvalue : ∀ s, skipBlank (0x20 :: (value.dumps ++ s)) = value.dumps ++ s := skipBlank_dumps value
  induction rest generalizing name value fuel with
  | nil =>
      rw [List.length_append] at hfuel
      have hpos := length_dumpsFields_pos []
      obtain ⟨fuel, rfl⟩ := Nat.exists_eq_add_of_le' (show 1 ≤ fuel by omega)
      have hlength : value.dumps.length ≤ fuel := by
        simp only [List.length_append] at hfuel
        omega
      have hread := h (name, value) List.mem_cons_self (ends_dumpsFields [] tail) hlength
      rw [field_append, scanMembers]
      simp only [scanString_flatMap, Option.bind_eq_bind, Option.bind_some, hcolon, hvalue, hread]
      rfl
  | cons next rest ih =>
      obtain ⟨nextName, nextValue⟩ := next
      rw [List.length_append] at hfuel
      have hpos := length_dumpsFields_pos ((nextName, nextValue) :: rest)
      obtain ⟨fuel, rfl⟩ := Nat.exists_eq_add_of_le' (show 1 ≤ fuel by omega)
      have hlength : value.dumps.length ≤ fuel := by
        simp only [List.length_append] at hfuel
        omega
      have hread := h (name, value) List.mem_cons_self
        (ends_dumpsFields ((nextName, nextValue) :: rest) tail) hlength
      have hrest : (quoted nextName ++ [0x3a, 0x20] ++ nextValue.dumps ++ dumpsFields rest).length ≤ fuel := by
        simp only [dumpsFields, List.length_append, List.length_cons, List.length_nil] at hfuel ⊢
        omega
      have htext : dumpsFields ((nextName, nextValue) :: rest) ++ tail = 0x2c :: 0x20 ::
          (quoted nextName ++ [0x3a, 0x20] ++ nextValue.dumps ++ dumpsFields rest ++ tail) := by
        simp [dumpsFields]
      have hcomma : ∀ s, skipBlank (0x2c :: s) = 0x2c :: s := fun s => rfl
      have hspace : skipBlank (0x20 ::
          (quoted nextName ++ [0x3a, 0x20] ++ nextValue.dumps ++ dumpsFields rest ++ tail)) =
          quoted nextName ++ [0x3a, 0x20] ++ nextValue.dumps ++ dumpsFields rest ++ tail := rfl
      have hnext := ih (fun field hfield => h field (List.mem_cons_of_mem _ hfield)) hrest
        (skipBlank_dumps nextValue)
      rw [htext] at hread
      rw [field_append, htext, scanMembers]
      simp only [scanString_flatMap, Option.bind_eq_bind, Option.bind_some, hcolon, hvalue, hread,
        hcomma, hspace, hnext]
      rfl

/-- There is fuel, since a value is not written with no character at all. -/
theorem Reads.of_succ {v : Plain}
    (h : ∀ fuel tail, Ends tail → v.dumps.length ≤ fuel + 1 →
      scanOnce parseFloat (fuel + 1) (v.dumps ++ tail) = some (v.decoded, tail)) : Reads parseFloat v := by
  intro fuel tail htail hfuel
  obtain ⟨c, s, hv, _⟩ := v.dumps_cons
  have hpos : 0 < v.dumps.length := hv ▸ Nat.succ_pos _
  obtain ⟨fuel, rfl⟩ := Nat.exists_eq_add_of_le' (show 1 ≤ fuel by omega)
  exact h fuel tail htail hfuel

theorem reads (parseFloat : Str → Float) (v : Plain) : Reads parseFloat v := by
  induction v using Plain.induct with
  | null => exact Reads.of_succ fun fuel tail htail hfuel => rfl
  | bool b =>
      refine Reads.of_succ fun fuel tail htail hfuel => ?_
      cases b <;> rfl
  | int n short => exact Reads.of_succ fun fuel tail htail hfuel => scanOnce_strInt short htail fuel
  | str s => exact Reads.of_succ fun fuel tail htail hfuel => scanOnce_quoted fuel s tail
  | list elems ih =>
      refine Reads.of_succ fun fuel tail htail hfuel => ?_
      cases elems with
      | nil => rfl
      | cons elem rest =>
          obtain ⟨c, s, helem, _, hclose, _⟩ := elem.dumps_cons
          have hread := scanElems_dumps ih (Nat.le_of_succ_le_succ hfuel) tail
          have hskip : skipBlank (elem.dumps ++ dumpsElems rest ++ tail) =
              elem.dumps ++ dumpsElems rest ++ tail := by
            rw [List.append_assoc]
            exact skipBlank_dumps elem _
          rw [dumps, List.cons_append, scanOnce, if_neg (by decide), if_neg (by decide), if_pos rfl, hskip]
          split
          · rename_i heq
            rw [helem] at heq
            exact absurd (List.cons.inj heq).1 hclose
          · rw [hread]
            rfl
  | dict fields ih =>
      refine Reads.of_succ fun fuel tail htail hfuel => ?_
      cases fields with
      | nil => rfl
      | cons field rest =>
          obtain ⟨name, value⟩ := field
          have hread := scanMembers_dumps ih (Nat.le_of_succ_le_succ hfuel) tail
          have hskip : ∀ s, skipBlank (0x22 :: s) = 0x22 :: s := fun s => rfl
          rw [dumps, List.cons_append, scanOnce, if_neg (by decide), if_pos rfl]
          rw [field_append] at hread ⊢
          simp only [hskip, hread]
          rfl

/-- **Reading a value gives the value.** -/
theorem loads_dumps (parseFloat : Str → Float) (v : Plain) :
    loads parseFloat v.dumps = some v.decoded := by
  obtain ⟨c, s, hv, _, _, hascii⟩ := v.dumps_cons
  have hskip : skipBlank v.dumps = v.dumps := by
    have h := skipBlank_dumps v []
    rwa [List.append_nil] at h
  have hread : scanOnce parseFloat (v.dumps.length + 1) v.dumps = some (v.decoded, []) := by
    have h : scanOnce parseFloat (v.dumps.length + 1) (v.dumps ++ []) = _ :=
      v.reads parseFloat ends_nil (Nat.le_succ _)
    rwa [List.append_nil] at h
  have hbom : v.dumps.head? ≠ some 0xfeff := by
    rw [hv, List.head?_cons, ne_eq, Option.some.injEq]
    omega
  rw [loads, if_neg hbom, hskip, hread]
  rfl

theorem members_eq_dumpsFields (field : Str × Str) (rest : List (Str × Str)) :
    members field rest = quoted field.1 ++ [0x3a, 0x20] ++ (Plain.str field.2).dumps ++
      dumpsFields (rest.map fun field => (field.1, .str field.2)) := by
  induction rest generalizing field with
  | nil => rfl
  | cons next rest ih =>
      rw [members, ih next, List.map_cons, dumpsFields, member]
      simp only [dumps, List.append_assoc]

/-- An object of texts is dumped in one way only. -/
theorem dumps_texts (fields : List (Str × Str)) : (texts fields).dumps = Json.dumps fields := by
  cases fields with
  | nil => rfl
  | cons field rest =>
      rw [Json.dumps, members_eq_dumpsFields]
      rfl

end Plain

end Pricestream.Python
