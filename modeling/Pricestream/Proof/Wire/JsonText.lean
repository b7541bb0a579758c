import Pricestream.Python.JsonText

/-!
# Reading back what was written

An object of texts that is dumped, encoded, decoded and loaded again is the same object, provided that
its texts have no surrogates. A text that has some is read as a text too, in which an escaped pair has
become one character.
-/

namespace Pricestream.Python

namespace Json

/-! ### Characters -/

theorem hexValue?_hexDigit {d : ℕ} (h : d < 16) : hexValue? (hexDigit d) = some d := by
  interval_cases d <;> rfl

theorem hexUnit?_unicodeEscape {u : ℕ} (h : u < 0x10000) :
    hexUnit? (hexDigit (u / 0x1000)) (hexDigit (u / 0x100 % 0x10)) (hexDigit (u / 0x10 % 0x10))
      (hexDigit (u % 0x10)) = some u := by
  rw [hexUnit?, hexValue?_hexDigit (by omega), hexValue?_hexDigit (by omega),
    hexValue?_hexDigit (by omega), hexValue?_hexDigit (by omega)]
  simp only [Option.bind_eq_bind, Option.bind_some, Option.some.injEq]
  omega

theorem scanUnits_unicodeEscape {u : ℕ} (h : u < 0x10000) (rest : Str) :
    scanUnits (unicodeEscape u ++ rest) = (scanUnits rest).map fun p => (⟨u, true⟩ :: p.1, p.2) := by
  simp only [unicodeEscape, List.cons_append, List.nil_append, scanUnits, hexUnit?_unicodeEscape h]
  cases scanUnits rest <;> rfl

theorem scanUnits_escaped {c e : ℕ} (h : escaped? e = some c) (rest : Str) :
    scanUnits (0x5c :: e :: rest) = (scanUnits rest).map fun p => (⟨c, false⟩ :: p.1, p.2) := by
  have hne : e ≠ 0x75 := by
    rintro rfl
    cases h
  have hquote : ¬ 0x5c = 0x22 := by decide
  rw [scanUnits.eq_def]
  simp only [if_neg hquote, if_true]
  split
  · rename_i heq
    exact absurd (List.cons.inj heq).1 hne
  · rename_i heq
    obtain ⟨rfl, rfl⟩ := List.cons.inj heq
    rw [h]
    cases scanUnits rest <;> rfl
  · rename_i heq
    cases heq

theorem scanUnits_plain {c : ℕ} (hlow : 0x20 ≤ c) (hquote : c ≠ 0x22) (hslash : c ≠ 0x5c) (rest : Str) :
    scanUnits (c :: rest) = (scanUnits rest).map fun p => (⟨c, false⟩ :: p.1, p.2) := by
  have hlow' : ¬ c < 0x20 := not_lt.mpr hlow
  rw [scanUnits.eq_def]
  simp only [if_neg hquote, if_neg hslash, if_neg hlow']
  cases scanUnits rest <;> rfl

theorem joinPairs_cons {u : CodeUnit} (h : ¬ (0xd800 ≤ u.value ∧ u.value < 0xdc00)) (units : List CodeUnit) :
    joinPairs (u :: units) = u.value :: joinPairs units := by
  cases units with
  | nil => rfl
  | cons v units =>
      have hpair : isPair u v = false := by
        simp only [isPair, Bool.and_eq_false_iff, decide_eq_false_iff_not]
        omega
      rw [joinPairs, hpair, if_neg Bool.false_ne_true]

theorem joinPairs_single {c : ℕ} (hc : Str.IsScalar c) (isUnicode : Bool) (units : List CodeUnit) :
    joinPairs (⟨c, isUnicode⟩ :: units) = c :: joinPairs units := by
  refine joinPairs_cons (fun h => ?_) units
  have hrange : 0xd800 ≤ c ∧ c < 0xdc00 := h
  have hsurrogate := hc.1
  simp only [Str.isSurrogate, Bool.and_eq_false_iff, decide_eq_false_iff_not] at hsurrogate
  omega

theorem escapeChar_cases (c : ℕ) :
    (∃ e, escapeChar c = [0x5c, e] ∧ escaped? e = some c) ∨
      (escapeChar c = [c] ∧ (0x20 ≤ c ∧ c ≤ 0x7e) ∧ c ≠ 0x22 ∧ c ≠ 0x5c) ∨
      (c < 0x10000 ∧ escapeChar c = unicodeEscape c) ∨
      (0x10000 ≤ c ∧ escapeChar c = unicodeEscape (0xd800 + (c - 0x10000) / 0x400 % 0x400) ++
        unicodeEscape (0xdc00 + (c - 0x10000) % 0x400)) := by
  by_cases hspecial : c ∈ [0x22, 0x5c, 0x0a, 0x0d, 0x09, 0x0c, 0x08]
  · simp only [List.mem_cons, List.not_mem_nil, or_false] at hspecial
    rcases hspecial with rfl | rfl | rfl | rfl | rfl | rfl | rfl <;> exact Or.inl ⟨_, rfl, rfl⟩
  · simp only [List.mem_cons, List.not_mem_nil, or_false, not_or] at hspecial
    obtain ⟨hquote, hslash, hn, hr, ht, hf, hb⟩ := hspecial
    rw [escapeChar, if_neg hquote, if_neg hslash, if_neg hn, if_neg hr, if_neg ht, if_neg hf, if_neg hb]
    split_ifs with hprintable hbasic
    · exact Or.inr (Or.inl ⟨rfl, hprintable, hquote, hslash⟩)
    · exact Or.inr (Or.inr (Or.inl ⟨hbasic, rfl⟩))
    · exact Or.inr (Or.inr (Or.inr ⟨not_lt.mp hbasic, rfl⟩))

/-- The text of a character is read as some units wherever it stands, and a scalar value is got back. -/
theorem scanUnits_escapeChar (c : ℕ) : ∃ units,
    (∀ rest, scanUnits (escapeChar c ++ rest) = (scanUnits rest).map fun p => (units ++ p.1, p.2)) ∧
      (Str.IsScalar c → ∀ rest, joinPairs (units ++ rest) = c :: joinPairs rest) := by
  rcases escapeChar_cases c with ⟨e, htext, he⟩ | ⟨htext, ⟨hlow, _⟩, hquote, hslash⟩ |
    ⟨hbasic, htext⟩ | ⟨hbeyond, htext⟩ <;> rw [htext]
  · exact ⟨[⟨c, false⟩], scanUnits_escaped he, fun hc => joinPairs_single hc false⟩
  · exact ⟨[⟨c, false⟩], scanUnits_plain hlow hquote hslash, fun hc => joinPairs_single hc false⟩
  · exact ⟨[⟨c, true⟩], scanUnits_unicodeEscape hbasic, fun hc => joinPairs_single hc true⟩
  · refine ⟨[⟨0xd800 + (c - 0x10000) / 0x400 % 0x400, true⟩, ⟨0xdc00 + (c - 0x10000) % 0x400, true⟩],
      fun rest => ?_, fun hc rest => ?_⟩
    · rw [List.append_assoc, scanUnits_unicodeEscape (by omega), scanUnits_unicodeEscape (by omega),
        Option.map_map]
      rfl
    · have hlt := hc.2
      have hpair : isPair ⟨0xd800 + (c - 0x10000) / 0x400 % 0x400, true⟩
          ⟨0xdc00 + (c - 0x10000) % 0x400, true⟩ = true := by
        simp only [isPair, Bool.and_self, Bool.true_and, Bool.and_eq_true, decide_eq_true_eq]
        omega
      rw [List.cons_append, List.cons_append, List.nil_append, joinPairs, hpair, if_pos rfl]
      simp only [List.cons.injEq, and_true]
      omega

/-! ### Texts -/

/-- What the text of a character is read as. -/
def unitsOf (c : ℕ) : List CodeUnit := ((scanUnits (escapeChar c ++ [0x22])).map Prod.fst).getD []

/-- What the text of a text is read as: the text itself, if it has no surrogates. -/
def reread (s : Str) : Str := joinPairs (s.flatMap unitsOf)

theorem unitsOf_spec (c : ℕ) :
    (∀ rest, scanUnits (escapeChar c ++ rest) = (scanUnits rest).map fun p => (unitsOf c ++ p.1, p.2)) ∧
      (Str.IsScalar c → ∀ rest, joinPairs (unitsOf c ++ rest) = c :: joinPairs rest) := by
  obtain ⟨units, hscan, hjoin⟩ := scanUnits_escapeChar c
  have hunits : unitsOf c = units := by
    rw [unitsOf, hscan]
    exact List.append_nil units
  rw [hunits]
  exact ⟨hscan, hjoin⟩

theorem reread_of_isScalar {s : Str} (h : ∀ c ∈ s, Str.IsScalar c) : reread s = s := by
  induction s with
  | nil => rfl
  | cons c s ih =>
      rw [reread, List.flatMap_cons, (unitsOf_spec c).2 (h c List.mem_cons_self)]
      exact congrArg (List.cons c) (ih fun c' hc' => h c' (List.mem_cons_of_mem _ hc'))

theorem scanUnits_flatMap (s rest : Str) :
    scanUnits (s.flatMap escapeChar ++ 0x22 :: rest) = some (s.flatMap unitsOf, rest) := by
  induction s with
  | nil =>
      rw [List.flatMap_nil, List.nil_append, scanUnits.eq_def]
      rfl
  | cons c s ih =>
      rw [List.flatMap_cons, List.append_assoc, (unitsOf_spec c).1, ih]
      rfl

theorem scanString_flatMap (s rest : Str) :
    scanString (s.flatMap escapeChar ++ 0x22 :: rest) = some (reread s, rest) := by
  rw [scanString, scanUnits_flatMap]
  rfl

/-! ### Objects -/

variable {parseFloat : Str → Float} {field : Str × Str} {rest : List (Str × Str)}

def rereadField (field : Str × Str) : Str × Json := (reread field.1, .str (reread field.2))

theorem scanOnce_quoted (fuel : ℕ) (s tail : Str) :
    scanOnce parseFloat (fuel + 1) (quoted s ++ tail) = some (.str (reread s), tail) := by
  have hsplit : quoted s ++ tail = 0x22 :: (s.flatMap escapeChar ++ 0x22 :: tail) := by
    simp [quoted]
  rw [hsplit, scanOnce, if_pos rfl, scanString_flatMap]
  rfl

theorem member_append (tail : Str) : member field ++ tail =
    0x22 :: (field.1.flatMap escapeChar ++ 0x22 :: 0x3a :: 0x20 :: (quoted field.2 ++ tail)) := by
  simp [member, quoted]

theorem scanMembers_last (fuel : ℕ) :
    scanMembers parseFloat (fuel + 2) (member field ++ [0x7d]) = some ([rereadField field], []) := by
  have hcolon : ∀ s, skipBlank (0x3a :: 0x20 :: s) = 0x3a :: 0x20 :: s := fun s => rfl
  have hvalue : ∀ s, skipBlank (0x20 :: (quoted field.2 ++ s)) = quoted field.2 ++ s := fun s => rfl
  have hend : skipBlank [0x7d] = [0x7d] := rfl
  rw [member_append, scanMembers]
  simp only [scanString_flatMap, Option.bind_eq_bind, Option.bind_some, hcolon, hvalue,
    scanOnce_quoted, hend]
  rfl

theorem scanMembers_next (fuel : ℕ) (s : Str) (next : Str × Str) :
    scanMembers parseFloat (fuel + 2) (member field ++ [0x2c, 0x20] ++ (member next ++ s)) =
      (scanMembers parseFloat (fuel + 1) (member next ++ s)).map
        fun p => (rereadField field :: p.1, p.2) := by
  have hcolon : ∀ s, skipBlank (0x3a :: 0x20 :: s) = 0x3a :: 0x20 :: s := fun s => rfl
  have hvalue : ∀ s, skipBlank (0x20 :: (quoted field.2 ++ s)) = quoted field.2 ++ s := fun s => rfl
  have hcomma : ∀ s, skipBlank (0x2c :: s) = 0x2c :: s := fun s => rfl
  have hmember : skipBlank (0x20 :: (member next ++ s)) = member next ++ s := rfl
  rw [List.append_assoc, member_append, scanMembers]
  simp only [scanString_flatMap, Option.bind_eq_bind, Option.bind_some, hcolon, hvalue,
    scanOnce_quoted, List.cons_append, List.nil_append, hcomma, hmember]
  cases scanMembers parseFloat (fuel + 1) (member next ++ s) <;> rfl

theorem members_eq (field : Str × Str) (rest : List (Str × Str)) :
    ∃ s, members field rest = member field ++ s := by
  cases rest with
  | nil => exact ⟨[0x7d], rfl⟩
  | cons next rest => exact ⟨[0x2c, 0x20] ++ members next rest, List.append_assoc _ _ _⟩

theorem scanMembers_members (field : Str × Str) (rest : List (Str × Str)) {fuel : ℕ}
    (h : rest.length + 2 ≤ fuel) :
    scanMembers parseFloat fuel (members field rest) = some ((field :: rest).map rereadField, []) := by
  induction rest generalizing field fuel with
  | nil =>
      obtain ⟨fuel, rfl⟩ := Nat.exists_eq_add_of_le' h
      exact scanMembers_last fuel
  | cons next rest ih =>
      rw [List.length_cons] at h
      obtain ⟨fuel, rfl⟩ := Nat.exists_eq_add_of_le' (show 2 ≤ fuel by omega)
      obtain ⟨s, hs⟩ := members_eq next rest
      have hread := ih next (show rest.length + 2 ≤ fuel + 1 by omega)
      rw [hs] at hread
      rw [members, hs, scanMembers_next, hread]
      rfl

theorem length_members (field : Str × Str) (rest : List (Str × Str)) :
    rest.length + 2 ≤ (members field rest).length := by
  induction rest generalizing field with
  | nil =>
      simp only [members, member, quoted, List.length_append, List.length_cons, List.length_nil]
      omega
  | cons next rest ih =>
      have hrest := ih next
      simp only [members, List.length_append, List.length_cons]
      omega

/-- **Reading an object of texts gives the object.** -/
theorem loads_dumps (parseFloat : Str → Float) (fields : List (Str × Str)) :
    loads parseFloat (dumps fields) = some (.obj (fields.map rereadField)) := by
  cases fields with
  | nil => rfl
  | cons field rest =>
      have hfuel : rest.length + 2 ≤ (members field rest).length + 1 :=
        (length_members field rest).trans (Nat.le_succ _)
      have hread : scanMembers parseFloat _ _ = _ := scanMembers_members field rest hfuel
      obtain ⟨s, hs⟩ : ∃ s, members field rest = 0x22 :: s := by
        obtain ⟨s, hs⟩ := members_eq field rest
        exact ⟨_, hs.trans (member_append s)⟩
      have hblank : skipBlank (0x22 :: s) = 0x22 :: s := rfl
      have hbrace : ∀ s, skipBlank (0x7b :: s) = 0x7b :: s := fun s => rfl
      have hvalue : scanOnce parseFloat ((0x7b :: members field rest).length + 1)
          (0x7b :: members field rest) = some (.obj ((field :: rest).map rereadField), []) := by
        rw [List.length_cons, scanOnce, if_neg (by decide), if_pos rfl]
        rw [hs] at hread ⊢
        simp only [hblank, hread, Option.bind_eq_bind, Option.bind_some]
      rw [dumps, loads, if_neg (by simp), hbrace, hvalue]
      rfl

/-! ### ASCII -/

theorem lt_of_mem_unicodeEscape {u b : ℕ} (hu : u < 0x10000) (h : b ∈ unicodeEscape u) : b < 0x80 := by
  have hhex : ∀ d, d < 0x10 → hexDigit d < 0x80 := by
    intro d hd
    rw [hexDigit]
    split_ifs <;> omega
  simp only [unicodeEscape, List.mem_cons, List.not_mem_nil, or_false] at h
  rcases h with rfl | rfl | rfl | rfl | rfl | rfl
  · omega
  · omega
  · exact hhex _ (by omega)
  · exact hhex _ (by omega)
  · exact hhex _ (by omega)
  · exact hhex _ (by omega)

theorem lt_of_escaped? {c e : ℕ} (h : escaped? e = some c) : e < 0x80 := by
  rw [escaped?] at h
  split_ifs at h <;> omega

theorem lt_of_mem_escapeChar {c b : ℕ} (h : b ∈ escapeChar c) : b < 0x80 := by
  rcases escapeChar_cases c with ⟨e, htext, he⟩ | ⟨htext, ⟨_, hhigh⟩, _, _⟩ | ⟨hbasic, htext⟩ |
    ⟨hbeyond, htext⟩ <;> rw [htext] at h
  · rcases List.mem_pair.mp h with rfl | rfl
    · omega
    · exact lt_of_escaped? he
  · rw [List.mem_singleton.mp h]
    omega
  · exact lt_of_mem_unicodeEscape hbasic h
  · rcases List.mem_append.mp h with h | h
    · exact lt_of_mem_unicodeEscape (by omega) h
    · exact lt_of_mem_unicodeEscape (by omega) h

theorem lt_of_mem_quoted {s : Str} {b : ℕ} (h : b ∈ quoted s) : b < 0x80 := by
  simp only [quoted, List.mem_cons, List.mem_append, List.mem_flatMap, List.not_mem_nil, or_false] at h
  rcases h with rfl | ⟨c, _, h⟩ | rfl
  · omega
  · exact lt_of_mem_escapeChar h
  · omega

theorem lt_of_mem_member {b : ℕ} (h : b ∈ member field) : b < 0x80 := by
  simp only [member, List.mem_append, List.mem_cons, List.not_mem_nil, or_false] at h
  rcases h with (h | rfl | rfl) | h
  · exact lt_of_mem_quoted h
  · omega
  · omega
  · exact lt_of_mem_quoted h

theorem lt_of_mem_members {b : ℕ} (h : b ∈ members field rest) : b < 0x80 := by
  induction rest generalizing field with
  | nil =>
      rcases List.mem_append.mp h with h | h
      · exact lt_of_mem_member h
      · rw [List.mem_singleton.mp h]
        omega
  | cons next rest ih =>
      simp only [members, List.mem_append, List.mem_cons, List.not_mem_nil, or_false] at h
      rcases h with (h | rfl | rfl) | h
      · exact lt_of_mem_member h
      · omega
      · omega
      · exact ih h

theorem lt_of_mem_dumps {fields : List (Str × Str)} {b : ℕ} (h : b ∈ dumps fields) : b < 0x80 := by
  cases fields with
  | nil => rcases List.mem_pair.mp h with rfl | rfl <;> omega
  | cons field rest =>
      rcases List.mem_cons.mp h with rfl | h
      · omega
      · exact lt_of_mem_members h

end Json

end Pricestream.Python
