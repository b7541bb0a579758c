import Mathlib.Data.List.Basic

/-!
# Python values: text and exceptions

A `str` is the sequence of its code points. Lean's own `String` holds Unicode scalar values only, but
`json.loads` also decodes the escape of a lone surrogate, and what a database driver does with such a
text differs from what it does with any other, so the wider type is the one the decoder produces.

An exception is kept as its class. Which class it is decides whether a `try` around the raising
expression catches it; the message never does.
-/

namespace Pricestream.Python

inductive Exc where
  | attributeError
  | typeError
  | valueError
  | keyError
  | invalidOperation
  | divisionByZero
  | overflowError
  | unicodeEncodeError
  | dataError
  | integrityError
  | databaseError
  | connectionError
  deriving DecidableEq, Repr

def orRaise {α : Type} (e : Exc) : Option α → Except Exc α
  | some a => .ok a
  | none => .error e

@[simp] theorem orRaise_some {α : Type} (e : Exc) (a : α) : orRaise e (some a) = .ok a := rfl
@[simp] theorem orRaise_none {α : Type} (e : Exc) : orRaise (α := α) e none = .error e := rfl

theorem bind_eq_ok {α β : Type} {x : Except Exc α} {f : α → Except Exc β} {b : β} :
    (x >>= f) = .ok b ↔ ∃ a, x = .ok a ∧ f a = .ok b := by
  cases x <;> simp [bind, Except.bind]

theorem toOption_eq_some {α : Type} {x : Except Exc α} {a : α} : x.toOption = some a ↔ x = .ok a := by
  cases x <;> simp [Except.toOption]

theorem mapM_eq_ok {α β : Type} {f : α → Except Exc β} {g : α → β} {l : List α}
    (h : ∀ a ∈ l, f a = .ok (g a)) : l.mapM f = .ok (l.map g) := by
  induction l with
  | nil => rfl
  | cons a l ih =>
      rw [List.mapM_cons, h a List.mem_cons_self, ih fun b hb => h b (List.mem_cons_of_mem _ hb)]
      rfl

theorem mem_of_mapM {α β : Type} {f : α → Except Exc β} {l : List α} {bs : List β} (h : l.mapM f = .ok bs) :
    (∀ b ∈ bs, ∃ a ∈ l, f a = .ok b) ∧ ∀ a ∈ l, ∃ b ∈ bs, f a = .ok b := by
  induction l generalizing bs with
  | nil =>
      obtain rfl := Except.ok.inj h
      exact ⟨fun _ hb => absurd hb List.not_mem_nil, fun _ ha => absurd ha List.not_mem_nil⟩
  | cons a l ih =>
      rw [List.mapM_cons] at h
      obtain ⟨b, hb, h⟩ := bind_eq_ok.mp h
      obtain ⟨rest, hrest, h⟩ := bind_eq_ok.mp h
      obtain rfl := Except.ok.inj h
      obtain ⟨hshown, hrendered⟩ := ih hrest
      constructor
      · refine List.forall_mem_cons.mpr ⟨⟨a, List.mem_cons_self, hb⟩, fun b' hb' => ?_⟩
        exact (hshown b' hb').imp fun _ ha' => ⟨List.mem_cons_of_mem _ ha'.1, ha'.2⟩
      · refine List.forall_mem_cons.mpr ⟨⟨b, List.mem_cons_self, hb⟩, fun a' ha' => ?_⟩
        exact (hrendered a' ha').imp fun _ hb' => ⟨List.mem_cons_of_mem _ hb'.1, hb'.2⟩

theorem foldlM_eq_ok {α σ : Type} {f : σ → α → Except Exc σ} {g : σ → α → σ} {l : List α}
    (h : ∀ a ∈ l, ∀ s, f s a = .ok (g s a)) (s : σ) : l.foldlM f s = .ok (l.foldl g s) := by
  induction l generalizing s with
  | nil => rfl
  | cons a l ih =>
      rw [List.foldlM_cons, h a List.mem_cons_self s, List.foldl_cons]
      exact ih (fun b hb => h b (List.mem_cons_of_mem _ hb)) (g s a)

/-- A loop in which a step raises, whatever came before, and no other step raises anything else. -/
theorem foldlM_eq_error {α σ : Type} {f : σ → α → Except Exc σ} {e : Exc} {l : List α}
    (h : ∀ a ∈ l, (∀ s, ∃ s', f s a = .ok s') ∨ ∀ s, f s a = .error e)
    (hbad : ∃ a ∈ l, ∀ s, f s a = .error e) (s : σ) : l.foldlM f s = .error e := by
  induction l generalizing s with
  | nil =>
      obtain ⟨a, ha, _⟩ := hbad
      exact absurd ha List.not_mem_nil
  | cons a l ih =>
      rw [List.foldlM_cons]
      rcases h a List.mem_cons_self with hgood | hraises
      · obtain ⟨s', hs'⟩ := hgood s
        obtain ⟨b, hb, hraises⟩ := hbad
        have hrest : b ∈ l := by
          rcases List.mem_cons.mp hb with rfl | hb
          · cases hs'.symm.trans (hraises s)
          · exact hb
        rw [hs']
        exact ih (fun c hc => h c (List.mem_cons_of_mem _ hc)) ⟨b, hrest, hraises⟩ s'
      · rw [hraises s]
        rfl

theorem exists_mapM_eq_error {α β : Type} {f : α → Except Exc β} {l : List α}
    (h : ∃ a ∈ l, ∃ e, f a = .error e) : ∃ e, l.mapM f = .error e := by
  induction l with
  | nil =>
      obtain ⟨a, ha, _⟩ := h
      exact absurd ha List.not_mem_nil
  | cons a l ih =>
      rw [List.mapM_cons]
      cases hfa : f a with
      | error e => exact ⟨e, rfl⟩
      | ok b =>
          obtain ⟨a', ha', e, he⟩ := h
          rcases List.mem_cons.mp ha' with rfl | ha'
          · rw [hfa] at he
            cases he
          · obtain ⟨e', he'⟩ := ih ⟨a', ha', e, he⟩
            exact ⟨e', by rw [he']; rfl⟩

/-- A `str`, as code points. -/
abbrev Str := List ℕ

namespace Str

/-- The `str` of a Lean literal. -/
def ofString (s : String) : Str := s.toList.map Char.toNat

def isSpace (c : ℕ) : Bool :=
  (0x9 ≤ c && c ≤ 0xd) || (0x1c ≤ c && c ≤ 0x20) || c == 0x85 || c == 0xa0 || c == 0x1680 ||
    (0x2000 ≤ c && c ≤ 0x200a) || c == 0x2028 || c == 0x2029 || c == 0x202f || c == 0x205f ||
    c == 0x3000

def strip (s : Str) : Str := ((s.dropWhile isSpace).reverse.dropWhile isSpace).reverse

def isSurrogate (c : ℕ) : Bool := 0xd800 ≤ c && c ≤ 0xdfff

def isAsciiDigit (c : ℕ) : Bool := 0x30 ≤ c && c ≤ 0x39

/-- ASCII letters in lower case, everything else as it is. -/
def asciiLower (s : Str) : Str := s.map fun c => if 0x41 ≤ c && c ≤ 0x5a then c + 32 else c

/-- ASCII letters in upper case, everything else as it is. -/
def asciiUpper (s : Str) : Str := s.map fun c => if 0x61 ≤ c && c ≤ 0x7a then c - 32 else c

/-- The code points of the digit zero in each Unicode block of decimal digits. -/
def decimalZeros : List ℕ :=
  [0x30, 0x660, 0x6f0, 0x7c0, 0x966, 0x9e6, 0xa66, 0xae6, 0xb66, 0xbe6, 0xc66, 0xce6, 0xd66, 0xde6,
    0xe50, 0xed0, 0xf20, 0x1040, 0x1090, 0x17e0, 0x1810, 0x1946, 0x19d0, 0x1a80, 0x1a90, 0x1b50,
    0x1bb0, 0x1c40, 0x1c50, 0xa620, 0xa8d0, 0xa900, 0xa9d0, 0xa9f0, 0xaa50, 0xabf0, 0xff10, 0x104a0,
    0x10d30, 0x11066, 0x110f0, 0x11136, 0x111d0, 0x112f0, 0x11450, 0x114d0, 0x11650, 0x116c0,
    0x11730, 0x118e0, 0x11950, 0x11c50, 0x11d50, 0x11da0, 0x16a60, 0x16ac0, 0x16b50, 0x1d7ce,
    0x1d7d8, 0x1d7e2, 0x1d7ec, 0x1d7f6, 0x1e140, 0x1e2f0, 0x1e950, 0x1fbf0]

def digit? (c : ℕ) : Option ℕ :=
  decimalZeros.findSome? fun z => if z ≤ c && c < z + 10 then some (c - z) else none

/-- The leading decimal digits of a text, as values, and what follows them. -/
def spanDigits : Str → List ℕ × Str
  | [] => ([], [])
  | c :: rest =>
      match digit? c with
      | some d => let (digits, tail) := spanDigits rest; (d :: digits, tail)
      | none => ([], c :: rest)

def ofDigits (digits : List ℕ) : ℕ := digits.foldl (fun n d => 10 * n + d) 0

end Str

end Pricestream.Python
