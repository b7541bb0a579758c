import Pricestream.Python.Basic

/-!
# UTF-8

What `encode("utf-8")` and `decode("utf-8")` do to a text and to bytes. A surrogate has no encoding.
ASCII text is its own encoding.
-/

namespace Pricestream.Python

namespace Str

/-- The bytes of a character. -/
def encodeChar (c : ℕ) : Except Exc (List ℕ) :=
  if c < 0x80 then pure [c]
  else if c < 0x800 then pure [0xc0 + c / 0x40, 0x80 + c % 0x40]
  else if isSurrogate c then throw .unicodeEncodeError
  else if c < 0x10000 then pure [0xe0 + c / 0x1000, 0x80 + c / 0x40 % 0x40, 0x80 + c % 0x40]
  else if c < 0x110000 then
    pure [0xf0 + c / 0x40000, 0x80 + c / 0x1000 % 0x40, 0x80 + c / 0x40 % 0x40, 0x80 + c % 0x40]
  else throw .unicodeEncodeError

/-- `s.encode("utf-8")`. -/
def encodeUtf8 : Str → Except Exc (List ℕ)
  | [] => pure []
  | c :: rest => do
      let bytes ← encodeChar c
      return bytes ++ (← encodeUtf8 rest)

def isContinuation (b : ℕ) : Bool := 0x80 ≤ b && b < 0xc0

/-- `b.decode("utf-8")`; `none` is its `UnicodeDecodeError`. -/
def decodeUtf8 : List ℕ → Option Str
  | [] => some []
  | b :: rest =>
      if b < 0x80 then (decodeUtf8 rest).map (b :: ·)
      else
        match rest with
        | b₁ :: rest =>
            if 0xc2 ≤ b ∧ b < 0xe0 ∧ isContinuation b₁ then
              (decodeUtf8 rest).map (((b - 0xc0) * 0x40 + (b₁ - 0x80)) :: ·)
            else
              match rest with
              | b₂ :: rest =>
                  let c := (b - 0xe0) * 0x1000 + (b₁ - 0x80) * 0x40 + (b₂ - 0x80)
                  if 0xe0 ≤ b ∧ b < 0xf0 ∧ isContinuation b₁ ∧ isContinuation b₂ ∧ 0x800 ≤ c ∧
                      ¬ isSurrogate c then
                    (decodeUtf8 rest).map (c :: ·)
                  else
                    match rest with
                    | b₃ :: rest =>
                        let c := (b - 0xf0) * 0x40000 + (b₁ - 0x80) * 0x1000 + (b₂ - 0x80) * 0x40 +
                          (b₃ - 0x80)
                        if 0xf0 ≤ b ∧ b < 0xf5 ∧ isContinuation b₁ ∧ isContinuation b₂ ∧
                            isContinuation b₃ ∧ 0x10000 ≤ c ∧ c < 0x110000 then
                          (decodeUtf8 rest).map (c :: ·)
                        else none
                    | [] => none
              | [] => none
        | [] => none

/-! ### What can be encoded -/

/-- A Unicode scalar value. -/
def IsScalar (c : ℕ) : Prop := isSurrogate c = false ∧ c < 0x110000

variable {s : Str}

theorem encodeUtf8_ascii (h : ∀ c ∈ s, c < 0x80) : encodeUtf8 s = .ok s := by
  induction s with
  | nil => rfl
  | cons c s ih =>
      rw [encodeUtf8, encodeChar, if_pos (h c List.mem_cons_self),
        ih fun c' hc' => h c' (List.mem_cons_of_mem _ hc')]
      rfl

theorem decodeUtf8_ascii (h : ∀ c ∈ s, c < 0x80) : decodeUtf8 s = some s := by
  induction s with
  | nil => rfl
  | cons c s ih =>
      rw [decodeUtf8.eq_def]
      simp only [if_pos (h c List.mem_cons_self), ih fun c' hc' => h c' (List.mem_cons_of_mem _ hc'),
        Option.map_some]

theorem isScalar_of_encodeChar {c : ℕ} {bytes : List ℕ} (h : encodeChar c = .ok bytes) : IsScalar c := by
  rw [encodeChar] at h
  simp only [IsScalar, isSurrogate, Bool.and_eq_false_iff, decide_eq_false_iff_not]
  split_ifs at h with hone htwo hsurrogate hthree hfour
  · omega
  · omega
  · simp only [isSurrogate, Bool.and_eq_true, decide_eq_true_eq] at hsurrogate
    omega
  · omega

/-- Only a text without surrogates can be encoded. -/
theorem isScalar_of_encodeUtf8 {bytes : List ℕ} (h : encodeUtf8 s = .ok bytes) :
    ∀ c ∈ s, IsScalar c := by
  induction s generalizing bytes with
  | nil => exact fun c hc => absurd hc List.not_mem_nil
  | cons c s ih =>
      obtain ⟨front, hfront, h⟩ := bind_eq_ok.mp h
      obtain ⟨back, hback, _⟩ := bind_eq_ok.mp h
      intro c' hc'
      rcases List.mem_cons.mp hc' with rfl | hc'
      · exact isScalar_of_encodeChar hfront
      · exact ih hback c' hc'

end Str

end Pricestream.Python
