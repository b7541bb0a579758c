import Pricestream.Consumers
import Pricestream.Proof.Tasks.Conservation

/-!
# Where publisher and subscriber meet

The publisher names the group and the cache key of an instrument after its symbol as it is configured,
the consumer after the symbol in the path in upper case. They meet exactly if the symbol has no lower
case letter, which nothing on the way to the instrument table asks for.
-/

namespace Pricestream

open Library Python

/-! ### The path -/

def pathOf (symbol : Str) : Str := Str.ofString "/ws/quotes/" ++ symbol ++ Str.ofString "/"

/-- The symbol matches the pattern of the path. -/
def Routable (symbol : Str) : Prop := symbol ≠ [] ∧ ∀ c ∈ symbol, isSymbolChar c = true

theorem takeWhile_symbol {symbol : Str} (h : ∀ c ∈ symbol, isSymbolChar c = true) (rest : Str) :
    (symbol ++ 0x2f :: rest).takeWhile isSymbolChar = symbol := by
  rw [List.takeWhile_append_of_pos h, List.takeWhile_cons]
  exact List.append_nil symbol

theorem routeSymbol_pathOf {symbol : Str} (h : Routable symbol) :
    routeSymbol (pathOf symbol) = some symbol := by
  have hpath : (pathOf symbol).dropWhile (· == 0x2f) =
      Str.ofString "ws/quotes/" ++ symbol ++ Str.ofString "/" := rfl
  have hsymbol : ((Str.ofString "ws/quotes/" ++ symbol ++ Str.ofString "/").drop 10).takeWhile
      isSymbolChar = symbol := takeWhile_symbol h.2 []
  simp only [routeSymbol, hpath, hsymbol, ne_eq, h.1, not_false_eq_true, and_self, if_true]

/-! ### Upper case -/

def IsLower (c : ℕ) : Prop := 0x61 ≤ c ∧ c ≤ 0x7a

instance (c : ℕ) : Decidable (IsLower c) := inferInstanceAs (Decidable (_ ∧ _))

/-- Upper case leaves alone exactly what has no lower case letter. -/
theorem asciiUpper_eq_self_iff {s : Str} : Str.asciiUpper s = s ↔ ∀ c ∈ s, ¬ IsLower c := by
  have hchar : ∀ c : ℕ, (if 0x61 ≤ c && c ≤ 0x7a then c - 32 else c) = c ↔ ¬ IsLower c := by
    intro c
    unfold IsLower
    split_ifs with h
    · simp only [Bool.and_eq_true, decide_eq_true_eq] at h
      omega
    · simpa using h
  have hmap := List.map_eq_map_iff (l := s) (f := fun c => if 0x61 ≤ c && c ≤ 0x7a then c - 32 else c)
    (g := id)
  rw [List.map_id] at hmap
  simp only [id, hchar] at hmap
  exact hmap

/-! ### The names -/

/-- The consumer of the path of a symbol listens where its updates are sent and cached. -/
def Meets (symbol : Str) : Prop :=
  ∃ kwarg, routeSymbol (pathOf symbol) = some kwarg ∧
    (QuoteConsumer.ofRoute kwarg).group = groupName symbol ∧
    (QuoteConsumer.ofRoute kwarg).snapshotKey = cacheKey symbol

theorem meets_iff {symbol : Str} (h : Routable symbol) : Meets symbol ↔ ∀ c ∈ symbol, ¬ IsLower c := by
  rw [← asciiUpper_eq_self_iff, Meets]
  constructor
  · intro ⟨kwarg, hroute, hgroup, _⟩
    obtain rfl := Option.some.inj ((routeSymbol_pathOf h).symm.trans hroute)
    exact groupName_injective hgroup
  · intro hupper
    refine ⟨symbol, routeSymbol_pathOf h, congrArg groupName hupper, congrArg cacheKey hupper⟩

/-- What the names of a list of configured symbols should be. -/
structure NamesMeet (upper : Str → Str) (configured : List Str) : Prop where
  meets : ∀ symbol ∈ configured, (∃ parts, Instrument.parseSymbol upper symbol = .ok parts) →
    Routable symbol → Meets symbol
  distinct : ∀ symbol ∈ configured, ∀ symbol' ∈ configured, symbol ≠ symbol' →
    groupName symbol ≠ groupName symbol' ∧ cacheKey symbol ≠ cacheKey symbol'

/-- **Where publisher and subscriber meet.** -/
theorem names_meet_iff (upper : Str → Str) (configured : List Str) :
    NamesMeet upper configured ↔
      ∀ symbol ∈ configured, (∃ parts, Instrument.parseSymbol upper symbol = .ok parts) →
        Routable symbol → ∀ c ∈ symbol, ¬ IsLower c := by
  constructor
  · intro h symbol hmem hparses hroutable
    exact (meets_iff hroutable).mp (h.meets symbol hmem hparses hroutable)
  · intro h
    refine ⟨fun symbol hmem hparses hroutable => ?_, fun symbol _ symbol' _ hne => ?_⟩
    · exact (meets_iff hroutable).mpr (h symbol hmem hparses hroutable)
    · exact ⟨fun heq => hne (groupName_injective heq), fun heq => hne (cacheKey_injective heq)⟩

/-- A symbol configured in lower case is accepted, has a path, and is listened for elsewhere. -/
theorem lower_case_symbol_misses :
    (∃ parts, Instrument.parseSymbol Str.asciiUpper (Str.ofString "btc-usd") = .ok parts) ∧
    Routable (Str.ofString "btc-usd") ∧
    ¬ NamesMeet Str.asciiUpper [Str.ofString "btc-usd"] := by
  have hroutable : Routable (Str.ofString "btc-usd") := ⟨by decide, by decide⟩
  refine ⟨⟨_, rfl⟩, hroutable, fun h => ?_⟩
  have hmeets := h.meets _ (List.mem_singleton_self _) ⟨_, rfl⟩ hroutable
  have hlower := (meets_iff hroutable).mp hmeets
  exact hlower 0x62 (by decide) (by decide)

end Pricestream
