import Mathlib.Data.List.Infix
import Pricestream.Library.Traced

/-!
# Books that can be read at any time

A program that follows every entry with its receipt, before it makes the next one, keeps its books: it
can be stopped anywhere, and every receipt has its entry and at most one entry is without its receipt.
In the same way what needs a cause has it wherever the program is stopped, if causes come first.

Both are properties of a trace that its parts in sequence hand on to the whole, so they are read off
the parts of a program, whether these raise or not.
-/

namespace Pricestream.Library

variable {ω κ : Type}

/-! ### Properties of parts -/

/-- A property of traces that holds of the whole if it holds of its parts. -/
structure Sequential (P : List ω → Prop) : Prop where
  nil : P []
  append : ∀ {l l' : List ω}, P l → P l' → P (l ++ l')

section Sequential

variable {ε α β : Type} {P : List ω → Prop} (hP : Sequential P)
include hP

theorem Sequential.flatMap {l : List β} {f : β → List ω} (h : ∀ b ∈ l, P (f b)) : P (l.flatMap f) := by
  induction l with
  | nil => exact hP.nil
  | cons b l ih =>
      rw [List.flatMap_cons]
      exact hP.append (h b List.mem_cons_self) (ih fun b' hb' => h b' (List.mem_cons_of_mem b hb'))

theorem Sequential.bind {x : Traced ε ω α} {f : α → Traced ε ω β} (hx : P x.trace)
    (hf : ∀ a, x.Returns a → P (f a).trace) : P (x >>= f).trace := by
  cases hresult : x.result with
  | error e =>
      rw [Traced.Raises.trace_bind ⟨e, hresult⟩]
      exact hx
  | ok a =>
      rw [Traced.Returns.trace_bind hresult]
      exact hP.append hx (hf a hresult)

theorem Sequential.loop {turn : α → β → Traced ε ω α} {l : List β} (h : ∀ a, ∀ b ∈ l, P (turn a b).trace)
    (a : α) : P (Traced.loop turn a l).trace := by
  induction l generalizing a with
  | nil => exact hP.nil
  | cons b l ih =>
      exact hP.bind (h a b List.mem_cons_self) fun a' _ =>
        ih (fun a b' hb' => h a b' (List.mem_cons_of_mem b hb')) a'

end Sequential

theorem sequential_forall {P : ω → Prop} : Sequential fun l => ∀ w ∈ l, P w where
  nil _ hw := absurd hw List.not_mem_nil
  append hl hl' w hw := (List.mem_append.mp hw).elim (hl w) (hl' w)

/-! ### Entries and receipts -/

inductive Posting (κ : Type) where
  | entry (key : κ)
  | receipt (key : κ)
  deriving DecidableEq

/-- An entry, and its receipt. -/
def booking (key : κ) : List (Posting κ) := [.entry key, .receipt key]

/-- Every entry is followed by its receipt before there is another entry. -/
def Balanced (post? : ω → Option (Posting κ)) (l : List ω) : Prop :=
  ∃ keys : List κ, l.filterMap post? = keys.flatMap booking

def entries [DecidableEq κ] (post? : ω → Option (Posting κ)) (key : κ) (l : List ω) : ℕ :=
  (l.filterMap post?).count (.entry key)

def receipts [DecidableEq κ] (post? : ω → Option (Posting κ)) (key : κ) (l : List ω) : ℕ :=
  (l.filterMap post?).count (.receipt key)

section Ledger

variable {post? : ω → Option (Posting κ)} {front l : List ω}

theorem sequential_balanced : Sequential (Balanced post?) where
  nil := ⟨[], rfl⟩
  append := by
    rintro l l' ⟨keys, h⟩ ⟨keys', h'⟩
    exact ⟨keys ++ keys', by rw [List.filterMap_append, h, h', List.flatMap_append]⟩

/-- A part of some bookings is bookings, and then possibly an entry. -/
theorem prefix_bookings {keys : List κ} {front : List (Posting κ)}
    (h : front <+: keys.flatMap booking) :
    ∃ booked : List κ, ∃ pending : Option κ,
      front = booked.flatMap booking ++ pending.toList.map Posting.entry := by
  induction keys generalizing front with
  | nil =>
      obtain rfl := List.prefix_nil.mp h
      exact ⟨[], none, rfl⟩
  | cons key keys ih =>
      match front with
      | [] => exact ⟨[], none, rfl⟩
      | [posting] =>
          obtain ⟨rfl, _⟩ := List.cons_prefix_cons.mp h
          exact ⟨[], some key, rfl⟩
      | posting :: posting' :: front =>
          obtain ⟨rfl, htail⟩ := List.cons_prefix_cons.mp h
          obtain ⟨rfl, hrest⟩ := List.cons_prefix_cons.mp htail
          obtain ⟨booked, pending, rfl⟩ := ih hrest
          exact ⟨key :: booked, pending, rfl⟩

variable [DecidableEq κ]

theorem count_entry_bookings (key : κ) (keys : List κ) :
    (keys.flatMap booking).count (.entry key) = keys.count key := by
  induction keys with
  | nil => rfl
  | cons key' keys ih =>
      rw [List.flatMap_cons, List.count_append, ih]
      by_cases h : key' = key <;> simp [booking, h, Nat.add_comm]

theorem count_receipt_bookings (key : κ) (keys : List κ) :
    (keys.flatMap booking).count (.receipt key) = keys.count key := by
  induction keys with
  | nil => rfl
  | cons key' keys ih =>
      rw [List.flatMap_cons, List.count_append, ih]
      by_cases h : key' = key <;> simp [booking, h, Nat.add_comm]

/-- In the end every entry has its receipt. -/
theorem Balanced.entries_eq (h : Balanced post? l) (key : κ) : entries post? key l = receipts post? key l := by
  obtain ⟨keys, h⟩ := h
  rw [entries, receipts, h, count_entry_bookings, count_receipt_bookings]

/-- **Stopped anywhere, the books are one entry out at most.** -/
theorem Balanced.stopped (h : Balanced post? l) (hfront : front <+: l) :
    ∃ pending : Option κ, ∀ key,
      entries post? key front = receipts post? key front + if pending = some key then 1 else 0 := by
  obtain ⟨keys, h⟩ := h
  obtain ⟨booked, pending, hbooked⟩ := prefix_bookings (h ▸ hfront.filterMap post?)
  refine ⟨pending, fun key => ?_⟩
  rw [entries, receipts, hbooked, List.count_append, List.count_append, count_entry_bookings,
    count_receipt_bookings]
  cases pending with
  | none => simp
  | some pending => by_cases hkey : pending = key <;> simp [hkey]

end Ledger

/-! ### Causes -/

/-- Wherever it is stopped, what needs a cause has one. -/
def Caused (needs : ω → Prop) (cause : ω → ω → Prop) (l : List ω) : Prop :=
  ∀ front, front <+: l → ∀ w ∈ front, needs w → ∃ w' ∈ front, cause w' w

section Causes

variable {needs : ω → Prop} {cause : ω → ω → Prop} {l : List ω}

theorem caused_of_not_needs (h : ∀ w ∈ l, ¬ needs w) : Caused needs cause l := by
  intro front hfront w hw hneeds
  exact absurd hneeds (h w (hfront.subset hw))

/-- The cause comes first. -/
theorem caused_cons {w₀ : ω} (hw₀ : ¬ needs w₀) (h : ∀ w ∈ l, needs w → cause w₀ w) :
    Caused needs cause (w₀ :: l) := by
  intro front hfront w hw hneeds
  obtain ⟨w₁, front, rfl⟩ := List.exists_cons_of_ne_nil (List.ne_nil_of_mem hw)
  obtain ⟨rfl, hrest⟩ := List.cons_prefix_cons.mp hfront
  rcases List.mem_cons.mp hw with rfl | hw
  · exact absurd hneeds hw₀
  · exact ⟨w₁, List.mem_cons_self, h w (hrest.subset hw) hneeds⟩

theorem sequential_caused : Sequential (Caused needs cause) where
  nil := caused_of_not_needs fun _ hw => absurd hw List.not_mem_nil
  append := by
    intro l l' h h' front hfront w hw hneeds
    rcases List.prefix_or_prefix_of_prefix hfront (List.prefix_append l l') with hl | ⟨front', rfl⟩
    · exact h front hl w hw hneeds
    · have hfront' := (List.prefix_append_right_inj l).mp hfront
      rcases List.mem_append.mp hw with hw | hw
      · obtain ⟨w', hw', hcause⟩ := h l (List.prefix_refl l) w hw hneeds
        exact ⟨w', List.mem_append_left front' hw', hcause⟩
      · obtain ⟨w', hw', hcause⟩ := h' front' hfront' w hw hneeds
        exact ⟨w', List.mem_append_right l hw', hcause⟩

end Causes

end Pricestream.Library
