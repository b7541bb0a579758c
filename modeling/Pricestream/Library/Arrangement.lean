import Mathlib.Data.List.Sort
import Pricestream.Library.Summary

/-!
# Asking for an order

A query that asks for an order gets its rows back as some permutation that respects it, and nothing is
said about rows the order does not tell apart. An `Arrangement` is one way of answering such queries.
What every arrangement has in common is what may be relied on: the same rows, and an extreme row at
each end. Which of several extreme rows that is can be anything: `favour` puts any given one last.
-/

namespace Pricestream.Library

variable {α : Type} {le : α → α → Prop}

/-- A way of putting rows into a requested order. -/
structure Arrangement (le : α → α → Prop) where
  arrange : List α → List α
  perm : ∀ l, (arrange l).Perm l
  sorted : ∀ l, (arrange l).Pairwise le

namespace Arrangement

variable (s : Arrangement le) {l : List α} {a b : α}

theorem mem_arrange : a ∈ s.arrange l ↔ a ∈ l := (s.perm l).mem_iff

theorem length_arrange : (s.arrange l).length = l.length := (s.perm l).length_eq

theorem arrange_eq_nil_iff : s.arrange l = [] ↔ l = [] := by
  rw [← List.length_eq_zero_iff, length_arrange, List.length_eq_zero_iff]

/-- The order of a stable sort. -/
def stable (le : α → α → Prop) [DecidableRel le] (htrans : ∀ a b c, le a b → le b c → le a c)
    (htotal : ∀ a b, le a b ∨ le b a) : Arrangement le where
  arrange l := l.insertionSort le
  perm l := List.perm_insertionSort le l
  sorted l := by
    have : IsTrans α le := ⟨htrans⟩
    have : Std.Total le := ⟨htotal⟩
    exact List.pairwise_insertionSort le l

/-- The other way round. -/
def reverse : Arrangement fun a b => le b a where
  arrange l := (s.arrange l).reverse
  perm l := (List.reverse_perm _).trans (s.perm l)
  sorted l := List.pairwise_reverse.mpr (s.sorted l)

/-! ### Ends -/

/-- A row that none of the others comes after. -/
def IsLast (le : α → α → Prop) (l : List α) (a : α) : Prop := a ∈ l ∧ ∀ b ∈ l, le b a

theorem isLast_getLast? (hrefl : ∀ x, le x x) (h : (s.arrange l).getLast? = some a) :
    IsLast le l a := by
  refine ⟨s.mem_arrange.mp (List.mem_of_getLast? h), fun b hb => ?_⟩
  exact le_of_getLast? hrefl (s.sorted l) h (s.mem_arrange.mpr hb)

theorem isLast_head? (r : Arrangement fun a b => le b a) (hrefl : ∀ x, le x x)
    (h : (r.arrange l).head? = some a) : IsLast le l a := by
  refine ⟨r.mem_arrange.mp (List.mem_of_mem_head? h), fun b hb => ?_⟩
  refine le_of_head? ?_ (r.sorted l) h (r.mem_arrange.mpr hb)
  exact hrefl

open Classical in
/-- Put a row last wherever it may be. -/
noncomputable def favour (a : α) : Arrangement le where
  arrange l := if IsLast le l a then s.arrange (l.erase a) ++ [a] else s.arrange l
  perm l := by
    split_ifs with hlast
    · calc (s.arrange (l.erase a) ++ [a]).Perm (a :: s.arrange (l.erase a)) := List.perm_append_singleton _ _
        _ |>.Perm (a :: l.erase a) := (s.perm _).cons a
        _ |>.Perm l := (List.perm_cons_erase hlast.1).symm
    · exact s.perm l
  sorted l := by
    split_ifs with hlast
    · apply List.pairwise_append.mpr
      refine ⟨s.sorted _, List.pairwise_singleton _ _, fun b hb c hc => ?_⟩
      rw [List.mem_singleton.mp hc]
      exact hlast.2 b (List.mem_of_mem_erase (s.mem_arrange.mp hb))
    · exact s.sorted l

theorem getLast?_favour (h : IsLast le l a) : ((s.favour a).arrange l).getLast? = some a := by
  simp only [favour, if_pos h, List.getLast?_append_cons, List.getLast?_singleton]

theorem head?_reverse_favour (h : IsLast le l a) :
    ((s.favour a).reverse.arrange l).head? = some a := by
  change ((s.favour a).arrange l).reverse.head? = some a
  rw [List.head?_reverse, getLast?_favour s h]

end Arrangement

end Pricestream.Library
