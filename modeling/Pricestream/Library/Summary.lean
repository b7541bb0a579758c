import Mathlib.Algebra.Ring.Nat
import Mathlib.Order.Bounds.Basic
import Mathlib.Order.Bounds.OrderIso
import Mathlib.Algebra.BigOperators.Group.List.Basic
import Mathlib.Data.List.Dedup
import Mathlib.Data.List.Induction
import Mathlib.Data.List.Perm.Basic

/-!
# First, last, highest, lowest, count

What an open/high/low/close bar says about a sequence of prices, with nothing about instruments or
time in it. `summarize` reads a sequence once from the left and keeps five numbers; `Describes` says
what those numbers mean, and the two determine each other.

Two families of facts are used. Reordering the sequence changes only the first and the last entry.
And if a sequence is cut into groups by a key, then grouped again by a coarser key, the coarse
summaries are obtained from the fine ones: counts add up, extremes are extremes of extremes, and the
first entry of a coarse group is the first entry of the fine group it lies in.
-/

namespace Pricestream.Library

variable {α : Type} [LinearOrder α]

structure Summary (α : Type) where
  first : α
  last : α
  high : α
  low : α
  count : ℕ
  deriving DecidableEq

namespace Summary

def single (a : α) : Summary α := ⟨a, a, a, a, 1⟩

def snoc (s : Summary α) (a : α) : Summary α where
  first := s.first
  last := a
  high := max s.high a
  low := min s.low a
  count := s.count + 1

/-- What the five numbers say about the sequence they were read from. -/
structure Describes (s : Summary α) (l : List α) : Prop where
  first : l.head? = some s.first
  last : l.getLast? = some s.last
  high : IsGreatest {a | a ∈ l} s.high
  low : IsLeast {a | a ∈ l} s.low
  count : l.length = s.count

theorem single_describes (a : α) : (single a).Describes [a] where
  first := rfl
  last := rfl
  high := by simp [single, isGreatest_singleton]
  low := by simp [single, isLeast_singleton]
  count := rfl

theorem snoc_describes {s : Summary α} {l : List α} (h : s.Describes l) (a : α) :
    (s.snoc a).Describes (l ++ [a]) where
  first := by
    rw [List.head?_append, h.first]
    rfl
  last := List.getLast?_concat
  high := by
    have hset : {x | x ∈ l ++ [a]} = insert a {x | x ∈ l} := by
      ext x
      simp [or_comm]
    rw [hset, snoc, max_comm]
    exact h.high.insert a
  low := by
    have hset : {x | x ∈ l ++ [a]} = insert a {x | x ∈ l} := by
      ext x
      simp [or_comm]
    rw [hset, snoc, min_comm]
    exact h.low.insert a
  count := by
    rw [List.length_append, h.count]
    rfl

theorem Describes.unique {s t : Summary α} {l : List α} (hs : s.Describes l) (ht : t.Describes l) :
    s = t := by
  have hfirst := Option.some.inj (hs.first.symm.trans ht.first)
  have hlast := Option.some.inj (hs.last.symm.trans ht.last)
  have hhigh := hs.high.unique ht.high
  have hlow := hs.low.unique ht.low
  have hcount := hs.count.symm.trans ht.count
  cases s
  cases t
  simp_all

theorem Describes.ne_nil {s : Summary α} {l : List α} (h : s.Describes l) : l ≠ [] := by
  rintro rfl
  exact absurd h.first (by simp)

end Summary

/-- Read a sequence from the left, keeping its summary. -/
def summarize (l : List α) : Option (Summary α) :=
  l.foldl (fun s a => some (s.elim (Summary.single a) fun s => s.snoc a)) none

@[simp] theorem summarize_nil : summarize ([] : List α) = none := rfl

theorem summarize_concat (l : List α) (a : α) :
    summarize (l ++ [a]) = some ((summarize l).elim (Summary.single a) fun s => s.snoc a) := by
  rw [summarize, List.foldl_append]
  rfl

theorem exists_summary {l : List α} (h : l ≠ []) : ∃ s, summarize l = some s ∧ s.Describes l := by
  induction l using List.reverseRecOn with
  | nil => exact absurd rfl h
  | append_singleton l a ih =>
      rw [summarize_concat]
      by_cases hl : l = []
      · subst hl
        exact ⟨_, rfl, Summary.single_describes a⟩
      · obtain ⟨s, hs, hdescribes⟩ := ih hl
        rw [hs]
        exact ⟨_, rfl, Summary.snoc_describes hdescribes a⟩

/-- The fold computes the description, and there is only one. -/
theorem summarize_eq_some_iff {l : List α} {s : Summary α} :
    summarize l = some s ↔ s.Describes l := by
  constructor
  · intro h
    have hne : l ≠ [] := by
      rintro rfl
      exact absurd h (by simp)
    obtain ⟨t, ht, hdescribes⟩ := exists_summary hne
    exact Option.some.inj (ht.symm.trans h) ▸ hdescribes
  · intro h
    obtain ⟨t, ht, hdescribes⟩ := exists_summary h.ne_nil
    exact h.unique hdescribes ▸ ht

/-! ### Reordering -/

/-- The part of a summary that does not depend on the order of the entries. -/
def Summary.unordered (s : Summary α) : α × α × ℕ := (s.high, s.low, s.count)

theorem summarize_perm {l l' : List α} (hperm : l.Perm l') :
    (summarize l).map Summary.unordered = (summarize l').map Summary.unordered := by
  by_cases hl : l = []
  · subst hl
    rw [hperm.nil_eq]
  · have hl' : l' ≠ [] := fun h => hl (h ▸ hperm).eq_nil
    obtain ⟨s, hs, hdescribes⟩ := exists_summary hl
    obtain ⟨s', hs', hdescribes'⟩ := exists_summary hl'
    have hset : {a | a ∈ l} = {a | a ∈ l'} := by
      ext a
      exact hperm.mem_iff
    have hhigh := hdescribes.high
    have hlow := hdescribes.low
    rw [hset] at hhigh hlow
    rw [hs, hs', Option.map_some, Option.map_some, Summary.unordered, Summary.unordered,
      hhigh.unique hdescribes'.high, hlow.unique hdescribes'.low, ← hdescribes.count,
      ← hdescribes'.count, hperm.length_eq]

/-! ### Groups of groups -/

section Groups

variable {X Key : Type} [DecidableEq Key]

/-- The entries of a log that fall under one key, in order. -/
def group (f : X → Key) (log : List X) (k : Key) : List X := log.filter fun x => f x = k

theorem mem_group {f : X → Key} {log : List X} {k : Key} {x : X} :
    x ∈ group f log k ↔ x ∈ log ∧ f x = k := by
  simp [group]

theorem group_append (f : X → Key) (log log' : List X) (k : Key) :
    group f (log ++ log') k = group f log k ++ group f log' k := List.filter_append ..

private theorem sum_indicator (keys : List Key) (k : Key) :
    (keys.map fun j => if j = k then 1 else 0).sum = keys.count k := by
  induction keys with
  | nil => rfl
  | cons j keys ih =>
      rw [List.map_cons, List.sum_cons, ih, List.count_cons, Nat.add_comm]
      simp only [beq_iff_eq]

/-- Counting group by group counts everything. -/
theorem sum_length_group {f : X → Key} {log : List X} {keys : List Key} (hkeys : keys.Nodup)
    (hcover : ∀ x ∈ log, f x ∈ keys) :
    (keys.map fun k => (group f log k).length).sum = log.length := by
  induction log with
  | nil => simp [group]
  | cons x log ih =>
      have hx : f x ∈ keys := hcover x List.mem_cons_self
      have hrest := ih fun y hy => hcover y (List.mem_cons_of_mem _ hy)
      have hsplit : ∀ k, (group f (x :: log) k).length
          = (if k = f x then 1 else 0) + (group f log k).length := by
        intro k
        by_cases hk : f x = k
        · simp [group, hk, Nat.add_comm]
        · have hk' : k ≠ f x := fun he => hk he.symm
          simp [group, hk, hk']
      have hone : (keys.map fun k => if k = f x then 1 else 0).sum = 1 := by
        rw [sum_indicator, List.count_eq_one_of_mem hkeys hx]
      simp only [hsplit, List.sum_map_add, hone, hrest, List.length_cons]
      omega

theorem head?_group {f : X → Key} {log : List X} {x : X} (h : log.head? = some x) :
    (group f log (f x)).head? = some x := by
  cases log with
  | nil => exact absurd h (by simp)
  | cons y log =>
      obtain rfl : y = x := by simpa using h
      simp [group]

theorem getLast?_group {f : X → Key} {log : List X} {x : X} (h : log.getLast? = some x) :
    (group f log (f x)).getLast? = some x := by
  obtain ⟨front, rfl⟩ : ∃ front, log = front ++ [x] := by
    rw [List.getLast?_eq_some_iff] at h
    exact h
  rw [group_append]
  simp [group]

theorem le_of_head? {le : X → X → Prop} (hrefl : ∀ x, le x x) {log : List X}
    (hsorted : log.Pairwise le) {x y : X} (hx : log.head? = some x) (hy : y ∈ log) : le x y := by
  obtain ⟨rest, rfl⟩ := List.head?_eq_some_iff.mp hx
  rcases List.mem_cons.mp hy with rfl | hy
  · exact hrefl y
  · exact List.rel_of_pairwise_cons hsorted hy

theorem le_of_getLast? {le : X → X → Prop} (hrefl : ∀ x, le x x) {log : List X}
    (hsorted : log.Pairwise le) {x y : X} (hx : log.getLast? = some x) (hy : y ∈ log) : le y x := by
  obtain ⟨front, rfl⟩ := List.getLast?_eq_some_iff.mp hx
  rcases List.mem_append.mp hy with hy | hy
  · exact (List.pairwise_append.mp hsorted).2.2 y hy x (List.mem_singleton_self x)
  · rw [List.mem_singleton.mp hy]
    exact hrefl x

theorem group_group {Coarse : Type} [DecidableEq Coarse] {f : X → Key} {g : X → Coarse}
    (coarsen : Key → Coarse) {log : List X} (hnest : ∀ x ∈ log, coarsen (f x) = g x) {k : Key}
    {c : Coarse} (hk : coarsen k = c) : group f (group g log c) k = group f log k := by
  rw [group, group, List.filter_filter, group]
  refine List.filter_congr fun x hx => ?_
  by_cases hkey : f x = k
  · simp [hkey, ← hnest x hx, hk]
  · simp [hkey]

end Groups

end Pricestream.Library
