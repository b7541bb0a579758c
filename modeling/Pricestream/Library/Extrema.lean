import Mathlib.Algebra.Order.BigOperators.Group.List
import Mathlib.Algebra.Order.Field.Basic
import Mathlib.Data.List.Induction
import Mathlib.Order.Bounds.OrderIso
import Mathlib.Tactic.Linarith
import Mathlib.Tactic.FieldSimp

/-!
# Extremes, means and first maxima of a list

The loops an aggregator is made of: a running maximum or minimum over a nonempty list, the arithmetic
mean, and the scan that keeps a candidate until a strictly better one comes along. For each of them
one characterisation is proved and the loop is not unfolded again.
-/

namespace Pricestream.Library

section Order

variable {α : Type} [LinearOrder α]

def maxOf (a : α) (l : List α) : α := l.foldl max a

def minOf (a : α) (l : List α) : α := l.foldl min a

theorem maxOf_isGreatest (a : α) (l : List α) : IsGreatest {x | x ∈ a :: l} (maxOf a l) := by
  induction l generalizing a with
  | nil => simp [maxOf, isGreatest_singleton]
  | cons b l ih =>
      obtain ⟨hmem, hupper⟩ := ih (max a b)
      rw [maxOf, List.foldl_cons]
      refine ⟨?_, fun x hx => ?_⟩
      · rcases List.mem_cons.mp hmem with heq | hl
        · rw [maxOf] at heq
          rw [Set.mem_ofPred_eq, heq]
          rcases max_choice a b with hab | hab <;> simp [hab]
        · exact List.mem_cons_of_mem _ (List.mem_cons_of_mem _ hl)
      · have htop := hupper (List.mem_cons_self (a := max a b))
        rcases List.mem_cons.mp hx with rfl | hx
        · exact (le_max_left _ _).trans htop
        · rcases List.mem_cons.mp hx with rfl | hx
          · exact (le_max_right _ _).trans htop
          · exact hupper (List.mem_cons_of_mem _ hx)

theorem minOf_isLeast (a : α) (l : List α) : IsLeast {x | x ∈ a :: l} (minOf a l) :=
  maxOf_isGreatest (α := αᵒᵈ) a l

end Order

section Mean

variable {α : Type} [Field α] [LinearOrder α] [IsStrictOrderedRing α]

theorem mean_mem_Icc {l : List α} {low high : α} (hne : l ≠ []) (hlow : ∀ x ∈ l, low ≤ x)
    (hhigh : ∀ x ∈ l, x ≤ high) : low ≤ l.sum / l.length ∧ l.sum / l.length ≤ high := by
  have hlen : (0 : α) < l.length := by
    exact_mod_cast List.length_pos_of_ne_nil hne
  have hleft := List.card_nsmul_le_sum l low hlow
  have hright := List.sum_le_card_nsmul l high hhigh
  rw [nsmul_eq_mul] at hleft hright
  constructor
  · rw [le_div_iff₀ hlen, mul_comm]
    exact hleft
  · rw [div_le_iff₀ hlen, mul_comm]
    exact hright

theorem lt_mean {l : List α} {low : α} (hne : l ≠ []) (hlow : ∀ x ∈ l, low < x) :
    low < l.sum / l.length := by
  obtain ⟨x, l, rfl⟩ := List.exists_cons_of_ne_nil hne
  have hleast := minOf_isLeast x l
  have hmean := (mean_mem_Icc hne (fun y hy => hleast.2 hy)
    (fun y hy => (maxOf_isGreatest x l).2 hy)).1
  exact (hlow _ hleast.1).trans_le hmean

end Mean

section FirstBest

variable {α β : Type} [LinearOrder β] (score : α → β)

def better (best : Option α) (x : α) : Option α :=
  match best with
  | none => some x
  | some b => if score b < score x then some x else some b

/-- The first of the highest-scoring entries. -/
def firstBest (l : List α) : Option α := l.foldl (better score) none

theorem firstBest_concat (l : List α) (x : α) :
    firstBest score (l ++ [x]) = better score (firstBest score l) x := by
  rw [firstBest, List.foldl_append]
  rfl

/-- `a` is the first maximum of `l`: everything before it is strictly lower, nothing after it is higher. -/
def IsFirstBest (l : List α) (a : α) : Prop :=
  ∃ front back, l = front ++ a :: back ∧ (∀ x ∈ front, score x < score a) ∧
    ∀ x ∈ back, score x ≤ score a

variable {score}

theorem IsFirstBest.mem {l : List α} {a : α} (h : IsFirstBest score l a) : a ∈ l := by
  obtain ⟨front, back, rfl, _⟩ := h
  simp

theorem IsFirstBest.le {l : List α} {a : α} (h : IsFirstBest score l a) :
    ∀ x ∈ l, score x ≤ score a := by
  obtain ⟨front, back, rfl, hfront, hback⟩ := h
  intro x hx
  rcases List.mem_append.mp hx with hx | hx
  · exact (hfront x hx).le
  · rcases List.mem_cons.mp hx with rfl | hx
    · exact le_rfl
    · exact hback x hx

theorem firstBest_eq_none_iff {l : List α} : firstBest score l = none ↔ l = [] := by
  induction l using List.reverseRecOn with
  | nil => simp [firstBest]
  | append_singleton l x ih =>
      rw [firstBest_concat]
      have hsome : better score (firstBest score l) x ≠ none := by
        unfold better
        split
        · simp
        · split_ifs <;> simp
      simp [hsome]

theorem firstBest_isFirstBest {l : List α} {a : α} (h : firstBest score l = some a) :
    IsFirstBest score l a := by
  induction l using List.reverseRecOn generalizing a with
  | nil => exact absurd h (by simp [firstBest])
  | append_singleton l x ih =>
      rw [firstBest_concat] at h
      cases hbest : firstBest score l with
      | none =>
          rw [hbest] at h
          have hl := firstBest_eq_none_iff.mp hbest
          obtain rfl : x = a := Option.some.inj h
          exact ⟨[], [], by rw [hl], by simp, by simp⟩
      | some b =>
          have hb := ih hbest
          rw [hbest, better] at h
          split_ifs at h with hlt
          · obtain rfl : x = a := Option.some.inj h
            exact ⟨l, [], rfl, fun y hy => (hb.le y hy).trans_lt hlt, by simp⟩
          · obtain rfl : b = a := Option.some.inj h
            obtain ⟨front, back, hl, hfront, hback⟩ := hb
            refine ⟨front, back ++ [x], by rw [hl, List.append_assoc]; rfl, hfront, fun y hy => ?_⟩
            rcases List.mem_append.mp hy with hy | hy
            · exact hback y hy
            · rw [List.mem_singleton.mp hy]
              exact not_lt.mp hlt

theorem IsFirstBest.unique {l : List α} {a b : α} (ha : IsFirstBest score l a)
    (hb : IsFirstBest score l b) : a = b := by
  have hle : score a ≤ score b := hb.le a ha.mem
  have hge : score b ≤ score a := ha.le b hb.mem
  obtain ⟨front, back, rfl, hfront, _⟩ := ha
  obtain ⟨front', back', hl, hfront', _⟩ := hb
  rcases List.append_eq_append_iff.mp hl with ⟨mid, rfl, hmid⟩ | ⟨mid, rfl, hmid⟩
  · cases mid with
    | nil => exact (List.cons.inj hmid).1
    | cons c mid =>
        obtain rfl := (List.cons.inj hmid).1
        exact absurd (hfront' a (List.mem_append_right _ List.mem_cons_self)) (not_lt.mpr hge)
  · cases mid with
    | nil => exact (List.cons.inj hmid).1.symm
    | cons c mid =>
        obtain rfl := (List.cons.inj hmid).1
        exact absurd (hfront b (List.mem_append_right _ List.mem_cons_self)) (not_lt.mpr hle)

theorem firstBest_eq_some_iff {l : List α} {a : α} :
    firstBest score l = some a ↔ IsFirstBest score l a := by
  constructor
  · exact firstBest_isFirstBest
  · intro ha
    cases hl : firstBest score l with
    | none =>
        have hmem := ha.mem
        rw [firstBest_eq_none_iff.mp hl] at hmem
        exact absurd hmem List.not_mem_nil
    | some b => rw [(firstBest_isFirstBest hl).unique ha]

/-- The highest score of a list does not depend on its order. -/
theorem firstBest_perm {l l' : List α} (h : l.Perm l') :
    (firstBest score l).map score = (firstBest score l').map score := by
  cases hl : firstBest score l with
  | none =>
      obtain rfl := firstBest_eq_none_iff.mp hl
      obtain rfl := h.nil_eq
      rfl
  | some a =>
      cases hl' : firstBest score l' with
      | none =>
          obtain rfl := firstBest_eq_none_iff.mp hl'
          obtain rfl := h.eq_nil
          cases hl
      | some a' =>
          have ha := firstBest_isFirstBest hl
          have ha' := firstBest_isFirstBest hl'
          exact congrArg some (le_antisymm (ha'.le a (h.mem_iff.mp ha.mem))
            (ha.le a' (h.mem_iff.mpr ha'.mem)))

theorem firstBest_map {γ : Type} (f : γ → α) (l : List γ) :
    firstBest score (l.map f) = (firstBest (fun c => score (f c)) l).map f := by
  induction l using List.reverseRecOn with
  | nil => rfl
  | append_singleton l c ih =>
      rw [List.map_append, List.map_singleton, firstBest_concat, firstBest_concat, ih]
      cases firstBest (fun c => score (f c)) l with
      | none => rfl
      | some b =>
          show (if score (f b) < score (f c) then some (f c) else some (f b)) =
            (if score (f b) < score (f c) then some c else some b).map f
          rw [apply_ite (Option.map f)]
          rfl

end FirstBest

end Pricestream.Library
