import Mathlib.Data.List.Perm.Subperm
import Mathlib.Order.MinMax
import Pricestream.Library.Arrangement

/-!
# Reading a growing table page by page

A request for a page counts the rows, and then cuts its part out of the rows in some requested order.
These are two queries, and the table may have grown in between, as it may between two requests.
A reader asks for one page after the other until there is no next one.

Rows that are added only push a row towards later pages, and the reader moves towards them too. So of
every score that was there at the start the reader sees a row, whatever the database makes of rows with
one score, unless the last request counts before a row is added and cuts after it.
-/

namespace Pricestream.Library

/-- What a request for a page is answered with. -/
structure Page (α : Type) where
  count : ℕ
  hasNext : Bool
  hasPrevious : Bool
  results : List α

variable {α β κ : Type}

def Page.map (f : α → β) (page : Page α) : Page β := { page with results := page.results.map f }

/-- How many pages so many rows make; there is a first page in any case. -/
def numPages (size count : ℕ) : ℕ := max 1 ((count + size - 1) / size)

/-- Page `number`, counting from 1, of rows that were counted before they were read. The last page ends
with the count. -/
def paginate (size number count : ℕ) (rows : List α) : Option (Page α) :=
  if 1 ≤ number ∧ number ≤ numPages size count then
    some
      { count
        hasNext := number < numPages size count
        hasPrevious := 1 < number
        results := (rows.take (min (size * number) count)).drop (size * (number - 1)) }
  else none

section Pages

variable {size number count : ℕ} {rows : List α} {page : Page α}

theorem lt_numPages_iff (hsize : 0 < size) (hnumber : 1 ≤ number) :
    number < numPages size count ↔ size * number < count := by
  rw [numPages, lt_max_iff, Nat.lt_div_iff_mul_lt hsize]
  constructor
  · rintro (h | h)
    · omega
    · rw [Nat.mul_comm]
      omega
  · intro h
    right
    rw [Nat.mul_comm] at h
    omega

theorem paginate_eq_some (h : paginate size number count rows = some page) :
    page = ⟨count, number < numPages size count, 1 < number,
      (rows.take (min (size * number) count)).drop (size * (number - 1))⟩ := by
  rw [paginate, Option.ite_none_right_eq_some] at h
  exact (Option.some.inj h.2).symm

/-- A page has a next one if the rows go beyond it. -/
theorem hasNext_iff (hsize : 0 < size) (hnumber : 1 ≤ number)
    (h : paginate size number count rows = some page) :
    page.hasNext = true ↔ size * number < count := by
  rw [paginate_eq_some h, decide_eq_true_eq]
  exact lt_numPages_iff hsize hnumber

/-- A row is on the page its position belongs to. -/
theorem mem_results {a : α} {n : ℕ} (h : paginate size number count rows = some page)
    (hn : rows[n]? = some a) (hlow : size * (number - 1) ≤ n) (hhigh : n < min (size * number) count) :
    a ∈ page.results := by
  rw [paginate_eq_some h]
  refine List.mem_iff_getElem?.mpr ⟨n - size * (number - 1), ?_⟩
  rw [List.getElem?_drop, Nat.add_sub_cancel' hlow, List.getElem?_take_of_lt hhigh, hn]

theorem subset_of_paginate (h : paginate size number count rows = some page) : page.results ⊆ rows := by
  rw [paginate_eq_some h]
  exact fun a ha => List.mem_of_mem_take (List.mem_of_mem_drop ha)

end Pages

/-! ### Positions -/

section Positions

variable [LinearOrder κ]

/-- In an ordered list the first occurrence of an element comes behind what is below it. -/
theorem getElem?_countP_lt {l : List κ} (h : l.Pairwise (· ≤ ·)) {x : κ} (hx : x ∈ l) :
    l[l.countP (· < x)]? = some x := by
  induction l with
  | nil => exact absurd hx List.not_mem_nil
  | cons y l ih =>
      obtain ⟨hy, hl⟩ := List.pairwise_cons.mp h
      by_cases hlt : y < x
      · have hmem : x ∈ l := (List.mem_cons.mp hx).resolve_left hlt.ne'
        rw [List.countP_cons_of_pos (by simpa using hlt), List.getElem?_cons_succ]
        exact ih hl hmem
      · have hle : ∀ z ∈ y :: l, ¬ z < x := by
          intro z hz
          rcases List.mem_cons.mp hz with rfl | hz
          · exact hlt
          · exact not_lt.mpr ((not_lt.mp hlt).trans (hy z hz))
        have hzero : (y :: l).countP (· < x) = 0 := List.countP_eq_zero.mpr (by simpa using hle)
        have hyx : y = x := by
          rcases List.mem_cons.mp hx with rfl | hmem
          · rfl
          · exact le_antisymm (hy x hmem) (not_lt.mp hlt)
        rw [hzero, List.getElem?_cons_zero, hyx]

variable {score : α → κ} {l : List α}

/-- Where the rows of a score begin, whatever the arrangement. -/
theorem getElem?_arrange (s : Arrangement fun a b => score a ≤ score b) {x : κ} (hx : x ∈ l.map score) :
    ∃ a, (s.arrange l)[(l.map score).countP (· < x)]? = some a ∧ score a = x := by
  have hperm := (s.perm l).map score
  have hsorted : ((s.arrange l).map score).Pairwise (· ≤ ·) := List.pairwise_map.mpr (s.sorted l)
  have hposition := getElem?_countP_lt hsorted (hperm.mem_iff.mpr hx)
  rw [hperm.countP_eq, List.getElem?_map, Option.map_eq_some_iff] at hposition
  exact hposition

end Positions

/-! ### Reading through -/

/-- A reader that asks for the pages one after the other, over rows that change: those that are counted
at each request, and those that are read. -/
structure ReadThrough [LE κ] (size : ℕ) (score : α → κ) (counted rows : ℕ → List α) (pages : ℕ → Page α)
    (last : ℕ) : Prop where
  /-- What the requests are answered with, each in some arrangement. -/
  answer : ∀ k ≤ last, ∃ s : Arrangement fun a b => score a ≤ score b,
    paginate size (k + 1) (counted k).length (s.arrange (rows k)) = some (pages k)
  /-- The reader stops at the page without a next one. -/
  next : ∀ k < last, (pages k).hasNext = true
  stop : (pages last).hasNext = false
  /-- No score goes away, between the queries of a request or between two requests. -/
  grows : ∀ k ≤ last, ((counted k).map score).Subperm ((rows k).map score)
  grows_next : ∀ k < last, ((rows k).map score).Subperm ((counted (k + 1)).map score)
  /-- Nothing is added between the queries of the last request. -/
  still : (rows last).length ≤ (counted last).length

section Reading

variable [LinearOrder κ] {size : ℕ} {score : α → κ} {counted rows : ℕ → List α}
  {pages : ℕ → Page α} {last : ℕ}

/-- As long as a score has not been seen, its rows are on pages to come. -/
theorem ReadThrough.position_le (h : ReadThrough size score counted rows pages last) (hsize : 0 < size)
    {x : κ} (hx : x ∈ (counted 0).map score)
    (hunseen : ∀ k ≤ last, ∀ a ∈ (pages k).results, score a ≠ x) :
    ∀ k ≤ last, x ∈ (rows k).map score ∧ size * k ≤ ((rows k).map score).countP (· < x) := by
  intro k
  induction k with
  | zero => exact fun hk => ⟨(h.grows 0 hk).subset hx, by simp⟩
  | succ k ih =>
      intro hk
      obtain ⟨hmem, hposition⟩ := ih (by omega)
      have hgrows := (h.grows_next k hk).trans (h.grows (k + 1) hk)
      refine ⟨hgrows.subset hmem, ?_⟩
      -- The score is not on page `k + 1`, which is full, so it lies beyond it.
      obtain ⟨s, hanswer⟩ := h.answer k (by omega)
      obtain ⟨a, ha, hscore⟩ := getElem?_arrange s hmem
      have hfull := (hasNext_iff hsize (by omega) hanswer).mp (h.next k hk)
      have hbeyond : size * (k + 1) ≤ ((rows k).map score).countP (· < x) := by
        by_contra hnot
        refine hunseen k (by omega) a (mem_results hanswer ha ?_ ?_) hscore
        · rwa [Nat.add_sub_cancel]
        · rw [min_eq_left hfull.le]
          omega
      exact hbeyond.trans (hgrows.countP_le _)

/-- **A reader sees every score that was there at the start.** -/
theorem ReadThrough.exists_seen (h : ReadThrough size score counted rows pages last) (hsize : 0 < size)
    {x : κ} (hx : x ∈ (counted 0).map score) : ∃ k ≤ last, ∃ a ∈ (pages k).results, score a = x := by
  by_contra hnot
  have hunseen : ∀ k ≤ last, ∀ a ∈ (pages k).results, score a ≠ x :=
    fun k hk a ha hscore => hnot ⟨k, hk, a, ha, hscore⟩
  obtain ⟨hmem, hposition⟩ := h.position_le hsize hx hunseen last le_rfl
  obtain ⟨s, hanswer⟩ := h.answer last le_rfl
  obtain ⟨a, ha, hscore⟩ := getElem?_arrange s hmem
  have hend : (counted last).length ≤ size * (last + 1) := by
    by_contra hlt
    have hnext := (hasNext_iff hsize (by omega) hanswer).mpr (by omega)
    rw [h.stop] at hnext
    cases hnext
  have hlt : ((rows last).map score).countP (· < x) < (rows last).length := by
    obtain ⟨hlength, _⟩ := List.getElem?_eq_some_iff.mp ha
    rwa [Arrangement.length_arrange] at hlength
  refine hunseen last le_rfl a (mem_results hanswer ha ?_ ?_) hscore
  · rwa [Nat.add_sub_cancel]
  · rw [min_eq_right hend]
    exact hlt.trans_le h.still

end Reading

/-- One value at the first request, and another one at those after it. -/
def atFirst (a b : α) : ℕ → α
  | 0 => a
  | _ + 1 => b

@[simp] theorem atFirst_zero (a b : α) : atFirst a b 0 = a := rfl

@[simp] theorem atFirst_one (a b : α) : atFirst a b 1 = b := rfl

/-! ### Logs -/

section Logs

variable {σ : Type} {see : σ → Option α} {keep : α → Bool} {log : List σ} {m n : ℕ}

/-- The rows there are after the first steps of a log. -/
def rowsOf (see : σ → Option α) (log : List σ) (n : ℕ) : List α := (log.take n).filterMap see

theorem mem_rowsOf {a : α} (h : a ∈ rowsOf see log n) : ∃ step ∈ log, see step = some a := by
  obtain ⟨step, hstep, ha⟩ := List.mem_filterMap.mp h
  exact ⟨step, List.mem_of_mem_take hstep, ha⟩

/-- A log only ever adds rows. -/
theorem rowsOf_sublist (h : m ≤ n) : (rowsOf see log m).Sublist (rowsOf see log n) :=
  (List.take_sublist_take_left h).filterMap see

theorem scores_rowsOf_subperm (h : m ≤ n) (score : α → κ) :
    (((rowsOf see log m).filter keep).map score).Subperm (((rowsOf see log n).filter keep).map score) :=
  (((rowsOf_sublist h).filter keep).map score).subperm

/-- If none of the steps in between adds a row that is kept, there are no more of these. -/
theorem length_rowsOf_le (h : ∀ a ∈ ((log.take n).drop m).filterMap see, keep a = false) :
    ((rowsOf see log n).filter keep).length ≤ ((rowsOf see log m).filter keep).length := by
  have hsplit : rowsOf see log n =
      ((log.take n).take m).filterMap see ++ ((log.take n).drop m).filterMap see := by
    rw [← List.filterMap_append, List.take_append_drop]
    rfl
  have hnone : (((log.take n).drop m).filterMap see).filter keep = [] := by
    refine List.filter_eq_nil_iff.mpr fun a ha => ?_
    rw [h a ha]
    exact Bool.false_ne_true
  rw [hsplit, List.filter_append, hnone, List.append_nil, List.take_take]
  exact ((rowsOf_sublist (Nat.min_le_left m n)).filter keep).length_le

end Logs

end Pricestream.Library
