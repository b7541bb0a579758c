import Mathlib.Data.List.Nodup
import Mathlib.Data.List.Basic
import Mathlib.Logic.ExistsUnique

/-!
# Tables with a unique key

A table is the list of its rows in insertion order, together with the proof that no two rows share a
key, so a row set that breaks the constraint cannot be built. Three writes are provided. `insert`
and `save` are the two statements a client sends: an INSERT that fails on a taken key, and an UPDATE
that fails on a missing one. `upsert` is what both do when they succeed, and the only one the theory
is about: everything is read through `get?`, and `get?_upsert` says what a write does to it.

The run lemma `get?_foldl` is what an incremental aggregation needs. Folding a log of writes, each of
which rebuilds one row from the row it replaces, leaves at every key the fold of the writes to that
key alone.
-/

namespace Pricestream.Library

variable {Row Key : Type} [DecidableEq Key]

/-- Replace the row with the same key, or append. -/
def putRow (key : Row → Key) (row : Row) : List Row → List Row
  | [] => [row]
  | head :: rest => if key head = key row then row :: rest else head :: putRow key row rest

section PutRow

variable {key : Row → Key} {row : Row}

theorem putRow_eq_append {rows : List Row} (habsent : ∀ r ∈ rows, key r ≠ key row) :
    putRow key row rows = rows ++ [row] := by
  induction rows with
  | nil => rfl
  | cons head rest ih =>
      have hhead : key head ≠ key row := habsent head List.mem_cons_self
      rw [putRow, if_neg hhead, ih fun r hr => habsent r (List.mem_cons_of_mem _ hr)]
      rfl

theorem putRow_eq_map {rows : List Row} (hunique : (rows.map key).Nodup)
    (hpresent : ∃ r ∈ rows, key r = key row) :
    putRow key row rows = rows.map fun r => if key r = key row then row else r := by
  induction rows with
  | nil => obtain ⟨r, hr, _⟩ := hpresent; exact absurd hr List.not_mem_nil
  | cons head rest ih =>
      rw [List.map_cons, List.nodup_cons] at hunique
      rw [putRow, List.map_cons]
      by_cases hhead : key head = key row
      · have hrest : ∀ r ∈ rest, (if key r = key row then row else r) = id r := by
          intro r hr
          have hne : key r ≠ key row := fun he =>
            hunique.1 (hhead ▸ he ▸ List.mem_map_of_mem hr)
          rw [if_neg hne, id]
        rw [if_pos hhead, if_pos hhead, List.map_congr_left hrest, List.map_id]
      · rw [if_neg hhead, if_neg hhead, ih hunique.2]
        obtain ⟨r, hr, hkey⟩ := hpresent
        rcases List.mem_cons.mp hr with rfl | hr
        · exact absurd hkey hhead
        · exact ⟨r, hr, hkey⟩

theorem map_key_putRow (rows : List Row) :
    (putRow key row rows).map key =
      if key row ∈ rows.map key then rows.map key else rows.map key ++ [key row] := by
  induction rows with
  | nil => rfl
  | cons head rest ih =>
      by_cases hhead : key head = key row
      · simp [putRow, hhead]
      · have hne : key row ≠ key head := fun he => hhead he.symm
        rw [putRow, if_neg hhead, List.map_cons, ih]
        by_cases hrest : key row ∈ rest.map key
        · rw [if_pos hrest, List.map_cons, if_pos (List.mem_cons_of_mem _ hrest)]
        · have habsent : key row ∉ key head :: rest.map key := by
            rw [List.mem_cons, not_or]
            exact ⟨hne, hrest⟩
          rw [if_neg hrest, List.map_cons, if_neg habsent]
          rfl

theorem find?_putRow (rows : List Row) (k : Key) :
    (putRow key row rows).find? (fun r => key r = k) =
      if key row = k then some row else rows.find? fun r => key r = k := by
  induction rows with
  | nil =>
      by_cases hk : key row = k <;> simp [putRow, hk]
  | cons head rest ih =>
      by_cases hhead : key head = key row
      · rw [putRow, if_pos hhead, List.find?_cons, List.find?_cons, hhead]
        by_cases hk : key row = k <;> simp [hk]
      · rw [putRow, if_neg hhead, List.find?_cons, List.find?_cons, ih]
        by_cases hk : key head = k
        · have hne : key row ≠ k := fun he => hhead (hk.trans he.symm)
          simp [hk, hne]
        · simp [hk]

end PutRow

/-- Rows with pairwise distinct keys. -/
structure KeyedTable (key : Row → Key) where
  rows : List Row
  unique : (rows.map key).Nodup

namespace KeyedTable

variable {key : Row → Key}

def empty : KeyedTable key := ⟨[], List.nodup_nil⟩

def get? (t : KeyedTable key) (k : Key) : Option Row := t.rows.find? fun row => key row = k

def upsert (t : KeyedTable key) (row : Row) : KeyedTable key where
  rows := putRow key row t.rows
  unique := by
    rw [map_key_putRow]
    split_ifs with hmem
    · exact t.unique
    · exact List.nodup_append.mpr ⟨t.unique, List.nodup_singleton _, fun a ha b hb he =>
        hmem (List.mem_singleton.mp hb ▸ he ▸ ha)⟩

/-- INSERT: refused when the key is taken. -/
def insert (t : KeyedTable key) (row : Row) : Option (KeyedTable key) :=
  if (t.get? (key row)).isSome then none else some (t.upsert row)

/-- UPDATE: refused when no row has the key. -/
def save (t : KeyedTable key) (row : Row) : Option (KeyedTable key) :=
  if (t.get? (key row)).isSome then some (t.upsert row) else none

/-- INSERT of several rows, ignoring the conflicts. -/
def insertNew (t : KeyedTable key) (rows : List Row) : KeyedTable key :=
  rows.foldl (fun t row => (t.insert row).getD t) t

@[simp] theorem get?_empty (k : Key) : (empty : KeyedTable key).get? k = none := rfl

@[simp] theorem get?_upsert (t : KeyedTable key) (row : Row) (k : Key) :
    (t.upsert row).get? k = if key row = k then some row else t.get? k :=
  find?_putRow t.rows k

theorem key_of_get? {t : KeyedTable key} {k : Key} {row : Row} (h : t.get? k = some row) :
    key row = k := by
  simpa using List.find?_some h

theorem mem_rows_of_get? {t : KeyedTable key} {k : Key} {row : Row} (h : t.get? k = some row) :
    row ∈ t.rows := List.mem_of_find?_eq_some h

theorem get?_of_mem_rows {t : KeyedTable key} {row : Row} (h : row ∈ t.rows) :
    t.get? (key row) = some row := by
  cases hget : t.get? (key row) with
  | none =>
      have hnone := List.find?_eq_none.mp hget row h
      simp at hnone
  | some found =>
      exact congrArg some (List.inj_on_of_nodup_map t.unique (mem_rows_of_get? hget) h
        (key_of_get? hget))

theorem mem_keys_iff {t : KeyedTable key} {k : Key} :
    k ∈ t.rows.map key ↔ (t.get? k).isSome := by
  constructor
  · intro hk
    obtain ⟨row, hrow, rfl⟩ := List.mem_map.mp hk
    rw [get?_of_mem_rows hrow]
    rfl
  · intro hk
    obtain ⟨row, hrow⟩ := Option.isSome_iff_exists.mp hk
    exact List.mem_map.mpr ⟨row, mem_rows_of_get? hrow, key_of_get? hrow⟩

theorem existsUnique_row {t : KeyedTable key} {k : Key} {row : Row} (h : t.get? k = some row) :
    ∃! r, r ∈ t.rows ∧ key r = k := by
  refine ⟨row, ⟨mem_rows_of_get? h, key_of_get? h⟩, fun r hr => ?_⟩
  have hget := get?_of_mem_rows hr.1
  rw [hr.2, h] at hget
  exact (Option.some.inj hget).symm

theorem insert_eq_some {t : KeyedTable key} {row : Row} (h : t.get? (key row) = none) :
    t.insert row = some (t.upsert row) := by
  rw [insert, h]
  rfl

theorem save_eq_some {t : KeyedTable key} {row found : Row} (h : t.get? (key row) = some found) :
    t.save row = some (t.upsert row) := by
  rw [save, h]
  rfl

theorem get?_insertNew (t : KeyedTable key) (rows : List Row) (k : Key) :
    (t.insertNew rows).get? k = (t.get? k).or (rows.find? fun row => key row = k) := by
  induction rows generalizing t with
  | nil => exact (Option.or_none).symm
  | cons row rows ih =>
      have hcons : t.insertNew (row :: rows) = ((t.insert row).getD t).insertNew rows := rfl
      rw [hcons, ih, List.find?_cons]
      by_cases hfree : t.get? (key row) = none
      · rw [insert_eq_some hfree, Option.getD_some, get?_upsert]
        by_cases hk : key row = k
        · subst hk
          simp [hfree]
        · simp [hk]
      · have hrefused : t.insert row = none := if_pos (Option.isSome_iff_ne_none.mpr hfree)
        rw [hrefused, Option.getD_none]
        by_cases hk : key row = k
        · subst hk
          obtain ⟨found, hfound⟩ := Option.ne_none_iff_exists'.mp hfree
          simp [hfound]
        · simp [hk]

theorem insertNew_cons (t : KeyedTable key) (row : Row) (rows : List Row) :
    t.insertNew (row :: rows) = ((t.insert row).getD t).insertNew rows := rfl

theorem getD_insert_of_isSome {t : KeyedTable key} {row : Row} (h : (t.get? (key row)).isSome) :
    (t.insert row).getD t = t := by
  have hrefused : t.insert row = none := if_pos h
  rw [hrefused, Option.getD_none]

/-- Nothing is inserted exactly if every key is taken. -/
theorem insertNew_eq_self_iff {t : KeyedTable key} {rows : List Row} :
    t.insertNew rows = t ↔ ∀ row ∈ rows, (t.get? (key row)).isSome := by
  constructor
  · intro h row hrow
    rw [← h, get?_insertNew, Option.isSome_or, Bool.or_eq_true, List.find?_isSome]
    exact Or.inr ⟨row, hrow, by simp⟩
  · intro h
    induction rows with
    | nil => rfl
    | cons row rows ih =>
        rw [insertNew_cons, getD_insert_of_isSome (h row List.mem_cons_self)]
        exact ih fun r hr => h r (List.mem_cons_of_mem _ hr)

/-- Inserting the same rows again changes nothing. -/
theorem insertNew_insertNew (t : KeyedTable key) (rows : List Row) :
    (t.insertNew rows).insertNew rows = t.insertNew rows := by
  apply insertNew_eq_self_iff.mpr
  intro row hrow
  rw [get?_insertNew, Option.isSome_or, Bool.or_eq_true, List.find?_isSome]
  exact Or.inr ⟨row, hrow, by simp⟩

/-! ### Folding a log of writes -/

variable {X : Type}

/-- Rebuild the row at one key from the row found there. -/
def amend (t : KeyedTable key) (keyOf : X → Key) (rebuild : Option Row → X → Row) (x : X) :
    KeyedTable key := t.upsert (rebuild (t.get? (keyOf x)) x)

/-- **A keyed fold is a fold per key.** -/
theorem get?_foldl {keyOf : X → Key} {rebuild : Option Row → X → Row}
    (hkey : ∀ (t : KeyedTable key) x, key (rebuild (t.get? (keyOf x)) x) = keyOf x)
    (log : List X) (t : KeyedTable key) (k : Key) :
    (log.foldl (fun t x => t.amend keyOf rebuild x) t).get? k =
      (log.filter fun x => keyOf x = k).foldl (fun row x => some (rebuild row x)) (t.get? k) := by
  induction log generalizing t with
  | nil => rfl
  | cons x log ih =>
      rw [List.foldl_cons, ih, amend, get?_upsert, hkey]
      by_cases hk : keyOf x = k
      · rw [if_pos hk, List.filter_cons_of_pos (by simpa using hk), List.foldl_cons, hk]
      · rw [if_neg hk, List.filter_cons_of_neg (by simpa using hk)]

end KeyedTable

end Pricestream.Library
