import Mathlib.Logic.Relation
import Mathlib.Logic.Function.Basic
import Pricestream.Library.KeyedTable

/-!
# Get-or-create under row locks

Concurrent transactions on one table, each of which looks up a key under a row lock, inserts a row
when it finds none and rewrites the row it finds otherwise. The isolation assumed is that of READ
COMMITTED with unique keys. A lookup sees committed rows only and waits while another transaction has
the row locked. An insertion waits while another transaction has inserted the key and not ended, and
fails when a committed row has it; the loser then looks the key up a second time. Locks and uncommitted
rows last until the transaction ends, which it may do at any time by aborting.

Running one transaction alone is `Job.run`. The theorem is that the committed rows are always what
the committed transactions leave when they run one after another in the order of their commits. It
rests on one invariant: a key has at most one holder, so the row a holder has read is still the
committed row when the holder commits.
-/

namespace Pricestream.Library.RowLocks

variable {Row Key ι : Type} [DecidableEq Key] {key : Row → Key}

/-- What one transaction is going to do to the row of one key. -/
structure Job (key : Row → Key) where
  target : Key
  create : Option Row
  amend : Row → Option Row
  key_create : ∀ row, create = some row → key row = target
  key_amend : ∀ row row', key row = target → amend row = some row' → key row' = target

def Job.run (job : Job key) (t : KeyedTable key) : Option (KeyedTable key) :=
  match t.get? job.target with
  | none => job.create.map t.upsert
  | some row => (job.amend row).map t.upsert

def serial (jobs : ι → Job key) (log : List ι) (t : KeyedTable key) : Option (KeyedTable key) :=
  log.foldlM (fun t i => (jobs i).run t) t

/-- How far a transaction has come, with the row it has read or written. -/
inductive Phase (Row : Type) where
  | start
  | missed
  | conflicted
  | locked (row : Row)
  | inserted (row : Row)
  | updated (row : Row)
  | committed (created : Bool)
  | aborted

def Phase.Holds : Phase Row → Prop
  | .locked _ | .inserted _ | .updated _ => True
  | .start | .missed | .conflicted | .committed _ | .aborted => False

def Phase.IsCommitted : Phase Row → Prop
  | .committed _ => True
  | .start | .missed | .conflicted | .locked _ | .inserted _ | .updated _ | .aborted => False

/-- The committed rows, the transactions, and the order in which transactions committed. -/
structure State (Row ι : Type) where
  rows : List Row
  phase : ι → Phase Row
  log : List ι

def HasKey (key : Row → Key) (rows : List Row) (k : Key) : Prop := ∃ row ∈ rows, key row = k

variable [DecidableEq ι] (jobs : ι → Job key)

def State.set (s : State Row ι) (i : ι) (p : Phase Row) : State Row ι :=
  { s with phase := Function.update s.phase i p }

def State.commit (s : State Row ι) (i : ι) (created : Bool) (rows : List Row) : State Row ι where
  rows := rows
  phase := Function.update s.phase i (.committed created)
  log := s.log ++ [i]

@[simp] theorem State.set_phase_self (s : State Row ι) (i : ι) (p : Phase Row) :
    (s.set i p).phase i = p := by
  simp [State.set]

theorem State.set_phase_of_ne (s : State Row ι) {i j : ι} (p : Phase Row) (h : j ≠ i) :
    (s.set i p).phase j = s.phase j := by
  simp [State.set, h]

@[simp] theorem State.commit_phase_self (s : State Row ι) (i : ι) (created : Bool) (rows : List Row) :
    (s.commit i created rows).phase i = .committed created := by
  simp [State.commit]

theorem State.commit_phase_of_ne (s : State Row ι) {i j : ι} (created : Bool) (rows : List Row)
    (h : j ≠ i) : (s.commit i created rows).phase j = s.phase j := by
  simp [State.commit, h]

def Locked (s : State Row ι) (i : ι) (k : Key) : Prop :=
  ∃ j, j ≠ i ∧ (jobs j).target = k ∧
    ((∃ row, s.phase j = .locked row) ∨ ∃ row, s.phase j = .updated row)

def Inserting (s : State Row ι) (i : ι) (k : Key) : Prop :=
  ∃ j, j ≠ i ∧ (jobs j).target = k ∧ ∃ row, s.phase j = .inserted row

/-- One database statement of one transaction. -/
inductive Step : State Row ι → State Row ι → Prop where
  /-- `SELECT … FOR UPDATE` finds the row, the first time or after a conflict. -/
  | select (s : State Row ι) (i : ι) (row : Row)
      (hphase : s.phase i = .start ∨ s.phase i = .conflicted) (hrow : row ∈ s.rows)
      (hkey : key row = (jobs i).target) (hfree : ¬ Locked jobs s i (jobs i).target) :
      Step s (s.set i (.locked row))
  /-- The first lookup finds nothing. -/
  | miss (s : State Row ι) (i : ι) (hphase : s.phase i = .start)
      (habsent : ¬ HasKey key s.rows (jobs i).target) : Step s (s.set i .missed)
  /-- `INSERT` succeeds. -/
  | insert (s : State Row ι) (i : ι) (row : Row) (hphase : s.phase i = .missed)
      (habsent : ¬ HasKey key s.rows (jobs i).target)
      (hfree : ¬ Inserting jobs s i (jobs i).target) (hcreate : (jobs i).create = some row) :
      Step s (s.set i (.inserted row))
  /-- `INSERT` meets a committed row. -/
  | conflict (s : State Row ι) (i : ι) (hphase : s.phase i = .missed)
      (hpresent : HasKey key s.rows (jobs i).target) : Step s (s.set i .conflicted)
  /-- `UPDATE` of the locked row. -/
  | update (s : State Row ι) (i : ι) (row row' : Row) (hphase : s.phase i = .locked row)
      (hamend : (jobs i).amend row = some row') : Step s (s.set i (.updated row'))
  /-- `COMMIT` of an inserted row. -/
  | commitInsert (s : State Row ι) (i : ι) (row : Row) (hphase : s.phase i = .inserted row) :
      Step s (s.commit i true (s.rows ++ [row]))
  /-- `COMMIT` of an updated row. -/
  | commitUpdate (s : State Row ι) (i : ι) (row : Row) (hphase : s.phase i = .updated row) :
      Step s (s.commit i false (s.rows.map fun r => if key r = key row then row else r))
  /-- The transaction is rolled back, at any point before it has ended. -/
  | abort (s : State Row ι) (i : ι) (hcommitted : ¬ (s.phase i).IsCommitted) :
      Step s (s.set i .aborted)

def init (t : KeyedTable key) : State Row ι := ⟨t.rows, fun _ => .start, []⟩

def Reachable (t : KeyedTable key) : State Row ι → Prop := Relation.ReflTransGen (Step jobs) (init t)

/-! ### Waiting -/

/-- `i` cannot go on before `j` ends: it looks up a row `j` has locked, or inserts a key `j` holds. -/
def Waits (s : State Row ι) (i j : ι) : Prop :=
  i ≠ j ∧ (jobs i).target = (jobs j).target ∧
    (((s.phase i = .start ∨ s.phase i = .conflicted) ∧
        ((∃ row, s.phase j = .locked row) ∨ ∃ row, s.phase j = .updated row)) ∨
      (s.phase i = .missed ∧ (s.phase j).Holds))

variable {jobs}

omit [DecidableEq Key] [DecidableEq ι] in
theorem Waits.not_holds {s : State Row ι} {i j : ι} (h : Waits jobs s i j) :
    ¬ (s.phase i).Holds := by
  rcases h.2.2 with ⟨hphase | hphase, _⟩ | ⟨hphase, _⟩ <;> rw [hphase] <;> exact not_false

omit [DecidableEq Key] [DecidableEq ι] in
theorem Waits.holds {s : State Row ι} {i j : ι} (h : Waits jobs s i j) : (s.phase j).Holds := by
  rcases h.2.2 with ⟨_, ⟨row, hphase⟩ | ⟨row, hphase⟩⟩ | ⟨_, hholds⟩
  · rw [hphase]
    exact trivial
  · rw [hphase]
    exact trivial
  · exact hholds

omit [DecidableEq Key] [DecidableEq ι] in
/-- A waiting transaction holds nothing yet, so nobody waits in a circle. -/
theorem not_transGen_waits (s : State Row ι) (i : ι) : ¬ Relation.TransGen (Waits jobs s) i i := by
  intro h
  obtain ⟨j, hlast⟩ := Relation.TransGen.tail'_iff.mp h
  obtain ⟨k, hfirst⟩ := Relation.TransGen.head'_iff.mp h
  exact hfirst.1.not_holds hlast.2.holds

/-! ### One holder to a key -/

def PhaseOk (job : Job key) (rows : List Row) : Phase Row → Prop
  | .locked row => row ∈ rows ∧ key row = job.target
  | .updated row' => ∃ row ∈ rows, key row = job.target ∧ job.amend row = some row'
  | .inserted row => ¬ HasKey key rows job.target ∧ job.create = some row
  | .committed _ => HasKey key rows job.target
  | .start | .missed | .conflicted | .aborted => True

/-- The invariant of a run that began with the table `t₀`. -/
structure Inv (jobs : ι → Job key) (t₀ : KeyedTable key) (s : State Row ι) : Prop where
  serial : ∃ t, serial jobs s.log t₀ = some t ∧ t.rows = s.rows
  exclusive : ∀ i j, (s.phase i).Holds → (s.phase j).Holds → (jobs i).target = (jobs j).target → i = j
  phase : ∀ i, PhaseOk (jobs i) s.rows (s.phase i)
  mem_log : ∀ i, i ∈ s.log ↔ (s.phase i).IsCommitted
  nodup : s.log.Nodup
  creator : ∀ i, s.phase i = .committed true →
    (s.log.filter fun j => (jobs j).target = (jobs i).target).head? = some i

variable {t₀ : KeyedTable key} {s : State Row ι}

omit [DecidableEq ι] in
theorem inv_init (t₀ : KeyedTable key) : Inv jobs t₀ (init t₀) where
  serial := ⟨t₀, rfl, rfl⟩
  exclusive _ _ h := absurd h not_false
  phase _ := trivial
  mem_log i := by simp [init, Phase.IsCommitted]
  nodup := List.nodup_nil
  creator i h := by simp [init] at h

omit [DecidableEq Key] in
/-- A phase speaks of the rows of its own key only. -/
theorem PhaseOk.congr {job : Job key} {rows rows' : List Row} {p : Phase Row}
    (h : PhaseOk job rows p) (hrows : ∀ row, key row = job.target → (row ∈ rows ↔ row ∈ rows')) :
    PhaseOk job rows' p := by
  have hkey : HasKey key rows job.target ↔ HasKey key rows' job.target :=
    exists_congr fun row => by
      constructor
      · rintro ⟨hmem, hk⟩
        exact ⟨(hrows row hk).mp hmem, hk⟩
      · rintro ⟨hmem, hk⟩
        exact ⟨(hrows row hk).mpr hmem, hk⟩
  cases p with
  | locked row => exact ⟨(hrows row h.2).mp h.1, h.2⟩
  | updated row' =>
      obtain ⟨row, hmem, hk, hamend⟩ := h
      exact ⟨row, (hrows row hk).mp hmem, hk, hamend⟩
  | inserted row => exact ⟨fun hhas => h.1 (hkey.mpr hhas), h.2⟩
  | committed created => exact hkey.mp h
  | start | missed | conflicted | aborted => trivial

theorem Inv.set (h : Inv jobs t₀ s) {i : ι} {p : Phase Row} (hold : ¬ (s.phase i).IsCommitted)
    (hnew : ¬ p.IsCommitted) (hok : PhaseOk (jobs i) s.rows p)
    (hexclusive : p.Holds → ∀ j, j ≠ i → (jobs j).target = (jobs i).target → ¬ (s.phase j).Holds) :
    Inv jobs t₀ (s.set i p) where
  serial := h.serial
  exclusive j k hj hk htarget := by
    by_contra hne
    by_cases hji : j = i
    · subst hji
      have hkj : k ≠ j := fun he => hne he.symm
      rw [State.set_phase_self] at hj
      rw [State.set_phase_of_ne s p hkj] at hk
      exact hexclusive hj k hkj htarget.symm hk
    · rw [State.set_phase_of_ne s p hji] at hj
      by_cases hki : k = i
      · subst hki
        rw [State.set_phase_self] at hk
        exact hexclusive hk j hji htarget hj
      · rw [State.set_phase_of_ne s p hki] at hk
        exact hne (h.exclusive j k hj hk htarget)
  phase j := by
    by_cases hji : j = i
    · subst hji
      rw [State.set_phase_self]
      exact hok
    · rw [State.set_phase_of_ne s p hji]
      exact h.phase j
  mem_log j := by
    by_cases hji : j = i
    · subst hji
      rw [State.set_phase_self]
      exact iff_of_false (fun hmem => hold ((h.mem_log j).mp hmem)) hnew
    · rw [State.set_phase_of_ne s p hji]
      exact h.mem_log j
  nodup := h.nodup
  creator j hj := by
    by_cases hji : j = i
    · subst hji
      rw [State.set_phase_self] at hj
      subst hj
      exact absurd trivial hnew
    · rw [State.set_phase_of_ne s p hji] at hj
      exact h.creator j hj

omit [DecidableEq ι] in
theorem Inv.not_holds_of_holds (h : Inv jobs t₀ s) {i : ι} (hi : (s.phase i).Holds) :
    ∀ j, j ≠ i → (jobs j).target = (jobs i).target → ¬ (s.phase j).Holds :=
  fun j hji htarget hj => hji (h.exclusive j i hj hi htarget)

omit [DecidableEq ι] in
theorem Inv.not_holds_of_present (h : Inv jobs t₀ s) {i : ι} {k : Key} (hhas : HasKey key s.rows k)
    (hfree : ¬ Locked jobs s i k) : ∀ j, j ≠ i → (jobs j).target = k → ¬ (s.phase j).Holds := by
  intro j hji htarget hholds
  have hphase := h.phase j
  cases hj : s.phase j with
  | locked row => exact hfree ⟨j, hji, htarget, Or.inl ⟨row, hj⟩⟩
  | updated row => exact hfree ⟨j, hji, htarget, Or.inr ⟨row, hj⟩⟩
  | inserted row =>
      rw [hj] at hphase
      exact hphase.1 (htarget ▸ hhas)
  | start | missed | conflicted | committed _ | aborted =>
      rw [hj] at hholds
      exact hholds

omit [DecidableEq ι] in
theorem Inv.not_holds_of_absent (h : Inv jobs t₀ s) {i : ι} {k : Key} (habsent : ¬ HasKey key s.rows k)
    (hfree : ¬ Inserting jobs s i k) : ∀ j, j ≠ i → (jobs j).target = k → ¬ (s.phase j).Holds := by
  intro j hji htarget hholds
  have hphase := h.phase j
  cases hj : s.phase j with
  | locked row =>
      rw [hj] at hphase
      exact habsent ⟨row, hphase.1, hphase.2.trans htarget⟩
  | updated row' =>
      rw [hj] at hphase
      obtain ⟨row, hmem, hk, _⟩ := hphase
      exact habsent ⟨row, hmem, hk.trans htarget⟩
  | inserted row => exact hfree ⟨j, hji, htarget, row, hj⟩
  | start | missed | conflicted | committed _ | aborted =>
      rw [hj] at hholds
      exact hholds

/-! ### Commits -/

/-- A commit rewrites the row of its own key, after which the key is there. -/
structure Rewrites (key : Row → Key) (k : Key) (rows rows' : List Row) : Prop where
  others : ∀ row, key row ≠ k → (row ∈ rows ↔ row ∈ rows')
  present : HasKey key rows' k

omit [DecidableEq Key] [DecidableEq ι] in
/-- What the other transactions know survives, since the committing one was the only holder. -/
theorem PhaseOk.rewrite {job : Job key} {k : Key} {rows rows' : List Row} {p : Phase Row}
    (h : PhaseOk job rows p) (hrows : Rewrites key k rows rows')
    (hfree : job.target = k → ¬ p.Holds) : PhaseOk job rows' p := by
  by_cases hk : job.target = k
  · cases p with
    | locked _ | inserted _ | updated _ => exact absurd trivial (hfree hk)
    | committed created =>
        rw [PhaseOk, hk]
        exact hrows.present
    | start | missed | conflicted | aborted => trivial
  · exact h.congr fun row hrow => hrows.others row (hrow ▸ hk)

theorem Inv.commit (h : Inv jobs t₀ s) {i : ι} {created : Bool} {rows : List Row}
    (hholds : (s.phase i).Holds) (hrows : Rewrites key (jobs i).target s.rows rows)
    (hserial : ∀ t : KeyedTable key, t.rows = s.rows →
      ∃ t', (jobs i).run t = some t' ∧ t'.rows = rows)
    (hcreator : created = true → ¬ HasKey key s.rows (jobs i).target) :
    Inv jobs t₀ (s.commit i created rows) where
  serial := by
    obtain ⟨t, ht, htrows⟩ := h.serial
    obtain ⟨t', ht', htrows'⟩ := hserial t htrows
    refine ⟨t', ?_, htrows'⟩
    rw [RowLocks.serial] at ht
    simp [State.commit, RowLocks.serial, ht, ht']
  exclusive j k hj hk htarget := by
    by_cases hji : j = i
    · subst hji
      rw [State.commit_phase_self] at hj
      exact absurd hj not_false
    · by_cases hki : k = i
      · subst hki
        rw [State.commit_phase_self] at hk
        exact absurd hk not_false
      · rw [State.commit_phase_of_ne s _ _ hji] at hj
        rw [State.commit_phase_of_ne s _ _ hki] at hk
        exact h.exclusive j k hj hk htarget
  phase j := by
    by_cases hji : j = i
    · subst hji
      rw [State.commit_phase_self]
      exact hrows.present
    · rw [State.commit_phase_of_ne s _ _ hji]
      exact (h.phase j).rewrite hrows (h.not_holds_of_holds hholds j hji)
  mem_log j := by
    rw [show (s.commit i created rows).log = s.log ++ [i] from rfl, List.mem_append,
      List.mem_singleton]
    by_cases hji : j = i
    · subst hji
      rw [State.commit_phase_self]
      exact iff_of_true (Or.inr rfl) trivial
    · rw [State.commit_phase_of_ne s _ _ hji, ← h.mem_log j]
      exact or_iff_left hji
  nodup := by
    have hi : i ∉ s.log := by
      intro hmem
      have hcommitted := (h.mem_log i).mp hmem
      cases hphase : s.phase i <;> rw [hphase] at hholds hcommitted <;>
        first | exact hholds | exact hcommitted
    exact h.nodup.append (List.nodup_singleton i) (by simpa using hi)
  creator j hj := by
    rw [show (s.commit i created rows).log = s.log ++ [i] from rfl, List.filter_append]
    by_cases hji : j = i
    · subst hji
      rw [State.commit_phase_self] at hj
      have hnone := hcreator (Phase.committed.inj hj)
      -- a committed transaction on the same key would have left the row there
      have hempty : s.log.filter (fun k => (jobs k).target = (jobs j).target) = [] := by
        refine List.filter_eq_nil_iff.mpr fun k hk htarget => hnone ?_
        have hphase := h.phase k
        have hcommitted := (h.mem_log k).mp hk
        cases hp : s.phase k with
        | committed c =>
            rw [hp] at hphase
            exact of_decide_eq_true htarget ▸ hphase
        | start | missed | conflicted | locked _ | inserted _ | updated _ | aborted =>
            rw [hp] at hcommitted
            exact absurd hcommitted not_false
      simp [hempty]
    · rw [State.commit_phase_of_ne s _ _ hji] at hj
      rw [List.head?_append, h.creator j hj]
      rfl

omit [DecidableEq ι] in
theorem Job.run_of_absent {job : Job key} {t : KeyedTable key} {row : Row}
    (habsent : ¬ HasKey key t.rows job.target) (hcreate : job.create = some row) :
    ∃ t', job.run t = some t' ∧ t'.rows = t.rows ++ [row] := by
  have hget : t.get? job.target = none := by
    refine List.find?_eq_none.mpr fun r hr hkey => habsent ⟨r, hr, ?_⟩
    exact of_decide_eq_true hkey
  refine ⟨t.upsert row, by simp only [Job.run, hget, hcreate, Option.map_some], ?_⟩
  exact putRow_eq_append fun r hr hkey => habsent ⟨r, hr, hkey.trans (job.key_create row hcreate)⟩

omit [DecidableEq ι] in
theorem Job.run_of_present {job : Job key} {t : KeyedTable key} {row row' : Row} (hrow : row ∈ t.rows)
    (hkey : key row = job.target) (hamend : job.amend row = some row') :
    ∃ t', job.run t = some t' ∧
      t'.rows = t.rows.map fun r => if key r = key row' then row' else r := by
  have hget : t.get? job.target = some row := hkey ▸ KeyedTable.get?_of_mem_rows hrow
  refine ⟨t.upsert row', by simp only [Job.run, hget, hamend, Option.map_some], ?_⟩
  exact putRow_eq_map t.unique ⟨row, hrow, hkey.trans (job.key_amend row row' hkey hamend).symm⟩

omit [DecidableEq Key] in
theorem rewrites_append {k : Key} {rows : List Row} {row : Row} (hkey : key row = k) :
    Rewrites key k rows (rows ++ [row]) where
  others r hr := by
    have hne : r ≠ row := fun he => hr (he ▸ hkey)
    simp [hne]
  present := ⟨row, by simp, hkey⟩

theorem rewrites_map {k : Key} {rows : List Row} {row : Row} (hkey : key row = k)
    (hpresent : HasKey key rows k) :
    Rewrites key k rows (rows.map fun r => if key r = key row then row else r) where
  others r hr := by
    rw [List.mem_map]
    constructor
    · intro hmem
      have hne : key r ≠ key row := fun he => hr (he.trans hkey)
      exact ⟨r, hmem, if_neg hne⟩
    · rintro ⟨q, hq, rfl⟩
      split_ifs at hr ⊢ with hqkey
      · exact absurd hkey hr
      · exact hq
  present := by
    obtain ⟨q, hq, hqkey⟩ := hpresent
    exact ⟨row, List.mem_map.mpr ⟨q, hq, if_pos (hqkey.trans hkey.symm)⟩, hkey⟩

/-- **One statement keeps the invariant.** -/
theorem Inv.step (h : Inv jobs t₀ s) {s' : State Row ι} (hstep : Step jobs s s') : Inv jobs t₀ s' := by
  cases hstep with
  | select i row hphase hrow hkey hfree =>
      have hold : ¬ (s.phase i).IsCommitted := by
        rcases hphase with hphase | hphase <;> rw [hphase] <;> exact not_false
      exact h.set hold not_false ⟨hrow, hkey⟩
        fun _ => h.not_holds_of_present ⟨row, hrow, hkey⟩ hfree
  | miss i hphase habsent =>
      exact h.set (by rw [hphase]; exact not_false) not_false trivial (fun hholds => absurd hholds not_false)
  | insert i row hphase habsent hfree hcreate =>
      exact h.set (by rw [hphase]; exact not_false) not_false ⟨habsent, hcreate⟩
        fun _ => h.not_holds_of_absent habsent hfree
  | conflict i hphase hpresent =>
      exact h.set (by rw [hphase]; exact not_false) not_false trivial (fun hholds => absurd hholds not_false)
  | update i row row' hphase hamend =>
      have hok := h.phase i
      rw [hphase] at hok
      exact h.set (by rw [hphase]; exact not_false) not_false ⟨row, hok.1, hok.2, hamend⟩
        fun _ => h.not_holds_of_holds (by rw [hphase]; trivial)
  | commitInsert i row hphase =>
      have hok := h.phase i
      rw [hphase] at hok
      obtain ⟨habsent, hcreate⟩ := hok
      refine h.commit (by rw [hphase]; trivial) (rewrites_append ((jobs i).key_create row hcreate)) ?_
        (fun _ => habsent)
      intro t ht
      rw [← ht] at habsent ⊢
      exact Job.run_of_absent habsent hcreate
  | commitUpdate i row' hphase =>
      have hok := h.phase i
      rw [hphase] at hok
      obtain ⟨row, hrow, hkey, hamend⟩ := hok
      refine h.commit (by rw [hphase]; trivial)
        (rewrites_map ((jobs i).key_amend row row' hkey hamend) ⟨row, hrow, hkey⟩) ?_
        (fun he => absurd he (by simp))
      intro t ht
      rw [← ht] at hrow ⊢
      exact Job.run_of_present hrow hkey hamend
  | abort i hcommitted =>
      exact h.set hcommitted not_false trivial (fun hholds => absurd hholds not_false)

/-- **Every interleaving keeps the invariant.** -/
theorem inv_of_reachable (h : Reachable jobs t₀ s) : Inv jobs t₀ s := by
  induction h with
  | refl => exact inv_init t₀
  | tail _ hstep ih => exact ih.step hstep

/-- **Serialisability.** The committed rows are what the committed transactions leave one after
another, each of them exactly once. -/
theorem serializable (h : Reachable jobs t₀ s) :
    ∃ t, serial jobs s.log t₀ = some t ∧ t.rows = s.rows ∧ s.log.Nodup ∧
      ∀ i, i ∈ s.log ↔ (s.phase i).IsCommitted := by
  have hinv := inv_of_reachable h
  obtain ⟨t, ht, hrows⟩ := hinv.serial
  exact ⟨t, ht, hrows, hinv.nodup, hinv.mem_log⟩

end Pricestream.Library.RowLocks
