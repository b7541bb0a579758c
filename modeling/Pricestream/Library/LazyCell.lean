import Mathlib.Logic.Function.Basic
import Mathlib.Data.List.Basic

/-!
# A cell that is filled once

Threads ask for a value that the first of them has to make. A thread reads the cell, and if it is empty
it takes a lock, reads the cell again, makes a value if there is still none, stores it, and releases
the lock; what it returns it reads from the cell. Making a value may fail, which releases the lock and
leaves the cell empty. Each access to the cell or the lock is a step of its own, and the steps of the
threads come in any order.

The lock is there for the second reading: between it and the store nobody else is inside. So at most
one value is ever made, and that is the one every call returns.
-/

namespace Pricestream.Library.LazyCell

variable {ι V α : Type}

/-- How far a thread has come with its call. -/
inductive Phase (V : Type) where
  | idle
  | called
  | missed
  | inside
  | building
  | built (v : V)
  | leaving
  | reading
  | returned (x : Option V)
  deriving DecidableEq

/-- The cell, who has the lock, the threads, the values made so far, and what they were used for. -/
structure State (ι V α : Type) where
  cell : Option V
  lock : Option ι
  phase : ι → Phase V
  made : List V
  used : List (ι × Option V × α)

inductive Event (V α : Type) where
  | call
  | check
  | acquire
  | recheck
  | make (v : V)
  | fail
  | store
  | release
  | read
  | use (a : α)
  | drop

def init : State ι V α := ⟨none, none, fun _ => .idle, [], []⟩

variable [DecidableEq ι]

def State.to (s : State ι V α) (i : ι) (p : Phase V) : State ι V α :=
  { s with phase := Function.update s.phase i p }

/-- One step of one thread. -/
inductive Step (s : State ι V α) (i : ι) : Event V α → State ι V α → Prop where
  | call (hphase : s.phase i = .idle) : Step s i .call (s.to i .called)
  /-- The first reading of the cell. -/
  | found (hphase : s.phase i = .called) (hcell : s.cell.isSome) : Step s i .check (s.to i .reading)
  | miss (hphase : s.phase i = .called) (hcell : s.cell = none) : Step s i .check (s.to i .missed)
  | acquire (hphase : s.phase i = .missed) (hlock : s.lock = none) :
      Step s i .acquire { s.to i .inside with lock := some i }
  /-- The second reading. -/
  | refound (hphase : s.phase i = .inside) (hcell : s.cell.isSome) :
      Step s i .recheck (s.to i .leaving)
  | build (hphase : s.phase i = .inside) (hcell : s.cell = none) : Step s i .recheck (s.to i .building)
  | make (v : V) (hphase : s.phase i = .building) :
      Step s i (.make v) { s.to i (.built v) with made := s.made ++ [v] }
  /-- The exception leaves the locked region. -/
  | fail (hphase : s.phase i = .building) : Step s i .fail { s.to i .idle with lock := none }
  | store (v : V) (hphase : s.phase i = .built v) :
      Step s i .store { s.to i .leaving with cell := some v }
  | release (hphase : s.phase i = .leaving) :
      Step s i .release { s.to i .reading with lock := none }
  /-- The reading of what is returned. -/
  | read (hphase : s.phase i = .reading) : Step s i .read (s.to i (.returned s.cell))
  | use (x : Option V) (a : α) (hphase : s.phase i = .returned x) :
      Step s i (.use a) { s.to i .idle with used := s.used ++ [(i, x, a)] }
  | drop (x : Option V) (hphase : s.phase i = .returned x) : Step s i .drop (s.to i .idle)

inductive Reachable : State ι V α → Prop where
  | init : Reachable init
  | step {s s' : State ι V α} {i : ι} {e : Event V α} (h : Reachable s) (hstep : Step s i e s') :
      Reachable s'

/-! ### One maker -/

/-- What a thread in some phase knows of the lock, the cell and the values made. -/
def PhaseOk (i : ι) (cell : Option V) (lock : Option ι) (made : List V) : Phase V → Prop
  | .idle | .called | .missed => lock ≠ some i
  | .inside => lock = some i
  | .building => lock = some i ∧ cell = none ∧ made = []
  | .built v => lock = some i ∧ cell = none ∧ made = [v]
  | .leaving => lock = some i ∧ cell.isSome
  | .reading => lock ≠ some i ∧ cell.isSome
  | .returned x => lock ≠ some i ∧ cell.isSome ∧ x = cell

structure Inv (s : State ι V α) : Prop where
  phase : ∀ i, PhaseOk i s.cell s.lock s.made (s.phase i)
  /-- A full cell has the one value made. -/
  full : ∀ v, s.cell = some v → s.made = [v]
  /-- While it is empty, a value made is with the thread that is about to store it. -/
  empty : s.cell = none → s.made = [] ∨ ∃ i v, s.phase i = .built v
  used : ∀ u ∈ s.used, s.cell.isSome ∧ u.2.1 = s.cell

section Invariant

variable {s s' : State ι V α} {i j : ι}

omit [DecidableEq ι] in
theorem inv_init : Inv (init : State ι V α) where
  phase _ := by simp [init, PhaseOk]
  full _ h := nomatch h
  empty _ := Or.inl rfl
  used _ h := absurd h List.not_mem_nil

omit [DecidableEq ι] in
/-- What another thread does is no concern of a thread outside, if a full cell stays as it is. -/
theorem PhaseOk.other {cell cell' : Option V} {lock lock' : Option ι} {made made' : List V} {p : Phase V}
    (h : PhaseOk j cell lock made p) (hlock : lock ≠ some j) (hlock' : lock' ≠ some j)
    (hcell : cell.isSome → cell' = cell) : PhaseOk j cell' lock' made' p := by
  cases p with
  | idle | called | missed => exact hlock'
  | inside => exact absurd h hlock
  | building | built _ | leaving => exact absurd h.1 hlock
  | reading => exact ⟨hlock', (hcell h.2).symm ▸ h.2⟩
  | returned x => exact ⟨hlock', (hcell h.2.1).symm ▸ h.2.1, h.2.2.trans (hcell h.2.1).symm⟩

/-- A step that changes only the phase of its thread. -/
theorem Inv.to (h : Inv s) {p : Phase V} (hp : PhaseOk i s.cell s.lock s.made p)
    (hbuilt : ∀ v, s.phase i ≠ .built v) : Inv (s.to i p) where
  phase j := by
    by_cases hj : j = i
    · subst hj
      simpa [State.to] using hp
    · simpa [State.to, hj] using h.phase j
  full := h.full
  empty hcell := by
    refine (h.empty hcell).imp_right fun ⟨j, v, hj⟩ => ⟨j, v, ?_⟩
    have hne : j ≠ i := by
      rintro rfl
      exact hbuilt v hj
    simpa [State.to, hne] using hj
  used := h.used

/-- A step of the thread that has the lock, or takes it. -/
theorem Inv.locked (h : Inv s) {p : Phase V} {cell : Option V} {lock : Option ι} {made : List V}
    (hlock : ∀ j, j ≠ i → s.lock ≠ some j) (hlock' : ∀ j, j ≠ i → lock ≠ some j)
    (hp : PhaseOk i cell lock made p) (hcell : s.cell.isSome → cell = s.cell)
    (hfull : ∀ v, cell = some v → made = [v])
    (hempty : cell = none → made = [] ∨ ∃ v, p = .built v) :
    Inv { s.to i p with cell, lock, made } where
  phase j := by
    by_cases hj : j = i
    · subst hj
      simpa [State.to] using hp
    · have hother : PhaseOk j cell lock made (s.phase j) :=
        (h.phase j).other (hlock j hj) (hlock' j hj) hcell
      simpa [State.to, hj] using hother
  full := hfull
  empty hnone := by
    refine (hempty hnone).imp_right fun ⟨v, hv⟩ => ⟨i, v, ?_⟩
    simp [State.to, hv]
  used u hu := by
    obtain ⟨hsome, heq⟩ := h.used u hu
    exact ⟨(hcell hsome).symm ▸ hsome, heq.trans (hcell hsome).symm⟩

/-- **One step keeps the invariant.** -/
theorem Inv.step (h : Inv s) {e : Event V α} (hstep : Step s i e s') : Inv s' := by
  have hi := h.phase i
  have hholder : s.lock = some i → ∀ j, j ≠ i → s.lock ≠ some j := by
    intro hlock j hj hlock'
    exact hj (Option.some.inj (hlock'.symm.trans hlock))
  cases hstep with
  | call hphase =>
      rw [hphase] at hi
      exact h.to hi (by simp [hphase])
  | found hphase hcell =>
      rw [hphase] at hi
      exact h.to ⟨hi, hcell⟩ (by simp [hphase])
  | miss hphase hcell =>
      rw [hphase] at hi
      exact h.to hi (by simp [hphase])
  | acquire hphase hlock =>
      refine h.locked (by simp [hlock]) (fun j hj heq => hj (Option.some.inj heq).symm) rfl (fun _ => rfl)
        h.full fun hnone => ?_
      -- Nobody has the lock, so nobody has made a value that is not stored.
      rcases h.empty hnone with hmade | ⟨j, v, hj⟩
      · exact Or.inl hmade
      · have hok := h.phase j
        rw [hj, PhaseOk, hlock] at hok
        cases hok.1
  | refound hphase hcell =>
      rw [hphase] at hi
      exact h.to ⟨hi, hcell⟩ (by simp [hphase])
  | build hphase hcell =>
      rw [hphase] at hi
      refine h.to ⟨hi, hcell, ?_⟩ (by simp [hphase])
      rcases h.empty hcell with hmade | ⟨j, v, hj⟩
      · exact hmade
      · have hok := h.phase j
        rw [hj] at hok
        obtain rfl : i = j := Option.some.inj (hi.symm.trans hok.1)
        rw [hphase] at hj
        cases hj
  | make v hphase =>
      rw [hphase] at hi
      obtain ⟨hlock, hcell, hmade⟩ := hi
      refine h.locked (hholder hlock) (hholder hlock) ⟨hlock, hcell, by rw [hmade]; rfl⟩ (fun _ => rfl) ?_
        fun _ => Or.inr ⟨v, rfl⟩
      intro w hw
      cases hcell.symm.trans hw
  | fail hphase =>
      rw [hphase] at hi
      obtain ⟨hlock, hcell, hmade⟩ := hi
      exact h.locked (hholder hlock) (fun _ _ => Option.some_ne_none _ |>.symm) (by simp [PhaseOk])
        (fun _ => rfl) h.full fun _ => Or.inl hmade
  | store v hphase =>
      rw [hphase] at hi
      obtain ⟨hlock, hcell, hmade⟩ := hi
      refine h.locked (hholder hlock) (hholder hlock) ⟨hlock, rfl⟩ (by simp [hcell]) ?_ (by simp)
      intro w hw
      exact hmade.trans (congrArg (fun v => [v]) (Option.some.inj hw))
  | release hphase =>
      rw [hphase] at hi
      obtain ⟨hlock, hcell⟩ := hi
      refine h.locked (hholder hlock) (fun _ _ => Option.some_ne_none _ |>.symm) ⟨by simp, hcell⟩
        (fun _ => rfl) h.full fun hnone => ?_
      have hempty : s.cell = none := hnone
      rw [hempty] at hcell
      cases hcell
  | read hphase =>
      rw [hphase] at hi
      exact h.to ⟨hi.1, hi.2, rfl⟩ (by simp [hphase])
  | use x a hphase =>
      rw [hphase] at hi
      have hto := h.to (i := i) (p := .idle) hi.1 (by simp [hphase])
      refine ⟨hto.phase, hto.full, hto.empty, fun u hu => ?_⟩
      rcases List.mem_append.mp hu with hu | hu
      · exact h.used u hu
      · rw [List.mem_singleton.mp hu]
        exact ⟨hi.2.1, hi.2.2⟩
  | drop x hphase =>
      rw [hphase] at hi
      exact h.to hi.1 (by simp [hphase])

theorem inv_of_reachable (h : Reachable s) : Inv s := by
  induction h with
  | init => exact inv_init
  | step _ hstep ih => exact ih.step hstep

/-- **At most one value is made, and it is what every call returns and every use is of.** -/
theorem one_value (h : Reachable s) :
    s.made.length ≤ 1 ∧
    (∀ i x, s.phase i = .returned x → ∃ v, x = some v ∧ s.made = [v]) ∧
    ∀ u ∈ s.used, ∃ v, u.2.1 = some v ∧ s.made = [v] := by
  have hinv := inv_of_reachable h
  have hsome : s.cell.isSome → ∃ v, s.cell = some v ∧ s.made = [v] := fun hcell =>
    (Option.isSome_iff_exists.mp hcell).imp fun v hv => ⟨hv, hinv.full v hv⟩
  refine ⟨?_, fun i x hx => ?_, fun u hu => ?_⟩
  · cases hcell : s.cell with
    | some v => simp [hinv.full v hcell]
    | none =>
        rcases hinv.empty hcell with hmade | ⟨i, v, hi⟩
        · simp [hmade]
        · have hok := hinv.phase i
          rw [hi] at hok
          simp [hok.2.2]
  · have hok := hinv.phase i
    rw [hx] at hok
    rw [hok.2.2]
    exact hsome hok.2.1
  · obtain ⟨hcell, heq⟩ := hinv.used u hu
    rw [heq]
    exact hsome hcell

/-! ### Nobody waits for ever -/

/-- How many of its own steps a thread is away from the end of its call, at most. -/
def Phase.stepsLeft : Phase V → ℕ
  | .idle => 0
  | .returned _ => 1
  | .reading => 2
  | .leaving => 3
  | .built _ => 4
  | .building => 5
  | .inside => 6
  | .missed => 7
  | .called => 8

/-- A step brings its thread closer to the end, unless it starts a call, and leaves the others alone. -/
theorem stepsLeft_step {e : Event V α} (hstep : Step s i e s') :
    (s.phase i = .idle ∨ (s'.phase i).stepsLeft < (s.phase i).stepsLeft) ∧
      ∀ j, j ≠ i → s'.phase j = s.phase j := by
  cases hstep with
  | call hphase => exact ⟨Or.inl hphase, fun j hj => by simp [State.to, hj]⟩
  | found hphase _ | miss hphase _ | acquire hphase _ | refound hphase _ | build hphase _
  | make _ hphase | fail hphase | store _ hphase | release hphase | read hphase | use _ _ hphase
  | drop _ hphase =>
      refine ⟨Or.inr ?_, fun j hj => by simp [State.to, hj]⟩
      simp [State.to, hphase, Phase.stepsLeft]

/-- Unless another thread has the lock, a thread in a call can go on. -/
theorem exists_step_of_free (h : Inv s) (hfree : s.lock = none ∨ s.lock = some i)
    (hbusy : s.phase i ≠ .idle) : ∃ e s', Step (α := α) s i e s' ∧ ∀ a, e ≠ .use a := by
  have hi := h.phase i
  cases hphase : s.phase i with
  | idle => exact absurd hphase hbusy
  | called =>
      cases hcell : s.cell with
      | none => exact ⟨_, _, .miss hphase hcell, by simp⟩
      | some v => exact ⟨_, _, .found hphase (hcell ▸ rfl), by simp⟩
  | missed =>
      rw [hphase] at hi
      exact ⟨_, _, .acquire hphase (hfree.resolve_right hi), by simp⟩
  | inside =>
      cases hcell : s.cell with
      | none => exact ⟨_, _, .build hphase hcell, by simp⟩
      | some v => exact ⟨_, _, .refound hphase (hcell ▸ rfl), by simp⟩
  | building => exact ⟨_, _, .fail hphase, by simp⟩
  | built v => exact ⟨_, _, .store v hphase, by simp⟩
  | leaving => exact ⟨_, _, .release hphase, by simp⟩
  | reading => exact ⟨_, _, .read hphase, by simp⟩
  | returned x => exact ⟨_, _, .drop x hphase, by simp⟩

omit [DecidableEq ι] in
/-- A thread that has the lock is in a call. -/
theorem Inv.phase_ne_idle (h : Inv s) (hlock : s.lock = some i) : s.phase i ≠ .idle := by
  intro hphase
  have hi := h.phase i
  rw [hphase] at hi
  exact hi hlock

/-- **While a call is going on, some call can go on.** -/
theorem not_stuck (h : Reachable s) (hbusy : s.phase i ≠ .idle) :
    ∃ j e s', s.phase j ≠ .idle ∧ Step s j e s' ∧ ∀ a, e ≠ .use a := by
  have hinv := inv_of_reachable h
  cases hlock : s.lock with
  | none =>
      obtain ⟨e, s', hstep, he⟩ := exists_step_of_free hinv (Or.inl hlock) hbusy
      exact ⟨i, e, s', hbusy, hstep, he⟩
  | some j =>
      have hj := hinv.phase_ne_idle hlock
      obtain ⟨e, s', hstep, he⟩ := exists_step_of_free hinv (Or.inr hlock) hj
      exact ⟨j, e, s', hj, hstep, he⟩

end Invariant

end Pricestream.Library.LazyCell
