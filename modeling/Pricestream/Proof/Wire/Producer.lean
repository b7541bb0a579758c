import Mathlib.Logic.Relation
import Pricestream.Publishers
import Pricestream.Proof.Wire.Events

/-!
# One producer for all threads

Whatever the order in which threads ask for the producer, and however often making one fails, at most
one is made, and every record that is handed over is handed to it. No thread is kept waiting by one
that cannot go on, and each thread's records reach the producer in the order of its quotes.
-/

namespace Pricestream

open Library Python

variable {ι V : Type} [DecidableEq ι] {todo : ι → List (Str × QuoteObject)} {s s' : Publishers ι V}
  {i : ι}

/-! ### The threads and the cell -/

/-- The record of a quote, if it can be encoded. -/
def recordOf? (quote : Str × QuoteObject) : Option Record := (publishQuote quote.1 quote.2).toOption

namespace Publishers

/-- The threads are somewhere in their quotes, and those in a call have a quote to publish. -/
structure Inv (todo : ι → List (Str × QuoteObject)) (s : Publishers ι V) : Prop where
  cell : LazyCell.Reachable s.cell
  busy : ∀ i, s.cell.phase i ≠ .idle → s.todo i ≠ []
  order : ∀ i, ∃ done, todo i = done ++ s.todo i ∧
    ((s.handed i).map Prod.snd).Sublist (done.filterMap recordOf?)

theorem inv_init (todo : ι → List (Str × QuoteObject)) : Inv todo (init todo : Publishers ι V) where
  cell := .init
  busy _ h := absurd rfl h
  order _ := ⟨[], rfl, List.Sublist.refl _⟩

theorem used_step {c c' : LazyCell.State ι V Record} {e : LazyCell.Event V Record}
    (h : LazyCell.Step c i e c') (he : ∀ record, e ≠ .use record) : c'.used = c.used := by
  cases h with
  | use x record hphase => exact absurd rfl (he record)
  | call | found | miss | acquire | refound | build | make | fail | store | release | read | drop => rfl

theorem Inv.stay (h : Inv todo s) {e : LazyCell.Event V Record} {cell : LazyCell.State ι V Record}
    (hcell : LazyCell.Step s.cell i e cell) (he : ∀ record, e ≠ .use record) (hbusy : s.todo i ≠ []) :
    Inv todo { s with cell } where
  cell := h.cell.step hcell
  busy j hj := by
    by_cases hji : j = i
    · exact hji ▸ hbusy
    · exact h.busy j ((LazyCell.stepsLeft_step hcell).2 j hji ▸ hj)
  order j := by
    have hused : cell.used = s.cell.used := used_step hcell he
    simpa only [handed, hused] using h.order j

theorem Inv.next (h : Inv todo s) {e : LazyCell.Event V Record} {cell : LazyCell.State ι V Record}
    {quote : Str × QuoteObject} {rest : List (Str × QuoteObject)} (htodo : s.todo i = quote :: rest)
    (hcell : LazyCell.Step s.cell i e cell) (hidle : cell.phase i = .idle)
    (given : List (Option V × Record)) (hmine : actionsOf i cell.used = s.handed i ++ given)
    (hothers : ∀ j, j ≠ i → actionsOf j cell.used = s.handed j)
    (hgiven : (given.map Prod.snd).Sublist (recordOf? quote).toList) : Inv todo (s.next i cell rest) where
  cell := h.cell.step hcell
  busy j hj := by
    by_cases hji : j = i
    · subst hji
      exact absurd hidle hj
    · have hphase := (LazyCell.stepsLeft_step hcell).2 j hji
      simpa [Publishers.next, hji] using h.busy j (hphase ▸ hj)
  order j := by
    obtain ⟨done, hsplit, hsub⟩ := h.order j
    by_cases hji : j = i
    · subst hji
      refine ⟨done ++ [quote], by simp [hsplit, htodo, Publishers.next], ?_⟩
      have hone : [quote].filterMap recordOf? = (recordOf? quote).toList := by
        cases hquote : recordOf? quote <;> simp [hquote]
      rw [handed, Publishers.next, hmine, List.map_append, List.filterMap_append, hone]
      exact hsub.append hgiven
    · refine ⟨done, by simp [hsplit, hji, Publishers.next], ?_⟩
      rw [handed, Publishers.next, hothers j hji]
      exact hsub

/-- **One step keeps the invariant.** -/
theorem Inv.step (h : Inv todo s) (hstep : Step s s') : Inv todo s' := by
  cases hstep with
  | call i quote rest cell htodo hcell =>
      exact h.stay hcell (by simp) (htodo ▸ List.cons_ne_nil _ _)
  | getProducer i e cell he hcell =>
      refine h.stay hcell ?_ (h.busy i ?_)
      · rintro record rfl
        exact he
      · intro hidle
        cases hcell <;> simp_all [IsInner]
  | refuse i quote rest cell htodo hcell =>
      have hused := used_step hcell (by simp)
      refine h.next htodo hcell ?_ [] ?_ ?_ (List.nil_sublist _)
      · cases hcell
        simp [LazyCell.State.to]
      · rw [hused, List.append_nil, handed]
      · intro j _
        rw [hused, handed]
  | produce i symbol quote rest record cell htodo hrecord hcell =>
      cases hcell with
      | use x record hphase =>
          refine h.next htodo (.use x record hphase) ?_ [(x, record)] ?_ ?_ ?_
          · simp [LazyCell.State.to]
          · simp [actionsOf, handed]
          · intro j hj
            simp [actionsOf, handed, Ne.symm hj]
          · simp [recordOf?, hrecord, Except.toOption]
  | raise i quote rest cell htodo hcell =>
      have hused := used_step hcell (by simp)
      refine h.next htodo hcell ?_ [] ?_ ?_ (List.nil_sublist _)
      · cases hcell
        simp [LazyCell.State.to]
      · rw [hused, List.append_nil, handed]
      · intro j _
        rw [hused, handed]

theorem inv_of_reachable (h : Reachable todo s) : Inv todo s := by
  induction h with
  | refl => exact inv_init todo
  | tail _ hstep ih => exact ih.step hstep

/-! ### Every run ends -/

/-- How many of its own steps a thread is away from the end of its quotes, at most. -/
def left (s : Publishers ι V) (i : ι) : ℕ :=
  match s.cell.phase i with
  | .idle => 9 * (s.todo i).length
  | phase => 9 * ((s.todo i).length - 1) + phase.stepsLeft

theorem left_lt_of_call {c : LazyCell.State ι V Record} {e : LazyCell.Event V Record}
    (he : e = .call ∧ s.todo i ≠ [] ∨ IsInner e) (hcell : LazyCell.Step s.cell i e c) :
    left { s with cell := c } i < left s i := by
  cases hcell with
  | call hphase =>
      have hpos := List.length_pos_iff.mpr (he.resolve_right id).2
      simp only [left, LazyCell.State.to, Function.update_self, hphase, LazyCell.Phase.stepsLeft]
      omega
  | found hphase | miss hphase | acquire hphase | refound hphase | build hphase | make _ hphase
  | store _ hphase | release hphase | read hphase =>
      simp [left, LazyCell.State.to, hphase, LazyCell.Phase.stepsLeft]
  | fail | use | drop => simp [IsInner] at he

theorem left_lt_of_end {c : LazyCell.State ι V Record} {e : LazyCell.Event V Record}
    {quote : Str × QuoteObject} {rest : List (Str × QuoteObject)} (htodo : s.todo i = quote :: rest)
    (he : e ≠ .call ∧ ¬IsInner e) (hcell : LazyCell.Step s.cell i e c) :
    left (s.next i c rest) i < left s i := by
  cases hcell with
  | fail hphase | use _ _ hphase | drop _ hphase =>
      simp [left, next, LazyCell.State.to, hphase, htodo, LazyCell.Phase.stepsLeft]
  | call | found | miss | acquire | refound | build | make | store | release | read =>
      simp [IsInner] at he

/-- **Every step is one that its thread had left, and leaves the other threads alone.** -/
theorem left_step (h : Step s s') : ∃ i, left s' i < left s i ∧ ∀ j, j ≠ i → left s' j = left s j := by
  cases h with
  | call i quote rest cell htodo hcell =>
      refine ⟨i, left_lt_of_call (Or.inl ⟨rfl, htodo ▸ List.cons_ne_nil _ _⟩) hcell, fun j hj => ?_⟩
      simp only [left, (LazyCell.stepsLeft_step hcell).2 j hj]
  | getProducer i e cell he hcell =>
      refine ⟨i, left_lt_of_call (Or.inr he) hcell, fun j hj => ?_⟩
      simp only [left, (LazyCell.stepsLeft_step hcell).2 j hj]
  | refuse i quote rest cell htodo hcell | raise i quote rest cell htodo hcell
  | produce i symbol quote rest record cell htodo hrecord hcell =>
      refine ⟨i, left_lt_of_end htodo (by simp [IsInner]) hcell, fun j hj => ?_⟩
      simp only [left, next, Function.update_of_ne hj, (LazyCell.stepsLeft_step hcell).2 j hj]

/-- With finitely many threads no run goes on for ever. -/
theorem wellFounded_step [Finite ι] :
    WellFounded fun s' s : Publishers ι V => Step s s' := by
  have := Fintype.ofFinite ι
  refine Subrelation.wf (r := InvImage (· < ·) fun s => ∑ i, left s i) ?_
    (InvImage.wf _ wellFounded_lt)
  intro s' s hstep
  obtain ⟨i, hlt, hsame⟩ := left_step hstep
  refine Finset.sum_lt_sum (fun j _ => ?_) ⟨i, Finset.mem_univ i, hlt⟩
  by_cases hj : j = i
  · exact hj ▸ hlt.le
  · exact (hsame j hj).le

theorem Inv.exists_step (h : Inv todo s) {e : LazyCell.Event V Record} {c : LazyCell.State ι V Record}
    (hbusy : s.cell.phase i ≠ .idle) (hcell : LazyCell.Step s.cell i e c) (he : ∀ a, e ≠ .use a) :
    ∃ s', Step s s' := by
  obtain ⟨quote, rest, htodo⟩ := List.exists_cons_of_ne_nil (h.busy i hbusy)
  cases e with
  | call =>
      cases hcell with
      | call hphase => exact absurd hphase hbusy
  | use a => exact absurd rfl (he a)
  | check | acquire | recheck | make _ | store | release | read =>
      exact ⟨_, .getProducer i _ c (by trivial) hcell⟩
  | fail => exact ⟨_, .refuse i quote rest c htodo hcell⟩
  | drop => exact ⟨_, .raise i quote rest c htodo hcell⟩

/-- **Nothing is left to do where no step is possible.** -/
theorem todo_of_final (h : Inv todo s) (hfinal : ∀ s', ¬Step s s') (i : ι) : s.todo i = [] := by
  by_cases hbusy : s.cell.phase i = .idle
  · cases htodo : s.todo i with
    | nil => rfl
    | cons quote rest => exact absurd (.call i quote rest _ htodo (.call hbusy)) (hfinal _)
  · obtain ⟨j, e, c, hj, hcell, he⟩ := LazyCell.not_stuck h.cell hbusy
    obtain ⟨s', hstep⟩ := h.exists_step hj hcell he
    exact absurd hstep (hfinal s')

end Publishers

/-! ### Main result -/

/-- What holds in every state of the threads. -/
structure OneProducer (todo : ι → List (Str × QuoteObject)) (s : Publishers ι V) : Prop where
  one : s.cell.made.length ≤ 1
  same : ∀ i, ∀ given ∈ s.handed i, ∃ v, given.1 = some v ∧ s.cell.made = [v]
  order : ∀ i, ∃ done, todo i = done ++ s.todo i ∧
    ((s.handed i).map Prod.snd).Sublist (done.filterMap recordOf?)
  /-- No run goes on for ever, and one that has ended has published everything. -/
  ends : Acc (fun s' s => Publishers.Step s s') s
  complete : (∀ s', ¬Publishers.Step s s') → ∀ i, s.todo i = []

/-- **All threads hand their records to one producer, each in the order of its quotes, and none of them
waits for ever.** -/
theorem one_producer [Finite ι] (h : Publishers.Reachable todo s) : OneProducer todo s := by
  have hinv := Publishers.inv_of_reachable h
  obtain ⟨hone, -, hused⟩ := LazyCell.one_value hinv.cell
  refine ⟨hone, fun i given hgiven => ?_, hinv.order, Publishers.wellFounded_step.apply s,
    Publishers.todo_of_final hinv⟩
  exact hused (i, given) (mem_actionsOf.mp hgiven)

/-- Two threads find no producer, and one of them makes it and hands over its quote. -/
theorem one_producer_raced :
    ∃ s : Publishers Bool ℕ,
      ((s.handed true).map Prod.fst, s.todo true, s.cell.phase false) = ([some 0], [], .missed) ∧
      OneProducer (fun _ => [(Str.ofString "BTC-USD", tinyQuote)]) s := by
  have hpublish : (publishQuote (Str.ofString "BTC-USD") tinyQuote).toOption.isSome := by decide +kernel
  obtain ⟨record, hrecord⟩ := Option.isSome_iff_exists.mp hpublish
  have h : Publishers.Reachable (fun _ => [(Str.ofString "BTC-USD", tinyQuote)])
      (Publishers.init fun _ => [(Str.ofString "BTC-USD", tinyQuote)] : Publishers Bool ℕ) := .refl
  have h := h.tail (.call false _ _ _ rfl (.call rfl))
  have h := h.tail (.call true _ _ _ rfl (.call rfl))
  have h := h.tail (.getProducer false _ _ (by trivial) (.miss rfl rfl))
  have h := h.tail (.getProducer true _ _ (by trivial) (.miss rfl rfl))
  have h := h.tail (.getProducer true _ _ (by trivial) (.acquire rfl rfl))
  have h := h.tail (.getProducer true _ _ (by trivial) (.build rfl rfl))
  have h := h.tail (.getProducer true _ _ (by trivial) (.make 0 rfl))
  have h := h.tail (.getProducer true _ _ (by trivial) (.store 0 rfl))
  have h := h.tail (.getProducer true _ _ (by trivial) (.release rfl))
  have h := h.tail (.getProducer true _ _ (by trivial) (.read rfl))
  have h := h.tail (.produce true _ _ _ record _ rfl (toOption_eq_some.mp hrecord)
    (.use (some 0) record rfl))
  exact ⟨_, rfl, one_producer h⟩

end Pricestream
