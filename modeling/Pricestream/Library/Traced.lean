import Mathlib.Data.List.Basic

/-!
# Programs that act and may raise

The meaning of such a program is what it did, in order, and how it ended: with a value, or with an
exception. An exception does not undo what was done before it. Programs are composed by the monad and
by `loop`, which runs a turn for each item of a list and carries an accumulator.

The rules answer three questions about a composite from its parts: which value it returns, whether it
raises, and what an observer sees of it. Two programs look the same to an observer if they end the
same way and the observer picks the same observations out of their traces.
-/

namespace Pricestream.Library

/-- What a program did, and how it ended. -/
structure Traced (ε ω α : Type) where
  trace : List ω
  result : Except ε α

namespace Traced

variable {ε ω α β γ : Type}

instance : Monad (Traced ε ω) where
  pure a := ⟨[], .ok a⟩
  bind x f :=
    match x.result with
    | .ok a => ⟨x.trace ++ (f a).trace, (f a).result⟩
    | .error e => ⟨x.trace, .error e⟩

def emit (w : ω) : Traced ε ω Unit := ⟨[w], .ok ()⟩

def raise (e : ε) : Traced ε ω α := ⟨[], .error e⟩

def ofExcept (x : Except ε α) : Traced ε ω α := ⟨[], x⟩

/-- Run a turn for each item, with an accumulator. -/
def loop (turn : α → β → Traced ε ω α) (a : α) : List β → Traced ε ω α
  | [] => pure a
  | b :: rest => do loop turn (← turn a b) rest

/-! ### How a program ends -/

def Returns (x : Traced ε ω α) (a : α) : Prop := x.result = .ok a

def Raises (x : Traced ε ω α) : Prop := ∃ e, x.result = .error e

theorem not_raises_iff {x : Traced ε ω α} : ¬ x.Raises ↔ ∃ a, x.Returns a := by
  unfold Raises Returns
  cases x.result <;> simp

theorem returns_pure (a : α) : (pure a : Traced ε ω α).Returns a := rfl

theorem returns_emit (w : ω) : (emit w : Traced ε ω Unit).Returns () := rfl

theorem returns_ofExcept {x : Except ε α} {a : α} (h : x = .ok a) :
    (ofExcept x : Traced ε ω α).Returns a := h

theorem raises_ofExcept {x : Except ε α} (h : ¬ ∃ a, x = .ok a) :
    (ofExcept x : Traced ε ω α).Raises := by
  by_contra hnot
  exact h (not_raises_iff.mp hnot)

theorem raises_raise (e : ε) : (raise e : Traced ε ω α).Raises := ⟨e, rfl⟩

theorem returns_bind {x : Traced ε ω α} {f : α → Traced ε ω β} {b : β} :
    (x >>= f).Returns b ↔ ∃ a, x.Returns a ∧ (f a).Returns b := by
  obtain ⟨trace, result⟩ := x
  cases result with
  | error e => simp [Bind.bind, Returns]
  | ok a => simp [Bind.bind, Returns]

theorem Returns.bind {x : Traced ε ω α} {f : α → Traced ε ω β} {a : α} {b : β} (hx : x.Returns a)
    (hf : (f a).Returns b) : (x >>= f).Returns b := returns_bind.mpr ⟨a, hx, hf⟩

theorem Raises.bind {x : Traced ε ω α} (hx : x.Raises) (f : α → Traced ε ω β) : (x >>= f).Raises := by
  obtain ⟨e, he⟩ := hx
  exact ⟨e, by simp only [Bind.bind, he]⟩

theorem Returns.bind_raises {x : Traced ε ω α} {f : α → Traced ε ω β} {a : α} (hx : x.Returns a)
    (hf : (f a).Raises) : (x >>= f).Raises := by
  have hbind : x >>= f = ⟨x.trace ++ (f a).trace, (f a).result⟩ := by
    have hresult : x.result = .ok a := hx
    simp only [Bind.bind, hresult]
  rw [hbind]
  exact hf

theorem raises_loop {turn : α → β → Traced ε ω α} {l : List β} (h : ∃ b ∈ l, ∀ a, (turn a b).Raises)
    (a : α) : (loop turn a l).Raises := by
  induction l generalizing a with
  | nil =>
      obtain ⟨b, hb, _⟩ := h
      exact absurd hb List.not_mem_nil
  | cons b rest ih =>
      by_cases hturn : (turn a b).Raises
      · exact hturn.bind _
      · obtain ⟨a', ha'⟩ := not_raises_iff.mp hturn
        obtain ⟨b', hb', hraises⟩ := h
        rcases List.mem_cons.mp hb' with rfl | hb'
        · exact absurd (hraises a) hturn
        · exact ha'.bind_raises (ih ⟨b', hb', hraises⟩ a')

theorem loop_congr {turn turn' : α → β → Traced ε ω α} {l : List β}
    (h : ∀ b ∈ l, ∀ a, turn a b = turn' a b) (a : α) : loop turn a l = loop turn' a l := by
  induction l generalizing a with
  | nil => rfl
  | cons b rest ih =>
      rw [loop, loop, h b List.mem_cons_self a]
      congr 1
      funext a'
      exact ih (fun b' hb' => h b' (List.mem_cons_of_mem _ hb')) a'

theorem loop_map {δ : Type} (turn : α → β → Traced ε ω α) (f : δ → β) (l : List δ) (a : α) :
    loop turn a (l.map f) = loop (fun a d => turn a (f d)) a l := by
  induction l generalizing a with
  | nil => rfl
  | cons d rest ih =>
      rw [List.map_cons, loop, loop]
      congr 1
      funext a'
      exact ih a'

/-! ### What a program did -/

/-- The program did exactly this, and returned a value. -/
def Runs (x : Traced ε ω α) (trace : List ω) (a : α) : Prop := x = ⟨trace, .ok a⟩

theorem Runs.returns {x : Traced ε ω α} {trace : List ω} {a : α} (h : x.Runs trace a) :
    x.Returns a := by
  rw [h]
  rfl

theorem Runs.trace_eq {x : Traced ε ω α} {trace : List ω} {a : α} (h : x.Runs trace a) :
    x.trace = trace := by
  rw [h]

theorem runs_pure (a : α) : (pure a : Traced ε ω α).Runs [] a := rfl

theorem runs_emit (w : ω) : (emit w : Traced ε ω Unit).Runs [w] () := rfl

theorem runs_ofExcept {x : Except ε α} {a : α} (h : x = .ok a) :
    (ofExcept x : Traced ε ω α).Runs [] a := by
  rw [h]
  rfl

theorem Runs.bind {x : Traced ε ω α} {f : α → Traced ε ω β} {trace trace' : List ω} {a : α} {b : β}
    (hx : x.Runs trace a) (hf : (f a).Runs trace' b) : (x >>= f).Runs (trace ++ trace') b := by
  rw [Runs] at hx hf
  rw [hx, Runs]
  simp only [Bind.bind, hf]

theorem Runs.bind_nil {x : Traced ε ω α} {f : α → Traced ε ω β} {trace : List ω} {a : α} {b : β}
    (hx : x.Runs trace a) (hf : (f a).Runs [] b) : (x >>= f).Runs trace b := by
  have hrun := hx.bind hf
  rwa [List.append_nil] at hrun

/-- A loop does what its turns do, one after the other. -/
theorem runs_loop {turn : α → β → Traced ε ω α} {did : β → List ω} {next : α → β → α} {l : List β}
    (h : ∀ b ∈ l, ∀ a, (turn a b).Runs (did b) (next a b)) (a : α) :
    (loop turn a l).Runs (l.flatMap did) (l.foldl next a) := by
  induction l generalizing a with
  | nil => exact runs_pure a
  | cons b rest ih =>
      have hturn : (turn a b).Runs (did b) (next a b) := h b List.mem_cons_self a
      exact hturn.bind (ih (fun b' hb' => h b' (List.mem_cons_of_mem _ hb')) _)

theorem mem_trace_bind {x : Traced ε ω α} {f : α → Traced ε ω β} {w : ω} :
    w ∈ (x >>= f).trace ↔ w ∈ x.trace ∨ ∃ a, x.Returns a ∧ w ∈ (f a).trace := by
  obtain ⟨trace, result⟩ := x
  cases result with
  | error e => simp [Bind.bind, Returns]
  | ok a => simp [Bind.bind, Returns]

theorem mem_trace_emit_bind {e w : ω} {f : Unit → Traced ε ω β} :
    w ∈ (emit e >>= f).trace ↔ w = e ∨ w ∈ (f ()).trace := by
  show w ∈ e :: (f ()).trace ↔ _
  exact List.mem_cons

theorem mem_trace_ofExcept_bind {x : Except ε α} {f : α → Traced ε ω β} {w : ω} :
    w ∈ (ofExcept x >>= f).trace ↔ ∃ a, x = .ok a ∧ w ∈ (f a).trace := by
  cases x with
  | error e => simp [Bind.bind, ofExcept]
  | ok a => simp [Bind.bind, ofExcept]

/-- What a loop did, it did in a turn that the earlier turns led up to. -/
theorem mem_trace_loop {turn : α → β → Traced ε ω α} {l : List β} {a : α} {w : ω} :
    w ∈ (loop turn a l).trace ↔ ∃ front b back a', l = front ++ b :: back ∧
      (loop turn a front).Returns a' ∧ w ∈ (turn a' b).trace := by
  induction l generalizing a with
  | nil => simp [loop, pure]
  | cons b rest ih =>
      rw [loop, mem_trace_bind]
      constructor
      · rintro (hw | ⟨a', ha', hw⟩)
        · exact ⟨[], b, rest, a, rfl, returns_pure a, hw⟩
        · obtain ⟨front, b', back, a'', rfl, hfront, hw⟩ := ih.mp hw
          exact ⟨b :: front, b', back, a'', rfl, ha'.bind hfront, hw⟩
      · rintro ⟨front, b', back, a', hl, hfront, hw⟩
        cases front with
        | nil =>
            obtain ⟨rfl, rfl⟩ := List.cons.inj hl
            obtain rfl := Except.ok.inj hfront
            exact Or.inl hw
        | cons b'' front =>
            obtain ⟨rfl, rfl⟩ := List.cons.inj hl
            obtain ⟨a'', hturn, hrest⟩ := returns_bind.mp hfront
            exact Or.inr ⟨a'', hturn, ih.mpr ⟨front, b', back, a', rfl, hrest, hw⟩⟩

/-- Everything the program did, also before it raised, satisfies a predicate. -/
def Only (P : ω → Prop) (x : Traced ε ω α) : Prop := ∀ w ∈ x.trace, P w

variable {P : ω → Prop}

theorem only_pure (a : α) : (pure a : Traced ε ω α).Only P := fun _ hw => absurd hw List.not_mem_nil

theorem only_raise (e : ε) : (raise e : Traced ε ω α).Only P := fun _ hw => absurd hw List.not_mem_nil

theorem only_ofExcept (x : Except ε α) : (ofExcept x : Traced ε ω α).Only P :=
  fun _ hw => absurd hw List.not_mem_nil

theorem only_emit {w : ω} (h : P w) : (emit w : Traced ε ω Unit).Only P := by
  intro w' hw'
  rw [List.mem_singleton.mp hw']
  exact h

theorem Only.bind {x : Traced ε ω α} {f : α → Traced ε ω β} (hx : x.Only P) (hf : ∀ a, (f a).Only P) :
    (x >>= f).Only P := by
  intro w hw
  rcases mem_trace_bind.mp hw with hw | ⟨a, _, hw⟩
  · exact hx w hw
  · exact hf a w hw

theorem only_loop {turn : α → β → Traced ε ω α} {l : List β}
    (h : ∀ b ∈ l, ∀ a, (turn a b).Only P) (a : α) : (loop turn a l).Only P := by
  intro w hw
  obtain ⟨front, b, back, a', rfl, _, hw⟩ := mem_trace_loop.mp hw
  exact h b (List.mem_append_right _ List.mem_cons_self) a' w hw

/-! ### What an observer sees -/

theorem Returns.trace_bind {x : Traced ε ω α} {f : α → Traced ε ω β} {a : α} (hx : x.Returns a) :
    (x >>= f).trace = x.trace ++ (f a).trace := by
  have hresult : x.result = .ok a := hx
  simp only [Bind.bind, hresult]

theorem Raises.trace_bind {x : Traced ε ω α} (hx : x.Raises) (f : α → Traced ε ω β) :
    (x >>= f).trace = x.trace := by
  obtain ⟨e, he⟩ := hx
  simp only [Bind.bind, he]

/-- An observer who sees nothing of what comes next sees the first part. -/
theorem seen_bind_left {see : ω → Option γ} {x : Traced ε ω α} {f : α → Traced ε ω β}
    (h : ∀ a, x.Returns a → ∀ w ∈ (f a).trace, see w = none) :
    (x >>= f).trace.filterMap see = x.trace.filterMap see := by
  by_cases hx : x.Raises
  · rw [hx.trace_bind]
  · obtain ⟨a, ha⟩ := not_raises_iff.mp hx
    rw [ha.trace_bind, List.filterMap_append, List.filterMap_eq_nil_iff.mpr (h a ha), List.append_nil]

/-- The items a loop comes to, when it ends behind the first that is not good. -/
def reached (good : β → Prop) [DecidablePred good] : List β → List β
  | [] => []
  | b :: rest => b :: if good b then reached good rest else []

variable {good : β → Prop} [DecidablePred good]

theorem reached_map {δ : Type} (f : δ → β) (l : List δ) :
    reached good (l.map f) = (reached (fun d => good (f d)) l).map f := by
  induction l with
  | nil => rfl
  | cons d rest ih =>
      rw [List.map_cons, reached, reached, List.map_cons, ih]
      split_ifs <;> rfl

/-- If nothing comes of the item that is not good, only the good ones in front of it count. -/
theorem flatMap_reached {seen : β → List γ} {l : List β} (h : ∀ b, ¬ good b → seen b = []) :
    (reached good l).flatMap seen = (l.takeWhile fun b => good b).flatMap seen := by
  induction l with
  | nil => rfl
  | cons b rest ih =>
      rw [reached, List.takeWhile_cons, List.flatMap_cons]
      by_cases hgood : good b
      · rw [if_pos hgood, ih, if_pos (decide_eq_true hgood), List.flatMap_cons]
      · rw [if_neg hgood, h b hgood, if_neg (by simpa using hgood)]
        rfl

/-- What is seen of a loop is what is seen of the turns it comes to. -/
theorem seen_loop {turn : α → β → Traced ε ω α} {see : ω → Option γ} {seen : β → List γ} {l : List β}
    (hseen : ∀ b ∈ l, ∀ a, (turn a b).trace.filterMap see = seen b)
    (hgood : ∀ b ∈ l, ∀ a, (turn a b).Raises ↔ ¬ good b) (a : α) :
    (loop turn a l).trace.filterMap see = (reached good l).flatMap seen := by
  induction l generalizing a with
  | nil => rfl
  | cons b rest ih =>
      have hfirst : (turn a b).trace.filterMap see = seen b := hseen b List.mem_cons_self a
      rw [loop, reached, List.flatMap_cons]
      by_cases hb : good b
      · obtain ⟨a', ha'⟩ := not_raises_iff.mp fun hraises =>
          (hgood b List.mem_cons_self a).mp hraises hb
        have hrest := ih (fun b' hb' => hseen b' (List.mem_cons_of_mem _ hb'))
          (fun b' hb' => hgood b' (List.mem_cons_of_mem _ hb')) a'
        rw [ha'.trace_bind, List.filterMap_append, hfirst, hrest, if_pos hb]
      · have hraises : (turn a b).Raises := (hgood b List.mem_cons_self a).mpr hb
        rw [hraises.trace_bind, hfirst, if_neg hb, List.flatMap_nil, List.append_nil]

/-- The programs end the same way, after the same observations. -/
structure Alike (see : ω → Option γ) (x y : Traced ε ω α) : Prop where
  result : x.result = y.result
  seen : x.trace.filterMap see = y.trace.filterMap see

variable {see : ω → Option γ}

theorem Alike.refl (x : Traced ε ω α) : Alike see x x := ⟨rfl, rfl⟩

theorem Alike.bind {x y : Traced ε ω α} {f g : α → Traced ε ω β} (hxy : Alike see x y)
    (hfg : ∀ a, x.Returns a → Alike see (f a) (g a)) : Alike see (x >>= f) (y >>= g) := by
  obtain ⟨trace, result⟩ := x
  obtain ⟨trace', result'⟩ := y
  obtain ⟨rfl, hseen⟩ := hxy
  cases result with
  | error e => exact ⟨rfl, hseen⟩
  | ok a =>
      obtain ⟨hresult, hrest⟩ := hfg a rfl
      refine ⟨hresult, ?_⟩
      show (trace ++ (f a).trace).filterMap see = (trace' ++ (g a).trace).filterMap see
      rw [List.filterMap_append, List.filterMap_append, hrest]
      exact congrArg (· ++ _) hseen

theorem Alike.loop {turn turn' : α → β → Traced ε ω α} {l : List β}
    (h : ∀ b ∈ l, ∀ a, Alike see (turn a b) (turn' a b)) (a : α) :
    Alike see (loop turn a l) (loop turn' a l) := by
  induction l generalizing a with
  | nil => exact .refl _
  | cons b rest ih =>
      have hrest := ih fun b' hb' => h b' (List.mem_cons_of_mem _ hb')
      exact (h b List.mem_cons_self a).bind fun a' _ => hrest a'

end Traced

end Pricestream.Library
