import Pricestream.ConsumerGroup
import Pricestream.Proof.Consumer.Hazards
import Pricestream.Proof.Ohlc.Refinement

/-!
# What a message contributes across restarts

A message may be delivered again after a crash, and may be cut short by an exception whose clean-up
commits its offset, so in general it contributes any number of ticks. Two things are true of every
run: a delivery contributes at most one tick to an interval, and the table is the fold of what was
contributed. Beyond that a message is counted exactly once in every run that spares it: the process
is not stopped while the message is handled in part, nor dies after its offset was committed and
before it is handled, nor the other way round. The proof predicts the number of ticks from the
committed offset and the state of the process, and checks the prediction step by step.
-/

namespace Pricestream

open Library Python
open DateTime (Instant)

variable {db : Engine} {env : Env} {log : List (Option Json)}

/-- The ticks a message has contributed to the bars of an interval. -/
def contributed (g : Group db) (offset : ℕ) (interval : Interval) : ℕ :=
  (g.applied.filter fun a => a.offset = offset ∧ a.interval = interval).length

def Applied.hit? (db : Engine) (a : Applied) : Option (Tick db × Interval) :=
  (a.reading.tick? db).map fun t => (t, a.interval)

def ValidAt (db : Engine) (env : Env) (log : List (Option Json)) (offset : ℕ) : Prop :=
  ∃ payload now t, log[offset]? = some (some payload) ∧ tickOf db env ⟨now, payload⟩ = some t

def Consumed (log : List (Option Json)) (g : Group db) : Prop :=
  match g.process with
  | .down => log.length ≤ g.committed
  | .up position work => log.length ≤ position ∧ work = none

/-- The message at an offset is being handled, and an interval is still to be updated. -/
def Pending (offset : ℕ) (interval : Interval) : Option Work → Prop
  | none => False
  | some work => work.offset = offset ∧ interval ∈ work.todo

/-- The message at an offset is spared by an action. A crash must find it unread or all its updates
still to come if its offset is not committed, and handled if it is; an exception must not be its own. -/
def Spares (offset : ℕ) (g : Group db) (a : Action) : Prop :=
  match a, g.process with
  | .crash, .up position work =>
      if offset < g.committed then ∀ interval, ¬ Pending offset interval work
      else position ≤ offset ∨ ∀ interval, Pending offset interval work
  | .raise, .up _ work => ∀ interval, ¬ Pending offset interval work
  | _, _ => True

instance (offset : ℕ) (interval : Interval) (work : Option Work) :
    Decidable (Pending offset interval work) := by
  cases work with
  | none => exact inferInstanceAs (Decidable False)
  | some work => exact inferInstanceAs (Decidable (work.offset = offset ∧ interval ∈ work.todo))

/-- The ticks a spared message has contributed, told from the group's offsets. -/
def predicted (offset : ℕ) (interval : Interval) (committed : ℕ) : Process → ℕ
  | .down => if offset < committed then 1 else 0
  | .up position work => if position ≤ offset ∨ Pending offset interval work then 0 else 1

/-! ### Uninterrupted deliveries -/

/-- The group after a tick was delivered and handled without interruption. -/
def Group.deliver (g : Group db) (position : ℕ) (t : Tick db) : Group db where
  bars := applyTick g.bars t
  committed := g.committed
  process := .up (position + 1) none
  delivered := g.delivered ++ [position]
  applied := g.applied ++ intervals.map fun interval => ⟨position, t.reading, interval⟩

theorem GroupRun.trans {allowed : Group db → Action → Prop} {g₀ g₁ g₂ : Group db}
    (h₁ : GroupRun env log allowed g₀ g₁) (h₂ : GroupRun env log allowed g₁ g₂) :
    GroupRun env log allowed g₀ g₂ := by
  induction h₂ with
  | refl => exact h₁
  | step _ hstep hallowed ih => exact .step ih hstep hallowed

theorem GroupRun.one {allowed : Group db → Action → Prop} {g g' : Group db} {a : Action}
    (hstep : GroupStep env log g a g') (hallowed : allowed g a) : GroupRun env log allowed g g' :=
  .step .refl hstep hallowed

section Deliver

variable {allowed : Group db → Action → Prop}
  (hallowed : ∀ g a, a ≠ .crash → a ≠ .raise → allowed g a)

include hallowed

theorem groupRun_updates (t : Tick db) (position offset : ℕ) (is : List Interval) :
    ∀ g : Group db, g.process = .up position (some ⟨offset, .ok (some t.reading), is⟩) →
      GroupRun env log allowed g
        { g with
          bars := is.foldl (fun bars interval => hitBar bars (t, interval)) g.bars
          process := .up position (some ⟨offset, .ok (some t.reading), []⟩)
          applied := g.applied ++ is.map fun interval => ⟨offset, t.reading, interval⟩ } := by
  induction is with
  | nil =>
      intro g hprocess
      have hsame : g = { g with process := .up position (some ⟨offset, .ok (some t.reading), []⟩) } := by
        rw [← hprocess]
      simp only [List.foldl_nil, List.map_nil, List.append_nil]
      rw [← hsame]
      exact .refl
  | cons interval is ih =>
      intro g hprocess
      have hstep : GroupStep env log g .update _ :=
        .update g position offset t.reading interval is _ hprocess (updateBar_tick t interval g.bars)
      refine (GroupRun.one hstep (hallowed _ _ (by decide) (by decide))).trans ?_
      have hrest := ih { g with
        bars := hitBar g.bars (t, interval)
        process := .up position (some ⟨offset, .ok (some t.reading), is⟩)
        applied := g.applied ++ [⟨offset, t.reading, interval⟩] } rfl
      simpa only [List.map_cons, List.foldl_cons, List.append_assoc, List.singleton_append] using hrest

theorem groupRun_deliver {g : Group db} {position : ℕ} {payload : Json} {now : Instant} {t : Tick db}
    (hprocess : g.process = .up position none) (hmessage : log[position]? = some (some payload))
    (ht : tickOf db env ⟨now, payload⟩ = some t) :
    GroupRun env log allowed g (g.deliver position t) := by
  have hread : readMessage env now (some payload) = .ok (some t.reading) := by
    rw [tickOf] at ht
    split at ht
    · rename_i reading hreading
      rw [Reading.tick?_eq_some ht] at hreading
      exact hreading
    · cases ht
    · cases ht
  have hpoll : GroupStep env log g .poll _ := .poll g position _ now hprocess hmessage
  rw [hread] at hpoll
  refine (GroupRun.one hpoll (hallowed _ _ (by decide) (by decide))).trans ?_
  refine (groupRun_updates hallowed t (position + 1) position intervals _ rfl).trans ?_
  exact .one (.finish _ _ _ rfl (Or.inr ⟨⟨_, rfl⟩, rfl⟩)) (hallowed _ _ (by decide) (by decide))

end Deliver

theorem spares_of_ne {offset : ℕ} (g : Group db) (a : Action) (hcrash : a ≠ .crash)
    (hraise : a ≠ .raise) : Spares offset g a := by
  cases a with
  | crash => exact absurd rfl hcrash
  | raise => exact absurd rfl hraise
  | poll | update | finish | commit | stop | restart => cases hprocess : g.process <;> simp [Spares]

/-- **One message, one call of `handle_event`.** From an idle process the group can take the steps of
the call, to the table it leaves; the process is then idle again, or it is down with the message's
offset committed. -/
theorem exists_groupRun_handleEvent {g : Group db} {position : ℕ} {payload : Json} (now : Instant)
    (hprocess : g.process = .up position none) (hmessage : log[position]? = some (some payload)) :
    ∃ g', GroupRun env log (fun _ a => a ≠ .crash) g g' ∧
      g'.bars = (handleEvent env now payload g.bars).1 ∧
      match (handleEvent env now payload g.bars).2 with
      | none => g'.process = .up (position + 1) none ∧ g'.committed = g.committed
      | some _ => g'.process = .down ∧ g'.committed = position + 1 := by
  have hpoll : GroupStep env log g .poll _ := .poll g position _ now hprocess hmessage
  rcases handleEvent_cases env ⟨now, payload⟩ g.bars with
    ⟨t, ht, hhandle⟩ | ⟨_, hread, hhandle⟩ | ⟨_, _, exc, hhandle⟩
  · refine ⟨g.deliver position t, groupRun_deliver (fun _ _ h _ => h) hprocess hmessage ht, ?_, ?_⟩
    · rw [hhandle]
      rfl
    · rw [hhandle]
      exact ⟨rfl, rfl⟩
  · refine ⟨_, (GroupRun.one hpoll (by decide)).trans
      (.one (.finish _ _ _ rfl (Or.inl hread)) (by decide)), ?_, ?_⟩
    · rw [hhandle]
    · rw [hhandle]
      exact ⟨rfl, rfl⟩
  · refine ⟨_, (GroupRun.one hpoll (by decide)).trans (.one (.raise _ _ _ rfl) (by decide)), ?_, ?_⟩
    · rw [hhandle]
    · rw [hhandle]
      exact ⟨rfl, rfl⟩

/-! ### Well-formed states -/

structure Group.WellFormed (g : Group db) : Prop where
  committed_le : ∀ position work, g.process = .up position work → g.committed ≤ position
  offset_lt : ∀ position w, g.process = .up position (some w) → w.offset < position
  todo_nodup : ∀ position w, g.process = .up position (some w) → w.todo.Nodup

theorem nodup_intervals : intervals.Nodup := by decide

theorem mem_intervals (interval : Interval) : interval ∈ intervals := by
  cases interval <;> decide

theorem wellFormed_init (bars : BarTable db) (start : ℕ) : (Group.init bars start).WellFormed where
  committed_le _ _ h := by cases h
  offset_lt _ _ h := by cases h
  todo_nodup _ _ h := by cases h

theorem Group.WellFormed.of_down {g : Group db} (h : g.process = .down) : g.WellFormed where
  committed_le _ _ hp := by cases h.symm.trans hp
  offset_lt _ _ hp := by cases h.symm.trans hp
  todo_nodup _ _ hp := by cases h.symm.trans hp

theorem Group.WellFormed.of_idle {g : Group db} {position : ℕ} (h : g.process = .up position none)
    (hle : g.committed ≤ position) : g.WellFormed where
  committed_le _ _ hp := (Process.up.inj (h.symm.trans hp)).1 ▸ hle
  offset_lt _ _ hp := by cases h.symm.trans hp
  todo_nodup _ _ hp := by cases h.symm.trans hp

theorem Group.WellFormed.of_busy {g : Group db} {position : ℕ} {w : Work}
    (h : g.process = .up position (some w)) (hle : g.committed ≤ position) (hlt : w.offset < position)
    (hnodup : w.todo.Nodup) : g.WellFormed where
  committed_le _ _ hp := (Process.up.inj (h.symm.trans hp)).1 ▸ hle
  offset_lt _ _ hp := by
    cases h.symm.trans hp
    exact hlt
  todo_nodup _ _ hp := by
    cases h.symm.trans hp
    exact hnodup

theorem Group.WellFormed.step {g g' : Group db} {a : Action} (h : g.WellFormed)
    (hstep : GroupStep env log g a g') : g'.WellFormed := by
  cases hstep with
  | poll position message now hprocess _ =>
      have hle := h.committed_le _ _ hprocess
      exact .of_busy rfl (hle.trans position.le_succ) position.lt_succ_self nodup_intervals
  | update position offset reading interval rest bars hprocess _ =>
      have htodo := h.todo_nodup _ _ hprocess
      exact .of_busy rfl (h.committed_le _ _ hprocess) (h.offset_lt _ _ hprocess :)
        (List.nodup_cons.mp htodo).2
  | finish position work hprocess _ => exact .of_idle rfl (h.committed_le _ _ hprocess)
  | commit position offset work hprocess _ hto =>
      cases work with
      | none => exact .of_idle hprocess hto
      | some w => exact .of_busy hprocess hto (h.offset_lt _ _ hprocess) (h.todo_nodup _ _ hprocess)
  | raise position work _ => exact .of_down rfl
  | stop position _ => exact .of_down rfl
  | crash position work _ => exact .of_down rfl
  | restart hprocess => exact .of_idle rfl le_rfl

theorem GroupRun.wellFormed {allowed : Group db → Action → Prop} {bars : BarTable db} {start : ℕ}
    {g : Group db} (h : GroupRun env log allowed (Group.init bars start) g) : g.WellFormed := by
  induction h with
  | refl => exact wellFormed_init bars start
  | step _ hstep _ ih => exact ih.step hstep

/-! ### What was applied -/

/-- A record of an update is about a message of the log, and the tick it reads as. -/
def Applied.Sound (db : Engine) (env : Env) (log : List (Option Json)) (a : Applied) : Prop :=
  ∃ payload now t, log[a.offset]? = some (some payload) ∧ tickOf db env ⟨now, payload⟩ = some t ∧
    a.hit? db = some (t, a.interval)

/-- The books are straight: what is handled was read from the log, what was applied is sound, and the
table is what it amounts to. -/
structure Group.Booked (env : Env) (log : List (Option Json)) (bars : BarTable db) (g : Group db) :
    Prop where
  read : ∀ position w, g.process = .up position (some w) →
    ∃ message now, log[w.offset]? = some message ∧ w.reading = readMessage env now message
  sound : ∀ a ∈ g.applied, a.Sound db env log
  bars_eq : g.bars = (g.applied.filterMap (Applied.hit? db)).foldl hitBar bars

theorem exists_tick_of_updateBar {reading : Reading} {interval : Interval} {bars bars' : BarTable db}
    (h : updateBar reading.instrument interval reading.ts reading.mid bars = .ok bars') :
    ∃ t, reading.tick? db = some t ∧ bars' = hitBar bars (t, interval) := by
  cases ht : reading.tick? db with
  | none =>
      obtain ⟨e, he⟩ := updateBar_of_not_tick ht interval bars
      cases he.symm.trans h
  | some t =>
      obtain rfl := Reading.tick?_eq_some ht
      exact ⟨t, rfl, (Except.ok.inj ((updateBar_tick t interval bars).symm.trans h)).symm⟩

theorem readMessage_eq_some {now : Instant} {message : Option Json} {reading : Reading}
    (h : readMessage env now message = .ok (some reading)) :
    ∃ payload, message = some payload ∧ readEvent env now payload = .ok (some reading) := by
  cases message with
  | none => cases h
  | some payload => exact ⟨payload, rfl, h⟩

theorem Group.Booked.step {bars : BarTable db} {g g' : Group db} {a : Action} (h : g.Booked env log bars)
    (hstep : GroupStep env log g a g') : g'.Booked env log bars := by
  cases hstep with
  | poll position message now _ hmessage =>
      refine ⟨fun p w hp => ?_, h.sound, h.bars_eq⟩
      cases hp
      exact ⟨message, now, hmessage, rfl⟩
  | update position offset reading interval rest bars' hprocess hupdate =>
      obtain ⟨t, ht, rfl⟩ := exists_tick_of_updateBar hupdate
      have hhit : Applied.hit? db ⟨offset, reading, interval⟩ = some (t, interval) := by
        rw [Applied.hit?, ht]
        rfl
      obtain ⟨message, now, hmessage, hread⟩ := h.read _ _ hprocess
      refine ⟨fun p w hp => ?_, fun a ha => ?_, ?_⟩
      · cases hp
        exact ⟨message, now, hmessage, hread⟩
      · rcases List.mem_append.mp ha with ha | ha
        · exact h.sound a ha
        · obtain rfl := List.mem_singleton.mp ha
          obtain ⟨payload, rfl, hevent⟩ := readMessage_eq_some hread.symm
          exact ⟨payload, now, t, hmessage, by simp only [tickOf, hevent, ht], hhit⟩
      · rw [List.filterMap_append, List.foldl_append, ← h.bars_eq, List.filterMap_cons, hhit]
        rfl
  | finish position work _ _ => exact ⟨(fun _ _ hp => by cases hp), h.sound, h.bars_eq⟩
  | commit position offset work _ _ _ => exact ⟨h.read, h.sound, h.bars_eq⟩
  | raise position work _ => exact ⟨(fun _ _ hp => by cases hp), h.sound, h.bars_eq⟩
  | stop position _ => exact ⟨(fun _ _ hp => by cases hp), h.sound, h.bars_eq⟩
  | crash position work _ => exact ⟨(fun _ _ hp => by cases hp), h.sound, h.bars_eq⟩
  | restart _ => exact ⟨(fun _ _ hp => by cases hp), h.sound, h.bars_eq⟩

theorem GroupRun.booked {allowed : Group db → Action → Prop} {bars : BarTable db} {start : ℕ}
    {g : Group db} (h : GroupRun env log allowed (Group.init bars start) g) :
    g.Booked env log bars := by
  induction h with
  | refl => exact ⟨(fun _ _ hp => by cases hp), fun a ha => absurd ha List.not_mem_nil, rfl⟩
  | step _ hstep _ ih => exact ih.step hstep

theorem exists_readEvent_of_valid {payload : Json} {now : Instant} {t : Tick db}
    (h : tickOf db env ⟨now, payload⟩ = some t) (now' : Instant) :
    ∃ reading, readEvent env now' payload = .ok (some reading) := by
  obtain ⟨fields, instrument, bid, ask, hobj, htruthy, hinst, hprices, hts, _⟩ :=
    tickOf_eq_some_iff.mp h
  obtain ⟨ts, hts'⟩ : ∃ ts, readTs now' (Json.get fields (Str.ofString "ts")) = .ok ts :=
    readTs_eq_ok_iff.mpr (readTs_eq_ok_iff.mp ⟨t.ts, hts⟩)
  exact ⟨_, readEvent_eq_some_iff.mpr ⟨fields, instrument, .finite bid, .finite ask, _, _, ts, hobj,
    htruthy, hinst, hprices, rfl, rfl, hts', rfl⟩⟩

theorem Group.Booked.todo_eq_nil {bars : BarTable db} {g : Group db} (h : g.Booked env log bars)
    {position : ℕ} {w : Work} (hprocess : g.process = .up position (some w))
    (hdone : w.reading = .ok none ∨ (∃ r, w.reading = .ok (some r)) ∧ w.todo = [])
    (hvalid : ValidAt db env log w.offset) : w.todo = [] := by
  rcases hdone with hnone | ⟨_, htodo⟩
  · obtain ⟨message, now, hmessage, hread⟩ := h.read _ _ hprocess
    obtain ⟨payload, _, t, hpayload, ht⟩ := hvalid
    obtain rfl := Option.some.inj (hmessage.symm.trans hpayload)
    obtain ⟨reading, hreading⟩ := exists_readEvent_of_valid ht now
    cases (hnone.symm.trans hread).trans hreading
  · exact htodo

/-! ### At most once a delivery -/

@[simp]
theorem pending_none {offset : ℕ} {interval : Interval} : Pending offset interval none ↔ False :=
  Iff.rfl

@[simp]
theorem pending_some {offset : ℕ} {interval : Interval} {work : Work} :
    Pending offset interval (some work) ↔ work.offset = offset ∧ interval ∈ work.todo := Iff.rfl

theorem contributed_concat (g : Group db) (a : Applied) (offset : ℕ) (interval : Interval) :
    contributed { g with applied := g.applied ++ [a] } offset interval =
      contributed g offset interval + if a.offset = offset ∧ a.interval = interval then 1 else 0 := by
  simp only [contributed, List.filter_append, List.length_append, List.filter_singleton]
  split_ifs with h <;> simp [h]

/-- What is being handled, if it is handled on behalf of an offset and an interval. -/
def Group.work (g : Group db) : Option Work :=
  match g.process with
  | .down => none
  | .up _ work => work

theorem contributed_le_step {g g' : Group db} {a : Action} {offset : ℕ} {interval : Interval}
    (hwf : g.WellFormed) (hstep : GroupStep env log g a g')
    (h : contributed g offset interval + (if Pending offset interval g.work then 1 else 0) ≤
      g.delivered.count offset) :
    contributed g' offset interval + (if Pending offset interval g'.work then 1 else 0) ≤
      g'.delivered.count offset := by
  cases hstep with
  | poll position message now hprocess _ =>
      have hidle : ¬ Pending offset interval g.work := by simp [Group.work, hprocess]
      rw [if_neg hidle] at h
      simp only [List.count_append, List.count_singleton, Group.work, pending_some, mem_intervals,
        and_true, beq_iff_eq]
      exact Nat.add_le_add_right h _
  | update position o reading i rest bars hprocess _ =>
      have hnodup := List.nodup_cons.mp (hwf.todo_nodup _ _ hprocess)
      simp only [Group.work, hprocess, pending_some, List.mem_cons] at h
      have hcount := contributed_concat g ⟨o, reading, i⟩ offset interval
      simp only [contributed] at hcount h ⊢
      rw [hcount]
      simp only [Group.work, pending_some]
      by_cases ho : o = offset
      · by_cases hi : i = interval
        · subst hi
          simp only [ho, hnodup.1] at h ⊢
          simpa using h
        · have hne : interval ≠ i := fun he => hi he.symm
          simpa [ho, hi, hne] using h
      · simpa [ho] using h
  | finish position work hprocess _ => exact (Nat.le_add_right _ _).trans h
  | commit position o work hprocess _ _ => exact h
  | raise position work _ => exact (Nat.le_add_right _ _).trans h
  | stop position _ => exact (Nat.le_add_right _ _).trans h
  | crash position work _ => exact (Nat.le_add_right _ _).trans h
  | restart _ => exact (Nat.le_add_right _ _).trans h

theorem GroupRun.contributed_le {allowed : Group db → Action → Prop} {bars : BarTable db} {start : ℕ}
    {g : Group db} (h : GroupRun env log allowed (Group.init bars start) g) (offset : ℕ)
    (interval : Interval) : contributed g offset interval ≤ g.delivered.count offset := by
  have hpending : contributed g offset interval + (if Pending offset interval g.work then 1 else 0) ≤
      g.delivered.count offset := by
    induction h with
    | refl => exact le_rfl
    | step hrun hstep _ ih => exact contributed_le_step hrun.wellFormed hstep ih
  exact (Nat.le_add_right _ _).trans hpending

/-! ### Exactly once when spared -/

theorem predicted_step {bars : BarTable db} {g g' : Group db} {a : Action} {offset : ℕ}
    {interval : Interval} (hwf : g.WellFormed) (hbooked : g.Booked env log bars)
    (hvalid : ValidAt db env log offset) (hstep : GroupStep env log g a g') (hspares : Spares offset g a)
    (h : contributed g offset interval = predicted offset interval g.committed g.process) :
    contributed g' offset interval = predicted offset interval g'.committed g'.process := by
  cases hstep with
  | poll position message now hprocess _ =>
      -- the message read is pending until its update, and no other is affected
      rw [hprocess] at h
      refine Eq.trans h ?_
      simp only [predicted, pending_none, pending_some, mem_intervals, and_true, or_false]
      split_ifs <;> omega
  | update position o reading i rest bars' hprocess _ =>
      have hlt : o < position := hwf.offset_lt _ _ hprocess
      have hnodup := List.nodup_cons.mp (hwf.todo_nodup _ _ hprocess)
      have hcount := contributed_concat g ⟨o, reading, i⟩ offset interval
      rw [hprocess] at h
      simp only [contributed] at hcount h ⊢
      rw [hcount, h]
      simp only [predicted, pending_some, List.mem_cons]
      by_cases ho : o = offset
      · subst ho
        have hread : ¬ position ≤ o := not_le.mpr hlt
        by_cases hi : i = interval
        · subst hi
          simp [hread, hnodup.1]
        · have hne : interval ≠ i := fun he => hi he.symm
          simp [hread, hi, hne]
      · simp [ho]
  | finish position work hprocess hdone =>
      rw [hprocess] at h
      refine Eq.trans h ?_
      have hnot : ¬ Pending offset interval (some work) := by
        rintro ⟨rfl, hmem⟩
        rw [hbooked.todo_eq_nil hprocess hdone hvalid] at hmem
        exact List.not_mem_nil hmem
      simp only [predicted, hnot, pending_none]
  | commit position o work hprocess _ _ =>
      refine Eq.trans h ?_
      simp only [hprocess, predicted]
  | raise position work hprocess =>
      simp only [Spares, hprocess] at hspares
      rw [hprocess] at h
      refine Eq.trans h ?_
      simp only [predicted, hspares interval, or_false]
      split_ifs <;> omega
  | stop position hprocess =>
      rw [hprocess] at h
      refine Eq.trans h ?_
      simp only [predicted, pending_none, or_false]
      split_ifs <;> omega
  | crash position work hprocess =>
      have hle : g.committed ≤ position := hwf.committed_le _ _ hprocess
      simp only [Spares, hprocess] at hspares
      rw [hprocess] at h
      refine Eq.trans h ?_
      simp only [predicted]
      by_cases hcommitted : offset < g.committed
      · rw [if_pos hcommitted] at hspares ⊢
        have hread : ¬ position ≤ offset := by omega
        exact if_neg (not_or.mpr ⟨hread, hspares interval⟩)
      · rw [if_neg hcommitted] at hspares ⊢
        exact if_pos (hspares.imp_right fun hall => hall interval)
  | restart hprocess =>
      rw [hprocess] at h
      refine Eq.trans h ?_
      simp only [predicted, pending_none, or_false]
      split_ifs <;> omega

theorem GroupRun.contributed_eq {allowed : Group db → Action → Prop} {bars : BarTable db} {start : ℕ}
    {g : Group db} (h : GroupRun env log allowed (Group.init bars start) g) {offset : ℕ}
    (hstart : start ≤ offset) (hvalid : ValidAt db env log offset)
    (hspares : ∀ g a, allowed g a → Spares offset g a) (interval : Interval) :
    contributed g offset interval = predicted offset interval g.committed g.process := by
  induction h with
  | refl => exact (if_neg (not_lt.mpr hstart)).symm
  | step hrun hstep hallowed ih =>
      exact predicted_step hrun.wellFormed hrun.booked hvalid hstep (hspares _ _ hallowed) ih

theorem predicted_of_consumed {g : Group db} {offset : ℕ} {interval : Interval}
    (hvalid : ValidAt db env log offset) (h : Consumed log g) :
    predicted offset interval g.committed g.process = 1 := by
  obtain ⟨payload, _, _, hpayload, _⟩ := hvalid
  have hlt : offset < log.length := (List.getElem?_eq_some_iff.mp hpayload).1
  cases hprocess : g.process with
  | down =>
      simp only [Consumed, hprocess] at h
      exact if_pos (hlt.trans_le h)
  | up position work =>
      simp only [Consumed, hprocess] at h
      obtain ⟨hle, rfl⟩ := h
      exact if_neg (not_or.mpr ⟨not_le.mpr (hlt.trans_le hle), not_false⟩)

/-- **Messages and ticks.** In every run the table is the fold of the updates committed, each of them
an update of the tick its message reads as, and a delivery of a message contributes at most one tick
to an interval. Once the log is consumed, a valid message that the run spares has contributed exactly
one tick to each interval. -/
theorem counted_once_if_spared (db : Engine) (env : Env) (log : List (Option Json))
    (allowed : Group db → Action → Prop) (bars : BarTable db) (start : ℕ) (g : Group db)
    (hrun : GroupRun env log allowed (Group.init bars start) g) :
    (g.bars = (g.applied.filterMap (Applied.hit? db)).foldl hitBar bars ∧
      (∀ a ∈ g.applied, a.Sound db env log) ∧
      ∀ offset interval, contributed g offset interval ≤ g.delivered.count offset) ∧
    ∀ offset, start ≤ offset → ValidAt db env log offset →
      (∀ g a, allowed g a → Spares offset g a) → Consumed log g →
      ∀ interval, contributed g offset interval = 1 := by
  refine ⟨⟨hrun.booked.bars_eq, hrun.booked.sound, hrun.contributed_le⟩, ?_⟩
  intro offset hstart hvalid hspares hconsumed interval
  rw [hrun.contributed_eq hstart hvalid hspares, predicted_of_consumed hvalid hconsumed]

/-! ### A topic with one quote -/

/-- What restarts put at risk. -/
def ExactlyOnce (db : Engine) (env : Env) (log : List (Option Json)) (bars : BarTable db)
    (start : ℕ) : Prop :=
  ∀ g, GroupRun env log (fun _ _ => True) (Group.init bars start) g → Consumed log g →
    ∀ offset, start ≤ offset → ValidAt db env log offset →
      ∀ interval, contributed g offset interval = 1

def oneQuote : List (Option Json) := [some soundQuote.payload]

theorem validAt_oneQuote : ValidAt .postgres btcEnv oneQuote 0 :=
  ⟨soundQuote.payload, soundQuote.now, soundTick, rfl, tickOf_soundQuote⟩

def newGroup : Group .postgres := Group.init KeyedTable.empty 0

def oneGroup : Group .postgres := { newGroup with process := .up 0 none }

theorem groupRun_oneGroup {allowed : Group .postgres → Action → Prop}
    (hallowed : ∀ g a, a ≠ .crash → a ≠ .raise → allowed g a) :
    GroupRun btcEnv oneQuote allowed newGroup oneGroup :=
  .one (.restart _ rfl) (hallowed _ _ (by decide) (by decide))

/-- The process dies before the first update and again behind the commit. -/
theorem exists_spared : ∃ g, GroupRun btcEnv oneQuote (Spares 0) newGroup g ∧
    Consumed oneQuote g ∧ g.delivered = [0, 0] ∧ g.committed = 1 := by
  have hup : GroupRun btcEnv oneQuote (Spares 0) newGroup oneGroup := groupRun_oneGroup spares_of_ne
  have hpoll := hup.step (.poll _ 0 _ 0 rfl rfl) (spares_of_ne _ _ (by decide) (by decide))
  have hcrash := hpoll.step (.crash _ 1 _ rfl) (Or.inr fun interval => ⟨rfl, mem_intervals interval⟩)
  have hagain := hcrash.step (.restart _ rfl) (spares_of_ne _ _ (by decide) (by decide))
  have hhandled := hagain.trans (groupRun_deliver spares_of_ne rfl rfl tickOf_soundQuote)
  have hcommit := hhandled.step (.commit _ 1 1 none rfl (Nat.zero_le 1) le_rfl)
    (spares_of_ne _ _ (by decide) (by decide))
  have hdown := hcommit.step (.crash _ 1 none rfl) (fun _ => not_false)
  exact ⟨_, hdown.step (.restart _ rfl) (spares_of_ne _ _ (by decide) (by decide)), ⟨le_rfl, rfl⟩, rfl, rfl⟩

/-- Delivered twice, the quote is counted once. -/
theorem counted_once_if_spared_oneQuote :
    ∃ g, GroupRun btcEnv oneQuote (Spares 0) newGroup g ∧ g.delivered.count 0 = 2 ∧
      ∀ interval, contributed g 0 interval = 1 := by
  obtain ⟨g, hrun, hconsumed, hdelivered, _⟩ := exists_spared
  have honce := (counted_once_if_spared .postgres btcEnv oneQuote (Spares 0) KeyedTable.empty 0 g
    hrun).2 0 le_rfl validAt_oneQuote (fun _ _ h => h) hconsumed
  exact ⟨g, hrun, by rw [hdelivered]; rfl, honce⟩

theorem exists_lost : ∃ g, GroupRun btcEnv oneQuote (fun _ _ => True) newGroup g ∧
    Consumed oneQuote g ∧ ∀ interval, contributed g 0 interval = 0 := by
  have hup : GroupRun btcEnv oneQuote (fun _ _ => True) newGroup oneGroup :=
    groupRun_oneGroup fun _ _ _ _ => trivial
  have hpoll := hup.step (.poll _ 0 _ 0 rfl rfl) trivial
  have hcommit := hpoll.step (.commit _ 1 1 _ rfl (Nat.zero_le 1) le_rfl) trivial
  have hcrash := hcommit.step (.crash _ 1 _ rfl) trivial
  exact ⟨_, hcrash.step (.restart _ rfl) trivial, ⟨le_rfl, rfl⟩, fun _ => rfl⟩

theorem exists_doubled : ∃ g, GroupRun btcEnv oneQuote (fun _ _ => True) newGroup g ∧
    Consumed oneQuote g ∧ ∀ interval, contributed g 0 interval = 2 := by
  have hup : GroupRun btcEnv oneQuote (fun _ _ => True) newGroup oneGroup :=
    groupRun_oneGroup fun _ _ _ _ => trivial
  have hfirst := hup.trans (groupRun_deliver (fun _ _ _ _ => trivial) rfl rfl tickOf_soundQuote)
  have hcrash := hfirst.step (.crash _ 1 _ rfl) trivial
  have hagain := hcrash.step (.restart _ rfl) trivial
  have hsecond := hagain.trans (groupRun_deliver (fun _ _ _ _ => trivial) rfl rfl tickOf_soundQuote)
  exact ⟨_, hsecond, ⟨le_rfl, rfl⟩, fun interval => by cases interval <;> rfl⟩

/-- **A restart loses the quote or doubles it.** -/
theorem restart_loses_or_doubles :
    (∃ g, GroupRun btcEnv oneQuote (fun _ _ => True) newGroup g ∧ Consumed oneQuote g ∧
      ∀ interval, contributed g 0 interval = 0) ∧
    (∃ g, GroupRun btcEnv oneQuote (fun _ _ => True) newGroup g ∧ Consumed oneQuote g ∧
      ∀ interval, contributed g 0 interval = 2) ∧
    ¬ ExactlyOnce .postgres btcEnv oneQuote KeyedTable.empty 0 := by
  refine ⟨exists_lost, exists_doubled, fun honce => ?_⟩
  obtain ⟨g, hrun, hconsumed, hzero⟩ := exists_lost
  have hone := honce g hrun hconsumed 0 le_rfl validAt_oneQuote .m1
  rw [hzero] at hone
  cases hone

end Pricestream
