import Pricestream.Proof.WebSocket.Stream

/-!
# In which order a client sees the tape

If the prices of an instrument are written one after the other with increasing timestamps, then what
the publisher tells about them never steps back, whether its rounds complete or raise half-way. The
snapshot is read after the client has joined the group and is sent ahead of what is queued by then, so
a client sees a step back exactly if an update older than the snapshot is in the queue when it reads.
-/

namespace Pricestream

open Library Python
open DateTime (Instant)

variable {db : Engine} {Venue : Type}

/-! ### Timestamps -/

/-- The timestamp of a consolidated price of the instrument that is written. -/
def Effect.priced? (symbol : Str) : Effect db Venue → Option Instant
  | .insert (.consolidated row) => if row.instrument = symbol then some row.timestamp else none
  | .insert (.quote _) | .insert (.arbitrage _) => none
  | .inc _ | .publish _ _ | .cacheSet _ _ | .groupSend _ _ _ => none

/-- The timestamp of a snapshot of the instrument that is set in the cache or sent to the group. -/
def Effect.told? (symbol : Str) : Effect db Venue → Option Instant
  | .cacheSet key snapshot => if key = cacheKey symbol then some snapshot.ts else none
  | .groupSend group _ snapshot => if group = groupName symbol then some snapshot.ts else none
  | .insert _ | .inc _ | .publish _ _ => none

/-- The consolidated prices of the instrument are written with increasing timestamps. -/
def Increasing (symbol : Str) (script : List (Effect db Venue)) : Prop :=
  (script.filterMap (Effect.priced? symbol)).Pairwise (· < ·)

def Message.payload : Message Venue → Payload Venue
  | .snapshot payload | .update payload => payload

def Message.update? : Message Venue → Option (Payload Venue)
  | .snapshot _ => none
  | .update payload => some payload

def Payload.ts (payload : Payload Venue) : Instant := payload.snapshot.ts

/-- The timestamps of what the client has received, in order. -/
def Session.stamps (s : Session db Venue) : List Instant := s.received.map fun m => m.payload.ts

/-- No update older than the snapshot in the cache is queued for the client. -/
def Timely (consumer : QuoteConsumer) (s : Session db Venue) : Prop :=
  ∀ snapshot, s.cache consumer.snapshotKey = some snapshot →
    ∀ payload ∈ s.queue, snapshot.ts ≤ payload.ts

/-! ### What rounds tell -/

section Rounds

variable {symbol : Str} {w : Effect db Venue} {t : Instant}

theorem stage_of_told (h : w.told? symbol = some t) : w.stage = .price := by
  cases w with
  | cacheSet _ _ | groupSend _ _ _ => rfl
  | insert _ | inc _ | publish _ _ => cases h

theorem timestamp_of_storeBook {round : Round Venue} {c : Consolidated Venue}
    {row : ConsolidatedPrice db Venue} (h : storeBook db round symbol c = .ok row) :
    row.timestamp = round.clock.priced symbol := by
  obtain ⟨_, _, _, _, _, _, rfl⟩ := ConsolidatedPrice.create_eq_ok.mp h
  rfl

theorem priced_consolidated {row : ConsolidatedPrice db Venue} (h : row.instrument = symbol) :
    (Effect.insert (.consolidated row)).priced? symbol = some row.timestamp := if_pos h

variable [LinearOrder Venue] {round : Round Venue} {instruments : InstrumentTable}

/-- A round has one timestamp for an instrument, and it writes it before it tells it. -/
theorem priced_of_told (hw : w ∈ ((fetchQuotes round instruments).2 : Task db Venue Counts).trace)
    (h : w.told? symbol = some t) :
    t = round.clock.priced symbol ∧
      ∃ w' ∈ ((fetchQuotes round instruments).2 : Task db Venue Counts).trace,
        w'.priced? symbol = some t := by
  obtain ⟨symbol', c, row, _, hrow, hmem, heffect⟩ := turn_of_stage_price (stage_of_told h) hw
  have htold : symbol' = symbol ∧ t = round.clock.priced symbol' := by
    rcases mem_bookEffects.mp heffect with ⟨_, _, rfl⟩ | rfl | rfl | ⟨_, rfl⟩
    · cases h
    · cases h
    · rw [Effect.told?, Option.ite_none_right_eq_some] at h
      exact ⟨cacheKey_injective h.1, (Option.some.inj h.2).symm⟩
    · rw [Effect.told?, Option.ite_none_right_eq_some] at h
      exact ⟨groupName_injective h.1, (Option.some.inj h.2).symm⟩
  obtain ⟨rfl, rfl⟩ := htold
  refine ⟨rfl, _, hmem, ?_⟩
  rw [priced_consolidated (label_of_storeBook hrow), timestamp_of_storeBook hrow]

theorem told_round : (((fetchQuotes round instruments).2 : Task db Venue Counts).trace.filterMap
    (Effect.told? symbol)).Pairwise (· ≤ ·) := by
  refine List.pairwise_of_forall_mem_list fun t ht t' ht' => ?_
  obtain ⟨w, hw, hwt⟩ := List.mem_filterMap.mp ht
  obtain ⟨w', hw', hwt'⟩ := List.mem_filterMap.mp ht'
  rw [(priced_of_told hw hwt).1, (priced_of_told hw' hwt').1]

theorem priced_of_told_script {rounds : List (Round Venue × InstrumentTable)}
    (h : t ∈ (roundsScript db rounds).filterMap (Effect.told? symbol)) :
    t ∈ (roundsScript db rounds).filterMap (Effect.priced? symbol) := by
  obtain ⟨w, hw, hwt⟩ := List.mem_filterMap.mp h
  obtain ⟨p, hp, hw⟩ := List.mem_flatMap.mp hw
  obtain ⟨_, w', hw', hwt'⟩ := priced_of_told hw hwt
  exact List.mem_filterMap.mpr ⟨w', List.mem_flatMap.mpr ⟨p, hp, hw'⟩, hwt'⟩

theorem told_rounds {rounds : List (Round Venue × InstrumentTable)}
    (h : Increasing symbol (roundsScript db rounds)) :
    ((roundsScript db rounds).filterMap (Effect.told? symbol)).Pairwise (· ≤ ·) := by
  induction rounds with
  | nil => exact List.Pairwise.nil
  | cons p rounds ih =>
      have hsplit : roundsScript db (p :: rounds) =
          ((fetchQuotes p.1 p.2).2 : Task db Venue Counts).trace ++ roundsScript db rounds :=
        List.flatMap_cons
      rw [Increasing, hsplit, List.filterMap_append, List.pairwise_append] at h
      obtain ⟨_, hrest, hcross⟩ := h
      rw [hsplit, List.filterMap_append, List.pairwise_append]
      refine ⟨told_round, ih hrest, fun t ht t' ht' => ?_⟩
      obtain ⟨w, hw, hwt⟩ := List.mem_filterMap.mp ht
      obtain ⟨_, w', hw', hwt'⟩ := priced_of_told hw hwt
      have hmem := List.mem_filterMap.mpr ⟨w', hw', hwt'⟩
      exact (hcross t hmem t' (priced_of_told_script ht')).le

end Rounds

/-! ### The messages -/

section Messages

variable {consumer : QuoteConsumer} {script past : List (Effect db Venue)} {joined : ℕ}
  {found : Option (Snapshot Venue)} {s : Session db Venue}

theorem told_of_sent {symbol : Str} {w : Effect db Venue} {payload : Payload Venue}
    (h : w.sent? symbol = some payload) : w.told? symbol = some payload.ts := by
  cases w with
  | groupSend group instrument snapshot =>
      rw [Effect.sent?, Option.ite_none_right_eq_some] at h
      obtain rfl := Option.some.inj h.2
      exact if_pos h.1
  | insert _ | inc _ | publish _ _ | cacheSet _ _ => cases h

theorem told_of_set {symbol : Str} {w : Effect db Venue} {snapshot : Snapshot Venue}
    (h : w.set? (cacheKey symbol) = some snapshot) : w.told? symbol = some snapshot.ts := by
  rw [Effect.set?_eq_some.mp h]
  exact if_pos rfl

theorem sorted_sends (h : (script.filterMap (Effect.told? consumer.symbol)).Pairwise (· ≤ ·)) :
    (sends consumer script).Pairwise fun p q => p.ts ≤ q.ts := by
  rw [List.pairwise_filterMap] at h
  rw [sends, List.pairwise_filterMap]
  refine h.imp fun hle p hp q hq => ?_
  exact hle _ (told_of_sent hp) _ (told_of_sent hq)

theorem set_le_sent {rest : List (Effect db Venue)}
    (h : ((past ++ rest).filterMap (Effect.told? consumer.symbol)).Pairwise (· ≤ ·))
    {snapshot : Snapshot Venue}
    (hset : register (Effect.set? consumer.snapshotKey) past = some snapshot) :
    ∀ payload ∈ sends consumer rest, snapshot.ts ≤ payload.ts := by
  intro payload hpayload
  obtain ⟨w, hw, hwset⟩ := List.mem_filterMap.mp (List.mem_of_getLast? hset)
  obtain ⟨w', hw', hwsent⟩ := List.mem_filterMap.mp hpayload
  rw [List.pairwise_filterMap, List.pairwise_append] at h
  exact h.2.2 w hw w' hw' _ (told_of_set hwset) _ (told_of_sent hwsent)

theorem stamps_greet {delivered : List (Payload Venue)} :
    (greet consumer found ++ delivered.map Message.update).map (fun m => m.payload.ts) =
      found.toList.map Snapshot.ts ++ delivered.map Payload.ts := by
  rw [greet, List.map_append, List.map_map, List.map_map]
  rfl

theorem updates_greet {delivered : List (Payload Venue)} :
    (greet consumer found ++ delivered.map Message.update).filterMap Message.update? = delivered := by
  have hnone : (greet consumer found).filterMap Message.update? = [] := by
    rw [greet, List.filterMap_map]
    exact List.filterMap_eq_nil_iff.mpr fun _ _ => rfl
  rw [List.filterMap_append, hnone, List.nil_append, List.filterMap_map]
  exact List.filterMap_some

/-- The stamps step back only from the snapshot to the updates behind it. -/
theorem sorted_stamps_iff {delivered : List (Payload Venue)}
    (h : delivered.Pairwise fun p q => p.ts ≤ q.ts) :
    ((greet consumer found ++ delivered.map Message.update).map fun m => m.payload.ts).Pairwise (· ≤ ·) ↔
      ∀ snapshot, found = some snapshot → ∀ payload ∈ delivered, snapshot.ts ≤ payload.ts := by
  have hdelivered : (delivered.map Payload.ts).Pairwise (· ≤ ·) := List.pairwise_map.mpr h
  rw [stamps_greet, List.pairwise_append]
  cases found with
  | none => simp [hdelivered]
  | some snapshot => simp [hdelivered]

theorem Settled.delivered (h : Settled consumer script past joined found s) :
    s.received = [] ∧ ¬ s.Done ∨
      ∃ delivered, delivered <+: (sends consumer script).drop joined ∧
        s.received = greet consumer found ++ delivered.map .update ∧
        (s.Done → delivered = (sends consumer script).drop joined) := by
  have hprefix : (sends consumer past).drop joined <+: (sends consumer script).drop joined := by
    rw [← h.split, sends, sends, List.filterMap_append]
    exact (List.prefix_append _ _).drop joined
  rcases h.phase with ⟨hphase, _, hreceived⟩ | ⟨_, delivered, hqueue, hreceived⟩ |
    ⟨hphase, delivered, hdelivered, hreceived⟩
  · exact Or.inl ⟨hreceived, fun hdone => by simp [hdone.phase] at hphase⟩
  · refine Or.inr ⟨delivered, (List.prefix_append _ _).trans (hqueue ▸ hprefix), hreceived, ?_⟩
    intro hdone
    have hscript := h.split
    rw [hdone.script, List.append_nil] at hscript
    rw [← hscript, ← hqueue, hdone.queue, List.append_nil]
  · exact Or.inr ⟨delivered, hdelivered.trans hprefix, hreceived,
      fun hdone => by simp [hdone.phase] at hphase⟩

/-- The snapshot is no later than all that is sent to the client exactly if it is no later than what is
queued when it is read. -/
theorem Connecting.timely_iff (h : Connecting consumer script past joined s)
    (hphase : s.phase = .accepted)
    (hsorted : (script.filterMap (Effect.told? consumer.symbol)).Pairwise (· ≤ ·)) :
    Timely consumer s ↔
      ∀ snapshot, register (Effect.set? consumer.snapshotKey) past = some snapshot →
        ∀ payload ∈ (sends consumer script).drop joined, snapshot.ts ≤ payload.ts := by
  obtain ⟨hle, hqueue⟩ := h.queue_eq (by simp [hphase])
  have hall : (sends consumer script).drop joined = s.queue ++ sends consumer s.script := by
    have hsends : sends consumer script = sends consumer past ++ sends consumer s.script := by
      rw [← h.split, sends, List.filterMap_append]
      rfl
    rw [hsends, List.drop_append_of_le_length hle, hqueue]
  rw [Timely, h.cache, hall]
  rw [← h.split] at hsorted
  constructor
  · intro htimely snapshot hset payload hpayload
    rcases List.mem_append.mp hpayload with hqueued | hlater
    · exact htimely snapshot hset payload hqueued
    · exact set_le_sent hsorted hset payload hlater
  · intro hle snapshot hset payload hpayload
    exact hle snapshot hset payload (List.mem_append_left _ hpayload)

theorem Connecting.dispatched {past' : List (Effect db Venue)} {s₁ : Session db Venue}
    (h : Connecting consumer script past joined s₁) (hphase : s₁.phase = .accepted)
    (hpast : past <+: past') (hsettled : Settled consumer script past' joined found s)
    (hconnected : s.phase = .connected) (hempty : s.queue = []) :
    s₁.queue <+: s.received.filterMap Message.update? := by
  obtain ⟨delivered, hqueue, hreceived⟩ := hsettled.exists_delivered hconnected
  rw [hempty, List.append_nil] at hqueue
  rw [hreceived, updates_greet, hqueue, (h.queue_eq (by simp [hphase])).2]
  exact (hpast.filterMap _).drop joined

theorem Settled.sorted_updates (h : Settled consumer script past joined found s)
    (hsorted : (script.filterMap (Effect.told? consumer.symbol)).Pairwise (· ≤ ·)) :
    (s.received.filterMap Message.update?).Pairwise fun p q => p.ts ≤ q.ts := by
  rcases h.delivered with ⟨hreceived, _⟩ | ⟨delivered, hfront, hreceived, _⟩
  · rw [hreceived]
    exact List.Pairwise.nil
  · rw [hreceived, updates_greet]
    exact ((sorted_sends hsorted).sublist (List.drop_sublist joined _)).sublist hfront.sublist

section Read

variable {past' : List (Effect db Venue)} {s₁ : Session db Venue}

theorem Connecting.sorted_of_timely (h : Connecting consumer script past joined s₁)
    (hphase : s₁.phase = .accepted)
    (hsettled : Settled consumer script past' joined (register (Effect.set? consumer.snapshotKey) past) s)
    (hsorted : (script.filterMap (Effect.told? consumer.symbol)).Pairwise (· ≤ ·))
    (htimely : Timely consumer s₁) : s.stamps.Pairwise (· ≤ ·) := by
  have hupdates := hsettled.sorted_updates hsorted
  rcases hsettled.delivered with ⟨hreceived, _⟩ | ⟨delivered, hfront, hreceived, _⟩
  · rw [Session.stamps, hreceived]
    exact List.Pairwise.nil
  · rw [hreceived, updates_greet] at hupdates
    rw [Session.stamps, hreceived, sorted_stamps_iff hupdates]
    intro snapshot hset payload hpayload
    exact (h.timely_iff hphase hsorted).mp htimely snapshot hset payload (hfront.subset hpayload)

theorem Connecting.timely_of_sorted (h : Connecting consumer script past joined s₁)
    (hsettled : Settled consumer script past' joined (register (Effect.set? consumer.snapshotKey) past) s)
    (hsorted : (script.filterMap (Effect.told? consumer.symbol)).Pairwise (· ≤ ·))
    (hqueue : s₁.queue <+: s.received.filterMap Message.update?)
    (hstamps : s.stamps.Pairwise (· ≤ ·)) : Timely consumer s₁ := by
  intro snapshot hset payload hpayload
  have hupdates := hsettled.sorted_updates hsorted
  rcases hsettled.delivered with ⟨hreceived, _⟩ | ⟨delivered, _, hreceived, _⟩
  · rw [hreceived] at hqueue
    rw [List.prefix_nil.mp hqueue] at hpayload
    cases hpayload
  · rw [hreceived, updates_greet] at hqueue hupdates
    rw [Session.stamps, hreceived, sorted_stamps_iff hupdates, ← h.cache] at hstamps
    exact hstamps snapshot hset payload (hqueue.subset hpayload)

end Read

end Messages

/-! ### Every run -/

theorem run_from_read {consumer : QuoteConsumer} {script : List (Effect db Venue)}
    {before after : List Session.Event} {s₁ s : Session db Venue}
    (hbefore : (Session.init script).run consumer before = some s₁)
    (hafter : s₁.run consumer (.cacheGet :: after) = some s) :
    ∃ past joined past', Connecting consumer script past joined s₁ ∧ s₁.phase = .accepted ∧
      past <+: past' ∧
      Settled consumer script past' joined (register (Effect.set? consumer.snapshotKey) past) s := by
  obtain ⟨s₂, hstep, hrest⟩ := Option.bind_eq_some_iff.mp hafter
  rcases (connecting_init _ script).run hbefore with ⟨past, joined, h⟩ |
    ⟨_, _, _, _, _, _, _, _, _, _, hsettled⟩
  · obtain ⟨hphase, hsettled⟩ := h.cacheGet hstep
    obtain ⟨past', hfront, hsettled⟩ := hsettled.run hrest
    exact ⟨past, joined, past', h, hphase, hfront, hsettled⟩
  · obtain ⟨hphase, _⟩ := cacheGet_step hstep
    exact absurd hsettled.phase (by simp [hphase])

/-- What a run shows its client. -/
structure InOrder (consumer : QuoteConsumer) (script : List (Effect db Venue))
    (events : List Session.Event) (s : Session db Venue) : Prop where
  /-- The updates come in the order of their timestamps. -/
  updates : (s.received.filterMap Message.update?).Pairwise fun p q => p.ts ≤ q.ts
  /-- With the snapshot they do if no older update is queued when the cache is read. -/
  timely : ∀ before after s₁, events = before ++ .cacheGet :: after →
    (Session.init script).run consumer before = some s₁ → Timely consumer s₁ →
    s.stamps.Pairwise (· ≤ ·)
  /-- If one is, they do not once what was queued then has been sent. -/
  untimely : ∀ before after s₁, events = before ++ .cacheGet :: after →
    (Session.init script).run consumer before = some s₁ → ¬ Timely consumer s₁ →
    s₁.queue <+: s.received.filterMap Message.update? → ¬ s.stamps.Pairwise (· ≤ ·)
  /-- It has been sent when the client is connected and its queue is empty. -/
  dispatched : ∀ before after s₁, events = before ++ .cacheGet :: after →
    (Session.init script).run consumer before = some s₁ → s.phase = .connected → s.queue = [] →
    s₁.queue <+: s.received.filterMap Message.update?
  /-- A client that has not read the cache has seen nothing. -/
  unread : .cacheGet ∉ events → s.received = []

/-- **When the tape goes backwards.** -/
theorem client_sees_order [LinearOrder Venue] {kwarg symbol : Str}
    (hsymbol : (QuoteConsumer.ofRoute kwarg).symbol = symbol)
    {rounds : List (Round Venue × InstrumentTable)}
    (hincreasing : Increasing symbol (roundsScript db rounds))
    {events : List Session.Event} {s : Session db Venue}
    (hrun : (Session.init (roundsScript db rounds)).run (QuoteConsumer.ofRoute kwarg) events = some s) :
    InOrder (.ofRoute kwarg) (roundsScript db rounds) events s := by
  subst hsymbol
  have htold := told_rounds hincreasing
  have hread {before after : List Session.Event} {s₁ : Session db Venue}
      (hevents : events = before ++ .cacheGet :: after)
      (hbefore : (Session.init (roundsScript db rounds)).run (.ofRoute kwarg) before = some s₁) :
      s₁.run (.ofRoute kwarg) (.cacheGet :: after) = some s := by
    obtain ⟨s₁', hbefore', hafter⟩ := run_append.mp (hevents ▸ hrun)
    obtain rfl := Option.some.inj (hbefore'.symm.trans hbefore)
    exact hafter
  constructor
  case updates =>
    rcases (connecting_init _ _).run hrun with ⟨_, _, h⟩ | ⟨_, _, _, _, _, _, _, _, _, _, hsettled⟩
    · rw [h.received]
      exact List.Pairwise.nil
    · exact hsettled.sorted_updates htold
  case timely =>
    intro before after s₁ hevents hbefore htimely
    obtain ⟨_, _, _, hconnecting, hphase, _, hsettled⟩ := run_from_read hbefore (hread hevents hbefore)
    exact hconnecting.sorted_of_timely hphase hsettled htold htimely
  case untimely =>
    intro before after s₁ hevents hbefore hnot hqueue hstamps
    obtain ⟨_, _, _, hconnecting, _, _, hsettled⟩ := run_from_read hbefore (hread hevents hbefore)
    exact hnot (hconnecting.timely_of_sorted hsettled htold hqueue hstamps)
  case dispatched =>
    intro before after s₁ hevents hbefore
    obtain ⟨_, _, _, hconnecting, hphase, hpast, hsettled⟩ :=
      run_from_read hbefore (hread hevents hbefore)
    exact hconnecting.dispatched hphase hpast hsettled
  case unread =>
    intro hnot
    rcases (connecting_init _ _).run hrun with ⟨_, _, h⟩ | ⟨before, after, _, _, _, rfl, _⟩
    · exact h.received
    · exact absurd (List.mem_append_right before List.mem_cons_self) hnot

theorem increasing_twoRounds :
    Increasing (Str.ofString "BTC-USD") (roundsScript .postgres twoRoundsInTurn) := by
  unfold Increasing
  decide +kernel

/-- The client joins the group before both rounds and reads the cache after them. -/
def lateRead : List Session.Event :=
  [.groupAdd, .accept] ++ List.replicate 16 .publish ++ [.cacheGet, .send, .quoteUpdate, .quoteUpdate]

theorem late_client_sees_order :
    ∃ s, (Session.init (roundsScript .postgres twoRoundsInTurn)).run
        (.ofRoute (Str.ofString "btc-usd")) lateRead = some s ∧
      InOrder (.ofRoute (Str.ofString "btc-usd")) (roundsScript .postgres twoRoundsInTurn) lateRead s := by
  have hsome : ((Session.init (roundsScript .postgres twoRoundsInTurn)).run
      (.ofRoute (Str.ofString "btc-usd")) lateRead).isSome := by decide +kernel
  obtain ⟨s, hrun⟩ := Option.isSome_iff_exists.mp hsome
  exact ⟨s, hrun, client_sees_order (by decide) increasing_twoRounds hrun⟩

/-- The timestamps increase, and the client sees the second, the first and the second again. -/
theorem late_client_sees_step_back :
    Increasing (Str.ofString "BTC-USD") (roundsScript .postgres twoRoundsInTurn) ∧
    ∃ s, (Session.init (roundsScript .postgres twoRoundsInTurn)).run
        (.ofRoute (Str.ofString "btc-usd")) lateRead = some s ∧
      ¬ s.stamps.Pairwise (· ≤ ·) := by
  have hstamps : ((Session.init (roundsScript .postgres twoRoundsInTurn)).run
      (.ofRoute (Str.ofString "btc-usd")) lateRead).map Session.stamps =
        some [5000000, 0, 5000000] := by decide +kernel
  obtain ⟨s, hrun, hs⟩ := Option.map_eq_some_iff.mp hstamps
  refine ⟨increasing_twoRounds, s, hrun, ?_⟩
  rw [hs]
  decide

end Pricestream
