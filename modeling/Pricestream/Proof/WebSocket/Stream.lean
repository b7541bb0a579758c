import Pricestream.Library.Interleaving
import Pricestream.Proof.WebSocket.Publisher

/-!
# What a connecting client is told

The publisher sets an update in the cache before it sends it to the group, and the client joins the
group before it reads the cache. So at every moment the updates sent are a prefix of those set, and
those sent before the client joined are among those set when it reads. What it receives is the
snapshot, which is the last of the first `read` updates, and then every update from `joined` on,
where `joined ≤ read`. The two numbers are all that an interleaving leaves open.
-/

namespace Pricestream

open Library Python

variable {db : Engine} {Venue : Type}

/-! ### Single steps -/

section Perform

variable (consumer : QuoteConsumer) (s : Session db Venue) (effect : Effect db Venue)

@[simp] theorem perform_phase : (s.perform consumer effect).phase = s.phase := by
  cases effect with
  | groupSend group instrument snapshot =>
      rw [Session.perform]
      split_ifs <;> rfl
  | insert _ | inc _ | publish _ _ | cacheSet _ _ => rfl

@[simp] theorem perform_received : (s.perform consumer effect).received = s.received := by
  cases effect with
  | groupSend group instrument snapshot =>
      rw [Session.perform]
      split_ifs <;> rfl
  | insert _ | inc _ | publish _ _ | cacheSet _ _ => rfl

theorem perform_cache (key : Str) :
    (s.perform consumer effect).cache key = (effect.set? key).or (s.cache key) := by
  cases effect with
  | groupSend group instrument snapshot =>
      rw [Session.perform]
      split_ifs <;> rfl
  | cacheSet key' snapshot =>
      rw [Session.perform, Effect.set?]
      by_cases hkey : key' = key
      · simp [hkey]
      · simp [hkey, Function.update_of_ne (Ne.symm hkey)]
  | insert _ | inc _ | publish _ _ => rfl

theorem perform_queue :
    (s.perform consumer effect).queue =
      s.queue ++ if s.phase.isMember then (effect.sent? consumer.symbol).toList else [] := by
  cases effect with
  | groupSend group instrument snapshot =>
      rw [Session.perform, Effect.sent?]
      by_cases hmember : s.phase.isMember = true
      · by_cases hgroup : group = consumer.group
        · simp [hmember, hgroup, QuoteConsumer.group, groupName]
        · have hname : group ≠ groupName consumer.symbol := hgroup
          simp [hmember, hgroup, hname]
      · simp [hmember]
  | insert _ | inc _ | publish _ _ | cacheSet _ _ => simp [Session.perform, Effect.sent?]

end Perform

/-- The message with the snapshot, if there is one. -/
def greet (consumer : QuoteConsumer) (found : Option (Snapshot Venue)) : List (Message Venue) :=
  found.toList.map fun snapshot => .snapshot ⟨consumer.symbol, snapshot⟩

/-! Each step but the publisher's is taken in one phase only. -/

section Inversion

variable {consumer : QuoteConsumer} {s s' : Session db Venue}

theorem publish_step (h : s.step consumer .publish = some s') :
    ∃ effect rest, s.script = effect :: rest ∧ s' = { s.perform consumer effect with script := rest } := by
  cases hscript : s.script with
  | nil =>
      simp only [Session.step, hscript] at h
      cases h
  | cons effect rest =>
      simp only [Session.step, hscript] at h
      exact ⟨effect, rest, rfl, (Option.some.inj h).symm⟩

theorem groupAdd_step (h : s.step consumer .groupAdd = some s') :
    s.phase = .start ∧ s' = { s with phase := .joined } := by
  simp only [Session.step] at h
  split at h
  · exact ⟨‹_›, (Option.some.inj h).symm⟩
  · cases h

theorem accept_step (h : s.step consumer .accept = some s') :
    s.phase = .joined ∧ s' = { s with phase := .accepted } := by
  simp only [Session.step] at h
  split at h
  · exact ⟨‹_›, (Option.some.inj h).symm⟩
  · cases h

theorem cacheGet_step (h : s.step consumer .cacheGet = some s') :
    s.phase = .accepted ∧ s' = { s with phase := .fetched (s.cache consumer.snapshotKey) } := by
  simp only [Session.step] at h
  split at h
  · exact ⟨‹_›, (Option.some.inj h).symm⟩
  · cases h

theorem send_step (h : s.step consumer .send = some s') :
    ∃ found, s.phase = .fetched found ∧
      s' = { s with phase := .connected, received := s.received ++ greet consumer found } := by
  simp only [Session.step] at h
  split at h
  · refine ⟨none, ‹_›, (Option.some.inj h).symm.trans ?_⟩
    simp [greet]
  · exact ⟨some _, ‹_›, (Option.some.inj h).symm⟩
  · cases h

theorem quoteUpdate_step (h : s.step consumer .quoteUpdate = some s') :
    s.phase = .connected ∧ ∃ payload rest, s.queue = payload :: rest ∧
      s' = { s with queue := rest, received := s.received ++ [.update payload] } := by
  simp only [Session.step] at h
  split at h
  · exact ⟨‹_›, _, _, ‹_›, (Option.some.inj h).symm⟩
  · cases h

theorem disconnect_step (h : s.step consumer .disconnect = some s') :
    s.phase = .connected ∧ s' = { s with phase := .closed, queue := [] } := by
  simp only [Session.step] at h
  split at h
  · exact ⟨‹_›, (Option.some.inj h).symm⟩
  · cases h

end Inversion

/-! ### Before and after the cache is read -/

/-- The payloads sent to the consumer's group so far. -/
def sends (consumer : QuoteConsumer) (past : List (Effect db Venue)) : List (Payload Venue) :=
  past.filterMap (Effect.sent? consumer.symbol)

/-- The client has not read the cache yet. It joined when `joined` updates had been sent. -/
structure Connecting (consumer : QuoteConsumer) (script past : List (Effect db Venue)) (joined : ℕ)
    (s : Session db Venue) : Prop where
  split : past ++ s.script = script
  cache : s.cache consumer.snapshotKey = register (Effect.set? consumer.snapshotKey) past
  received : s.received = []
  phase : s.phase = .start ∧ s.queue = [] ∨
    (s.phase = .joined ∨ s.phase = .accepted) ∧ joined ≤ (sends consumer past).length ∧
      s.queue = (sends consumer past).drop joined

/-- The client has found this in the cache. -/
structure Settled (consumer : QuoteConsumer) (script past : List (Effect db Venue)) (joined : ℕ)
    (found : Option (Snapshot Venue)) (s : Session db Venue) : Prop where
  split : past ++ s.script = script
  joined_le : joined ≤ (sends consumer past).length
  phase : s.phase = .fetched found ∧ s.queue = (sends consumer past).drop joined ∧ s.received = [] ∨
    s.phase = .connected ∧ (∃ delivered, delivered ++ s.queue = (sends consumer past).drop joined ∧
      s.received = greet consumer found ++ delivered.map .update) ∨
    s.phase = .closed ∧ ∃ delivered, delivered <+: (sends consumer past).drop joined ∧
      s.received = greet consumer found ++ delivered.map .update

section Steps

variable {consumer : QuoteConsumer} {script past : List (Effect db Venue)} {joined : ℕ}
  {found : Option (Snapshot Venue)} {s s' : Session db Venue}

theorem sends_append (effect : Effect db Venue) :
    sends consumer (past ++ [effect]) = sends consumer past ++ (effect.sent? consumer.symbol).toList := by
  rw [sends, List.filterMap_append, List.filterMap_cons]
  cases effect.sent? consumer.symbol <;> rfl

theorem length_sends_le (effect : Effect db Venue) :
    (sends consumer past).length ≤ (sends consumer (past ++ [effect])).length := by
  rw [sends_append, List.length_append]
  exact Nat.le_add_right _ _

theorem drop_sends_append (effect : Effect db Venue) (h : joined ≤ (sends consumer past).length) :
    (sends consumer (past ++ [effect])).drop joined =
      (sends consumer past).drop joined ++ (effect.sent? consumer.symbol).toList := by
  rw [sends_append, List.drop_append_of_le_length h]

theorem connecting_init (consumer : QuoteConsumer) (script : List (Effect db Venue)) :
    Connecting consumer script [] 0 (Session.init script) where
  split := rfl
  cache := rfl
  received := rfl
  phase := Or.inl ⟨rfl, rfl⟩

theorem split_publish {effect : Effect db Venue} {rest : List (Effect db Venue)}
    (hsplit : past ++ s.script = script) (hscript : s.script = effect :: rest) :
    (past ++ [effect]) ++ rest = script := by
  rw [← hsplit, hscript, List.append_assoc, List.singleton_append]

theorem Connecting.queue_eq (h : Connecting consumer script past joined s) (hphase : s.phase ≠ .start) :
    joined ≤ (sends consumer past).length ∧ s.queue = (sends consumer past).drop joined := by
  rcases h.phase with ⟨hstart, _⟩ | ⟨_, hjoined⟩
  · exact absurd hstart hphase
  · exact hjoined

theorem Connecting.step (h : Connecting consumer script past joined s) {event : Session.Event}
    (hevent : event ≠ .cacheGet) (hstep : s.step consumer event = some s') :
    ∃ past' joined', Connecting consumer script past' joined' s' := by
  cases event with
  | cacheGet => exact absurd rfl hevent
  | publish =>
      obtain ⟨effect, rest, hscript, rfl⟩ := publish_step hstep
      refine ⟨past ++ [effect], joined, split_publish h.split hscript, ?_, ?_, ?_⟩
      · show (s.perform consumer effect).cache consumer.snapshotKey = _
        rw [perform_cache, h.cache, register_concat]
      · exact (perform_received consumer s effect).trans h.received
      · show (s.perform consumer effect).phase = .start ∧ (s.perform consumer effect).queue = [] ∨
          ((s.perform consumer effect).phase = .joined ∨ (s.perform consumer effect).phase = .accepted) ∧
            _ ∧ (s.perform consumer effect).queue = _
        rw [perform_phase, perform_queue]
        rcases h.phase with ⟨hphase, hqueue⟩ | ⟨hphase, hle, hqueue⟩
        · left
          simp [hphase, hqueue, Phase.isMember]
        · right
          have hmember : s.phase.isMember = true := by
            rcases hphase with hphase | hphase <;> rw [hphase] <;> rfl
          refine ⟨hphase, hle.trans (length_sends_le effect), ?_⟩
          rw [hmember, if_pos rfl, hqueue, drop_sends_append effect hle]
  | groupAdd =>
      obtain ⟨hphase, rfl⟩ := groupAdd_step hstep
      have hqueue : s.queue = [] := by simpa [hphase] using h.phase
      refine ⟨past, (sends consumer past).length, h.split, h.cache, h.received,
        Or.inr ⟨Or.inl rfl, le_rfl, ?_⟩⟩
      rw [List.drop_length]
      exact hqueue
  | accept =>
      obtain ⟨hphase, rfl⟩ := accept_step hstep
      have hjoined := h.queue_eq (by simp [hphase])
      exact ⟨past, joined, h.split, h.cache, h.received, Or.inr ⟨Or.inr rfl, hjoined⟩⟩
  | send =>
      obtain ⟨_, hphase, _⟩ := send_step hstep
      exact absurd h.phase (by simp [hphase])
  | quoteUpdate =>
      obtain ⟨hphase, _⟩ := quoteUpdate_step hstep
      exact absurd h.phase (by simp [hphase])
  | disconnect =>
      obtain ⟨hphase, _⟩ := disconnect_step hstep
      exact absurd h.phase (by simp [hphase])

theorem Connecting.cacheGet (h : Connecting consumer script past joined s)
    (hstep : s.step consumer .cacheGet = some s') :
    s.phase = .accepted ∧
      Settled consumer script past joined (register (Effect.set? consumer.snapshotKey) past) s' := by
  obtain ⟨hphase, rfl⟩ := cacheGet_step hstep
  obtain ⟨hle, hqueue⟩ := h.queue_eq (by simp [hphase])
  exact ⟨hphase, h.split, hle, Or.inl ⟨by rw [h.cache], hqueue, h.received⟩⟩

theorem Settled.publish (h : Settled consumer script past joined found s)
    {effect : Effect db Venue} {rest : List (Effect db Venue)} (hscript : s.script = effect :: rest) :
    Settled consumer script (past ++ [effect]) joined found
      { s.perform consumer effect with script := rest } := by
  refine ⟨split_publish h.split hscript, h.joined_le.trans (length_sends_le effect), ?_⟩
  show (s.perform consumer effect).phase = .fetched found ∧ (s.perform consumer effect).queue = _ ∧
      (s.perform consumer effect).received = [] ∨
    (s.perform consumer effect).phase = .connected ∧
      (∃ delivered, delivered ++ (s.perform consumer effect).queue = _ ∧
        (s.perform consumer effect).received = _) ∨
    (s.perform consumer effect).phase = .closed ∧
      ∃ delivered, _ ∧ (s.perform consumer effect).received = _
  rw [perform_phase, perform_received, perform_queue, drop_sends_append effect h.joined_le]
  rcases h.phase with ⟨hphase, hqueue, hreceived⟩ | ⟨hphase, delivered, hqueue, hreceived⟩ |
    ⟨hphase, delivered, hdelivered, hreceived⟩
  · left
    rw [hphase, hqueue]
    exact ⟨rfl, rfl, hreceived⟩
  · right
    left
    rw [hphase]
    refine ⟨rfl, delivered, ?_, hreceived⟩
    rw [← hqueue, List.append_assoc]
    rfl
  · right
    right
    exact ⟨hphase, delivered, hdelivered.trans (List.prefix_append _ _), hreceived⟩

theorem Settled.exists_delivered (h : Settled consumer script past joined found s)
    (hphase : s.phase = .connected) :
    ∃ delivered, delivered ++ s.queue = (sends consumer past).drop joined ∧
      s.received = greet consumer found ++ delivered.map .update := by
  simpa [hphase] using h.phase

theorem Settled.step (h : Settled consumer script past joined found s) {event : Session.Event}
    (hstep : s.step consumer event = some s') :
    ∃ past', past <+: past' ∧ Settled consumer script past' joined found s' := by
  cases event with
  | publish =>
      obtain ⟨effect, rest, hscript, rfl⟩ := publish_step hstep
      exact ⟨past ++ [effect], List.prefix_append _ _, h.publish hscript⟩
  | groupAdd =>
      obtain ⟨hphase, _⟩ := groupAdd_step hstep
      exact absurd h.phase (by simp [hphase])
  | accept =>
      obtain ⟨hphase, _⟩ := accept_step hstep
      exact absurd h.phase (by simp [hphase])
  | cacheGet =>
      obtain ⟨hphase, _⟩ := cacheGet_step hstep
      exact absurd h.phase (by simp [hphase])
  | send =>
      obtain ⟨found', hphase, rfl⟩ := send_step hstep
      obtain ⟨rfl, hqueue, hreceived⟩ : found' = found ∧ s.queue = (sends consumer past).drop joined ∧
          s.received = [] := by simpa [hphase] using h.phase
      refine ⟨past, List.prefix_rfl, h.split, h.joined_le, Or.inr (Or.inl ⟨rfl, [], hqueue, ?_⟩)⟩
      rw [hreceived]
      simp
  | quoteUpdate =>
      obtain ⟨hphase, payload, rest, hmessages, rfl⟩ := quoteUpdate_step hstep
      obtain ⟨delivered, hqueue, hreceived⟩ := h.exists_delivered hphase
      refine ⟨past, List.prefix_rfl, h.split, h.joined_le,
        Or.inr (Or.inl ⟨hphase, delivered ++ [payload], ?_, ?_⟩)⟩
      · rw [← hqueue, hmessages, List.append_assoc, List.singleton_append]
      · rw [hreceived, List.map_append, List.append_assoc, List.map_singleton]
  | disconnect =>
      obtain ⟨hphase, rfl⟩ := disconnect_step hstep
      obtain ⟨delivered, hqueue, hreceived⟩ := h.exists_delivered hphase
      refine ⟨past, List.prefix_rfl, h.split, h.joined_le, Or.inr (Or.inr ⟨rfl, delivered, ?_, hreceived⟩)⟩
      rw [← hqueue]
      exact List.prefix_append _ _

/-! ### Runs -/

theorem Settled.run (h : Settled consumer script past joined found s) {events : List Session.Event}
    (hrun : s.run consumer events = some s') :
    ∃ past', past <+: past' ∧ Settled consumer script past' joined found s' := by
  induction events generalizing s past with
  | nil =>
      obtain rfl := Option.some.inj hrun
      exact ⟨past, List.prefix_rfl, h⟩
  | cons event events ih =>
      obtain ⟨s₁, hstep, hrest⟩ := Option.bind_eq_some_iff.mp hrun
      obtain ⟨past₁, hfront, h₁⟩ := h.step hstep
      obtain ⟨past₂, hfront', h₂⟩ := ih h₁ hrest
      exact ⟨past₂, hfront.trans hfront', h₂⟩

/-- A run reads the cache at one of its steps, or not at all. -/
theorem Connecting.run (h : Connecting consumer script past joined s) {events : List Session.Event}
    (hrun : s.run consumer events = some s') :
    (∃ past' joined', Connecting consumer script past' joined' s') ∨
      ∃ before after past₁ joined₁ s₁, events = before ++ .cacheGet :: after ∧
        s.run consumer before = some s₁ ∧ Connecting consumer script past₁ joined₁ s₁ ∧
        s₁.phase = .accepted ∧
        ∃ past', Settled consumer script past' joined₁
          (register (Effect.set? consumer.snapshotKey) past₁) s' := by
  induction events generalizing s past joined with
  | nil =>
      obtain rfl := Option.some.inj hrun
      exact Or.inl ⟨past, joined, h⟩
  | cons event events ih =>
      obtain ⟨s₁, hstep, hrest⟩ := Option.bind_eq_some_iff.mp hrun
      by_cases hevent : event = .cacheGet
      · right
        subst hevent
        obtain ⟨hphase, hsettled⟩ := h.cacheGet hstep
        obtain ⟨past', _, hsettled⟩ := hsettled.run hrest
        exact ⟨[], events, past, joined, s, rfl, rfl, h, hphase, past', hsettled⟩
      · obtain ⟨past₁, joined₁, h₁⟩ := h.step hevent hstep
        rcases ih h₁ hrest with hconnecting | ⟨before, after, past₂, joined₂, s₂, rfl, hbefore, hrest⟩
        · exact Or.inl hconnecting
        · refine Or.inr ⟨event :: before, after, past₂, joined₂, s₂, rfl, ?_, hrest⟩
          exact Option.bind_eq_some_iff.mpr ⟨s₁, hstep, hbefore⟩

theorem run_append {before after : List Session.Event} :
    s.run consumer (before ++ after) = some s' ↔
      ∃ s₁, s.run consumer before = some s₁ ∧ s₁.run consumer after = some s' := by
  rw [Session.run, List.foldlM_append]
  exact Option.bind_eq_some_iff

end Steps

/-! ### What the script leaves of an interleaving -/

section Announced

variable {consumer : QuoteConsumer} {script past : List (Effect db Venue)}
  {updates : List (Snapshot Venue)} {s s' : Session db Venue} {events : List Session.Event}

theorem Announces.progress (h : Announces consumer.symbol updates script)
    (hsplit : past ++ s.script = script) :
    ∃ written sent, sent ≤ written ∧ written ≤ updates.length ∧
      register (Effect.set? consumer.snapshotKey) past = (updates.take written).getLast? ∧
      sends consumer past = (updates.take sent).map (Payload.mk consumer.symbol) ∧
      (s.script = [] → sent = updates.length) := by
  rw [Announces, ← hsplit, List.filterMap_append] at h
  obtain ⟨written, sent, hle, hlen, hset, hsent, hdone⟩ := progress_of_prefix h
  refine ⟨written, sent, hle, hlen, ?_, ?_, fun hscript => hdone (by rw [hscript]; rfl)⟩
  · rw [← hset, filterMap_tape_set]
    rfl
  · rw [← hsent, filterMap_tape_sent]
    rfl

/-- A client that is about to read the cache finds the last of the first `read` updates, and it has
joined before the publisher came that far. -/
theorem Connecting.exists_read (hscript : Announces consumer.symbol updates script) {joined : ℕ}
    (h : Connecting consumer script past joined s) (hphase : s.phase = .accepted) :
    ∃ read, joined ≤ read ∧ read ≤ updates.length ∧
      register (Effect.set? consumer.snapshotKey) past = (updates.take read).getLast? := by
  obtain ⟨read, sent, hsent, hread, hfound, hsends, _⟩ := hscript.progress h.split
  obtain ⟨hle, _⟩ := h.queue_eq (by simp [hphase])
  rw [hsends, List.length_map, List.length_take] at hle
  exact ⟨read, by omega, hread, hfound⟩

/-- The messages of a client that has joined after `joined` updates were sent, has read the cache after
`read` were set, and was sent `count` updates since. -/
def streamOf (consumer : QuoteConsumer) (updates : List (Snapshot Venue)) (joined read count : ℕ) :
    List (Message Venue) :=
  greet consumer (updates.take read).getLast? ++
    ((updates.drop joined).take count).map fun update => .update ⟨consumer.symbol, update⟩

theorem prefix_of_delivered {joined sent : ℕ} {delivered rest : List (Payload Venue)}
    (h : delivered ++ rest = ((updates.take sent).drop joined).map (Payload.mk consumer.symbol)) :
    delivered.map Message.update = ((updates.drop joined).take delivered.length).map
      fun update => .update ⟨consumer.symbol, update⟩ := by
  obtain ⟨front, back, hsplit, rfl, rfl⟩ := List.map_eq_append_iff.mp h.symm
  have hprefix : front <+: updates.drop joined :=
    (List.prefix_append front back).trans (hsplit ▸ (List.take_prefix sent updates).drop joined)
  rw [List.length_map, ← List.prefix_iff_eq_take.mp hprefix, List.map_map]
  rfl

theorem Settled.stream (hscript : Announces consumer.symbol updates script) {joined read : ℕ}
    (h : Settled consumer script past joined (updates.take read).getLast? s) :
    s.received = [] ∧ s.phase ≠ .connected ∨
      ∃ count, s.received = streamOf consumer updates joined read count ∧
        (s.script = [] → s.phase = .connected → s.queue = [] → updates.length ≤ joined + count) := by
  obtain ⟨written, sent, _, _, _, hsends, hdone⟩ := hscript.progress h.split
  have hdrop : (sends consumer past).drop joined =
      ((updates.take sent).drop joined).map (Payload.mk consumer.symbol) := by
    rw [hsends, List.map_drop]
  rcases h.phase with ⟨hphase, _, hreceived⟩ | ⟨hphase, delivered, hqueue, hreceived⟩ |
    ⟨hphase, delivered, ⟨rest, hdelivered⟩, hreceived⟩
  · left
    rw [hphase]
    exact ⟨hreceived, by simp⟩
  · right
    rw [hdrop] at hqueue
    refine ⟨delivered.length, ?_, fun hscriptNil _ hqueueNil => ?_⟩
    · rw [hreceived, prefix_of_delivered hqueue]
      rfl
    · have hlength := congrArg List.length hqueue
      rw [hqueueNil, hdone hscriptNil] at hlength
      simp only [List.append_nil, List.take_length, List.length_map, List.length_drop] at hlength
      omega
  · right
    rw [hdrop] at hdelivered
    refine ⟨delivered.length, ?_, fun _ hconnected => ?_⟩
    · rw [hreceived, prefix_of_delivered hdelivered]
      rfl
    · rw [hphase] at hconnected
      cases hconnected

end Announced

/-! ### Every run -/

/-- The publisher has finished, and the client has been sent what was queued for it. -/
structure Session.Done (s : Session db Venue) : Prop where
  script : s.script = []
  phase : s.phase = .connected
  queue : s.queue = []

/-- What a client makes of the updates of its instrument. -/
structure MissesNothing (symbol : Str) (updates : List (Snapshot Venue)) (s : Session db Venue) :
    Prop where
  /-- At every moment: nothing yet, or the snapshot of update `read - 1` and then, in order and without
  a gap, updates from some `joined ≤ read` on. -/
  so_far : s.received = [] ∨ ∃ joined read count, joined ≤ read ∧ read ≤ updates.length ∧
    s.received = streamOf ⟨symbol⟩ updates joined read count
  /-- In the end: all updates from `joined` on, so those behind the snapshot among them. -/
  done : s.Done → ∃ joined read, joined ≤ read ∧ read ≤ updates.length ∧
    s.received = greet ⟨symbol⟩ (updates.take read).getLast? ++
      (updates.drop joined).map fun update => .update ⟨symbol, update⟩
  /-- The last message is the last update, be it as a snapshot. -/
  last : s.Done → ∀ update, updates.getLast? = some update →
    s.received.getLast? = some (.snapshot ⟨symbol, update⟩) ∨
      s.received.getLast? = some (.update ⟨symbol, update⟩)

theorem getLast?_stream {symbol : Str} {updates : List (Snapshot Venue)} {joined read : ℕ}
    (hle : joined ≤ read) (hread : read ≤ updates.length) {update : Snapshot Venue}
    (hupdate : updates.getLast? = some update) :
    (greet ⟨symbol⟩ (updates.take read).getLast? ++ (updates.drop joined).map fun update =>
        Message.update ⟨symbol, update⟩).getLast? = some (.snapshot ⟨symbol, update⟩) ∨
      (greet ⟨symbol⟩ (updates.take read).getLast? ++ (updates.drop joined).map fun update =>
        Message.update ⟨symbol, update⟩).getLast? = some (.update ⟨symbol, update⟩) := by
  by_cases hend : updates.length ≤ joined
  · left
    obtain rfl : read = updates.length := le_antisymm hread (hend.trans hle)
    rw [List.drop_eq_nil_of_le hend, List.take_length, hupdate]
    rfl
  · right
    rw [List.getLast?_append, List.getLast?_map, List.getLast?_drop, if_neg hend, hupdate]
    rfl

theorem received_of_run {consumer : QuoteConsumer} {script : List (Effect db Venue)}
    {updates : List (Snapshot Venue)} (hscript : Announces consumer.symbol updates script)
    {events : List Session.Event} {s : Session db Venue}
    (hrun : (Session.init script).run consumer events = some s) :
    s.received = [] ∧ ¬ s.Done ∨
      ∃ joined read count, joined ≤ read ∧ read ≤ updates.length ∧
        s.received = streamOf consumer updates joined read count ∧
        (s.Done → updates.length ≤ joined + count) := by
  rcases (connecting_init _ script).run hrun with ⟨past, joined, h⟩ |
    ⟨before, after, past₁, joined, s₁, _, _, hconnecting, hphase, past, hsettled⟩
  · left
    refine ⟨h.received, fun hdone => ?_⟩
    rcases h.phase with ⟨hphase, _⟩ | ⟨hphase | hphase, _⟩ <;> rw [hdone.phase] at hphase <;> cases hphase
  · obtain ⟨read, hjoined, hread, hfound⟩ := hconnecting.exists_read hscript hphase
    rw [hfound] at hsettled
    rcases hsettled.stream hscript with ⟨hreceived, hnot⟩ | ⟨count, hreceived, hcount⟩
    · exact Or.inl ⟨hreceived, fun hdone => hnot hdone.phase⟩
    · exact Or.inr ⟨joined, read, count, hjoined, hread, hreceived,
        fun hdone => hcount hdone.script hdone.phase hdone.queue⟩

/-- **A connecting client misses no update.** -/
theorem connect_misses_nothing {kwarg symbol : Str}
    (hsymbol : (QuoteConsumer.ofRoute kwarg).symbol = symbol) {script : List (Effect db Venue)}
    {updates : List (Snapshot Venue)} (hscript : Announces symbol updates script)
    {events : List Session.Event} {s : Session db Venue}
    (hrun : (Session.init script).run (QuoteConsumer.ofRoute kwarg) events = some s) :
    MissesNothing symbol updates s := by
  subst hsymbol
  rcases received_of_run hscript hrun with ⟨hreceived, hnot⟩ |
    ⟨joined, read, count, hjoined, hread, hreceived, hcount⟩
  · exact ⟨Or.inl hreceived, fun hdone => absurd hdone hnot, fun hdone => absurd hdone hnot⟩
  · have hdone : s.Done → s.received = greet (.ofRoute kwarg) (updates.take read).getLast? ++
        (updates.drop joined).map fun update =>
          .update ⟨(QuoteConsumer.ofRoute kwarg).symbol, update⟩ := by
      intro hdone
      have hle := hcount hdone
      have hall : (updates.drop joined).length ≤ count := by
        rw [List.length_drop]
        omega
      rw [hreceived, streamOf, List.take_of_length_le hall]
    refine ⟨Or.inr ⟨joined, read, count, hjoined, hread, hreceived⟩,
      fun h => ⟨joined, read, hjoined, hread, hdone h⟩, fun h update hupdate => ?_⟩
    rw [hdone h]
    exact getLast?_stream hjoined hread hupdate

/-- The two rounds, the second after the first. -/
def twoRoundsInTurn : List (Round ℕ × InstrumentTable) :=
  [(twoRounds false, KeyedTable.empty), (twoRounds true, KeyedTable.empty)]

/-- The client connects while the first update is in the cache and not sent yet. -/
def earlyConnect : List Session.Event :=
  List.replicate 7 .publish ++ [.groupAdd, .accept, .cacheGet, .publish, .send, .quoteUpdate] ++
    List.replicate 8 .publish ++ [.quoteUpdate]

theorem announces_twoRounds :
    Announces (Str.ofString "BTC-USD") (updatesOf (Str.ofString "BTC-USD") twoRoundsInTurn)
      (roundsScript .postgres twoRoundsInTurn) := by
  refine announces_rounds (fun p hp => ?_) _
  rcases List.mem_pair.mp hp with rfl | rfl
  · exact ⟨completes_twoRounds false, rfl⟩
  · exact ⟨completes_twoRounds true, rfl⟩

/-- In the end the client has the first update twice, as the snapshot and as an update, and the second. -/
theorem early_client_misses_nothing :
    ∃ s, (Session.init (roundsScript .postgres twoRoundsInTurn)).run
        (.ofRoute (Str.ofString "btc-usd")) earlyConnect = some s ∧
      MissesNothing (Str.ofString "BTC-USD") (updatesOf (Str.ofString "BTC-USD") twoRoundsInTurn) s ∧
      s.Done ∧ s.received =
        [.snapshot ⟨Str.ofString "BTC-USD", ⟨201 / 2, 100, 101, [0], 0⟩⟩,
          .update ⟨Str.ofString "BTC-USD", ⟨201 / 2, 100, 101, [0], 0⟩⟩,
          .update ⟨Str.ofString "BTC-USD", ⟨201 / 2, 100, 101, [0], 5000000⟩⟩] := by
  have hend : ((Session.init (roundsScript .postgres twoRoundsInTurn)).run
      (.ofRoute (Str.ofString "btc-usd")) earlyConnect).map
        (fun s => (s.script.isEmpty, s.phase, s.queue.isEmpty, s.received)) =
      some (true, .connected, true,
        [.snapshot ⟨Str.ofString "BTC-USD", ⟨201 / 2, 100, 101, [0], 0⟩⟩,
          .update ⟨Str.ofString "BTC-USD", ⟨201 / 2, 100, 101, [0], 0⟩⟩,
          .update ⟨Str.ofString "BTC-USD", ⟨201 / 2, 100, 101, [0], 5000000⟩⟩]) := by decide +kernel
  obtain ⟨s, hrun, hs⟩ := Option.map_eq_some_iff.mp hend
  simp only [Prod.mk.injEq, List.isEmpty_iff] at hs
  obtain ⟨hscript, hphase, hqueue, hreceived⟩ := hs
  exact ⟨s, hrun, connect_misses_nothing (by decide) announces_twoRounds hrun,
    ⟨hscript, hphase, hqueue⟩, hreceived⟩

end Pricestream
