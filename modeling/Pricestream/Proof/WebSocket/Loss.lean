import Pricestream.Library.Simulation
import Pricestream.Loss
import Pricestream.Proof.Exchanges

/-!
# What a loss may do

A client of the lossy hub is behind one of a hub that loses nothing: the messages lost to it are still
queued there, and the snapshot that has expired is still sent. When it handles a message, the other one
first handles those it has lost. So a run with losses is a run without them in which every client is sent
some messages more, no more than were lost, in between. Whatever is so of every message a client is sent
is so in spite of losses.
-/

namespace Pricestream

open Library Python

variable {db : Engine} {Venue ι : Type}

/-! ### One client -/

/-- The phases of two clients that differ by an expired snapshot at most. -/
inductive Phase.Trails : Phase Venue → Phase Venue → Prop where
  | same (phase : Phase Venue) : Phase.Trails phase phase
  | expired (snapshot : Snapshot Venue) : Phase.Trails (.fetched none) (.fetched (some snapshot))

/-- The messages `connect` is about to send. -/
def Phase.pending : Phase Venue → ℕ
  | .fetched (some _) => 1
  | .start | .joined | .accepted | .fetched none | .connected | .closed => 0

/-- `connect` has read the cache. -/
def Phase.hasRead : Phase Venue → Bool
  | .fetched _ | .connected | .closed => true
  | .start | .joined | .accepted => false

theorem Phase.Trails.isMember {phase phase' : Phase Venue} (h : phase.Trails phase') :
    phase.isMember = phase'.isMember := by
  cases h <;> rfl

theorem Phase.Trails.pending_le {phase phase' : Phase Venue} (h : phase.Trails phase') :
    phase.pending ≤ phase'.pending := by
  cases h with
  | same => exact le_rfl
  | expired snapshot => exact Nat.zero_le _

/-- The first client was sent a part of what the second was, and will be sent a part of what it will;
what it misses was lost, or has expired before it was read. -/
structure Subscriber.Trails (lost expired : ℕ) (t t' : Subscriber Venue) : Prop where
  phase : t.phase.Trails t'.phase
  received : t.received.Sublist t'.received
  queue : t.queue.Sublist t'.queue
  missed : t'.received.length + t'.queue.length + t'.phase.pending ≤
    t.received.length + t.queue.length + t.phase.pending + lost + if t.phase.hasRead then expired else 0

section Client

variable {lost expired : ℕ} {t t' u : Subscriber Venue} {consumer : QuoteConsumer}
  {feed feed' : Feed db Venue}

theorem Subscriber.Trails.mono (h : t.Trails lost expired t') {lost' expired' : ℕ} (hlost : lost ≤ lost')
    (hexpired : expired ≤ expired') : t.Trails lost' expired' t' := by
  refine { h with missed := h.missed.trans ?_ }
  split_ifs <;> omega

theorem Subscriber.Trails.lose (h : t.Trails lost expired t') (n : ℕ) :
    Subscriber.Trails (lost + 1) expired { t with queue := t.queue.eraseIdx n } t' where
  phase := h.phase
  received := h.received
  queue := (List.eraseIdx_sublist t.queue n).trans h.queue
  missed := by
    have hlength : t.queue.length ≤ (t.queue.eraseIdx n).length + 1 := by
      rw [List.length_eraseIdx]
      split_ifs <;> omega
    have := h.missed
    dsimp only
    omega

theorem Subscriber.Trails.hear (h : t.Trails lost expired t') (hscript : feed.script = feed'.script) :
    (hear consumer feed t).Trails lost expired (hear consumer feed' t') := by
  unfold Subscriber.hear
  rw [← hscript]
  split
  · rename_i group instrument snapshot rest heq
    rw [h.phase.isMember]
    split_ifs
    · refine ⟨h.phase, h.received, h.queue.append (.refl _), ?_⟩
      have := h.missed
      simp only [List.length_append]
      omega
    · exact h
  · exact h

theorem act_eq_some {event : Subscriber.Event} :
    Subscriber.act consumer feed t event = some u ↔
      ∃ s, (Subscriber.session (feed, t)).step consumer (Subscriber.Event.inSession (some event)) = some s ∧
        u = ⟨s.phase, s.queue, s.received⟩ := by
  rw [Subscriber.act, Option.map_eq_some_iff]
  exact exists_congr fun s => and_congr_right fun _ => eq_comm

theorem foldlM_quoteUpdate {front back : List (Payload Venue)} {received : List (Message Venue)} :
    (List.replicate front.length Subscriber.Event.quoteUpdate).foldlM (Subscriber.act consumer feed)
        ⟨.connected, front ++ back, received⟩ =
      some ⟨.connected, back, received ++ front.map .update⟩ := by
  induction front generalizing received with
  | nil => simp
  | cons payload front ih =>
      rw [List.length_cons, List.replicate_succ, List.foldlM_cons]
      refine (@ih (received ++ [.update payload])).trans ?_
      rw [List.map_cons, List.append_assoc, List.singleton_append]

/-- Whatever the client does, the other one does, after it has caught up. -/
theorem Subscriber.Trails.act (h : t.Trails lost expired t')
    (hcache : feed.cache consumer.snapshotKey = feed'.cache consumer.snapshotKey ∨
      feed.cache consumer.snapshotKey = none ∧ 0 < expired)
    {event : Subscriber.Event} (hact : Subscriber.act consumer feed t event = some u) :
    ∃ (events : List Subscriber.Event) (u' : Subscriber Venue),
      events.foldlM (Subscriber.act consumer feed') t' = some u' ∧ u.Trails lost expired u' := by
  obtain ⟨phase, queue, received⟩ := t
  obtain ⟨phase', queue', received'⟩ := t'
  obtain ⟨hphase, hreceived, hqueue, hmissed⟩ := h
  dsimp only at hphase hreceived hqueue hmissed
  obtain ⟨s, hs, rfl⟩ := act_eq_some.mp hact
  cases event with
  | groupAdd =>
      obtain ⟨rfl, rfl⟩ := groupAdd_step hs
      cases hphase
      exact ⟨[.groupAdd], ⟨.joined, queue', received'⟩, rfl, .same _, hreceived, hqueue, hmissed⟩
  | accept =>
      obtain ⟨rfl, rfl⟩ := accept_step hs
      cases hphase
      exact ⟨[.accept], ⟨.accepted, queue', received'⟩, rfl, .same _, hreceived, hqueue, hmissed⟩
  | cacheGet =>
      obtain ⟨rfl, rfl⟩ := cacheGet_step hs
      cases hphase
      refine ⟨[.cacheGet], ⟨.fetched (feed'.cache consumer.snapshotKey), queue', received'⟩, rfl, ?_⟩
      change Subscriber.Trails lost expired ⟨.fetched (feed.cache consumer.snapshotKey), queue, received⟩ _
      simp only [Phase.pending, Phase.hasRead, Bool.false_eq_true, if_false] at hmissed
      rcases hcache with heq | ⟨hnone, hpos⟩
      · rw [heq]
        refine ⟨.same _, hreceived, hqueue, ?_⟩
        simp only [Phase.hasRead, if_true]
        omega
      · rw [hnone]
        cases feed'.cache consumer.snapshotKey with
        | none =>
            refine ⟨.same _, hreceived, hqueue, ?_⟩
            simp only [Phase.pending, Phase.hasRead, if_true]
            omega
        | some snapshot =>
            refine ⟨.expired snapshot, hreceived, hqueue, ?_⟩
            simp only [Phase.pending, Phase.hasRead, if_true]
            omega
  | send =>
      obtain ⟨found, rfl, rfl⟩ := send_step hs
      cases hphase with
      | same =>
          have hsend : [Subscriber.Event.send].foldlM (Subscriber.act consumer feed')
              ⟨.fetched found, queue', received'⟩ =
                some ⟨.connected, queue', received' ++ greet consumer found⟩ := by
            cases found with
            | none =>
                rw [greet, Option.toList_none, List.map_nil, List.append_nil]
                rfl
            | some snapshot => rfl
          refine ⟨_, _, hsend, .same _, hreceived.append (.refl _), hqueue, ?_⟩
          change _ ≤ (received ++ greet consumer found).length + queue.length + 0 + lost + expired
          simp only [Phase.hasRead, if_true] at hmissed
          simp only [Phase.pending, List.length_append]
          omega
      | expired snapshot =>
          refine ⟨[.send], ⟨.connected, queue', received' ++ greet consumer (some snapshot)⟩, rfl, .same _,
            ?_, hqueue, ?_⟩
          · exact hreceived.append (List.nil_sublist _)
          · change (received' ++ [_]).length + queue'.length + 0 ≤
              (received ++ []).length + queue.length + 0 + lost + expired
            simp only [Phase.pending, Phase.hasRead, if_true] at hmissed
            simp only [List.length_append, List.length_nil, List.length_singleton]
            omega
  | quoteUpdate =>
      obtain ⟨rfl, payload, rest, rfl, rfl⟩ := quoteUpdate_step hs
      cases hphase
      -- The messages in front of this one were lost, and the other client still has to handle them.
      obtain ⟨before, after, rfl, hmem, hrest⟩ := List.cons_sublist_iff.mp hqueue
      obtain ⟨front, between, rfl⟩ := List.append_of_mem hmem
      have hsplit : front ++ payload :: between ++ after = (front ++ [payload]) ++ (between ++ after) := by
        simp
      rw [hsplit] at hmissed ⊢
      refine ⟨_, _, foldlM_quoteUpdate, .same _, ?_, ?_, ?_⟩
      · rw [List.map_append, List.map_singleton]
        exact hreceived.append (List.sublist_append_right _ _)
      · exact hrest.trans (List.sublist_append_right _ _)
      · change _ ≤ (received ++ [_]).length + rest.length + 0 + lost + expired
        simp only [Phase.pending, Phase.hasRead, if_true, List.length_append, List.length_map,
          List.length_cons, List.length_nil] at hmissed ⊢
        omega
  | disconnect =>
      obtain ⟨rfl, rfl⟩ := disconnect_step hs
      cases hphase
      have hlength := hqueue.length_le
      refine ⟨[.disconnect], ⟨.closed, [], received'⟩, rfl, .same _, hreceived, .refl _, ?_⟩
      change received'.length + 0 + 0 ≤ received.length + 0 + 0 + lost + expired
      simp only [Phase.pending, Phase.hasRead, if_true] at hmissed
      omega

end Client

/-! ### The hub -/

section Hub

variable [DecidableEq ι] {consumers : ι → QuoteConsumer} {past : List (LossyEvent ι)}
  {c c' : HubState db Venue ι}

/-- The first hub has lost something that the second one has not. -/
structure Trails (consumers : ι → QuoteConsumer) (past : List (LossyEvent ι)) (c c' : HubState db Venue ι) :
    Prop where
  script : c.1.script = c'.1.script
  cache : ∀ key, c.1.cache key = c'.1.cache key ∨
    c.1.cache key = none ∧ 0 < past.countP (LossyEvent.expires key)
  clients : ∀ i, (c.2 i).Trails (past.countP (LossyEvent.loses i))
    (past.countP (LossyEvent.expires (consumers i).snapshotKey)) (c'.2 i)

theorem trails_init (consumers : ι → QuoteConsumer) (script : List (Effect db Venue)) :
    Trails consumers [] (HubState.init script) (HubState.init script) where
  script := rfl
  cache _ := Or.inl rfl
  clients _ := ⟨.same _, .refl _, .refl _, le_rfl⟩

omit [DecidableEq ι] in
theorem countP_concat_le (p : LossyEvent ι → Bool) (past : List (LossyEvent ι)) (event : LossyEvent ι) :
    past.countP p ≤ (past ++ [event]).countP p := by
  rw [List.countP_append]
  exact Nat.le_add_right _ _

theorem Trails.concat (h : Trails consumers past c c') (event : LossyEvent ι) :
    Trails consumers (past ++ [event]) c c' where
  script := h.script
  cache key := (h.cache key).imp_right fun hlost => ⟨hlost.1, hlost.2.trans_le (countP_concat_le _ _ _)⟩
  clients i := (h.clients i).mono (countP_concat_le _ _ _) (countP_concat_le _ _ _)

theorem exists_advance {feed feed' next : Feed db Venue} {forgot : Str → Prop}
    (hscript : feed.script = feed'.script)
    (hcache : ∀ key, feed.cache key = feed'.cache key ∨ feed.cache key = none ∧ forgot key)
    (h : feed.advance = some next) :
    ∃ next', feed'.advance = some next' ∧ next.script = next'.script ∧
      ∀ key, next.cache key = next'.cache key ∨ next.cache key = none ∧ forgot key := by
  obtain ⟨script, cache⟩ := feed
  obtain ⟨script', cache'⟩ := feed'
  obtain rfl : script = script' := hscript
  cases script with
  | nil => cases h
  | cons effect rest =>
      cases effect with
      | cacheSet key snapshot =>
          obtain rfl := Option.some.inj h
          refine ⟨_, rfl, rfl, fun key' => ?_⟩
          by_cases hkey : key' = key
          · exact Or.inl (by simp [hkey])
          · simpa [hkey] using hcache key'
      | insert _ | inc _ | publish _ _ | groupSend _ _ _ =>
          obtain rfl := Option.some.inj h
          exact ⟨_, rfl, rfl, hcache⟩

theorem Trails.advance (h : Trails consumers past c c') {t : HubState db Venue ι}
    (hstep : (hub consumers).step c .advance = some t) :
    ∃ t', (hub consumers).step c' .advance = some t' ∧ Trails consumers past t t' := by
  obtain ⟨feed, hfeed, rfl⟩ := Parties.advance_step hstep
  obtain ⟨feed', hfeed', hscript, hcache⟩ := exists_advance h.script h.cache hfeed
  refine ⟨_, Option.map_eq_some_iff.mpr ⟨feed', hfeed', rfl⟩, hscript, hcache, fun i => ?_⟩
  exact (h.clients i).hear h.script

theorem Trails.act (h : Trails consumers past c c') {i : ι} {event : Subscriber.Event}
    {t : HubState db Venue ι} (hstep : (hub consumers).step c (.act i event) = some t) :
    ∃ events t', (hub consumers).run c' events = some t' ∧ Trails consumers past t t' := by
  obtain ⟨u, hu, rfl⟩ := Parties.act_step hstep
  obtain ⟨events, u', hevents, hu'⟩ := (h.clients i).act (h.cache _) hu
  refine ⟨_, _, Parties.run_acts hevents, h.script, h.cache, fun j => ?_⟩
  by_cases hij : j = i
  · subst hij
    simpa using hu'
  · simpa [hij] using h.clients j

/-- Each step of the lossy hub is matched by steps of the other. -/
theorem simulates_lossyStep (consumers : ι → QuoteConsumer) :
    Simulates (lossyStep consumers) (hub consumers).step
      (Trails consumers : _ → HubState db Venue ι → HubState db Venue ι → Prop) := by
  intro past c c' event t h hstep
  cases event with
  | step event =>
      cases event with
      | advance =>
          obtain ⟨t', ht', htrails⟩ := h.advance hstep
          exact ⟨[.advance], t', Parties.run_cons.mpr ⟨t', ht', rfl⟩, htrails.concat _⟩
      | act i event =>
          obtain ⟨events, t', hrun, htrails⟩ := h.act hstep
          exact ⟨events, t', hrun, htrails.concat _⟩
  | expire key =>
      obtain rfl := Option.some.inj hstep
      refine ⟨[], c', rfl, { (h.concat (.expire key)) with cache := fun key' => ?_ }⟩
      by_cases hkey : key' = key
      · subst hkey
        refine Or.inr ⟨Function.update_self _ _ _, ?_⟩
        rw [List.countP_append, List.countP_singleton]
        simp [LossyEvent.expires]
      · simpa [hkey] using (h.concat (.expire key)).cache key'
  | lose i n =>
      obtain rfl := Option.some.inj hstep
      refine ⟨[], c', rfl, { (h.concat (.lose i n)) with clients := fun j => ?_ }⟩
      by_cases hij : j = i
      · subst hij
        have hlost : (past ++ [LossyEvent.lose j n]).countP (LossyEvent.loses j) =
            past.countP (LossyEvent.loses j) + 1 := by
          rw [List.countP_append, List.countP_singleton]
          simp [LossyEvent.loses]
        simp only [Function.update_self]
        rw [hlost]
        exact ((h.clients j).lose n).mono le_rfl (countP_concat_le _ _ _)
      · simpa [hij] using (h.concat (.lose i n)).clients j

theorem exists_lossless {script : List (Effect db Venue)} {events : List (LossyEvent ι)}
    (hrun : lossyRun consumers (HubState.init script) events = some c) :
    ∃ (events' : List (Parties.Event ι Subscriber.Event)) (c' : HubState db Venue ι),
      (hub consumers).run (HubState.init script) events' = some c' ∧ Trails consumers events c c' :=
  (simulates_lossyStep consumers).run (trails_init consumers script) hrun

/-- **A loss is a message less.** For every run with losses there is one without, in which the publisher
comes as far and every client is sent the same messages and some more in between, at most as many as were
lost to it. -/
theorem losses_only_miss (consumers : ι → QuoteConsumer) (script : List (Effect db Venue))
    {events : List (LossyEvent ι)} {c : HubState db Venue ι}
    (hrun : lossyRun consumers (HubState.init script) events = some c) :
    ∃ (events' : List (Parties.Event ι Subscriber.Event)) (c' : HubState db Venue ι),
      (hub consumers).run (HubState.init script) events' = some c' ∧
      c'.1.script = c.1.script ∧ ∀ i,
        (c.session i).received.Sublist (c'.session i).received ∧
        (c'.session i).received.length ≤ (c.session i).received.length +
          events.countP (LossyEvent.loses i) +
            events.countP (LossyEvent.expires (consumers i).snapshotKey) := by
  obtain ⟨events', c', hrun', h⟩ := exists_lossless hrun
  refine ⟨events', c', hrun', h.script.symm, fun i => ⟨(h.clients i).received, ?_⟩⟩
  have hmissed := (h.clients i).missed
  have hqueue := (h.clients i).queue.length_le
  have hpending := (h.clients i).phase.pending_le
  show (c'.2 i).received.length ≤ (c.2 i).received.length + _ + _
  split_ifs at hmissed <;> omega

/-- So what is shown rests on documents in spite of losses. -/
theorem lossy_shown_rests_on_documents {consumers : ι → QuoteConsumer} {polls : List (Poll × InstrumentTable)}
    {events : List (LossyEvent ι)} {c : HubState db Source ι}
    (hrun : lossyRun consumers
      (HubState.init (roundsScript db (polls.map fun p => (p.1.live, p.2)))) events = some c)
    {i : ι} {m : Message Source} (hm : m ∈ (c.session i).received) :
    ∃ p ∈ polls, RestsOn p.1 (consumers i).symbol m.payload.snapshot := by
  obtain ⟨events', c', hrun', h⟩ := exists_lossless hrun
  exact rests_of_received hrun' ((h.clients i).received.subset hm)

end Hub

/-! ### A snapshot and an update lost -/

def oneClient : Unit → QuoteConsumer := fun _ => .ofRoute (Str.ofString "btc-usd")

/-- The snapshot expires before it is read, and the first of two updates is lost. -/
def lossyConnect : List (LossyEvent Unit) :=
  [.step (.act () .groupAdd)] ++ List.replicate 8 (.step .advance) ++
    [.expire (Str.ofString "pricestream:mid:BTC-USD"), .step (.act () .accept),
      .step (.act () .cacheGet), .step (.act () .send)] ++
    List.replicate 8 (.step .advance) ++ [.lose () 0, .step (.act () .quoteUpdate)]

/-- The client is sent one message of three. -/
theorem lossyConnect_only_misses :
    ∃ c : HubState .postgres ℕ Unit,
      lossyRun oneClient (HubState.init (roundsScript .postgres twoRoundsInTurn)) lossyConnect = some c ∧
      (c.session ()).received.length = 1 ∧
      ∃ (events' : List (Parties.Event Unit Subscriber.Event)) (c' : HubState .postgres ℕ Unit),
        (hub oneClient).run (HubState.init (roundsScript .postgres twoRoundsInTurn)) events' = some c' ∧
        (c.session ()).received.Sublist (c'.session ()).received ∧
        (c'.session ()).received.length ≤ 3 := by
  have hsome : (lossyRun oneClient (HubState.init (roundsScript .postgres twoRoundsInTurn))
      lossyConnect).map (fun c : HubState .postgres ℕ Unit => (c.session ()).received.length) = some 1 := by
    decide +kernel
  obtain ⟨c, hrun, hlength⟩ := Option.map_eq_some_iff.mp hsome
  obtain ⟨events', c', hrun', _, hclients⟩ := losses_only_miss _ _ hrun
  obtain ⟨hsublist, hbound⟩ := hclients ()
  refine ⟨c, hrun, hlength, events', c', hrun', hsublist, hbound.trans ?_⟩
  rw [hlength]
  decide

end Pricestream
