import Pricestream.Hub
import Pricestream.Proof.Tasks.Books
import Pricestream.Proof.WebSocket.Order

/-!
# Many clients at once

No client sees another: the hub takes a sequence of steps exactly if each client's session takes its
part of them. What a single session is promised is therefore promised to each of the clients, and what
remains is how they compare. All clients of a symbol are sent parts of one and the same sequence, each
from its own joining on, so of two that stay the one that joined later is sent the end of what the
other is.
-/

namespace Pricestream

open Library Python

variable {db : Engine} {Venue ι : Type}

/-! ### The hub as its sessions -/

section Sessions

variable {consumer : QuoteConsumer} {v v' : Feed db Venue × Subscriber Venue}

theorem session_injective : Function.Injective (Subscriber.session : Feed db Venue × Subscriber Venue → _) := by
  intro v v' h
  obtain ⟨hscript, hcache, hphase, hqueue, hreceived⟩ := Session.mk.inj h
  obtain ⟨⟨script, cache⟩, phase, queue, received⟩ := v
  obtain ⟨⟨script', cache'⟩, phase', queue', received'⟩ := v'
  simp_all

theorem feed_step {s s' : Session db Venue} {event : Subscriber.Event}
    (h : s.step consumer (Subscriber.Event.inSession (some event)) = some s') :
    s'.script = s.script ∧ s'.cache = s.cache := by
  cases event with
  | groupAdd =>
      obtain ⟨_, rfl⟩ := groupAdd_step h
      exact ⟨rfl, rfl⟩
  | accept =>
      obtain ⟨_, rfl⟩ := accept_step h
      exact ⟨rfl, rfl⟩
  | cacheGet =>
      obtain ⟨_, rfl⟩ := cacheGet_step h
      exact ⟨rfl, rfl⟩
  | send =>
      obtain ⟨_, _, rfl⟩ := send_step h
      exact ⟨rfl, rfl⟩
  | quoteUpdate =>
      obtain ⟨_, _, _, _, rfl⟩ := quoteUpdate_step h
      exact ⟨rfl, rfl⟩
  | disconnect =>
      obtain ⟨_, rfl⟩ := disconnect_step h
      exact ⟨rfl, rfl⟩

theorem session_publish :
    ((Feed.advance v.1).map fun feed => (feed, Subscriber.hear consumer v.1 v.2)).map Subscriber.session =
      (Subscriber.session v).step consumer .publish := by
  obtain ⟨⟨script, cache⟩, subscriber⟩ := v
  cases script with
  | nil => rfl
  | cons effect rest =>
      cases effect with
      | groupSend group instrument snapshot =>
          by_cases h : subscriber.phase.isMember ∧ group = consumer.group
          · simp [Feed.advance, Subscriber.hear, Subscriber.session, Session.step, Session.perform, h]
          · simp [Feed.advance, Subscriber.hear, Subscriber.session, Session.step, Session.perform, h]
      | insert _ | inc _ | publish _ _ | cacheSet _ _ => rfl

variable {consumers : ι → QuoteConsumer} {i : ι}

/-- One client in the hub takes the steps of its session. -/
theorem soloStep_eq (consumers : ι → QuoteConsumer) (i : ι) (e : Option Subscriber.Event) :
    ((hub consumers).soloStep i v e).map Subscriber.session =
      (Subscriber.session v).step (consumers i) (Subscriber.Event.inSession e) := by
  cases e with
  | none => exact session_publish
  | some event =>
      show (((((Subscriber.session v).step (consumers i) _).map _).map _).map _) = _
      cases hstep : (Subscriber.session v).step (consumers i) (Subscriber.Event.inSession (some event)) with
      | none => rfl
      | some s' =>
          obtain ⟨hscript, hcache⟩ := feed_step hstep
          refine congrArg some ?_
          show Session.mk (Subscriber.session v).script (Subscriber.session v).cache _ _ _ = s'
          rw [← hscript, ← hcache]

theorem soloRun_eq (l : List (Option Subscriber.Event)) :
    ((hub consumers).soloRun i v l).map Subscriber.session =
      (Subscriber.session v).run (consumers i) (l.map Subscriber.Event.inSession) := by
  induction l generalizing v with
  | nil => rfl
  | cons e l ih =>
      rw [List.map_cons, Session.run, List.foldlM_cons, ← soloStep_eq, Parties.soloRun,
        List.foldlM_cons]
      cases (hub consumers).soloStep i v e with
      | none => rfl
      | some v₁ => exact ih

variable [DecidableEq ι] {events : List (Parties.Event ι Subscriber.Event)} {c : HubState db Venue ι}
  {script : List (Effect db Venue)}

theorem session_run_iff :
    (hub consumers).soloRun i (Parties.view i (HubState.init script))
        (events.filterMap (Parties.Event.seenBy i)) = some (Parties.view i c) ↔
      (Session.init script).run (consumers i) (sessionEvents i events) = some (c.session i) := by
  rw [sessionEvents, show Session.init script = Subscriber.session (Parties.view i (HubState.init script))
    from rfl, ← soloRun_eq, HubState.session, Option.map_eq_some_iff]
  constructor
  · intro h
    exact ⟨_, h, rfl⟩
  · rintro ⟨v, hv, heq⟩
    rw [hv, session_injective heq]

theorem session_of_run (h : (hub consumers).run (HubState.init script) events = some c) (i : ι) :
    (Session.init script).run (consumers i) (sessionEvents i events) = some (c.session i) :=
  session_run_iff.mp (Parties.soloRun_of_run h i)

/-- **No client is in another's way.** -/
theorem clients_independent [Inhabited ι] (consumers : ι → QuoteConsumer)
    (script : List (Effect db Venue)) (events : List (Parties.Event ι Subscriber.Event))
    (c : HubState db Venue ι) :
    (hub consumers).run (HubState.init script) events = some c ↔
      ∀ i, (Session.init script).run (consumers i) (sessionEvents i events) = some (c.session i) := by
  rw [Parties.run_iff]
  exact forall_congr' fun i => session_run_iff

end Sessions

/-! ### One sequence for all -/

/-- The updates a client has received. -/
def Session.updates (s : Session db Venue) : List (Payload Venue) := s.received.filterMap Message.update?

/-- The updates that have reached a client's channel, whether they are delivered yet or not. -/
def Session.channel (s : Session db Venue) : List (Payload Venue) := s.updates ++ s.queue

theorem Session.Done.channel {s : Session db Venue} (h : s.Done) : s.channel = s.updates := by
  rw [Session.channel, h.queue, List.append_nil]

section Channels

variable {consumer : QuoteConsumer} {s s' : Session db Venue}

theorem channel_publish {effect : Effect db Venue} {rest : List (Effect db Venue)} :
    ({ s.perform consumer effect with script := rest } : Session db Venue).channel =
      s.channel ++ if s.phase.isMember then (effect.sent? consumer.symbol).toList else [] := by
  show (s.perform consumer effect).received.filterMap _ ++ (s.perform consumer effect).queue = _
  rw [perform_received, perform_queue, ← List.append_assoc]
  rfl

theorem channel_step {event : Subscriber.Event}
    (h : s.step consumer (Subscriber.Event.inSession (some event)) = some s') :
    s.phase ≠ .closed ∧ s'.phase ≠ .start ∧ (s'.phase = .closed ∨ s'.channel = s.channel) := by
  cases event with
  | groupAdd =>
      obtain ⟨hphase, rfl⟩ := groupAdd_step h
      exact ⟨by simp [hphase], by simp, Or.inr rfl⟩
  | accept =>
      obtain ⟨hphase, rfl⟩ := accept_step h
      exact ⟨by simp [hphase], by simp, Or.inr rfl⟩
  | cacheGet =>
      obtain ⟨hphase, rfl⟩ := cacheGet_step h
      exact ⟨by simp [hphase], by simp, Or.inr rfl⟩
  | send =>
      obtain ⟨found, hphase, rfl⟩ := send_step h
      refine ⟨by simp [hphase], by simp, Or.inr ?_⟩
      have hgreet : (greet consumer found).filterMap Message.update? = [] := by
        simpa using @updates_greet _ consumer found []
      rw [Session.channel, Session.updates, List.filterMap_append, hgreet, List.append_nil]
      rfl
  | quoteUpdate =>
      obtain ⟨hphase, payload, rest, hqueue, rfl⟩ := quoteUpdate_step h
      refine ⟨by simp [hphase], by simp [hphase], Or.inr ?_⟩
      rw [Session.channel, Session.channel, Session.updates, Session.updates, List.filterMap_append,
        hqueue, List.append_assoc]
      rfl
  | disconnect =>
      obtain ⟨hphase, rfl⟩ := disconnect_step h
      exact ⟨by simp [hphase], by simp, Or.inl rfl⟩

end Channels

/-- Client `j` joins behind client `i`, and as long as both stay it is sent the end of what `i` is. -/
structure Follows (i j : ι) (c : HubState db Venue ι) : Prop where
  joined : (c.session i).phase ≠ .start
  fresh : (c.session j).phase = .start → (c.session j).channel = []
  suffix : (c.session i).phase ≠ .closed → (c.session j).phase ≠ .closed →
    (c.session j).channel <:+ (c.session i).channel

theorem isMember_of_open {phase : Phase Venue} (hstart : phase ≠ .start) (hopen : phase ≠ .closed) :
    phase.isMember = true := by
  cases phase with
  | start => exact absurd rfl hstart
  | closed => exact absurd rfl hopen
  | joined | accepted | fetched _ | connected => rfl

section Following

variable [DecidableEq ι] {consumers : ι → QuoteConsumer} {i j k : ι} {c c' : HubState db Venue ι}

theorem session_advance (h : (hub consumers).step c .advance = some c') (k : ι) :
    ∃ effect rest, c.1.script = effect :: rest ∧
      c'.session k = { (c.session k).perform (consumers k) effect with script := rest } := by
  have hsolo := Parties.soloStep_of_seen (Parties.Event.seenBy_advance k) h
  have hstep := (soloStep_eq consumers k none).symm.trans
    (congrArg (Option.map Subscriber.session) hsolo)
  exact publish_step hstep

theorem session_act {event : Subscriber.Event} (h : (hub consumers).step c (.act k event) = some c') :
    (c.session k).step (consumers k) (Subscriber.Event.inSession (some event)) = some (c'.session k) := by
  have hsolo := Parties.soloStep_of_seen (Parties.Event.seenBy_act_self k event) h
  exact (soloStep_eq consumers k (some event)).symm.trans
    (congrArg (Option.map Subscriber.session) hsolo)

theorem session_act_of_ne {event : Subscriber.Event} (hne : i ≠ k)
    (h : (hub consumers).step c (.act k event) = some c') : c'.session i = c.session i :=
  congrArg Subscriber.session (Parties.view_of_unseen (Parties.Event.seenBy_act_of_ne hne event) h)

theorem Follows.step (hsymbol : (consumers i).symbol = (consumers j).symbol) (hne : i ≠ j)
    (h : Follows i j c) {event : Parties.Event ι Subscriber.Event}
    (hstep : (hub consumers).step c event = some c') : Follows i j c' := by
  cases event with
  | advance =>
      obtain ⟨effect, rest, hscript, hi⟩ := session_advance hstep i
      obtain ⟨effect', rest', hscript', hj⟩ := session_advance hstep j
      obtain ⟨rfl, rfl⟩ := List.cons.inj (hscript.symm.trans hscript')
      have hphasei : (c'.session i).phase = (c.session i).phase := by
        rw [hi]
        exact perform_phase _ _ _
      have hphasej : (c'.session j).phase = (c.session j).phase := by
        rw [hj]
        exact perform_phase _ _ _
      refine ⟨hphasei ▸ h.joined, fun hstart => ?_, fun hopen hopen' => ?_⟩
      · rw [hphasej] at hstart
        rw [hj, channel_publish, h.fresh hstart, hstart]
        rfl
      · rw [hphasei] at hopen
        rw [hphasej] at hopen'
        rw [hi, hj, channel_publish, channel_publish, ← hsymbol]
        by_cases hstart : (c.session j).phase = .start
        · -- Nothing has reached `j` yet.
          rw [h.fresh hstart, hstart]
          exact List.nil_suffix
        · -- Both are members, and both are sent the same.
          rw [if_pos (isMember_of_open h.joined hopen), if_pos (isMember_of_open hstart hopen')]
          exact List.suffix_append_self_iff.mpr (h.suffix hopen hopen')
  | act k event =>
      by_cases hki : i = k
      · subst hki
        have hj := session_act_of_ne (Ne.symm hne) hstep
        obtain ⟨hopen, hstart, hchannel⟩ := channel_step (session_act hstep)
        refine ⟨hstart, hj ▸ h.fresh, fun hopen' hopenj => ?_⟩
        rw [hj] at hopenj ⊢
        rw [hchannel.resolve_left hopen']
        exact h.suffix hopen hopenj
      · have hi := session_act_of_ne hki hstep
        by_cases hkj : j = k
        · subst hkj
          obtain ⟨hopen, hstart, hchannel⟩ := channel_step (session_act hstep)
          refine ⟨hi ▸ h.joined, fun hphase => absurd hphase hstart, fun hopeni hopen' => ?_⟩
          rw [hi] at hopeni ⊢
          rw [hchannel.resolve_left hopen']
          exact h.suffix hopeni hopen
        · have hj := session_act_of_ne hkj hstep
          exact ⟨hi ▸ h.joined, hj ▸ h.fresh, hi ▸ hj ▸ h.suffix⟩

end Following

/-! ### Every run of the hub -/

/-- How the clients compare that a run of the hub has taken from `c₀` to `c`. -/
structure Agree (consumers : ι → QuoteConsumer) (script : List (Effect db Venue))
    (c₀ c : HubState db Venue ι) : Prop where
  /-- A client has received, in order and without a gap, what its group was sent from some moment on. -/
  segment : ∀ i, ∃ joined, (c.session i).updates <+: (sends (consumers i) script).drop joined ∧
    ((c.session i).Done → (c.session i).updates = (sends (consumers i) script).drop joined)
  /-- While two clients of a symbol stay, the later one is sent the end of what the earlier one is. -/
  follows : ∀ i j, (consumers i).symbol = (consumers j).symbol →
    (c₀.session i).phase.isMember = true → (c₀.session j).phase = .start →
    (c.session i).phase ≠ .closed → (c.session j).phase ≠ .closed →
    (c.session j).channel <:+ (c.session i).channel
  /-- In the end one of them has received the end of what the other has. -/
  nested : ∀ i j, (consumers i).symbol = (consumers j).symbol →
    (c.session i).Done → (c.session j).Done →
    (c.session i).updates <:+ (c.session j).updates ∨ (c.session j).updates <:+ (c.session i).updates
  /-- If the updates of the symbol are announced one after the other, both show the same in the end. -/
  last : ∀ i j updates, (consumers i).symbol = (consumers j).symbol →
    Announces (consumers i).symbol updates script → (c.session i).Done → (c.session j).Done →
    (c.session i).received.getLast?.map Message.payload =
      (c.session j).received.getLast?.map Message.payload

section Runs

variable {consumer : QuoteConsumer} {script : List (Effect db Venue)} {updates : List (Snapshot Venue)}
  {events : List Session.Event} {s : Session db Venue}

theorem updates_of_run (hrun : (Session.init script).run consumer events = some s) :
    ∃ joined, s.updates <+: (sends consumer script).drop joined ∧
      (s.Done → s.updates = (sends consumer script).drop joined) := by
  rcases (connecting_init _ _).run hrun with ⟨_, _, h⟩ | ⟨_, _, _, joined, _, _, _, _, _, _, hsettled⟩
  · refine ⟨0, ?_, fun hdone => ?_⟩
    · rw [Session.updates, h.received]
      exact List.nil_prefix
    · rcases h.phase with ⟨hphase, _⟩ | ⟨hphase | hphase, _⟩ <;> rw [hdone.phase] at hphase <;> cases hphase
  · rcases hsettled.delivered with ⟨hreceived, hnot⟩ | ⟨delivered, hfront, hreceived, hdone⟩
    · refine ⟨joined, ?_, fun hdone => absurd hdone hnot⟩
      rw [Session.updates, hreceived]
      exact List.nil_prefix
    · have hupdates : s.updates = delivered := by rw [Session.updates, hreceived, updates_greet]
      rw [hupdates]
      exact ⟨joined, hfront, hdone⟩

theorem last_of_run (hscript : Announces consumer.symbol updates script)
    (hrun : (Session.init script).run consumer events = some s) (hdone : s.Done) :
    s.received.getLast?.map Message.payload = updates.getLast?.map (Payload.mk consumer.symbol) := by
  rcases received_of_run hscript hrun with ⟨_, hnot⟩ |
    ⟨joined, read, count, hjoined, hread, hreceived, hcount⟩
  · exact absurd hdone hnot
  · have hle := hcount hdone
    have hall : (updates.drop joined).length ≤ count := by
      rw [List.length_drop]
      omega
    rw [hreceived, streamOf, List.take_of_length_le hall]
    cases hlast : updates.getLast? with
    | none =>
        rw [List.getLast?_eq_none_iff] at hlast
        simp [hlast, greet]
    | some update =>
        rcases @getLast?_stream _ consumer.symbol _ _ _ hjoined hread _ hlast with heq | heq
        · exact congrArg (Option.map Message.payload) heq
        · exact congrArg (Option.map Message.payload) heq

variable [DecidableEq ι] {consumers : ι → QuoteConsumer} {i j : ι} {c₀ c : HubState db Venue ι}
  {hubEvents before after : List (Parties.Event ι Subscriber.Event)}

theorem channel_of_start (hrun : (hub consumers).run (HubState.init script) hubEvents = some c)
    (hstart : (c.session j).phase = .start) : (c.session j).channel = [] := by
  rcases (connecting_init _ script).run (session_of_run hrun j) with
    ⟨_, _, h⟩ | ⟨_, _, _, _, _, _, _, _, _, _, hsettled⟩
  · have hqueue : (c.session j).queue = [] := by simpa [hstart] using h.phase
    rw [Session.channel, Session.updates, h.received, hqueue]
    rfl
  · exact absurd hsettled.phase (by simp [hstart])

theorem follows_of_run (hbefore : (hub consumers).run (HubState.init script) before = some c₀)
    (hafter : (hub consumers).run c₀ after = some c)
    (hsymbol : (consumers i).symbol = (consumers j).symbol)
    (hmember : (c₀.session i).phase.isMember = true) (hstart : (c₀.session j).phase = .start) :
    Follows i j c := by
  have hne : i ≠ j := by
    rintro rfl
    rw [hstart] at hmember
    cases hmember
  have hnil := channel_of_start hbefore hstart
  have hjoined : (c₀.session i).phase ≠ .start := by
    intro h
    rw [h] at hmember
    cases hmember
  have hinit : Follows i j c₀ := ⟨hjoined, fun _ => hnil, fun _ _ => hnil ▸ List.nil_suffix⟩
  exact Parties.run_keeps (fun _ _ _ h hstep => h.step hsymbol hne hstep) hinit hafter

/-- **All clients of a symbol are shown one sequence.** -/
theorem clients_agree (consumers : ι → QuoteConsumer) (script : List (Effect db Venue))
    (hbefore : (hub consumers).run (HubState.init script) before = some c₀)
    (hafter : (hub consumers).run c₀ after = some c) : Agree consumers script c₀ c := by
  have hrun := Parties.run_append.mpr ⟨c₀, hbefore, hafter⟩
  refine ⟨fun i => updates_of_run (session_of_run hrun i), ?_, ?_, ?_⟩
  · intro i j hsymbol hmember hstart
    exact (follows_of_run hbefore hafter hsymbol hmember hstart).suffix
  · intro i j hsymbol hdonei hdonej
    obtain ⟨joined, _, hi⟩ := updates_of_run (session_of_run hrun i)
    obtain ⟨joined', _, hj⟩ := updates_of_run (session_of_run hrun j)
    rw [hi hdonei, hj hdonej, sends, sends, hsymbol]
    exact List.suffix_or_suffix_of_suffix (List.drop_suffix _ _) (List.drop_suffix _ _)
  · intro i j updates hsymbol hscript hdonei hdonej
    rw [last_of_run hscript (session_of_run hrun i) hdonei,
      last_of_run (hsymbol ▸ hscript) (session_of_run hrun j) hdonej, hsymbol]

end Runs

/-- Two clients on the path of one symbol. -/
def twoClients : Bool → QuoteConsumer := fun _ => .ofRoute (Str.ofString "btc-usd")

/-- One client connects, and is there for the first round. -/
def firstConnects : List (Parties.Event Bool Subscriber.Event) :=
  [.act false .groupAdd, .act false .accept, .act false .cacheGet, .act false .send] ++
    List.replicate 8 .advance ++ [.act false .quoteUpdate]

/-- The other connects, and both are there for the second round. -/
def secondConnects : List (Parties.Event Bool Subscriber.Event) :=
  [.act true .groupAdd, .act true .accept, .act true .cacheGet, .act true .send] ++
    List.replicate 8 .advance ++ [.act true .quoteUpdate, .act false .quoteUpdate]

theorem two_clients_agree :
    ∃ c₀ c, (hub twoClients).run (HubState.init (roundsScript .postgres twoRoundsInTurn))
        firstConnects = some c₀ ∧
      (hub twoClients).run c₀ secondConnects = some c ∧
      Agree twoClients (roundsScript .postgres twoRoundsInTurn) c₀ c := by
  have hsome : ((hub twoClients).run (HubState.init (roundsScript .postgres twoRoundsInTurn))
      (firstConnects ++ secondConnects)).isSome := by decide +kernel
  obtain ⟨c, hrun⟩ := Option.isSome_iff_exists.mp hsome
  obtain ⟨c₀, hbefore, hafter⟩ := Parties.run_append.mp hrun
  exact ⟨c₀, c, hbefore, hafter, clients_agree _ _ hbefore hafter⟩

/-! ### What is shown is stored -/

/-- The message repeats something the publisher has done. -/
def Message.SentIn (consumer : QuoteConsumer) (past : List (Effect db Venue)) : Message Venue → Prop
  | .snapshot payload =>
      payload.instrument = consumer.symbol ∧ .cacheSet consumer.snapshotKey payload.snapshot ∈ past
  | .update payload => .groupSend consumer.group payload.instrument payload.snapshot ∈ past

/-- Whatever is on its way to a client, or with it, repeats what the publisher has done. -/
structure Sourced (consumer : QuoteConsumer) (script past : List (Effect db Venue))
    (s : Session db Venue) : Prop where
  split : past ++ s.script = script
  cache : ∀ snapshot, s.cache consumer.snapshotKey = some snapshot →
    (Message.snapshot ⟨consumer.symbol, snapshot⟩).SentIn consumer past
  fetched : ∀ snapshot, s.phase = .fetched (some snapshot) →
    (Message.snapshot ⟨consumer.symbol, snapshot⟩).SentIn consumer past
  queue : ∀ payload ∈ s.queue, (Message.update payload).SentIn consumer past
  received : ∀ m ∈ s.received, m.SentIn consumer past

theorem sent?_eq_some {symbol : Str} {w : Effect db Venue} {payload : Payload Venue} :
    w.sent? symbol = some payload ↔
      w = .groupSend (groupName symbol) payload.instrument payload.snapshot := by
  cases w with
  | groupSend group instrument snapshot =>
      rw [Effect.sent?, Option.ite_none_right_eq_some, Effect.groupSend.injEq]
      constructor
      · rintro ⟨rfl, h⟩
        obtain rfl := Option.some.inj h
        exact ⟨rfl, rfl, rfl⟩
      · rintro ⟨rfl, rfl, rfl⟩
        exact ⟨rfl, rfl⟩
  | insert _ | inc _ | publish _ _ | cacheSet _ _ => simp [Effect.sent?]

section Sources

variable {consumer : QuoteConsumer} {script past : List (Effect db Venue)} {s s' : Session db Venue}

theorem Message.SentIn.append {m : Message Venue} (h : m.SentIn consumer past) (effect : Effect db Venue) :
    m.SentIn consumer (past ++ [effect]) := by
  cases m with
  | snapshot payload => exact ⟨h.1, List.mem_append_left _ h.2⟩
  | update payload => exact List.mem_append_left _ h

theorem sourced_init (consumer : QuoteConsumer) (script : List (Effect db Venue)) :
    Sourced consumer script [] (Session.init script) where
  split := rfl
  cache := fun _ h => nomatch h
  fetched := fun _ h => nomatch h
  queue := fun _ h => absurd h List.not_mem_nil
  received := fun _ h => absurd h List.not_mem_nil

theorem Sourced.publish (h : Sourced consumer script past s) {effect : Effect db Venue}
    {rest : List (Effect db Venue)} (hscript : s.script = effect :: rest) :
    Sourced consumer script (past ++ [effect]) { s.perform consumer effect with script := rest } := by
  constructor
  case split => exact split_publish h.split hscript
  case cache =>
    intro snapshot hcache
    rw [show ({ s.perform consumer effect with script := rest } : Session db Venue).cache =
      (s.perform consumer effect).cache from rfl, perform_cache, Option.or_eq_some_iff] at hcache
    rcases hcache with hset | ⟨_, hold⟩
    · refine ⟨rfl, List.mem_append_right _ ?_⟩
      rw [Effect.set?_eq_some.mp hset]
      exact List.mem_singleton_self _
    · exact (h.cache snapshot hold).append effect
  case fetched =>
    intro snapshot hphase
    rw [show ({ s.perform consumer effect with script := rest } : Session db Venue).phase =
      (s.perform consumer effect).phase from rfl, perform_phase] at hphase
    exact (h.fetched snapshot hphase).append effect
  case queue =>
    intro payload hpayload
    rw [show ({ s.perform consumer effect with script := rest } : Session db Venue).queue =
      (s.perform consumer effect).queue from rfl, perform_queue] at hpayload
    rcases List.mem_append.mp hpayload with hold | hnew
    · exact (h.queue payload hold).append effect
    · split_ifs at hnew with hmember
      · refine List.mem_append_right past (List.mem_singleton.mpr ?_)
        exact (sent?_eq_some.mp (Option.mem_toList.mp hnew)).symm
      · exact absurd hnew List.not_mem_nil
  case received =>
    intro m hm
    rw [show ({ s.perform consumer effect with script := rest } : Session db Venue).received =
      (s.perform consumer effect).received from rfl, perform_received] at hm
    exact (h.received m hm).append effect

theorem Sourced.step (h : Sourced consumer script past s) {event : Session.Event}
    (hstep : s.step consumer event = some s') : ∃ past', Sourced consumer script past' s' := by
  cases event with
  | publish =>
      obtain ⟨effect, rest, hscript, rfl⟩ := publish_step hstep
      exact ⟨past ++ [effect], h.publish hscript⟩
  | groupAdd =>
      obtain ⟨_, rfl⟩ := groupAdd_step hstep
      exact ⟨past, h.split, h.cache, (fun _ hphase => nomatch hphase), h.queue, h.received⟩
  | accept =>
      obtain ⟨_, rfl⟩ := accept_step hstep
      exact ⟨past, h.split, h.cache, (fun _ hphase => nomatch hphase), h.queue, h.received⟩
  | cacheGet =>
      obtain ⟨_, rfl⟩ := cacheGet_step hstep
      refine ⟨past, h.split, h.cache, fun snapshot hphase => ?_, h.queue, h.received⟩
      exact h.cache snapshot (Phase.fetched.inj hphase)
  | send =>
      obtain ⟨found, hphase, rfl⟩ := send_step hstep
      refine ⟨past, h.split, h.cache, (fun _ hphase => nomatch hphase), h.queue, fun m hm => ?_⟩
      rcases List.mem_append.mp hm with hold | hnew
      · exact h.received m hold
      · obtain ⟨snapshot, hsnapshot, rfl⟩ := List.mem_map.mp hnew
        exact h.fetched snapshot (hphase.trans (congrArg _ (Option.mem_toList.mp hsnapshot)))
  | quoteUpdate =>
      obtain ⟨hphase, payload, rest, hqueue, rfl⟩ := quoteUpdate_step hstep
      refine ⟨past, h.split, h.cache, h.fetched, fun p hp => ?_, fun m hm => ?_⟩
      · exact h.queue p (hqueue ▸ List.mem_cons_of_mem payload hp)
      · rcases List.mem_append.mp hm with hold | hnew
        · exact h.received m hold
        · rw [List.mem_singleton.mp hnew]
          exact h.queue payload (hqueue ▸ List.mem_cons_self)
  | disconnect =>
      obtain ⟨_, rfl⟩ := disconnect_step hstep
      exact ⟨past, h.split, h.cache, (fun _ hphase => nomatch hphase),
        fun _ hp => absurd hp List.not_mem_nil, h.received⟩

theorem Sourced.run (h : Sourced consumer script past s) {events : List Session.Event}
    (hrun : s.run consumer events = some s') : ∃ past', Sourced consumer script past' s' := by
  induction events generalizing s past with
  | nil =>
      obtain rfl := Option.some.inj hrun
      exact ⟨past, h⟩
  | cons event events ih =>
      obtain ⟨s₁, hstep, hrest⟩ := Option.bind_eq_some_iff.mp hrun
      obtain ⟨past₁, h₁⟩ := h.step hstep
      exact ih h₁ hrest

end Sources

theorem Message.SentIn.priced [LinearOrder Venue] {consumer : QuoteConsumer}
    {past : List (Effect db Venue)} {m : Message Venue} (h : m.SentIn consumer past) :
    ∃ w ∈ past, w.IsTold ∧ ∀ rounds w', Vouches rounds w' w →
      ∃ row, w' = .insert (.consolidated row) ∧ m.payload.instrument = consumer.symbol ∧
        Priced rounds consumer.symbol m.payload.snapshot row := by
  cases m with
  | snapshot payload =>
      obtain ⟨hinstrument, hset⟩ := h
      refine ⟨_, hset, trivial, ?_⟩
      rintro rounds _ ⟨symbol, snapshot, row, hpriced, rfl, heq | heq⟩
      · obtain ⟨hkey, rfl⟩ := Effect.cacheSet.inj heq
        obtain rfl := cacheKey_injective hkey
        exact ⟨row, rfl, hinstrument, hpriced⟩
      · cases heq
  | update payload =>
      refine ⟨_, h, trivial, ?_⟩
      rintro rounds _ ⟨symbol, snapshot, row, hpriced, rfl, heq | heq⟩
      · cases heq
      · obtain ⟨hgroup, hinstrument, rfl⟩ := Effect.groupSend.inj heq
        obtain rfl := groupName_injective hgroup
        exact ⟨row, rfl, hinstrument, hpriced⟩

theorem priced_of_received [LinearOrder Venue] [DecidableEq ι] {consumers : ι → QuoteConsumer}
    {rounds : List (Round Venue × InstrumentTable)} {events : List (Parties.Event ι Subscriber.Event)}
    {c : HubState db Venue ι}
    (hrun : (hub consumers).run (HubState.init (roundsScript db rounds)) events = some c)
    {i : ι} {m : Message Venue} (hm : m ∈ (c.session i).received) :
    ∃ past row, past ++ c.1.script = roundsScript db rounds ∧
      .insert (.consolidated row) ∈ past ∧
      m.payload.instrument = (consumers i).symbol ∧
      Priced rounds (consumers i).symbol m.payload.snapshot row := by
  obtain ⟨past, h⟩ := (sourced_init _ _).run (session_of_run hrun i)
  obtain ⟨w, hw, htold, hpriced⟩ := (h.received m hm).priced
  obtain ⟨w', hw', hvouches⟩ := caused_rounds rounds past ⟨_, h.split⟩ w hw htold
  obtain ⟨row, rfl, hrow⟩ := hpriced rounds w' hvouches
  exact ⟨past, row, h.split, hw', hrow⟩

/-- **Whatever a client is shown is in the database by then**, as the columns hold it. -/
theorem shown_is_stored [LinearOrder Venue] [DecidableEq ι] {consumers : ι → QuoteConsumer}
    {rounds : List (Round Venue × InstrumentTable)} {events : List (Parties.Event ι Subscriber.Event)}
    {c : HubState db Venue ι}
    (hrun : (hub consumers).run (HubState.init (roundsScript db rounds)) events = some c)
    (i : ι) (m : Message Venue) (hm : m ∈ (c.session i).received) :
    ∃ past row, past ++ c.1.script = roundsScript db rounds ∧
      .insert (.consolidated row) ∈ past ∧
      row.instrument = (consumers i).symbol ∧ m.payload.instrument = (consumers i).symbol ∧
      Mirrors m.payload.snapshot row ∧ Priced rounds (consumers i).symbol m.payload.snapshot row := by
  obtain ⟨past, row, hpast, hrow, hinstrument, hpriced⟩ := priced_of_received hrun hm
  obtain ⟨p, _, book, _, hstore, hsnapshot⟩ := hpriced.computed
  refine ⟨past, row, hpast, hrow, label_of_storeBook hstore, hinstrument, ?_, hpriced⟩
  rw [hsnapshot]
  exact create_mirrors hstore

/-- The later of the two clients is shown the first update as a snapshot and then the second one. -/
theorem second_client_shown_stored :
    ∃ c : HubState .postgres ℕ Bool,
      (hub twoClients).run (HubState.init (roundsScript .postgres twoRoundsInTurn))
        (firstConnects ++ secondConnects) = some c ∧
      (c.session true).received.length = 2 ∧
      ∀ m ∈ (c.session true).received, ∃ past row,
        past ++ c.1.script = roundsScript .postgres twoRoundsInTurn ∧
        .insert (.consolidated row) ∈ past ∧
        row.instrument = (twoClients true).symbol ∧ m.payload.instrument = (twoClients true).symbol ∧
        Mirrors m.payload.snapshot row ∧
        Priced twoRoundsInTurn (twoClients true).symbol m.payload.snapshot row := by
  have hsome : ((hub twoClients).run (HubState.init (roundsScript .postgres twoRoundsInTurn))
      (firstConnects ++ secondConnects)).map
        (fun c : HubState .postgres ℕ Bool => (c.session true).received.length) = some 2 := by
    decide +kernel
  obtain ⟨c, hrun, hlength⟩ := Option.map_eq_some_iff.mp hsome
  exact ⟨c, hrun, hlength, fun m hm => shown_is_stored hrun true m hm⟩

end Pricestream
