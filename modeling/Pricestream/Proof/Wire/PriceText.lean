import Pricestream.PriceText
import Pricestream.Proof.Exchanges
import Pricestream.Proof.Wire.Events
import Pricestream.Proof.Wire.JsonDump

/-!
# Prices survive their texts

A client that reads what it is sent, be it by `connect` or as an update, gets the price the publisher
had in memory: the same instrument, numbers, sources and time. So what is said of the messages of a
session holds of the texts that are sent.
-/

namespace Pricestream

open Library Python

variable {symbol : Str}

/-! ### Texts that come back as they are -/

theorem reread_of_ascii {s : Str} (h : ∀ c ∈ s, c < 0x80) : Json.reread s = s :=
  Json.reread_of_isScalar fun c hc => isScalar_of_ascii (h c hc)

theorem reread_str (d : DecimalTuple) : Json.reread d.str = d.str :=
  reread_of_ascii fun c hc => by
    have := range_of_mem_str hc
    omega

theorem Source.reread_value (s : Source) : Json.reread s.value = s.value := by
  cases s <;> exact reread_of_ascii (by decide)

/-! ### One text -/

/-- The object a client decodes. -/
def PriceObject.decoded (cp : PriceObject) (symbol : Str) : List (Str × Json) :=
  [(Str.ofString "instrument", .str symbol),
    (Str.ofString "mid", .str cp.mid.str),
    (Str.ofString "bid", .str cp.bid.str),
    (Str.ofString "ask", .str cp.ask.str),
    (Str.ofString "sources", .arr (cp.sources.map fun s => .str s.value)),
    (Str.ofString "ts", .str cp.timestamp.isoformat)]

theorem decodedFields_payload (hsymbol : ∀ c ∈ symbol, Str.IsScalar c) (cp : PriceObject) :
    Plain.decodedFields (cp.payload symbol) = cp.decoded symbol := by
  have hts : Json.reread cp.timestamp.isoformat = cp.timestamp.isoformat :=
    reread_of_ascii fun c => cp.timestamp.lt_of_mem_isoformat
  have hsources : Plain.decodedElems (cp.sources.map fun s => Plain.str s.value) =
      cp.sources.map fun s => .str s.value := by
    rw [Plain.decodedElems_eq, List.map_map]
    exact List.map_congr_left fun s _ => congrArg Json.str s.reread_value
  simp only [PriceObject.payload, Plain.decodedFields, Plain.decoded, PriceObject.decoded, hsources, hts,
    Json.reread_of_isScalar hsymbol, reread_str, reread_of_ascii (s := Str.ofString "instrument") (by decide),
    reread_of_ascii (s := Str.ofString "mid") (by decide), reread_of_ascii (s := Str.ofString "bid") (by decide),
    reread_of_ascii (s := Str.ofString "ask") (by decide),
    reread_of_ascii (s := Str.ofString "sources") (by decide), reread_of_ascii (s := Str.ofString "ts") (by decide)]

theorem numberOf?_str (d : DecimalTuple) : numberOf? (.str d.str) = some d.value := by
  simp [numberOf?, textOf?, ofStr_str]

theorem sourcesOf?_values (sources : List Source) :
    sourcesOf? (.arr (sources.map fun s => .str s.value)) = some sources := by
  rw [sourcesOf?]
  induction sources with
  | nil => rfl
  | cons s sources ih =>
      rw [List.map_cons, List.mapM_cons, ih]
      simp [textOf?, Source.ofValue_value]

theorem ofJson_decoded (cp : PriceObject) (symbol : Str) :
    Payload.ofJson (.obj (cp.decoded symbol)) = some ⟨symbol, cp.toSnapshot⟩ := by
  have hinstrument : Json.get (cp.decoded symbol) (Str.ofString "instrument") = .str symbol := rfl
  have hmid : Json.get (cp.decoded symbol) (Str.ofString "mid") = .str cp.mid.str := rfl
  have hbid : Json.get (cp.decoded symbol) (Str.ofString "bid") = .str cp.bid.str := rfl
  have hask : Json.get (cp.decoded symbol) (Str.ofString "ask") = .str cp.ask.str := rfl
  have hsources : Json.get (cp.decoded symbol) (Str.ofString "sources") =
      .arr (cp.sources.map fun s => .str s.value) := rfl
  have hts : Json.get (cp.decoded symbol) (Str.ofString "ts") = .str cp.timestamp.isoformat := rfl
  simp only [Payload.ofJson, hinstrument, hmid, hbid, hask, hsources, hts, numberOf?_str, sourcesOf?_values,
    textOf?, Option.bind_eq_bind, Option.bind_some, cp.timestamp.fromisoformat_isoformat]
  rfl

/-- What a client reads. -/
def readPrice (parseFloat : Str → Python.Float) (text : Str) : Option (Payload Source) :=
  (Json.loads parseFloat text).bind Payload.ofJson

theorem readPrice_updateText (parseFloat : Str → Python.Float) (hsymbol : ∀ c ∈ symbol, Str.IsScalar c)
    (cp : PriceObject) :
    readPrice parseFloat (QuoteConsumer.updateText (cp.payload symbol)) = some ⟨symbol, cp.toSnapshot⟩ := by
  rw [readPrice, QuoteConsumer.updateText, Plain.loads_dumps, Plain.decoded, decodedFields_payload hsymbol,
    Option.bind_some, ofJson_decoded]

/-! ### A session in texts -/

/-- A text is what is sent for a message. -/
def SentAs (consumer : QuoteConsumer) (m : Message Source) (text : Str) : Prop :=
  ∃ cp : PriceObject, cp.toSnapshot = m.payload.snapshot ∧
    text = match m with
      | .snapshot _ => consumer.snapshotText cp.cached
      | .update payload => QuoteConsumer.updateText (cp.payload payload.instrument)

theorem SentAs.readPrice {consumer : QuoteConsumer} {m : Message Source} {text : Str}
    (h : SentAs consumer m text) (hsymbol : ∀ c ∈ consumer.symbol, Str.IsScalar c)
    (hinstrument : m.payload.instrument = consumer.symbol) (parseFloat : Str → Python.Float) :
    readPrice parseFloat text = some m.payload := by
  obtain ⟨cp, hsnapshot, rfl⟩ := h
  cases m with
  | snapshot payload =>
      have hpayload : (⟨consumer.symbol, cp.toSnapshot⟩ : Payload Source) = payload :=
        congrArg₂ Payload.mk hinstrument.symm hsnapshot
      exact (readPrice_updateText parseFloat hsymbol cp).trans (congrArg some hpayload)
  | update payload =>
      have hpayload : (⟨payload.instrument, cp.toSnapshot⟩ : Payload Source) = payload :=
        congrArg (Payload.mk payload.instrument) hsnapshot
      have hscalar : ∀ c ∈ payload.instrument, Str.IsScalar c := hinstrument ▸ hsymbol
      exact (readPrice_updateText parseFloat hscalar cp).trans (congrArg some hpayload)

/-- **A client reads the prices of its session, in order.** -/
theorem client_reads_session {db : Engine} {ι : Type} [DecidableEq ι] {consumers : ι → QuoteConsumer}
    {rounds : List (Round Source × InstrumentTable)} {events : List (Parties.Event ι Subscriber.Event)}
    {c : HubState db Source ι}
    (hrun : (hub consumers).run (HubState.init (roundsScript db rounds)) events = some c) {i : ι}
    (hsymbol : ∀ c ∈ (consumers i).symbol, Str.IsScalar c) {texts : List Str}
    (hsent : List.Forall₂ (SentAs (consumers i)) (c.session i).received texts)
    (parseFloat : Str → Python.Float) :
    texts.map (readPrice parseFloat) = (c.session i).received.map fun m => some m.payload := by
  have hinstrument : ∀ m ∈ (c.session i).received, m.payload.instrument = (consumers i).symbol := by
    intro m hm
    obtain ⟨_, _, _, _, hinstrument, _⟩ := priced_of_received hrun hm
    exact hinstrument
  generalize (c.session i).received = received at hsent hinstrument
  induction hsent with
  | nil => rfl
  | cons hhead _ ih =>
      rw [List.map_cons, List.map_cons,
        hhead.readPrice hsymbol (hinstrument _ List.mem_cons_self) parseFloat,
        ih fun m hm => hinstrument m (List.mem_cons_of_mem _ hm)]

/-- The price of two exchanges, in memory. -/
def twoExchangesPrice : PriceObject where
  mid := ⟨false, 10195, -2, by decide⟩
  bid := ⟨false, 10125, -2, by decide⟩
  ask := ⟨false, 10265, -2, by decide⟩
  sources := [.binance, .kraken]
  timestamp := ⟨1970, 1, 2, 1, 1, 1, 1, by decide, by decide⟩

theorem client_reads_twoExchanges :
    ∃ c : HubState .postgres Source Unit,
      (hub fun _ => .ofRoute (Str.ofString "btc-usd")).run
        (HubState.init (roundsScript .postgres [(twoExchanges.live, KeyedTable.empty)])) connectsOnce = some c ∧
      [QuoteConsumer.updateText (twoExchangesPrice.payload (Str.ofString "BTC-USD"))].map
          (readPrice fun _ => .nan) =
        (c.session ()).received.map fun m => some m.payload := by
  have hsome : ((hub fun _ : Unit => .ofRoute (Str.ofString "btc-usd")).run
      (HubState.init (roundsScript .postgres [(twoExchanges.live, KeyedTable.empty)])) connectsOnce).map
        (fun c : HubState .postgres Source Unit => (c.session ()).received) =
      some [.update ⟨Str.ofString "BTC-USD", twoExchangesPrice.toSnapshot⟩] := by
    decide +kernel
  obtain ⟨c, hrun, hreceived⟩ := Option.map_eq_some_iff.mp hsome
  refine ⟨c, hrun, client_reads_session hrun (fun c hc => ?_) ?_ _⟩
  · exact isScalar_of_ascii ((by decide : ∀ c ∈ Str.asciiUpper (Str.ofString "btc-usd"), c < 0x80) c hc)
  · rw [hreceived]
    exact .cons ⟨twoExchangesPrice, rfl, rfl⟩ .nil

end Pricestream
