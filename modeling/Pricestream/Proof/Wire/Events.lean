import Pricestream.KafkaProducer
import Pricestream.Proof.Ohlc.Ticks
import Pricestream.Proof.Wire.JsonText

/-!
# A quote on the wire

A published quote goes through two texts, one inside the other: its numbers and its timestamp are
printed, and the object of these texts is dumped as JSON. The consumer undoes both, and then works out
the mid as the producer would have done. So an event amounts to its quote.
-/

namespace Pricestream

open Library Python
open DateTime (Instant)

variable {db : Engine} {symbol : Str} {quote : QuoteObject} {record : Record}

/-- What the consumer reads of a published quote. -/
def QuoteObject.reading (symbol : Str) (quote : QuoteObject) (ctx : Context) : Reading :=
  ⟨symbol, quote.timestamp.toDateTime, .finite (quote.toQuote.mid ctx)⟩

/-! ### Decoding -/

theorem publishQuote_eq_ok (h : publishQuote symbol quote = .ok record) :
    record.value = Json.dumps (quote.payload symbol) ∧ ∀ c ∈ symbol, Str.IsScalar c := by
  obtain ⟨key, hkey, h⟩ := bind_eq_ok.mp h
  obtain ⟨value, hvalue, h⟩ := bind_eq_ok.mp h
  rw [Str.encodeUtf8_ascii fun c hc => Json.lt_of_mem_dumps hc] at hvalue
  obtain rfl := Except.ok.inj hvalue
  obtain rfl := Except.ok.inj h
  exact ⟨rfl, Str.isScalar_of_encodeUtf8 hkey⟩

theorem isScalar_of_ascii {c : ℕ} (h : c < 0x80) : Str.IsScalar c := by
  simp only [Str.IsScalar, Str.isSurrogate, Bool.and_eq_false_iff, decide_eq_false_iff_not]
  omega

/-- The object the consumer decodes. -/
def decodedFields (symbol : Str) (quote : QuoteObject) : List (Str × Json) :=
  [(Str.ofString "instrument", .str symbol),
    (Str.ofString "source", .str (Json.reread quote.source)),
    (Str.ofString "bid", .str quote.bid.str),
    (Str.ofString "ask", .str quote.ask.str),
    (Str.ofString "ts", .str quote.timestamp.isoformat)]

theorem rereadField_payload (hsymbol : ∀ c ∈ symbol, Str.IsScalar c) (quote : QuoteObject) :
    (quote.payload symbol).map Json.rereadField = decodedFields symbol quote := by
  have hascii : ∀ s : Str, (∀ c ∈ s, c < 0x80) → Json.reread s = s :=
    fun s hs => Json.reread_of_isScalar fun c hc => isScalar_of_ascii (hs c hc)
  have hdecimal : ∀ d : DecimalTuple, Json.reread d.str = d.str := by
    refine fun d => hascii _ fun c hc => ?_
    have := range_of_mem_str hc
    omega
  have hts : Json.reread quote.timestamp.isoformat = quote.timestamp.isoformat :=
    hascii _ fun c => quote.timestamp.lt_of_mem_isoformat
  simp only [QuoteObject.payload, List.map_cons, List.map_nil, Json.rereadField, decodedFields,
    Json.reread_of_isScalar hsymbol, hdecimal, hts,
    hascii (Str.ofString "instrument") (by decide), hascii (Str.ofString "source") (by decide),
    hascii (Str.ofString "bid") (by decide), hascii (Str.ofString "ask") (by decide),
    hascii (Str.ofString "ts") (by decide)]

theorem decodeValue_published (parseFloat : Str → Python.Float) (h : publishQuote symbol quote = .ok record) :
    decodeValue parseFloat record.value = some (.obj (decodedFields symbol quote)) := by
  obtain ⟨hvalue, hsymbol⟩ := publishQuote_eq_ok h
  rw [decodeValue, hvalue, Str.decodeUtf8_ascii fun c hc => Json.lt_of_mem_dumps hc, Option.bind_eq_bind,
    Option.bind_some, Json.loads_dumps, rereadField_payload hsymbol]

/-! ### Reading -/

theorem readPrices_decoded (symbol : Str) (quote : QuoteObject) :
    readPrices (decodedFields symbol quote) =
      .ok (.finite quote.bid.value, .finite quote.ask.value) := by
  have hbid : Json.getItem (decodedFields symbol quote) (Str.ofString "bid") = .ok (.str quote.bid.str) :=
    rfl
  have hask : Json.getItem (decodedFields symbol quote) (Str.ofString "ask") = .ok (.str quote.ask.str) :=
    rfl
  simp only [readPrices, hbid, hask, bind, Except.bind, Decimal.ofJson, ofStr_str, orRaise_some]
  rfl

theorem readTs_decoded (now : Instant) (symbol : Str) (quote : QuoteObject) :
    readTs now (Json.get (decodedFields symbol quote) (Str.ofString "ts")) =
      .ok quote.timestamp.toDateTime := by
  have hts : Json.get (decodedFields symbol quote) (Str.ofString "ts") =
      .str quote.timestamp.isoformat := rfl
  have hne : quote.timestamp.isoformat ≠ [] := List.cons_ne_nil _ _
  rw [hts, readTs, if_pos (by simp [Json.truthy, hne]), quote.timestamp.fromisoformat_isoformat]
  rfl

theorem symbol_of_getInstrument {env : Env} {instrument : Instrument}
    (h : getInstrument env (.str symbol) = .ok (some instrument)) : instrument.symbol = symbol := by
  obtain ⟨text, htext, hget⟩ := bind_eq_ok.mp h
  have hfound : env.instruments.get? text = some instrument := Except.ok.inj hget
  rw [symbolText, textParam] at htext
  split_ifs at htext
  obtain rfl := Except.ok.inj htext
  exact KeyedTable.key_of_get? hfound

/-- **An event amounts to its quote.** -/
theorem readEvent_decoded {env : Env} {instrument : Instrument}
    (hfound : getInstrument env (.str symbol) = .ok (some instrument)) (hsymbol : symbol ≠ [])
    (now : Instant) (quote : QuoteObject) :
    readEvent env now (.obj (decodedFields symbol quote)) =
      .ok (some (quote.reading symbol env.ctx)) := by
  have hname : Json.get (decodedFields symbol quote) (Str.ofString "instrument") = .str symbol := rfl
  refine readEvent_eq_some_iff.mpr ⟨_, instrument, _, _, _, _, _, rfl, ?_, ?_,
    readPrices_decoded symbol quote, rfl, rfl, readTs_decoded now symbol quote, ?_⟩
  · rw [hname]
    simp [Json.truthy, hsymbol]
  · rw [hname]
    exact hfound
  · rw [symbol_of_getInstrument hfound]
    rfl

/-- **Quotes survive the wire.** What `publish_quote` produces is decoded, and handling it does to the
bars what updating them with the quote's mid and timestamp does. The context in which the mid is worked
out is any; a symbol that `parse_symbol` accepts is not empty. -/
theorem quote_survives_wire (parseFloat : Str → Python.Float) (h : publishQuote symbol quote = .ok record)
    {env : Env} {instrument : Instrument}
    (hfound : getInstrument env (.str symbol) = .ok (some instrument)) (hsymbol : symbol ≠ [])
    (now : Instant) (bars : BarTable db) :
    ∃ payload, decodeValue parseFloat record.value = some payload ∧
      handleEvent env now payload bars =
        applyIntervals ⟨symbol, quote.timestamp.toDateTime, .finite (quote.toQuote.mid env.ctx)⟩
          intervals bars := by
  refine ⟨_, decodeValue_published parseFloat h, ?_⟩
  rw [handleEvent, readEvent_decoded hfound hsymbol]
  rfl

/-- A bid in scientific notation, and a timestamp with microseconds. -/
def tinyQuote : QuoteObject where
  source := Str.ofString "kraken"
  bid := ⟨false, 1230, -10, by decide⟩
  ask := ⟨false, 102, 0, by decide⟩
  timestamp := ⟨2026, 1, 1, 12, 0, 30, 500000, by decide, by decide⟩

theorem tinyQuote_survives_wire :
    ∃ record payload, publishQuote (Str.ofString "BTC-USD") tinyQuote = .ok record ∧
      decodeValue (fun _ => .nan) record.value = some payload ∧
      handleEvent btcEnv 0 payload (KeyedTable.empty : BarTable .postgres) =
        applyIntervals ⟨Str.ofString "BTC-USD", ⟨1767268830500000, some 0⟩,
          .finite ((1230 / 10 ^ 10 + 102) / 2)⟩ intervals KeyedTable.empty := by
  have hpublish : (publishQuote (Str.ofString "BTC-USD") tinyQuote).toOption.isSome := by decide +kernel
  obtain ⟨record, hrecord⟩ := Option.isSome_iff_exists.mp hpublish
  have hfound : getInstrument btcEnv (.str (Str.ofString "BTC-USD")) = .ok (some _) := rfl
  obtain ⟨payload, hpayload, hhandle⟩ :=
    quote_survives_wire (fun _ => .nan) (toOption_eq_some.mp hrecord) hfound (by decide) 0
      (KeyedTable.empty : BarTable .postgres)
  have hmid : tinyQuote.toQuote.mid btcEnv.ctx = (1230 / 10 ^ 10 + 102) / 2 := by decide +kernel
  have hts : tinyQuote.timestamp.toDateTime = ⟨1767268830500000, some 0⟩ := by decide +kernel
  rw [hmid, hts] at hhandle
  exact ⟨record, payload, toOption_eq_some.mp hrecord, hpayload, hhandle⟩

end Pricestream
