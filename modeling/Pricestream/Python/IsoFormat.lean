import Pricestream.Python.DateTime
import Pricestream.Python.Numeral

/-!
# Timestamps as text

A `datetime` keeps the fields of its date and of its clock reading, and `isoformat()` writes them out,
the microseconds only if there are any. Read back, the text of a timestamp in UTC is the same timestamp.
-/

namespace Pricestream.Python

open Str

/-- A `datetime` in UTC. -/
structure UtcDateTime where
  year : ℕ
  month : ℕ
  day : ℕ
  hour : ℕ
  minute : ℕ
  second : ℕ
  microsecond : ℕ
  date : 1 ≤ year ∧ year ≤ 9999 ∧ 1 ≤ month ∧ month ≤ 12 ∧ 1 ≤ day ∧
    day ≤ DateTime.daysInMonth year month
  time : hour < 24 ∧ minute < 60 ∧ second < 60 ∧ microsecond < 1000000

namespace UtcDateTime

variable (t : UtcDateTime)

/-- Microseconds since midnight. -/
def timeOfDay : ℕ := (t.hour * 3600 + t.minute * 60 + t.second) * 1000000 + t.microsecond

def toDateTime : DateTime :=
  ⟨(DateTime.ordinal t.year t.month t.day - DateTime.epochOrdinal) * 86400000000 + t.timeOfDay, some 0⟩

/-- `.%06d`, if there are microseconds. -/
def fraction : Str := if t.microsecond = 0 then [] else 0x2e :: numeral (padded 6 t.microsecond)

def text (fraction : Str) : Str :=
  numeral (padded 4 t.year) ++ 0x2d :: numeral (padded 2 t.month) ++ 0x2d :: numeral (padded 2 t.day) ++
    0x54 :: numeral (padded 2 t.hour) ++ 0x3a :: numeral (padded 2 t.minute) ++
    0x3a :: numeral (padded 2 t.second) ++ fraction ++ Str.ofString "+00:00"

/-- `t.isoformat()`. -/
def isoformat : Str := t.text t.fraction

end UtcDateTime

namespace DateTime

variable {s : Str} {pos width n : ℕ}

/-- A padded numeral at a position. -/
theorem digitsAt_padded (h : (s.drop pos).take width = numeral (padded width n)) (hn : n < 10 ^ width) :
    digitsAt s pos width = some n := by
  have hlen : (numeral (padded width n)).length = width := by
    rw [numeral, List.length_map, length_padded]
  have hdigits : (numeral (padded width n)).all isAsciiDigit = true := by
    rw [List.all_eq_true]
    exact fun c hc => isAsciiDigit_of_mem_numeral (fun d hd => lt_of_mem_padded hd) hc
  have hvalues : (numeral (padded width n)).map (· - 0x30) = padded width n := by
    rw [numeral, List.map_map]
    exact (List.map_congr_left fun d _ => Nat.add_sub_cancel_left 0x30 d).trans (List.map_id _)
  rw [digitsAt, h, if_pos ⟨hlen, hdigits⟩, hvalues, ofDigits_padded hn]

theorem charAt_add (s : Str) (pos i : ℕ) : charAt s (pos + i) = charAt (s.drop pos) i := by
  rw [charAt, charAt, List.getD_eq_getElem?_getD, List.getD_eq_getElem?_getD, List.getElem?_drop]

theorem digitsAt_add (s : Str) (pos i width : ℕ) :
    digitsAt s (pos + i) width = digitsAt (s.drop pos) i width := by
  rw [digitsAt, digitsAt, List.drop_drop]

end DateTime

namespace UtcDateTime

open DateTime

variable (t : UtcDateTime) (fraction : Str)

/-- A clock reading. -/
def clock : Str :=
  numeral (padded 2 t.hour) ++ 0x3a :: numeral (padded 2 t.minute) ++ 0x3a :: numeral (padded 2 t.second)

/-- The text from left to right, the way its places are looked up. -/
theorem text_eq : t.text fraction =
    numeral (padded 4 t.year) ++ (0x2d :: (numeral (padded 2 t.month) ++ (0x2d ::
      (numeral (padded 2 t.day) ++ (0x54 :: (t.clock ++ fraction ++ Str.ofString "+00:00")))))) := by
  simp only [text, clock, List.append_assoc, List.cons_append]

theorem digit_ne_week (n : ℕ) : 0x30 + n % 10 ≠ 0x57 := by omega

theorem separatorAt_text : separatorAt (t.text fraction) = some 10 := by
  have hlen : (t.text fraction).length ≠ 7 := by
    simp only [text, numeral, List.length_append, List.length_cons, List.length_map, length_padded]
    omega
  have hdash : charAt (t.text fraction) 4 = 0x2d := by
    rw [text_eq]
    rfl
  have hweek : charAt (t.text fraction) 5 ≠ 0x57 := by
    rw [text_eq]
    exact digit_ne_week (t.month / 10)
  rw [separatorAt, if_neg hlen, if_pos hdash, if_neg hweek]

theorem isoDate?_text : isoDate? (t.text fraction) 10 = some (ordinal t.year t.month t.day) := by
  obtain ⟨hyear, hyear', hmonth, hmonth', hday, hday'⟩ := t.date
  have hdays : daysInMonth t.year t.month ≤ 31 := by
    rw [daysInMonth]
    split_ifs <;> omega
  rw [text_eq]
  generalize t.clock ++ fraction ++ Str.ofString "+00:00" = rest
  generalize hs : numeral (padded 4 t.year) ++ _ = s
  have hyearAt : digitsAt s 0 4 = some t.year := digitsAt_padded (by rw [← hs]; rfl) (by omega)
  have hmonthAt : digitsAt s 5 2 = some t.month := digitsAt_padded (by rw [← hs]; rfl) (by omega)
  have hdayAt : digitsAt s 8 2 = some t.day := digitsAt_padded (by rw [← hs]; rfl) (by omega)
  have hdash : charAt s 4 = 0x2d := by
    rw [← hs]
    rfl
  have hdash' : charAt s 7 = 0x2d := by
    rw [← hs]
    rfl
  have hweek : charAt s 5 ≠ 0x57 := by
    rw [← hs]
    exact digit_ne_week (t.month / 10)
  simp [isoDate?, hyearAt, hmonthAt, hdayAt, hdash, hdash', hweek, civil?, t.date]

theorem drop_text : (t.text fraction).drop 11 = t.clock ++ fraction ++ Str.ofString "+00:00" := by
  rw [text_eq]
  rfl

/-- The text has a zone where the clock reading and its fraction end. -/
theorem drop_zone : (t.text fraction).drop (11 + (8 + fraction.length)) = Str.ofString "+00:00" := by
  have hlen : (t.clock ++ fraction).length = 8 + fraction.length := List.length_append
  rw [← List.drop_drop, drop_text, List.drop_left' hlen]

/-- A character of a clock reading does not begin a zone. -/
def InClock (c : ℕ) : Prop := c ≠ 0x2b ∧ c ≠ 0x2d ∧ c ≠ 0x5a

theorem inClock_numeral {digits : List ℕ} (h : ∀ d ∈ digits, d < 10) : ∀ c ∈ numeral digits, InClock c := by
  intro c hc
  obtain ⟨d, hd, rfl⟩ := List.mem_map.mp hc
  have := h d hd
  unfold InClock
  omega

theorem takeWhile_text (hfraction : ∀ c ∈ fraction, InClock c) :
    (((t.text fraction).drop 11).takeWhile fun c => c != 0x2b && c != 0x2d && c != 0x5a).length =
      8 + fraction.length := by
  have hall : ∀ c ∈ t.clock ++ fraction, InClock c := by
    intro c hc
    simp only [clock, List.mem_append, List.mem_cons] at hc
    rcases hc with ((hc | rfl | hc) | rfl | hc) | hc
    · exact inClock_numeral (fun d hd => lt_of_mem_padded hd) c hc
    · unfold InClock
      decide
    · exact inClock_numeral (fun d hd => lt_of_mem_padded hd) c hc
    · unfold InClock
      decide
    · exact inClock_numeral (fun d hd => lt_of_mem_padded hd) c hc
    · exact hfraction c hc
  have hstop : (Str.ofString "+00:00").takeWhile (fun c => c != 0x2b && c != 0x2d && c != 0x5a) = [] :=
    rfl
  rw [drop_text, List.takeWhile_append_of_pos fun c hc => by simpa [InClock, and_assoc] using hall c hc,
    hstop, List.append_nil, List.length_append]
  rfl

/-- The fields of the clock stand where `clock?` looks for them. -/
theorem clock_fields : digitsAt (t.text fraction) 11 2 = some t.hour ∧
    digitsAt (t.text fraction) 14 2 = some t.minute ∧ digitsAt (t.text fraction) 17 2 = some t.second ∧
    charAt (t.text fraction) 13 = 0x3a ∧ charAt (t.text fraction) 16 = 0x3a := by
  obtain ⟨hhour, hminute, hsecond, _⟩ := t.time
  have hdigits : ∀ i width, digitsAt (t.text fraction) (11 + i) width =
      digitsAt (t.clock ++ fraction ++ Str.ofString "+00:00") i width := by
    intro i width
    rw [digitsAt_add, drop_text]
  have hchar : ∀ i, charAt (t.text fraction) (11 + i) =
      charAt (t.clock ++ fraction ++ Str.ofString "+00:00") i := by
    intro i
    rw [charAt_add, drop_text]
  refine ⟨(hdigits 0 2).trans ?_, (hdigits 3 2).trans ?_, (hdigits 6 2).trans ?_, hchar 2, hchar 5⟩
  · exact digitsAt_padded rfl (by omega)
  · exact digitsAt_padded rfl (by omega)
  · exact digitsAt_padded rfl (by omega)

theorem clock?_text : clock? (t.text []) 19 3 none 11 [] = some ⟨[t.hour, t.minute, t.second], 0, true⟩ := by
  obtain ⟨hhour, hminute, hsecond, hcolon, hcolon'⟩ := t.clock_fields []
  have hplus : charAt (t.text []) 19 = 0x2b := by
    rw [charAt_add _ 11 8, drop_text]
    rfl
  simp [clock?, hhour, hminute, hsecond, hcolon, hcolon', hplus]

theorem clock?_text_fraction :
    clock? (t.text (0x2e :: numeral (padded 6 t.microsecond))) 26 3 none 11 [] =
      some ⟨[t.hour, t.minute, t.second], t.microsecond, true⟩ := by
  obtain ⟨hhour, hminute, hsecond, hcolon, hcolon'⟩ :=
    t.clock_fields (0x2e :: numeral (padded 6 t.microsecond))
  generalize hs : t.text (0x2e :: numeral (padded 6 t.microsecond)) = s at *
  have hdrop : s.drop 19 = 0x2e :: numeral (padded 6 t.microsecond) ++ Str.ofString "+00:00" := by
    rw [← hs, ← List.drop_drop (i := 8) (j := 11), drop_text]
    rfl
  have hmicro : digitsAt s 20 6 = some t.microsecond := by
    rw [digitsAt_add _ 19 1, hdrop]
    exact digitsAt_padded rfl (by have := t.time; omega)
  have hpoint : charAt s 19 = 0x2e := by
    rw [charAt_add _ 19 0, hdrop]
    rfl
  have hplus : charAt s 26 = 0x2b := by
    rw [charAt_add _ 19 7, hdrop]
    rfl
  have hskipped : (s.drop 26).takeWhile isAsciiDigit = [] := by
    rw [← List.drop_drop (i := 7) (j := 19), hdrop]
    rfl
  simp [clock?, fraction?, hhour, hminute, hsecond, hmicro, hcolon, hcolon', hpoint, hplus, hskipped]

/-- The zone `+00:00`, behind its sign. -/
theorem clock?_zone {s : Str} {pos : ℕ} (h : s.drop pos = Str.ofString "00:00") :
    clock? s s.length 3 none pos [] = some ⟨[0, 0], 0, false⟩ := by
  have hlen : s.length = pos + 5 := by
    have hdrop := congrArg List.length h
    rw [List.length_drop] at hdrop
    have hfive : (Str.ofString "00:00").length = 5 := rfl
    omega
  have hhours : digitsAt s pos 2 = some 0 := digitsAt_padded (by rw [h]; rfl) (by omega)
  have hminutes : digitsAt s (pos + 3) 2 = some 0 :=
    digitsAt_padded (by rw [← List.drop_drop, h]; rfl) (by omega)
  have hcolon : charAt s (pos + 2) = 0x3a := by
    rw [charAt_add, h]
    rfl
  have hend : charAt s (pos + 3 + 2) = 0 := by
    rw [Nat.add_assoc, charAt_add, h]
    rfl
  simp [clock?, hhours, hminutes, hcolon, hend, hlen]

variable {fraction} in
theorem isoTime?_text (hfraction : ∀ c ∈ fraction, InClock c)
    (hclock : clock? (t.text fraction) (11 + (8 + fraction.length)) 3 none 11 [] =
      some ⟨[t.hour, t.minute, t.second], t.microsecond, true⟩) :
    isoTime? (t.text fraction) 11 = some (t.timeOfDay, some 0) := by
  obtain ⟨hhour, hminute, hsecond, _⟩ := t.time
  have hday : (⟨[t.hour, t.minute, t.second], t.microsecond, true⟩ : Fields).timeOfDay? =
      some t.timeOfDay := if_pos ⟨hhour, hminute, hsecond⟩
  have hplus : charAt (t.text fraction) (11 + (8 + fraction.length)) = 0x2b := by
    rw [← Nat.add_zero (11 + _), charAt_add, drop_zone]
    rfl
  have hshift : clock? (t.text fraction) (t.text fraction).length 3 none (11 + (8 + fraction.length) + 1)
      [] = some ⟨[0, 0], 0, false⟩ := by
    refine clock?_zone ?_
    rw [← List.drop_drop, drop_zone]
    rfl
  have hlen : 11 + (8 + fraction.length) ≠ (t.text fraction).length := by
    intro heq
    have hdrop := t.drop_zone fraction
    rw [heq, List.drop_length] at hdrop
    cases hdrop
  simp [isoTime?, takeWhile_text t fraction hfraction, hlen, hplus, hclock, hshift, hday, offset?,
    Fields.seconds]

theorem isoTime?_isoformat : isoTime? t.isoformat 11 = some (t.timeOfDay, some 0) := by
  rw [isoformat, UtcDateTime.fraction]
  split_ifs with hmicro
  · refine t.isoTime?_text (fun c hc => absurd hc List.not_mem_nil) ?_
    rw [hmicro]
    exact t.clock?_text
  · refine t.isoTime?_text (fun c hc => ?_) t.clock?_text_fraction
    rcases List.mem_cons.mp hc with rfl | hc
    · unfold InClock
      decide
    · exact inClock_numeral (fun d hd => lt_of_mem_padded hd) c hc

theorem lt_of_mem_isoformat {c : ℕ} (h : c ∈ t.isoformat) : c < 0x80 := by
  have hnumeral : ∀ width n, ∀ c ∈ numeral (padded width n), c < 0x80 := by
    intro width n c hc
    obtain ⟨d, hd, rfl⟩ := List.mem_map.mp hc
    have := lt_of_mem_padded hd
    omega
  have hfraction : ∀ c ∈ t.fraction, c < 0x80 := by
    intro c hc
    rw [UtcDateTime.fraction] at hc
    split_ifs at hc
    · exact absurd hc List.not_mem_nil
    · rcases List.mem_cons.mp hc with rfl | hc
      · omega
      · exact hnumeral _ _ c hc
  have hzone : ∀ c ∈ Str.ofString "+00:00", c < 0x80 := by decide
  simp only [isoformat, text, List.mem_append, List.mem_cons] at h
  rcases h with ((((((h | rfl | h) | rfl | h) | rfl | h) | rfl | h) | rfl | h) | h) | h
  · exact hnumeral _ _ c h
  · omega
  · exact hnumeral _ _ c h
  · omega
  · exact hnumeral _ _ c h
  · omega
  · exact hnumeral _ _ c h
  · omega
  · exact hnumeral _ _ c h
  · omega
  · exact hnumeral _ _ c h
  · exact hfraction c h
  · exact hzone c h

theorem sanitize_isoformat : sanitize t.isoformat = t.isoformat := by
  have hnone : [7, 8, 10].find? (fun pos => isSurrogate (charAt t.isoformat pos)) = none := by
    rw [List.find?_eq_none]
    intro pos _ hpos
    have hlt : charAt t.isoformat pos < 0x80 := by
      rw [charAt, List.getD_eq_getElem?_getD]
      cases hc : t.isoformat[pos]? with
      | none => decide
      | some c => exact t.lt_of_mem_isoformat (List.mem_of_getElem? hc)
    simp only [isSurrogate, Bool.and_eq_true, decide_eq_true_eq] at hpos
    omega
  rw [sanitize, hnone]

/-- **Reading a timestamp's text gives the timestamp.** -/
theorem fromisoformat_isoformat : fromisoformat t.isoformat = some t.toDateTime := by
  have hlen : t.isoformat.length = 25 + t.fraction.length := by
    simp only [isoformat, text, numeral, List.length_append, List.length_cons, List.length_map,
      length_padded]
    have hzone : (Str.ofString "+00:00").length = 6 := rfl
    omega
  have hshort : ¬ t.isoformat.length < 7 := by omega
  have hstop : 10 < t.isoformat.length := by omega
  have hbytes : encodeUtf8 (sanitize t.isoformat) = .ok t.isoformat := by
    rw [sanitize_isoformat, encodeUtf8_ascii fun c => t.lt_of_mem_isoformat]
  have hlead : separatorWidth (charAt t.isoformat 10) = 1 := by
    rw [isoformat, text_eq]
    rfl
  have hdate : isoDate? t.isoformat 10 = _ := t.isoDate?_text t.fraction
  have hsepAt : separatorAt t.isoformat = some 10 := t.separatorAt_text t.fraction
  simp [fromisoformat, hshort, hbytes, Except.toOption, hsepAt, hdate, hstop, hlead,
    t.isoTime?_isoformat, toDateTime]

end UtcDateTime

end Pricestream.Python
