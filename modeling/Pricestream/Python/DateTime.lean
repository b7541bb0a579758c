import Pricestream.Python.Utf8
import Mathlib.Algebra.Ring.Nat
import Mathlib.Data.Int.Basic

/-!
# `datetime.datetime`

A `datetime` is what its own wall clock shows, counted in microseconds from 1970-01-01T00:00 on that
clock, and the clock's offset from UTC. A naive one has no offset. Two aware ones denote the same
instant when they agree after the offset is taken off. The year range 1 to 9999 is checked where a
`datetime` is made, from text or by a sum, and not carried along.

`fromisoformat` follows the interpreter's C parser, byte by byte, including what it lets through: any
separator between date and time, basic and week dates, a fraction after any field. It reads the text in
UTF-8, where a separator may take several bytes, and a surrogate that stands where one is expected was
replaced before. Past the end of the text the parser reads the terminating zero, and so does `charAt`.
-/

namespace Pricestream.Python

structure DateTime where
  wall : ℤ
  utcoffset : Option ℤ
  deriving DecidableEq, Repr

namespace DateTime

/-- A point in time, in microseconds since the epoch. -/
abbrev Instant := ℤ

/-- The instant a `datetime` denotes. A naive one is read in the default time zone, which is UTC. -/
def instant (ts : DateTime) : Instant := ts.wall - ts.utcoffset.getD 0

def ofInstant (i : Instant) : DateTime := ⟨i, some 0⟩

def IsUtc (ts : DateTime) : Prop := ts.utcoffset.getD 0 = 0

instance (ts : DateTime) : Decidable ts.IsUtc := inferInstanceAs (Decidable (_ = _))

theorem instant_of_isUtc {ts : DateTime} (h : ts.IsUtc) : ts.instant = ts.wall := by
  rw [instant, h, Int.sub_zero]

/-! ### The calendar -/

def isLeap (year : ℕ) : Bool := year % 4 == 0 && (year % 100 != 0 || year % 400 == 0)

def daysInMonth (year month : ℕ) : ℕ :=
  if month = 2 then (if isLeap year then 29 else 28)
  else if month = 4 ∨ month = 6 ∨ month = 9 ∨ month = 11 then 30 else 31

/-- The proleptic Gregorian ordinal: 1 for 0001-01-01. -/
def ordinal (year month day : ℕ) : ℤ :=
  let before := (year : ℤ) - 1
  let months := ((List.range (month - 1)).map fun m => daysInMonth year (m + 1)).sum
  before * 365 + before / 4 - before / 100 + before / 400 + months + day

/-- The ordinals of 1970-01-01 and of 9999-12-31. -/
def epochOrdinal : ℤ := 719163
def maxOrdinal : ℤ := 3652059

/-- From 0001-01-01T00:00 to 9999-12-31T23:59:59.999999 on the clock of a `datetime`. -/
def InRange (ts : DateTime) : Prop :=
  (1 - epochOrdinal) * 86400000000 ≤ ts.wall ∧ ts.wall < (maxOrdinal + 1 - epochOrdinal) * 86400000000

instance (ts : DateTime) : Decidable ts.InRange := inferInstanceAs (Decidable (_ ∧ _))

/-- The ordinal of a calendar date. -/
def civil? (year month day : ℕ) : Option ℤ :=
  if 1 ≤ year ∧ 1 ≤ month ∧ month ≤ 12 ∧ 1 ≤ day ∧ day ≤ daysInMonth year month then
    some (ordinal year month day)
  else none

/-- The ordinal of a day in an ISO week. -/
def isoWeek? (year week day : ℕ) : Option ℤ :=
  let first := ordinal year 1 1
  let weekday := (first + 6) % 7
  let longYear := weekday = 3 ∨ (weekday = 2 ∧ isLeap year)
  let monday := first - weekday + (if 3 < weekday then 7 else 0)
  let result := monday + 7 * (week - 1) + (day - 1)
  if 1 ≤ year ∧ 1 ≤ week ∧ (week ≤ 52 ∨ (week = 53 ∧ longYear)) ∧ 1 ≤ day ∧ day ≤ 7 ∧
      1 ≤ result ∧ result ≤ maxOrdinal then
    some result
  else none

/-! ### Reading text -/

def charAt (s : Str) (pos : ℕ) : ℕ := s.getD pos 0

def digitsAt (s : Str) (pos count : ℕ) : Option ℕ :=
  let digits := (s.drop pos).take count
  if digits.length = count ∧ digits.all Str.isAsciiDigit then
    some (Str.ofDigits (digits.map (· - 0x30)))
  else none

/-- Where the date ends. Week dates are ambiguous, and resolved by looking at the digits that follow. -/
def separatorAt (s : Str) : Option ℕ :=
  let n := s.length
  if n = 7 then some 7
  else if charAt s 4 = 0x2d then
    if charAt s 5 = 0x57 then
      if 8 < n ∧ charAt s 8 = 0x2d then
        if n = 9 then none
        else if 10 < n ∧ Str.isAsciiDigit (charAt s 10) then some 8 else some 10
      else some 8
    else some 10
  else if charAt s 4 = 0x57 then
    let stop := 7 + ((s.drop 7).takeWhile Str.isAsciiDigit).length
    if stop < 9 then some stop else if stop % 2 = 0 then some 7 else some 8
  else some 8

/-- The ordinal of the date at the start of a text, which ends at `stop`. -/
def isoDate? (s : Str) (stop : ℕ) : Option ℤ := do
  let year ← digitsAt s 0 4
  let dashed := charAt s 4 = 0x2d
  let pos := if dashed then 5 else 4
  if charAt s pos = 0x57 then
    let week ← digitsAt s (pos + 1) 2
    let pos := pos + 3
    if stop ≤ pos then isoWeek? year week 1
    else if dashed then
      if charAt s pos = 0x2d then isoWeek? year week (← digitsAt s (pos + 1) 1) else none
    else isoWeek? year week (← digitsAt s pos 1)
  else
    let month ← digitsAt s pos 2
    let pos := pos + 2
    if dashed then
      if charAt s pos = 0x2d then civil? year month (← digitsAt s (pos + 1) 2) else none
    else civil? year month (← digitsAt s pos 2)

/-- Hours, minutes, seconds and microseconds, and whether the text goes on behind them. -/
structure Fields where
  values : List ℕ
  micros : ℕ
  more : Bool

/-- Up to six digits of a fraction; the ones behind them are skipped. -/
def fraction? (s : Str) (pos stop : ℕ) (values : List ℕ) : Option Fields := do
  let count := min 6 (stop - pos)
  let micros ← digitsAt s pos count
  let skipped := ((s.drop (pos + count)).takeWhile Str.isAsciiDigit).length
  some ⟨values, micros * 10 ^ (6 - count), charAt s (pos + count + skipped) != 0⟩

/-- The remaining two-digit fields of a clock reading. `colons` is fixed by the first field. -/
def clock? (s : Str) (stop : ℕ) : ℕ → Option Bool → ℕ → List ℕ → Option Fields
  | 0, _, pos, values => fraction? s pos stop values
  | left + 1, colons, pos, values => do
      let value ← digitsAt s pos 2
      let next := charAt s (pos + 2)
      let colons := colons.getD (next == 0x3a)
      let values := values ++ [value]
      if stop ≤ pos + 3 then some ⟨values, 0, next != 0⟩
      else if colons ∧ next = 0x3a then clock? s stop left (some colons) (pos + 3) values
      else if next = 0x2e ∨ next = 0x2c then fraction? s (pos + 3) stop values
      else if colons then none
      else clock? s stop left (some colons) (pos + 2) values

def Fields.seconds (f : Fields) : ℕ :=
  f.values.getD 0 0 * 3600 + f.values.getD 1 0 * 60 + f.values.getD 2 0

def Fields.timeOfDay? (f : Fields) : Option ℕ :=
  if f.values.getD 0 0 < 24 ∧ f.values.getD 1 0 < 60 ∧ f.values.getD 2 0 < 60 then
    some (f.seconds * 1000000 + f.micros)
  else none

/-- The offset of a zone other than `Z`; its whole seconds alone decide whether it is UTC. -/
def offset? (negative : Bool) (f : Fields) : Option ℤ :=
  if f.seconds = 0 then some 0
  else if f.seconds * 1000000 + f.micros < 86400000000 then
    some ((if negative then -1 else 1) * (f.seconds * 1000000 + f.micros))
  else none

/-- The time at a position, and the zone behind it. -/
def isoTime? (s : Str) (pos : ℕ) : Option (ℕ × Option ℤ) := do
  let zone := pos + ((s.drop pos).takeWhile fun c => c != 0x2b && c != 0x2d && c != 0x5a).length
  let time ← clock? s zone 3 none pos []
  if zone = s.length then
    if time.more then none else some (← time.timeOfDay?, none)
  else if charAt s zone = 0x5a then
    if charAt s (zone + 1) = 0 then some (← time.timeOfDay?, some 0) else none
  else
    let shift ← clock? s s.length 3 none (zone + 1) []
    if shift.more then none
    else some (← time.timeOfDay?, some (← offset? (charAt s zone = 0x2d) shift))

/-- A surrogate is accepted at one of the places a separator can have, and nowhere else. -/
def sanitize (s : Str) : Str :=
  match [7, 8, 10].find? fun pos => Str.isSurrogate (charAt s pos) with
  | some pos => s.set pos 0x54
  | none => s

/-- The bytes a separator takes, by its first byte. -/
def separatorWidth (lead : ℕ) : ℕ :=
  if lead < 0x80 then 1 else if lead / 0x10 = 0xe then 3 else if lead / 0x10 = 0xf then 4 else 2

/-- `datetime.fromisoformat`; `none` is its `ValueError`. -/
def fromisoformat (s : Str) : Option DateTime := do
  if s.length < 7 then none
  else
    let s ← (Str.encodeUtf8 (sanitize s)).toOption
    let stop ← separatorAt s
    let day ← isoDate? s stop
    let (time, zone) ←
      if stop < s.length then isoTime? s (stop + separatorWidth (charAt s stop)) else some (0, none)
    some ⟨(day - epochOrdinal) * 86400000000 + time, zone⟩

example : fromisoformat (Str.ofString "2026-01-01T12:00:30.5+00:00") =
    some ⟨1767268830500000, some 0⟩ := by decide

end DateTime

end Pricestream.Python
