import Pricestream.KafkaConsumer

/-!
# The consumer and its topic

A consumer group reads one partition of the topic, at the offsets of a log. The client stores a
message's offset when a poll returns it, and stored offsets are committed in the background at
arbitrary later moments and when the consumer is closed. A process that comes up begins at the last
committed offset. Handling a message takes several transactions, one to an interval, and the process
may die before, between and after them.

`run_consumer` closes the consumer on every way out of the loop, so an exception of `handle_event`
commits the offset of the message it was handling. Only a crash leaves without a commit.
-/

namespace Pricestream

open Library Python
open DateTime (Instant)

/-- The message being handled: its offset, what it reads as, and the intervals still to update. -/
structure Work where
  offset : ℕ
  reading : Except Exc (Option Reading)
  todo : List Interval

/-- The process: not running, or polling from a position, with the message it is handling if any. -/
inductive Process where
  | down
  | up (position : ℕ) (work : Option Work)

structure Applied where
  offset : ℕ
  reading : Reading
  interval : Interval

/-- The database, the group's committed offset and the process, with a record of the messages
delivered and the updates committed. -/
structure Group (db : Engine) where
  bars : BarTable db
  committed : ℕ
  process : Process
  delivered : List ℕ
  applied : List Applied

inductive Action where
  | poll
  | update
  | finish
  | commit
  | raise
  | stop
  | crash
  | restart
  deriving DecidableEq, Repr

/-- What a message reads as when it is handled: a payload that does not decode is skipped by the loop. -/
def readMessage (env : Env) (now : Instant) : Option Json → Except Exc (Option Reading)
  | none => .ok none
  | some payload => readEvent env now payload

variable {db : Engine} (env : Env) (log : List (Option Json))

/-- One step of the group. -/
inductive GroupStep : Group db → Action → Group db → Prop where
  /-- A poll returns the next message. -/
  | poll (g : Group db) (position : ℕ) (message : Option Json) (now : Instant)
      (hprocess : g.process = .up position none) (hmessage : log[position]? = some message) :
      GroupStep g .poll
        { g with
          process := .up (position + 1) (some ⟨position, readMessage env now message, intervals⟩)
          delivered := g.delivered ++ [position] }
  /-- The transaction of the next interval commits. -/
  | update (g : Group db) (position offset : ℕ) (reading : Reading) (interval : Interval)
      (rest : List Interval) (bars : BarTable db)
      (hprocess : g.process = .up position (some ⟨offset, .ok (some reading), interval :: rest⟩))
      (hupdate : updateBar reading.instrument interval reading.ts reading.mid g.bars = .ok bars) :
      GroupStep g .update
        { g with
          bars
          process := .up position (some ⟨offset, .ok (some reading), rest⟩)
          applied := g.applied ++ [⟨offset, reading, interval⟩] }
  /-- `handle_event` returns: the message amounts to nothing, or all its intervals are updated. -/
  | finish (g : Group db) (position : ℕ) (work : Work)
      (hprocess : g.process = .up position (some work))
      (hdone : work.reading = .ok none ∨ (∃ r, work.reading = .ok (some r)) ∧ work.todo = []) :
      GroupStep g .finish { g with process := .up position none }
  /-- A stored offset is committed. -/
  | commit (g : Group db) (position offset : ℕ) (work : Option Work)
      (hprocess : g.process = .up position work) (hfrom : g.committed ≤ offset)
      (hto : offset ≤ position) : GroupStep g .commit { g with committed := offset }
  /-- `handle_event` raises; the consumer is closed, which commits the stored offset. -/
  | raise (g : Group db) (position : ℕ) (work : Work)
      (hprocess : g.process = .up position (some work)) :
      GroupStep g .raise { g with process := .down, committed := position }
  /-- The loop is left between two messages, and the consumer is closed. -/
  | stop (g : Group db) (position : ℕ) (hprocess : g.process = .up position none) :
      GroupStep g .stop { g with process := .down, committed := position }
  /-- The process dies. -/
  | crash (g : Group db) (position : ℕ) (work : Option Work)
      (hprocess : g.process = .up position work) : GroupStep g .crash { g with process := .down }
  /-- A process comes up at the committed offset. -/
  | restart (g : Group db) (hprocess : g.process = .down) :
      GroupStep g .restart { g with process := .up g.committed none }

/-- A group that has committed an initial position and has no process yet. -/
def Group.init (bars : BarTable db) (start : ℕ) : Group db := ⟨bars, start, .down, [], []⟩

inductive GroupRun (allowed : Group db → Action → Prop) (g₀ : Group db) : Group db → Prop where
  | refl : GroupRun allowed g₀ g₀
  | step {g g' : Group db} {a : Action} (hrun : GroupRun allowed g₀ g)
      (hstep : GroupStep env log g a g') (hallowed : allowed g a) : GroupRun allowed g₀ g'

end Pricestream
