/-
The telemetry log of the CTE core: core_runtime.cc, `LogTelemetry`, `GetTelemetryEntries`
and `PollTelemetryLog`.

The log is a circular ring buffer.  It is read by popping entries and pushing them again,
the last one first.  The calls come one after another, and the exceptions that
`PollTelemetryLog` catches are those of an allocator and are left out.

Beside the log stands what has been logged, which the code does not keep.
-/
import IowarpCore.Cte.TaskTypes
import IowarpCore.Shm.RingCalls

namespace IowarpCore
namespace Cte

open Wire RingBuffer

/-- `CteTelemetry()`, at the time 0. -/
instance : Inhabited CteTelemetry := ⟨⟨0, 0, 0, .null, 0, 0, 0, 0⟩⟩

/-- `kTelemetryRingSize`. -/
def kTelemetryRingSize : Nat := 1024

/-- `telemetry_counter_` and `telemetry_log_`. -/
structure Telemetry where
  counter : UInt64
  log : RingBuffer.Ring CteTelemetry

namespace Telemetry

def new : Telemetry := ⟨0, RingBuffer.Ring.new kTelemetryRingSize⟩

/-- `telemetry_log_->Push`, whose result is not looked at. -/
def push (log : RingBuffer.Ring CteTelemetry) (entry : CteTelemetry) : RingBuffer.Ring CteTelemetry :=
  match log.emplace .circularMpscRingBuffer entry with
  | some (_, log') => log'
  | none => log

/-- The entry that `LogTelemetry` makes of its arguments and the counter. -/
def entryOf (t : Telemetry) (op : UInt32) (off size : UInt64) (tagId : TagId) (blobHash : UInt64)
    (modTime readTime : Int64) : CteTelemetry :=
  ⟨op, off, size, tagId, blobHash, modTime, readTime, t.counter + 1⟩

/-- `LogTelemetry`. -/
def logTelemetry (t : Telemetry) (op : UInt32) (off size : UInt64) (tagId : TagId)
    (blobHash : UInt64) (modTime readTime : Int64) : Telemetry :=
  ⟨t.counter + 1, push t.log (t.entryOf op off size tagId blobHash modTime readTime)⟩

/-- The loop that pops entries, until so many are read or `Pop` returns false. -/
def popLoop : Nat → RingBuffer.Ring CteTelemetry → List CteTelemetry × RingBuffer.Ring CteTelemetry
  | 0, log => ([], log)
  | n + 1, log =>
    match log.pop with
    | (none, log') => ([], log')
    | (some entry, log') => (entry :: (popLoop n log').1, (popLoop n log').2)

/-- `GetTelemetryEntries`. -/
def getTelemetryEntries (t : Telemetry) (maxEntries : Nat) : List CteTelemetry × Telemetry :=
  let entriesToRead := min maxEntries t.log.bufferSize
  let tempEntries := (popLoop entriesToRead t.log).1
  let log := tempEntries.reverse.foldl push (popLoop entriesToRead t.log).2
  (tempEntries, ⟨t.counter, log⟩)

/-- `PollTelemetryLog`: the entries from a logical time on and the last one's time. -/
def pollTelemetryLog (t : Telemetry) (minimumLogicalTime : UInt64) :
    (List CteTelemetry × UInt64) × Telemetry :=
  let read := t.getTelemetryEntries 1000
  let entries := read.1.filter fun entry => entry.logicalTime ≥ minimumLogicalTime
  ((entries, entries.foldl (fun time entry => max time entry.logicalTime) minimumLogicalTime),
    read.2)

end Telemetry

/-! ### Runs -/

/-- A call on the log. -/
inductive TelemetryCall where
  | log (op : UInt32) (off size : UInt64) (tagId : TagId) (blobHash : UInt64)
      (modTime readTime : Int64)
  | get (maxEntries : Nat)
  | poll (minimumLogicalTime : UInt64)
deriving DecidableEq, Repr

/-- A log and all that was ever logged, oldest first. -/
structure TelemetryRun where
  state : Telemetry
  logged : List CteTelemetry

namespace TelemetryRun

def new : TelemetryRun := ⟨.new, []⟩

def take (s : TelemetryRun) : TelemetryCall → TelemetryRun
  | .log op off size tagId blobHash modTime readTime =>
    ⟨s.state.logTelemetry op off size tagId blobHash modTime readTime,
      s.logged ++ [s.state.entryOf op off size tagId blobHash modTime readTime]⟩
  | .get maxEntries => ⟨(s.state.getTelemetryEntries maxEntries).2, s.logged⟩
  | .poll minimumLogicalTime => ⟨(s.state.pollTelemetryLog minimumLogicalTime).2, s.logged⟩

/-- What a log of so many entries retains: the most recent ones. -/
def retained (s : TelemetryRun) : List CteTelemetry :=
  s.logged.drop (s.logged.length - s.state.log.size)

/-- Reading so many entries gives the oldest that are retained, in the order of their logical
times, and what the log gives after it is what it gave before. -/
structure Peeks (s : TelemetryRun) (maxEntries : Nat) : Prop where
  oldest : (s.state.getTelemetryEntries maxEntries).1 = s.retained.take maxEntries
  ordered : (s.state.getTelemetryEntries maxEntries).1.Pairwise fun e e' =>
    e.logicalTime < e'.logicalTime
  unchanged : (s.state.getTelemetryEntries maxEntries).2.log.pops = s.state.log.pops

/-- A read that has at most one entry to look at. -/
def Small (s : TelemetryRun) (maxEntries : Nat) : Prop :=
  maxEntries = 0 ∨ s.state.log.bufferSize ≤ 1

/-- A call, and if it reads then so little. -/
def TakesSmall (call : TelemetryCall) (s s' : TelemetryRun) : Prop :=
  s' = s.take call ∧
    match call with
    | .log .. => True
    | .get maxEntries => s.Small maxEntries
    | .poll _ => s.Small 1000

end TelemetryRun

end Cte
end IowarpCore
