import Mathlib.Logic.Function.Basic
import IasClient.Model.Measurement

namespace IasClient

/-- `jMeasurementResultsTime`, an object whose keys may be absent: the instants of each test case
under its `_start` and its `_end`, in nanoseconds. The `_start` of a worker that has not read the
clock is there, but its value is indeterminate. -/
structure TimeInfo where
  measurementStart : UInt64
  started : TestCase → Option (Option UInt64) := fun _ => none
  ended : TestCase → Option UInt64 := fun _ => none
  measurementEnd : Option UInt64 := none

/-- A report or finish writes when the worker began, and a finish reads the clock for its end. -/
def TimeInfo.record (k : TestCase) (c : Call) (now : UInt64) (w : Worker) (i : TimeInfo) :
    TimeInfo :=
  { i with
    started := Function.update i.started k (some (w.measurementTimeStart.map (· * 1000)))
    ended := if c = .finish then Function.update i.ended k (some (now * 1000)) else i.ended }

/-- What the timer writes to `jMeasurementResultsTime` at its position. -/
def CCallback.times (objects : List Worker) (s : Shared) (t : Timer) (i : TimeInfo) : TimeInfo :=
  match t.pc with
  | .callback c .ipTimes =>
    match objects[0]? with
    | none => i
    | some w => i.record .ip c s.g.now w
  | .callback c (.rttCounters .requestsReplies) =>
    match objects[0]? with
    | none => i
    | some w => i.record .rttUdp c s.g.now w
  | .callback c .visit =>
    match objects[t.walk.streamId]? with
    | none => i
    | some w =>
      match s.g.nTestCase with
      | .download => i.record .download c s.g.now w
      | .upload => i.record .upload c s.g.now w
      | _ => i
  | .callback _ .toPlatform =>
    if s.g.allPerformed then { i with measurementEnd := some (s.g.now * 1000) } else i
  | _ => i

/-- The measurement with `jMeasurementResultsTime`, and with the history of the events, each with
the `time_info` that went with it. -/
structure Dated where
  sys : Sys
  time : TimeInfo
  events : List (Event × TimeInfo)

namespace Dated

def times (a : Action) (s : Dated) : TimeInfo :=
  match a with
  | .timer => CCallback.times s.sys.phase.objects s.sys.sh s.sys.phase.timer s.time
  | .pastTimer i =>
    match s.sys.past[i]? with
    | none => s.time
    | some p => CCallback.times s.sys.phase.objects s.sys.sh p.timer s.time
  | _ => s.time

def step (env : Env) (a : Action) (s : Dated) : Option Dated :=
  (IasClient.step env a s.sys).map fun s' =>
    { sys := s'
      time := s.times a
      events := s.events ++ (s'.sh.log.drop s.sys.sh.log.length).map fun e => (e, s.times a) }

/-- The constructor of CCallback reads the clock for TIMESTAMP_MEASUREMENT_START. -/
def start (rtt download upload : Bool) (old : Globals) : Dated :=
  { sys := measurementStart rtt download upload old
    time := { measurementStart := old.now * 1000 }
    events := [] }

end Dated

end IasClient
