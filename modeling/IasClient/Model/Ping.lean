import IasClient.Model.Worker

namespace IasClient

open Framework

namespace Ping

/-- `mPingQuery` after the constructor's increment. It is an `int`, as the target is. -/
def mPingQuery (env : Env) : Int := wrapInt (wrapInt (env.readLong "PING_QUERY" 30) + 1)

def nPingTarget (env : Env) : Int := wrapInt (mPingQuery env - 1)

/-- `(int)mPingQuery * 1.5 * 1.1` -/
def duration (env : Env) : UInt64 := UInt64.ofInt (mPingQuery env * 33 / 20)

/-- The comparison of the first `mResponse` bytes of the two buffers. -/
def mirroredPayloadVerified (mResponse : Int) (rbuffer sbuffer : List UInt8) : Bool :=
  (List.range mResponse.toNat).all fun i => rbuffer.getD i 0 == sbuffer.getD i 0

/-- The end of an iteration: `time2` and `time3` are the two readings of the clock. -/
def evaluate (time2 time3 : UInt64) (start : Int) (mResponse : Int) (p : PingData) : PingData :=
  let q :=
    if p.firstResponse then { p with firstResponse := false }
    else if mResponse = -1 then { p with nMissing := p.nMissing + 1 }
    else if mirroredPayloadVerified mResponse p.rbuffer p.sbuffer then
      { p with
        nReplies := p.nReplies + 1
        results := match p.results.find? p.i with
          | none => p.results.insert p.i (time2 - p.time1)
          | some _ => p.results.add p.i (time2 - p.time1)
        resultsTimestamp := p.resultsTimestamp.insert p.i (time3 * 1000 - UInt64.ofInt start) }
    else { p with nErrors := p.nErrors + 1 }
  { q with i := q.i + 1 }

def run (env : Env) (o : Outcome) (g : Globals) (w : Worker) : Option (Globals × Worker) :=
  match w.pc with
  | .timestamp => some (g, { w with measurementTimeStart := some g.now, pc := .register })
  | .register => w.goto { g with syncingThreads := g.syncingThreads.insert w.pid 0 } .resolve
  | .resolve => w.goto g (if o.ok then .setDuration else .setUnreachable)
  | .setUnreachable => w.goto { g with unreachable := true } .setHasError
  | .setHasError => w.goto { g with hasError := true } .returned
  | .setDuration => w.goto { g with measurementDuration := duration env } .udpSocket
  | .udpSocket => w.goto g (if o.ok then .pingRunning else .returned)
  | .pingRunning =>
    w.goto g (if g.running = true ∧ w.ping.i ≤ mPingQuery env then
        if w.dataReceived then .sendto else .pingSynced
      else .setStopped)
  | .pingSynced =>
    some ({ g with syncingThreads := g.syncingThreads.insert w.pid 1 },
      { w with dataReceived := true, pc := .sendto })
  | .sendto =>
    some (g, { w with ping := { w.ping with sbuffer := o.bytes, time1 := g.now }, pc := .recvfrom })
  | .recvfrom =>
    some (g, { w with
      mResponse := o.code
      ping := { w.ping with rbuffer := o.bytes }
      pc := .evaluate })
  | .evaluate =>
    some (g, { w with
      ping := evaluate g.now g.now g.timestampMeasurementStart w.mResponse w.ping
      pc := .pingRunning })
  | .setStopped => w.goto { g with timerStopped := true } .returned
  | _ => none

end Ping

end IasClient
