import IasClient.Model.Worker

namespace IasClient

open Framework

namespace Download

/-- `mResponse` after the TLS records are added and bytes become bits. -/
def bits (mResponse mTlsRecordsReceived mTlsOverhead : Int) : Int :=
  wrapInt (wrapInt (mResponse + wrapInt (mTlsRecordsReceived * mTlsOverhead)) * 8)

/-- The bins 0 to `2 * MEASUREMENT_DURATION`. -/
def binKeys (d : UInt64) : List Int := (List.range (2 * d.toNat + 1)).map fun i : Nat => (i : Int)

def initResults (d : UInt64) (m : OrdMap Int UInt64) : OrdMap Int UInt64 :=
  (binKeys d).foldl (fun m i => m.insert i 0) m

def addTotal (r : Int) (d : MeasurementData) : MeasurementData :=
  { d with datasizeTotal := d.datasizeTotal + UInt64.ofInt r }

def addBin (index r : Int) (d : MeasurementData) : MeasurementData :=
  { d with results := d.results.add index (UInt64.ofInt r) }

/-- The slow-start size, set while it is 0 and `TIMER_INDEX` is 0. -/
def latch (index r : Int) (d : MeasurementData) : MeasurementData :=
  if d.datasizeSlowStart = 0 ∧ index = 0 then
    { d with datasizeSlowStart := d.datasizeTotal - UInt64.ofInt r }
  else d

def run (o : Outcome) (g : Globals) (w : Worker) : Option (Globals × Worker) :=
  match w.pc with
  | .prepare =>
    some (g, { w with
      mDownload := { w.mDownload with
        datasizeTotal := 0
        datasizeSlowStart := 0
        results := initResults g.measurementDuration w.mDownload.results }
      pc := .whileRunning })
  | .received =>
    if w.mResponse = -1 ∨ w.mResponse = 0 then w.goto g .returned
    else
      some (g, { w with
        mResponse := bits w.mResponse w.tlsRecords w.mTlsOverhead
        mDownload := addTotal (bits w.mResponse w.tlsRecords w.mTlsOverhead) w.mDownload
        pc := .ifTimerRunning })
  | .ifTimerRunning => w.goto g (if g.timerRunning then .ifHasError else .whileRunning)
  | .ifHasError => w.goto g (if g.hasError then .whileRunning else .addBin)
  | .addBin =>
    some (g, { w with mDownload := addBin g.timerIndex w.mResponse w.mDownload, pc := .latch })
  | .latch =>
    some (g, { w with mDownload := latch g.timerIndex w.mResponse w.mDownload, pc := .whileRunning })
  | .whileRunning | .whileActive | .whileStopped | .receive | .setSynced =>
    receiveLoop .returned o g w
  | _ => connect true .prepare o g w

end Download

end IasClient
