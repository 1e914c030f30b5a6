import IasClient.Model.Upload

namespace IasClient

open Framework

/-- What the walk over the streams reads of a Download or Upload object. -/
structure Stream where
  mResponse : Int
  data : MeasurementData
  measurementTimeStart : UInt64

def Worker.stream (k : TestCase) (w : Worker) : Stream :=
  { mResponse := w.mResponse
    data := if k = .upload then w.upload.mUpload else w.mDownload
    -- every stream that is visited has read the clock
    measurementTimeStart := w.measurementTimeStart.getD 0 }

/-- `stoll(to_string(x))`; `none` for the exception beyond the range of `long long`. -/
def stoll (x : UInt64) : Option UInt64 := if x.toNat < 2 ^ 63 then some x else none

/-- An element of `download_raw_data` or `upload_raw_data`. -/
structure PerStream where
  streamId : Nat
  bytes : UInt64
  bytesDistinct : UInt64
  bytesSlowStart : UInt64
  bytesTotal : UInt64
  relativeTimeNs : UInt64
  relativeTimeNsTotal : UInt64
  relativeTimeNsMeasurementStart : UInt64

/-- An element of `download_info` or `upload_info`, without what `CTool::calculateResults` adds. -/
structure Aggregate where
  bytes : UInt64
  bytesDistinct : UInt64
  bytesSlowStart : UInt64
  bytesTotal : UInt64
  durationNsTotal : UInt64
  relativeTimeNsMeasurementStart : UInt64
  numStreamsStart : Int

/-- The locals of one step: `measurement_aggregate` and the `_aggregate` sums. -/
structure StepSums where
  streams : Int := 0
  bins : OrdMap Int UInt64 := .empty
  bytes : UInt64 := 0
  bytesDistinct : UInt64 := 0
  bytesSlowStart : UInt64 := 0
  bytesTotal : UInt64 := 0
  durationNsTotal : UInt64 := 0
  relativeTimeNsMeasurementStart : UInt64 := 0
  currentTimestamp : UInt64 := 0

/-- The locals of the loop over the bins of one stream. -/
structure BinSums where
  bins : OrdMap Int UInt64
  bytes : UInt64 := 0
  bytesDistinct : UInt64 := 0

/-- The globals that `calculateMeasurementResultsDownloadUpload` reads. -/
structure WalkInput where
  testCase : TestCase
  timerDuration : Int
  measurementDuration : UInt64
  timerIndexUploadFirst : Int
  timestampMeasurementStart : Int
  instances : Int

def Globals.walkInput (g : Globals) : WalkInput :=
  { testCase := g.nTestCase
    timerDuration := g.timerDuration
    measurementDuration := g.measurementDuration
    timerIndexUploadFirst := g.timerIndexUploadFirst
    timestampMeasurementStart := g.timestampMeasurementStart
    instances := g.instances }

/-- `max_steps`; the comparisons are those of an `int` with an `unsigned long long`. -/
def maxSteps (v : WalkInput) : Int :=
  let steps := (v.timerDuration - v.timerDuration.tmod 500000).tdiv 500000
  let cap := match v.testCase with
    | .upload => (v.measurementDuration -
        UInt64.ofInt Upload.UPLOAD_ADDITIONAL_MEASUREMENT_DURATION) * 2
    | _ => v.measurementDuration * 2
  match v.testCase with
  | .download | .upload => if cap < UInt64.ofInt steps then toInt cap else steps
  | _ => steps

/-- The bins that the loop over a stream's results passes over. -/
def skipped (v : WalkInput) (key : Int) : Bool :=
  decide (key < v.timerIndexUploadFirst ∨ v.timerIndexUploadFirst = 0) &&
    decide (v.testCase = .upload)

/-- The loop over the bins of one stream; `i` is the ordinal of the next bin. -/
def walkBins (skip : Int → Bool) (currentStep maxSteps : Int) :
    List (Int × UInt64) → Int → BinSums → BinSums
  | [], _, b => b
  | (key, bits) :: rest, i, b =>
    if skip key then walkBins skip currentStep maxSteps rest i b
    else
      let b :=
        if i ≤ currentStep then { b with bins := b.bins.add i bits, bytes := b.bytes + bits / 8 }
        else b
      let b := if i = currentStep then { b with bytesDistinct := bits / 8 } else b
      if i = maxSteps then b else walkBins skip currentStep maxSteps rest (i + 1) b

/-- The body of the loop over the streams, in step `currentStep` of `steps`. -/
def visitStream (v : WalkInput) (currentStep steps : Int) (streamId : Nat) (s : Stream)
    (a : StepSums) : Option (StepSums × PerStream) := do
  let b := walkBins (skipped v) currentStep steps s.data.results.entries 1 { bins := a.bins }
  let slowStart := s.data.datasizeSlowStart / 8
  let lag := UInt64.ofInt ((steps - currentStep) * 500000000)
  let p : PerStream :=
    { streamId := streamId
      bytes := b.bytes
      bytesDistinct := b.bytesDistinct
      bytesSlowStart := slowStart
      bytesTotal := slowStart + b.bytes
      relativeTimeNs := UInt64.ofInt (currentStep * 500000000)
      relativeTimeNsTotal := (a.currentTimestamp - s.measurementTimeStart) * 1000 - lag
      relativeTimeNsMeasurementStart :=
        a.currentTimestamp * 1000 - UInt64.ofInt v.timestampMeasurementStart - lag }
  let bytes ← stoll p.bytes
  let bytesDistinct ← stoll p.bytesDistinct
  let bytesSlowStart ← stoll p.bytesSlowStart
  let bytesTotal ← stoll p.bytesTotal
  let durationNsTotal ← stoll p.relativeTimeNsTotal
  let relative ← stoll p.relativeTimeNsMeasurementStart
  return ({ a with
    streams := if 0 < s.mResponse then a.streams + 1 else a.streams
    bins := b.bins
    bytes := a.bytes + bytes
    bytesDistinct := a.bytesDistinct + bytesDistinct
    bytesSlowStart := a.bytesSlowStart + bytesSlowStart
    bytesTotal := a.bytesTotal + bytesTotal
    durationNsTotal := durationNsTotal
    relativeTimeNsMeasurementStart := relative }, p)

/-- `getMeasurementResultsAggregate` and the two fields added to its result. -/
def stepResult (v : WalkInput) (a : StepSums) : Aggregate :=
  { bytes := a.bytes * 8 / 8
    bytesDistinct := a.bytesDistinct
    bytesSlowStart := a.bytesSlowStart * 8 / 8
    bytesTotal := a.bytesTotal * 8 / 8
    durationNsTotal := a.durationNsTotal
    relativeTimeNsMeasurementStart := a.relativeTimeNsMeasurementStart
    numStreamsStart := v.instances }

/-- The loop over the streams of one step. -/
def visitStreams (v : WalkInput) (currentStep steps : Int) :
    Nat → List Stream → StepSums → Option (StepSums × List PerStream)
  | _, [], a => some (a, [])
  | j, s :: ss, a => do
    let (a, p) ← visitStream v currentStep steps j s a
    let (a, ps) ← visitStreams v currentStep steps (j + 1) ss a
    return (a, p :: ps)

/-- The loop over the steps, from `currentStep` on, `fuel` of them left; `now` is the clock as each
of them reads it. -/
def walkSteps (v : WalkInput) (steps : Int) (now : Int → UInt64) (ss : List Stream) :
    Nat → Int → Option (List Aggregate × List PerStream)
  | 0, _ => some ([], [])
  | fuel + 1, currentStep => do
    let (a, ps) ← visitStreams v currentStep steps 0 ss { currentTimestamp := now currentStep }
    let (rs, qs) ← walkSteps v steps now ss fuel (currentStep + 1)
    return (stepResult v a :: rs, ps ++ qs)

/-- The arrays that `calculateMeasurementResultsDownloadUpload` publishes when no thread moves
during the call; `none` if a `stoll` throws. -/
def calculateMeasurementResultsDownloadUpload (v : WalkInput) (now : Int → UInt64)
    (ss : List Stream) : Option (List Aggregate × List PerStream) :=
  walkSteps v (maxSteps v) now ss (maxSteps v).toNat 1

end IasClient
