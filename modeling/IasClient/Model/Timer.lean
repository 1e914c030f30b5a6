import IasClient.Model.Callback

namespace IasClient

open Framework

/-- The positions in `CTimer::run`. -/
inductive TimerPc
  | outerRunning
  | outerStopped
  | ifUnreachable
  | ifForbidden
  | ifTlsParametersMissing
  | errorStop
  | ifTimerRunning
  | countSynced
  | setTimerRunning
  | setTime1
  | ifStreamsDropped
  | dropStop
  | readTime
  | ifDuration
  | closeWindow
  | setIndex
  | ifIndex
  | setCurrent
  | innerRunning
  | innerStopped
  | finishRunning
  | finishError
  | clearActive
  | returned
  | aborted
  | callback (c : Call) (p : CallbackPc)
  deriving DecidableEq

/-- The timer thread: its position, the members and locals of `CTimer`, and two histories that
no step reads: the calls made, and the calls in which a step found no live stream. -/
structure Timer where
  pc : TimerPc
  mInstances : Int
  unreachableSignaled : Bool := false
  streamsDroppedSignaled : Bool := false
  forbiddenSignaled : Bool := false
  tlsParametersMissingSignaled : Bool := false
  time1 : UInt64 := 0
  timeDiff : UInt64 := 0
  currentIndex : Int := 0
  walk : Walk := {}
  calls : List Call := []
  drops : List Call := []

namespace Timer

def goto (s : Shared) (t : Timer) (pc : TimerPc) : Option (Shared × Timer) :=
  some (s, { t with pc := pc })

def call (c : Call) (t : Timer) : Timer :=
  { t with pc := .callback c .enter, calls := t.calls ++ [c] }

/-- The statement after a call of `callback`. -/
def resume (c : Call) (t : Timer) : Timer :=
  match c with
  | .unreachable | .forbidden | .tlsParametersMissing => { t with pc := .errorStop }
  | .starting => t.call .started
  | .started => { t with pc := .setTimerRunning }
  | .streamsDropped => { t with pc := .dropStop }
  | .report => { t with pc := .innerRunning }
  | .finish => { t with pc := .clearActive }

end Timer

namespace CCallback

/-- `CCallback::callback`. `objects` are the workers that the pointers stored in CCallback reach:
`ipThread`, `pingThread` or the elements of `vDownloadThreads` and `vUploadThreads`. -/
def callback (env : Env) (sender : TestCase) (objects : List Worker) (c : Call) (p : CallbackPc)
    (s : Shared) (t : Timer) : Option (Shared × Timer) :=
  let at' := fun p => TimerPc.callback c p
  match p with
  | .enter =>
    if c = .report ∨ c = .finish then
      match s.cb.mTestCase with
      | .ip => t.goto s (at' .ipTimes)
      | .rttUdp => t.goto s (at' .rttResults)
      | .download | .upload => t.goto s (at' .steps)
    else t.goto s (at' .toPlatform)
  | .ipTimes => t.goto s (at' .ipResults)
  | .ipResults =>
    match objects[0]? with
    | none => t.goto s (at' c.stored)
    | some w =>
      if w.jMeasurementResultsIp.nonempty then
        t.goto { s with cb := { s.cb with
          jMeasurementResultsIp :=
            copyIp s.cb.jMeasurementResultsIp w.jMeasurementResultsIp } } (at' .ipStopped)
      else t.goto s (at' c.stored)
  | .ipStopped => t.goto { s with g := { s.g with timerStopped := true } } (at' c.stored)
  | .rttResults =>
    match objects[0]? with
    | none => t.goto s (at' (.rttCounters .requestsReplies))
    | some w =>
      some (s, { t with
        walk := { t.walk with
          pingResults := w.ping.results
          pingTimestamps := w.ping.resultsTimestamp }
        pc := at' (.rttCounters .requestsReplies) })
  | .rttCounters r =>
    match objects[0]? with
    | none => t.goto s (at' c.stored)
    | some w =>
      let n := r.read w.ping t.walk.counters
      match r.next with
      | some r =>
        some (s, { t with walk := { t.walk with counters := n }, pc := at' (.rttCounters r) })
      | none =>
        t.goto { s with cb := { s.cb with
          jMeasurementResultsRttUdp :=
            some (rttUdpInfo env n t.walk.pingResults t.walk.pingTimestamps) } } (at' c.stored)
  | .steps =>
    some (s, { t with walk := { maxSteps := maxSteps s.g.walkInput }, pc := at' .stepHead })
  | .stepHead =>
    if t.walk.currentStep ≤ t.walk.maxSteps then
      some (s, { t with
        walk := { t.walk with streamId := 0, sums := { currentTimestamp := s.g.now } }
        pc := at' .visit })
    else t.goto s (at' .publish)
  | .visit =>
    match objects[t.walk.streamId]? with
    | none =>
      if t.walk.sums.streams = 0 then
        some (s, { t with drops := t.drops ++ [c], pc := at' .dropError })
      else t.goto s (at' .stepEnd)
    | some w =>
      match visitStream s.g.walkInput t.walk.currentStep t.walk.maxSteps t.walk.streamId
          (w.stream s.g.nTestCase) t.walk.sums with
      | none => t.goto s .aborted
      | some (sums, p) =>
        some (s, { t with walk := { t.walk with
          streamId := t.walk.streamId + 1
          sums := sums
          perStream := t.walk.perStream ++ [p] } })
  | .dropError => t.goto { s with g := { s.g with hasError := true } } (at' .dropFlag)
  | .dropFlag => t.goto { s with g := { s.g with streamsDropped := true } } (at' .stepEnd)
  | .stepEnd =>
    some (s, { t with
      walk := { t.walk with
        currentStep := t.walk.currentStep + 1
        results := t.walk.results ++ [stepResult s.g.walkInput t.walk.sums] }
      pc := at' .stepHead })
  | .publish =>
    -- the element at `size() - 1` of an empty array does not exist
    if t.walk.results = [] then t.goto s .aborted
    else t.goto { s with cb := publishResults s.g.nTestCase t.walk s.cb } (at' c.stored)
  | .performed => t.goto { s with g := s.g.setPerformed s.cb.mTestCase } (at' .toPlatform)
  | .toPlatform =>
    let s := callbackToPlatform sender c.cmd c.msg c.errorCode c.errorDescription s
    if c = .finish then t.goto s (at' .ifCompleted) else some (s, t.resume c)
  | .ifCompleted =>
    if s.g.allPerformed then t.goto s (at' .completed) else some (s, t.resume c)
  | .completed =>
    some (callbackToPlatform sender .completed c.msg c.errorCode c.errorDescription
      { s with g := { s.g with currentTestPhase := .END } }, t.resume c)

end CCallback

namespace CTimer

/-- One step of `CTimer::run`. Nobody calls `stopThread` on the timer, so `m_fStop` stays false. -/
def run (env : Env) (sender : TestCase) (objects : List Worker) (s : Shared) (t : Timer) :
    Option (Shared × Timer) :=
  match t.pc with
  | .outerRunning => t.goto s (if s.g.running then .outerStopped else .finishRunning)
  | .outerStopped => t.goto s (if s.g.timerStopped then .finishRunning else .ifUnreachable)
  | .ifUnreachable =>
    if s.g.unreachable = true ∧ t.unreachableSignaled = false then
      some (s, { t with unreachableSignaled := true }.call .unreachable)
    else t.goto s .ifForbidden
  | .ifForbidden =>
    if s.g.forbidden = true ∧ t.forbiddenSignaled = false then
      some (s, { t with forbiddenSignaled := true }.call .forbidden)
    else t.goto s .ifTlsParametersMissing
  | .ifTlsParametersMissing =>
    if s.g.tlsParametersMissing = true ∧ t.tlsParametersMissingSignaled = false then
      some (s, { t with tlsParametersMissingSignaled := true }.call .tlsParametersMissing)
    else t.goto s .ifTimerRunning
  | .errorStop => t.goto { s with g := { s.g with timerStopped := true } } .finishRunning
  | .ifTimerRunning =>
    if s.g.timerRunning then some (s, { t with currentIndex := 0, pc := .ifStreamsDropped })
    else t.goto s .countSynced
  | .countSynced =>
    if (s.g.syncCounter : Int) = t.mInstances then some (s, t.call .starting)
    else t.goto s .outerRunning
  | .setTimerRunning => t.goto { s with g := { s.g with timerRunning := true } } .setTime1
  | .setTime1 => some (s, { t with time1 := s.g.now, pc := .outerRunning })
  | .ifStreamsDropped =>
    if s.g.streamsDropped = true ∧ t.streamsDroppedSignaled = false then
      some (s, { t with streamsDroppedSignaled := true }.call .streamsDropped)
    else t.goto s .readTime
  | .dropStop => t.goto { s with g := { s.g with timerStopped := true } } .outerRunning
  | .readTime =>
    some ({ s with g := { s.g with timerDuration := toInt (s.g.now - t.time1) } },
      { t with timeDiff := s.g.now - t.time1, pc := .ifDuration })
  | .ifDuration =>
    t.goto s (if s.g.measurementDuration ≤ t.timeDiff / 1000000 then .closeWindow else .setIndex)
  | .closeWindow => t.goto { s with g := { s.g with timerStopped := true } } .ifIndex
  | .setIndex =>
    t.goto { s with g := { s.g with timerIndex := toInt (t.timeDiff / 500000) } } .ifIndex
  | .ifIndex => t.goto s (if s.g.timerIndex = t.currentIndex then .innerRunning else .setCurrent)
  | .setCurrent => some (s, { t with currentIndex := s.g.timerIndex }.call .report)
  | .innerRunning => t.goto s (if s.g.running then .innerStopped else .outerRunning)
  | .innerStopped => t.goto s (if s.g.timerStopped then .outerRunning else .ifStreamsDropped)
  | .finishRunning => t.goto s (if s.g.running then .finishError else .clearActive)
  | .finishError => if s.g.hasError then t.goto s .clearActive else some (s, t.call .finish)
  | .clearActive => t.goto { s with g := { s.g with timerActive := false } } .returned
  | .returned | .aborted => none
  | .callback c p => CCallback.callback env sender objects c p s t

end CTimer

end IasClient
