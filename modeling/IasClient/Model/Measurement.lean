import IasClient.Model.Ip
import IasClient.Model.Ping
import IasClient.Model.Download
import IasClient.Model.Timer

namespace IasClient

open Framework

/-- The threads of one test case, and whether `startMeasurement` has stored the pointers to the
workers in CCallback. -/
structure Phase where
  testCase : TestCase
  timer : Timer
  workers : List Worker
  stored : Bool

/-- The positions in `measurementStart`, `startTestCase` and `CMeasurement`. -/
inductive MainPc
  | gate (k : TestCase)
  | gateRunning (k : TestCase)
  | gateError (k : TestCase)
  | startTestCase (k : TestCase)
  | construct (k : TestCase)
  | startMeasurement (k : TestCase)
  | create (k : TestCase)
  | store (k : TestCase)
  | join (k : TestCase) (i : Nat)
  | waitPerformed (k : TestCase)
  | waitError (k : TestCase)
  | waitRunning (k : TestCase)
  | destroy (k : TestCase) (i : Nat)
  | joinTimer (k : TestCase)
  | endPhase
  | shutdown
  | finished
  deriving DecidableEq

structure Sys where
  sh : Shared
  main : MainPc
  phase : Phase
  /-- the test cases that `startMeasurement` has returned from -/
  past : List Phase

/-- `conf.instances` -/
def instances (env : Env) : TestCase → Int
  | .ip => 1
  | .rttUdp => 1
  | .download => env.readLong "DL_STREAMS" 4
  | .upload => env.readLong "UL_STREAMS" 4

/-- The assignment to `MEASUREMENT_DURATION` in `startMeasurement`; Ping makes its own. -/
def startDuration (env : Env) : TestCase → Option UInt64
  | .ip => some 60
  | .rttUdp => none
  | .download => some (UInt64.ofInt (env.readLong "DL_DURATION" 10))
  | .upload => some (UInt64.ofInt
      (env.readLong "UL_DURATION" 10 + Upload.UPLOAD_ADDITIONAL_MEASUREMENT_DURATION))

/-- The overhead handed to the Download streams. -/
def tlsOverhead (env : Env) (cb : CCallback) : Int :=
  let overhead := cb.jMeasurementResultsIp.tlsOverhead.getD ""
  if env.readLong "TLS" 1 = 1 ∧ overhead ≠ "" ∧ 0 < env.toInt overhead then env.toInt overhead
  else 0

/-- `startMeasurement` looks for the overhead with `operator[]`, which leaves the key behind. -/
def readTlsOverhead (env : Env) (k : TestCase) (cb : CCallback) : CCallback :=
  { cb with
    jMeasurementResultsIp :=
      if k = .download ∧ env.readLong "TLS" 1 = 1 then cb.jMeasurementResultsIp.touchTlsOverhead
      else cb.jMeasurementResultsIp }

/-- The `run` functions start at the name resolution, Ping's at its clock reading. -/
def startPc : TestCase → WorkerPc
  | .rttUdp => .timestamp
  | _ => .resolve

def newWorker (env : Env) (k : TestCase) (j : Nat) (cb : CCallback) : Worker :=
  { pc := startPc k
    pid := env.pid k j
    mTlsOverhead := if k = .download then tlsOverhead env cb else 0 }

/-- What `CTimer::CTimer` assigns. -/
def constructTimer (g : Globals) : Globals :=
  { g with
    timerActive := true
    timerRunning := false
    timerStopped := false
    timerIndex := 0
    timerIndexUploadFirst := 0
    timerDuration := 0
    measurementDuration := 0 }

/-- The place in `measurementStart` after the test case `k`. -/
def afterTestCase (k : TestCase) : MainPc :=
  match k.next with
  | some l => .gate l
  | none => .endPhase

/-- One step of the thread that runs `measurementStart`; `created` is false when the
`createThread` of a Download or Upload stream fails. -/
def mainStep (env : Env) (created : Bool) (s : Sys) : Option Sys :=
  let g := s.sh.g
  let goto := fun pc => some { s with main := pc }
  let set := fun (g : Globals) pc => some { s with sh := { s.sh with g := g }, main := pc }
  match s.main with
  | .gate k => goto (if g.enabled k then .gateRunning k else afterTestCase k)
  | .gateRunning k =>
    goto (if g.running then if k = .ip then .startTestCase k else .gateError k
      else afterTestCase k)
  | .gateError k => goto (if g.hasError then afterTestCase k else .startTestCase k)
  | .startTestCase k =>
    let sh : Shared :=
      { g := { g with nTestCase := k, currentTestPhase := k.phase, syncingThreads := .empty }
        cb := { s.sh.cb with mTestCase := k }
        log := s.sh.log ++ [.startTestCase k] }
    some
      { sh := if env.mobile then callbackToPlatform k .started "" 0 "" sh else sh
        main := .construct k
        phase := { testCase := k, timer := { pc := .returned, mInstances := 0 }, workers := [],
                   stored := false }
        past := s.past ++ [s.phase] }
  | .construct k =>
    some { s with
      sh := { s.sh with g := { constructTimer g with instances := instances env k } }
      main := .startMeasurement k
      phase := { s.phase with timer := { pc := .outerRunning, mInstances := instances env k } } }
  | .startMeasurement k =>
    match startDuration env k with
    | none => goto (.create k)
    | some d =>
      some { s with
        sh := { s.sh with
          g := { g with measurementDuration := d }
          cb := readTlsOverhead env k s.sh.cb }
        main := .create k }
  | .create k =>
    if (s.phase.workers.length : Int) < g.instances then
      if created then
        some { s with phase := { s.phase with
          workers := s.phase.workers ++ [newWorker env k s.phase.workers.length s.sh.cb] } }
      else if k = .download ∨ k = .upload then goto (afterTestCase k)
      else none
    else goto (.store k)
  | .store k => some { s with phase := { s.phase with stored := true }, main := .join k 0 }
  | .join k i =>
    match s.phase.workers[i]? with
    | none => goto (.waitPerformed k)
    | some w => if w.pc = .returned then goto (.join k (i + 1)) else none
  | .waitPerformed k => goto (if g.performed k then .destroy k 0 else .waitError k)
  | .waitError k => goto (if g.hasError then .destroy k 0 else .waitRunning k)
  | .waitRunning k => goto (if g.running then .waitPerformed k else .destroy k 0)
  | .destroy k i =>
    match s.phase.workers[i]? with
    | none => goto (.joinTimer k)
    | some w =>
      some { s with
        phase := { s.phase with workers := s.phase.workers.set i { w with destroyed := true } }
        main := .destroy k (i + 1) }
  | .joinTimer k => if s.phase.timer.pc = .returned then goto (afterTestCase k) else none
  | .endPhase => set { g with currentTestPhase := .END } .shutdown
  | .shutdown => set { g with running := false } .finished
  | .finished => none

/-- The `try` block of the worker class of a test case. -/
def Worker.tryBlock (env : Env) : TestCase → Outcome → Globals → Worker → Option (Globals × Worker)
  | .ip => Ip.run env
  | .rttUdp => Ping.run env
  | .download => Download.run
  | .upload => Upload.run env

/-- One step of a worker thread of the test case `k`. -/
def Worker.run (env : Env) (k : TestCase) (o : Outcome) (g : Globals) (w : Worker) :
    Option (Globals × Worker) :=
  if o.throws then
    if w.pc.inTry then w.goto g .catchHasError else none
  else
    match w.pc with
    | .catchHasError | .catchRunning => catchException g w
    | _ => Worker.tryBlock env k o g w

/-- The thread that moves, or the event from outside: a stop, or a new reading of the clock. -/
inductive Action
  | main (created : Bool)
  | timer
  | worker (j : Nat) (o : Outcome)
  | pastTimer (i : Nat)
  | pastWorker (i j : Nat) (o : Outcome)
  | stop
  | clock (now : UInt64)

/-- The objects that the pointers in CCallback reach. -/
def Phase.objects (p : Phase) : List Worker := if p.stored then p.workers else []

def timerStep (env : Env) (objects : List Worker) (sh : Shared) (p : Phase) :
    Option (Shared × Phase) :=
  (CTimer.run env p.testCase objects sh p.timer).map fun r => (r.1, { p with timer := r.2 })

def workerStep (env : Env) (j : Nat) (o : Outcome) (sh : Shared) (p : Phase) :
    Option (Shared × Phase) :=
  p.workers[j]?.bind fun w =>
    (Worker.run env p.testCase o sh.g w).map fun r =>
      ({ sh with g := r.1 }, { p with workers := p.workers.set j r.2 })

/-- One atomic step of a measurement. -/
def step (env : Env) (a : Action) (s : Sys) : Option Sys :=
  match a with
  | .main created => mainStep env created s
  | .timer =>
    (timerStep env s.phase.objects s.sh s.phase).map fun r => { s with sh := r.1, phase := r.2 }
  | .worker j o =>
    (workerStep env j o s.sh s.phase).map fun r => { s with sh := r.1, phase := r.2 }
  | .pastTimer i =>
    s.past[i]?.bind fun p => (timerStep env s.phase.objects s.sh p).map fun r =>
      { s with sh := r.1, past := s.past.set i r.2 }
  | .pastWorker i j o =>
    s.past[i]?.bind fun p => (workerStep env j o s.sh p).map fun r =>
      { s with sh := r.1, past := s.past.set i r.2 }
  | .stop => some { s with sh := { s.sh with g := { s.sh.g with running := false } } }
  | .clock now => some { s with sh := { s.sh with g := { s.sh.g with now := now } } }

/-- What a parameter string chooses; the environment holds its other values. -/
structure Parameters where
  rtt : Bool
  download : Bool
  upload : Bool

/-- `::RTT || ::DOWNLOAD || ::UPLOAD` -/
def Parameters.any (c : Parameters) : Bool := c.rtt || c.download || c.upload

/-- Parameters with which `measurementStart` comes to the ip test. -/
structure Choice extends Parameters where
  chosen : toParameters.any = true

/-- The state in which `measurementStart` considers its first test case, with RTT, DOWNLOAD and
UPLOAD as the parameters choose them, over whatever globals an earlier measurement left. If they
choose none, `measurementStart` has reported an error before and called `shutdown`. -/
def measurementStart (rtt download upload : Bool) (old : Globals) : Sys :=
  { sh :=
      { g := { old with
          running := old.running && (rtt || download || upload)
          performedIp := false
          performedRtt := false
          performedDownload := false
          performedUpload := false
          hasError := false
          unreachable := false
          streamsDropped := false
          forbidden := false
          tlsParametersMissing := false
          rtt := rtt
          download := download
          upload := upload
          timestampMeasurementStart := old.now.toNat * 1000 }
        cb := { mTestCase := .ip }
        log := [] }
    main := .gate .ip
    phase := { testCase := .ip, timer := { pc := .returned, mInstances := 0 }, workers := [],
               stored := false }
    past := [] }

end IasClient
