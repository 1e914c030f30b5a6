import IasClient.Model.Aggregate

namespace IasClient

open Framework

inductive Cmd
  | info
  | error
  | report
  | finish
  | started
  | completed
  deriving DecidableEq

/-- The calls of `mCallback->callback` in `CTimer::run`, in source order. -/
inductive Call
  | unreachable
  | forbidden
  | tlsParametersMissing
  | starting
  | started
  | streamsDropped
  | report
  | finish
  deriving DecidableEq

namespace Call

def cmd : Call → Cmd
  | unreachable | forbidden | tlsParametersMissing | streamsDropped => .error
  | starting | started => .info
  | report => .report
  | finish => .finish

def msg : Call → String
  | unreachable => "no connection to measurement peer"
  | forbidden => "forbidden"
  | tlsParametersMissing => "TLS parameters missing"
  | starting => "starting measurement"
  | started => "measurement started"
  | streamsDropped => "measurement streams dropped"
  | report => "measurement report"
  | finish => "measurement completed"

def errorCode : Call → Int
  | unreachable => 7
  | forbidden => 4
  | tlsParametersMissing => 8
  | streamsDropped => 9
  | _ => 0

def errorDescription : Call → String
  | starting | started | report | finish => ""
  | c => c.msg

end Call

/-- The sections of `rtt_udp_info` that the source computes itself. -/
structure RttUdpInfo where
  numSent : Int
  numReceived : Int
  numError : Int
  numMissing : Int
  rtts : List (UInt64 × UInt64)

/-- The members of CCallback that outlive a call. -/
structure CCallback where
  mTestCase : TestCase
  jMeasurementResultsIp : IpInfo := {}
  jMeasurementResultsRttUdp : Option RttUdpInfo := none
  jMeasurementResultsDownload : List Aggregate := []
  jMeasurementResultsDownloadStreams : List PerStream := []
  jMeasurementResultsUpload : List Aggregate := []
  jMeasurementResultsUploadStreams : List PerStream := []

/-- What `callbackToPlatform` hands over; `error` is present for a code other than 0. -/
structure Message where
  cmd : Cmd
  msg : String
  testCase : TestCase
  error : Option (Int × String)
  ipInfo : IpInfo
  rttUdpInfo : Option RttUdpInfo
  downloadInfo : List Aggregate
  downloadRawData : List PerStream
  uploadInfo : List Aggregate
  uploadRawData : List PerStream
  currentTestPhase : MeasurementPhase

/-- The history of a measurement: calls of `startTestCase`, and messages to the platform with the
test case whose thread sent them. -/
inductive Event
  | startTestCase (k : TestCase)
  | platform (sender : TestCase) (m : Message)

/-- What all threads share. -/
structure Shared where
  g : Globals
  cb : CCallback
  log : List Event

def message (g : Globals) (cb : CCallback) (cmd : Cmd) (msg : String) (errorCode : Int)
    (errorDescription : String) : Message :=
  { cmd := cmd
    msg := msg
    testCase := g.nTestCase
    error := if errorCode = 0 then none else some (errorCode, errorDescription)
    ipInfo := cb.jMeasurementResultsIp
    rttUdpInfo := cb.jMeasurementResultsRttUdp
    downloadInfo := cb.jMeasurementResultsDownload
    downloadRawData := cb.jMeasurementResultsDownloadStreams
    uploadInfo := cb.jMeasurementResultsUpload
    uploadRawData := cb.jMeasurementResultsUploadStreams
    currentTestPhase := g.currentTestPhase }

def callbackToPlatform (sender : TestCase) (cmd : Cmd) (msg : String) (errorCode : Int)
    (errorDescription : String) (s : Shared) : Shared :=
  { s with log := s.log ++
    [.platform sender (message s.g s.cb cmd msg errorCode errorDescription)] }

/-- The reads of the counters in `rttUdpCallback`: the three terms of `requests`, and then each
counter once more. The thread of the test goes on meanwhile. -/
inductive CounterRead
  | requestsReplies
  | requestsMissing
  | requestsErrors
  | replies
  | missing
  | errors
  deriving DecidableEq

/-- What `rttUdpCallback` has read of the counters. -/
structure RttCounters where
  requests : Int := 0
  replies : Int := 0
  missing : Int := 0
  errors : Int := 0

namespace CounterRead

def next : CounterRead → Option CounterRead
  | requestsReplies => some .requestsMissing
  | requestsMissing => some .requestsErrors
  | requestsErrors => some .replies
  | replies => some .missing
  | missing => some .errors
  | errors => none

def read (r : CounterRead) (p : PingData) (n : RttCounters) : RttCounters :=
  match r with
  | requestsReplies => { n with requests := p.nReplies }
  | requestsMissing => { n with requests := n.requests + p.nMissing }
  | requestsErrors => { n with requests := n.requests + p.nErrors }
  | replies => { n with replies := p.nReplies }
  | missing => { n with missing := p.nMissing }
  | errors => { n with errors := p.nErrors }

end CounterRead

/-- The positions in `CCallback::callback` and the functions that it calls. -/
inductive CallbackPc
  | enter
  | ipTimes
  | ipResults
  | ipStopped
  | rttResults
  | rttCounters (r : CounterRead)
  | steps
  | stepHead
  | visit
  | dropError
  | dropFlag
  | stepEnd
  | publish
  | performed
  | toPlatform
  | ifCompleted
  | completed
  deriving DecidableEq

/-- The locals of `calculateMeasurementResultsDownloadUpload` and `rttUdpCallback`. -/
structure Walk where
  maxSteps : Int := 0
  currentStep : Int := 1
  streamId : Nat := 0
  sums : StepSums := {}
  results : List Aggregate := []
  perStream : List PerStream := []
  pingResults : OrdMap Int UInt64 := .empty
  pingTimestamps : OrdMap Int UInt64 := .empty
  counters : RttCounters := {}

/-- Where a call goes on once its results are stored. -/
def Call.stored : Call → CallbackPc
  | .finish => .performed
  | _ => .toPlatform

/-- `jMeasurementResultsIp` after `ipCallback` copied the worker's object. -/
def copyIp (old new : IpInfo) : IpInfo :=
  if old.clientV4.getD "" = "" then new else { new with clientV4 := old.clientV4 }

/-- The array `rtts`: values numbered from 1 as the map `results_timestamp` is indexed. -/
def rtts (interimValues : List UInt64) (timestamps : OrdMap Int UInt64) : List (UInt64 × UInt64) :=
  interimValues.zipIdx.map fun e => (e.1 * 1000, timestamps.get ((e.2 : Int) + 1))

def rttUdpInfo (env : Env) (n : RttCounters) (results timestamps : OrdMap Int UInt64) :
    RttUdpInfo :=
  { numSent := n.requests
    numReceived := n.replies
    numError := n.errors
    numMissing := n.missing
    rtts := rtts (env.interimValues results) timestamps }

def publishResults (k : TestCase) (w : Walk) (cb : CCallback) : CCallback :=
  match k with
  | .download => { cb with
      jMeasurementResultsDownload := w.results
      jMeasurementResultsDownloadStreams := w.perStream }
  | .upload => { cb with
      jMeasurementResultsUpload := w.results
      jMeasurementResultsUploadStreams := w.perStream }
  | _ => cb

end IasClient
