import IasClient.Model.Globals

namespace IasClient

open Framework

/-- The positions in the `run` functions of Ip, Ping, Download and Upload: before each read or
write of a global variable, and before each call whose outcome is not the program's. -/
inductive WorkerPc
  | resolve
  | setUnreachable
  | setHasError
  | timestamp
  | register
  | socket
  | request
  | httpUnreachable
  | httpForbidden
  | httpHasError
  | prepare
  | whileRunning
  | whileActive
  | whileStopped
  | receive
  | setSynced
  | received
  | ipClient
  | ipTls
  | tlsMissing
  | tlsHasError
  | ipVersion
  | ifTimerRunning
  | ifHasError
  | addBin
  | latch
  | nextToken
  | uploadRunning
  | uploadFirst
  | lock
  | uploadFirstAgain
  | setFirst
  | unlock
  | ifFirstSet
  | ifFirstEqual
  | grid
  | uploadHasError
  | store
  | latchFirst
  | stopSender
  | setDuration
  | udpSocket
  | pingRunning
  | pingSynced
  | sendto
  | recvfrom
  | evaluate
  | setStopped
  | catchHasError
  | catchRunning
  | returned
  | aborted
  deriving DecidableEq

/-- The positions inside the `try` block at which no mutex is held. -/
def WorkerPc.inTry : WorkerPc → Bool
  | lock | uploadFirstAgain | setFirst | unlock => false
  | catchHasError | catchRunning | returned | aborted => false
  | _ => true

/-- What the calls of one step bring from outside the program. -/
structure Outcome where
  /-- an exception leaves the step -/
  throws : Bool := false
  /-- name resolution or the creation of a socket succeeds -/
  ok : Bool := true
  /-- `requestToReferenceServer`, `receive` or `recvfrom` -/
  code : Int := 0
  /-- `rbuffer` up to its first NUL -/
  text : List Char := []
  tlsRecords : Int := 0
  /-- `CTool::validateIp(mServer) == 6` -/
  ipv6 : Bool := false
  /-- the 64 random bytes of a ping, and the buffer after `recvfrom` -/
  bytes : List UInt8 := []

/-- `jMeasurementResultsIp`, an object whose keys may be absent. -/
structure IpInfo where
  client : Option String := none
  clientV4 : Option String := none
  tlsVersion : Option String := none
  tlsCipherSuite : Option String := none
  tlsOverhead : Option String := none
  clientIpVersion : Option String := none
  /-- `operator[]` has inserted the key `tls_overhead` with the value null -/
  tlsOverheadNull : Bool := false

/-- `jMeasurementResultsIp.size() > 0` -/
def IpInfo.nonempty (j : IpInfo) : Bool :=
  j.client.isSome || j.clientV4.isSome || j.tlsVersion.isSome || j.tlsCipherSuite.isSome ||
    j.tlsOverhead.isSome || j.clientIpVersion.isSome || j.tlsOverheadNull

/-- `jMeasurementResultsIp["tls_overhead"]` inserts the key where it is absent. -/
def IpInfo.touchTlsOverhead (j : IpInfo) : IpInfo :=
  if j.tlsOverhead.isSome then j else { j with tlsOverheadNull := true }

/-- The counters and maps of a Ping object, and the locals of its loop. -/
structure PingData where
  i : Int := 1
  firstResponse : Bool := true
  sbuffer : List UInt8 := []
  rbuffer : List UInt8 := []
  time1 : UInt64 := 0
  nErrors : Int := 0
  nMissing : Int := 0
  nReplies : Int := 0
  results : OrdMap Int UInt64 := .empty
  resultsTimestamp : OrdMap Int UInt64 := .empty

/-- The fields of an Upload object that outlive an entry. -/
structure UploadData where
  mUpload : MeasurementData := {}
  nDataRecv : UInt64 := 0
  nTimeRecvExa : UInt64 := 0

/-- A worker thread with its object: an Ip, Ping, Download or Upload. -/
structure Worker where
  pc : WorkerPc
  pid : Int
  destroyed : Bool := false
  ipv6 : Bool := false
  dataReceived : Bool := false
  mResponse : Int := 0
  text : List Char := []
  tlsRecords : Int := 0
  mTlsOverhead : Int := 0
  /-- not initialised until the thread reads the clock -/
  measurementTimeStart : Option UInt64 := none
  jMeasurementResultsIp : IpInfo := {}
  ping : PingData := {}
  mDownload : MeasurementData := {}
  upload : UploadData := {}
  vResponse : List (List Char) := []

namespace Worker

/-- The step that leaves the globals alone. -/
def goto (g : Globals) (w : Worker) (pc : WorkerPc) : Option (Globals × Worker) :=
  some (g, { w with pc := pc })

end Worker

/-- The part of `run` that Ip, Download and Upload share, up to the answer to the request.
`forbids` is the test for the code -2 that Download and Upload make and Ip does not; `next` is
where the function goes on after an answer that is not negative. -/
def connect (forbids : Bool) (next : WorkerPc) (o : Outcome) (g : Globals) (w : Worker) :
    Option (Globals × Worker) :=
  match w.pc with
  | .resolve =>
    if o.ok then some (g, { w with ipv6 := o.ipv6, pc := .timestamp })
    else w.goto g .setUnreachable
  | .setUnreachable => w.goto { g with unreachable := true } .setHasError
  | .setHasError => w.goto { g with hasError := true } .returned
  | .timestamp => some (g, { w with measurementTimeStart := some g.now, pc := .register })
  | .register => w.goto { g with syncingThreads := g.syncingThreads.insert w.pid 0 } .socket
  | .socket => w.goto g (if o.ok then .request else .setUnreachable)
  | .request =>
    w.goto g (if 0 ≤ o.code then next
      else if o.code = -1 then .httpUnreachable
      else if o.code = -2 ∧ forbids = true then .httpForbidden
      else .httpHasError)
  | .httpUnreachable => w.goto { g with unreachable := true } .httpHasError
  | .httpForbidden => w.goto { g with forbidden := true } .httpHasError
  | .httpHasError => w.goto { g with hasError := true } .returned
  | _ => none

/-- The head of the receive loop and the first registration of its data, shared by Ip, Download
and Upload; `leave` is where the function goes on after the loop. -/
def receiveLoop (leave : WorkerPc) (o : Outcome) (g : Globals) (w : Worker) :
    Option (Globals × Worker) :=
  match w.pc with
  | .whileRunning => w.goto g (if g.running then .whileActive else leave)
  | .whileActive => w.goto g (if g.timerActive then .whileStopped else leave)
  | .whileStopped => w.goto g (if g.timerStopped then leave else .receive)
  | .receive =>
    some (g, { w with
      mResponse := o.code
      text := o.text
      tlsRecords := o.tlsRecords
      pc := if w.dataReceived then .received else .setSynced })
  | .setSynced =>
    some ({ g with syncingThreads := g.syncingThreads.insert w.pid 1 },
      { w with dataReceived := true, pc := .received })
  | _ => none

/-- The handler at the end of every `run`. -/
def catchException (g : Globals) (w : Worker) : Option (Globals × Worker) :=
  match w.pc with
  | .catchHasError => w.goto { g with hasError := true } .catchRunning
  | .catchRunning => w.goto { g with running := false } .returned
  | _ => none

end IasClient
