import IasClient.Model.Measurement

namespace IasClient

/-- `json11::Json`; the value of a number is read nowhere. -/
inductive Json11
  | null
  | bool (value : Bool)
  | number
  | string (value : String)
  | array (items : List Json11)
  | object (items : List (String × Json11))

namespace Json11

def boolValue : Json11 → Bool
  | bool b => b
  | _ => false

def stringValue : Json11 → String
  | string s => s
  | _ => ""

def arrayItems : Json11 → List Json11
  | array l => l
  | _ => []

def objectItems : Json11 → List (String × Json11)
  | object m => m
  | _ => []

/-- `operator[]` of `Json::object`: a missing key gets a null value. -/
def member (m : List (String × Json11)) (key : String) : Json11 := (m.lookup key).getD null

end Json11

open Json11 (member)

/-- The builds, which differ in `shutdown()` and in where PING_QUERY comes from. -/
inductive Build
  | desktop
  | android
  | ios
  deriving DecidableEq

/-- What `measurementStart` resets before it reads its parameters. -/
def Globals.resetFlags (g : Globals) : Globals :=
  { g with
    performedIp := false
    performedRtt := false
    performedDownload := false
    performedUpload := false
    hasError := false
    unreachable := false
    streamsDropped := false
    forbidden := false
    tlsParametersMissing := false }

namespace Startup

/-- How a call ends that does not come to its first test case: the process exits, with the errors
called back so far, or `rand() % jTargets.size()` is evaluated with size 0, which is undefined. -/
inductive Stop
  | exited (errors : List (Int × String)) (g : Globals)
  | modulusZero (g : Globals)

/-- A call at its first test case. -/
structure Ready where
  errors : List (Int × String)
  /-- what has been written to `pXml` -/
  xml : List (String × String)
  sys : Sys

def shutdown (b : Build) (errors : List (Int × String)) (g : Globals) : Except Stop Globals :=
  let g := { g with running := false }
  if b = .desktop then .error (.exited errors g) else .ok g

/-- `jTargets[rand() % jTargets.size()]` -/
def selectTarget (rand : Nat) (jTargets : List Json11) (g : Globals) : Except Stop Json11 :=
  if jTargets.length = 0 then .error (.modulusZero g)
  else .ok (jTargets.getD (rand % jTargets.length) .null)

def writeXml (b : Build) (m : List (String × Json11)) (target : Json11) : List (String × String) :=
  [("DNS_HOSTNAME", target.stringValue),
    ("PORT", (member m "wsTargetPort").stringValue),
    ("PING_PORT", (member m "wsTargetPortRtt").stringValue),
    ("TLS", (member m "wsWss").stringValue),
    ("DL_STREAMS", (member (member m "download").objectItems "streams").stringValue),
    ("UL_STREAMS", (member (member m "upload").objectItems "streams").stringValue),
    ("PING_QUERY",
      if b = .android then (member (member m "rtt").objectItems "ping_query").stringValue else "10")]

def performMeasurement (m : List (String × Json11)) (key : String) : Bool :=
  (member (member m key).objectItems "performMeasurement").boolValue

/-- The rest of `measurementStart` up to its first test case, once the target is chosen. -/
def enable (b : Build) (m : List (String × Json11)) (target : Json11) (g : Globals) :
    Except Stop Ready :=
  let rtt := performMeasurement m "rtt"
  let download := performMeasurement m "download"
  let upload := performMeasurement m "upload"
  let s := IasClient.measurementStart rtt download upload g
  if rtt || download || upload then .ok { errors := [], xml := writeXml b m target, sys := s }
  else
    let errors := [(1, "no test case enabled")]
    (shutdown b errors s.sh.g).map fun g =>
      { errors := errors, xml := writeXml b m target, sys := { s with sh := { s.sh with g := g } } }

/-- `measurementStart` up to its first test case. `parse` is `Json::parse`, `none` where it returns
`Json()` with a message in `error`; `rand` is what `rand()` returns. -/
def measurementStart (b : Build) (parse : String → Option Json11) (rand : Nat)
    (measurementParameters : String) (g : Globals) : Except Stop Ready := do
  let g := g.resetFlags
  let parsed := parse measurementParameters
  let g ← if parsed.isNone then shutdown b [] g else .ok g
  let m := (parsed.getD .null).objectItems
  let target ← selectTarget rand (member m "wsTargets").arrayItems g
  enable b m target g

end Startup

end IasClient
