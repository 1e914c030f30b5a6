import IasClient.Model.Globals
import IasClient.Framework.Tokens

namespace IasClient

namespace Libtool

/-- `CTool::tokenize`: the pieces between delimiters, without the empty ones. -/
def tokenize (s : List Char) (delimiter : Char) : List (List Char) := Framework.tokens s delimiter

/-- The value of a run of decimal digits. -/
def decimal (s : List Char) : Nat :=
  (s.takeWhile Char.isDigit).foldl (fun n c => 10 * n + (c.toNat - '0'.toNat)) 0

/-- `CTool::toULL` on an unsigned decimal number. -/
def toULL (s : List Char) : UInt64 := UInt64.ofNat (decimal s)

/-- `CTool::toInt` on an unsigned decimal number. -/
def toInt (s : String) : Int := decimal s.toList

/-- The pieces between the quotation marks of a text. -/
def quoted (s : List Char) : List (List Char) :=
  s.foldr (fun c pieces => if c = Char.ofNat 34 then [] :: pieces
    else (c :: pieces.headD []) :: pieces.tail) [[]]

/-- The members of an object, from the pieces after its opening brace. -/
def members : List (List Char) → Option (List (String × String))
  | [key, [':'], value, ['\x7d']] => some [(String.ofList key, String.ofList value)]
  | key :: [':'] :: value :: [','] :: rest =>
    (members rest).map fun m => (String.ofList key, String.ofList value) :: m
  | _ => none

/-- `Json::parse` on an object of plain strings; a null value for every other text. -/
def parse (s : List Char) : Json := fun key =>
  match quoted s with
  | ['\x7b'] :: rest => (((members rest).getD []).lookup key).getD ""
  | _ => ""

end Libtool

/-- A desktop measurement without TLS, every parameter at its default. -/
def Env.default : Env where
  readLong key value := if key = "TLS" then 0 else value
  pid _ j := j
  tokenize := Libtool.tokenize
  toULL := Libtool.toULL
  toInt := Libtool.toInt
  parse _ key := if key = "cmd" then "ip_report" else ""
  interimValues m := m.values
  mobile := false

/-- One stream for one second, without TLS. -/
def oneStreamEnv : Env :=
  { Env.default with readLong := fun key _ => if key = "TLS" then 0 else 1 }

/-- Two streams in each direction, without TLS. -/
def twoStreamEnv : Env :=
  { Env.default with readLong := fun key _ => if key = "TLS" then 0 else 2 }

/-- The zero-initialised globals, with RUNNING as `main` sets it. -/
def Globals.default : Globals where
  running := true
  unreachable := false
  streamsDropped := false
  forbidden := false
  tlsParametersMissing := false
  hasError := false
  rtt := false
  download := false
  upload := false
  timerActive := false
  timerRunning := false
  timerStopped := false
  timerIndex := 0
  timerIndexUploadFirst := 0
  timerDuration := 0
  measurementDuration := 0
  timestampMeasurementStart := 0
  performedIp := false
  performedRtt := false
  performedDownload := false
  performedUpload := false
  syncingThreads := .empty
  mutexTimerIndexUploadFirst := none
  nTestCase := .ip
  instances := 0
  currentTestPhase := .INIT
  now := 0

end IasClient
