import IasClient.Model.Startup

namespace IasClient

namespace AndroidConnector

/-- The Java object that is passed to `setSpeedSettings`; `none` is a null array. -/
structure JavaSpeedTaskDesc where
  speedServerAddrs : Option (List String)
  rttCount : Int
  downloadStreams : Int
  uploadStreams : Int
  speedServerPort : Int
  speedServerPortRtt : Int
  performDownload : Bool
  performUpload : Bool
  performRtt : Bool
  useEncryption : Bool

/-- The field `speedTaskDesc` of the singleton, as it is loaded. -/
structure SpeedTaskDesc where
  measurementServerUrl : List String := []
  rttCount : Int := 0
  downloadStreams : Int := 0
  uploadStreams : Int := 0
  speedServerPort : Int := 0
  speedServerPortRtt : Int := 0
  performDownload : Bool := false
  performUpload : Bool := false
  performRtt : Bool := false
  isEncrypted : Bool := false

/-- The loop over the array, which appends each of its strings. -/
def appendUrls (urls : List String) : List String → List String
  | [] => urls
  | url :: rest => appendUrls (urls ++ [url]) rest

def setSpeedSettings (d : JavaSpeedTaskDesc) (t : SpeedTaskDesc) : SpeedTaskDesc where
  measurementServerUrl :=
    match d.speedServerAddrs with
    | some serverUrls => appendUrls t.measurementServerUrl serverUrls
    | none => t.measurementServerUrl
  rttCount := d.rttCount
  downloadStreams := d.downloadStreams
  uploadStreams := d.uploadStreams
  speedServerPort := d.speedServerPort
  speedServerPortRtt := d.speedServerPortRtt
  performDownload := d.performDownload
  performUpload := d.performUpload
  performRtt := d.performRtt
  isEncrypted := d.useEncryption

/-- `jMeasurementParameters` of `startMeasurement`, the members of an object in the order of their
keys. -/
def measurementParameters (t : SpeedTaskDesc) : Json11 :=
  .object
    [("clientos", .string "android"),
      ("download", .object [("performMeasurement", .bool t.performDownload),
        ("streams", .string (toString t.downloadStreams))]),
      ("platform", .string "mobile"),
      ("rtt", .object [("performMeasurement", .bool t.performRtt),
        ("ping_query", .string (toString t.rttCount))]),
      ("upload", .object [("performMeasurement", .bool t.performUpload),
        ("streams", .string (toString t.uploadStreams))]),
      ("wsTargetPort", .string (toString t.speedServerPort)),
      ("wsTargetPortRtt", .string (toString t.speedServerPortRtt)),
      ("wsTargets", .array (t.measurementServerUrl.map .string)),
      ("wsWss", .string (if t.isEncrypted then "1" else "0"))]

/-- `startMeasurement` up to the first test case; `dump` is `Json::dump`. -/
def startMeasurement (parse : String → Option Json11) (dump : Json11 → String) (rand : Nat)
    (t : SpeedTaskDesc) (g : Globals) : Except Startup.Stop Startup.Ready :=
  Startup.measurementStart .android parse rand (dump (measurementParameters t))
    { g with
      running := true
      rtt := t.performRtt
      download := t.performDownload
      upload := t.performUpload }

/-- The calls into the singleton. -/
inductive ConnectorCall
  | setSpeedSettings (d : JavaSpeedTaskDesc)
  | startMeasurement

/-- What a call makes of `speedTaskDesc`; `startMeasurement` only reads it. -/
def ConnectorCall.apply (t : SpeedTaskDesc) : ConnectorCall → SpeedTaskDesc
  | setSpeedSettings d => AndroidConnector.setSpeedSettings d t
  | startMeasurement => t

/-- The descriptor after a sequence of calls. -/
def speedTaskDesc (calls : List ConnectorCall) : SpeedTaskDesc :=
  calls.foldl ConnectorCall.apply {}

end AndroidConnector

end IasClient
