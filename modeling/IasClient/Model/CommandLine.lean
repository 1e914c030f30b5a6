import IasClient.Model.Startup

namespace IasClient

namespace CommandLine

/-- What one call of `getopt` returns, with `optarg`. -/
structure Opt where
  opt : Char
  optarg : Option String := none

/-- EXIT_SUCCESS and EXIT_FAILURE. -/
inductive Exit
  | success
  | failure
  deriving DecidableEq

/-- What the options set. -/
structure Selection where
  rtt : Bool := false
  download : Bool := false
  upload : Bool := false
  tls : Nat := 0
  target_port : String := "80"

/-- `show_usage` does not return. -/
def show_usage : Exit := .failure

/-- The loop over the options; `-n` sets `_DEBUG_` only. -/
def options (s : Selection) : List Opt → Except Exit Selection
  | [] => .ok s
  | o :: rest =>
    match o.opt with
    | 'r' => options { s with rtt := true } rest
    | 'd' => options { s with download := true } rest
    | 'u' => options { s with upload := true } rest
    | 't' => options { s with tls := 1 } rest
    | 'p' =>
      match o.optarg with
      | none => .error show_usage
      | some port => options { s with target_port := port } rest
    | 'n' => options s rest
    | 'h' => .error show_usage
    | 'v' => .error .success
    | _ => .error show_usage

/-- `jMeasurementParameters`, the members of an object in the order of their keys. -/
def measurementParameters (s : Selection) : Json11 :=
  .object
    [("clientos", .string "linux"),
      ("download", .object [("performMeasurement", .bool s.download), ("streams", .string "4")]),
      ("platform", .string "desktop"),
      ("rtt", .object [("performMeasurement", .bool s.rtt)]),
      ("upload", .object [("performMeasurement", .bool s.upload), ("streams", .string "4")]),
      ("wsTargetPort", .string s.target_port),
      ("wsTargetPortRtt", .string "80"),
      ("wsTargets", .array [.string "peer.example.com"]),
      ("wsWss", .string (toString s.tls))]

/-- `main` up to the first test case, over what `getopt` returns one after the other. -/
def main (parse : String → Option Json11) (dump : Json11 → String) (rand : Nat) (opts : List Opt)
    (g : Globals) : Except Exit (Except Startup.Stop Startup.Ready) := do
  let s ← options {} opts
  if !s.rtt && !s.download && !s.upload then .error show_usage
  else
    return Startup.measurementStart .desktop parse rand (dump (measurementParameters s))
      { g with running := true, rtt := s.rtt, download := s.download, upload := s.upload }

end CommandLine

end IasClient
