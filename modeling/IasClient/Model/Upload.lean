import IasClient.Model.Worker

namespace IasClient

open Framework

namespace Upload

def UPLOAD_ADDITIONAL_MEASUREMENT_DURATION : Int := 2

/-- What the decoding of one token does: skip a token of at most two fields, decode one, or read
the missing fourth field, or start `substr` beyond the end of the fourth. -/
inductive Decoded
  | short
  | entry (nDataRecv nTimeRecvExa : UInt64)
  | missingField
  | outOfRange
  deriving DecidableEq

/-- `s.substr(s.length() - 6)` -/
def lastSix (s : List Char) : Option (List Char) :=
  if s.length < 6 then none else some (s.drop (s.length - 6))

def decode (env : Env) (token : List Char) : Decoded :=
  match env.tokenize token ',' with
  | data :: _ :: _ :: stamp :: _ =>
    match lastSix stamp with
    | some s => .entry (env.toULL data) (env.toULL s)
    | none => .outOfRange
  | [_, _, _] => .missingField
  | _ => .short

/-- Lines 222 to 226, once the fields are decoded. -/
def setDecoded (data stamp : UInt64) (u : UploadData) : UploadData :=
  { nDataRecv := data * 8
    nTimeRecvExa := stamp
    mUpload := { u.mUpload with datasizeTotal := u.mUpload.datasizeTotal + data * 8 } }

/-- The keys of the grid that a stream creates at the origin. -/
def gridKeys (first : Int) (d : UInt64) : List Int :=
  (List.range (2 * d.toNat + 1)).map fun k : Nat => first + 5 * (k : Int)

def zeroGrid (first : Int) (d : UInt64) (u : UploadData) : UploadData :=
  { u with mUpload := { u.mUpload with
    results := (gridKeys first d).foldl (fun m i => m.insert i 0) u.mUpload.results } }

/-- The slow-start size, set while it is 0 by an entry that carries the origin's stamp. -/
def latch (first : Int) (u : UploadData) : UploadData :=
  if u.mUpload.datasizeSlowStart = 0 ∧ UInt64.ofInt first = u.nTimeRecvExa then
    { u with mUpload := { u.mUpload with
      datasizeSlowStart := u.mUpload.datasizeTotal - u.nDataRecv } }
  else u

def setResults (m : OrdMap Int UInt64) (u : UploadData) : UploadData :=
  { u with mUpload := { u.mUpload with results := m } }

def run (env : Env) (o : Outcome) (g : Globals) (w : Worker) : Option (Globals × Worker) :=
  match w.pc with
  | .prepare =>
    some (g, { w with
      upload := { w.upload with mUpload := { w.upload.mUpload with
        datasizeTotal := 0
        datasizeSlowStart := 0 } }
      pc := .whileRunning })
  | .received =>
    if w.mResponse = -1 ∨ w.mResponse = 0 then w.goto g .stopSender
    else some (g, { w with vResponse := env.tokenize w.text ';', pc := .nextToken })
  | .nextToken =>
    match w.vResponse with
    | [] => w.goto g .whileRunning
    | token :: rest =>
      match decode env token with
      | .short => some (g, { w with vResponse := rest, pc := .uploadRunning })
      | .entry data stamp =>
        some (g, { w with
          vResponse := rest
          upload := setDecoded data stamp w.upload
          pc := .uploadRunning })
      | .missingField => w.goto g .aborted
      | .outOfRange => w.goto g .catchHasError
  | .uploadRunning => w.goto g (if g.timerRunning then .uploadFirst else .ifFirstSet)
  | .uploadFirst => w.goto g (if g.timerIndexUploadFirst = 0 then .lock else .ifFirstSet)
  | .lock =>
    match g.mutexTimerIndexUploadFirst with
    | some _ => none
    | none => w.goto { g with mutexTimerIndexUploadFirst := some w.pid } .uploadFirstAgain
  | .uploadFirstAgain => w.goto g (if g.timerIndexUploadFirst = 0 then .setFirst else .unlock)
  | .setFirst => w.goto { g with timerIndexUploadFirst := toInt w.upload.nTimeRecvExa } .unlock
  | .unlock => w.goto { g with mutexTimerIndexUploadFirst := none } .ifFirstSet
  | .ifFirstSet => w.goto g (if g.timerIndexUploadFirst = 0 then .uploadHasError else .ifFirstEqual)
  | .ifFirstEqual =>
    w.goto g (if UInt64.ofInt g.timerIndexUploadFirst = w.upload.nTimeRecvExa then .grid
      else .uploadHasError)
  | .grid =>
    some (g, { w with
      upload := zeroGrid g.timerIndexUploadFirst g.measurementDuration w.upload
      pc := .uploadHasError })
  | .uploadHasError => w.goto g (if g.hasError then .nextToken else .store)
  | .store =>
    match w.upload.mUpload.results.find? (toInt w.upload.nTimeRecvExa) with
    | none =>
      some (g, { w with
        upload := setResults (w.upload.mUpload.results.insert (toInt w.upload.nTimeRecvExa)
          w.upload.nDataRecv) w.upload
        pc := .nextToken })
    | some _ =>
      some (g, { w with
        upload := setResults (w.upload.mUpload.results.add (toInt w.upload.nTimeRecvExa)
          w.upload.nDataRecv) w.upload
        pc := .latchFirst })
  | .latchFirst =>
    some (g, { w with upload := latch g.timerIndexUploadFirst w.upload, pc := .nextToken })
  | .stopSender => w.goto g .returned
  | .whileRunning | .whileActive | .whileStopped | .receive | .setSynced =>
    receiveLoop .stopSender o g w
  | _ => connect true .prepare o g w

end Upload

end IasClient
