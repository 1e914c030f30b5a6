import IasClient.Framework.OrdMap
import Mathlib.Data.Int.Order.Basic
import Mathlib.Data.UInt

namespace IasClient

open Framework

/-- `conf.nTestCase` 1 to 4, named by `conf.sTestName`. -/
inductive TestCase
  | ip
  | rttUdp
  | download
  | upload
  deriving DecidableEq

namespace TestCase

def number : TestCase → Nat
  | ip => 1
  | rttUdp => 2
  | download => 3
  | upload => 4

/-- The test case that `measurementStart` considers after this one. -/
def next : TestCase → Option TestCase
  | ip => some rttUdp
  | rttUdp => some download
  | download => some upload
  | upload => none

end TestCase

inductive MeasurementPhase
  | INIT
  | IP
  | PING
  | DOWNLOAD
  | UPLOAD
  | END
  deriving DecidableEq

def TestCase.phase : TestCase → MeasurementPhase
  | .ip => .IP
  | .rttUdp => .PING
  | .download => .DOWNLOAD
  | .upload => .UPLOAD

/-- An `unsigned long long` converted to `int`. -/
def toInt (x : UInt64) : Int := x.toUInt32.toInt32.toInt

theorem toInt_of_lt {x : UInt64} (h : x.toNat < 2 ^ 31) : toInt x = x.toNat := by
  have h32 : x.toUInt32.toNat = x.toNat := by
    rw [UInt64.toNat_toUInt32, Nat.mod_eq_of_lt (by omega)]
  rw [toInt, Int32.toInt, UInt32.toBitVec_toInt32, BitVec.toInt_eq_toNat_cond,
    UInt32.toNat_toBitVec, h32, if_pos (by omega)]

theorem ofInt_toNat {x : Int} (h0 : 0 ≤ x) (h1 : x < 2 ^ 64) :
    ((UInt64.ofInt x).toNat : Int) = x := by
  have h2 : x % 2 ^ 64 = x := Int.emod_eq_of_lt h0 h1
  simp only [UInt64.ofInt, h2]
  rw [UInt64.toNat_ofNat']
  omega

/-- Microseconds whose nanoseconds do not wrap. -/
theorem toNat_ns {x : UInt64} (h : x.toNat * 1000 < 2 ^ 64) :
    (x * 1000).toNat = x.toNat * 1000 := by
  have hthousand : (1000 : UInt64).toNat = 1000 := rfl
  rw [UInt64.toNat_mul, hthousand]
  exact Nat.mod_eq_of_lt h

/-- An `int` operation with the given exact value; an overflow is computed modulo `2 ^ 32`. -/
def wrapInt (x : Int) : Int := x.bmod 4294967296

theorem wrapInt_of_within {x : Int} (h0 : -2147483648 ≤ x) (h1 : x ≤ 2147483647) :
    wrapInt x = x :=
  Int.bmod_eq_of_le (by omega) (by omega)

theorem wrapInt_le (x : Int) : wrapInt x ≤ 2147483647 := by
  have := Int.bmod_lt (x := x) (m := 4294967296) (by decide)
  rw [wrapInt]
  omega

/-- The part of `struct measurement_data` that the accounting writes. -/
structure MeasurementData where
  results : OrdMap Int UInt64 := .empty
  datasizeTotal : UInt64 := 0
  datasizeSlowStart : UInt64 := 0

/-- `j[key].string_value()` of a parsed report; empty for a missing or non-string value. -/
abbrev Json := String → String

/-- The calls into ias-libtool, and the parameters of one measurement. -/
structure Env where
  /-- `pXml->readLong(conf.sProvider, key, default)` -/
  readLong : String → Int → Int
  /-- The `int` under which the `j`-th worker of a test case registers after `CTool::getPid`. -/
  pid : TestCase → Nat → Int
  tokenize : List Char → Char → List (List Char)
  toULL : List Char → UInt64
  toInt : String → Int
  /-- `Json::parse` -/
  parse : List Char → Json
  /-- `interim_values` as left by `CTool::calculateResults(ping, 1, 0, 0)` -/
  interimValues : OrdMap Int UInt64 → List UInt64
  /-- an Android or iOS build -/
  mobile : Bool

/-- The global variables of ias_client.cpp that the threads of a measurement share. -/
structure Globals where
  running : Bool
  unreachable : Bool
  streamsDropped : Bool
  forbidden : Bool
  tlsParametersMissing : Bool
  hasError : Bool
  rtt : Bool
  download : Bool
  upload : Bool
  timerActive : Bool
  timerRunning : Bool
  timerStopped : Bool
  timerIndex : Int
  timerIndexUploadFirst : Int
  timerDuration : Int
  measurementDuration : UInt64
  timestampMeasurementStart : Int
  performedIp : Bool
  performedRtt : Bool
  performedDownload : Bool
  performedUpload : Bool
  syncingThreads : OrdMap Int Int
  /-- the holder of `mutex_timer_index_upload_first` -/
  mutexTimerIndexUploadFirst : Option Int
  nTestCase : TestCase
  instances : Int
  currentTestPhase : MeasurementPhase
  /-- what `CTool::get_timestamp` reads, in microseconds -/
  now : UInt64

namespace Globals

/-- `::IP`, `::RTT`, `::DOWNLOAD`, `::UPLOAD`; `measurementStart` sets `::IP` to true. -/
def enabled (g : Globals) : TestCase → Bool
  | .ip => true
  | .rttUdp => g.rtt
  | .download => g.download
  | .upload => g.upload

def performed (g : Globals) : TestCase → Bool
  | .ip => g.performedIp
  | .rttUdp => g.performedRtt
  | .download => g.performedDownload
  | .upload => g.performedUpload

def setPerformed (g : Globals) : TestCase → Globals
  | .ip => { g with performedIp := true }
  | .rttUdp => { g with performedRtt := true }
  | .download => { g with performedDownload := true }
  | .upload => { g with performedUpload := true }

/-- `::IP == PERFORMED_IP && ::RTT == PERFORMED_RTT && …` -/
def allPerformed (g : Globals) : Bool :=
  g.performedIp && (g.rtt == g.performedRtt) && (g.download == g.performedDownload) &&
    (g.upload == g.performedUpload)

/-- The entries of `syncing_threads` that are 1. -/
def syncCounter (g : Globals) : Nat :=
  (g.syncingThreads.entries.filter (fun e => e.2 == 1)).length

end Globals

end IasClient
