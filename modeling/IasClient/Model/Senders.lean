import Mathlib.Logic.Function.Basic
import IasClient.Model.Measurement
import IasClient.Model.UploadSender

namespace IasClient

open Framework

/-- A CUploadSender object with its thread. -/
structure SenderThread where
  sender : Sender := {}
  m_fStop : Bool := false
  /-- `pUploadSender` has left its scope -/
  destroyed : Bool := false
  /-- it was left by an exception; no step reads this -/
  unwound : Bool := false
  /-- the number of sends before `stopThread`; no step reads this -/
  sentBefore : Nat := 0

namespace SenderThread

def stopThread (q : SenderThread) : SenderThread :=
  { q with m_fStop := true, sentBefore := q.sender.sends.length }

/-- The end of the scope of `pUploadSender`. -/
def destroy (q : SenderThread) : SenderThread := { q with destroyed := true }

/-- The end of the scope by an exception. -/
def unwind (q : SenderThread) : SenderThread := { q with destroyed := true, unwound := true }

end SenderThread

/-- The measurement with the sender threads of its upload streams. -/
structure Sending where
  sys : Sys
  senders : Nat → Option SenderThread

inductive SendingAction
  | sys (a : Action)
  | sender (j : Nat) (code : Int)

namespace Sending

/-- A step of the measurement itself, and what becomes of the sender of the stream `j`. -/
def advance (env : Env) (a : Action) (j : Nat) (f : Option SenderThread → Option SenderThread)
    (s : Sending) : Option Sending :=
  (IasClient.step env a s.sys).map fun s' =>
    { sys := s', senders := Function.update s.senders j (f (s.senders j)) }

/-- A step of the upload stream `j`: `createThread` follows the answer to the request, the loop is
left for `stopThread` and `waitForEnd`, and an exception destroys the sender on its way out. -/
def uploadStep (env : Env) (j : Nat) (o : Outcome) (w : Worker) (s : Sending) : Option Sending :=
  if o.throws then
    s.advance env (.worker j o) j (Option.map SenderThread.unwind)
  else
    match w.pc with
    | .prepare => s.advance env (.worker j o) j fun _ => some {}
    | .nextToken =>
      match w.vResponse.head?.map (Upload.decode env) with
      | some .outOfRange => s.advance env (.worker j o) j (Option.map SenderThread.unwind)
      | _ => s.advance env (.worker j o) j id
    | .stopSender =>
      match s.senders j with
      | none => s.advance env (.worker j o) j id
      | some q =>
        if q.m_fStop then
          if q.sender.pc = .returned then
            s.advance env (.worker j o) j (Option.map SenderThread.destroy)
          else none
        else some { s with senders := Function.update s.senders j (some q.stopThread) }
    | _ => s.advance env (.worker j o) j id

def step (env : Env) (MAX_PACKET_SIZE : UInt64) (randomDataValues : RandomData)
    (a : SendingAction) (s : Sending) : Option Sending :=
  match a with
  | .sys (.worker j o) =>
    s.sys.phase.workers[j]?.bind fun w =>
      if s.sys.phase.testCase = .upload then s.uploadStep env j o w
      else s.advance env (.worker j o) j id
  | .sys a => (IasClient.step env a s.sys).map fun s' => { s with sys := s' }
  | .sender j code =>
    (s.senders j).bind fun q =>
      (CUploadSender.run MAX_PACKET_SIZE randomDataValues
        { g := s.sys.sh.g, m_fStop := q.m_fStop, code := code } q.sender).map fun r =>
          { s with senders := Function.update s.senders j (some { q with sender := r }) }

def start (rtt download upload : Bool) (old : Globals) : Sending :=
  { sys := measurementStart rtt download upload old, senders := fun _ => none }

end Sending

end IasClient
