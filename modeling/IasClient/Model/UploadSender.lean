import IasClient.Model.Globals

namespace IasClient

/-- `randomDataValues`; no `vector<char>` is larger than its `max_size`. -/
structure RandomData where
  values : List UInt8
  max_size : values.length < 2 ^ 63

def RandomData.size (d : RandomData) : UInt64 := UInt64.ofNat d.values.length

theorem RandomData.toNat_size (d : RandomData) : d.size.toNat = d.values.length := by
  have := d.max_size
  rw [RandomData.size, UInt64.toNat_ofNat']
  omega

/-- The positions in `CUploadSender::run`. -/
inductive SenderPc
  | whileRunning
  | whileError
  | ifEnd
  | send
  | ifResponse
  | ifStop
  | returned
  deriving DecidableEq

/-- The sender thread, with two histories that no step reads: the offsets sent, each with the
number of wrap-arounds before it, and the number of wrap-arounds. -/
structure Sender where
  pc : SenderPc := .whileRunning
  nPointer : UInt64 := 1
  mResponse : Int := 0
  sends : List (UInt64 × Nat) := []
  wraps : Nat := 0

/-- What a step of the sender reads of other threads and of `send`. -/
structure SenderInput where
  g : Globals
  m_fStop : Bool
  code : Int

namespace CUploadSender

/-- One step of `CUploadSender::run`. -/
def run (MAX_PACKET_SIZE : UInt64) (randomDataValues : RandomData) (i : SenderInput) (s : Sender) :
    Option Sender :=
  match s.pc with
  | .whileRunning => some { s with pc := if i.g.running then .whileError else .returned }
  | .whileError => some { s with pc := if i.g.hasError then .returned else .ifEnd }
  | .ifEnd =>
    if randomDataValues.size < s.nPointer + MAX_PACKET_SIZE then
      some { s with
        nPointer := s.nPointer + MAX_PACKET_SIZE - randomDataValues.size
        wraps := s.wraps + 1
        pc := .send }
    else some { s with pc := .send }
  | .send =>
    some { s with
      mResponse := i.code
      nPointer := s.nPointer + MAX_PACKET_SIZE
      sends := s.sends ++ [(s.nPointer, s.wraps)]
      pc := .ifResponse }
  | .ifResponse =>
    some { s with pc := if s.mResponse = -1 ∨ s.mResponse = 0 then .returned else .ifStop }
  | .ifStop => some { s with pc := if i.m_fStop then .returned else .whileRunning }
  | .returned => none

end CUploadSender

end IasClient
