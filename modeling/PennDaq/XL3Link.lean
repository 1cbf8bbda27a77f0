import PennDaq.Lib.Buffer
import PennDaq.Lib.Framing

/-! The reframing part of `XL3Link::RecvCallback`. A call of `ProcessPacket` is
recorded by the 1444 bytes it is given; what `ProcessPacket` does with them is no
part of the reframing. -/
namespace PennDaq.XL3
open Lib.Buffer
open Lib.Framing

def xl3PacketSize : Nat := 1444

structure XL3Link where
  fTempPacket : Bytes
  fTempBytes : Nat
  fBytesLeft : Nat
  processed : List Bytes
  deriving DecidableEq, Repr

def construct : XL3Link := ⟨zeros xl3PacketSize,0,0,[]⟩

def processPacket (link : XL3Link) (packet : Bytes) : XL3Link :=
  { link with processed := link.processed ++ [packet] }

/- `input` is `inputP[0..totalLength)`. Each subtraction of the source is guarded
by the comparison before it, so that the counters stay natural numbers. -/
def reframe (link : XL3Link) (input : Bytes) : XL3Link :=
  if input.length = 0 then link
  else if link.fTempBytes = 0 then
    if xl3PacketSize ≤ input.length then
      reframe (processPacket link (input.take xl3PacketSize)) (input.drop xl3PacketSize)
    else
      { link with
        fTempPacket := overwrite link.fTempPacket 0 input
        fBytesLeft := xl3PacketSize - input.length
        fTempBytes := input.length }
  else if link.fBytesLeft ≤ input.length then
    let packet := overwrite link.fTempPacket link.fTempBytes (input.take link.fBytesLeft)
    reframe { processPacket link packet with
        fTempPacket := zeros xl3PacketSize
        fBytesLeft := 0
        fTempBytes := 0 } (input.drop link.fBytesLeft)
  else
    { link with
      fTempPacket := overwrite link.fTempPacket link.fTempBytes input
      fBytesLeft := link.fBytesLeft - input.length
      fTempBytes := link.fTempBytes + input.length }
  termination_by (input.length,link.fTempBytes)
  decreasing_by
    · apply Prod.Lex.left
      simp only [List.length_drop, xl3PacketSize]
      omega
    · by_cases none : link.fBytesLeft = 0
      · simp only [none, List.drop_zero]
        apply Prod.Lex.right
        omega
      · apply Prod.Lex.left
        rw [List.length_drop]
        omega

def recvCallback (link : XL3Link) (input : Bytes) : XL3Link := reframe link input

def recvAll (link : XL3Link) (inputs : List Bytes) : XL3Link := inputs.foldl recvCallback link

def blockSplitter : Splitter UInt8 where
  next s := if xl3PacketSize ≤ s.length then some (s.take xl3PacketSize,s.drop xl3PacketSize) else none
  joins := by
    intro s f rest h
    split at h <;> cases h
    exact (List.take_append_drop _ _).symm
  moves := by
    intro s f rest h empty
    split at h <;> cases h
    have length := congrArg List.length empty
    simp only [List.length_take, List.length_nil, xl3PacketSize] at *
    omega
  stable := by
    intro s f rest more h
    split at h <;> cases h
    rename_i long
    rw [if_pos (by rw [List.length_append]; omega), List.take_append_of_le_length long,
      List.drop_append_of_le_length long]

def blocks (stream : Bytes) : List Bytes := (frames blockSplitter stream).1

def unfinished (stream : Bytes) : Bytes := (frames blockSplitter stream).2

structure Carries (link : XL3Link) (tail : Bytes) : Prop where
  size : link.fTempPacket.length = xl3PacketSize
  bytes : link.fTempBytes = tail.length
  front : link.fTempPacket.take link.fTempBytes = tail
  short : tail.length < xl3PacketSize
  left : tail ≠ [] → link.fTempBytes + link.fBytesLeft = xl3PacketSize

def heldTail (link : XL3Link) : Bytes := link.fTempPacket.take link.fTempBytes

def Sound (link : XL3Link) : Prop := Carries link (heldTail link)

end PennDaq.XL3
