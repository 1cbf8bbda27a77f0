import PennDaq.Lib.Buffer
import PennDaq.Lib.Framing
import PennDaq.Lib.Loop

/-! The reframing part of `MTCLink::RecvCallback`. The length of a packet is its
own first word, read from the input as it stands when the first byte is there. -/
namespace PennDaq.MTC
open Lib.Buffer
open Lib.Loop

def kSBCMaxPayloadSizeBytes : Nat := 1024*400
def kSBCMaxMessageSizeBytes : Nat := 256

/- `fTempPacket` has this size. It is four bytes short of the structure, whose
header is 16 bytes. -/
def sbcPacketSize : Nat := kSBCMaxPayloadSizeBytes + kSBCMaxMessageSizeBytes + 12

def sizeofSBCPacket : Nat := 4 + 12 + kSBCMaxMessageSizeBytes + kSBCMaxPayloadSizeBytes

/- A queue record is the contents of `fTempPacket`, without the four bytes that `push`
reads behind the array. -/
structure MTCLink where
  fTempPacket : Bytes
  fTempBytes : Nat
  fBytesLeft : Nat
  fRecvQueue : List Bytes
  deriving DecidableEq, Repr

def construct : MTCLink := ⟨zeros sbcPacketSize,0,0,[]⟩

inductive Fault where
  | copyOutside
  deriving DecidableEq, Repr

def toInt (n : Nat) : Int := if n < 2147483648 then n else n - 4294967296

def copyIn (link : MTCLink) (pos : Nat) (bytes : Bytes) : Option MTCLink :=
  if pos + bytes.length ≤ sbcPacketSize then
    some { link with fTempPacket := overwrite link.fTempPacket pos bytes }
  else none

/- `push` of the packet and `memset` of the array. -/
def pushPacket (link : MTCLink) : MTCLink :=
  { link with
    fRecvQueue := link.fRecvQueue ++ [link.fTempPacket]
    fTempPacket := zeros sbcPacketSize }

abbrev Pass := Turn (MTCLink × Bytes) (Except Fault MTCLink)

/- One pass of the `while` loop; the input is `inputP[0..totalLength)` and zeros
are behind it. -/
def reframeTurn : MTCLink × Bytes → Pass
  | (link,input) =>
    if input.length = 0 then .stop (.ok link)
    else if link.fTempBytes = 0 then
      let numThisPacket := toInt (le32 input)
      if numThisPacket > input.length then
        match copyIn link 0 input with
        | none => .stop (.error .copyOutside)
        | some link => .stop (.ok { link with
            fBytesLeft := (numThisPacket - input.length).toNat
            fTempBytes := input.length })
      else if numThisPacket < 0 then .stop (.error .copyOutside)
      else match copyIn link 0 (input.take numThisPacket.toNat) with
        | none => .stop (.error .copyOutside)
        | some link => .again (pushPacket link,input.drop numThisPacket.toNat)
    else if link.fBytesLeft > input.length then
      match copyIn link link.fTempBytes input with
      | none => .stop (.error .copyOutside)
      | some next => .stop (.ok { next with
          fBytesLeft := link.fBytesLeft - input.length
          fTempBytes := link.fTempBytes + input.length })
    else match copyIn link link.fTempBytes (input.take link.fBytesLeft) with
      | none => .stop (.error .copyOutside)
      | some next => .again ({ pushPacket next with
          fBytesLeft := 0
          fTempBytes := 0 },input.drop link.fBytesLeft)

def RecvCallback (link : MTCLink) (input : Bytes) (out : MTCLink) : Prop :=
  Ends reframeTurn (link,input) (.ok out)

def RecvAll : MTCLink → List Bytes → MTCLink → Prop
  | link, [], out => out = link
  | link, input::later, out => ∃ mid, RecvCallback link input mid ∧ RecvAll mid later out

structure WellFormed (packet : Bytes) : Prop where
  header : 4 ≤ packet.length
  length : le32 packet = packet.length
  fits : packet.length ≤ sizeofSBCPacket

def record (packet : Bytes) : Bytes := packet ++ zeros (sbcPacketSize - packet.length)

/- Every callback returns and the queue has got just these packets, in order. -/
def Delivered (link : MTCLink) (packets inputs : List Bytes) : Prop :=
  ∃ out, RecvAll link inputs out ∧ out.fRecvQueue = link.fRecvQueue ++ packets.map record

def CutKeepsLength (packet : Bytes) (got : Nat) : Prop :=
  (got = 1 → packet.length < 256) ∧ (got = 2 → packet.length < 65536)

/- No input ends one byte into a packet of 256 bytes or more, nor two bytes into
one of 65536 or more. -/
def CutsKeepLength (part : Bytes) (packets inputs : List Bytes) : Prop :=
  ∀ before after done packet later got, inputs = before ++ after → packets = done ++ packet::later →
    part ++ before.flatten = done.flatten ++ got → got.length < packet.length →
    CutKeepsLength packet got.length

/-! The state between two callbacks: the first `part` of a packet that is
believed to be `want` bytes long. -/

structure Holds (link : MTCLink) (part : Bytes) (want : Nat) : Prop where
  packet : link.fTempPacket = part ++ zeros (sbcPacketSize - part.length)
  bytes : link.fTempBytes = part.length
  left : part ≠ [] → link.fBytesLeft + part.length = want
  short : part ≠ [] → part.length < want

structure Fresh (link : MTCLink) : Prop where
  packet : link.fTempPacket = zeros sbcPacketSize
  bytes : link.fTempBytes = 0

theorem freshConstruct : Fresh construct := ⟨rfl,rfl⟩

theorem freshHolds {link} (f : Fresh link) (want : Nat) : Holds link [] want :=
  ⟨f.packet, f.bytes, fun none => absurd rfl none, fun none => absurd rfl none⟩

theorem holdsFresh {link want} (h : Holds link [] want) : Fresh link := ⟨h.packet,h.bytes⟩

theorem copyInSome (link : MTCLink) (pos : Nat) (bytes : Bytes) (h : pos + bytes.length ≤ sbcPacketSize) :
    copyIn link pos bytes =
      some { link with fTempPacket := overwrite link.fTempPacket pos bytes } := if_pos h

theorem toIntSmall {n : Nat} (h : n ≤ sbcPacketSize) : toInt n = n := by
  rw [toInt, if_pos]
  simp only [sbcPacketSize, kSBCMaxPayloadSizeBytes, kSBCMaxMessageSizeBytes] at h
  omega

theorem turnNothing (link : MTCLink) : reframeTurn (link,[]) = .stop (.ok link) := by
  simp [reframeTurn]

theorem turnWhole {link input} (f : Fresh link) (some : input ≠ [])
    (small : le32 input ≤ sbcPacketSize) (enough : le32 input ≤ input.length) :
    ∃ next, reframeTurn (link,input) = .again (next,input.drop (le32 input)) ∧ Fresh next ∧
      next.fRecvQueue = link.fRecvQueue ++ [record (input.take (le32 input))] := by
  have length : (input.take (le32 input)).length = le32 input := by
    rw [List.length_take, Nat.min_eq_left enough]
  have copied := copyInSome link 0 (input.take (le32 input)) (by omega)
  have step : reframeTurn (link,input) = .again (pushPacket { link with
      fTempPacket := overwrite link.fTempPacket 0 (input.take (le32 input)) },
      input.drop (le32 input)) := by
    rw [reframeTurn, if_neg (by simpa using some), if_pos f.bytes]
    simp only [toIntSmall small, Int.toNat_natCast]
    rw [if_neg (by omega), if_neg (by omega), copied]
  refine ⟨_, step, ⟨rfl,f.bytes⟩, ?_⟩
  simp only [pushPacket, f.packet, overwriteZeros, record]

theorem turnStart {link input} (f : Fresh link) (some : input ≠ [])
    (small : le32 input ≤ sbcPacketSize) (short : input.length < le32 input) :
    ∃ out, reframeTurn (link,input) = .stop (.ok out) ∧ Holds out input (le32 input) ∧
      out.fRecvQueue = link.fRecvQueue := by
  have copied := copyInSome link 0 input (by omega)
  have step : reframeTurn (link,input) = .stop (.ok { link with
      fTempPacket := overwrite link.fTempPacket 0 input
      fBytesLeft := le32 input - input.length
      fTempBytes := input.length }) := by
    rw [reframeTurn, if_neg (by simpa using some), if_pos f.bytes]
    simp only [toIntSmall small]
    rw [if_pos (by omega), copied]
    simp only [Int.toNat_sub]
  refine ⟨_, step, ⟨?_, rfl, fun _ => Nat.sub_add_cancel (Nat.le_of_lt short), fun _ => short⟩, rfl⟩
  simp only [f.packet, overwriteZeros]

theorem turnMore {link part want input} (h : Holds link part want) (begun : part ≠ [])
    (some : input ≠ []) (small : want ≤ sbcPacketSize) (short : part.length + input.length < want) :
    ∃ out, reframeTurn (link,input) = .stop (.ok out) ∧ Holds out (part ++ input) want ∧
      out.fRecvQueue = link.fRecvQueue := by
  have left := h.left begun
  have begunLength := List.length_pos_of_ne_nil begun
  have copied := copyInSome link link.fTempBytes input (by rw [h.bytes]; omega)
  have step : reframeTurn (link,input) = .stop (.ok { link with
      fTempPacket := overwrite link.fTempPacket link.fTempBytes input
      fBytesLeft := link.fBytesLeft - input.length
      fTempBytes := link.fTempBytes + input.length }) := by
    rw [reframeTurn, if_neg (by simpa using some), if_neg (by rw [h.bytes]; omega),
      if_pos (by omega), copied]
  refine ⟨_, step, ⟨?_, ?_, fun _ => ?_, fun _ => ?_⟩, rfl⟩
  · simp only [h.packet, h.bytes, overwritePadded, List.length_append]
    congr 2; omega
  · simp only [h.bytes, List.length_append]
  · simp only [List.length_append]; omega
  · rw [List.length_append]; exact short

theorem turnRest {link part want input} (h : Holds link part want) (begun : part ≠ [])
    (some : input ≠ []) (small : want ≤ sbcPacketSize) (enough : want ≤ part.length + input.length) :
    ∃ next, reframeTurn (link,input) = .again (next,input.drop (want - part.length)) ∧ Fresh next ∧
      next.fRecvQueue = link.fRecvQueue ++ [record ((part ++ input).take want)] := by
  have left := h.left begun
  have short := h.short begun
  have begunLength := List.length_pos_of_ne_nil begun
  have rest : link.fBytesLeft = want - part.length := by omega
  have length : (input.take (want - part.length)).length = want - part.length := by
    rw [List.length_take, Nat.min_eq_left (by omega)]
  have copied := copyInSome link link.fTempBytes
    (input.take (want - part.length)) (by rw [h.bytes, length]; omega)
  have step : reframeTurn (link,input) = .again ({ pushPacket { link with
      fTempPacket := overwrite link.fTempPacket link.fTempBytes (input.take (want - part.length)) } with
      fBytesLeft := 0, fTempBytes := 0 },input.drop (want - part.length)) := by
    rw [reframeTurn, if_neg (by simpa using some), if_neg (by rw [h.bytes]; omega),
      if_neg (by omega), rest, copied]
    rfl
  have whole : (part ++ input).take want = part ++ input.take (want - part.length) := by
    rw [List.take_append, List.take_of_length_le (by omega)]
  refine ⟨_, step, ⟨rfl,rfl⟩, ?_⟩
  simp only [pushPacket, h.packet, h.bytes, overwritePadded, record, whole, List.length_append]
  congr 4; omega

end PennDaq.MTC
