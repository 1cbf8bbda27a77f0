import PennDaq.MTCDelivery

/-! The cuts that lose the stream: a first record with a shortened length is wrong,
or it is right because the rest of the packet is zeros, and then the loop reads a
length of 0 behind it and never ends. -/
namespace PennDaq.MTC
open Lib.Buffer
open Lib.Framing
open Lib.Loop

def Feeds (link : MTCLink) (input : Bytes) (inputs : List Bytes) (out : MTCLink) : Prop :=
  ∃ mid, RecvCallback link input mid ∧ RecvAll mid inputs out

def Grown (queue : List Bytes) (link : MTCLink) : Prop :=
  link.fTempPacket.length = sbcPacketSize ∧
    ∃ new, link.fRecvQueue = queue ++ new ∧ ∀ r ∈ new, r.length = sbcPacketSize

theorem grownPush {queue link} (g : Grown queue link) : Grown queue (pushPacket link) := by
  obtain ⟨size, new, same, each⟩ := g
  refine ⟨zerosLength _, new ++ [link.fTempPacket], by simp [pushPacket, same], ?_⟩
  intro r mem
  rcases List.mem_append.mp mem with old | last
  · exact each r old
  · rw [List.mem_singleton.mp last, size]

theorem grownCopy {queue link pos bytes next} (g : Grown queue link)
    (copied : copyIn link pos bytes = some next) : Grown queue next := by
  unfold copyIn at copied
  split at copied <;> cases copied
  obtain ⟨size, grown⟩ := g
  exact ⟨by simp only; rw [overwriteInside (by omega), size], grown⟩

def PassGrown (queue : List Bytes) : Pass → Prop
  | .again (link,_) => Grown queue link
  | .stop (.ok out) => Grown queue out
  | .stop (.error _) => True

theorem turnGrown {queue : List Bytes} {link : MTCLink} (g : Grown queue link) (input : Bytes) :
    PassGrown queue (reframeTurn (link,input)) := by
  rw [reframeTurn]
  split
  · exact g
  split
  · dsimp only
    split
    · cases copied : copyIn link 0 input with
      | none => trivial
      | some next =>
        have kept := grownCopy g copied
        exact kept
    split
    · trivial
    · cases copied : copyIn link 0 (input.take (toInt (le32 input)).toNat) with
      | none => trivial
      | some next => exact grownPush (grownCopy g copied)
  split
  · cases copied : copyIn link link.fTempBytes input with
    | none => trivial
    | some next =>
      have kept := grownCopy g copied
      exact kept
  · cases copied : copyIn link link.fTempBytes (input.take link.fBytesLeft) with
    | none => trivial
    | some next => exact grownPush (grownCopy g copied)

theorem callbackGrown {queue link input out} (g : Grown queue link)
    (received : RecvCallback link input out) : Grown queue out := by
  refine endsInvariant (fun s => Grown queue s.1)
    (fun r => ∀ out, r = .ok out → Grown queue out) ?_ ?_ g received out rfl
  · rintro ⟨link, input⟩ t grown again
    have pass := turnGrown grown input
    rwa [again] at pass
  · rintro ⟨link, input⟩ r grown stop out rfl
    have pass := turnGrown grown input
    rwa [stop] at pass

theorem recvAllGrown {queue link inputs out} (g : Grown queue link)
    (run : RecvAll link inputs out) : Grown queue out := by
  induction inputs generalizing link with
  | nil => exact run ▸ g
  | cons input later ih =>
    obtain ⟨mid, received, rest⟩ := run
    exact ih (callbackGrown g received) rest

theorem freshGrown {link} (f : Fresh link) : Grown link.fRecvQueue link :=
  ⟨by rw [f.packet, zerosLength], [], by simp, by simp⟩

def RecordsFirst (link : MTCLink) (stream : Bytes) (want : Nat) (out : MTCLink) : Prop :=
  ∃ next input inputs, Fresh next ∧ next.fRecvQueue = link.fRecvQueue ++ [record (stream.take want)] ∧
    input ++ inputs.flatten = stream.drop want ∧ Feeds next input inputs out

theorem heldRecords {link part want inputs out} (h : Holds link part want) (begun : part ≠ [])
    (small : want ≤ sbcPacketSize) (enough : want ≤ (part ++ inputs.flatten).length)
    (run : RecvAll link inputs out) : RecordsFirst link (part ++ inputs.flatten) want out := by
  induction inputs generalizing link part with
  | nil =>
    have short := h.short begun
    simp only [List.flatten_nil, List.append_nil] at enough
    omega
  | cons input inputs ih =>
    obtain ⟨mid, received, rest⟩ := run
    rw [List.flatten_cons, ← List.append_assoc] at enough ⊢
    by_cases nothing : input = []
    · subst nothing
      rw [callbackNothing.mp received] at rest
      simpa using ih h begun (by simpa using enough) rest
    by_cases short : part.length + input.length < want
    · obtain ⟨next, step, held, queue⟩ := turnMore h begun nothing small short
      obtain rfl : mid = next := by simpa using (endsStop step _).mp received
      obtain ⟨next', input', inputs', fresh, queue', bytes, feeds⟩ := ih held (by simp [begun]) enough rest
      exact ⟨next', input', inputs', fresh, by rw [queue', queue], bytes, feeds⟩
    · obtain ⟨next, step, fresh, queue⟩ := turnRest h begun nothing small (by omega)
      have shorter := h.short begun
      have long : want ≤ (part ++ input).length := by rw [List.length_append]; omega
      refine ⟨next, input.drop (want - part.length), inputs, fresh, ?_, ?_, mid, ?_, rest⟩
      · rw [queue, List.take_append_of_le_length long]
      · have rest : (part ++ input).drop want = input.drop (want - part.length) := by
          rw [List.drop_append, List.drop_eq_nil_of_le (Nat.le_of_lt shorter), List.nil_append]
        rw [List.drop_append_of_le_length long, rest]
      · exact (endsAgain step _).mp received

theorem freshRecords {link input inputs out} (f : Fresh link) (some : input ≠ [])
    (small : le32 input ≤ sbcPacketSize) (enough : le32 input ≤ (input ++ inputs.flatten).length)
    (feeds : Feeds link input inputs out) :
    RecordsFirst link (input ++ inputs.flatten) (le32 input) out := by
  obtain ⟨mid, received, rest⟩ := feeds
  by_cases short : input.length < le32 input
  · obtain ⟨next, step, held, queue⟩ := turnStart f some small short
    obtain rfl : mid = next := by simpa using (endsStop step _).mp received
    obtain ⟨next', input', inputs', fresh, queue', bytes, feeds⟩ :=
      heldRecords held some small enough rest
    exact ⟨next', input', inputs', fresh, by rw [queue', queue], bytes, feeds⟩
  · obtain ⟨next, step, fresh, queue⟩ := turnWhole f some small (by omega)
    refine ⟨next, input.drop (le32 input), inputs, fresh, ?_, ?_, mid, ?_, rest⟩
    · rw [queue, List.take_append_of_le_length (by omega)]
    · rw [List.drop_append_of_le_length (by omega)]
    · exact (endsAgain step _).mp received

theorem zeroNeverEnds {link input} (f : Fresh link) (some : input ≠ []) (zero : le32 input = 0)
    (out : MTCLink) : ¬ RecvCallback link input out := by
  refine neverEnds (fun s => Fresh s.1 ∧ s.2 = input) ?_ ⟨f,rfl⟩ _
  rintro ⟨link, input'⟩ ⟨fresh, same⟩
  dsimp only at fresh same
  subst same
  obtain ⟨next, step, fresh', -⟩ := turnWhole fresh some (by rw [zero]; exact Nat.zero_le _)
    (by rw [zero]; exact Nat.zero_le _)
  exact ⟨_, step, fresh', by rw [zero, List.drop_zero]⟩

theorem zerosNeverFeed {link input inputs out} (f : Fresh link) (some : input ++ inputs.flatten ≠ [])
    (zero : ∀ i < 4, byteAt (input ++ inputs.flatten) i = 0) : ¬ Feeds link input inputs out := by
  induction inputs generalizing link input with
  | nil =>
    rintro ⟨mid, received, -⟩
    rw [List.flatten_nil, List.append_nil] at some zero
    exact zeroNeverEnds f some (le32Same (b := []) fun i h => by rw [zero i h, byteAtOutside (by simp)]) mid received
  | cons next inputs ih =>
    rintro ⟨mid, received, rest⟩
    by_cases nothing : input = []
    · subst nothing
      rw [callbackNothing.mp received] at rest
      rw [List.flatten_cons, List.nil_append] at some zero
      exact ih f some zero rest
    · refine zeroNeverEnds f nothing (le32Same (b := []) fun i h => ?_) mid received
      rw [byteAtOutside (b := []) (by simp)]
      by_cases inside : i < input.length
      · have here := zero i h
        rwa [byteAtAppend, if_pos inside] at here
      · exact byteAtOutside (by omega)

theorem recordZeros {packet : Bytes} {want : Nat} (same : record (packet.take want) = record packet) :
    ∀ i, want ≤ i → byteAt packet i = 0 := by
  intro i low
  have here := congrArg (fun b => byteAt b i) same
  simp only [record, byteAtPadded, byteAtTake] at here
  rw [if_neg (by omega)] at here
  exact here.symm

theorem badCutLost {link : MTCLink} {packet part : Bytes} {later inputs : List Bytes} {out : MTCLink}
    (f : Fresh link) (wf : WellFormed packet)
    (front : part <+: packet) (bad : ¬ CutKeepsLength packet part.length)
    (stream : part ++ inputs.flatten = packet ++ later.flatten) (feeds : Feeds link part inputs out) :
    out.fRecvQueue ≠ link.fRecvQueue ++ (packet::later).map record := by
  intro queue
  have begun : part ≠ [] := by
    rintro rfl
    exact bad ⟨fun h => by simp at h, fun h => by simp at h⟩
  obtain ⟨below, small⟩ := headLost wf front begun bad
  obtain ⟨next, input, inputs', fresh, first, bytes, feeds⟩ := freshRecords f begun small
    (by rw [stream, List.length_append]; omega) feeds
  rw [stream, List.take_append_of_le_length (by omega)] at first
  rw [stream, List.drop_append_of_le_length (by omega)] at bytes
  obtain ⟨mid, received, rest⟩ := feeds
  obtain ⟨-, new, grown, -⟩ := recvAllGrown (callbackGrown (freshGrown fresh) received) rest
  rw [first, queue, List.append_assoc, List.map_cons] at grown
  have heads := List.append_cancel_left grown
  rw [List.singleton_append] at heads
  have zero := recordZeros (List.cons.inj heads).1.symm
  refine zerosNeverFeed fresh ?_ ?_ ⟨mid,received,rest⟩
  · rw [bytes]
    intro none
    have lengths := congrArg List.length (List.append_eq_nil_iff.mp none).1
    simp only [List.length_drop, List.length_nil] at lengths
    omega
  · intro i low
    rw [bytes, byteAtAppend, if_pos (by rw [List.length_drop]; omega), byteAtDrop]
    exact zero _ (by omega)

theorem runNeedsCuts {link : MTCLink} {part : Bytes} {packets inputs : List Bytes} {want : Nat}
    {out : MTCLink} (h : Holds link part want) (expects : Expects part packets want)
    (wf : ∀ p ∈ packets, WellFormed p) (fits : ∀ p ∈ packets, p.length ≤ sbcPacketSize)
    (stream : part ++ inputs.flatten = packets.flatten)
    (start : ∀ p rest, packets = p::rest → part.length < p.length → CutKeepsLength p part.length)
    (run : RecvAll link inputs out) (queue : out.fRecvQueue = link.fRecvQueue ++ packets.map record) :
    CutsKeepLength part packets inputs := by
  have open' : part ≠ [] → ∃ p rest, packets = p::rest ∧ part.length < p.length := by
    intro begun
    obtain ⟨p, rest, same, rfl⟩ := expects begun
    exact ⟨p, rest, same, h.short begun⟩
  induction inputs generalizing link part packets want with
  | nil =>
    rintro before after done p rest got split here same short
    obtain ⟨rfl, -⟩ := List.append_eq_nil_iff.mp split.symm
    rw [List.flatten_nil, List.append_nil] at stream same
    have lengths := congrArg List.length stream
    simp only [same, here, List.flatten_append, List.flatten_cons, List.length_append] at lengths
    omega
  | cons input inputs ih =>
    obtain ⟨mid, received, rest⟩ := run
    rw [List.flatten_cons, ← List.append_assoc] at stream
    obtain ⟨done, later, got, cut, bytes, tail, stop⟩ := flattenCut (wellFormedFull wf) stream
    have wf' : ∀ p ∈ later, WellFormed p := fun p mem => wf p (cut ▸ List.mem_append_right _ mem)
    have fits' : ∀ p ∈ later, p.length ≤ sbcPacketSize :=
      fun p mem => fits p (cut ▸ List.mem_append_right _ mem)
    -- the cut behind this input keeps the length of the packet it falls into
    have kept : ∀ p others, later = p::others → got.length < p.length → CutKeepsLength p got.length := by
      rintro p others rfl short
      have front : got <+: p := by
        rw [List.flatten_cons] at tail
        exact List.prefix_of_prefix_length_le ⟨_,tail⟩ ⟨_,rfl⟩ (Nat.le_of_lt short)
      rcases callbackCut h expects wf fits cut bytes stop with ⟨begun, rfl, -⟩ | ⟨next, fresh, grown, same⟩
      · have whole : part ++ input = got := by simpa using bytes
        have some := List.length_pos_of_ne_nil begun
        rw [← whole, List.length_append] at short ⊢
        exact cutKeepsMore some (start p others cut (by omega))
      · by_contra bad
        refine badCutLost fresh (wf' p (by simp)) front bad tail
          ⟨mid,(same mid).mp received,rest⟩ ?_
        rw [queue, grown, cut, List.map_append, List.append_assoc]
    obtain ⟨mid', want', received', r⟩ := callbackReaches h expects wf fits cut bytes ⟨_,tail⟩ stop kept
    obtain rfl : mid = mid' := by simpa using endsUnique received received'
    refine cutsCons cut bytes start open' (ih r.holds r.expects wf' fits' tail kept rest ?_ ?_)
    · rw [queue, r.queue, cut, List.map_append, List.append_assoc]
    · intro begun
      rcases stop with ⟨-, none⟩ | ahead
      · exact absurd none begun
      · exact ahead

theorem deliveredFits {link packets inputs} (f : Fresh link) (delivered : Delivered link packets inputs) :
    ∀ p ∈ packets, p.length ≤ sbcPacketSize := by
  intro p mem
  obtain ⟨out, run, queue⟩ := delivered
  obtain ⟨-, new, grown, each⟩ := recvAllGrown (freshGrown f) run
  rw [queue] at grown
  have size := each (record p) (List.append_cancel_left grown ▸ List.mem_map_of_mem mem)
  rw [record, List.length_append, zerosLength] at size
  omega

theorem deliveredNeedsCuts {link : MTCLink} {packets inputs : List Bytes} (f : Fresh link)
    (wf : ∀ p ∈ packets, WellFormed p) (stream : inputs.flatten = packets.flatten)
    (delivered : Delivered link packets inputs) :
    (∀ p ∈ packets, p.length ≤ sbcPacketSize) ∧ CutsKeepLength [] packets inputs := by
  have fits := deliveredFits f delivered
  obtain ⟨out, run, queue⟩ := delivered
  refine ⟨fits, runNeedsCuts (freshHolds f 0) (fun no => absurd rfl no) wf fits
    (by simpa using stream) ?_ run queue⟩
  intro p rest same short
  exact ⟨fun h => by simp at h, fun h => by simp at h⟩

/- The queue gets the packets that were sent exactly when each fits into the array
and no input ends inside a length word that it shortens. -/
theorem deliveredExactly {link : MTCLink} {packets inputs : List Bytes} (f : Fresh link)
    (wf : ∀ p ∈ packets, WellFormed p) (stream : inputs.flatten = packets.flatten) :
    Delivered link packets inputs ↔
      (∀ p ∈ packets, p.length ≤ sbcPacketSize) ∧ CutsKeepLength [] packets inputs :=
  ⟨deliveredNeedsCuts f wf stream, fun ok => runDelivers f wf ok.1 stream ok.2⟩

theorem deliveredExactlyShort : Delivered construct [[5,0,0,0,7],[4,0,0,0]] [[5],[0,0,0,7,4,0],[0,0]] := by
  have stream : [[5],[0,0,0,7,4,0],[0,0]].flatten = ([[5,0,0,0,7],[4,0,0,0]] : List Bytes).flatten := rfl
  refine (deliveredExactly freshConstruct ?_ stream).mpr ⟨?_, ?_⟩
  · intro p mem
    obtain rfl | rfl : p = [5,0,0,0,7] ∨ p = [4,0,0,0] := by simpa using mem
    · exact ⟨by decide, by decide, by decide⟩
    · exact ⟨by decide, by decide, by decide⟩
  · decide
  · exact cutsSmall (by decide) _ _

def cutPacket : Bytes := [44,1,0,0] ++ List.replicate 296 7

theorem cutPacketLength : cutPacket.length = 300 := by
  rw [cutPacket, List.length_append, List.length_replicate]; rfl

theorem cutPacketWellFormed : WellFormed cutPacket := by
  have length := cutPacketLength
  have head : le32 cutPacket = 300 := by rw [cutPacket, le32Append _ (by simp)]; rfl
  refine ⟨by omega, by omega, ?_⟩
  rw [length]; decide

/- A packet of 300 bytes whose first byte comes alone is taken for one of 44. -/
theorem cutInLengthLost :
    WellFormed cutPacket ∧ [cutPacket.take 1,cutPacket.drop 1].flatten = [cutPacket].flatten ∧
      ¬ Delivered construct [cutPacket] [cutPacket.take 1,cutPacket.drop 1] := by
  have stream : [cutPacket.take 1,cutPacket.drop 1].flatten = [cutPacket].flatten := by
    simp only [List.flatten_cons, List.flatten_nil, List.append_nil, List.take_append_drop]
  refine ⟨cutPacketWellFormed, stream, fun delivered => ?_⟩
  have length := cutPacketLength
  have cuts := (deliveredNeedsCuts freshConstruct
    (by simpa using cutPacketWellFormed) stream delivered).2
  have kept := cuts [cutPacket.take 1] [cutPacket.drop 1] [] cutPacket [] (cutPacket.take 1) rfl rfl
    (by simp) (by simp [length])
  have short := kept.1 (by simp [length])
  omega

end PennDaq.MTC
