import PennDaq.MTCLink

/-! The reframing loop of `MTCLink::RecvCallback` on any bytes at all: when it ends
and copies inside its arrays, and how many packets it queues. `push` copies a whole
`SBCPacket`, which is more than the array that the packet stands in. -/
namespace PennDaq.MTC
open Lib.Buffer
open Lib.Loop

/- The lengths that the loop comes to between two packets: none is zero or negative,
and no more of a packet than `fTempPacket` holds is in the input. -/
inductive LengthsFit : Bytes → Prop where
  | nothing : LengthsFit []
  | whole {input : Bytes} (positive : 0 < le32 input) (fits : le32 input ≤ sbcPacketSize)
      (inside : le32 input ≤ input.length) (rest : LengthsFit (input.drop (le32 input))) :
      LengthsFit input
  | begun {input : Bytes} (some : input ≠ []) (signed : le32 input < 2147483648)
      (fits : input.length ≤ sbcPacketSize) (longer : input.length < le32 input) : LengthsFit input

def InputFits (link : MTCLink) (input : Bytes) : Prop :=
  if link.fTempBytes = 0 then LengthsFit input
  else if input.length < link.fBytesLeft then link.fTempBytes + input.length ≤ sbcPacketSize
  else link.fTempBytes + link.fBytesLeft ≤ sbcPacketSize ∧ LengthsFit (input.drop link.fBytesLeft)

/- `fRecvQueue.push(*packet)` reads `size` bytes from the start of `fTempPacket`. -/
def copyOut (size : Nat) (next : MTCLink × Bytes) : Pass :=
  if size ≤ sbcPacketSize then .again next else .stop (.error .copyOutside)

def pushingTurn (s : MTCLink × Bytes) : Pass :=
  match reframeTurn s with
  | .again next => copyOut sizeofSBCPacket next
  | .stop result => .stop result

/- The bytes that come in are the beginning of one packet, and `fTempPacket` has room
for them. The length is read when the first byte is there, with zeros behind it. -/
def OneBegun : List Bytes → Prop
  | [] => True
  | input::later =>
    if input = [] then OneBegun later
    else le32 input < 2147483648 ∧ input.length + later.flatten.length < le32 input ∧
      input.length + later.flatten.length ≤ sbcPacketSize

/- The callback returns, every copy has stayed inside, and there are no more new
packets in the queue than there were bytes. -/
def Safe (turn : MTCLink × Bytes → Pass) (link : MTCLink) (input : Bytes) : Prop :=
  ∃ out, Ends turn (link,input) (.ok out) ∧
    out.fRecvQueue.length ≤ link.fRecvQueue.length + input.length

def AlwaysSafe (turn : MTCLink × Bytes → Pass) (link : MTCLink) : List Bytes → Prop
  | [] => True
  | input::later => Safe turn link input ∧
    ∀ out, Ends turn (link,input) (.ok out) → AlwaysSafe turn out later

def AlwaysFits (link : MTCLink) : List Bytes → Prop
  | [] => True
  | input::later => InputFits link input ∧ ∀ out, RecvCallback link input out → AlwaysFits out later

structure Carrying (link : MTCLink) : Prop where
  size : link.fTempBytes ≤ sbcPacketSize
  left : link.fTempBytes ≠ 0 → 0 < link.fBytesLeft

theorem carryingConstruct : Carrying construct := ⟨Nat.zero_le _, fun some => absurd rfl some⟩

theorem carryingFresh {link : MTCLink} (fresh : link.fTempBytes = 0) : Carrying link :=
  ⟨by omega, fun some => absurd fresh some⟩

theorem copyInNone (link : MTCLink) (pos : Nat) (bytes : Bytes)
    (big : sbcPacketSize < pos + bytes.length) : copyIn link pos bytes = none :=
  if_neg (Nat.not_le.mpr big)

theorem toIntLow {n : Nat} (h : n < 2147483648) : toInt n = n := if_pos h

theorem toIntHigh {n : Nat} (h : 2147483648 ≤ n) (word : n < 4294967296) : toInt n < 0 := by
  rw [toInt, if_neg (Nat.not_lt.mpr h)]
  omega

theorem turnBetween {link : MTCLink} {input : Bytes} (fresh : link.fTempBytes = 0)
    (some' : input ≠ []) : reframeTurn (link,input) =
      if 2147483648 ≤ le32 input then .stop (.error .copyOutside)
      else if input.length < le32 input then
        if input.length ≤ sbcPacketSize then
          .stop (.ok { link with
            fTempPacket := overwrite link.fTempPacket 0 input
            fBytesLeft := le32 input - input.length
            fTempBytes := input.length })
        else .stop (.error .copyOutside)
      else if le32 input ≤ sbcPacketSize then
        .again (pushPacket { link with
          fTempPacket := overwrite link.fTempPacket 0 (input.take (le32 input)) },
          input.drop (le32 input))
      else .stop (.error .copyOutside) := by
  have word := le32Bound input
  rw [reframeTurn, if_neg (by simpa using some'), if_pos fresh]
  rcases Nat.lt_or_ge (le32 input) 2147483648 with low | high
  · rw [if_neg (Nat.not_le.mpr low)]
    simp only [toIntLow low, Int.toNat_natCast, Int.ofNat_lt, gt_iff_lt, Int.natCast_nonneg,
      Int.not_lt.mpr, if_false]
    rcases Nat.lt_or_ge input.length (le32 input) with longer | inside
    · rw [if_pos longer, if_pos longer]
      rcases Nat.lt_or_ge sbcPacketSize input.length with big | fits
      · rw [copyInNone _ _ _ (by omega), if_neg (Nat.not_le.mpr big)]
      · rw [copyInSome _ _ _ (by omega), if_pos fits]
        simp only [Int.toNat_sub]
    · have length : (input.take (le32 input)).length = le32 input := by
        rw [List.length_take, Nat.min_eq_left inside]
      rw [if_neg (Nat.not_lt.mpr inside), if_neg (Nat.not_lt.mpr inside)]
      rcases Nat.lt_or_ge sbcPacketSize (le32 input) with big | fits
      · rw [copyInNone _ _ _ (by omega), if_neg (Nat.not_le.mpr big)]
      · rw [copyInSome _ _ _ (by omega), if_pos fits]
  · have negative := toIntHigh high word
    simp only
    rw [if_pos high, if_neg (by omega), if_pos negative]

theorem turnInside {link : MTCLink} {input : Bytes} (begun : link.fTempBytes ≠ 0)
    (some' : input ≠ []) : reframeTurn (link,input) =
      if input.length < link.fBytesLeft then
        if link.fTempBytes + input.length ≤ sbcPacketSize then
          .stop (.ok { link with
            fTempPacket := overwrite link.fTempPacket link.fTempBytes input
            fBytesLeft := link.fBytesLeft - input.length
            fTempBytes := link.fTempBytes + input.length })
        else .stop (.error .copyOutside)
      else if link.fTempBytes + link.fBytesLeft ≤ sbcPacketSize then
        .again ({ pushPacket { link with
          fTempPacket := overwrite link.fTempPacket link.fTempBytes (input.take link.fBytesLeft) } with
          fBytesLeft := 0, fTempBytes := 0 },input.drop link.fBytesLeft)
      else .stop (.error .copyOutside) := by
  rw [reframeTurn, if_neg (by simpa using some'), if_neg begun]
  rcases Nat.lt_or_ge input.length link.fBytesLeft with longer | inside
  · rw [if_pos longer, if_pos longer]
    rcases Nat.lt_or_ge sbcPacketSize (link.fTempBytes + input.length) with big | fits
    · rw [copyInNone _ _ _ big, if_neg (Nat.not_le.mpr big)]
    · rw [copyInSome _ _ _ fits, if_pos fits]
  · have length : (input.take link.fBytesLeft).length = link.fBytesLeft := by
      rw [List.length_take, Nat.min_eq_left inside]
    rw [if_neg (Nat.not_lt.mpr inside), if_neg (Nat.not_lt.mpr inside)]
    rcases Nat.lt_or_ge sbcPacketSize (link.fTempBytes + link.fBytesLeft) with big | fits
    · rw [copyInNone _ _ _ (by omega), if_neg (Nat.not_le.mpr big)]
    · rw [copyInSome _ _ _ (by omega), if_pos fits]

theorem pushedBetween {link : MTCLink} (fresh : link.fTempBytes = 0) (packet : Bytes) :
    (pushPacket { link with fTempPacket := packet }).fTempBytes = 0 ∧
      (pushPacket { link with fTempPacket := packet }).fRecvQueue.length =
        link.fRecvQueue.length + 1 :=
  ⟨fresh, by simp [pushPacket]⟩

theorem fitsEnds {input : Bytes} (fits : LengthsFit input) {link : MTCLink}
    (fresh : link.fTempBytes = 0) : ∃ out, RecvCallback link input out ∧ Carrying out ∧
      out.fRecvQueue.length ≤ link.fRecvQueue.length + input.length := by
  induction fits generalizing link with
  | nothing => exact ⟨link, (endsStop (turnNothing link) _).mpr rfl, carryingFresh fresh, Nat.le_refl _⟩
  | @whole input positive fits inside rest ih =>
    have some' : input ≠ [] := List.ne_nil_of_length_pos (by omega)
    have low : ¬ 2147483648 ≤ le32 input := by
      simp only [sbcPacketSize, kSBCMaxPayloadSizeBytes, kSBCMaxMessageSizeBytes] at fits
      omega
    have turn := turnBetween fresh some'
    rw [if_neg low, if_neg (Nat.not_lt.mpr inside), if_pos fits] at turn
    obtain ⟨still, queue⟩ := pushedBetween fresh (overwrite link.fTempPacket 0 (input.take (le32 input)))
    obtain ⟨out, ends, carries, few⟩ := ih still
    refine ⟨out, (endsAgain turn _).mpr ends, carries, ?_⟩
    rw [queue, List.length_drop] at few
    omega
  | begun some' signed fits longer =>
    have turn := turnBetween fresh some'
    rw [if_neg (Nat.not_le.mpr signed), if_pos longer, if_pos fits] at turn
    exact ⟨_, (endsStop turn _).mpr rfl, ⟨fits, fun _ => Nat.sub_pos_of_lt longer⟩, Nat.le_add_right _ _⟩

theorem endsFits {fuel : Nat} {link out : MTCLink} {input : Bytes} (fresh : link.fTempBytes = 0)
    (ends : run reframeTurn fuel (link,input) = some (.ok out)) : LengthsFit input := by
  induction fuel generalizing link input with
  | zero => simp [run] at ends
  | succ fuel ih =>
    by_cases none : input = []
    · rw [none]; exact .nothing
    have turn := turnBetween fresh none
    rw [run, turn] at ends
    rcases Nat.lt_or_ge (le32 input) 2147483648 with signed | high
    · rw [if_neg (Nat.not_le.mpr signed)] at ends
      rcases Nat.lt_or_ge input.length (le32 input) with longer | inside
      · rw [if_pos longer] at ends
        rcases Nat.lt_or_ge sbcPacketSize input.length with big | fits
        · rw [if_neg (Nat.not_le.mpr big)] at ends
          simp at ends
        · exact .begun none signed fits longer
      · rw [if_neg (Nat.not_lt.mpr inside)] at ends
        rcases Nat.lt_or_ge sbcPacketSize (le32 input) with big | fits
        · rw [if_neg (Nat.not_le.mpr big)] at ends
          simp at ends
        · rw [if_pos fits] at ends
          have rest := ih (pushedBetween fresh _).1 ends
          rcases Nat.eq_zero_or_pos (le32 input) with zero | positive
          · rwa [zero, List.drop_zero] at rest
          · exact .whole positive fits inside rest
    · rw [if_pos high] at ends
      simp at ends

theorem fitsReturns {link : MTCLink} {input : Bytes} (c : Carrying link)
    (fits : InputFits link input) : ∃ out, RecvCallback link input out ∧ Carrying out ∧
      out.fRecvQueue.length ≤ link.fRecvQueue.length + input.length := by
  by_cases fresh : link.fTempBytes = 0
  · rw [InputFits, if_pos fresh] at fits
    exact fitsEnds fits fresh
  by_cases none : input = []
  · subst none
    exact ⟨link, (endsStop (turnNothing link) _).mpr rfl, c, Nat.le_refl _⟩
  have turn := turnInside fresh none
  rw [InputFits, if_neg fresh] at fits
  rcases Nat.lt_or_ge input.length link.fBytesLeft with longer | inside
  · rw [if_pos longer] at fits
    rw [if_pos longer, if_pos fits] at turn
    exact ⟨_, (endsStop turn _).mpr rfl, ⟨fits, fun _ => Nat.sub_pos_of_lt longer⟩,
      Nat.le_add_right _ _⟩
  · rw [if_neg (Nat.not_lt.mpr inside)] at fits
    rw [if_neg (Nat.not_lt.mpr inside), if_pos fits.1] at turn
    let next : MTCLink := { pushPacket { link with
      fTempPacket := overwrite link.fTempPacket link.fTempBytes (input.take link.fBytesLeft) } with
      fBytesLeft := 0, fTempBytes := 0 }
    have between : next.fTempBytes = 0 := rfl
    have queue : next.fRecvQueue.length = link.fRecvQueue.length + 1 := by simp [next, pushPacket]
    obtain ⟨out, ends, carries, few⟩ := fitsEnds fits.2 between
    refine ⟨out, (endsAgain turn _).mpr ends, carries, ?_⟩
    have left := c.left fresh
    rw [queue, List.length_drop] at few
    omega

theorem returnsFits {link out : MTCLink} {input : Bytes} (c : Carrying link)
    (ends : RecvCallback link input out) : InputFits link input := by
  by_cases fresh : link.fTempBytes = 0
  · obtain ⟨fuel, ends⟩ := ends
    rw [InputFits, if_pos fresh]
    exact endsFits fresh ends
  have left := c.left fresh
  rw [InputFits, if_neg fresh]
  by_cases none : input = []
  · subst none
    rw [List.length_nil, if_pos left]
    exact c.size
  have turn := turnInside fresh none
  rcases Nat.lt_or_ge input.length link.fBytesLeft with longer | inside
  · rw [if_pos longer] at turn ⊢
    by_contra big
    rw [if_neg big] at turn
    simpa using (endsStop turn _).mp ends
  · rw [if_neg (Nat.not_lt.mpr inside)] at turn ⊢
    rcases Nat.lt_or_ge sbcPacketSize (link.fTempBytes + link.fBytesLeft) with big | fits
    · rw [if_neg (Nat.not_le.mpr big)] at turn
      exact absurd ((endsStop turn _).mp ends) nofun
    · rw [if_pos fits] at turn
      obtain ⟨fuel, rest⟩ := (endsAgain turn _).mp ends
      exact ⟨fits, endsFits rfl rest⟩

theorem safeIff {link : MTCLink} (c : Carrying link) (input : Bytes) :
    Safe reframeTurn link input ↔ InputFits link input := by
  constructor
  · rintro ⟨out, ends, -⟩
    exact returnsFits c ends
  · intro fits
    obtain ⟨out, ends, -, few⟩ := fitsReturns c fits
    exact ⟨out, ends, few⟩

theorem returnsCarrying {link out : MTCLink} {input : Bytes} (c : Carrying link)
    (ends : RecvCallback link input out) : Carrying out := by
  obtain ⟨other, ends', carries, -⟩ := fitsReturns c (returnsFits c ends)
  obtain rfl : out = other := by simpa using endsUnique ends ends'
  exact carries

theorem alwaysSafeFrom {link : MTCLink} (c : Carrying link) (inputs : List Bytes) :
    AlwaysSafe reframeTurn link inputs ↔ AlwaysFits link inputs := by
  induction inputs generalizing link with
  | nil => exact Iff.rfl
  | cons input later ih =>
    have rest (out : MTCLink) (ends : RecvCallback link input out) :=
      ih (returnsCarrying c ends)
    rw [AlwaysSafe, AlwaysFits, safeIff c]
    exact and_congr_right fun _ => forall₂_congr rest

theorem pushingStop {s : MTCLink × Bytes} {result} (turn : reframeTurn s = .stop result) :
    pushingTurn s = .stop result := by
  rw [pushingTurn, turn]

theorem pushingAgain {s next : MTCLink × Bytes} (turn : reframeTurn s = .again next) :
    pushingTurn s = .stop (.error .copyOutside) := by
  rw [pushingTurn, turn]
  exact if_neg (by decide)

def begunWith (link : MTCLink) (input : Bytes) (left : Nat) : MTCLink :=
  { link with
    fTempPacket := overwrite link.fTempPacket link.fTempBytes input
    fBytesLeft := left - input.length
    fTempBytes := link.fTempBytes + input.length }

theorem pushingNothing (link : MTCLink) : pushingTurn (link,[]) = .stop (.ok link) :=
  pushingStop (turnNothing link)

theorem pushingBetween {link : MTCLink} {input : Bytes} (fresh : link.fTempBytes = 0)
    (some' : input ≠ []) : pushingTurn (link,input) = .stop
      (if le32 input < 2147483648 ∧ input.length < le32 input ∧ input.length ≤ sbcPacketSize then
        .ok (begunWith link input (le32 input)) else .error .copyOutside) := by
  have turn := turnBetween fresh some'
  rcases Nat.lt_or_ge (le32 input) 2147483648 with low | high
  · rw [if_neg (Nat.not_le.mpr low)] at turn
    rcases Nat.lt_or_ge input.length (le32 input) with longer | inside
    · rw [if_pos longer] at turn
      rcases Nat.lt_or_ge sbcPacketSize input.length with big | fits
      · rw [if_neg (Nat.not_le.mpr big)] at turn
        rw [pushingStop turn, if_neg fun all => Nat.not_le.mpr big all.2.2]
      · rw [if_pos fits] at turn
        rw [pushingStop turn, if_pos ⟨low, longer, fits⟩, begunWith, fresh, Nat.zero_add]
    · rw [if_neg (Nat.not_lt.mpr inside)] at turn
      rw [if_neg fun all => Nat.not_lt.mpr inside all.2.1]
      rcases Nat.lt_or_ge sbcPacketSize (le32 input) with big | fits
      · rw [if_neg (Nat.not_le.mpr big)] at turn
        exact pushingStop turn
      · rw [if_pos fits] at turn
        exact pushingAgain turn
  · rw [if_pos high] at turn
    rw [pushingStop turn, if_neg fun all => Nat.not_lt.mpr high all.1]

theorem pushingInside {link : MTCLink} {input : Bytes} (begun : link.fTempBytes ≠ 0)
    (some' : input ≠ []) : pushingTurn (link,input) = .stop
      (if input.length < link.fBytesLeft ∧ link.fTempBytes + input.length ≤ sbcPacketSize then
        .ok (begunWith link input link.fBytesLeft) else .error .copyOutside) := by
  have turn := turnInside begun some'
  rcases Nat.lt_or_ge input.length link.fBytesLeft with longer | inside
  · rw [if_pos longer] at turn
    rcases Nat.lt_or_ge sbcPacketSize (link.fTempBytes + input.length) with big | fits
    · rw [if_neg (Nat.not_le.mpr big)] at turn
      rw [pushingStop turn, if_neg fun all => Nat.not_le.mpr big all.2]
    · rw [if_pos fits] at turn
      rw [pushingStop turn, if_pos ⟨longer, fits⟩, begunWith]
  · rw [if_neg (Nat.not_lt.mpr inside)] at turn
    rw [if_neg fun all => Nat.not_lt.mpr inside all.1]
    rcases Nat.lt_or_ge sbcPacketSize (link.fTempBytes + link.fBytesLeft) with big | fits
    · rw [if_neg (Nat.not_le.mpr big)] at turn
      exact pushingStop turn
    · rw [if_pos fits] at turn
      exact pushingAgain turn

theorem alwaysSafeStops {link out : MTCLink} {input : Bytes}
    (turn : pushingTurn (link,input) = .stop (.ok out))
    (few : out.fRecvQueue.length ≤ link.fRecvQueue.length + input.length) (later : List Bytes) :
    AlwaysSafe pushingTurn link (input::later) ↔ AlwaysSafe pushingTurn out later := by
  constructor
  · intro safe
    exact safe.2 out ((endsStop turn _).mpr rfl)
  · intro rest
    refine ⟨⟨out, (endsStop turn _).mpr rfl, few⟩, fun other ends => ?_⟩
    obtain rfl : other = out := by simpa using (endsStop turn _).mp ends
    exact rest

theorem alwaysSafeFault {link : MTCLink} {input : Bytes}
    (turn : pushingTurn (link,input) = .stop (.error .copyOutside)) (later : List Bytes) :
    ¬ AlwaysSafe pushingTurn link (input::later) := by
  rintro ⟨⟨out, ends, -⟩, -⟩
  simpa using (endsStop turn _).mp ends

theorem alwaysSafeInside {link : MTCLink} (begun : link.fTempBytes ≠ 0)
    (left : 0 < link.fBytesLeft) (size : link.fTempBytes ≤ sbcPacketSize) (inputs : List Bytes) :
    AlwaysSafe pushingTurn link inputs ↔
      inputs.flatten.length < link.fBytesLeft ∧
        link.fTempBytes + inputs.flatten.length ≤ sbcPacketSize := by
  induction inputs generalizing link with
  | nil => simp [AlwaysSafe, left, size]
  | cons input later ih =>
    rw [List.flatten_cons, List.length_append]
    by_cases none : input = []
    · subst none
      rw [alwaysSafeStops (pushingNothing link) (Nat.le_refl _), ih begun left size,
        List.length_nil, Nat.zero_add]
    have turn := pushingInside begun none
    by_cases fits : input.length < link.fBytesLeft ∧ link.fTempBytes + input.length ≤ sbcPacketSize
    · rw [if_pos fits] at turn
      rw [alwaysSafeStops turn (Nat.le_add_right _ _),
        @ih (begunWith link input link.fBytesLeft) (by simp only [begunWith]; omega)
          (Nat.sub_pos_of_lt fits.1) fits.2]
      simp only [begunWith]
      omega
    · rw [if_neg fits] at turn
      refine iff_of_false (alwaysSafeFault turn later) fun all => fits ?_
      omega

theorem alwaysSafeBegun {link : MTCLink} (fresh : link.fTempBytes = 0) (inputs : List Bytes) :
    AlwaysSafe pushingTurn link inputs ↔ OneBegun inputs := by
  induction inputs with
  | nil => exact Iff.rfl
  | cons input later ih =>
    by_cases none : input = []
    · subst none
      rw [alwaysSafeStops (pushingNothing link) (Nat.le_refl _), ih, OneBegun, if_pos rfl]
    rw [OneBegun, if_neg none]
    have some' := List.length_pos_iff.mpr none
    have turn := pushingBetween fresh none
    by_cases fits : le32 input < 2147483648 ∧ input.length < le32 input ∧ input.length ≤ sbcPacketSize
    · rw [if_pos fits] at turn
      rw [alwaysSafeStops turn (Nat.le_add_right _ _),
        @alwaysSafeInside (begunWith link input (le32 input)) (by simp only [begunWith]; omega)
          (Nat.sub_pos_of_lt fits.2.1) (by simp only [begunWith]; omega)]
      simp only [begunWith]
      omega
    · rw [if_neg fits] at turn
      refine iff_of_false (alwaysSafeFault turn later) fun all => fits ?_
      omega

/- On any bytes in any pieces: all copies stay inside exactly as long as no packet is
finished, and those into `fTempPacket` alone as long as the lengths that are read fit. -/
theorem reframingSafe (inputs : List Bytes) :
    (AlwaysSafe pushingTurn construct inputs ↔ OneBegun inputs) ∧
      (AlwaysSafe reframeTurn construct inputs ↔ AlwaysFits construct inputs) :=
  ⟨alwaysSafeBegun rfl inputs, alwaysSafeFrom carryingConstruct inputs⟩

theorem finishedFaults {packet : Bytes} (some' : packet ≠ []) (finished : le32 packet ≤ packet.length) :
    ¬ AlwaysSafe pushingTurn construct [packet] := by
  rw [alwaysSafeBegun rfl, OneBegun, if_neg some']
  intro begun
  have longer := begun.2.1
  omega

theorem zeroLengthStays {link : MTCLink} (fresh : link.fTempBytes = 0) (result : Except Fault MTCLink) :
    ¬ Ends reframeTurn (link,[0,0,0,0]) result := by
  refine neverEnds (fun s => s.1.fTempBytes = 0 ∧ s.2 = [0,0,0,0]) ?_ ⟨fresh,rfl⟩ result
  rintro ⟨link, input⟩ ⟨fresh, rfl⟩
  have turn := turnBetween fresh (List.cons_ne_nil 0 [0,0,0])
  have zero : le32 [0,0,0,0] = 0 := rfl
  rw [zero, if_neg (by decide), if_neg (by decide), if_pos (Nat.zero_le _)] at turn
  exact ⟨_, turn, fresh, rfl⟩

/- A packet of 272 bytes, which is a header and an empty payload, a length of zero, and
one that is negative as an `int`. -/
theorem zeroLengthHangs :
    ¬ AlwaysSafe pushingTurn construct [[16,1,0,0] ++ zeros 268] ∧
    (∀ result, ¬ Ends reframeTurn (construct,[0,0,0,0]) result) ∧
    ¬ AlwaysSafe reframeTurn construct [[0,0,0,0]] ∧
    ¬ AlwaysSafe reframeTurn construct [[255,255,255,255]] := by
  refine ⟨fun safe => ?_, zeroLengthStays rfl, fun safe => ?_, fun safe => ?_⟩
  · exact finishedFaults (by simp) (by simp [le32, byteAt]) safe
  · obtain ⟨out, ends, -⟩ := safe.1
    exact zeroLengthStays rfl _ ends
  · have fits := (safeIff carryingConstruct _).mp safe.1
    rw [InputFits, if_pos freshConstruct.bytes] at fits
    cases fits with
    | whole positive fits inside rest => exact absurd inside (by decide)
    | begun some' signed fits longer => exact absurd signed (by decide)

end PennDaq.MTC
