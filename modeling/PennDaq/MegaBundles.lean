import PennDaq.XL3Packets

/-! Megabundles: how `XL3Link::ProcessPacket` goes through the minibundles of a packet and
counts the PMT bundles in them. -/
namespace PennDaq.MegaBundles
open Lib.Block
open FECSettings (swapLong)
open XL3Packets

def mbHeaderWords : Nat := 3

def passcur (info : BitVec 32) : Bool := info &&& 0x80000000 ≠ 0

def miniSize (info : BitVec 32) : Nat := (info &&& 0xFFFFFF).toNat

def bundlesIn (info : BitVec 32) : Nat := if passcur info then 0 else miniSize info / 3

def headMini (payload : Payload) (mini : Nat) : Option (BitVec 32 × List Nat) := do
  let info ← cell payload mini
  if passcur info then do
    let _ ← cell payload (mini+1)
    return (info,[mini,mini+1])
  else return (info,[mini])

structure Parsed where
  numBundles : Nat
  reads : List Nat
  deriving DecidableEq, Repr

def parseMinis (payload : Payload) (mini wordsLeft numBundles : Nat) : Option Parsed :=
  if wordsLeft = 0 then some ⟨numBundles,[]⟩
  else match headMini payload mini with
    | none => none
    | some (info,reads) =>
      if miniSize info > wordsLeft - 1 then some ⟨numBundles + bundlesIn info, reads⟩
      else
        (parseMinis payload (mini + 1 + miniSize info) (wordsLeft - 1 - miniSize info)
          (numBundles + bundlesIn info)).map fun parsed => { parsed with reads := reads ++ parsed.reads }
termination_by wordsLeft

def parseMegaBundle (needToSwap : Bool) (payload : Payload) : Option Parsed := do
  let payload ← swapLongBlock needToSwap 0 mbHeaderWords payload
  let info ← cell payload 0
  let wordsLeft := miniSize info
  let payload ← swapLongBlock needToSwap mbHeaderWords wordsLeft payload
  parseMinis payload mbHeaderWords wordsLeft 0

structure Counters where
  recvBytes : Nat
  megaBundleCount : Nat
  deriving DecidableEq, Repr

def processMegaBundle (needToSwap fPrintOut : Bool) (payload : Payload) (counters : Counters) :
    Option Counters :=
  if fPrintOut then do
    let recvBytes := if counters.megaBundleCount = 0 then 0 else counters.recvBytes
    let parsed ← parseMegaBundle needToSwap payload
    if parsed.numBundles > 0 then
      return ⟨recvBytes + parsed.numBundles*12, counters.megaBundleCount+1⟩
    else return ⟨recvBytes,counters.megaBundleCount⟩
  else some counters

/- All words as the sender meant them. -/
def meant (needToSwap : Bool) (payload : Payload) : Payload := fun i => swapLong needToSwap (payload i)

def infoAt (payload : Payload) (mini : Nat) : BitVec 32 := (cell payload mini).getD 0

def declared (needToSwap : Bool) (payload : Payload) : Nat := miniSize (infoAt (meant needToSwap payload) 0)

def completeMinis (payload : Payload) (mini wordsLeft : Nat) : List (BitVec 32) :=
  if wordsLeft = 0 then []
  else
    let info := infoAt payload mini
    if miniSize info > wordsLeft - 1 then []
    else info::completeMinis payload (mini + 1 + miniSize info) (wordsLeft - 1 - miniSize info)
termination_by wordsLeft

def dataBundles (minis : List (BitVec 32)) : Nat :=
  ((minis.filter fun info => !passcur info).map fun info => miniSize info / 3).sum

def completeBundles (needToSwap : Bool) (payload : Payload) : Nat :=
  dataBundles (completeMinis (meant needToSwap payload) mbHeaderWords (declared needToSwap payload))

def BundlesCounted (needToSwap : Bool) (payload : Payload) (counters : Counters) : Prop :=
  ∃ parsed, parseMegaBundle needToSwap payload = some parsed ∧
    (∀ i ∈ parsed.reads, i < mbHeaderWords + declared needToSwap payload) ∧
    parsed.numBundles = completeBundles needToSwap payload ∧
    ∃ after, processMegaBundle needToSwap true payload counters = some after ∧
      after.recvBytes = (if counters.megaBundleCount = 0 then 0 else counters.recvBytes) +
        12 * completeBundles needToSwap payload

/- Every header that is come to lies in the payload, no passcur header is the last word of
the packet or of what is declared, and what does not fit counts no bundle. -/
def Sound (payload : Payload) (mini wordsLeft : Nat) : Prop :=
  if wordsLeft = 0 then True
  else
    let info := infoAt payload mini
    mini < payloadWords ∧ (passcur info → 1 < wordsLeft ∧ mini + 1 < payloadWords) ∧
      if miniSize info > wordsLeft - 1 then passcur info ∨ miniSize info < 3
      else Sound payload (mini + 1 + miniSize info) (wordsLeft - 1 - miniSize info)
termination_by wordsLeft

def readsOf (info : BitVec 32) (mini : Nat) : List Nat := if passcur info then [mini,mini+1] else [mini]

theorem headRead {payload : Payload} {mini : Nat} {info : BitVec 32} {reads : List Nat} :
    headMini payload mini = some (info,reads) ↔ mini < payloadWords ∧ info = infoAt payload mini ∧
      (passcur info → mini + 1 < payloadWords) ∧ reads = readsOf info mini := by
  by_cases inside : mini < payloadWords
  swap
  · simp [headMini, cellOutside payload (Nat.le_of_not_lt inside), inside]
  have found : cell payload mini = some (infoAt payload mini) := by
    rw [infoAt, cellInside payload inside]
    rfl
  cases kind : passcur (infoAt payload mini) with
  | false =>
    simp only [headMini, found, bind, Option.bind_some, kind, Bool.false_eq_true, if_false, pure,
      Option.some.injEq, Prod.mk.injEq]
    constructor
    · rintro ⟨rfl, rfl⟩
      exact ⟨inside, rfl, by simp [kind], by simp [readsOf, kind]⟩
    · rintro ⟨-, rfl, -, rfl⟩
      exact ⟨rfl, by simp [readsOf, kind]⟩
  | true =>
    by_cases next : mini + 1 < payloadWords
    · simp only [headMini, found, bind, Option.bind_some, kind, if_true, cellInside payload next, pure,
        Option.some.injEq, Prod.mk.injEq]
      constructor
      · rintro ⟨rfl, rfl⟩
        exact ⟨inside, rfl, fun _ => next, by simp [readsOf, kind]⟩
      · rintro ⟨-, rfl, -, rfl⟩
        exact ⟨rfl, by simp [readsOf, kind]⟩
    · simp only [headMini, found, bind, Option.bind_some, kind, if_true,
        cellOutside payload (Nat.le_of_not_lt next), Option.bind_none]
      constructor
      · intro none'
        contradiction
      · rintro ⟨-, rfl, room, -⟩
        exact absurd (room kind) next

theorem dataCons (info : BitVec 32) (minis : List (BitVec 32)) :
    dataBundles (info::minis) = bundlesIn info + dataBundles minis := by
  unfold dataBundles bundlesIn
  cases h : passcur info with
  | false => simp [h]
  | true => simp [h]

def Counts (payload : Payload) (mini wordsLeft numBundles : Nat) : Prop :=
  ∃ parsed, parseMinis payload mini wordsLeft numBundles = some parsed ∧
    (∀ i ∈ parsed.reads, i < mini + wordsLeft) ∧
    parsed.numBundles = numBundles + dataBundles (completeMinis payload mini wordsLeft)

theorem readsBelow (info : BitVec 32) (mini : Nat) {wordsLeft : Nat} (more : wordsLeft ≠ 0) :
    (∀ i ∈ readsOf info mini, i < mini + wordsLeft) ↔ (passcur info → 1 < wordsLeft) := by
  unfold readsOf
  cases passcur info with
  | false =>
    have first : 0 < wordsLeft := by omega
    simpa using first
  | true =>
    simp only [if_true, List.forall_mem_cons, List.not_mem_nil, false_implies, implies_true, and_true,
      true_implies]
    omega

theorem noBundles (info : BitVec 32) : bundlesIn info = 0 ↔ passcur info ∨ miniSize info < 3 := by
  unfold bundlesIn
  cases passcur info with
  | false => simp
  | true => simp

section
variable {payload : Payload} {mini wordsLeft : Nat} (numBundles : Nat) (more : wordsLeft ≠ 0)

include more

theorem missingCounts (absent : ¬ (mini < payloadWords ∧ (passcur (infoAt payload mini) → mini + 1 < payloadWords))) :
    ¬ Counts payload mini wordsLeft numBundles := by
  have missing : headMini payload mini = none := by
    cases found : headMini payload mini with
    | none => rfl
    | some pair =>
      obtain ⟨info, reads⟩ := pair
      obtain ⟨inside, rfl, room, -⟩ := headRead.mp found
      exact absurd ⟨inside,room⟩ absent
  rintro ⟨parsed, run, -⟩
  rw [parseMinis, if_neg more, missing] at run
  contradiction

variable (inside : mini < payloadWords) (behind : passcur (infoAt payload mini) → mini + 1 < payloadWords)

include inside behind

theorem corruptedCounts (corrupted : miniSize (infoAt payload mini) > wordsLeft - 1) :
    Counts payload mini wordsLeft numBundles ↔
      (passcur (infoAt payload mini) → 1 < wordsLeft) ∧
      (passcur (infoAt payload mini) ∨ miniSize (infoAt payload mini) < 3) := by
  have found := headRead.mpr ⟨inside, rfl, behind, rfl⟩
  have room := readsBelow (infoAt payload mini) mini more
  rw [Counts, parseMinis, if_neg more, found, completeMinis, if_neg more]
  simp only
  rw [if_pos corrupted, if_pos corrupted]
  simp only [Option.some.injEq, exists_eq_left', room, ← noBundles]
  refine and_congr_right fun next => ?_
  constructor
  · exact fun same => Nat.add_left_cancel same
  · intro none'
    rw [none']
    rfl

theorem nextCounts (fits : ¬ miniSize (infoAt payload mini) > wordsLeft - 1) :
    Counts payload mini wordsLeft numBundles ↔
      (passcur (infoAt payload mini) → 1 < wordsLeft) ∧
      Counts payload (mini + 1 + miniSize (infoAt payload mini)) (wordsLeft - 1 - miniSize (infoAt payload mini))
        (numBundles + bundlesIn (infoAt payload mini)) := by
  have found := headRead.mpr ⟨inside, rfl, behind, rfl⟩
  have room := readsBelow (infoAt payload mini) mini more
  rw [Counts, Counts, parseMinis, if_neg more, found, completeMinis, if_neg more]
  simp only
  rw [if_neg fits, if_neg fits, dataCons]
  have ends : mini + 1 + miniSize (infoAt payload mini) +
      (wordsLeft - 1 - miniSize (infoAt payload mini)) = mini + wordsLeft := by omega
  simp only [ends]
  constructor
  · rintro ⟨parsed, run, below, total⟩
    obtain ⟨later, laterRun, rfl⟩ := Option.map_eq_some_iff.mp run
    have first := room.mp fun i mem => below i (List.mem_append_left _ mem)
    refine ⟨first, later, laterRun, fun i mem => ?_, ?_⟩
    · exact below i (List.mem_append_right _ mem)
    · rw [Nat.add_assoc]
      exact total
  · rintro ⟨next, later, laterRun, below, total⟩
    have first := room.mpr next
    refine ⟨_, Option.map_eq_some_iff.mpr ⟨later,laterRun,rfl⟩, fun i mem => ?_, ?_⟩
    · rcases List.mem_append.mp mem with mem | mem
      · exact first i mem
      · exact below i mem
    · rw [← Nat.add_assoc]
      exact total

end

theorem walkCounts (payload : Payload) (mini wordsLeft numBundles : Nat) :
    Counts payload mini wordsLeft numBundles ↔ Sound payload mini wordsLeft := by
  induction wordsLeft using Nat.strong_induction_on generalizing mini numBundles with
  | _ wordsLeft ih =>
  by_cases done : wordsLeft = 0
  · subst done
    rw [Sound, if_pos rfl, Counts]
    refine iff_of_true ⟨⟨numBundles,[]⟩, by rw [parseMinis, if_pos rfl], by simp, ?_⟩ trivial
    rw [completeMinis, if_pos rfl]
    rfl
  rw [Sound, if_neg done]
  simp only
  by_cases head : mini < payloadWords ∧ (passcur (infoAt payload mini) → mini + 1 < payloadWords)
  swap
  · exact iff_of_false (missingCounts numBundles done head) fun sound =>
      head ⟨sound.1, fun kind => (sound.2.1 kind).2⟩
  by_cases corrupted : miniSize (infoAt payload mini) > wordsLeft - 1
  · rw [if_pos corrupted, corruptedCounts numBundles done head.1 head.2 corrupted]
    constructor
    · rintro ⟨next, alone⟩
      exact ⟨head.1, fun kind => ⟨next kind, head.2 kind⟩, alone⟩
    · rintro ⟨-, both, alone⟩
      exact ⟨fun kind => (both kind).1, alone⟩
  · rw [if_neg corrupted, ← ih _ (by omega) _ (numBundles + bundlesIn (infoAt payload mini)),
      nextCounts numBundles done head.1 head.2 corrupted]
    constructor
    · rintro ⟨next, later⟩
      exact ⟨head.1, fun kind => ⟨next kind, head.2 kind⟩, later⟩
    · rintro ⟨-, both, later⟩
      exact ⟨fun kind => (both kind).1, later⟩

/- The walk looks at the words that are left and at whether there is one behind them. -/
theorem sameWalk {a b : Payload} {mini wordsLeft : Nat} (numBundles : Nat)
    (same : ∀ i, mini ≤ i → i < mini + wordsLeft → cell a i = cell b i) :
    parseMinis a mini wordsLeft numBundles = parseMinis b mini wordsLeft numBundles := by
  induction wordsLeft using Nat.strong_induction_on generalizing mini numBundles with
  | _ wordsLeft ih =>
  rw [parseMinis, parseMinis]
  by_cases done : wordsLeft = 0
  · rw [if_pos done, if_pos done]
  rw [if_neg done, if_neg done]
  have info : infoAt a mini = infoAt b mini := by
    rw [infoAt, infoAt, same mini (Nat.le_refl _) (by omega)]
  have head : headMini a mini = headMini b mini := by
    apply Option.ext
    rintro ⟨word, reads⟩
    rw [headRead, headRead, info]
  rw [head]
  cases headMini b mini with
  | none => rfl
  | some pair =>
    obtain ⟨word, reads⟩ := pair
    simp only
    split
    · rfl
    · rw [ih _ (by omega) _ fun i low high => same i (by omega) (by omega)]

theorem cellMeant (needToSwap : Bool) (payload : Payload) (i : Nat) :
    cell (meant needToSwap payload) i = (cell payload i).map (swapLong needToSwap) := by
  by_cases inside : i < payloadWords
  · rw [cellInside _ inside, cellInside _ inside]
    rfl
  · rw [cellOutside _ (Nat.le_of_not_lt inside), cellOutside _ (Nat.le_of_not_lt inside)]
    rfl

theorem parseMeant (needToSwap : Bool) (payload : Payload) :
    parseMegaBundle needToSwap payload =
      if needToSwap = true → mbHeaderWords + declared needToSwap payload ≤ payloadWords then
        parseMinis (meant needToSwap payload) mbHeaderWords (declared needToSwap payload) 0
      else none := by
  obtain ⟨headed, swapped⟩ := (swapLongBlockInside needToSwap 0 mbHeaderWords payload).mpr fun _ => by decide
  have info : cell headed 0 = some (infoAt (meant needToSwap payload) 0) := by
    rw [cellSwapped swapped, if_pos (by decide), infoAt, cellMeant, cellInside payload (by decide)]
    rfl
  have size : miniSize (infoAt (meant needToSwap payload) 0) = declared needToSwap payload := rfl
  simp only [parseMegaBundle, swapped, info, size, bind, Option.bind_some]
  split
  · rename_i inside
    obtain ⟨body, bodySwapped⟩ := (swapLongBlockInside needToSwap _ _ headed).mpr inside
    rw [bodySwapped, Option.bind_some]
    apply sameWalk
    intro i low high
    have behind : ¬ (0 ≤ i ∧ i < 0 + mbHeaderWords) := by omega
    rw [cellSwapped bodySwapped, if_pos ⟨low,high⟩, cellSwapped swapped, if_neg behind, cellMeant]
  · rename_i outside
    cases swappedBody : swapLongBlock needToSwap mbHeaderWords (declared needToSwap payload) headed with
    | none => rfl
    | some body => exact absurd ((swapLongBlockInside needToSwap _ _ headed).mp ⟨body,swappedBody⟩) outside

/- The bundles are counted, inside the packet and inside what it declares, for the sound
packets and for no others. -/
theorem bundlesCounted (needToSwap : Bool) (payload : Payload) (counters : Counters) :
    BundlesCounted needToSwap payload counters ↔
      (needToSwap = true → mbHeaderWords + declared needToSwap payload ≤ payloadWords) ∧
      Sound (meant needToSwap payload) mbHeaderWords (declared needToSwap payload) := by
  rw [← walkCounts _ _ _ 0]
  constructor
  · rintro ⟨walked, run, below, total, -⟩
    rw [parseMeant] at run
    split at run
    · rename_i inside
      exact ⟨inside, walked, run, below, total.trans (Nat.zero_add _).symm⟩
    · contradiction
  · rintro ⟨inside, walked, run, below, total⟩
    rw [Nat.zero_add] at total
    have whole := (parseMeant needToSwap payload).trans ((if_pos inside).trans run)
    refine ⟨walked, whole, below, total, ?_⟩
    simp only [processMegaBundle, if_true, whole, bind, Option.bind_some]
    split
    · exact ⟨_, rfl, by rw [total, Nat.mul_comm]; rfl⟩
    · rename_i few
      have zero : completeBundles needToSwap payload = 0 := by
        rw [completeBundles, ← total]
        omega
      exact ⟨_, rfl, by rw [zero]; rfl⟩

/- One word is declared, and its header asks for three more. -/
theorem corruptedCounted :
    parseMegaBundle true (fun i => if i.val = 0 then 0x01000000 else if i.val = 3 then 0x03000000 else 0) =
      some ⟨1,[3]⟩ ∧
    ¬ BundlesCounted true
      (fun i => if i.val = 0 then 0x01000000 else if i.val = 3 then 0x03000000 else 0) ⟨0,0⟩ := by
  have counted : parseMegaBundle true
      (fun i => if i.val = 0 then 0x01000000 else if i.val = 3 then 0x03000000 else 0) =
      some ⟨1,[3]⟩ := by
    rw [parseMeant, if_pos (by decide), parseMinis, if_neg (by decide)]
    rfl
  refine ⟨counted, ?_⟩
  rintro ⟨walked, run, -, total, -⟩
  rw [counted] at run
  cases Option.some.inj run
  have none' : completeMinis (meant true
      fun i => if i.val = 0 then 0x01000000 else if i.val = 3 then 0x03000000 else 0) mbHeaderWords
      (declared true fun i => if i.val = 0 then 0x01000000 else if i.val = 3 then 0x03000000 else 0) = [] := by
    rw [completeMinis, if_neg (by decide)]
    exact if_pos (by decide)
  rw [completeBundles, none'] at total
  exact absurd total (by decide)

end PennDaq.MegaBundles
