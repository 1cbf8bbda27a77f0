import Mathlib.Data.Nat.Find
import PennDaq.Lib.Buffer

/-! The loop at the head of `XL3Link::RecvCallback` and of `MTCLink::RecvCallback`:
both read into a zeroed buffer at `input+strlen(input)` until `bufferevent_read`
returns 0, and add up the returned lengths separately. -/
namespace PennDaq.DrainLoop
open Lib.Buffer

def inputSize : Nat := 10000

structure Drained where
  input : Bytes
  totalLength : Nat
  deriving DecidableEq, Repr

def emptyInput : Drained := ⟨zeros inputSize,0⟩

/- `strlen` of a buffer without any zero byte reads on behind it; that is only
possible for the read that returns 0, which writes nothing. -/
def readInto (s : Drained) (chunk : Bytes) : Drained :=
  ⟨overwrite s.input (strlen s.input) chunk, s.totalLength + chunk.length⟩

def drainFrom (s : Drained) : List Bytes → Drained
  | [] => s
  | chunk::later => if chunk = [] then s else drainFrom (readInto s chunk) later

def drain (chunks : List Bytes) : Drained := drainFrom emptyInput chunks

/- What libevent can return before its 0: nonempty chunks, and by assumption no
more than the buffer holds. -/
def Readable (chunks : List Bytes) : Prop :=
  (∀ chunk ∈ chunks, chunk ≠ []) ∧ chunks.flatten.length ≤ inputSize

instance (chunks : List Bytes) : Decidable (Readable chunks) :=
  inferInstanceAs (Decidable (_ ∧ _))

def WritesInside (chunks : List Bytes) : Prop :=
  ∀ before chunk after, chunks = before ++ chunk::after →
    strlen (drain before).input + chunk.length ≤ inputSize

/- After a zero byte a chunk has to be all zeros and to fit into the run of zeros
that starts at the first one. -/
def Appendable (received chunk : Bytes) : Prop :=
  0 ∈ received → (∀ b ∈ chunk, b = 0) ∧
    ∀ b ∈ (received.drop (strlen received)).take chunk.length, b = 0

instance (received chunk : Bytes) : Decidable (Appendable received chunk) :=
  inferInstanceAs (Decidable (_ → _ ∧ _))

def ZeroSafe (received : Bytes) : List Bytes → Prop
  | [] => True
  | chunk::later => Appendable received chunk ∧ ZeroSafe (received ++ chunk) later

instance zeroSafeDecidable : (received : Bytes) → (chunks : List Bytes) →
    Decidable (ZeroSafe received chunks)
  | _, [] => isTrue trivial
  | received, chunk::later =>
    have := zeroSafeDecidable (received ++ chunk) later
    inferInstanceAs (Decidable (_ ∧ _))

theorem zeroSafeIff (received chunks) : ZeroSafe received chunks ↔
    ∀ before chunk after, chunks = before ++ chunk::after →
      Appendable (received ++ before.flatten) chunk := by
  induction chunks generalizing received with
  | nil => simp [ZeroSafe]
  | cons head tail ih =>
    rw [ZeroSafe, ih]
    constructor
    · rintro ⟨first, rest⟩ before chunk after same
      cases before with
      | nil =>
        obtain ⟨rfl, rfl⟩ := List.cons.inj same
        simpa using first
      | cons b more =>
        simp only [List.cons_append, List.cons.injEq] at same
        obtain ⟨rfl, same⟩ := same
        simpa [List.append_assoc] using rest more chunk after same
    · intro all
      refine ⟨by simpa using all [] head tail rfl, ?_⟩
      intro before chunk after same
      simpa [List.append_assoc] using all (head::before) chunk after (by simp [same])

structure Kept (received : Bytes) (s : Drained) : Prop where
  size : s.input.length = inputSize
  total : s.totalLength = received.length
  room : received.length ≤ inputSize
  quiet : ∀ i, received.length ≤ i → byteAt s.input i = 0
  count : s.input.countP (· != 0) ≤ received.countP (· != 0)

theorem keptEmpty : Kept [] emptyInput := by
  refine ⟨by simp [emptyInput], rfl, by simp, fun i _ => by simp [emptyInput], ?_⟩
  simp [emptyInput, zeros, List.countP_replicate]

theorem keptPosition {received s} (k : Kept received s) : strlen s.input ≤ received.length :=
  strlenLe (k.quiet _ (Nat.le_refl _))

/- Once a zero byte is in, the write position is left of where it has to be. -/
theorem keptShort {received s} (k : Kept received s) (zero : 0 ∈ received) :
    strlen s.input < received.length := by
  have bytes := strlenCount s.input
  have fewer := zeroCount zero
  have := k.count
  omega

theorem keptStep {received s} (chunk) (k : Kept received s)
    (fits : received.length + chunk.length ≤ inputSize) :
    Kept (received ++ chunk) (readInto s chunk) := by
  have pos := keptPosition k
  have inside : strlen s.input + chunk.length ≤ s.input.length := by rw [k.size]; omega
  refine ⟨?_, ?_, by simpa using fits, ?_, ?_⟩
  · simp only [readInto, overwriteInside inside, k.size]
  · simp only [readInto, k.total, List.length_append]
  · intro i out
    rw [List.length_append] at out
    simp only [readInto]
    rw [overwriteAt chunk (by omega), if_neg (by omega)]
    exact k.quiet i (by omega)
  · have written := overwriteCount s.input (strlen s.input) chunk
    have := k.count
    simp only [readInto, List.countP_append]
    omega

def Right (received : Bytes) (s : Drained) : Prop :=
  ∀ i, byteAt s.input i = byteAt received i

def Lost (received : Bytes) (s : Drained) : Prop :=
  ∃ i, byteAt received i ≠ 0 ∧ byteAt s.input i = 0

theorem lostNotRight {received s} (lost : Lost received s) : ¬ Right received s := by
  intro right
  obtain ⟨i, nonzero, zero⟩ := lost
  exact nonzero (by rw [← right i, zero])

theorem rightPosition {received s} (right : Right received s) :
    strlen s.input = strlen received := strlenSame right

theorem nonzeroLost {received s chunk} (k : Kept received s) (zero : 0 ∈ received)
    (nonzero : ¬ ∀ b ∈ chunk, b = 0) : Lost (received ++ chunk) (readInto s chunk) := by
  obtain ⟨b, mem, other⟩ : ∃ b ∈ chunk, b ≠ 0 := by simpa using nonzero
  obtain ⟨j, inside, rfl⟩ := memByteAt mem
  let last := Nat.findGreatest (fun i => byteAt chunk i ≠ 0) chunk.length
  have isLast : byteAt chunk last ≠ 0 :=
    Nat.findGreatest_spec (P := fun i => byteAt chunk i ≠ 0) (Nat.le_of_lt inside) other
  have after : ∀ i, last < i → byteAt chunk i = 0 := by
    intro i more
    by_cases inChunk : i ≤ chunk.length
    · simpa using Nat.findGreatest_is_greatest more inChunk
    · exact byteAtOutside (by omega)
  have short := keptShort k zero
  have size := k.size
  have room := k.room
  refine ⟨received.length + last, ?_, ?_⟩
  · rw [byteAtAppend, if_neg (by omega), Nat.add_sub_cancel_left]
    exact isLast
  · simp only [readInto]
    rw [overwriteAt chunk (by omega)]
    split
    · exact after _ (by omega)
    · exact k.quiet _ (by omega)

theorem lostStep {received s chunk} (k : Kept received s) (zero : 0 ∈ received)
    (lost : Lost received s) : Lost (received ++ chunk) (readInto s chunk) := by
  by_cases silent : ∀ b ∈ chunk, b = 0
  · obtain ⟨i, nonzero, gone⟩ := lost
    have inside : i < received.length := by
      by_contra out
      exact nonzero (byteAtOutside (by omega))
    have pos := keptPosition k
    have size := k.size
    have room := k.room
    refine ⟨i, by rwa [byteAtAppend, if_pos inside], ?_⟩
    simp only [readInto]
    rw [overwriteAt chunk (by omega)]
    split
    · rw [allZero.mp silent, byteAtZeros]
    · exact gone
  · exact nonzeroLost k zero silent

theorem rightAppend {received s chunk} (k : Kept received s) (right : Right received s)
    (full : 0 ∉ received) : Right (received ++ chunk) (readInto s chunk) := by
  intro i
  have pos : strlen s.input = received.length := by rw [rightPosition right, strlenFull full]
  have size := k.size
  have room := k.room
  simp only [readInto, pos]
  rw [overwriteAt chunk (by omega), byteAtAppend]
  by_cases before : i < received.length
  · rw [if_neg (by omega), if_pos before, right i]
  · rw [if_neg before]
    split
    · rfl
    · rw [right i, byteAtOutside (by omega), byteAtOutside (by omega)]

theorem rightZeros {received s chunk} (k : Kept received s) (right : Right received s)
    (silent : ∀ b ∈ chunk, b = 0) :
    (Right (received ++ chunk) (readInto s chunk) ↔
      ∀ b ∈ (received.drop (strlen received)).take chunk.length, b = 0) ∧
    (¬ Right (received ++ chunk) (readInto s chunk) → Lost (received ++ chunk) (readInto s chunk)) := by
  have pos := rightPosition right
  have bound := strlenBound received
  have size := k.size
  have room := k.room
  have longer : ∀ i, byteAt (received ++ chunk) i = byteAt received i := by
    intro i
    rw [allZero.mp silent, byteAtPadded]
  -- Zeros land on what came behind the first zero byte.
  have written : ∀ i, byteAt (readInto s chunk).input i =
      if strlen received ≤ i ∧ i < strlen received + chunk.length then 0 else byteAt received i := by
    intro i
    simp only [readInto, pos]
    rw [overwriteAt chunk (by omega), right i]
    split
    · rw [allZero.mp silent, byteAtZeros]
    · rfl
  rw [windowZero]
  constructor
  · constructor
    · intro good i low high
      have here := good i
      rw [written, if_pos ⟨low,high⟩, longer] at here
      exact here.symm
    · intro all i
      rw [written, longer]
      split
      · rename_i inside; exact (all i inside.1 inside.2).symm
      · rfl
  · intro bad
    by_contra kept
    apply bad
    intro i
    rw [written, longer]
    split
    · rename_i inside
      by_contra nonzero
      exact kept ⟨i, by rw [longer]; exact fun h => nonzero h.symm, by rw [written, if_pos inside]⟩
    · rfl

theorem rightStep {received s} (chunk) (k : Kept received s) (right : Right received s) :
    (Appendable received chunk → Right (received ++ chunk) (readInto s chunk)) ∧
    (¬ Appendable received chunk → Lost (received ++ chunk) (readInto s chunk)) := by
  by_cases zero : 0 ∈ received
  · by_cases silent : ∀ b ∈ chunk, b = 0
    · obtain ⟨exactly, otherwise⟩ := rightZeros k right silent
      refine ⟨fun ok => exactly.mpr (ok zero).2, fun bad => otherwise ?_⟩
      exact fun good => bad fun _ => ⟨silent, exactly.mp good⟩
    · exact ⟨fun ok => absurd (ok zero).1 silent, fun _ => nonzeroLost k zero silent⟩
  · exact ⟨fun _ => rightAppend k right zero, fun bad => absurd (fun h => absurd h zero) bad⟩

theorem drainKept {received s chunks} (k : Kept received s)
    (nonempty : ∀ chunk ∈ chunks, chunk ≠ [])
    (fits : received.length + chunks.flatten.length ≤ inputSize) :
    Kept (received ++ chunks.flatten) (drainFrom s chunks) := by
  induction chunks generalizing received s with
  | nil => simpa [drainFrom] using k
  | cons chunk later ih =>
    simp only [List.flatten_cons, List.length_append] at fits
    have next := keptStep chunk k (by omega)
    have rest := ih next (fun c mem => nonempty c (List.mem_cons_of_mem _ mem))
      (by simp only [List.length_append]; omega)
    simpa [drainFrom, nonempty chunk (by simp), List.append_assoc] using rest

theorem drainLost {received s chunks} (k : Kept received s) (zero : 0 ∈ received)
    (lost : Lost received s) (nonempty : ∀ chunk ∈ chunks, chunk ≠ [])
    (fits : received.length + chunks.flatten.length ≤ inputSize) :
    Lost (received ++ chunks.flatten) (drainFrom s chunks) := by
  induction chunks generalizing received s with
  | nil => simpa [drainFrom] using lost
  | cons chunk later ih =>
    simp only [List.flatten_cons, List.length_append] at fits
    have rest := ih (keptStep chunk k (by omega)) (by simp [zero])
      (lostStep k zero lost) (fun c mem => nonempty c (List.mem_cons_of_mem _ mem))
      (by simp only [List.length_append]; omega)
    simpa [drainFrom, nonempty chunk (by simp), List.append_assoc] using rest

theorem drainRight {received s chunks} (k : Kept received s) (right : Right received s)
    (nonempty : ∀ chunk ∈ chunks, chunk ≠ [])
    (fits : received.length + chunks.flatten.length ≤ inputSize) :
    Right (received ++ chunks.flatten) (drainFrom s chunks) ↔ ZeroSafe received chunks := by
  induction chunks generalizing received s with
  | nil => simpa [drainFrom, ZeroSafe] using right
  | cons chunk later ih =>
    simp only [List.flatten_cons, List.length_append] at fits
    have others : ∀ c ∈ later, c ≠ [] := fun c mem => nonempty c (List.mem_cons_of_mem _ mem)
    have room : (received ++ chunk).length + later.flatten.length ≤ inputSize := by
      simp only [List.length_append]; omega
    have next := keptStep chunk k (by omega)
    obtain ⟨good, bad⟩ := rightStep chunk k right
    simp only [drainFrom, if_neg (nonempty chunk (by simp)), List.flatten_cons,
      ← List.append_assoc, ZeroSafe]
    by_cases ok : Appendable received chunk
    · rw [ih next (good ok) others room]
      simp [ok]
    · have zero : 0 ∈ received ++ chunk := by
        by_contra none
        exact ok fun h => absurd (List.mem_append_left _ h) none
      simp only [ok, false_and, iff_false]
      exact lostNotRight (drainLost next zero (bad ok) others room)

theorem rightInput {received s} (k : Kept received s) :
    s.input.take s.totalLength = received ↔ Right received s := by
  rw [k.total]
  constructor
  · intro same i
    by_cases inside : i < received.length
    · have here := byteAtTake s.input received.length i
      rw [same, if_pos inside] at here
      exact here.symm
    · rw [k.quiet i (by omega), byteAtOutside (by omega)]
  · intro right
    have size := k.size
    have room := k.room
    apply sameBytes (by rw [List.length_take]; omega)
    intro i
    rw [byteAtTake]
    split
    · exact right i
    · rw [byteAtOutside (by omega)]

theorem drainPrefix {before chunk after} (ok : Readable (before ++ chunk::after)) :
    Readable before ∧ before.flatten.length + chunk.length ≤ inputSize := by
  obtain ⟨nonempty, fits⟩ := ok
  simp only [List.flatten_append, List.flatten_cons, List.length_append] at fits
  exact ⟨⟨fun c mem => nonempty c (List.mem_append_left _ mem), by omega⟩, by omega⟩

theorem drainReadable {chunks} (ok : Readable chunks) : Kept chunks.flatten (drain chunks) := by
  simpa [drain] using drainKept keptEmpty ok.1 (by simpa using ok.2)

theorem writesInside {chunks} (ok : Readable chunks) : WritesInside chunks := by
  rintro before chunk after rfl
  obtain ⟨earlier, room⟩ := drainPrefix ok
  have pos := keptPosition (drainReadable earlier)
  omega

theorem drainedExactly {chunks} (ok : Readable chunks) :
    (drain chunks).input.take (drain chunks).totalLength = chunks.flatten ↔ ZeroSafe [] chunks := by
  rw [rightInput (drainReadable ok)]
  have start : Right [] emptyInput := fun i => by
    rw [byteAtOutside (b := []) (by simp)]; exact byteAtZeros inputSize i
  simpa [drain] using drainRight keptEmpty start ok.1 (by simpa using ok.2)

/- The loop gives the chunks in order exactly when every chunk that follows a zero
byte is made of zeros and fits into the zeros at the first one. -/
theorem drainConcatenates {chunks : List Bytes} (ok : Readable chunks) :
    ((drain chunks).input.take (drain chunks).totalLength = chunks.flatten ∧
      (drain chunks).totalLength = chunks.flatten.length ∧
      (drain chunks).input.length = inputSize ∧ WritesInside chunks) ↔
    ∀ before chunk after, chunks = before ++ chunk::after → Appendable before.flatten chunk := by
  have kept := drainReadable ok
  have explicit := zeroSafeIff [] chunks
  simp only [List.nil_append] at explicit
  rw [← explicit, ← drainedExactly ok]
  exact ⟨fun all => all.1, fun same => ⟨same, kept.total, kept.size, writesInside ok⟩⟩

theorem drainConcatenatesPair :
    ((drain [[1,2],[3,0]]).input.take (drain [[1,2],[3,0]]).totalLength = [1,2,3,0] ∧
      (drain [[1,2],[3,0]]).totalLength = 4 ∧
      (drain [[1,2],[3,0]]).input.length = inputSize ∧ WritesInside [[1,2],[3,0]]) := by
  have ok : Readable [[1,2],[3,0]] := by decide
  refine (drainConcatenates ok).mpr ?_
  have safe : ZeroSafe [] [[1,2],[3,0]] := by decide
  simpa using (zeroSafeIff _ _).mp safe

/- The second chunk lands on the zero byte of the first. -/
theorem drainOverwrites : Readable [[1,0],[2]] ∧
    (drain [[1,0],[2]]).input.take (drain [[1,0],[2]]).totalLength ≠ [[1,0],[2]].flatten := by
  have ok : Readable [[1,0],[2]] := by decide
  refine ⟨ok, fun same => ?_⟩
  exact absurd ((drainedExactly ok).mp same) (by decide)

end PennDaq.DrainLoop
