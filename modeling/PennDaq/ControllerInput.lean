import PennDaq.Lib.Buffer
import Mathlib.Algebra.GroupWithZero.Nat

/-! The commands of a controller: what `ControllerLink::RecvCallback` hands to
`ProcessCommand` for the bytes that `tut` sends. -/
namespace PennDaq.ControllerInput
open Lib.Buffer

def inputSize : Nat := 1000

/- `sizeof(input)` of a `char *` -/
def sizeofInput : Nat := 8

def fInputSize : Nat := 10000

structure ControllerLink where
  fLock : Nat
  fInput : Bytes
  commands : List Bytes
  deriving DecidableEq, Repr

/- The `while` loop on what the bufferevent holds. There is no result where a piece
would be written behind the block. -/
def readAll (input pending : Bytes) : Option Bytes :=
  if pending = [] then some input
  else
    let piece := pending.take sizeofInput
    if strlen input + piece.length ≤ inputSize then
      readAll (overwrite input (strlen input) piece) (pending.drop sizeofInput)
    else none
termination_by pending.length
decreasing_by
  rename_i some _
  have := List.length_pos_of_ne_nil some
  simp only [List.length_drop, sizeofInput]
  omega

def stringOf (input : Bytes) : Option Bytes :=
  if strlen input < inputSize then some (input.take (strlen input)) else none

def recvCallback (link : ControllerLink) (pending : Bytes) : Option ControllerLink :=
  (readAll (zeros inputSize) pending).bind fun input =>
    if link.fLock ≠ 0 then
      if pending.length ≤ inputSize then
        some { link with
          fInput := overwrite (zeros fInputSize) 0 (input.take pending.length)
          fLock := 0 }
      else none
    else (stringOf input).map fun command => { link with commands := link.commands ++ [command] }

def recvAll (link : ControllerLink) : List Bytes → Option ControllerLink
  | [] => some link
  | pending::later => (recvCallback link pending).bind fun next => recvAll next later

def sent (text : Bytes) : Bytes := text ++ [0]

structure Text (text : Bytes) : Prop where
  noZero : 0 ∉ text
  short : text.length < inputSize

/- `ProcessCommand` has been given just these commands, in order. -/
def HandsOver (link : ControllerLink) (inputs commands : List Bytes) : Prop :=
  ∃ out, recvAll link inputs = some out ∧ out.commands = link.commands ++ commands

def handed (pending : Bytes) : Option Bytes :=
  (readAll (zeros inputSize) pending).bind stringOf

theorem recvHanded {link : ControllerLink} (idle : link.fLock = 0) (pending : Bytes) :
    recvCallback link pending =
      (handed pending).map fun command => { link with commands := link.commands ++ [command] } := by
  unfold recvCallback handed
  cases readAll (zeros inputSize) pending with
  | none => rfl
  | some input => simp [idle]

theorem recvAllHanded (link : ControllerLink) (idle : link.fLock = 0) (inputs : List Bytes) :
    recvAll link inputs = (inputs.mapM handed).map fun commands =>
      { link with commands := link.commands ++ commands } := by
  induction inputs generalizing link with
  | nil => simp [recvAll]
  | cons pending later ih =>
    rw [recvAll, recvHanded idle, List.mapM_cons]
    cases handed pending with
    | none => rfl
    | some command =>
      simp only [Option.map_some, Option.bind_some, Option.bind_eq_bind]
      rw [ih { link with commands := link.commands ++ [command] } idle]
      cases later.mapM handed with
      | none => rfl
      | some commands => simp

theorem handsOverEach {link : ControllerLink} (idle : link.fLock = 0) (inputs commands : List Bytes) :
    HandsOver link inputs commands ↔ inputs.mapM handed = some commands := by
  unfold HandsOver
  rw [recvAllHanded link idle]
  cases inputs.mapM handed with
  | none => simp
  | some all => simp [eq_comm]

theorem mapHanded {pending : Bytes} {later commands : List Bytes} :
    (pending::later).mapM handed = some commands ↔
      ∃ command rest, handed pending = some command ∧ later.mapM handed = some rest ∧
        commands = command::rest := by
  rw [List.mapM_cons]
  cases handed pending with
  | none => simp
  | some command =>
    cases later.mapM handed with
    | none => simp
    | some rest => simp [eq_comm]

abbrev nonzero (b : Bytes) : Nat := b.countP (· != 0)

theorem nonzeroSplit (b : Bytes) (n : Nat) : nonzero (b.take n) + nonzero (b.drop n) = nonzero b := by
  rw [nonzero, nonzero, ← List.countP_append, List.take_append_drop]

theorem readCount {input pending out : Bytes} (ok : readAll input pending = some out) :
    nonzero out ≤ nonzero input + nonzero pending := by
  fun_induction readAll input pending with
  | case1 input =>
    cases Option.some.inj ok
    exact Nat.le_add_right _ _
  | case2 input pending more piece fits ih =>
    have rest := ih ok
    have now := overwriteCount input (strlen input) piece
    have both := nonzeroSplit pending sizeofInput
    simp only [nonzero, piece] at *
    omega
  | case3 => contradiction

theorem handedRead {pending command : Bytes} (ok : handed pending = some command) :
    ∃ input, readAll (zeros inputSize) pending = some input ∧ command = input.take (strlen input) := by
  obtain ⟨input, read, found⟩ := Option.bind_eq_some_iff.mp ok
  unfold stringOf at found
  split at found
  · exact ⟨input, read, (Option.some.inj found).symm⟩
  · contradiction

theorem handedCount {pending command : Bytes} (ok : handed pending = some command) :
    command.length ≤ nonzero pending := by
  obtain ⟨input, read, rfl⟩ := handedRead ok
  have short := strlenCount input
  have kept := readCount read
  have empty : nonzero (zeros inputSize) = 0 := by simp [nonzero, zeros, List.countP_replicate]
  rw [List.length_take, Nat.min_eq_left (strlenBound input)]
  simp only [nonzero] at *
  omega

theorem readStep {received pending : Bytes} (more : pending ≠ []) (noZero : 0 ∉ received)
    (fits : received.length + (pending.take sizeofInput).length ≤ inputSize) :
    readAll (received ++ zeros (inputSize - received.length)) pending =
      readAll (received ++ pending.take sizeofInput ++
        zeros (inputSize - (received ++ pending.take sizeofInput).length)) (pending.drop sizeofInput) := by
  rw [readAll, if_neg more]
  simp only [strlenPadded noZero]
  rw [if_pos fits, overwritePadded, List.length_append, Nat.sub_add_eq]

theorem readNothing (input : Bytes) : readAll input [] = some input := by
  rw [readAll, if_pos rfl]

theorem readText (received text : Bytes) (noZero : 0 ∉ received ++ text)
    (short : (received ++ text).length < inputSize) :
    readAll (received ++ zeros (inputSize - received.length)) (sent text) =
      some (received ++ text ++ zeros (inputSize - (received ++ text).length)) := by
  have none : 0 ∉ received := fun mem => noZero (List.mem_append_left _ mem)
  have some' : sent text ≠ [] := by simp [sent]
  rw [List.length_append] at short
  have fits : received.length + ((sent text).take sizeofInput).length ≤ inputSize := by
    simp only [List.length_take, sent, List.length_append, List.length_singleton]
    omega
  rw [readStep some' none fits]
  rcases Nat.lt_or_ge text.length sizeofInput with last | more
  · have all : (sent text).length ≤ sizeofInput := by
      rw [sent, List.length_append]; exact last
    have zero : [0] ++ zeros (inputSize - (received ++ text).length - 1) =
        zeros (inputSize - (received ++ text).length) := by
      rw [List.length_append]
      obtain ⟨k, left⟩ : ∃ k, inputSize - (received.length + text.length) = k + 1 :=
        ⟨inputSize - (received.length + text.length) - 1, by omega⟩
      rw [left, Nat.add_sub_cancel]
      rfl
    rw [List.take_of_length_le all, List.drop_eq_nil_of_le all, readNothing, sent,
      ← List.append_assoc, List.append_assoc _ [0], List.length_append, List.length_singleton,
      Nat.sub_add_eq, zero]
  · have first : (sent text).take sizeofInput = text.take sizeofInput :=
      List.take_append_of_le_length more
    have rest : (sent text).drop sizeofInput = sent (text.drop sizeofInput) :=
      List.drop_append_of_le_length more
    have join : received ++ text.take sizeofInput ++ text.drop sizeofInput = received ++ text := by
      rw [List.append_assoc, List.take_append_drop]
    rw [first, rest, readText _ _ (by rw [join]; exact noZero)
      (by rw [join, List.length_append]; exact short), join]
termination_by text.length
decreasing_by
  simp only [List.length_drop, sizeofInput] at *
  omega

theorem stringPadded {text : Bytes} (t : Text text) :
    stringOf (text ++ zeros (inputSize - text.length)) = some text := by
  rw [stringOf, strlenPadded t.noZero, if_pos t.short, List.take_left]

theorem handedSent {text : Bytes} (t : Text text) : handed (sent text) = some text := by
  have read := readText [] text t.noZero t.short
  rw [List.nil_append, List.nil_append, List.length_nil, Nat.sub_zero] at read
  rw [handed, read, Option.bind_some, stringPadded t]

theorem nonzeroText {text : Bytes} (noZero : 0 ∉ text) : nonzero text = text.length := by
  rw [nonzero, List.countP_eq_length]
  intro b mem
  have other : b ≠ 0 := fun zero => noZero (zero ▸ mem)
  simpa using other

theorem nonzeroSent {text : Bytes} (noZero : 0 ∉ text) : nonzero (sent text) = text.length := by
  rw [nonzero, sent, List.countP_append, ← nonzero, nonzeroText noZero]
  rfl

theorem readPiece {input pending out : Bytes} (more : pending ≠ [])
    (ok : readAll input pending = some out) :
    readAll (overwrite input (strlen input) (pending.take sizeofInput)) (pending.drop sizeofInput) =
      some out := by
  rw [readAll, if_neg more] at ok
  simp only at ok
  split at ok
  · exact ok
  · contradiction

theorem zeroBlockLost {block rest out : Bytes} (zero : byteAt block 0 = 0) (second : byteAt block 1 ≠ 0)
    (more : rest = [0] ∨ 2 ≤ rest.length) (ok : readAll block rest = some out) :
    strlen out = 0 ∨ strlen out < nonzero block + nonzero rest := by
  have front : strlen block = 0 := Nat.le_zero.mp (strlenLe zero)
  have some' : rest ≠ [] := by
    rcases more with rfl | more
    · simp
    · exact List.ne_nil_of_length_pos (by omega)
  have next := readPiece some' ok
  rw [front] at next
  rcases more with rfl | more
  · have same : overwrite block 0 [0] = out := by
      have := readNothing (overwrite block 0 [0])
      exact Option.some.inj (this.symm.trans next)
    left
    rw [← same]
    exact Nat.le_zero.mp (strlenLe rfl)
  · right
    have length : 2 ≤ (rest.take sizeofInput).length := by
      simp only [List.length_take, sizeofInput]; omega
    have lost := overwriteCountLess (rest.take sizeofInput) (Nat.zero_le 1) (by omega) second
    have later := readCount next
    have both := nonzeroSplit rest sizeofInput
    have short := strlenCount out
    simp only [nonzero] at *
    omega

theorem zeroFirstLost {text : Bytes} (some' : text ≠ []) (noZero : 0 ∉ text) :
    handed (0::sent text) ≠ some text := by
  intro got
  obtain ⟨input, read, same⟩ := handedRead got
  have length := congrArg List.length same
  rw [List.length_take, Nat.min_eq_left (strlenBound input)] at length
  have positive := List.length_pos_of_ne_nil some'
  let block : Bytes := 0::(sent text).take 7 ++ zeros (inputSize - (0::(sent text).take 7).length)
  have next : readAll block ((sent text).drop 7) = some input := by
    have next := readPiece (List.cons_ne_nil _ _) read
    have start : strlen (zeros inputSize) = 0 := Nat.le_zero.mp (strlenLe (byteAtZeros _ _))
    rw [start, overwriteZeros] at next
    exact next
  have counts : nonzero block + nonzero ((sent text).drop 7) = text.length := by
    have both := nonzeroSplit (sent text) 7
    rw [nonzeroSent noZero] at both
    simp only [block, nonzero, List.countP_append, List.countP_cons, zeros,
      List.countP_replicate] at *
    simpa using both
  rcases Nat.lt_or_ge text.length 7 with short | long
  · have none : (sent text).drop 7 = [] :=
      List.drop_eq_nil_of_le (by rw [sent, List.length_append]; exact short)
    rw [none, readNothing] at next
    have front : strlen input = 0 := by
      rw [← Option.some.inj next]
      exact Nat.le_zero.mp (strlenLe rfl)
    omega
  · have rest : (sent text).drop 7 = text.drop 7 ++ [0] := List.drop_append_of_le_length long
    have second : byteAt block 1 ≠ 0 := by
      obtain ⟨b, later, rfl⟩ := List.exists_cons_of_ne_nil some'
      intro zero
      exact noZero (List.mem_cons.mpr (Or.inl zero.symm))
    have more : (sent text).drop 7 = [0] ∨ 2 ≤ ((sent text).drop 7).length := by
      rw [rest]
      cases text.drop 7 with
      | nil => left; rfl
      | cons c later => right; simp
    have lost := zeroBlockLost rfl second more next
    omega

structure Line (text : Bytes) : Prop where
  some : text ≠ []
  noZero : 0 ∉ text

theorem nonzeroStream {commands : List Bytes} (lines : ∀ text ∈ commands, Line text) :
    nonzero (commands.map sent).flatten = (commands.map List.length).sum := by
  induction commands with
  | nil => rfl
  | cons text commands ih =>
    have rest := ih fun other mem => lines other (List.mem_cons_of_mem _ mem)
    have first := nonzeroSent (lines text List.mem_cons_self).noZero
    simp only [nonzero, List.map_cons, List.flatten_cons, List.countP_append, List.sum_cons] at *
    omega

theorem handedTotal {inputs commands : List Bytes} (each : inputs.mapM handed = some commands) :
    (commands.map List.length).sum ≤ nonzero inputs.flatten := by
  induction inputs generalizing commands with
  | nil =>
    cases Option.some.inj each
    exact Nat.le_refl _
  | cons pending later ih =>
    obtain ⟨command, rest, first, others, rfl⟩ := mapHanded.mp each
    have now := handedCount first
    have then' := ih others
    simp only [nonzero, List.map_cons, List.flatten_cons, List.countP_append, List.sum_cons] at *
    omega

theorem zerosAtEnd {lead text a b : Bytes} (line : Line text) (split : lead ++ text = a ++ b)
    (zeros : nonzero b = 0) : b = [] := by
  cases found : b.getLast? with
  | none => exact List.getLast?_eq_none_iff.mp found
  | some last =>
    have text' : text.getLast? = some last := by
      have same := congrArg List.getLast? split
      rw [List.getLast?_append_of_ne_nil _ line.some, List.getLast?_append, found] at same
      exact same
    have other : last ≠ 0 := fun zero => line.noZero (zero ▸ List.mem_of_getLast? text')
    have none := List.countP_eq_zero.mp zeros last (List.mem_of_getLast? found)
    simp [other] at none

theorem zerosAtStart {commands : List Bytes} {a b : Bytes} (lines : ∀ text ∈ commands, Line text)
    (split : (commands.map sent).flatten = a ++ b) (zeros : nonzero a = 0) : a = [] := by
  cases a with
  | nil => rfl
  | cons first a =>
    cases commands with
    | nil => simp at split
    | cons text commands =>
      obtain ⟨c, later, rfl⟩ := List.exists_cons_of_ne_nil (lines text List.mem_cons_self).some
      have same : c = first := by simpa [sent] using congrArg List.head? split
      have other : first ≠ 0 := by
        intro zero
        exact (lines _ List.mem_cons_self).noZero (by rw [same, zero]; exact List.mem_cons_self)
      have none := List.countP_eq_zero.mp zeros first List.mem_cons_self
      simp [other] at none

theorem handedExactly {lead pending text : Bytes} {later commands : List Bytes} (noLead : nonzero lead = 0)
    (lines : ∀ other ∈ text::commands, Line other)
    (stream : (pending::later).flatten = lead ++ ((text::commands).map sent).flatten)
    (first : handed pending = some text) (rest : later.mapM handed = some commands) :
    nonzero pending = text.length := by
  have counts := congrArg nonzero stream
  have total := nonzeroStream lines
  have now := handedCount first
  have then' := handedTotal rest
  simp only [nonzero, List.flatten_cons, List.countP_append, List.map_cons, List.sum_cons] at *
  omega

theorem cutsExact (lead : Bytes) (inputs : List Bytes) {commands : List Bytes} (zero : lead = [] ∨ lead = [0])
    (lines : ∀ text ∈ commands, Line text)
    (stream : inputs.flatten = lead ++ (commands.map sent).flatten)
    (each : inputs.mapM handed = some commands) :
    lead = [] ∧ inputs = commands.map sent := by
  induction commands generalizing lead inputs with
  | nil =>
    cases inputs with
    | nil => exact ⟨by simpa using stream.symm, rfl⟩
    | cons pending later =>
      obtain ⟨_, _, _, _, none⟩ := mapHanded.mp each
      contradiction
  | cons text commands ih =>
    cases inputs with
    | nil => simp at each
    | cons pending later =>
      obtain ⟨_, _, first, rest, same⟩ := mapHanded.mp each
      obtain ⟨rfl, rfl⟩ := List.cons.inj same
      have line := lines text List.mem_cons_self
      have others : ∀ other ∈ commands, Line other :=
        fun other mem => lines other (List.mem_cons_of_mem _ mem)
      have noLead : nonzero lead = 0 := by rcases zero with rfl | rfl <;> rfl
      have exactly := handedExactly noLead lines stream first rest
      rw [List.flatten_cons, List.map_cons, List.flatten_cons, sent, List.append_assoc text,
        ← List.append_assoc lead] at stream
      -- An input without its closing zero leaves it in front of the next, whose command is lost.
      have missing (later' : later.flatten = [0] ++ (commands.map sent).flatten) : False := by
        obtain ⟨none, -⟩ := ih [0] _ (Or.inr rfl) others later' rest
        contradiction
      have count := nonzeroText line.noZero
      rcases List.append_eq_append_iff.mp stream with ⟨a, whole, tail⟩ | ⟨c, whole, tail⟩
      · have counts := congrArg nonzero whole
        simp only [nonzero, List.countP_append] at counts exactly noLead count
        obtain rfl := zerosAtEnd line whole (by rw [nonzero]; omega)
        exact absurd tail missing
      · have counts := congrArg nonzero whole
        simp only [nonzero, List.countP_append] at counts exactly noLead count
        cases c with
        | nil => exact absurd tail.symm missing
        | cons z more =>
          obtain ⟨rfl, behind⟩ := List.cons.inj tail
          obtain rfl := zerosAtStart others behind (by
            rw [List.countP_cons] at counts
            rw [nonzero]; omega)
          obtain ⟨-, later'⟩ := ih [] _ (Or.inl rfl) others behind.symm rest
          rcases zero with none | one
          · subst none
            exact ⟨rfl, by rw [whole, later']; rfl⟩
          · rw [whole, one] at first
            exact absurd first (zeroFirstLost line.some line.noZero)

theorem handsOverWhole {link : ControllerLink} (idle : link.fLock = 0) {commands : List Bytes}
    (texts : ∀ text ∈ commands, Text text) : HandsOver link (commands.map sent) commands := by
  rw [handsOverEach idle]
  induction commands with
  | nil => rfl
  | cons text commands ih =>
    have rest := ih fun other mem => texts other (List.mem_cons_of_mem _ mem)
    exact mapHanded.mpr ⟨text, commands, handedSent (texts text List.mem_cons_self), rest, rfl⟩

/- However the bytes are cut into inputs, the commands arrive exactly when every
input is one whole command. Without an empty command there is no other way; `tut`
sends an empty line as a line feed. -/
theorem commandsHandedOver (link : ControllerLink) (idle : link.fLock = 0)
    {inputs commands : List Bytes} (texts : ∀ text ∈ commands, Text text)
    (stream : inputs.flatten = (commands.map sent).flatten) :
    (inputs = commands.map sent → HandsOver link inputs commands) ∧
    ((∀ text ∈ commands, text ≠ []) → HandsOver link inputs commands →
      inputs = commands.map sent) := by
  constructor
  · rintro rfl
    exact handsOverWhole idle texts
  · intro some' handsOver
    have lines : ∀ text ∈ commands, Line text := fun text mem => ⟨some' text mem, (texts text mem).noZero⟩
    exact (cutsExact [] _ (Or.inl rfl) lines stream ((handsOverEach idle _ _).mp handsOver)).2

def idleLink : ControllerLink := ⟨0,zeros fInputSize,[]⟩

theorem letterText : ∀ text ∈ ([[97],[98]] : List Bytes), Text text := by
  intro text mem
  rcases List.mem_cons.mp mem with rfl | mem
  · exact ⟨by decide, by decide⟩
  · obtain rfl := List.mem_singleton.mp mem
    exact ⟨by decide, by decide⟩

theorem commandsHandedOverOneByOne : HandsOver idleLink [[97,0],[98,0]] [[97],[98]] :=
  (commandsHandedOver idleLink rfl letterText rfl).1 rfl

/- Two commands in one input, and one command in two. -/
theorem cutCommandsLost : Text [97] ∧ Text [98] ∧ Text [97,98] ∧
    [[97,0,98,0]].flatten = ([[97],[98]].map sent).flatten ∧
    ¬ HandsOver idleLink [[97,0,98,0]] [[97],[98]] ∧
    [[97],[98,0]].flatten = ([[97,98]].map sent).flatten ∧
    ¬ HandsOver idleLink [[97],[98,0]] [[97,98]] := by
  have lines : ∀ text ∈ ([[97],[98]] : List Bytes), Line text := by
    intro text mem
    exact ⟨by rintro rfl; simp at mem, (letterText text mem).noZero⟩
  have line : ∀ text ∈ ([[97,98]] : List Bytes), Line text := by
    intro text mem
    obtain rfl := List.mem_singleton.mp mem
    exact ⟨by decide, by decide⟩
  refine ⟨⟨by decide, by decide⟩, ⟨by decide, by decide⟩, ⟨by decide, by decide⟩, rfl, ?_, rfl, ?_⟩
  · rw [handsOverEach rfl]
    intro each
    exact absurd (cutsExact [] [[97,0,98,0]] (Or.inl rfl) lines rfl each).2 (by decide)
  · rw [handsOverEach rfl]
    intro each
    exact absurd (cutsExact [] [[97],[98,0]] (Or.inl rfl) line rfl each).2 (by decide)

end PennDaq.ControllerInput
