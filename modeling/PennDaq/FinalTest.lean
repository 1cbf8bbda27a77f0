import PennDaq.ControllerInput
import Mathlib.Data.Fin.Basic
import Mathlib.Data.BitVec

/-! The questions of `FinalTest`: the operator's answers come through
`ControllerLink::GetInput` into one buffer, and from there into the documents. -/
namespace PennDaq.FinalTest
open Lib.Buffer ControllerInput

def commentsSize : Nat := 1000

/- `GetInput` for an answer that the operator sends. -/
def getInput (link : ControllerLink) (answer results : Bytes) (maxLength : Nat) : Option (ControllerLink × Bytes) :=
  (recvCallback { link with fLock := 1 } (sent answer)).map fun link =>
    (link,overwrite results 0
      (link.fInput.take (if maxLength ≠ 0 then maxLength else strlen link.fInput)))

inductive Member where
  | text (t : Bytes)
  | bool (b : Bool)
  deriving DecidableEq, Repr

abbrev Docs := Fin 16 → List (String × Member)

inductive Question where
  | comment (slot : Fin 16) (name : String)
  | yesNo (slot : Fin 16) (name : String)
  | offset (name : String)
  | enter
  deriving DecidableEq, Repr

def slotQuestions (i : Fin 16) : List Question := [.comment i "fec_comments",.yesNo i "refurbished",
  .yesNo i "cleaned",.comment i "analog_out_res",.comment i "db0_comments",.comment i "db1_comments",
  .comment i "db2_comments",.comment i "db3_comments",.comment i "db0_dark_matter",.comment i "db1_dark_matter",
  .comment i "db2_dark_matter",.comment i "db3_dark_matter"]

def questions (slotMask : BitVec 32) : List Question :=
  ((List.finRange 16).filter fun i : Fin 16 => slotMask.getLsbD i).flatMap slotQuestions ++
    [.offset "dc_offset_n100",.offset "dc_offset_n20",.offset "dc_offset_esumhi",.offset "dc_offset_esumlo",.enter]

def textOf (comments : Bytes) : Bytes := comments.take (strlen comments)

def append (docs : Docs) (i : Fin 16) (name : String) (member : Member) : Docs :=
  Function.update docs i (docs i ++ [(name,member)])

def appendAll (slotMask : BitVec 32) (docs : Docs) (name : String) (member : Member) : Docs := fun i =>
  if slotMask.getLsbD i then docs i ++ [(name,member)] else docs i

def store (slotMask : BitVec 32) (comments : Bytes) (docs : Docs) : Question → Docs
  | .comment i name => append docs i name (.text (textOf comments))
  | .yesNo i name => append docs i name (.bool (byteAt comments 0 = 'y'.toNat.toUInt8))
  | .offset name => appendAll slotMask docs name (.text (textOf comments))
  | .enter => docs

structure Session where
  link : ControllerLink
  comments : Bytes
  asked : Nat
  docs : Docs

section Asked
variable (slotMask : BitVec 32) (skip : Bool) (answers : Nat → Bytes)

def ask (s : Session) (q : Question) : Option Session :=
  (getInput s.link (answers s.asked) s.comments 0).map fun (link,comments) =>
    ⟨link,comments,s.asked+1,store slotMask comments s.docs q⟩

def askAll : List Question → Session → Option Session
  | [], s => some s
  | q::later, s => (ask slotMask answers s q).bind (askAll later)

inductive Outcome where
  | exited
  | posted (docs : Docs)

def idleLink : ControllerLink := ⟨0,zeros fInputSize,[]⟩

def quit : Bytes := [0x71,0x75,0x69,0x74]

def asked : List Question := if skip then [] else questions slotMask

/- The boards have been initialised. There is no outcome where a buffer is overrun. -/
def finalTest : Option Outcome :=
  (getInput idleLink (answers 0) (zeros commentsSize) 1000).bind fun (link,comments) =>
    if comments.take 4 = quit then some .exited
    else (askAll slotMask answers (asked slotMask skip) ⟨link,comments,1,fun _ => []⟩).map fun s =>
      .posted (appendAll slotMask s.docs "type" (.text "final_test".toUTF8.toList))

def textName (i : Fin 16) : Question → Option String
  | .comment j name => if j = i then some name else none
  | .yesNo _ _ => none
  | .offset name => if slotMask.getLsbD i then some name else none
  | .enter => none

def texts (members : List (String × Member)) : List (String × Bytes) :=
  members.filterMap fun
    | (name,.text t) => some (name,t)
    | (_,.bool _) => none

def numbered : List (Question × Nat) := (asked slotMask skip).zipIdx 1

def filled (i : Fin 16) (text : Nat → Bytes) (from' : List (Question × Nat)) : List (String × Bytes) :=
  from'.filterMap fun (q,k) => (textName slotMask i q).map (·,text k)

def Stored : Outcome → Prop
  | .exited => True
  | .posted docs => ∀ i : Fin 16, slotMask.getLsbD i = true → texts (docs i) =
      filled slotMask i answers (numbered slotMask skip) ++ [("type","final_test".toUTF8.toList)]

/- No answer that is stored as a text comes behind a longer one. -/
def NoneShorter : Prop := (answers 0).take 4 = quit ∨
  ∀ q k, (q,k) ∈ numbered slotMask skip → (∃ i : Fin 16, slotMask.getLsbD i = true ∧ textName slotMask i q ≠ none) →
    ∀ j < k, (answers j).length ≤ (answers k).length

end Asked

def buffer (answers : Nat → Bytes) : Nat → Bytes
  | 0 => zeros commentsSize
  | k+1 => overwrite (buffer answers k) 0 (answers k)

theorem recvAnswer (link : ControllerLink) {answer : Bytes} (t : ControllerInput.Text answer) :
    recvCallback { link with fLock := 1 } (sent answer) =
      some { link with fInput := answer ++ zeros (fInputSize - answer.length), fLock := 0 } := by
  have short := t.short
  have read := readText [] answer t.noZero short
  rw [List.nil_append, List.nil_append, List.length_nil, Nat.sub_zero] at read
  have length : (sent answer).length = answer.length + 1 := by rw [sent, List.length_append]; rfl
  have whole : (answer ++ zeros (inputSize - answer.length)).take (answer.length + 1) = sent answer := by
    obtain ⟨k, left⟩ : ∃ k, inputSize - answer.length = k + 1 := ⟨inputSize - answer.length - 1, by omega⟩
    rw [left, List.take_length_add_append]
    rfl
  have rest : [0] ++ zeros (fInputSize - (answer.length + 1)) = zeros (fInputSize - answer.length) := by
    obtain ⟨k, left⟩ : ∃ k, fInputSize - answer.length = k + 1 :=
      ⟨fInputSize - answer.length - 1, by simp only [fInputSize, inputSize] at *; omega⟩
    rw [left, show fInputSize - (answer.length + 1) = k by omega]
    rfl
  rw [recvCallback, read, Option.bind_some, if_pos Nat.one_ne_zero, length, if_pos (Nat.succ_le_of_lt short), whole, overwriteZeros,
    length, sent, List.append_assoc, rest]

theorem getInputPlain (link : ControllerLink) {answer : Bytes} (t : ControllerInput.Text answer) (results : Bytes) :
    ∃ link', getInput link answer results 0 = some (link',overwrite results 0 answer) := by
  refine ⟨{ link with fInput := answer ++ zeros (fInputSize - answer.length), fLock := 0 }, ?_⟩
  rw [getInput, recvAnswer link t, Option.map_some]
  simp only [ne_eq, not_true_eq_false, if_false]
  rw [strlenPadded t.noZero, List.take_left]

theorem getInputWhole (link : ControllerLink) {answer : Bytes} (t : ControllerInput.Text answer) :
    ∃ link', getInput link answer (zeros commentsSize) 1000 = some (link',overwrite (zeros commentsSize) 0 answer) := by
  have short := t.short
  have front : (answer ++ zeros (fInputSize - answer.length)).take 1000 = answer ++ zeros (1000 - answer.length) := by
    have all : answer.take 1000 = answer := List.take_of_length_le (Nat.le_of_lt short)
    rw [List.take_append, all, zeros, zeros, List.take_replicate]
    congr 2
    simp only [fInputSize, inputSize] at *
    omega
  refine ⟨{ link with fInput := answer ++ zeros (fInputSize - answer.length), fLock := 0 }, ?_⟩
  rw [getInput, recvAnswer link t, Option.map_some]
  simp only [ne_eq, OfNat.ofNat_ne_zero, not_false_eq_true, if_true]
  rw [front, overwriteZeros, overwriteZeros, List.length_append, zerosLength]
  have full : commentsSize - (answer.length + (1000 - answer.length)) = 0 := by
    simp only [commentsSize, inputSize] at *
    omega
  rw [full, show zeros 0 = [] from rfl, List.append_nil]
  rfl

section Answers
variable {answers : Nat → Bytes} (each : ∀ k, ControllerInput.Text (answers k))
include each

theorem bufferLength (k : Nat) : (buffer answers k).length = commentsSize := by
  induction k with
  | zero => exact zerosLength _
  | succ k ih =>
    have short := (each k).short
    rw [buffer, overwriteInside (by simp only [commentsSize, inputSize] at *; omega), ih]

theorem bufferZero (k p : Nat) : byteAt (buffer answers k) p = 0 ↔ ∀ j < k, (answers j).length ≤ p := by
  induction k with
  | zero => simp [buffer]
  | succ k ih =>
    rw [buffer, overwriteAt _ (Nat.zero_le _), Nat.forall_lt_succ_right, ← ih, Nat.zero_add, Nat.sub_zero]
    by_cases inside : p < (answers k).length
    · rw [if_pos ⟨Nat.zero_le _,inside⟩, byteAtInside inside]
      constructor
      · intro zero
        exact absurd (zero ▸ List.getElem_mem inside) (each k).noZero
      · intro both
        exact absurd both.2 (Nat.not_le.mpr inside)
    · rw [if_neg fun both => inside both.2]
      exact ⟨fun zero => ⟨zero,Nat.le_of_not_lt inside⟩, And.left⟩

theorem textKept (k : Nat) : textOf (buffer answers (k+1)) = answers k ↔
    ∀ j < k, (answers j).length ≤ (answers k).length := by
  have length := bufferLength each k
  have short := (each k).short
  have front : (buffer answers (k+1)).take (answers k).length = answers k := by
    have taken := overwriteTake (buffer answers k) (answers k) (Nat.zero_le _)
    rwa [Nat.zero_add, List.take_zero, List.nil_append] at taken
  have zero : byteAt (buffer answers (k+1)) (answers k).length = 0 ↔
      ∀ j < k, (answers j).length ≤ (answers k).length := by
    rw [bufferZero each, Nat.forall_lt_succ_right]
    exact and_iff_left (Nat.le_refl _)
  -- The text ends with the answer where the byte behind it has stayed zero.
  rw [← zero, textOf]
  constructor
  · intro same
    have stop := congrArg List.length same
    rw [List.length_take, Nat.min_eq_left (strlenBound _)] at stop
    rw [← stop]
    exact strlenZero _
  · intro ended
    have stop : strlen (buffer answers (k+1)) = (answers k).length := by
      refine strlenExact ended fun p inside zero' => ?_
      have reached := (bufferZero each (k+1) p).mp zero' k (Nat.lt_succ_self k)
      exact Nat.not_lt_of_le reached inside
    rw [stop, front]

end Answers

theorem textsAppend (a b : List (String × Member)) : texts (a ++ b) = texts a ++ texts b := List.filterMap_append

theorem textsStored (slotMask : BitVec 32) (comments : Bytes) (docs : Docs) (q : Question) (i : Fin 16) :
    texts (store slotMask comments docs q i) =
      texts (docs i) ++ ((textName slotMask i q).map (·,textOf comments)).toList := by
  cases q with
  | comment j name =>
    rw [store, append, textName]
    by_cases same : j = i
    · subst same
      rw [Function.update_self, textsAppend, if_pos rfl]
      rfl
    · rw [Function.update_of_ne (Ne.symm same), if_neg same]
      exact (List.append_nil _).symm
  | yesNo j name =>
    rw [store, append, textName]
    by_cases same : j = i
    · subst same
      rw [Function.update_self, textsAppend]
      rfl
    · rw [Function.update_of_ne (Ne.symm same)]
      exact (List.append_nil _).symm
  | offset name =>
    rw [store, appendAll, textName]
    cases slotMask.getLsbD i with
    | true =>
      rw [if_pos rfl, if_pos rfl, textsAppend]
      rfl
    | false => exact (List.append_nil _).symm
  | enter => exact (List.append_nil _).symm

theorem filledCons (slotMask : BitVec 32) (i : Fin 16) (text : Nat → Bytes) (q : Question) (k : Nat)
    (later : List (Question × Nat)) : filled slotMask i text ((q,k)::later) =
      ((textName slotMask i q).map (·,text k)).toList ++ filled slotMask i text later := by
  unfold filled
  cases h : textName slotMask i q <;> simp [h]

theorem askedAll {answers : Nat → Bytes} (each : ∀ k, ControllerInput.Text (answers k)) (slotMask : BitVec 32)
    (qs : List Question) (s : Session) (now : s.comments = buffer answers s.asked) :
    ∃ s', askAll slotMask answers qs s = some s' ∧ ∀ i, texts (s'.docs i) =
      texts (s.docs i) ++ filled slotMask i (fun k => textOf (buffer answers (k+1))) (qs.zipIdx s.asked) := by
  induction qs generalizing s with
  | nil => exact ⟨s, rfl, fun i => (List.append_nil _).symm⟩
  | cons q later ih =>
    obtain ⟨link, got⟩ := getInputPlain s.link (each s.asked) s.comments
    rw [now] at got
    obtain ⟨s', done, docs⟩ := ih ⟨link,buffer answers (s.asked+1),s.asked+1,
      store slotMask (buffer answers (s.asked+1)) s.docs q⟩ rfl
    refine ⟨s', ?_, fun i => ?_⟩
    · rw [askAll, ask, now, got]
      exact done
    · rw [docs i, textsStored, List.zipIdx_cons, filledCons, List.append_assoc]

theorem filledSame (slotMask : BitVec 32) (i : Fin 16) (text text' : Nat → Bytes) (l : List (Question × Nat)) :
    filled slotMask i text l = filled slotMask i text' l ↔
      ∀ q k, (q,k) ∈ l → textName slotMask i q ≠ none → text k = text' k := by
  induction l with
  | nil => simp [filled]
  | cons pair later ih =>
    obtain ⟨q, k⟩ := pair
    rw [filledCons, filledCons]
    cases h : textName slotMask i q with
    | none =>
      simp only [Option.map_none, Option.toList_none, List.nil_append, ih, List.mem_cons, Prod.mk.injEq]
      constructor
      · rintro rest q' k' (⟨rfl, rfl⟩ | mem) some'
        · exact absurd h some'
        · exact rest q' k' mem some'
      · intro all q' k' mem
        exact all q' k' (.inr mem)
    | some name =>
      simp only [Option.map_some, Option.toList_some, List.singleton_append, List.cons.injEq, Prod.mk.injEq,
        true_and, ih, List.mem_cons]
      constructor
      · rintro ⟨first, rest⟩ q' k' (⟨rfl, rfl⟩ | mem) some'
        · exact first
        · exact rest q' k' mem some'
      · intro all
        exact ⟨all q k (.inl ⟨rfl,rfl⟩) (by rw [h]; exact Option.some_ne_none _), fun q' k' mem => all q' k' (.inr mem)⟩

theorem quitSeen (answer : Bytes) :
    (overwrite (zeros commentsSize) 0 answer).take 4 = quit ↔ answer.take 4 = quit := by
  rw [overwriteZeros]
  rcases Nat.lt_or_ge answer.length 4 with short | long
  · constructor
    · intro same
      have zero := congrArg (byteAt · answer.length) same
      rw [byteAtTake, if_pos short, byteAtPadded, byteAtOutside (Nat.le_refl _)] at zero
      have letters : ∀ p < 4, byteAt quit p ≠ 0 := by decide
      exact absurd zero.symm (letters _ short)
    · intro same
      have length := congrArg List.length same
      rw [List.length_take, Nat.min_eq_right (Nat.le_of_lt short)] at length
      exact absurd length (Nat.ne_of_lt short)
  · rw [List.take_append_of_le_length long]

section Sessions
variable (slotMask : BitVec 32) (skip : Bool) {answers : Nat → Bytes} (each : ∀ k, ControllerInput.Text (answers k))
include each

theorem sessionExited (quits : (answers 0).take 4 = quit) : finalTest slotMask skip answers = some .exited := by
  obtain ⟨link, got⟩ := getInputWhole idleLink (each 0)
  unfold finalTest
  rw [got, Option.bind_some]
  exact if_pos ((quitSeen _).mpr quits)

theorem sessionStored (goesOn : ¬ (answers 0).take 4 = quit) :
    ∃ docs, finalTest slotMask skip answers = some (.posted docs) ∧
      (Stored slotMask skip answers (.posted docs) ↔ NoneShorter slotMask skip answers) := by
  obtain ⟨link, got⟩ := getInputWhole idleLink (each 0)
  obtain ⟨s, done, docs⟩ := askedAll each slotMask (asked slotMask skip)
    ⟨link,overwrite (zeros commentsSize) 0 (answers 0),1,fun _ => []⟩ rfl
  refine ⟨appendAll slotMask s.docs "type" (.text "final_test".toUTF8.toList), ?_, ?_⟩
  · unfold finalTest
    rw [got, Option.bind_some]
    simp only
    rw [if_neg (mt (quitSeen _).mp goesOn), done, Option.map_some]
  have slot (i : Fin 16) (masked : slotMask.getLsbD i = true) :
      texts (appendAll slotMask s.docs "type" (.text "final_test".toUTF8.toList) i) =
        filled slotMask i answers (numbered slotMask skip) ++ [("type","final_test".toUTF8.toList)] ↔
      ∀ q k, (q,k) ∈ numbered slotMask skip → textName slotMask i q ≠ none →
        ∀ j < k, (answers j).length ≤ (answers k).length := by
    rw [appendAll, if_pos masked, textsAppend, docs i]
    change [] ++ filled slotMask i (fun k => textOf (buffer answers (k+1))) (numbered slotMask skip) ++
      [("type",_)] = _ ↔ _
    rw [List.append_left_inj, List.nil_append, filledSame]
    simp only [textKept each]
  unfold Stored NoneShorter
  simp only [or_iff_right goesOn]
  constructor
  · rintro stored q k mem ⟨i, masked, some'⟩
    exact (slot i masked).mp (stored i masked) q k mem some'
  · intro none' i masked
    exact (slot i masked).mpr fun q k mem some' => none' q k mem ⟨i, masked, some'⟩

end Sessions

theorem answersStored (slotMask : BitVec 32) (skip : Bool) (answers : Nat → Bytes)
    (each : ∀ k, ControllerInput.Text (answers k)) :
    ∃ outcome, finalTest slotMask skip answers = some outcome ∧
      (Stored slotMask skip answers outcome ↔ NoneShorter slotMask skip answers) := by
  by_cases quits : (answers 0).take 4 = quit
  · exact ⟨.exited, sessionExited slotMask skip each quits, iff_of_true trivial (.inl quits)⟩
  · obtain ⟨docs, done, exact'⟩ := sessionStored slotMask skip each quits
    exact ⟨.posted docs, done, exact'⟩

def growing (k : Nat) : Bytes := List.replicate (min (k+1) 999) 0x6E

theorem answersStoredGrowing : ∃ docs, finalTest 0x3 false growing = some (.posted docs) ∧
    Stored 0x3 false growing (.posted docs) := by
  have each (k : Nat) : ControllerInput.Text (growing k) := by
    refine ⟨fun mem => absurd (List.eq_of_mem_replicate mem) (by decide), ?_⟩
    rw [growing, List.length_replicate, inputSize]
    omega
  obtain ⟨docs, posted, -⟩ := sessionStored 0x3 false each (by decide)
  obtain ⟨outcome, done, exact'⟩ := answersStored 0x3 false growing each
  obtain rfl : Outcome.posted docs = outcome := Option.some.inj (posted.symm.trans done)
  refine ⟨docs, posted, exact'.mpr (.inr fun q k _ _ j less => ?_)⟩
  rw [growing, growing, List.length_replicate, List.length_replicate]
  omega

def okThenNo (k : Nat) : Bytes := if k = 1 then [0x6F,0x6B] else [0x6E]

theorem leftOver : ∃ outcome, finalTest 0x1 false okThenNo = some outcome ∧ ¬ Stored 0x1 false okThenNo outcome := by
  have each (k : Nat) : ControllerInput.Text (okThenNo k) := by
    unfold okThenNo
    split
    · exact ⟨by decide,by decide⟩
    · exact ⟨by decide,by decide⟩
  obtain ⟨docs, done, exact'⟩ := sessionStored 0x1 false each (by decide)
  refine ⟨.posted docs, done, fun stored => ?_⟩
  rcases exact'.mp stored with quits | none'
  · exact absurd quits (by decide)
  · have longer := none' (.comment 0 "analog_out_res") 4 (by decide) ⟨0,by decide,by decide⟩ 1 (by decide)
    exact absurd longer (by decide)

end PennDaq.FinalTest
