import PennDaq.Lib.Cursor

/-! Items between brackets: read with blanks around them and a separator between, and the
texts that such a reader takes. -/
namespace Lib.Bracketed
open Lib.Cursor

variable {β α γ : Type}

def Follows (follow : β → Prop) (rest : List β) : Prop := ∃ c later, rest = c::later ∧ follow c

def Reads (lang : α → List β → Prop) (follow : β → Prop) (p : Reader β α) : Prop :=
  ∀ s value rest, p s = .done value rest → Follows follow rest → ∃ text, s = text ++ rest ∧ lang value text

/- The reader takes each text of the language of at most `most` cells. -/
def Takes (lang : α → List β → Prop) (follow : β → Prop) (most : Nat) (p : Reader β α) : Prop :=
  ∀ text value rest, lang value text → text.length ≤ most → Follows follow rest →
    p (text ++ rest) = .done value rest

/- The marks of a kind of sequence. -/
structure Marks (β : Type) where
  blank : β → Bool
  opening : β
  separator : β
  closing : β
  apart : separator ≠ closing
  separatorNotBlank : blank separator = false
  closingNotBlank : blank closing = false

namespace Marks
variable (marks : Marks β)

def skipBlank : Reader β Unit := skipWhile marks.blank

section Reader
variable [DecidableEq β]

def items (item : Reader β α) : Nat → Reader β (List α)
  | 0 => starve
  | passes+1 => do
    let first ← item
    marks.skipBlank
    if ← accept fun c => decide (c = marks.closing) then
      return [first]
    else
      expect marks.separator
      marks.skipBlank
      let later ← items item passes
      return first::later

def sequence (item : Reader β α) : Reader β (List α) := do
  expect marks.opening
  marks.skipBlank
  if ← accept fun c => decide (c = marks.closing) then
    return []
  else
    let s ← here
    marks.items item s.length

end Reader

def Blank (text : List β) : Prop := ∀ c ∈ text, marks.blank c = true

inductive ItemsText (lang : α → List β → Prop) : List α → List β → Prop where
  | last {value text blank} (item : lang value text) (spaced : marks.Blank blank) :
    ItemsText lang [value] (text ++ (blank ++ [marks.closing]))
  | more {value text blank blank' later tail} (item : lang value text) (spaced : marks.Blank blank)
    (spaced' : marks.Blank blank') (next : ItemsText lang later tail) :
    ItemsText lang (value::later) (text ++ (blank ++ marks.separator::(blank' ++ tail)))

inductive SequenceText (lang : α → List β → Prop) : List α → List β → Prop where
  | none {blank} (spaced : marks.Blank blank) :
    SequenceText lang [] (marks.opening::(blank ++ [marks.closing]))
  | some {values blank tail} (spaced : marks.Blank blank) (items : ItemsText marks lang values tail) :
    SequenceText lang values (marks.opening::(blank ++ tail))

def Follow (c : β) : Prop := marks.blank c = true ∨ c = marks.separator ∨ c = marks.closing

variable {marks}

theorem blankAppend {text text' : List β} (one : marks.Blank text) (two : marks.Blank text') :
    marks.Blank (text ++ text') := by
  intro c inside
  rcases List.mem_append.mp inside with first | second
  · exact one c first
  · exact two c second

theorem followBlank {follow : β → Prop} (followed : ∀ c, marks.Follow c → follow c) {text : List β} {c : β}
    (spaced : marks.Blank text) (stands : marks.Follow c) (later : List β) :
    Follows follow (text ++ c::later) := by
  cases text with
  | nil => exact ⟨c,later,rfl,followed c stands⟩
  | cons d text =>
    have blank := spaced d (by simp)
    exact ⟨d,text ++ c::later,rfl,followed d (Or.inl blank)⟩

theorem skipBlankDone {s rest : List β} {answer : Unit} (done : marks.skipBlank s = .done answer rest) :
    ∃ blank, s = blank ++ rest ∧ marks.Blank blank := by
  obtain ⟨blank, same, spaced, _⟩ := skipWhileDone done
  exact ⟨blank,same,spaced⟩

theorem skipBlankStops {blank : List β} {c : β} (spaced : marks.Blank blank) (stops : marks.blank c = false)
    (later : List β) : marks.skipBlank (blank ++ c::later) = .done () (c::later) :=
  skipWhileStops spaced stops

section Reading
variable {lang : α → List β → Prop} {follow : β → Prop}

def Starts (lang : α → List β → Prop) : Prop :=
  ∀ value text, lang value text → ∃ c later, text = c::later ∧ marks.blank c = false ∧ c ≠ marks.closing

theorem itemsNotEmpty (starts : marks.Starts lang) {values : List α} {text : List β}
    (offered : marks.ItemsText lang values text) :
    values ≠ [] ∧ ∃ c later, text = c::later ∧ marks.blank c = false ∧ c ≠ marks.closing := by
  cases offered with
  | last item _ | more item _ _ _ =>
    obtain ⟨c, later, rfl, plain, other⟩ := starts _ _ item
    exact ⟨by simp,c,_,rfl,plain,other⟩

variable [DecidableEq β] {item : Reader β α}

theorem itemsRead (followed : ∀ c, marks.Follow c → follow c) (reads : Reads lang follow item) {passes : Nat}
    {s rest : List β} {values : List α} (done : marks.items item passes s = .done values rest) :
    ∃ text, s = text ++ rest ∧ marks.ItemsText lang values text := by
  induction passes generalizing s values with
  | zero => cases done
  | succ passes ih =>
    unfold items at done
    obtain ⟨first, s₁, one, done₁⟩ := bindDone.mp done
    obtain ⟨_, s₂, skipped, done₂⟩ := bindDone.mp done₁
    obtain ⟨closed, s₃, tried, done₃⟩ := bindDone.mp done₂
    obtain ⟨blank, split₁, spaced⟩ := skipBlankDone skipped
    cases closed with
    | true =>
      obtain ⟨rfl, rfl⟩ := pureDone.mp done₃
      obtain ⟨c, split₂, tested⟩ := acceptTook tried
      have closes : c = marks.closing := of_decide_eq_true tested
      rw [split₁, split₂, closes] at one
      obtain ⟨text, split, read⟩ := reads _ _ _ one (followBlank followed spaced (Or.inr (Or.inr rfl)) _)
      exact ⟨text ++ (blank ++ [marks.closing]),by simp [split],.last read spaced⟩
    | false =>
      obtain ⟨split₂, _⟩ := acceptLeft tried
      obtain ⟨_, s₄, parted, done₄⟩ := bindDone.mp done₃
      obtain ⟨_, s₅, skipped', done₅⟩ := bindDone.mp done₄
      obtain ⟨others, s₆, all, done₆⟩ := bindDone.mp done₅
      obtain ⟨rfl, rfl⟩ := pureDone.mp done₆
      obtain ⟨blank', split₄, spaced'⟩ := skipBlankDone skipped'
      obtain ⟨tail, split₅, read'⟩ := ih all
      rw [split₁, ← split₂, expectDone parted, split₄, split₅] at one
      obtain ⟨text, split, read⟩ := reads _ _ _ one (followBlank followed spaced (Or.inr (Or.inl rfl)) _)
      exact ⟨text ++ (blank ++ marks.separator::(blank' ++ tail)),by simp [split],.more read spaced spaced' read'⟩

theorem sequenceRead (followed : ∀ c, marks.Follow c → follow c) (reads : Reads lang follow item)
    {s rest : List β} {values : List α} (done : marks.sequence item s = .done values rest) :
    ∃ text, s = text ++ rest ∧ marks.SequenceText lang values text := by
  unfold sequence at done
  obtain ⟨_, s₁, opened, done₁⟩ := bindDone.mp done
  obtain ⟨_, s₂, skipped, done₂⟩ := bindDone.mp done₁
  obtain ⟨closed, s₃, tried, done₃⟩ := bindDone.mp done₂
  obtain ⟨blank, split₁, spaced⟩ := skipBlankDone skipped
  have split := expectDone opened
  cases closed with
  | true =>
    obtain ⟨rfl, rfl⟩ := pureDone.mp done₃
    obtain ⟨c, split₂, tested⟩ := acceptTook tried
    have closes : c = marks.closing := of_decide_eq_true tested
    exact ⟨marks.opening::(blank ++ [marks.closing]),by simp [split, split₁, split₂, closes],.none spaced⟩
  | false =>
    obtain ⟨split₂, _⟩ := acceptLeft tried
    obtain ⟨s₄, s₅, here, done₄⟩ := bindDone.mp done₃
    cases here
    obtain ⟨tail, split₃, read⟩ := itemsRead followed reads done₄
    exact ⟨marks.opening::(blank ++ tail),by simp [split, split₁, ← split₂, split₃],.some spaced read⟩

theorem itemsTaken (followed : ∀ c, marks.Follow c → follow c) (starts : marks.Starts lang) {most passes : Nat}
    (takes : Takes lang follow most item) {values : List α} {text : List β}
    (offered : marks.ItemsText lang values text) (short : text.length ≤ most) (enough : text.length ≤ passes)
    (rest : List β) : marks.items item passes (text ++ rest) = .done values rest := by
  induction offered generalizing passes with
  | @last value text blank one spaced =>
    cases passes with
    | zero => simp at enough
    | succ passes =>
      have behind := followBlank followed spaced (Or.inr (Or.inr rfl)) rest
      have first := takes text value _ one (by simp at short; omega) behind
      have skipped := skipBlankStops spaced marks.closingNotBlank rest
      have closed := acceptTrue (fun c => decide (c = marks.closing)) (decide_eq_true rfl) rest
      unfold items
      simp only [List.append_assoc, List.cons_append, List.nil_append]
      rw [doneBind first, doneBind skipped, doneBind closed]
      rfl
  | @more value text blank blank' later tail one spaced spaced' next ih =>
    cases passes with
    | zero => simp at enough
    | succ passes =>
      simp only [List.length_append, List.length_cons] at short enough
      have behind := followBlank followed spaced (Or.inr (Or.inl rfl)) (blank' ++ (tail ++ rest))
      have first := takes text value _ one (by omega) behind
      have skipped := skipBlankStops spaced marks.separatorNotBlank (blank' ++ (tail ++ rest))
      have open' := acceptFalse (fun c => decide (c = marks.closing)) (decide_eq_false marks.apart)
        (blank' ++ (tail ++ rest))
      obtain ⟨_, c, others, same, plain, other⟩ := itemsNotEmpty starts next
      have skipped' : marks.skipBlank (blank' ++ (tail ++ rest)) = .done () (tail ++ rest) := by
        rw [same]
        exact skipBlankStops spaced' plain _
      have all := @ih passes (by omega) (by omega)
      unfold items
      simp only [List.append_assoc, List.cons_append]
      rw [doneBind first, doneBind skipped, doneBind open']
      simp only [Bool.false_eq_true, if_false]
      rw [doneBind (expectSame _ _), doneBind skipped', doneBind all]
      rfl

theorem sequenceTaken (followed : ∀ c, marks.Follow c → follow c) (starts : marks.Starts lang) {most : Nat}
    (takes : Takes lang follow most item) {values : List α} {text : List β}
    (offered : marks.SequenceText lang values text) (short : text.length ≤ most+1) (rest : List β) :
    marks.sequence item (text ++ rest) = .done values rest := by
  cases offered with
  | @none blank spaced =>
    have skipped := skipBlankStops spaced marks.closingNotBlank rest
    have closed := acceptTrue (fun c => decide (c = marks.closing)) (decide_eq_true rfl) rest
    unfold sequence
    simp only [List.cons_append, List.append_assoc, List.nil_append]
    rw [doneBind (expectSame _ _), doneBind skipped, doneBind closed]
    rfl
  | @some values blank tail spaced inner =>
    simp only [List.length_cons, List.length_append] at short
    obtain ⟨_, c, later, same, plain, other⟩ := itemsNotEmpty starts inner
    have skipped : marks.skipBlank (blank ++ (tail ++ rest)) = .done () (tail ++ rest) := by
      rw [same]
      exact skipBlankStops spaced plain _
    have open' : accept (fun c => decide (c = marks.closing)) (tail ++ rest) = .done false (tail ++ rest) := by
      rw [same]
      exact acceptFalse (fun c => decide (c = marks.closing)) (decide_eq_false other) (later ++ rest)
    have enough : tail.length ≤ (tail ++ rest).length := by simp
    have all := itemsTaken followed starts takes inner (by omega) enough rest
    unfold sequence
    simp only [List.cons_append, List.append_assoc]
    rw [doneBind (expectSame _ _), doneBind skipped, doneBind open']
    exact all

end Reading

section Cells
variable {cell : β} {lang : α → List β → Prop} {values : List α} {text : List β}

theorem blankWithout (blank : marks.blank cell = false) (spaced : marks.Blank text) : cell ∉ text := by
  intro inside
  have held := spaced cell inside
  rw [blank] at held
  cases held

theorem itemsWithout (blank : marks.blank cell = false) (separator : cell ≠ marks.separator)
    (closing : cell ≠ marks.closing) {most : Nat} (each : ∀ value text, lang value text → text.length ≤ most → cell ∉ text)
    (offered : marks.ItemsText lang values text) (short : text.length ≤ most) : cell ∉ text := by
  induction offered with
  | last item spaced =>
    simp only [List.length_append] at short
    have first := each _ _ item (by omega)
    have before := blankWithout blank spaced
    simp only [List.mem_append, List.mem_singleton, first, before, closing, or_self, not_false_eq_true]
  | more item spaced spaced' next ih =>
    simp only [List.length_append, List.length_cons] at short
    have first := each _ _ item (by omega)
    have before := blankWithout blank spaced
    have after := blankWithout blank spaced'
    have others := ih (by omega)
    simp only [List.mem_append, List.mem_cons, first, before, separator, after, others, or_self, not_false_eq_true]

theorem sequenceWithout (blank : marks.blank cell = false) (opening : cell ≠ marks.opening)
    (separator : cell ≠ marks.separator) (closing : cell ≠ marks.closing) {most : Nat}
    (each : ∀ value text, lang value text → text.length ≤ most → cell ∉ text)
    (offered : marks.SequenceText lang values text) (short : text.length ≤ most+1) : cell ∉ text := by
  cases offered with
  | none spaced =>
    have before := blankWithout blank spaced
    simp only [List.mem_append, List.mem_cons, List.not_mem_nil, opening, before, closing, or_self, not_false_eq_true]
  | some spaced items =>
    simp only [List.length_append, List.length_cons] at short
    have before := blankWithout blank spaced
    have inner := itemsWithout blank separator closing each items (by omega)
    simp only [List.mem_append, List.mem_cons, opening, before, inner, or_self, not_false_eq_true]

end Cells

section Memory
variable [DecidableEq β] {stop : β} {item : Reader β α}

theorem itemsSafe (blank : marks.blank stop = false) (separator : marks.separator ≠ stop)
    (closing : marks.closing ≠ stop) {most : Nat} (safe : Safe stop most 1 item) (passes : Nat) :
    ∀ fewer, fewer ≤ most → fewer ≤ passes → Safe stop fewer 1 (marks.items item passes) := by
  have notClosed : decide (stop = marks.closing) = false := decide_eq_false closing.symm
  induction passes with
  | zero =>
    intro fewer _ none s inside short
    have empty : s = [] := List.eq_nil_of_length_eq_zero (by omega)
    rw [empty] at inside
    cases inside
  | succ passes ih =>
    intro fewer less enough
    have tail := ih (fewer-1-1) (by omega) (by omega)
    have idle : ∀ n, Safe stop n 0 marks.skipBlank := fun _ => safeSkipWhile blank
    unfold items
    refine safeFirst (safeWeaken safe less (Nat.le_refl 1)) fun first => safeIdle (idle _) fun _ =>
      safeIdle (safeAccept notClosed) fun closed => ?_
    cases closed with
    | true => exact safePure [first]
    | false =>
      refine safeWeaken (safeFirst (safeExpect separator) fun _ => safeIdle (idle _) fun _ => ?_)
        (Nat.le_refl _) (Nat.zero_le 1)
      exact safeWeaken (safeFirst tail fun later => safePure (first::later)) (Nat.le_refl _) (Nat.zero_le 1)

theorem sequenceSafe (blank : marks.blank stop = false) (opening : marks.opening ≠ stop)
    (separator : marks.separator ≠ stop) (closing : marks.closing ≠ stop) {most : Nat}
    (safe : Safe stop most 1 item) : Safe stop (most+1) 1 (marks.sequence item) := by
  have notClosed : decide (stop = marks.closing) = false := decide_eq_false closing.symm
  unfold sequence
  refine safeFirst (safeExpect opening) fun _ => safeIdle (safeSkipWhile blank) fun _ =>
    safeIdle (safeAccept notClosed) fun closed => ?_
  cases closed with
  | true => exact safePure []
  | false =>
    intro s inside short
    have held := itemsSafe blank separator closing safe s.length s.length (by omega) (Nat.le_refl _)
    exact safeWeaken held (Nat.le_refl _) (Nat.zero_le _) s inside (Nat.le_refl _)

end Memory

end Marks

end Lib.Bracketed
