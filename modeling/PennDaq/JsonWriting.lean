import PennDaq.JsonGrammar

/-! What the JSON library writes for a value is a text of the grammar, unless a string of it
holds the byte 0x1F, which is written as it stands. -/
namespace PennDaq.JsonWriting
open Lib.Bracketed PennDaq.Utf8 PennDaq.StringBuffer PennDaq.JsonNumbers PennDaq.JsonText PennDaq.JsonStrings
open PennDaq.JsonParse PennDaq.JsonGrammar

/- A text with no zero byte, of the language if what it is written for is clean, and with the
byte 0x1F in it if not. -/
structure Written (clean : Prop) (lang : Text → Prop) (text : Text) : Prop where
  apart : 0 ∉ text
  derived : clean → lang text
  control : ¬clean → 0x1F ∈ text

def Writes (emit : Emit) (valid clean : Prop) (lang : Text → Prop) : Prop :=
  (valid ∧ ∃ text, Emits emit text ∧ Written clean lang text) ∨ (¬valid ∧ ∀ sb, emit sb = none)

section Parts
variable {first second : Emit} {valid valid' clean clean' : Prop} {lang lang' : Text → Prop}

theorem writesText {emit : Emit} {text : Text} (emits : Emits emit text) (apart : 0 ∉ text) :
    Writes emit True True (· = text) :=
  Or.inl ⟨trivial,text,emits,apart,fun _ => rfl,fun not => absurd trivial not⟩

theorem writesAlso (one : Writes first valid clean lang) (two : Writes second valid' clean' lang') :
    Writes (also first second) (valid ∧ valid') (clean ∧ clean') fun text =>
      ∃ front back, text = front ++ back ∧ lang front ∧ lang' back := by
  rcases one with ⟨ok, text, emits, apart, derived, control⟩ | ⟨bad, none⟩
  · rcases two with ⟨ok', text', emits', apart', derived', control'⟩ | ⟨bad', none'⟩
    · refine Or.inl ⟨⟨ok,ok'⟩,text ++ text',emitsAlso emits emits',?_,?_,?_⟩
      · simp [apart, apart']
      · exact fun ⟨c, c'⟩ => ⟨text,text',rfl,derived c,derived' c'⟩
      · intro dirty
        rcases not_and_or.mp dirty with no | no
        · exact List.mem_append_left _ (control no)
        · exact List.mem_append_right _ (control' no)
    · refine Or.inr ⟨fun both => bad' both.2,fun sb => ?_⟩
      obtain ⟨sb', done, _⟩ := emits sb
      rw [also, done, Option.bind_some, none']
  · refine Or.inr ⟨fun both => bad both.1,fun sb => ?_⟩
    rw [also, none]
    rfl

theorem writesSame {emit : Emit} (writes : Writes emit valid clean lang) (sameValid : valid ↔ valid')
    (sameClean : clean ↔ clean') (derives : ∀ text, lang text → lang' text) : Writes emit valid' clean' lang' := by
  rcases writes with ⟨ok, text, emits, apart, derived, control⟩ | ⟨bad, none⟩
  · exact Or.inl ⟨sameValid.mp ok,text,emits,apart,fun c => derives text (derived (sameClean.mpr c)),
      fun dirty => control fun c => dirty (sameClean.mp c)⟩
  · exact Or.inr ⟨fun ok => bad (sameValid.mpr ok),none⟩

end Parts

def Valid (str : CText) : Prop := ∃ chars, str.bytes = encode chars

def Clean (str : CText) : Prop := 0x1F ∉ str.bytes

theorem shortEscapeBack : ∀ c letter, shortEscape c = some letter → escape letter = some (.byte c) := by
  intro c letter short
  have all := everyByte (P := fun c => (shortEscape c).all (fun letter => escape letter = some (.byte c)) = true)
    (by decide +kernel) c
  rw [short, Option.all_some] at all
  exact of_decide_eq_true all

theorem shortEscapeNone : ∀ c, shortEscape c = none → c.toNat ≠ 0x22 ∧ c.toNat ≠ 0x5C := everyByte (by decide +kernel)

theorem escapedText {c : Char} (notZero : c.val.toNat ≠ 0) (clean : c.val.toNat ≠ 0x1F) :
    CharText (String.utf8EncodeChar c) (escaped c) := by
  unfold escaped
  rcases Nat.lt_or_ge 0x7F c.val.toNat with high | low
  · rw [if_neg (by omega)]
    exact .plain (by omega) (by omega) (by omega)
  · have byte := lowByte low
    rw [if_pos low, escapedLow]
    cases short : shortEscape (UInt8.ofNat c.val.toNat) with
    | some letter =>
      rw [encodeLow low]
      exact .short (shortEscapeBack _ _ short)
    | none =>
      have apart := shortEscapeNone _ short
      rw [byte] at apart
      dsimp only
      split
      case isTrue control =>
        refine .code (hexTextWritten _) (by rw [UInt8.toNat_toUInt16, byte]) fun zero => notZero ?_
        rw [← byte, ← UInt8.toNat_toUInt16, zero]
        rfl
      case isFalse control =>
        rw [UInt8.lt_iff_toNat_lt, byte] at control
        change ¬c.val.toNat < 31 at control
        have plain : CharText (String.utf8EncodeChar c) (String.utf8EncodeChar c) :=
          .plain (by omega) apart.1 apart.2
        rwa [encodeLow low] at plain ⊢

theorem escapedControl {c : Char} (control : c.val.toNat = 0x1F) : 0x1F ∈ escaped c := by
  unfold escaped
  rw [control, if_pos (by decide)]
  decide

theorem escapedApart {c : Char} (notZero : c.val.toNat ≠ 0) : 0 ∉ escaped c := by
  unfold escaped
  split
  case isTrue low =>
    have all : ∀ c : UInt8, c.toNat ≠ 0 → 0 ∉ escapedLow c := everyByte (by decide +kernel)
    exact all _ (by rwa [lowByte low])
  case isFalse => exact zeroNotEncoded notZero

theorem quotedText {chars : List Char} (apart : ∀ c ∈ chars, c.val.toNat ≠ 0) (clean : 0x1F ∉ encode chars) :
    CharsText (encode chars) (chars.flatMap escaped) := by
  induction chars with
  | nil => exact .none
  | cons c chars ih =>
    obtain ⟨notZero, others⟩ := List.forall_mem_cons.mp apart
    rw [encodeCons, List.mem_append, not_or] at clean
    rw [encodeCons, List.flatMap_cons]
    refine .more (escapedText notZero fun control => clean.1 ?_) (ih others clean.2)
    rw [encodeLow (by omega), control]
    decide

theorem validChars {str : CText} {chars : List Char} (same : str.bytes = encode chars) : ∀ c ∈ chars, c.val.toNat ≠ 0 := by
  intro c member zero
  refine str.apart ?_
  rw [same]
  refine List.mem_flatMap.mpr ⟨c,member,?_⟩
  rw [encodeLow (by omega), zero]
  decide

theorem writesString (str : CText) :
    Writes (emitString str.memory) (Valid str) (Clean str) (StringText str.bytes) := by
  rcases Classical.em (Valid str) with valid | invalid
  · obtain ⟨chars, same⟩ := valid
    have apart := validChars same
    refine Or.inl ⟨⟨chars,same⟩,quoted chars,by rw [CText.memory, same]; exact emitStringQuoted apart,?_,?_,?_⟩
    · simp only [quoted, List.mem_cons, List.mem_append, List.mem_flatMap, not_or, not_exists, not_and]
      exact ⟨by decide,fun c member => escapedApart (apart c member),by decide,by simp⟩
    · intro clean
      rw [Clean, same] at clean
      rw [same]
      exact .mk (quotedText apart clean)
    · intro dirty
      rw [Clean, same, not_not] at dirty
      obtain ⟨c, member, inside⟩ := List.mem_flatMap.mp dirty
      have control := escapedControl (lowEncoded inside (by decide))
      exact List.mem_cons_of_mem _ (List.mem_append_left _ (List.mem_flatMap.mpr ⟨c,member,control⟩))
  · exact Or.inr ⟨invalid,emitStringInvalid str.apart invalid⟩

structure Apart (marks : Marks UInt8) : Prop where
  blank : marks.blank 0 = false
  opening : 0 ≠ marks.opening
  separator : 0 ≠ marks.separator
  closing : 0 ≠ marks.closing

theorem spacesApart {marks : Marks UInt8} (marksApart : Apart marks) {text : Text} (spaced : marks.Blank text) :
    0 ∉ text := Marks.blankWithout marksApart.blank spaced

structure Layout (marks : Marks UInt8) where
  opens : Emit
  before : Emit
  between : Emit
  last : Emit
  closes : Emit
  inside : Text
  front : Text
  middle : Text
  back : Text
  outside : Text
  emitsInside : Emits opens (marks.opening::inside)
  emitsFront : Emits before front
  emitsMiddle : Emits between (marks.separator::middle)
  emitsBack : Emits last back
  emitsOutside : Emits closes (outside ++ [marks.closing])
  spacedInside : marks.Blank inside
  spacedFront : marks.Blank front
  spacedMiddle : marks.Blank middle
  spacedBack : marks.Blank back
  spacedOutside : marks.Blank outside

namespace Layout
variable {α γ : Type} {marks : Marks UInt8} (layout : Layout marks) (item : α → Emit)

def emitItems : List α → Emit
  | [] => nothing
  | a::next => also layout.before (also (item a)
    (also (if next.isEmpty then layout.last else layout.between) (emitItems next)))

def emit (values : List α) : Emit := also layout.opens (also (layout.emitItems item values) layout.closes)

variable {lang : γ → Text → Prop} {value : α → γ} {valid clean : α → Prop} {item}

theorem writesItems (marksApart : Apart marks) {values : List α} (some : values ≠ [])
    (each : ∀ a ∈ values, Writes (item a) (valid a) (clean a) (lang (value a))) :
    Writes (layout.emitItems item values) (∀ a ∈ values, valid a) (∀ a ∈ values, clean a) fun text =>
      ∃ inner, text = layout.front ++ inner ∧ ∀ blank, marks.Blank blank →
        marks.ItemsText lang (values.map value) (inner ++ (blank ++ [marks.closing])) := by
  have writesFront := writesText layout.emitsFront (spacesApart marksApart layout.spacedFront)
  have writesBack := writesText layout.emitsBack (spacesApart marksApart layout.spacedBack)
  have apart : 0 ∉ marks.separator::layout.middle :=
    List.not_mem_cons_of_ne_of_not_mem marksApart.separator (spacesApart marksApart layout.spacedMiddle)
  have writesMiddle := writesText layout.emitsMiddle apart
  have writesNothing := writesText emitsNothing (by simp)
  induction values with
  | nil => exact absurd rfl some
  | cons a next ih =>
    obtain ⟨first, others⟩ := List.forall_mem_cons.mp each
    cases next with
    | nil =>
      refine writesSame (writesAlso writesFront (writesAlso first (writesAlso writesBack writesNothing))) (by simp)
        (by simp) ?_
      intro text written
      obtain ⟨_, _, same, rfl, text', _, rfl, offered, _, _, rfl, rfl, rfl⟩ := written
      refine ⟨_,same,fun blank spaced => ?_⟩
      have derived : marks.ItemsText lang [value a] (text' ++ (layout.back ++ blank ++ [marks.closing])) :=
        .last offered (Marks.blankAppend layout.spacedBack spaced)
      simpa using derived
    | cons b next =>
      refine writesSame (writesAlso writesFront (writesAlso first (writesAlso writesMiddle (ih (by simp) others))))
        (by simp) (by simp) ?_
      intro text written
      obtain ⟨_, _, same, rfl, text', _, rfl, offered, _, _, rfl, rfl, inner, rfl, more⟩ := written
      refine ⟨_,same,fun blank spaced => ?_⟩
      have derived : marks.ItemsText lang (value a::(b::next).map value) (text' ++
          ([] ++ marks.separator::(layout.middle ++ layout.front ++ (inner ++ (blank ++ [marks.closing]))))) :=
        .more offered (by simp [Marks.Blank]) (Marks.blankAppend layout.spacedMiddle layout.spacedFront)
          (more blank spaced)
      simpa using derived

theorem writesSequence (marksApart : Apart marks) {values : List α} (some : values ≠ [])
    (each : ∀ a ∈ values, Writes (item a) (valid a) (clean a) (lang (value a))) :
    Writes (layout.emit item values) (∀ a ∈ values, valid a) (∀ a ∈ values, clean a)
      (marks.SequenceText lang (values.map value)) := by
  have items := layout.writesItems marksApart some each
  have apart : 0 ∉ marks.opening::layout.inside :=
    List.not_mem_cons_of_ne_of_not_mem marksApart.opening (spacesApart marksApart layout.spacedInside)
  have apart' : 0 ∉ layout.outside ++ [marks.closing] := by
    have outside := spacesApart marksApart layout.spacedOutside
    simp [outside, marksApart.closing]
  have writesOpen := writesText layout.emitsInside apart
  have writesClose := writesText layout.emitsOutside apart'
  refine writesSame (writesAlso writesOpen (writesAlso items writesClose)) (by simp) (by simp) ?_
  intro text written
  obtain ⟨_, _, same, rfl, _, _, rfl, ⟨inner, rfl, derived⟩, rfl⟩ := written
  have sequence : marks.SequenceText lang (values.map value)
      (marks.opening::(layout.inside ++ layout.front ++ (inner ++ (layout.outside ++ [marks.closing])))) :=
    .some (Marks.blankAppend layout.spacedInside layout.spacedFront) (derived layout.outside layout.spacedOutside)
  rw [same]
  simpa using sequence

end Layout

end PennDaq.JsonWriting
