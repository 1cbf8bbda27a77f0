import PennDaq.JsonParse

/-! The grammar of JSON text with the value of each text, and that `json_decode` takes
exactly its documents, with their values, and reads nothing behind the closing zero. -/
namespace PennDaq.JsonGrammar
open Lib.Cursor Lib.Bracketed PennDaq.Utf8 PennDaq.JsonNumbers PennDaq.JsonText PennDaq.JsonStrings PennDaq.JsonParse

def Spaces (text : Text) : Prop := ∀ c ∈ text, isSpace c = true

section Grammar
variable {ν : Type}

inductive MemberText (lang : JsonNode ν → Text → Prop) : CText × JsonNode ν → Text → Prop where
  | mk {key value text blank blank' text'} (name : StringText key.bytes text) (spaced : Spaces blank)
    (spaced' : Spaces blank') (item : lang value text') :
    MemberText lang (key,value) (text ++ (blank ++ ':'.toUInt8::(blank' ++ text')))

inductive ValueText (doubles : Doubles ν) : JsonNode ν → Text → Prop where
  | null : ValueText doubles .null null
  | bool {value} : ValueText doubles (.bool value) (if value then true' else false')
  | string {str text} (offered : StringText str.bytes text) : ValueText doubles (.string str) text
  | number {text} (offered : NumberText text) : ValueText doubles (.number (doubles.strtod (text ++ [0]))) text
  | array {elements text} (offered : arrayMarks.SequenceText (ValueText doubles) elements text) :
    ValueText doubles (.array elements) text
  | object {members text} (offered : objectMarks.SequenceText (MemberText (ValueText doubles)) members text) :
    ValueText doubles (.object members) text

inductive DocumentText (doubles : Doubles ν) : JsonNode ν → Text → Prop where
  | mk {node blank text blank'} (spaced : Spaces blank) (value : ValueText doubles node text) (spaced' : Spaces blank') :
    DocumentText doubles node (blank ++ (text ++ blank'))

variable {doubles : Doubles ν}

theorem numberHead {text : Text} (offered : NumberText text) :
    ∃ c later, text = c::later ∧ (isDigit c = true ∨ isMinus c = true) := by
  cases offered with
  | plain first _ _ =>
    cases first with
    | zero => exact ⟨_,_,rfl,Or.inl (by decide)⟩
    | digits more _ => exact ⟨_,_,rfl,Or.inl (more.2 _ (by simp))⟩
  | minus _ _ _ => exact ⟨_,_,rfl,Or.inr (by decide)⟩

def Other (c : UInt8) : Prop :=
  c ≠ 'n'.toUInt8 ∧ c ≠ 'f'.toUInt8 ∧ c ≠ 't'.toUInt8 ∧ c ≠ '"'.toUInt8 ∧ c ≠ '['.toUInt8 ∧ c ≠ '{'.toUInt8

theorem numberApart : ∀ c, isDigit c = true ∨ isMinus c = true → Other c ∧ isSpace c = false ∧ c ≠ ']'.toUInt8 :=
  everyByte (by
    unfold Other
    decide +kernel)

theorem sequenceHead {α : Type} {marks : Marks UInt8} {lang : α → Text → Prop} {values : List α} {text : Text}
    (offered : marks.SequenceText lang values text) : ∃ later, text = marks.opening::later := by
  cases offered with
  | none | some => exact ⟨_,rfl⟩

theorem valueStarts : arrayMarks.Starts (ValueText doubles) := by
  intro node text offered
  cases offered with
  | null => exact ⟨_,_,rfl,by decide,by decide⟩
  | @bool value =>
    cases value with
    | false | true => exact ⟨_,_,rfl,by decide,by decide⟩
  | string offered =>
    cases offered with
    | mk => exact ⟨_,_,rfl,by decide,by decide⟩
  | number offered =>
    obtain ⟨c, later, rfl, first⟩ := numberHead offered
    obtain ⟨_, space, other⟩ := numberApart c first
    exact ⟨c,later,rfl,space,other⟩
  | array offered =>
    obtain ⟨later, rfl⟩ := sequenceHead offered
    exact ⟨_,_,rfl,by decide,by decide⟩
  | object offered =>
    obtain ⟨later, rfl⟩ := sequenceHead offered
    exact ⟨_,_,rfl,by decide,by decide⟩

theorem memberStarts {lang : JsonNode ν → Text → Prop} : objectMarks.Starts (MemberText lang) := by
  intro member text offered
  cases offered with
  | mk name _ _ _ =>
    cases name with
    | mk => exact ⟨_,_,rfl,by decide,by decide⟩

theorem memberReads {lang : JsonNode ν → Text → Prop} {follow : UInt8 → Prop} {value : Reader UInt8 (JsonNode ν)}
    (reads : Reads lang follow value) : Reads (MemberText lang) follow (parseMember value) := by
  intro s member rest done behind
  unfold parseMember at done
  obtain ⟨key, s₁, name, done₁⟩ := bindDone.mp done
  obtain ⟨_, s₂, skipped, done₂⟩ := bindDone.mp done₁
  obtain ⟨_, s₃, colon, done₃⟩ := bindDone.mp done₂
  obtain ⟨_, s₄, skipped', done₄⟩ := bindDone.mp done₃
  obtain ⟨item, s₅, one, done₅⟩ := bindDone.mp done₄
  obtain ⟨rfl, rfl⟩ := pureDone.mp done₅
  obtain ⟨text, split, named⟩ := parseStringRead name
  obtain ⟨blank, split₁, spaced, _⟩ := skipWhileDone skipped
  obtain ⟨blank', split₂, spaced', _⟩ := skipWhileDone skipped'
  obtain ⟨text', split₃, offered⟩ := reads _ _ _ one behind
  rw [split, split₁, expectDone colon, split₂, split₃]
  exact ⟨_,by simp,.mk named spaced spaced' offered⟩

theorem arrayFollowed (c : UInt8) (stands : arrayMarks.Follow c) : Delimiter c := by
  rcases stands with space | comma | bracket
  · exact Or.inl space
  · exact Or.inr (Or.inl comma)
  · exact Or.inr (Or.inr (Or.inl bracket))

theorem objectFollowed (c : UInt8) (stands : objectMarks.Follow c) : Delimiter c := by
  rcases stands with space | comma | brace
  · exact Or.inl space
  · exact Or.inr (Or.inl comma)
  · exact Or.inr (Or.inr (Or.inr (Or.inl brace)))

theorem valueReads (depth : Nat) : Reads (ValueText doubles) Delimiter (parseValue doubles depth) := by
  induction depth with
  | zero =>
    intro s node rest done _
    cases done
  | succ depth ih =>
    intro s node rest done behind
    unfold parseValue at done
    obtain ⟨c, s₁, peeked, done₁⟩ := bindDone.mp done
    have kept : s₁ = s := by
      cases s with
      | nil => cases peeked
      | cons d later =>
        cases peeked
        rfl
    rw [kept] at done₁
    split at done₁
    case isTrue =>
      obtain ⟨_, s₂, word, done₂⟩ := bindDone.mp done₁
      obtain ⟨rfl, rfl⟩ := pureDone.mp done₂
      exact ⟨_,literalDone word,.null⟩
    case isFalse =>
    split at done₁
    case isTrue =>
      obtain ⟨_, s₂, word, done₂⟩ := bindDone.mp done₁
      obtain ⟨rfl, rfl⟩ := pureDone.mp done₂
      exact ⟨_,literalDone word,.bool⟩
    case isFalse =>
    split at done₁
    case isTrue =>
      obtain ⟨_, s₂, word, done₂⟩ := bindDone.mp done₁
      obtain ⟨rfl, rfl⟩ := pureDone.mp done₂
      exact ⟨_,literalDone word,.bool⟩
    case isFalse =>
    split at done₁
    case isTrue =>
      obtain ⟨str, s₂, read, done₂⟩ := bindDone.mp done₁
      obtain ⟨rfl, rfl⟩ := pureDone.mp done₂
      obtain ⟨text, same, offered⟩ := parseStringRead read
      exact ⟨text,same,.string offered⟩
    case isFalse =>
    split at done₁
    case isTrue =>
      obtain ⟨elements, s₂, read, done₂⟩ := bindDone.mp done₁
      obtain ⟨rfl, rfl⟩ := pureDone.mp done₂
      obtain ⟨text, same, offered⟩ := Marks.sequenceRead arrayFollowed ih read
      exact ⟨text,same,.array offered⟩
    case isFalse =>
    split at done₁
    case isTrue =>
      obtain ⟨members, s₂, read, done₂⟩ := bindDone.mp done₁
      obtain ⟨rfl, rfl⟩ := pureDone.mp done₂
      obtain ⟨text, same, offered⟩ := Marks.sequenceRead objectFollowed (memberReads ih) read
      exact ⟨text,same,.object offered⟩
    case isFalse =>
      obtain ⟨num, s₂, read, done₂⟩ := bindDone.mp done₁
      obtain ⟨rfl, rfl⟩ := pureDone.mp done₂
      obtain ⟨text, same, offered, rfl⟩ := parseNumberRead read
      rw [same, doubles.stops text _ offered behind]
      exact ⟨text,rfl,.number offered⟩

theorem skipSpaceStops {blank : Text} {c : UInt8} (spaced : Spaces blank) (stops : isSpace c = false) (later : Text) :
    skipSpace (blank ++ c::later) = .done () (c::later) := skipWhileStops spaced stops

theorem memberTakes {follow : UInt8 → Prop} {value : Reader UInt8 (JsonNode ν)} {most : Nat}
    (takes : Takes (ValueText doubles) follow most value) :
    Takes (MemberText (ValueText doubles)) follow most (parseMember value) := by
  intro text member rest offered short behind
  cases offered with
  | @mk key item text blank blank' text' name spaced spaced' offered =>
    obtain ⟨c, later, head, space, _⟩ := valueStarts _ _ offered
    have one := takes text' item rest offered (by simp at short; omega) behind
    have named := parseStringTaken name (blank ++ ':'.toUInt8::(blank' ++ (text' ++ rest)))
    have skipped := skipSpaceStops spaced (by decide) (blank' ++ (text' ++ rest)) (c := ':'.toUInt8)
    have skipped' : skipSpace (blank' ++ (text' ++ rest)) = .done () (text' ++ rest) := by
      rw [head]
      exact skipSpaceStops spaced' space (later ++ rest)
    unfold parseMember
    simp only [List.append_assoc, List.cons_append]
    rw [doneBind named, doneBind skipped, doneBind (expectSame _ _), doneBind skipped', doneBind one]
    rfl

theorem valueTakes (depth : Nat) : Takes (ValueText doubles) Delimiter depth (parseValue doubles depth) := by
  induction depth with
  | zero =>
    intro text node rest offered short _
    obtain ⟨c, later, rfl, _⟩ := valueStarts _ _ offered
    simp at short
  | succ depth ih =>
    intro text node rest offered short behind
    unfold parseValue
    cases offered with
    | null =>
      refine (doneBind (peekDone _ _)).trans ?_
      rw [if_pos rfl]
      exact doneBind (literalSame null rest)
    | @bool value =>
      cases value with
      | false =>
        refine (doneBind (peekDone _ _)).trans ?_
        rw [if_neg (by decide), if_pos rfl]
        exact doneBind (literalSame false' rest)
      | true =>
        refine (doneBind (peekDone _ _)).trans ?_
        rw [if_neg (by decide), if_neg (by decide), if_pos rfl]
        exact doneBind (literalSame true' rest)
    | string offered =>
      have read := parseStringTaken offered rest
      cases offered with
      | mk =>
        refine (doneBind (peekDone _ _)).trans ?_
        rw [if_neg (by decide), if_neg (by decide), if_neg (by decide), if_pos rfl]
        exact doneBind read
    | array offered =>
      have read := Marks.sequenceTaken arrayFollowed valueStarts ih offered short rest
      obtain ⟨later, rfl⟩ := sequenceHead offered
      refine (doneBind (peekDone _ _)).trans ?_
      rw [if_neg (by decide), if_neg (by decide), if_neg (by decide), if_neg (by decide), if_pos (by decide)]
      exact doneBind read
    | object offered =>
      have read := Marks.sequenceTaken objectFollowed memberStarts (memberTakes ih) offered short rest
      obtain ⟨later, rfl⟩ := sequenceHead offered
      refine (doneBind (peekDone _ _)).trans ?_
      rw [if_neg (by decide), if_neg (by decide), if_neg (by decide), if_neg (by decide), if_neg (by decide),
        if_pos (by decide)]
      exact doneBind read
    | number offered =>
      have behind' : Follows AfterExponent rest := behind.imp fun c => by
        intro ⟨later, same, delimiter⟩
        exact ⟨later,same,delimiterEnds c delimiter⟩
      have read := parseNumberTaken doubles.strtod offered behind'
      rw [doubles.stops text rest offered behind] at read
      obtain ⟨c, later, rfl, first⟩ := numberHead offered
      obtain ⟨⟨n, f, t, quote, bracket, brace⟩, _⟩ := numberApart c first
      refine (doneBind (peekDone _ _)).trans ?_
      rw [if_neg n, if_neg f, if_neg t, if_neg quote, if_neg bracket, if_neg brace]
      exact doneBind read

theorem memberSafe {value : Reader UInt8 (JsonNode ν)} {most : Nat} (safe : Safe 0 most 1 value) :
    Safe 0 most 1 (parseMember value) := by
  have space : ∀ n, Safe 0 n 0 skipSpace := fun _ => safeSkipWhile (by decide)
  refine safeFirst parseStringSafe fun key => safeIdle (space _) fun _ => ?_
  refine safeWeaken (safeFirst (safeExpect (by decide)) fun _ => safeIdle (space _) fun _ => ?_) (Nat.le_refl _)
    (Nat.zero_le 1)
  exact safeWeaken (safeFirst safe fun value => safePure (key,value)) (by omega) (Nat.zero_le 1)

theorem valueSafe (depth : Nat) : Safe 0 depth 1 (parseValue doubles depth) := by
  induction depth with
  | zero =>
    intro s inside short
    have empty : s = [] := List.eq_nil_of_length_eq_zero (by omega)
    rw [empty] at inside
    cases inside
  | succ depth ih =>
    have word : ∀ (text : Text) (node : JsonNode ν), 1 ≤ text.length → 0 ∉ text →
        Safe 0 (depth+1) 1 (do literal text; return node : Reader UInt8 (JsonNode ν)) := fun text node some apart => by
      have safe : Safe 0 (depth+1) text.length (literal text) :=
        safeLiteral fun c inside same => apart (same ▸ inside)
      exact safeWeaken (safeFirst safe fun _ => safePure node) (Nat.le_refl _) some
    unfold parseValue
    refine safeIdle safePeek fun c => ?_
    split
    case isTrue => exact word null .null (by decide) (by decide)
    case isFalse =>
    split
    case isTrue => exact word false' (.bool false) (by decide) (by decide)
    case isFalse =>
    split
    case isTrue => exact word true' (.bool true) (by decide) (by decide)
    case isFalse =>
    split
    case isTrue => exact safeFirst parseStringSafe fun str => safePure (JsonNode.string str)
    case isFalse =>
    split
    case isTrue =>
      exact safeFirst (Marks.sequenceSafe (by decide) (by decide) (by decide) (by decide) ih) fun elements =>
        safePure (JsonNode.array elements)
    case isFalse =>
    split
    case isTrue =>
      exact safeFirst (Marks.sequenceSafe (by decide) (by decide) (by decide) (by decide) (memberSafe ih)) fun members =>
        safePure (JsonNode.object members)
    case isFalse => exact safeFirst (parseNumberSafe doubles.strtod) fun num => safePure (JsonNode.number num)

theorem closedAt {bytes front later : Text} (apart : 0 ∉ bytes) (same : bytes ++ [0] = front ++ 0::later) :
    bytes = front ∧ later = [] := by
  rcases List.append_eq_append_iff.mp same with ⟨tail, rfl, rest⟩ | ⟨tail, split, rest⟩
  · cases tail with
    | nil => exact ⟨by simp,(List.cons.inj rest).2.symm⟩
    | cons c tail => simp at rest
  · cases tail with
    | nil => exact ⟨by rw [split]; simp,(List.cons.inj rest).2⟩
    | cons c tail =>
      rw [List.cons_append, List.cons.injEq] at rest
      exact absurd (by rw [split, ← rest.1]; simp) apart

theorem decodeDone {json : CText} {node : JsonNode ν} {rest : Text}
    (done : jsonDecode doubles json.memory = .done node rest) : rest = [0] ∧ DocumentText doubles node json.bytes := by
  unfold jsonDecode at done
  obtain ⟨_, s₁, skipped, done₁⟩ := bindDone.mp done
  obtain ⟨ret, s₂, value, done₂⟩ := bindDone.mp done₁
  obtain ⟨_, s₃, skipped', done₃⟩ := bindDone.mp done₂
  obtain ⟨c, s₄, peeked, done₄⟩ := bindDone.mp done₃
  obtain ⟨blank, split₁, spaced, _⟩ := skipWhileDone skipped
  obtain ⟨blank', split₂, spaced', d, later, split₃, _⟩ := skipWhileDone skipped'
  rw [split₃] at peeked
  cases peeked
  split at done₄
  case isFalse => cases done₄
  case isTrue zero =>
    obtain ⟨rfl, rfl⟩ := pureDone.mp done₄
    subst zero
    have behind : Follows Delimiter s₂ := by
      rw [split₂, split₃]
      cases blank' with
      | nil => exact ⟨0,later,rfl,by simp [Delimiter]⟩
      | cons e blank' => exact ⟨e,_,rfl,Or.inl (spaced' e (by simp))⟩
    obtain ⟨text, split, offered⟩ := valueReads _ _ _ _ value behind
    rw [split, split₂, split₃] at split₁
    have whole : json.bytes ++ [0] = (blank ++ (text ++ blank')) ++ 0::later := by
      rw [← CText.memory, split₁]
      simp
    obtain ⟨same, rfl⟩ := closedAt json.apart whole
    rw [same]
    exact ⟨rfl,.mk spaced offered spaced'⟩

theorem decodeTakes {json : CText} {node : JsonNode ν} (offered : DocumentText doubles node json.bytes) :
    jsonDecode doubles json.memory = .done node [0] := by
  have zeroNotSpace : isSpace 0 = false := by decide
  generalize bytes : json.bytes = text at offered
  cases offered with
  | @mk blank text blank' spaced value spaced' =>
    have memory : json.memory = blank ++ (text ++ (blank' ++ [0])) := by
      rw [CText.memory, bytes]
      simp
    obtain ⟨c, later, head, space, _⟩ := valueStarts _ _ value
    have skipped : skipSpace json.memory = .done () (text ++ (blank' ++ [0])) := by
      rw [memory, head]
      exact skipSpaceStops spaced space _
    have behind : Follows Delimiter (blank' ++ [0]) := by
      cases blank' with
      | nil => exact ⟨0,[],rfl,by simp [Delimiter]⟩
      | cons e blank' => exact ⟨e,_,rfl,Or.inl (spaced' e (by simp))⟩
    have deep : text.length ≤ json.memory.length := by
      rw [memory]
      simp
      omega
    have read := valueTakes json.memory.length text node (blank' ++ [0]) value deep behind
    have skipped' := skipSpaceStops spaced' zeroNotSpace []
    unfold jsonDecode
    rw [doneBind skipped, doneBind read, doneBind skipped', doneBind (peekDone _ _), if_pos rfl]
    rfl

theorem decodeSafe (doubles : Doubles ν) (json : CText) : (jsonDecode doubles json.memory).Within 0 0 json.memory := by
  have space : ∀ n, Safe 0 n 0 skipSpace := fun _ => safeSkipWhile (by decide)
  have inside : 0 ∈ json.memory := by
    rw [CText.memory]
    simp
  have safe : Safe 0 json.memory.length 0 (do
      skipSpace
      let ret ← parseValue doubles json.memory.length
      skipSpace
      let c ← peek
      if c = 0 then return ret else fail : Reader UInt8 (JsonNode ν)) := by
    refine safeIdle (space _) fun _ => ?_
    refine safeWeaken (safeFirst (valueSafe _) fun ret => ?_) (Nat.le_refl _) (Nat.zero_le 1)
    refine safeIdle (space _) fun _ => safeIdle safePeek fun c => ?_
    split
    case isTrue => exact safePure ret
    case isFalse => exact safeFail
  exact safe _ inside (Nat.le_refl _)

theorem decodeFails {json : CText} (none : ¬∃ node, DocumentText doubles node json.bytes) :
    jsonDecode doubles json.memory = .failed := by
  have within := decodeSafe doubles json
  cases decoded : jsonDecode doubles json.memory with
  | failed => rfl
  | fault | starved =>
    rw [decoded] at within
    exact within.elim
  | done node rest => exact absurd ⟨node,(decodeDone decoded).2⟩ none

/- Each text is either a document, which gives its one value, or refused. -/
theorem jsonDecodeExact (doubles : Doubles ν) (json : CText) :
    (∀ node, jsonDecode doubles json.memory = .done node [0] ↔ DocumentText doubles node json.bytes) ∧
      (jsonDecode doubles json.memory = .failed ↔ ¬∃ node, DocumentText doubles node json.bytes) := by
  refine ⟨fun node => ⟨fun done => (decodeDone done).2,decodeTakes⟩,?_,decodeFails⟩
  intro refused ⟨node, offered⟩
  rw [decodeTakes offered] at refused
  cases refused

end Grammar

end PennDaq.JsonGrammar
