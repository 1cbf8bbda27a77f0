import Mathlib.Data.List.Basic

/-! Readers that move a pointer through memory in which a sentinel closes the text. The
memory is the list of cells from the pointer on, and a read behind its last cell is a
fault. -/
namespace Lib.Cursor

inductive Outcome (β α : Type) where
  | done (value : α) (rest : List β)
  | failed
  | fault
  /- A loop was cut off. -/
  | starved
  deriving DecidableEq

def Reader (β α : Type) := List β → Outcome β α

variable {β α γ : Type}

def Outcome.bind (outcome : Outcome β α) (next : α → Reader β γ) : Outcome β γ :=
  match outcome with
  | .done value rest => next value rest
  | .failed => .failed
  | .fault => .fault
  | .starved => .starved

instance : Monad (Reader β) where
  pure value := fun s => .done value s
  bind p next := fun s => (p s).bind next

def fail : Reader β α := fun _ => .failed

def starve : Reader β α := fun _ => .starved

def here : Reader β (List β) := fun s => .done s s

def peek : Reader β β
  | [] => .fault
  | c::later => .done c (c::later)

/- One cell is read and passed; whether it is taken is decided after that. -/
def take (f : β → Option α) : Reader β α
  | [] => .fault
  | c::later => match f c with
    | some value => .done value later
    | none => .failed

def accept (p : β → Bool) : Reader β Bool
  | [] => .fault
  | c::later => if p c then .done true later else .done false (c::later)

def skipWhile (p : β → Bool) : Reader β Unit
  | [] => .fault
  | c::later => if p c then skipWhile p later else .done () (c::later)

def require (p : β → Bool) : Reader β Unit := take fun c => if p c then some () else none

def expect [DecidableEq β] (wanted : β) : Reader β Unit := require fun c => decide (c = wanted)

def literal [DecidableEq β] : List β → Reader β Unit
  | [] => pure ()
  | c::later => do
    expect c
    literal later

section Steps
variable {p : Reader β α} {next : α → Reader β γ} {s rest : List β} {value : α}

theorem bindDone {after : γ} : (p >>= next) s = .done after rest ↔
    ∃ value mid, p s = .done value mid ∧ next value mid = .done after rest := by
  change (p s).bind next = _ ↔ _
  cases p s with
  | done value mid => simp [Outcome.bind]
  | failed | fault | starved => simp [Outcome.bind]

theorem doneBind {mid : List β} (first : p s = .done value mid) : (p >>= next) s = next value mid := by
  change (p s).bind next = _
  rw [first]
  rfl

@[simp] theorem pureDone {after : α} :
    (pure value : Reader β α) s = .done after rest ↔ value = after ∧ s = rest := by
  change Outcome.done value s = _ ↔ _
  rw [Outcome.done.injEq]

theorem takeSome {f : β → Option α} {c : β} (taken : f c = some value) (later : List β) :
    take f (c::later) = .done value later := by
  simp only [take, taken]

theorem takeNone {f : β → Option α} {c : β} (taken : f c = none) (later : List β) :
    take f (c::later) = .failed := by
  simp only [take, taken]

theorem takeDone {f : β → Option α} (done : take f s = .done value rest) :
    ∃ c, s = c::rest ∧ f c = some value := by
  cases s with
  | nil => cases done
  | cons c later =>
    cases taken : f c with
    | none =>
      rw [takeNone taken] at done
      cases done
    | some v =>
      rw [takeSome taken] at done
      cases done
      exact ⟨c,rfl,taken⟩

theorem takeBindDone {f : β → Option α} {after : γ} (done : (take f >>= next) s = .done after rest) :
    ∃ c later value, s = c::later ∧ f c = some value ∧ next value later = .done after rest := by
  obtain ⟨value, later, taken, last⟩ := bindDone.mp done
  obtain ⟨c, same, some⟩ := takeDone taken
  exact ⟨c,later,value,same,some,last⟩

theorem acceptTrue (test : β → Bool) {c : β} (tested : test c = true) (later : List β) :
    accept test (c::later) = .done true later := by
  rw [accept, if_pos tested]

theorem acceptFalse (test : β → Bool) {c : β} (tested : test c = false) (later : List β) :
    accept test (c::later) = .done false (c::later) := by
  rw [accept, if_neg (by simp [tested])]

theorem acceptTook {test : β → Bool} (done : accept test s = .done true rest) :
    ∃ c, s = c::rest ∧ test c = true := by
  cases s with
  | nil => cases done
  | cons c later =>
    cases tested : test c with
    | false =>
      rw [acceptFalse test tested] at done
      cases done
    | true =>
      rw [acceptTrue test tested] at done
      cases done
      exact ⟨c,rfl,tested⟩

theorem acceptLeft {test : β → Bool} (done : accept test s = .done false rest) :
    rest = s ∧ ∃ c later, s = c::later ∧ test c = false := by
  cases s with
  | nil => cases done
  | cons c later =>
    cases tested : test c with
    | false =>
      rw [acceptFalse test tested] at done
      cases done
      exact ⟨rfl,c,later,rfl,tested⟩
    | true =>
      rw [acceptTrue test tested] at done
      cases done

theorem skipWhileDone {test : β → Bool} {answer : Unit} (done : skipWhile test s = .done answer rest) :
    ∃ skipped, s = skipped ++ rest ∧ (∀ c ∈ skipped, test c = true) ∧
      ∃ c later, rest = c::later ∧ test c = false := by
  induction s with
  | nil => cases done
  | cons c later ih =>
    unfold skipWhile at done
    split at done
    case isTrue tested =>
      obtain ⟨skipped, rfl, all, stops⟩ := ih done
      exact ⟨c::skipped,rfl,List.forall_mem_cons.mpr ⟨tested,all⟩,stops⟩
    case isFalse tested =>
      injection done with _ same
      exact ⟨[],same,by simp,c,later,same.symm,by simpa using tested⟩

theorem skipWhileStops {test : β → Bool} {skipped : List β} {c : β} {later : List β}
    (all : ∀ d ∈ skipped, test d = true) (stops : test c = false) :
    skipWhile test (skipped ++ c::later) = .done () (c::later) := by
  induction skipped with
  | nil => rw [List.nil_append, skipWhile, if_neg (by simp [stops])]
  | cons d skipped ih =>
    obtain ⟨first, all⟩ := List.forall_mem_cons.mp all
    rw [List.cons_append, skipWhile, if_pos first]
    exact ih all

theorem peekDone (c : β) (later : List β) : peek (c::later) = .done c (c::later) := rfl

theorem hereDone : (here : Reader β (List β)) s = .done s s := rfl

theorem requireTrue (test : β → Bool) {c : β} (tested : test c = true) (later : List β) :
    require test (c::later) = .done () later := by
  simp [require, take, tested]

theorem requireDone {test : β → Bool} {answer : Unit} (done : require test s = .done answer rest) :
    ∃ c, s = c::rest ∧ test c = true := by
  obtain ⟨c, same, taken⟩ := takeDone done
  split at taken
  case isTrue tested => exact ⟨c,same,tested⟩
  case isFalse => cases taken

theorem expectSame [DecidableEq β] (wanted : β) (later : List β) :
    expect wanted (wanted::later) = .done () later :=
  requireTrue (fun c => decide (c = wanted)) (decide_eq_true rfl) later

theorem expectDone [DecidableEq β] {wanted : β} {answer : Unit} (done : expect wanted s = .done answer rest) :
    s = wanted::rest := by
  obtain ⟨c, same, tested⟩ := requireDone done
  rw [same, of_decide_eq_true tested]

theorem literalSame [DecidableEq β] (text later : List β) : literal text (text ++ later) = .done () later := by
  induction text with
  | nil => rfl
  | cons c text ih =>
    unfold literal
    exact (doneBind (expectSame c (text ++ later))).trans ih

theorem literalDone [DecidableEq β] {text : List β} {answer : Unit} (done : literal text s = .done answer rest) :
    s = text ++ rest := by
  induction text generalizing s with
  | nil => exact (pureDone.mp done).2
  | cons c later ih =>
    unfold literal at done
    obtain ⟨_, mid, first, second⟩ := bindDone.mp done
    rw [expectDone first, ih second]
    rfl

end Steps

/-! Whether the memory is left. A reader is safe when, from any place in front of the
sentinel, it neither faults nor is cut off and stops in front of the sentinel again. -/

def Outcome.Within (stop : β) (least : Nat) (s : List β) : Outcome β α → Prop
  | .done _ rest => stop ∈ rest ∧ rest.length + least ≤ s.length
  | .failed => True
  | .fault => False
  | .starved => False

/- For memory of at most `most` cells. -/
def Safe (stop : β) (most least : Nat) (p : Reader β α) : Prop :=
  ∀ s, stop ∈ s → s.length ≤ most → (p s).Within stop least s

section Safety
variable {stop : β} {most least more : Nat} {p : Reader β α} {next : α → Reader β γ}

theorem safePure (value : α) : Safe stop most 0 (pure value : Reader β α) := by
  intro s inside _
  exact ⟨inside,Nat.le_refl _⟩

theorem safeFail : Safe stop most least (fail : Reader β α) := by
  intro s _ _
  trivial

theorem safeHere : Safe stop most 0 (here : Reader β (List β)) := by
  intro s inside _
  exact ⟨inside,Nat.le_refl _⟩

theorem withinBind {s : List β} (held : (p s).Within stop least s)
    (after : ∀ value rest, p s = .done value rest → stop ∈ rest → rest.length+least ≤ s.length →
      (next value rest).Within stop more rest) : ((p >>= next) s).Within stop (least+more) s := by
  change ((p s).bind next).Within stop (least+more) s
  cases done : p s with
  | failed => trivial
  | fault | starved =>
    rw [done] at held
    exact held
  | done value rest =>
    rw [done] at held
    have second := after value rest done held.1 held.2
    change (next value rest).Within stop (least+more) s
    cases last : next value rest with
    | failed => trivial
    | fault | starved =>
      rw [last] at second
      exact second
    | done value rest' =>
      rw [last] at second
      exact ⟨second.1,by have := second.2; have := held.2; omega⟩

theorem safeBind (first : Safe stop most least p) (second : ∀ value, Safe stop (most-least) more (next value)) :
    Safe stop most (least+more) (p >>= next) := by
  intro s inside short
  exact withinBind (first s inside short) fun value rest _ again fewer => second value rest again (by omega)

theorem safeFirst (first : Safe stop most least p) (second : ∀ value, Safe stop (most-least) 0 (next value)) :
    Safe stop most least (p >>= next) := safeBind first second

theorem safeIdle (first : Safe stop most 0 p) (second : ∀ value, Safe stop most more (next value)) :
    Safe stop most more (p >>= next) := by
  have held := safeBind first second
  rwa [Nat.zero_add] at held

theorem withinWeaken {s : List β} {outcome : Outcome β α} (held : outcome.Within stop least s) {less : Nat}
    (few : less ≤ least) : outcome.Within stop less s := by
  cases outcome with
  | done value rest => exact ⟨held.1,by have := held.2; omega⟩
  | failed | fault | starved => exact held

theorem safeWeaken (safe : Safe stop most least p) {fewer less : Nat} (short : fewer ≤ most) (few : less ≤ least) :
    Safe stop fewer less p := fun s inside bound => withinWeaken (safe s inside (by omega)) few

theorem memOfCons {c : β} {s : List β} (inside : stop ∈ c::s) (other : c ≠ stop) : stop ∈ s := by
  rcases List.mem_cons.mp inside with same | later
  · exact absurd same.symm other
  · exact later

theorem safeTake {f : β → Option α} (refused : f stop = none) : Safe stop most 1 (take f) := by
  intro s inside _
  cases s with
  | nil => cases inside
  | cons c later =>
    cases taken : f c with
    | none =>
      rw [takeNone taken]
      trivial
    | some value =>
      rw [takeSome taken]
      have other : c ≠ stop := by
        intro same
        rw [same, refused] at taken
        cases taken
      exact ⟨memOfCons inside other,by simp⟩

theorem safePeek : Safe stop most 0 (peek : Reader β β) := by
  intro s inside _
  cases s with
  | nil => cases inside
  | cons c later => exact ⟨inside,Nat.le_refl _⟩

theorem safeAccept {test : β → Bool} (refused : test stop = false) : Safe stop most 0 (accept test) := by
  intro s inside _
  cases s with
  | nil => cases inside
  | cons c later =>
    cases tested : test c with
    | false =>
      rw [acceptFalse test tested]
      exact ⟨inside,Nat.le_refl _⟩
    | true =>
      rw [acceptTrue test tested]
      have other : c ≠ stop := by
        intro same
        rw [same, refused] at tested
        cases tested
      exact ⟨memOfCons inside other,by simp⟩

theorem safeBranch {test : β → Bool} {next : Bool → Reader β γ} (refused : test stop = false)
    (yes : Safe stop (most-1) least (next true)) (no : Safe stop most (least+1) (next false)) :
    Safe stop most (least+1) (accept test >>= next) := by
  intro s inside short
  cases s with
  | nil => cases inside
  | cons c later =>
    cases tested : test c with
    | false =>
      rw [doneBind (acceptFalse test tested later)]
      exact no _ inside short
    | true =>
      rw [doneBind (acceptTrue test tested later)]
      have other : c ≠ stop := by
        intro same
        rw [same, refused] at tested
        cases tested
      have held := yes later (memOfCons inside other) (by simp at short; omega)
      cases done : next true later with
      | failed => trivial
      | fault | starved =>
        rw [done] at held
        exact held
      | done value rest =>
        rw [done] at held
        exact ⟨held.1,by have := held.2; simp; omega⟩

theorem safeSkipWhile {test : β → Bool} (refused : test stop = false) : Safe stop most 0 (skipWhile test) := by
  intro s inside _
  induction s with
  | nil => cases inside
  | cons c later ih =>
    cases tested : test c with
    | false =>
      rw [skipWhile, if_neg (by simp [tested])]
      exact ⟨inside,Nat.le_refl _⟩
    | true =>
      rw [skipWhile, if_pos tested]
      have other : c ≠ stop := by
        intro same
        rw [same, refused] at tested
        cases tested
      have held := ih (memOfCons inside other) (by simp at *; omega)
      cases done : skipWhile test later with
      | failed => trivial
      | fault | starved =>
        rw [done] at held
        exact held
      | done value rest =>
        rw [done] at held
        exact ⟨held.1,by have := held.2; simp; omega⟩

theorem safeRequire {test : β → Bool} (refused : test stop = false) : Safe stop most 1 (require test) :=
  safeTake (if_neg (by simp [refused]))

theorem safeExpect [DecidableEq β] {wanted : β} (other : wanted ≠ stop) : Safe stop most 1 (expect wanted) :=
  safeRequire (decide_eq_false other.symm)

theorem safeLiteral [DecidableEq β] {text : List β} (other : ∀ c ∈ text, c ≠ stop) :
    Safe stop most text.length (literal text) := by
  induction text generalizing most with
  | nil => exact safePure ()
  | cons c later ih =>
    obtain ⟨first, others⟩ := List.forall_mem_cons.mp other
    have held : Safe stop most (1+later.length) (literal (c::later)) := safeBind (safeExpect first) fun _ => ih others
    rwa [Nat.add_comm] at held

end Safety

end Lib.Cursor
