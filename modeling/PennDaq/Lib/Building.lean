import PennDaq.Lib.Bracketed

/-! Readers that build something on the way: they take a state along, also when they fail. -/
namespace Lib.Building
open Lib.Cursor Lib.Bracketed

inductive Built (β σ α : Type) where
  | done (value : α) (rest : List β) (state : σ)
  | failed (state : σ)
  /- A fault, or a loop that was cut off. -/
  | lost

def Built.state {β σ α : Type} : Built β σ α → Option σ
  | .done _ _ state => some state
  | .failed state => some state
  | .lost => none

def Builder (β σ α : Type) := List β → σ → Built β σ α

variable {β σ α γ δ : Type}

def Built.bind (built : Built β σ α) (next : α → Builder β σ γ) : Built β σ γ :=
  match built with
  | .done value rest state => next value rest state
  | .failed state => .failed state
  | .lost => .lost

instance : Monad (Builder β σ) where
  pure value := fun s state => .done value s state
  bind q next := fun s state => (q s state).bind next

def lose : Builder β σ α := fun _ _ => .lost

def lift (p : Reader β α) : Builder β σ α := fun s state =>
  match p s with
  | .done value rest => .done value rest state
  | .failed => .failed state
  | .fault | .starved => .lost

def make (f : σ → α × σ) : Builder β σ α := fun s state => .done (f state).1 s (f state).2

def change (f : σ → Option σ) : Builder β σ Unit := fun s state =>
  match f state with
  | some state' => .done () s state'
  | none => .lost

def cleaning (clean : σ → Option σ) (q : Builder β σ α) : Builder β σ α := fun s state =>
  match q s state with
  | .failed state' => match clean state' with
    | some state'' => .failed state''
    | none => .lost
  | built => built

section Marks
variable (marks : Marks β) [DecidableEq β]

def buildItems (item : Builder β σ α) (put : α → σ → Option σ) : Nat → Builder β σ Unit
  | 0 => lose
  | passes+1 => do
    let first ← item
    lift marks.skipBlank
    change (put first)
    if ← lift (accept fun c => decide (c = marks.closing)) then
      return ()
    else
      lift (expect marks.separator)
      lift marks.skipBlank
      buildItems item put passes

def buildSequence (item : Builder β σ α) (put : α → σ → Option σ) : Builder β σ Unit := do
  lift (expect marks.opening)
  lift marks.skipBlank
  if ← lift (accept fun c => decide (c = marks.closing)) then
    return ()
  else
    let s ← lift here
    buildItems marks item put s.length

end Marks

/- With enough passes it comes to that. -/
def Settles (f : Nat → γ) (value : γ) : Prop := ∃ enough, ∀ passes, enough ≤ passes → f passes = value

theorem settlesSame (value : γ) : Settles (fun _ => value) value := ⟨0,fun _ _ => rfl⟩

theorem settlesWith (g : α → γ → δ) {f : Nat → α} {f' : Nat → γ} {a : α} {c : γ} (one : Settles f a) (two : Settles f' c) :
    Settles (fun passes => g (f passes) (f' passes)) (g a c) := by
  obtain ⟨enough, done⟩ := one
  obtain ⟨enough', done'⟩ := two
  refine ⟨enough+enough',fun passes large => ?_⟩
  dsimp only
  rw [done passes (by omega), done' passes (by omega)]

theorem settlesLater {f : Nat → γ} {value : γ} (settles : Settles (fun passes => f (passes+1)) value) : Settles f value := by
  obtain ⟨enough, done⟩ := settles
  refine ⟨enough+1,fun passes large => ?_⟩
  cases passes with
  | zero => omega
  | succ passes => exact done passes (by omega)

/- Where the reader is done or fails, so is the builder, in a state with `good` or `bad`. -/
def Mirrors (outcome : Outcome β α) (built : Nat → Built β σ γ) (good : α → γ → σ → Prop) (bad : σ → Prop) : Prop :=
  match outcome with
  | .done value rest => ∃ value' state, good value value' state ∧ Settles built (.done value' rest state)
  | .failed => ∃ state, bad state ∧ Settles built (.failed state)
  | .fault | .starved => True

section Mirroring
variable {good : α → γ → σ → Prop} {bad : σ → Prop} {s : List β} {state : σ}

theorem mirrorsEventually {outcome : Outcome β α} {built built' : Nat → Built β σ γ} {enough : Nat}
    (same : ∀ n, enough ≤ n → built' n = built n) (mirrors : Mirrors outcome built good bad) :
    Mirrors outcome built' good bad := by
  have settles : ∀ result, Settles built result → Settles built' result := by
    intro result settled
    obtain ⟨enough', done⟩ := settled
    exact ⟨enough+enough',fun n large => (same n (by omega)).trans (done n (by omega))⟩
  unfold Mirrors at mirrors ⊢
  cases outcome with
  | done value rest =>
    obtain ⟨value', state', held, settled⟩ := mirrors
    exact ⟨value',state',held,settles _ settled⟩
  | failed =>
    obtain ⟨state', held, settled⟩ := mirrors
    exact ⟨state',held,settles _ settled⟩
  | fault | starved => trivial

theorem mirrorsBind {ε : Type} {p : Reader β α} {next : α → Reader β δ} {q : Nat → Builder β σ γ}
    {next' : Nat → γ → Builder β σ ε} {good' : δ → ε → σ → Prop} (first : Mirrors (p s) (fun n => q n s state) good bad)
    (later : ∀ value value' rest state', p s = .done value rest → good value value' state' →
      Mirrors (next value rest) (fun n => next' n value' rest state') good' bad) :
    Mirrors ((p >>= next) s) (fun n => (q n >>= next' n) s state) good' bad := by
  change Mirrors ((p s).bind next) (fun n => (q n s state).bind (next' n)) good' bad
  cases read : p s with
  | done value rest =>
    rw [read] at first
    obtain ⟨value', state', held, enough, built⟩ := first
    have same : ∀ n, enough ≤ n → (q n s state).bind (next' n) = next' n value' rest state' := fun n large => by
      have done : q n s state = .done value' rest state' := built n large
      rw [done]
      rfl
    exact mirrorsEventually same (later value value' rest state' read held)
  | failed =>
    rw [read] at first
    obtain ⟨state', held, enough, built⟩ := first
    refine ⟨state',held,enough,fun n large => ?_⟩
    have done : q n s state = .failed state' := built n large
    dsimp only
    rw [done]
    rfl
  | fault | starved => trivial

theorem mirrorsPure {value : α} {value' : γ} (held : good value value' state) :
    Mirrors ((pure value : Reader β α) s) (fun _ => (pure value' : Builder β σ γ) s state) good bad :=
  ⟨value',state,held,settlesSame _⟩

theorem mirrorsLift {p : Reader β α} (failing : p s = .failed → bad state) :
    Mirrors (p s) (fun _ => (lift p : Builder β σ α) s state) (fun value value' state' => value' = value ∧ state' = state) bad := by
  unfold lift
  cases read : p s with
  | done value rest => exact ⟨value,state,⟨rfl,rfl⟩,settlesSame _⟩
  | failed => exact ⟨state,failing read,settlesSame _⟩
  | fault | starved => trivial

theorem mirrorsRead {ε : Type} {p : Reader β α} {next : α → Reader β δ} {next' : Nat → α → Builder β σ ε}
    {good' : δ → ε → σ → Prop} (failing : p s = .failed → bad state)
    (later : ∀ value rest, p s = .done value rest →
      Mirrors (next value rest) (fun n => next' n value rest state) good' bad) :
    Mirrors ((p >>= next) s) (fun n => ((lift p : Builder β σ α) >>= next' n) s state) good' bad := by
  refine mirrorsBind (mirrorsLift failing) fun value value' rest state' read same => ?_
  obtain ⟨rfl, rfl⟩ := same
  exact later value' rest read

theorem mirrorsChange {ε : Type} {outcome : Outcome β δ} {f : σ → Option σ} {next' : Nat → Unit → Builder β σ ε} {state' : σ}
    {good' : δ → ε → σ → Prop} (changed : f state = some state')
    (later : Mirrors outcome (fun n => next' n () s state') good' bad) :
    Mirrors outcome (fun n => ((change f : Builder β σ Unit) >>= next' n) s state) good' bad := by
  have same : ∀ n, ((change f : Builder β σ Unit) >>= next' n) s state = next' n () s state' := fun n => by
    change Built.bind (change f s state) (next' n) = _
    unfold change
    rw [changed]
    rfl
  simp only [same]
  exact later

theorem mirrorsWeaken {good' : α → γ → σ → Prop} {bad' : σ → Prop} {outcome : Outcome β α} {built : Nat → Built β σ γ}
    (mirrors : Mirrors outcome built good bad) (better : ∀ value value' state, good value value' state → good' value value' state)
    (worse : ∀ state, bad state → bad' state) : Mirrors outcome built good' bad' := by
  unfold Mirrors at mirrors ⊢
  cases outcome with
  | done value rest =>
    obtain ⟨value', state, held, settles⟩ := mirrors
    exact ⟨value',state,better _ _ _ held,settles⟩
  | failed =>
    obtain ⟨state, held, settles⟩ := mirrors
    exact ⟨state,worse _ held,settles⟩
  | fault | starved => trivial

theorem mirrorsIf {c : Prop} [Decidable c] {p p' : Reader β α} {q q' : Nat → Builder β σ γ}
    (yes : c → Mirrors (p s) (fun n => q n s state) good bad) (no : ¬c → Mirrors (p' s) (fun n => q' n s state) good bad) :
    Mirrors ((if c then p else p') s) (fun n => (if c then q n else q' n) s state) good bad := by
  split
  case isTrue held => exact yes held
  case isFalse other => exact no other

theorem mirrorsMap {p : Reader β α} {f : α → δ} {built : Nat → Built β σ γ} {good' : δ → γ → σ → Prop}
    (mirrors : Mirrors (p s) built good bad)
    (better : ∀ value value' state, good value value' state → good' (f value) value' state) :
    Mirrors ((p >>= fun value => pure (f value)) s) built good' bad := by
  change Mirrors ((p s).bind fun value => pure (f value)) built good' bad
  cases read : p s with
  | done value rest =>
    rw [read] at mirrors
    obtain ⟨value', state', held, settled⟩ := mirrors
    exact ⟨value',state',better _ _ _ held,settled⟩
  | failed =>
    rw [read] at mirrors
    exact mirrors
  | fault | starved => trivial

theorem mirrorsCleaning {p : Reader β α} {clean : Nat → σ → Option σ} {q : Nat → Builder β σ γ} {bad' : σ → Prop}
    (mirrors : Mirrors (p s) (fun n => q n s state) good bad)
    (cleans : ∀ state', bad state' → ∃ state'', bad' state'' ∧ Settles (fun n => clean n state') (some state'')) :
    Mirrors (p s) (fun n => cleaning (clean n) (q n) s state) good bad' := by
  unfold Mirrors at mirrors ⊢
  cases read : p s with
  | done value rest =>
    rw [read] at mirrors
    obtain ⟨value', state', held, enough, built⟩ := mirrors
    refine ⟨value',state',held,enough,fun n large => ?_⟩
    have done : q n s state = .done value' rest state' := built n large
    dsimp only
    rw [cleaning, done]
  | failed =>
    rw [read] at mirrors
    obtain ⟨state', held, enough, built⟩ := mirrors
    obtain ⟨state'', held', enough', cleaned⟩ := cleans state' held
    refine ⟨state'',held',enough+enough',fun n large => ?_⟩
    have done : q n s state = .failed state' := built n (by omega)
    have cleared : clean n state' = some state'' := cleaned n (by omega)
    dsimp only
    rw [cleaning, done]
    dsimp only
    rw [cleared]
  | fault | starved => trivial

end Mirroring

theorem skipNeverFails (test : β → Bool) (s : List β) : skipWhile test s ≠ .failed := by
  induction s with
  | nil => simp [skipWhile]
  | cons c s ih =>
    rw [skipWhile]
    split
    · exact ih
    · simp

theorem acceptNeverFails (test : β → Bool) (s : List β) : accept test s ≠ .failed := by
  cases s with
  | nil => simp [accept]
  | cons c s =>
    rw [accept]
    split <;> simp

section Sequences
variable {marks : Marks β} [DecidableEq β] {item : Reader β α} {item' : Nat → Builder β σ γ} {put : γ → σ → Option σ}
  {built : List α → σ → Prop} {bad : σ → Prop}

theorem mirrorsItems (failing : ∀ values state, built values state → bad state)
    (items : ∀ values state s, built values state → Mirrors (item s) (fun n => item' n s state)
      (fun value value' state' => ∃ state'', put value' state' = some state'' ∧ built (values ++ [value]) state'') bad)
    (passes : Nat) {values : List α} {state : σ} (held : built values state) (s : List β) :
    Mirrors (marks.items item passes s) (fun n => buildItems marks (item' n) put passes s state)
      (fun more _ state' => built (values ++ more) state') bad := by
  induction passes generalizing values state s with
  | zero => trivial
  | succ passes ih =>
    unfold Marks.items buildItems
    refine mirrorsBind (items values state s held) fun value value' rest state' _ putting => ?_
    obtain ⟨state'', changed, more⟩ := putting
    refine mirrorsRead (fun failed => absurd failed (skipNeverFails _ _)) fun _ rest₁ _ => ?_
    refine mirrorsChange changed ?_
    refine mirrorsRead (fun failed => absurd failed (acceptNeverFails _ _)) fun closed rest₂ _ => ?_
    cases closed with
    | true => exact mirrorsPure more
    | false =>
      refine mirrorsRead (fun _ => failing _ _ more) fun _ rest₃ _ => ?_
      refine mirrorsRead (fun failed => absurd failed (skipNeverFails _ _)) fun _ rest₄ _ => ?_
      refine mirrorsMap (ih more rest₄) fun later _ state₃ all => ?_
      rwa [List.append_assoc] at all

theorem mirrorsSequence (failing : ∀ values state, built values state → bad state)
    (items : ∀ values state s, built values state → Mirrors (item s) (fun n => item' n s state)
      (fun value value' state' => ∃ state'', put value' state' = some state'' ∧ built (values ++ [value]) state'') bad)
    {state : σ} (held : built [] state) (s : List β) :
    Mirrors (marks.sequence item s) (fun n => buildSequence marks (item' n) put s state)
      (fun values _ state' => built values state') bad := by
  unfold Marks.sequence buildSequence
  refine mirrorsRead (fun _ => failing _ _ held) fun _ rest₁ _ => ?_
  refine mirrorsRead (fun failed => absurd failed (skipNeverFails _ _)) fun _ rest₂ _ => ?_
  refine mirrorsRead (fun failed => absurd failed (acceptNeverFails _ _)) fun closed rest₃ _ => ?_
  cases closed with
  | true => exact mirrorsPure held
  | false =>
    refine mirrorsRead (fun failed => nomatch failed) fun s' rest₄ _ => ?_
    exact mirrorsItems failing items s'.length held rest₄

end Sequences

end Lib.Building
