import Mathlib.Data.List.Basic

/-! Skeletons of procedures: the operations they perform, in order, with the
decisions left open that the answers make. An operation returns or throws, an
`attempt` catches, and a `call` ends where its body leaves. -/
namespace Lib.Skeleton

inductive Prog (ω : Type) where
  | skip
  | op (o : ω)
  | leave
  | seq (first rest : Prog ω)
  | choice (one other : Prog ω)
  | many (body : Prog ω)
  | attempt (body : Prog ω)
  | call (body : Prog ω)

inductive Exit where
  | passed
  | left
  | threw
  deriving DecidableEq, Repr

/- What a run shows of one operation: whether a handler was around it and whether
it threw. -/
structure Event (ω : Type) where
  op : ω
  guarded : Bool
  threw : Bool
  deriving DecidableEq, Repr

variable {ω : Type}

inductive Runs : Bool → Prog ω → List (Event ω) → Exit → Prop where
  | skip {g} : Runs g .skip [] .passed
  | leave {g} : Runs g .leave [] .left
  | returns {g} (o) : Runs g (.op o) [⟨o,g,false⟩] .passed
  | throws {g} (o) : Runs g (.op o) [⟨o,g,true⟩] .threw
  | next {g p q es fs e} : Runs g p es .passed → Runs g q fs e → Runs g (.seq p q) (es ++ fs) e
  | stop {g p q es e} : e ≠ .passed → Runs g p es e → Runs g (.seq p q) es e
  | one {g p q es e} : Runs g p es e → Runs g (.choice p q) es e
  | other {g p q es e} : Runs g q es e → Runs g (.choice p q) es e
  | done {g p} : Runs g (.many p) [] .passed
  | again {g p es fs e} : Runs g p es .passed → Runs g (.many p) fs e →
      Runs g (.many p) (es ++ fs) e
  | out {g p es e} : e ≠ .passed → Runs g p es e → Runs g (.many p) es e
  | tried {g p es e} : e ≠ .threw → Runs true p es e → Runs g (.attempt p) es e
  | caught {g p es} : Runs true p es .threw → Runs g (.attempt p) es .passed
  | called {g p es e} : e ≠ .left → Runs g p es e → Runs g (.call p) es e
  | returned {g p es} : Runs g p es .left → Runs g (.call p) es .passed

theorem runsGuarded {g : Bool} {p : Prog ω} {es : List (Event ω)} {e : Exit}
    (run : Runs g p es e) (inside : g = true) : ∀ ev ∈ es, ev.guarded = true := by
  induction run with
  | skip | leave | done => simp
  | returns o | throws o => simpa using inside
  | next _ _ first rest | again _ _ first rest =>
    intro ev mem
    rcases List.mem_append.mp mem with early | late
    · exact first inside ev early
    · exact rest inside ev late
  | stop _ _ ih | one _ ih | other _ ih | out _ _ ih | called _ _ ih | returned _ ih => exact ih inside
  | tried _ _ ih | caught _ ih => exact ih rfl

theorem runsThrew {g : Bool} {p : Prog ω} {es : List (Event ω)} {e : Exit}
    (run : Runs g p es e) (outside : g = false) :
    e = .threw ↔ ∃ ev ∈ es, ev.guarded = false ∧ ev.threw = true := by
  induction run with
  | skip | leave | done | returns o => simp
  | throws o => simpa using outside
  | next _ _ first rest | again _ _ first rest =>
    have quiet := (first outside).not.mp (by decide)
    rw [rest outside]
    constructor
    · rintro ⟨ev, mem, escapes⟩
      exact ⟨ev, List.mem_append_right _ mem, escapes⟩
    · rintro ⟨ev, mem, escapes⟩
      rcases List.mem_append.mp mem with early | late
      · exact absurd ⟨ev, early, escapes⟩ quiet
      · exact ⟨ev, late, escapes⟩
  | stop _ _ ih | one _ ih | other _ ih | out _ _ ih | called _ _ ih => exact ih outside
  | returned _ ih =>
    have quiet := (ih outside).not.mp (by decide)
    exact ⟨fun threw => absurd threw (by decide), fun escapes => absurd escapes quiet⟩
  | tried other run ih =>
    refine ⟨fun threw => absurd threw other, ?_⟩
    rintro ⟨ev, mem, open', -⟩
    rw [runsGuarded run rfl ev mem] at open'
    contradiction
  | caught run ih =>
    refine ⟨fun threw => absurd threw (by decide), ?_⟩
    rintro ⟨ev, mem, open', -⟩
    rw [runsGuarded run rfl ev mem] at open'
    contradiction

def ends : Prog ω → Exit → Prop
  | .skip, e => e = .passed
  | .op _, e => e ≠ .left
  | .leave, e => e = .left
  | .seq p q, e => (e ≠ .passed ∧ ends p e) ∨ (ends p .passed ∧ ends q e)
  | .choice p q, e => ends p e ∨ ends q e
  | .many p, e => e = .passed ∨ ends p e
  | .attempt p, e => (e ≠ .threw ∧ ends p e) ∨ (e = .passed ∧ ends p .threw)
  | .call p, e => (e ≠ .left ∧ ends p e) ∨ (e = .passed ∧ ends p .left)

def passes (p : Prog ω) : Prop := ends p .passed

def performs (o : ω) : Prog ω → Prop
  | .skip | .leave => False
  | .op o' => o' = o
  | .seq p q => performs o p ∨ (passes p ∧ performs o q)
  | .choice p q => performs o p ∨ performs o q
  | .many p | .attempt p | .call p => performs o p

theorem runsEnds {g : Bool} {p : Prog ω} {es : List (Event ω)} {e : Exit}
    (run : Runs g p es e) : ends p e := by
  induction run with
  | skip | leave => rfl
  | returns o | throws o => exact Exit.noConfusion
  | next _ _ first rest => exact .inr ⟨first,rest⟩
  | stop other _ ih => exact .inl ⟨other,ih⟩
  | one _ ih => exact .inl ih
  | other _ ih => exact .inr ih
  | done => exact .inl rfl
  | again _ _ _ rest => exact rest
  | out _ _ ih => exact .inr ih
  | tried other _ ih | called other _ ih => exact .inl ⟨other,ih⟩
  | caught _ ih | returned _ ih => exact .inr ⟨rfl,ih⟩

theorem endsRuns (g : Bool) (p : Prog ω) (e : Exit) (can : ends p e) : ∃ es, Runs g p es e := by
  induction p generalizing g e with
  | skip => cases can; exact ⟨_,.skip⟩
  | op o =>
    cases e with
    | passed => exact ⟨_,.returns o⟩
    | left => exact absurd rfl can
    | threw => exact ⟨_,.throws o⟩
  | leave => cases can; exact ⟨_,.leave⟩
  | seq p q first rest =>
    rcases can with ⟨other, early⟩ | ⟨passed, late⟩
    · obtain ⟨es, run⟩ := first g e early
      exact ⟨es,.stop other run⟩
    · obtain ⟨es, run⟩ := first g .passed passed
      obtain ⟨fs, run'⟩ := rest g e late
      exact ⟨es ++ fs,.next run run'⟩
  | choice p q one other =>
    rcases can with first | second
    · obtain ⟨es, run⟩ := one g e first
      exact ⟨es,.one run⟩
    · obtain ⟨es, run⟩ := other g e second
      exact ⟨es,.other run⟩
  | many p ih =>
    cases e with
    | passed => exact ⟨[],.done⟩
    | left =>
      obtain ⟨es, run⟩ := ih g .left (can.resolve_left Exit.noConfusion)
      exact ⟨es,.out Exit.noConfusion run⟩
    | threw =>
      obtain ⟨es, run⟩ := ih g .threw (can.resolve_left Exit.noConfusion)
      exact ⟨es,.out Exit.noConfusion run⟩
  | attempt p ih =>
    rcases can with ⟨other, same⟩ | ⟨rfl, thrown⟩
    · obtain ⟨es, run⟩ := ih true e same
      exact ⟨es,.tried other run⟩
    · obtain ⟨es, run⟩ := ih true .threw thrown
      exact ⟨es,.caught run⟩
  | call p ih =>
    rcases can with ⟨other, same⟩ | ⟨rfl, early⟩
    · obtain ⟨es, run⟩ := ih g e same
      exact ⟨es,.called other run⟩
    · obtain ⟨es, run⟩ := ih g .left early
      exact ⟨es,.returned run⟩

theorem runsPerforms {g : Bool} {p : Prog ω} {es : List (Event ω)} {e : Exit}
    (run : Runs g p es e) : ∀ ev ∈ es, performs ev.op p := by
  induction run with
  | skip | leave | done => simp
  | returns o | throws o => simp [performs]
  | next run _ first rest =>
    intro ev mem
    rcases List.mem_append.mp mem with early | late
    · exact .inl (first ev early)
    · exact .inr ⟨runsEnds run, rest ev late⟩
  | stop _ _ ih | one _ ih => exact fun ev mem => .inl (ih ev mem)
  | other _ ih => exact fun ev mem => .inr (ih ev mem)
  | again _ _ first rest =>
    intro ev mem
    rcases List.mem_append.mp mem with early | late
    · exact first ev early
    · exact rest ev late
  | out _ _ ih | tried _ _ ih | caught _ ih | called _ _ ih | returned _ ih => exact ih

theorem callRuns {g : Bool} {p : Prog ω} {es : List (Event ω)} {e : Exit} (run : Runs g p es e) :
    ∃ e', Runs g (.call p) es e' := by
  by_cases left : e = .left
  · subst left
    exact ⟨_,.returned run⟩
  · exact ⟨_,.called left run⟩

theorem attemptRuns {g : Bool} {p : Prog ω} {es : List (Event ω)} {e : Exit}
    (run : Runs true p es e) : ∃ e', Runs g (.attempt p) es e' := by
  by_cases threw : e = .threw
  · subst threw
    exact ⟨_,.caught run⟩
  · exact ⟨_,.tried threw run⟩

theorem manyRuns {g : Bool} {p : Prog ω} {es : List (Event ω)} {e : Exit} (run : Runs g p es e) :
    ∃ e', Runs g (.many p) es e' := by
  by_cases passed : e = .passed
  · subst passed
    have twice := Runs.again run .done
    rw [List.append_nil] at twice
    exact ⟨_,twice⟩
  · exact ⟨_,.out passed run⟩

theorem seqRuns {g : Bool} {p : Prog ω} {es : List (Event ω)} {e : Exit} (q : Prog ω)
    (run : Runs g p es e) (goes : ∃ fs e', Runs g q fs e') :
    ∃ fs e', Runs g (.seq p q) (es ++ fs) e' := by
  by_cases passed : e = .passed
  · subst passed
    obtain ⟨fs, e', rest⟩ := goes
    exact ⟨fs,e',.next run rest⟩
  · have stopped := Runs.stop (q := q) passed run
    rw [← List.append_nil es] at stopped
    exact ⟨[],e,stopped⟩

theorem someEnd (p : Prog ω) : ∃ e, ends p e := by
  induction p with
  | skip => exact ⟨.passed,rfl⟩
  | op o => exact ⟨.passed,Exit.noConfusion⟩
  | leave => exact ⟨.left,rfl⟩
  | seq p q first rest =>
    obtain ⟨e, can⟩ := first
    obtain ⟨e', can'⟩ := rest
    by_cases passed : e = .passed
    · subst passed
      exact ⟨e',.inr ⟨can,can'⟩⟩
    · exact ⟨e,.inl ⟨passed,can⟩⟩
  | choice p q one other => exact one.imp fun e can => .inl can
  | many p ih => exact ⟨.passed,.inl rfl⟩
  | attempt p ih =>
    obtain ⟨e, can⟩ := ih
    by_cases threw : e = .threw
    · subst threw
      exact ⟨.passed,.inr ⟨rfl,can⟩⟩
    · exact ⟨e,.inl ⟨threw,can⟩⟩
  | call p ih =>
    obtain ⟨e, can⟩ := ih
    by_cases left : e = .left
    · subst left
      exact ⟨.passed,.inr ⟨rfl,can⟩⟩
    · exact ⟨e,.inl ⟨left,can⟩⟩

theorem performsRuns (g : Bool) {p : Prog ω} {o : ω} (can : performs o p) :
    ∃ es e, Runs g p es e ∧ ∃ ev ∈ es, ev.op = o := by
  induction p generalizing g with
  | skip | leave => exact can.elim
  | op o' => exact ⟨_,_,.returns o',_,List.mem_singleton_self _,can⟩
  | seq p q first rest =>
    rcases can with early | ⟨passed, late⟩
    · obtain ⟨es, e, run, ev, mem, same⟩ := first g early
      obtain ⟨e', can⟩ := someEnd q
      obtain ⟨fs, run'⟩ := endsRuns g q e' can
      obtain ⟨gs, e'', both⟩ := seqRuns q run ⟨fs,e',run'⟩
      exact ⟨_,_,both,ev,List.mem_append_left _ mem,same⟩
    · obtain ⟨es, run⟩ := endsRuns g p .passed passed
      obtain ⟨fs, e, run', ev, mem, same⟩ := rest g late
      exact ⟨_,_,.next run run',ev,List.mem_append_right _ mem,same⟩
  | choice p q one other =>
    rcases can with here | there
    · obtain ⟨es, e, run, found⟩ := one g here
      exact ⟨es,e,.one run,found⟩
    · obtain ⟨es, e, run, found⟩ := other g there
      exact ⟨es,e,.other run,found⟩
  | many p ih =>
    obtain ⟨es, e, run, found⟩ := ih g can
    obtain ⟨e', run'⟩ := manyRuns run
    exact ⟨es,e',run',found⟩
  | attempt p ih =>
    obtain ⟨es, e, run, found⟩ := ih true can
    obtain ⟨e', run'⟩ := attemptRuns run
    exact ⟨es,e',run',found⟩
  | call p ih =>
    obtain ⟨es, e, run, found⟩ := ih g can
    obtain ⟨e', run'⟩ := callRuns run
    exact ⟨es,e',run',found⟩

/- What holds of every operation in every run holds of those that can come to be
performed, and the other way round. -/
theorem everyOperation (g : Bool) (p : Prog ω) (holds : ω → Prop) :
    (∀ es e, Runs g p es e → ∀ ev ∈ es, holds ev.op) ↔ ∀ o, performs o p → holds o := by
  constructor
  · intro all o can
    obtain ⟨es, e, run, ev, mem, same⟩ := performsRuns g can
    exact same ▸ all es e run ev mem
  · intro all es e run ev mem
    exact all _ (runsPerforms run ev mem)

def block : List (Prog ω) → Prog ω
  | [] => .skip
  | p::later => .seq p (block later)

def maybe (p : Prog ω) : Prog ω := .choice .skip p

def provided (known : Bool) (p : Prog ω) : Prog ω := if known then p else .skip

def each (indices : List Nat) (body : Nat → Prog ω) : Prog ω := block (indices.map body)

@[simp] theorem passesSkip : passes (.skip : Prog ω) := rfl

@[simp] theorem passesOp (o : ω) : passes (.op o) := Exit.noConfusion

@[simp] theorem passesMany (p : Prog ω) : passes (.many p) := .inl rfl

@[simp] theorem passesMaybe (p : Prog ω) : passes (maybe p) := .inl rfl

@[simp] theorem passesAttempt (p : Prog ω) : passes (.attempt p) ↔ passes p ∨ ends p .threw := by
  simp [passes, ends]

@[simp] theorem passesCall (p : Prog ω) : passes (.call p) ↔ passes p ∨ ends p .left := by
  simp [passes, ends]

@[simp] theorem passesProvided (known : Bool) (p : Prog ω) :
    passes (provided known p) ↔ known = true → passes p := by
  unfold provided
  split <;> simp_all

@[simp] theorem passesNil : passes (block ([] : List (Prog ω))) := rfl

@[simp] theorem passesCons (p : Prog ω) (later : List (Prog ω)) :
    passes (block (p::later)) ↔ passes p ∧ passes (block later) :=
  ⟨fun can => can.resolve_left fun h => h.1 rfl, .inr⟩

@[simp] theorem passesEach (indices : List Nat) (body : Nat → Prog ω) :
    passes (each indices body) ↔ ∀ i ∈ indices, passes (body i) := by
  induction indices with
  | nil => simp [each]
  | cons i later ih => exact (passesCons _ _).trans (by rw [List.forall_mem_cons, ← ih]; rfl)

@[simp] theorem performsOp (o o' : ω) : performs o (.op o') ↔ o' = o := Iff.rfl

@[simp] theorem performsSkip (o : ω) : ¬ performs o .skip := id

@[simp] theorem performsLeave (o : ω) : ¬ performs o .leave := id

@[simp] theorem performsMany (o : ω) (p : Prog ω) : performs o (.many p) ↔ performs o p := Iff.rfl

@[simp] theorem performsAttempt (o : ω) (p : Prog ω) :
    performs o (.attempt p) ↔ performs o p := Iff.rfl

@[simp] theorem performsCall (o : ω) (p : Prog ω) : performs o (.call p) ↔ performs o p := Iff.rfl

@[simp] theorem performsMaybe (o : ω) (p : Prog ω) : performs o (maybe p) ↔ performs o p :=
  or_iff_right id

@[simp] theorem performsProvided (o : ω) (known : Bool) (p : Prog ω) :
    performs o (provided known p) ↔ known = true ∧ performs o p := by
  unfold provided
  split <;> simp_all

@[simp] theorem performsNil (o : ω) : ¬ performs o (block []) := id

@[simp] theorem performsCons (o : ω) (p : Prog ω) (later : List (Prog ω)) :
    performs o (block (p::later)) ↔ performs o p ∨ (passes p ∧ performs o (block later)) := Iff.rfl

@[simp] theorem performsEach {indices : List Nat} {body : Nat → Prog ω}
    (can : ∀ i, passes (body i)) (o : ω) :
    performs o (each indices body) ↔ ∃ i ∈ indices, performs o (body i) := by
  induction indices with
  | nil => simp [each]
  | cons i later ih =>
    rw [List.exists_mem_cons_iff, ← ih]
    exact or_congr Iff.rfl (and_iff_right (can i))

@[simp] theorem throwsOp (o : ω) : ends (.op o) .threw := Exit.noConfusion

@[simp] theorem throwsSkip : ¬ ends (.skip : Prog ω) .threw := Exit.noConfusion

@[simp] theorem throwsLeave : ¬ ends (.leave : Prog ω) .threw := Exit.noConfusion

@[simp] theorem throwsMany (p : Prog ω) : ends (.many p) .threw ↔ ends p .threw :=
  or_iff_right Exit.noConfusion

@[simp] theorem throwsAttempt (p : Prog ω) : ¬ ends (.attempt p) .threw := by simp [ends]

@[simp] theorem throwsCall (p : Prog ω) : ends (.call p) .threw ↔ ends p .threw := by simp [ends]

@[simp] theorem throwsMaybe (p : Prog ω) : ends (maybe p) .threw ↔ ends p .threw :=
  or_iff_right Exit.noConfusion

@[simp] theorem throwsProvided (known : Bool) (p : Prog ω) :
    ends (provided known p) .threw ↔ known = true ∧ ends p .threw := by
  unfold provided
  split <;> simp_all

@[simp] theorem throwsNil : ¬ ends (block ([] : List (Prog ω))) .threw := Exit.noConfusion

@[simp] theorem throwsCons (p : Prog ω) (later : List (Prog ω)) :
    ends (block (p::later)) .threw ↔ ends p .threw ∨ (passes p ∧ ends (block later) .threw) := by
  simp [block, ends, passes]

@[simp] theorem throwsEach {indices : List Nat} {body : Nat → Prog ω} (can : ∀ i, passes (body i)) :
    ends (each indices body) .threw ↔ ∃ i ∈ indices, ends (body i) .threw := by
  induction indices with
  | nil => simp [each]
  | cons i later ih =>
    rw [List.exists_mem_cons_iff, ← ih]
    exact (throwsCons _ _).trans (or_congr Iff.rfl (and_iff_right (can i)))

def allOps (holds : ω → Prop) : Prog ω → Prop
  | .skip | .leave => True
  | .op o => holds o
  | .seq p q | .choice p q => allOps holds p ∧ allOps holds q
  | .many p | .attempt p | .call p => allOps holds p

theorem performsAll {holds : ω → Prop} {p : Prog ω} {o : ω} (all : allOps holds p)
    (can : performs o p) : holds o := by
  induction p with
  | skip | leave => exact can.elim
  | op o' => exact can ▸ all
  | seq p q first rest => exact can.elim (first all.1) fun late => rest all.2 late.2
  | choice p q one other => exact can.elim (one all.1) (other all.2)
  | many p ih | attempt p ih | call p ih => exact ih all can

theorem allOpsImp {holds weaker : ω → Prop} (imp : ∀ o, holds o → weaker o) {p : Prog ω}
    (all : allOps holds p) : allOps weaker p := by
  induction p with
  | skip | leave => trivial
  | op o => exact imp o all
  | seq p q first rest => exact ⟨first all.1,rest all.2⟩
  | choice p q one other => exact ⟨one all.1,other all.2⟩
  | many p ih | attempt p ih | call p ih => exact ih all

section Rules
variable (holds : ω → Prop)

@[simp] theorem allOpsOp (o : ω) : allOps holds (.op o) ↔ holds o := Iff.rfl

@[simp] theorem allOpsSkip : allOps holds .skip := trivial

@[simp] theorem allOpsLeave : allOps holds .leave := trivial

@[simp] theorem allOpsMany (p : Prog ω) : allOps holds (.many p) ↔ allOps holds p := Iff.rfl

@[simp] theorem allOpsAttempt (p : Prog ω) : allOps holds (.attempt p) ↔ allOps holds p := Iff.rfl

@[simp] theorem allOpsCall (p : Prog ω) : allOps holds (.call p) ↔ allOps holds p := Iff.rfl

@[simp] theorem allOpsMaybe (p : Prog ω) : allOps holds (maybe p) ↔ allOps holds p :=
  and_iff_right trivial

@[simp] theorem allOpsProvided (known : Bool) (p : Prog ω) :
    allOps holds (provided known p) ↔ known = true → allOps holds p := by
  unfold provided
  split <;> simp_all

@[simp] theorem allOpsNil : allOps holds (block []) := trivial

@[simp] theorem allOpsCons (p : Prog ω) (later : List (Prog ω)) :
    allOps holds (block (p::later)) ↔ allOps holds p ∧ allOps holds (block later) := Iff.rfl

@[simp] theorem allOpsEach (indices : List Nat) (body : Nat → Prog ω) :
    allOps holds (each indices body) ↔ ∀ i ∈ indices, allOps holds (body i) := by
  induction indices with
  | nil => simp [each]
  | cons i later ih => rw [List.forall_mem_cons, ← ih]; exact Iff.rfl

end Rules
end Lib.Skeleton
