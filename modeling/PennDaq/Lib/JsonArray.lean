import Mathlib.Logic.Function.Basic
import PennDaq.Lib.JsonTree

/-! Changes of the elements of JSON arrays in place, with what they do to an array that is
given by its elements. There is no result where a NULL pointer is written to. -/
namespace Lib.JsonTree

def alterMember (name : String) (change : Json → Option Json) (object : Json) : Option Json :=
  match findMember (some object) name with
  | none => some object
  | some _ => modifyMember name change object

def changeFrom (change : Nat → Json → Option Json) : Nat → List Json → Option (List Json)
  | _, [] => some []
  | i, element::later => do
    let element ← change i element
    let later ← changeFrom change (i+1) later
    return element::later

def changeElements (change : Nat → Json → Option Json) : Json → Option Json
  | .array elements => (changeFrom change 0 elements).map .array
  | other => some other

def modifyElement (index : Nat) (change : Json → Option Json) : Json → Option Json
  | .array elements => (elements[index]?.bind change).map fun element => .array (elements.set index element)
  | _ => none

def replaceElement (n index : Nat) (value : Json) : Json → Option Json
  | .array elements =>
    if elements.length < n then none
    else some (.array (elements.drop n ++ (elements.take n).set index value))
  | _ => none

theorem alterMemberSpec {object value next : Json} {name : String} (change : Json → Option Json)
    (distinct : Distinct object) (found : findMember (some object) name = some value)
    (changed : change value = some next) :
    ∃ after, alterMember name change object = some after ∧ Distinct after ∧
      findMember (some after) name = some next ∧
      ∀ other, other ≠ name → findMember (some after) other = findMember (some object) other := by
  rw [alterMember, found]
  exact modifyMemberSpec change distinct found changed

theorem changeFromSpec {change : Nat → Json → Option Json} {i : Nat} {elements : List Json}
    (after : List Json) (length : elements.length = after.length)
    (each : ∀ k (inside : k < elements.length) (inside' : k < after.length),
      change (i+k) elements[k] = some after[k]) :
    changeFrom change i elements = some after := by
  induction elements generalizing i after with
  | nil =>
    cases after with
    | nil => rfl
    | cons a later => cases length
  | cons element later ih =>
    cases after with
    | nil => cases length
    | cons next after =>
      have first := each 0 (by simp) (by simp)
      have rest : changeFrom change (i+1) later = some after := by
        refine ih after (by simpa using length) fun k inside inside' => ?_
        have there := each (k+1) (by simpa using inside) (by simpa using inside')
        simpa [Nat.add_assoc, Nat.add_comm 1 k] using there
      simp only [Nat.add_zero, List.getElem_cons_zero] at first
      simp only [changeFrom, first, rest]
      rfl

theorem changeElementsSpec {n : Nat} (change : Nat → Json → Option Json) {element after : Fin n → Json}
    (each : ∀ i : Fin n, change i (element i) = some (after i)) :
    changeElements change (arrayOf element) = some (arrayOf after) := by
  rw [arrayOf, changeElements, changeFromSpec (List.ofFn after) (by simp)]
  · rfl
  · intro k inside inside'
    simp only [List.length_ofFn] at inside
    simpa using each ⟨k,inside⟩

theorem setOfFn {n : Nat} (element : Fin n → Json) (i : Fin n) (value : Json) :
    (List.ofFn element).set i value = List.ofFn (Function.update element i value) := by
  apply List.ext_getElem
  · simp
  · intro k inside _
    simp only [List.getElem_set, List.getElem_ofFn, Function.update_apply, Fin.ext_iff]
    by_cases same : i.val = k
    · simp [same]
    · simp [same, Ne.symm same]

theorem modifyElementSpec {n : Nat} (change : Json → Option Json) {element : Fin n → Json} {i : Fin n}
    {next : Json} (changed : change (element i) = some next) :
    modifyElement i change (arrayOf element) = some (arrayOf (Function.update element i next)) := by
  simp [modifyElement, arrayOf, changed, setOfFn]

theorem replaceElementSpec {n : Nat} (element : Fin n → Json) (i : Fin n) (value : Json) :
    replaceElement n i value (arrayOf element) = some (arrayOf (Function.update element i value)) := by
  have all : (List.ofFn element).take n = List.ofFn element := List.take_of_length_le (by simp)
  have none' : (List.ofFn element).drop n = [] := List.drop_of_length_le (by simp)
  simp [replaceElement, arrayOf, all, none', setOfFn]

theorem replaceLoop {n : Nat} (element : Fin n → Json) (other : Json) (wanted : Json → Bool)
    (step : Json → Nat → Option Json)
    (steps : ∀ (now : Fin n → Json) (i : Fin n), step (arrayOf now) i =
      some (arrayOf (if wanted (now i) then Function.update now i other else now))) :
    (List.range n).foldlM step (arrayOf element) =
      some (arrayOf fun i => if wanted (element i) then other else element i) := by
  have prefix' (m : Nat) (inside : m ≤ n) : (List.range m).foldlM step (arrayOf element) =
      some (arrayOf fun i => if i.val < m ∧ wanted (element i) = true then other else element i) := by
    induction m with
    | zero => simp
    | succ m ih =>
      have here := steps (fun i => if i.val < m ∧ wanted (element i) = true then other else element i) ⟨m,inside⟩
      simp only [Nat.lt_irrefl, false_and, if_false] at here
      rw [List.range_succ, List.foldlM_append, ih (by omega)]
      simp only [List.foldlM_cons, List.foldlM_nil, Option.bind_eq_bind, Option.bind_some, here]
      refine congrArg (fun f => some (arrayOf f)) (funext fun i => ?_)
      by_cases last : i = ⟨m,inside⟩
      · subst last
        cases wanted (element ⟨m,inside⟩) <;> simp
      · have apart : i.val ≠ m := fun same => last (Fin.ext same)
        have before : i.val < m+1 ↔ i.val < m := by omega
        split <;> simp [Function.update_of_ne last, before]
  rw [prefix' n (Nat.le_refl n)]
  simp

end Lib.JsonTree
