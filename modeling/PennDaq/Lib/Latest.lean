import Mathlib.Logic.Function.Basic
import Mathlib.Data.List.Basic

/-! Values that are recorded under keys one after the other: the latest one of each
key counts. -/
namespace Lib.Latest

variable {κ ν μ : Type} [DecidableEq κ]

def record (values : κ → ν) (entry : κ × ν) : κ → ν := Function.update values entry.1 entry.2

def latest (k : κ) : List (κ × ν) → Option ν
  | [] => none
  | entry::later => (latest k later).or (if entry.1 = k then some entry.2 else none)

theorem latestAppend (k : κ) (a b : List (κ × ν)) : latest k (a ++ b) = (latest k b).or (latest k a) := by
  induction a with
  | nil => simp [latest]
  | cons entry a ih => rw [List.cons_append, latest, latest, ih, Option.or_assoc]

theorem recordLatest (values : κ → ν) (entries : List (κ × ν)) (k : κ) :
    entries.foldl record values k = (latest k entries).getD (values k) := by
  induction entries generalizing values with
  | nil => rfl
  | cons entry later ih =>
    rw [List.foldl_cons, ih, latest]
    cases latest k later with
    | some v => rfl
    | none =>
      by_cases same : entry.1 = k
      · subst same
        simp [record]
      · simp [record, same, Function.update_of_ne (Ne.symm same)]

theorem latestMap (f : κ → ν → μ) (k : κ) (entries : List (κ × ν)) :
    latest k (entries.map fun entry => (entry.1,f entry.1 entry.2)) = (latest k entries).map (f k) := by
  induction entries with
  | nil => rfl
  | cons entry later ih =>
    rw [List.map_cons, latest, latest, ih]
    cases latest k later with
    | some v => rfl
    | none =>
      by_cases same : entry.1 = k
      · subst same
        simp
      · simp [same]

theorem latestSome {k : κ} {v : ν} {entries : List (κ × ν)} (found : latest k entries = some v) :
    ∃ front back, entries = front ++ (k,v)::back ∧ latest k back = none := by
  induction entries with
  | nil => cases found
  | cons entry later ih =>
    rw [latest] at found
    cases rest : latest k later with
    | some w =>
      rw [rest, Option.some_or] at found
      obtain ⟨front, back, rfl, after⟩ := ih (rest.trans found)
      exact ⟨entry::front, back, rfl, after⟩
    | none =>
      rw [rest, Option.none_or, Option.ite_none_right_eq_some] at found
      obtain ⟨rfl, same⟩ := found
      cases same
      exact ⟨[], later, rfl, rest⟩

theorem latestHere {k : κ} {back : List (κ × ν)} (last : latest k back = none) (front : List (κ × ν)) (v : ν) :
    latest k (front ++ (k,v)::back) = some v := by
  rw [latestAppend, latest, last, if_pos rfl]
  rfl

section Changed
variable {f : κ × ν → Option (κ × ν)}

theorem latestChangedNone (keys : ∀ e e', f e = some e' → e'.1 = e.1) {k : κ} {entries : List (κ × ν)}
    (none' : latest k entries = none) : latest k (entries.filterMap f) = none := by
  induction entries with
  | nil => rfl
  | cons e later ih =>
    rw [latest, Option.or_eq_none_iff] at none'
    cases changed : f e with
    | none => rw [List.filterMap_cons_none changed, ih none'.1]
    | some e' =>
      rw [List.filterMap_cons_some changed, latest, ih none'.1, keys e e' changed, Option.none_or]
      by_cases same : e.1 = k
      · simp [same] at none'
      · exact if_neg same

theorem latestChanged (keys : ∀ e e', f e = some e' → e'.1 = e.1) {k : κ} {v w : ν} {entries : List (κ × ν)}
    (found : latest k entries = some v) (changed : f (k,v) = some (k,w)) :
    latest k (entries.filterMap f) = some w := by
  obtain ⟨front, back, rfl, last⟩ := latestSome found
  rw [List.filterMap_append, List.filterMap_cons_some changed]
  exact latestHere (latestChangedNone keys last) _ w

theorem latestFrom {k : κ} {w : ν} {entries : List (κ × ν)} (found : latest k (entries.filterMap f) = some w) :
    ∃ e, f e = some (k,w) := by
  obtain ⟨front, back, parts, -⟩ := latestSome found
  have mem : (k,w) ∈ entries.filterMap f := parts ▸ List.mem_append_right front List.mem_cons_self
  obtain ⟨e, -, changed⟩ := List.mem_filterMap.mp mem
  exact ⟨e, changed⟩

end Changed

section Origins

def entriesOf (marked : List (Bool × κ × ν)) : List (κ × ν) := marked.map Prod.snd

def ownOf (marked : List (Bool × κ × ν)) : List (κ × ν) := entriesOf (marked.filter fun entry => !entry.1)

omit [DecidableEq κ] in
theorem ownAppend (a b : List (Bool × κ × ν)) : ownOf (a ++ b) = ownOf a ++ ownOf b := by
  rw [ownOf, List.filter_append, entriesOf, List.map_append]
  rfl

end Origins
end Lib.Latest
