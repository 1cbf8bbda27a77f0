import Mathlib.Data.List.Basic

/-! Items that come in batches, each batch under a key, and are filed under its key by a
running index that starts again whenever the key changes. -/
namespace Lib.Filing

variable {κ α : Type}

structure Batch (κ α : Type) where
  key : κ
  items : List α
  deriving Repr

structure Entry (κ α : Type) where
  key : κ
  index : Nat
  item : α
  deriving Repr

def fileRow (key : κ) : Nat → List α → List (Entry κ α)
  | _, [] => []
  | index, item::items => ⟨key,index,item⟩::fileRow key (index+1) items

theorem rowKey {key : κ} {first : Nat} {items : List α} {entry : Entry κ α}
    (mem : entry ∈ fileRow key first items) :
    entry.key = key ∧ first ≤ entry.index ∧ entry.index < first + items.length := by
  induction items generalizing first with
  | nil => contradiction
  | cons item items ih =>
    rw [List.length_cons]
    rcases List.mem_cons.mp mem with rfl | mem
    · exact ⟨rfl, Nat.le_refl _, by simp⟩
    · obtain ⟨same, low, high⟩ := ih mem
      exact ⟨same, by omega, by omega⟩

theorem rowAppend (key : κ) (first : Nat) (a b : List α) :
    fileRow key first (a ++ b) = fileRow key first a ++ fileRow key (first + a.length) b := by
  induction a generalizing first with
  | nil => rfl
  | cons item items ih =>
    rw [List.cons_append, fileRow, fileRow, ih, List.cons_append, List.length_cons, Nat.add_right_comm,
      Nat.add_assoc]

theorem rowFind {key : κ} {first : Nat} {items : List α} {entry : Entry κ α}
    (mem : entry ∈ fileRow key first items) :
    ∃ k, entry.index = first + k ∧ items[k]? = some entry.item := by
  induction items generalizing first with
  | nil => contradiction
  | cons item items ih =>
    rcases List.mem_cons.mp mem with rfl | mem
    · exact ⟨0, rfl, rfl⟩
    · obtain ⟨k, place, found⟩ := ih mem
      exact ⟨k+1, by omega, by simpa using found⟩

theorem rowAt (key : κ) (first : Nat) {k : Nat} {items : List α} {item : α} (found : items[k]? = some item) :
    (⟨key,first+k,item⟩ : Entry κ α) ∈ fileRow key first items := by
  induction items generalizing first k with
  | nil => simp at found
  | cons head items ih =>
    cases k with
    | zero =>
      obtain rfl : head = item := by simpa using found
      exact List.mem_cons_self
    | succ k =>
      have later := ih (first+1) (k := k) (by simpa using found)
      rw [Nat.add_right_comm, Nat.add_assoc] at later
      exact List.mem_cons_of_mem _ later

theorem rowItems (key : κ) (first : Nat) (items : List α) : (fileRow key first items).map Entry.item = items := by
  induction items generalizing first with
  | nil => rfl
  | cons item items ih => rw [fileRow, List.map_cons, ih]

variable [DecidableEq κ]

def itemsOf (key : κ) : List (Batch κ α) → List α
  | [] => []
  | batch::later => if batch.key = key then batch.items ++ itemsOf key later else itemsOf key later

def count (key : κ) : List (Batch κ α) → Nat
  | [] => 0
  | batch::earlier => if batch.key = key then batch.items.length + count key earlier else count key earlier

/- How many have come since the last batch of another key. -/
def running (key : κ) : List (Batch κ α) → Nat
  | [] => 0
  | batch::earlier => if batch.key = key then batch.items.length + running key earlier else 0

def filed : List (Batch κ α) → List (Batch κ α) → List (Entry κ α)
  | _, [] => []
  | before, batch::later =>
    fileRow batch.key (running batch.key before) batch.items ++ filed (batch::before) later

/- When items of a key come, all earlier ones of the key have come in the batches of the
key directly before. -/
def Grouped : List (Batch κ α) → List (Batch κ α) → Prop
  | _, [] => True
  | before, batch::later =>
    (batch.items ≠ [] → ∀ other ∈ before.dropWhile fun b => b.key = batch.key,
      other.key = batch.key → other.items = []) ∧ Grouped (batch::before) later

theorem itemsAmong {key : κ} {batches : List (Batch κ α)} {item : α} (mem : item ∈ itemsOf key batches) :
    item ∈ batches.flatMap Batch.items := by
  induction batches with
  | nil => contradiction
  | cons batch later ih =>
    rw [itemsOf] at mem
    rw [List.flatMap_cons, List.mem_append]
    split at mem
    · exact (List.mem_append.mp mem).imp_right ih
    · exact Or.inr (ih mem)

theorem itemsFew (key : κ) (batches : List (Batch κ α)) :
    (itemsOf key batches).length ≤ (batches.flatMap Batch.items).length := by
  induction batches with
  | nil => exact Nat.le_refl _
  | cons batch later ih =>
    rw [itemsOf, List.flatMap_cons, List.length_append]
    split
    · rw [List.length_append]
      omega
    · omega

theorem countNone {key : κ} {before : List (Batch κ α)} :
    count key before = 0 ↔ ∀ other ∈ before, other.key = key → other.items = [] := by
  induction before with
  | nil => simp [count]
  | cons batch earlier ih =>
    rw [count, List.forall_mem_cons]
    split
    · rename_i same
      rw [Nat.add_eq_zero_iff, ih, List.length_eq_zero_iff]
      exact and_congr_left fun _ => ⟨fun none' _ => none', fun all => all same⟩
    · rename_i other
      rw [ih]
      exact ⟨fun all => ⟨fun same => absurd same other, all⟩, fun all => all.2⟩

theorem runningCount (key : κ) (before : List (Batch κ α)) : running key before ≤ count key before := by
  induction before with
  | nil => exact Nat.le_refl _
  | cons batch earlier ih =>
    rw [running, count]
    split
    · omega
    · omega

theorem runningAll {key : κ} {before : List (Batch κ α)} :
    running key before = count key before ↔
      ∀ other ∈ before.dropWhile fun b => b.key = key, other.key = key → other.items = [] := by
  induction before with
  | nil => simp [running, count]
  | cons batch earlier ih =>
    by_cases same : batch.key = key
    · rw [running, count, if_pos same, if_pos same, List.dropWhile_cons_of_pos (by simpa using same), ← ih]
      omega
    · rw [running, if_neg same, List.dropWhile_cons_of_neg (by simpa using same), ← countNone]
      exact eq_comm

theorem rowOwn (key : κ) (first : Nat) (items : List α) :
    (fileRow key first items).filter (fun entry => entry.key = key) = fileRow key first items := by
  rw [List.filter_eq_self]
  intro entry mem
  simpa using (rowKey mem).1

theorem rowOther {key other : κ} (different : other ≠ key) (first : Nat) (items : List α) :
    (fileRow other first items).filter (fun entry => entry.key = key) = [] := by
  rw [List.filter_eq_nil_iff]
  intro entry mem
  simpa [(rowKey mem).1] using different

theorem groupedRow {before later : List (Batch κ α)} (grouped : Grouped before later) (key : κ) :
    (filed before later).filter (fun entry => entry.key = key) =
      fileRow key (count key before) (itemsOf key later) := by
  induction later generalizing before with
  | nil => rfl
  | cons batch later ih =>
    obtain ⟨behind, grouped⟩ := grouped
    rw [filed, List.filter_append, ih grouped, itemsOf, count]
    by_cases same : batch.key = key
    · subst same
      rw [if_pos rfl, if_pos rfl, rowOwn, rowAppend, Nat.add_comm batch.items.length]
      cases items : batch.items with
      | nil => rfl
      | cons item rest =>
        have all := runningAll.mpr (behind (by simp [items]))
        rw [all]
    · rw [if_neg same, if_neg same, rowOther same, List.nil_append]

/- Each item lies at its place among those of its key, and nothing else does. -/
theorem groupedPlace {batches : List (Batch κ α)} (grouped : Grouped [] batches) {key : κ} {k : Nat} {item : α}
    (found : (itemsOf key batches)[k]? = some item) :
    (⟨key,k,item⟩ : Entry κ α) ∈ filed [] batches ∧
      ∀ entry ∈ filed [] batches, entry.key = key → entry.index = k → entry.item = item := by
  have row := groupedRow grouped key
  rw [count] at row
  refine ⟨?_, fun entry mem own place => ?_⟩
  · have there := rowAt key 0 found
    rw [Nat.zero_add, ← row] at there
    exact (List.mem_filter.mp there).1
  · have there : entry ∈ (filed [] batches).filter fun e => e.key = key :=
      List.mem_filter.mpr ⟨mem, by simpa using own⟩
    rw [row] at there
    obtain ⟨j, same, at'⟩ := rowFind there
    have equal : j = k := by omega
    rw [equal, found] at at'
    exact (Option.some.inj at').symm

theorem lagKept (before : List (Batch κ α)) {later : List (Batch κ α)} {key : κ} (lag : Nat)
    (lags : running key before + lag ≤ count key before) {entry : Entry κ α}
    (mem : entry ∈ filed before later) (own : entry.key = key) :
    entry.index + 1 + lag ≤ count key before + (itemsOf key later).length := by
  induction later generalizing before with
  | nil => contradiction
  | cons batch later ih =>
    have next := ih (batch::before)
    rw [running, count] at next
    rw [itemsOf]
    rw [filed] at mem
    by_cases same : batch.key = key
    · rw [if_pos same, if_pos same] at next
      rw [if_pos same, List.length_append]
      rcases List.mem_append.mp mem with mem | mem
      · have row := rowKey mem
        rw [same] at row
        omega
      · have := next (by omega) mem
        omega
    · rw [if_neg same, if_neg same] at next
      rw [if_neg same]
      rcases List.mem_append.mp mem with mem | mem
      · exact absurd ((rowKey mem).1.symm.trans own) same
      · exact next (by omega) mem

theorem filedBelow {before later : List (Batch κ α)} {entry : Entry κ α} (mem : entry ∈ filed before later) :
    entry.index < count entry.key before + (itemsOf entry.key later).length :=
  lagKept before 0 (runningCount entry.key before) mem rfl

theorem countMoved (key : κ) (before : List (Batch κ α)) (batch : Batch κ α) (later : List (Batch κ α)) :
    count key (batch::before) + (itemsOf key later).length =
      count key before + (itemsOf key (batch::later)).length := by
  rw [count, itemsOf]
  split
  · rw [List.length_append]
    omega
  · rfl

theorem itemsLater {key : κ} {later : List (Batch κ α)} (batch : Batch κ α) (more : itemsOf key later ≠ []) :
    itemsOf key (batch::later) ≠ [] := by
  rw [itemsOf]
  split
  · exact List.append_ne_nil_of_right_ne_nil _ more
  · exact more

theorem rowBelow {before : List (Batch κ α)} {batch : Batch κ α} {entry : Entry κ α}
    (mem : entry ∈ fileRow batch.key (running batch.key before) batch.items) :
    entry.index < count entry.key (batch::before) := by
  have row := rowKey mem
  have low := runningCount batch.key before
  rw [row.1, count, if_pos rfl]
  omega

theorem ungroupedMiss {before later : List (Batch κ α)} (apart : ¬ Grouped before later) :
    ∃ key, itemsOf key later ≠ [] ∧ 1 < count key before + (itemsOf key later).length ∧
      ∀ entry ∈ filed before later, entry.key = key →
        entry.index + 1 < count key before + (itemsOf key later).length := by
  induction later generalizing before with
  | nil => exact absurd trivial apart
  | cons batch later ih =>
    rw [Grouped, not_and_or] at apart
    rcases apart with here | later'
    · obtain ⟨some', scattered⟩ := Classical.not_imp.mp here
      have less : running batch.key before < count batch.key before :=
        Nat.lt_of_le_of_ne (runningCount _ _) fun all => scattered (runningAll.mp all)
      have items := List.length_pos_of_ne_nil some'
      refine ⟨batch.key, ?_, ?_, fun entry mem own => lagKept before 1 less mem own⟩
      · rw [itemsOf, if_pos rfl]
        exact List.append_ne_nil_of_left_ne_nil some' _
      · rw [itemsOf, if_pos rfl, List.length_append]
        omega
    · obtain ⟨key, more, two, missed⟩ := ih later'
      have items := List.length_pos_of_ne_nil more
      rw [countMoved] at two
      refine ⟨key, itemsLater batch more, two, fun entry mem own => ?_⟩
      rw [filed] at mem
      rcases List.mem_append.mp mem with mem | mem
      · have row := rowBelow mem
        rw [own] at row
        rw [← countMoved]
        omega
      · rw [← countMoved]
        exact missed entry mem own

theorem filedItems (before later : List (Batch κ α)) :
    (filed before later).map Entry.item = later.flatMap Batch.items := by
  induction later generalizing before with
  | nil => rfl
  | cons batch later ih => rw [filed, List.map_append, rowItems, ih, List.flatMap_cons]

end Lib.Filing
