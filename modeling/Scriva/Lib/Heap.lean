import Scriva.Lib.Sorted
import Mathlib.Data.List.Sort

/-!
# Binary heaps and comparison sorts

A heap in a list: the children of position `i` are at `2 * i + 1` and
`2 * i + 2`.  The operations, and a sort of a list, look at their elements only
through the comparison.  So they commute with a renaming of the elements.

In a heap no element comes before its parent, so none comes before the first.  An
element that moves up or down leaves one place at a time where this may fail.
-/

namespace Scriva.Lib.Heap

open Lib.Sorted (Weak)

variable {α β : Type}

/-! ## Heaps -/

def swap (items : List α) (i j : Nat) : List α :=
  match items[i]?, items[j]? with
  | some a, some b => (items.set i b).set j a
  | _, _ => items

theorem length_swap (items : List α) (i j : Nat) : (swap items i j).length = items.length := by
  rw [swap]
  split
  · rw [List.length_set, List.length_set]
  · rfl

/-- The elements at two positions are in the wrong order. -/
def before (less : α → α → Bool) (items : List α) (i j : Nat) : Bool :=
  match items[i]?, items[j]? with
  | some a, some b => less a b
  | _, _ => false

/-- Move an element up to its place. -/
def up (less : α → α → Bool) (items : List α) (j : Nat) : List α :=
  if 0 < j ∧ before less items j ((j - 1) / 2) = true then
    up less (swap items ((j - 1) / 2) j) ((j - 1) / 2)
  else items
termination_by j
decreasing_by omega

/-- The smaller child of a position, if it has one. -/
def child (less : α → α → Bool) (items : List α) (i : Nat) : Option Nat :=
  if items.length ≤ 2 * i + 1 then none
  else if 2 * i + 2 < items.length ∧ before less items (2 * i + 2) (2 * i + 1) = true then
    some (2 * i + 2)
  else some (2 * i + 1)

theorem child_bounds {less : α → α → Bool} {items : List α} {i j : Nat}
    (found : child less items i = some j) : i < j ∧ j < items.length := by
  rw [child] at found
  split_ifs at found with short right
  · obtain rfl := Option.some.inj found
    omega
  · obtain rfl := Option.some.inj found
    omega

/-- Move an element down to its place. -/
def down (less : α → α → Bool) (items : List α) (i : Nat) : List α :=
  match _found : child less items i with
  | none => items
  | some j =>
    if before less items j i then down less (swap items i j) j else items
termination_by items.length - i
decreasing_by
  have := child_bounds _found
  rw [length_swap]
  omega

theorem down_of_leaf {less : α → α → Bool} {items : List α} {i : Nat}
    (leaf : child less items i = none) : down less items i = items := by
  rw [down.eq_def]
  split
  · rfl
  · rename_i j found
    rw [leaf] at found
    cases found

theorem down_of_child {less : α → α → Bool} {items : List α} {i j : Nat}
    (found : child less items i = some j) :
    down less items i =
      if before less items j i then down less (swap items i j) j else items := by
  rw [down.eq_def]
  split
  · rename_i leaf
    rw [leaf] at found
    cases found
  · rename_i j' found'
    rw [found, Option.some.injEq] at found'
    rw [found']

def push (less : α → α → Bool) (items : List α) (item : α) : List α :=
  up less (items ++ [item]) items.length

/-- Restore the order after the first element has changed. -/
def fix (less : α → α → Bool) (items : List α) : List α :=
  down less items 0

variable (f : α → β) (less : β → β → Bool)

section Order

variable {less : α → α → Bool} {items : List α} {i j k : Nat}

/-- No element comes before its parent. -/
def Heaped (less : α → α → Bool) (items : List α) : Prop :=
  ∀ i, 0 < i → before less items i ((i - 1) / 2) = false

/-- The element at `j` may come before its parent, but those below it do not. -/
structure Rising (less : α → α → Bool) (items : List α) (j : Nat) : Prop where
  others : ∀ i, 0 < i → i ≠ j → before less items i ((i - 1) / 2) = false
  below : 0 < j → ∀ i, 0 < i → (i - 1) / 2 = j → before less items i ((j - 1) / 2) = false

/-- The children of `i` may come before it, but not before its parent. -/
structure Sinking (less : α → α → Bool) (items : List α) (i : Nat) : Prop where
  others : ∀ k, 0 < k → (k - 1) / 2 ≠ i → before less items k ((k - 1) / 2) = false
  above : 0 < i → ∀ k, 0 < k → (k - 1) / 2 = i → before less items k ((i - 1) / 2) = false

theorem swap_perm (items : List α) (i j : Nat) : (swap items i j).Perm items := by
  rw [swap]
  split
  · rename_i a b first second
    obtain ⟨inside, rfl⟩ := List.getElem?_eq_some_iff.mp first
    obtain ⟨inside', rfl⟩ := List.getElem?_eq_some_iff.mp second
    exact List.set_set_perm inside inside'
  · rfl

theorem lt_of_before (wrong : before less items i j = true) :
    i < items.length ∧ j < items.length := by
  rw [before] at wrong
  split at wrong
  · rename_i a b first second
    exact ⟨(List.getElem?_eq_some_iff.mp first).1, (List.getElem?_eq_some_iff.mp second).1⟩
  · cases wrong

theorem before_of_lt (first : i < items.length) (second : j < items.length) :
    before less items i j = less items[i] items[j] := by
  rw [before, List.getElem?_eq_getElem first, List.getElem?_eq_getElem second]

theorem before_of_le (outside : items.length ≤ i) : before less items i j = false := by
  rw [before, List.getElem?_eq_none outside]

/-- Positions after a swap are those before it, exchanged. -/
theorem before_swap (first : i < items.length) (second : j < items.length) (m n : Nat) :
    before less (swap items i j) m n =
      before less items (Equiv.swap i j m) (Equiv.swap i j n) := by
  have moved (k : Nat) : (swap items i j)[k]? = items[Equiv.swap i j k]? := by
    rw [swap, List.getElem?_eq_getElem first, List.getElem?_eq_getElem second]
    change ((items.set i items[j]).set j items[i])[k]? = _
    by_cases right : k = j
    · rw [right, Equiv.swap_apply_right, List.getElem?_set_self (by rwa [List.length_set]),
        List.getElem?_eq_getElem first]
    rw [List.getElem?_set_ne (Ne.symm right)]
    by_cases left : k = i
    · rw [left, Equiv.swap_apply_left, List.getElem?_set_self first,
        List.getElem?_eq_getElem second]
    · rw [Equiv.swap_apply_of_ne_of_ne left right, List.getElem?_set_ne (Ne.symm left)]
  rw [before, before, moved, moved]

theorem before_asymm (weak : Weak less items) (wrong : before less items i j = true) :
    before less items j i = false := by
  obtain ⟨first, second⟩ := lt_of_before wrong
  rw [before_of_lt first second] at wrong
  rw [before_of_lt second first]
  exact weak.asymm _ (List.getElem_mem _) _ (List.getElem_mem _) wrong

theorem before_trans (weak : Weak less items) (inside : j < items.length)
    (lower : before less items j i = false) (upper : before less items k j = false) :
    before less items k i = false := by
  by_contra wrong
  obtain ⟨last, first⟩ := lt_of_before ((Bool.not_eq_false _).mp wrong)
  rw [before_of_lt inside first] at lower
  rw [before_of_lt last inside] at upper
  rw [before_of_lt last first] at wrong
  exact wrong (weak.trans _ (List.getElem_mem _) _ (List.getElem_mem _) _ (List.getElem_mem _)
    lower upper)

/-- No element of a heap comes before the first. -/
theorem Heaped.first (heaped : Heaped less items) (weak : Weak less items) (i : Nat) :
    before less items i 0 = false := by
  induction i using Nat.strongRecOn with
  | _ i ih =>
    by_cases outside : items.length ≤ i
    · exact before_of_le outside
    rcases Nat.eq_zero_or_pos i with rfl | positive
    · by_contra wrong
      exact wrong (before_asymm weak ((Bool.not_eq_false _).mp wrong))
    · exact before_trans weak (by omega) (ih ((i - 1) / 2) (by omega)) (heaped i positive)

theorem Rising.swap (rising : Rising less items j) (weak : Weak less items) (positive : 0 < j)
    (wrong : before less items j ((j - 1) / 2) = true) :
    Rising less (swap items ((j - 1) / 2) j) ((j - 1) / 2) := by
  obtain ⟨last, first⟩ := lt_of_before wrong
  have right := before_asymm weak wrong
  constructor
  · intro i above differs
    rw [before_swap first last]
    by_cases here : i = j
    · rw [here, Equiv.swap_apply_right, Equiv.swap_apply_left]
      exact right
    rw [Equiv.swap_apply_of_ne_of_ne differs here]
    by_cases sibling : (i - 1) / 2 = (j - 1) / 2
    · have old := rising.others i above here
      rw [sibling] at old ⊢
      rw [Equiv.swap_apply_left]
      exact before_trans weak first right old
    by_cases child : (i - 1) / 2 = j
    · rw [child, Equiv.swap_apply_right]
      exact rising.below positive i above child
    · rw [Equiv.swap_apply_of_ne_of_ne sibling child]
      exact rising.others i above here
  · intro above i under sibling
    rw [before_swap first last, Equiv.swap_apply_of_ne_of_ne
      (by omega : ((j - 1) / 2 - 1) / 2 ≠ (j - 1) / 2) (by omega)]
    have higher := rising.others ((j - 1) / 2) above (by omega)
    by_cases here : i = j
    · rw [here, Equiv.swap_apply_right]
      exact higher
    · have old := rising.others i under here
      rw [sibling] at old
      rw [Equiv.swap_apply_of_ne_of_ne (by omega) here]
      exact before_trans weak first higher old

/-- Moving an element up restores the heap. -/
theorem heaped_up (weak : Weak less items) (rising : Rising less items j) :
    (up less items j).Perm items ∧ Heaped less (up less items j) := by
  induction j using Nat.strongRecOn generalizing items with
  | _ j ih =>
    rw [up.eq_def]
    split_ifs with wrong
    · have same := swap_perm items ((j - 1) / 2) j
      obtain ⟨perm, heaped⟩ := ih ((j - 1) / 2) (by omega) (weak.subset same.subset)
        (rising.swap weak wrong.1 wrong.2)
      exact ⟨perm.trans same, heaped⟩
    · refine ⟨.refl _, fun i positive => ?_⟩
      by_cases here : i = j
      · rw [here] at positive ⊢
        exact (Bool.not_eq_true _).mp fun bad => wrong ⟨positive, bad⟩
      · exact rising.others i positive here

/-- The child is one of the two, and the other does not come before it. -/
theorem child_spec (weak : Weak less items) (found : child less items i = some j) :
    (j - 1) / 2 = i ∧ ∀ k, 0 < k → (k - 1) / 2 = i → k ≠ j → before less items k j = false := by
  rw [child] at found
  split_ifs at found with short right
  · obtain rfl := Option.some.inj found
    refine ⟨by omega, fun k positive under differs => ?_⟩
    obtain rfl : k = 2 * i + 1 := by omega
    exact before_asymm weak right.2
  · obtain rfl := Option.some.inj found
    refine ⟨by omega, fun k positive under differs => ?_⟩
    obtain rfl : k = 2 * i + 2 := by omega
    by_contra wrong
    have smaller := (Bool.not_eq_false _).mp wrong
    exact right ⟨(lt_of_before smaller).1, smaller⟩

theorem Sinking.swap (sinking : Sinking less items i) (weak : Weak less items)
    (found : child less items i = some j) (wrong : before less items j i = true) :
    Sinking less (swap items i j) j := by
  obtain ⟨last, first⟩ := lt_of_before wrong
  obtain ⟨parent, smaller⟩ := child_spec weak found
  obtain ⟨apart, -⟩ := child_bounds found
  constructor
  · intro k positive elsewhere
    rw [before_swap first last]
    by_cases under : (k - 1) / 2 = i
    · rw [under, Equiv.swap_apply_left]
      by_cases here : k = j
      · rw [here, Equiv.swap_apply_right]
        exact before_asymm weak wrong
      · rw [Equiv.swap_apply_of_ne_of_ne (by omega) here]
        exact smaller k positive under here
    rw [Equiv.swap_apply_of_ne_of_ne under elsewhere]
    by_cases here : k = i
    · rw [here, Equiv.swap_apply_left]
      exact sinking.above (by omega) j (by omega) parent
    · rw [Equiv.swap_apply_of_ne_of_ne here (by omega)]
      exact sinking.others k positive under
  · intro above k positive under
    rw [before_swap first last, parent, Equiv.swap_apply_left,
      Equiv.swap_apply_of_ne_of_ne (by omega) (by omega)]
    have old := sinking.others k positive (by omega)
    rw [under] at old
    exact old

/-- Moving an element down restores the heap. -/
theorem heaped_down (weak : Weak less items) (sinking : Sinking less items i) :
    (down less items i).Perm items ∧ Heaped less (down less items i) := by
  induction measure : items.length - i using Nat.strongRecOn generalizing items i with
  | _ size ih =>
    rcases found : child less items i with - | j
    · rw [down_of_leaf found]
      refine ⟨.refl _, fun k positive => ?_⟩
      by_cases under : (k - 1) / 2 = i
      · rw [child] at found
        split_ifs at found with short
        exact before_of_le (by omega)
      · exact sinking.others k positive under
    obtain ⟨parent, smaller⟩ := child_spec weak found
    obtain ⟨apart, inside⟩ := child_bounds found
    rw [down_of_child found]
    split_ifs with wrong
    · have same := swap_perm items i j
      obtain ⟨perm, heaped⟩ := ih _ (by rw [length_swap]; omega) (weak.subset same.subset)
        (sinking.swap weak found wrong) rfl
      exact ⟨perm.trans same, heaped⟩
    · refine ⟨.refl _, fun k positive => ?_⟩
      by_cases under : (k - 1) / 2 = i
      · have right := (Bool.not_eq_true _).mp wrong
        rw [under]
        by_cases here : k = j
        · rw [here]
          exact right
        · exact before_trans weak inside right (smaller k positive under here)
      · exact sinking.others k positive under

/-- An element that is added last. -/
theorem heaped_push (heaped : Heaped less items) {item : α} (weak : Weak less (items ++ [item])) :
    (push less items item).Perm (item :: items) ∧ Heaped less (push less items item) := by
  have rising : Rising less (items ++ [item]) items.length := by
    refine ⟨fun i positive differs => ?_, fun _ i positive under => before_of_le ?_⟩
    · by_cases inside : i < items.length
      · have old := heaped i positive
        rw [before_of_lt inside (by omega)] at old
        rw [before_of_lt (by simp; omega) (by simp; omega), List.getElem_append_left inside,
          List.getElem_append_left (by omega)]
        exact old
      · exact before_of_le (by simp; omega)
    · simp
      omega
  obtain ⟨perm, heaped'⟩ := heaped_up weak rising
  exact ⟨perm.trans (List.perm_append_singleton item items), heaped'⟩

/-- An element that replaces the first. -/
theorem heaped_fix {first item : α} (heaped : Heaped less (first :: items))
    (weak : Weak less (item :: items)) :
    (fix less (item :: items)).Perm (item :: items) ∧ Heaped less (fix less (item :: items)) := by
  refine heaped_down weak ⟨fun k positive elsewhere => ?_, fun never => absurd never (by omega)⟩
  have old := heaped k positive
  obtain ⟨n, rfl⟩ : ∃ n, k = n + 1 := ⟨k - 1, by omega⟩
  obtain ⟨m, parent⟩ : ∃ m, (n + 1 - 1) / 2 = m + 1 := ⟨n / 2 - 1, by omega⟩
  rw [parent] at old ⊢
  exact old

end Order

/-! ## Sorts -/

/-- A sort that looks at its elements only through a comparison. -/
structure Sorter where
  sort : {α : Type} → (α → α → Bool) → List α → List α
  map : ∀ {α β : Type} (f : α → β) (less : β → β → Bool) (items : List α),
    sort less (items.map f) = (sort (fun a b => less (f a) (f b)) items).map f

/-- A sort by insertion, which is stable. -/
def Sorter.insertion : Sorter where
  sort less items := items.insertionSort fun a b => less b a = false
  map f less items := by
    symm
    refine List.map_insertionSort _ _ f items ?_
    intro a _ b _
    rfl

end Scriva.Lib.Heap
