import Mathlib.Data.Nat.ModEq
import Mathlib.Tactic

/-!
# Circular buffers

A circular buffer keeps the latest elements of a sequence in a fixed number of
slots.  While it fills, elements go into the slots behind the others; once it
is full, each new element takes the slot of the oldest.  Read from the oldest
slot on, it always holds the end of the sequence, as much of it as it has room
for.
-/

namespace Scriva.Lib.Ring

variable {α : Type}

structure Buffer (α : Type) where
  slots : List (Option α)
  /-- The slot of the oldest element. -/
  head : Nat
  /-- The number of elements. -/
  size : Nat

namespace Buffer

def cap (ring : Buffer α) : Nat :=
  ring.slots.length

def empty (cap : Nat) : Buffer α :=
  ⟨List.replicate cap none, 0, 0⟩

/-- The element at a distance from the oldest. -/
def nth (ring : Buffer α) (i : Nat) : Option α :=
  ring.slots[(ring.head + i) % ring.cap]?.join

/-- Add an element, in the place of the oldest one if there is no other. -/
def push (ring : Buffer α) (element : α) : Buffer α :=
  if ring.size < ring.cap then
    { ring with
      slots := ring.slots.set ((ring.head + ring.size) % ring.cap) (some element)
      size := ring.size + 1 }
  else
    { ring with
      slots := ring.slots.set ring.head (some element)
      head := (ring.head + 1) % ring.cap }

/-- The elements from the oldest to the latest. -/
def contents (ring : Buffer α) : List α :=
  (List.range ring.size).filterMap ring.nth

/-! ## What a buffer holds -/

/-- The buffer holds these elements, from the oldest on. -/
structure Holds (ring : Buffer α) (elements : List α) : Prop where
  room : 0 < ring.cap
  head : ring.head < ring.cap
  size : ring.size = elements.length
  fits : elements.length ≤ ring.cap
  items : ∀ i < elements.length, ring.nth i = elements[i]?

@[simp]
theorem cap_push (ring : Buffer α) (element : α) : (ring.push element).cap = ring.cap := by
  unfold push cap
  split_ifs
  · exact List.length_set
  · exact List.length_set

theorem holds_empty {cap : Nat} (room : 0 < cap) : Holds (empty cap : Buffer α) [] := by
  have length : (empty cap : Buffer α).cap = cap := List.length_replicate
  refine ⟨?_, ?_, rfl, Nat.zero_le _, ?_⟩
  · rwa [length]
  · rwa [length]
  · intro i below
    cases below

/-- Different distances lead to different slots. -/
theorem slot_ne (head : Nat) {cap i j : Nat} (below : i < cap) (other : j < cap) (differs : i ≠ j) :
    (head + i) % cap ≠ (head + j) % cap := by
  intro same
  have congruent : i ≡ j [MOD cap] := Nat.ModEq.add_left_cancel' head same
  exact differs (congruent.eq_of_lt_of_lt below other)

variable {ring : Buffer α} {elements : List α}

theorem slot_lt (room : 0 < ring.cap) (i : Nat) : i % ring.cap < ring.slots.length :=
  Nat.mod_lt i room

theorem Holds.push_filling (holds : Holds ring elements) (free : elements.length < ring.cap)
    (element : α) : Holds (ring.push element) (elements ++ [element]) := by
  have pushed : ring.push element =
      { ring with
        slots := ring.slots.set ((ring.head + ring.size) % ring.cap) (some element)
        size := ring.size + 1 } := if_pos (by rw [holds.size]; exact free)
  have cap : (ring.push element).cap = ring.cap := cap_push ring element
  constructor
  · rw [cap]
    exact holds.room
  · rw [cap, pushed]
    exact holds.head
  · rw [pushed, List.length_append, List.length_singleton, ← holds.size]
  · rw [cap, List.length_append, List.length_singleton]
    exact free
  · intro i below
    rw [List.length_append, List.length_singleton] at below
    have slots : (ring.push element).nth i =
        (ring.slots.set ((ring.head + elements.length) % ring.cap)
          (some element))[(ring.head + i) % ring.cap]?.join := by
      rw [nth, cap, pushed, holds.size]
    rw [slots]
    rcases Nat.lt_or_ge i elements.length with old | new
    · have apart := slot_ne ring.head free (old.trans free) (Nat.ne_of_gt old)
      rw [List.getElem?_set_ne apart, List.getElem?_append_left old]
      exact holds.items i old
    · obtain rfl : i = elements.length := Nat.le_antisymm (Nat.le_of_lt_succ below) new
      rw [List.getElem?_set_self (slot_lt holds.room _), List.getElem?_concat_length]
      rfl

theorem Holds.push_full (holds : Holds ring elements) (full : ring.cap ≤ elements.length)
    (element : α) : Holds (ring.push element) (elements.tail ++ [element]) := by
  have filled : elements.length = ring.cap := Nat.le_antisymm holds.fits full
  have pushed : ring.push element =
      { ring with
        slots := ring.slots.set ring.head (some element)
        head := (ring.head + 1) % ring.cap } := if_neg (by rw [holds.size]; omega)
  have cap : (ring.push element).cap = ring.cap := cap_push ring element
  have room := holds.room
  have length : (elements.tail ++ [element]).length = ring.cap := by
    rw [List.length_append, List.length_tail, List.length_singleton, filled]
    omega
  constructor
  · rwa [cap]
  · rw [cap, pushed]
    exact Nat.mod_lt _ room
  · rw [length, pushed, holds.size, filled]
  · rw [cap, length]
  · intro i below
    rw [length] at below
    -- the element at distance `i` was at distance `i + 1` before, or is the new one
    have slots : (ring.push element).nth i =
        (ring.slots.set ((ring.head + 0) % ring.cap)
          (some element))[(ring.head + (i + 1)) % ring.cap]?.join := by
      have oldest : (ring.head + 0) % ring.cap = ring.head := Nat.mod_eq_of_lt holds.head
      rw [nth, cap, pushed, oldest]
      dsimp only
      rw [Nat.mod_add_mod, Nat.add_assoc, Nat.add_comm 1 i]
    rw [slots]
    rcases Nat.lt_or_ge (i + 1) ring.cap with old | new
    · have apart := slot_ne ring.head room old (Nat.succ_ne_zero i).symm
      rw [List.getElem?_set_ne apart, List.getElem?_append_left
        (by rw [List.length_tail, filled]; omega), List.getElem?_tail]
      exact holds.items (i + 1) (by omega)
    · have last : i + 1 = ring.cap := by omega
      have position : i = elements.tail.length := by
        rw [List.length_tail, filled]
        omega
      rw [last, Nat.add_zero, Nat.add_mod_right, List.getElem?_set_self (slot_lt room _),
        position, List.getElem?_concat_length]
      rfl

/-- A buffer with the end of a sequence has the end of the longer sequence after
an element was added to both. -/
theorem Holds.push {sequence : List α}
    (holds : Holds ring (sequence.drop (sequence.length - ring.cap))) (element : α) :
    Holds (ring.push element)
      ((sequence ++ [element]).drop ((sequence ++ [element]).length - (ring.push element).cap)) := by
  have room := holds.room
  rw [cap_push, List.length_append, List.length_singleton]
  rcases Nat.lt_or_ge sequence.length ring.cap with filling | full
  · have whole : sequence.length - ring.cap = 0 := by omega
    have still : sequence.length + 1 - ring.cap = 0 := by omega
    rw [whole, List.drop_zero] at holds
    rw [still, List.drop_zero]
    exact holds.push_filling filling element
  · have next : sequence.length + 1 - ring.cap = sequence.length - ring.cap + 1 := by omega
    have ended := holds.push_full (by rw [List.length_drop]; omega) element
    rwa [next, List.drop_append_of_le_length (by omega), ← List.tail_drop]

theorem filterMap_getElem? (elements : List α) :
    ((List.range elements.length).filterMap fun i => elements[i]?) = elements := by
  induction elements using List.reverseRecOn with
  | nil => rfl
  | append_singleton front last ih =>
    have old : ((List.range front.length).filterMap fun i => (front ++ [last])[i]?) =
        (List.range front.length).filterMap fun i => front[i]? := by
      apply List.filterMap_congr
      intro i member
      exact List.getElem?_append_left (List.mem_range.mp member)
    rw [List.length_append, List.length_singleton, List.range_succ, List.filterMap_append, old,
      ih]
    simp

theorem Holds.contents_eq (holds : Holds ring elements) : ring.contents = elements := by
  have slots : (List.range elements.length).filterMap ring.nth =
      (List.range elements.length).filterMap fun i => elements[i]? := by
    apply List.filterMap_congr
    intro i member
    exact holds.items i (List.mem_range.mp member)
  rw [contents, holds.size, slots]
  exact filterMap_getElem? elements

end Buffer

end Scriva.Lib.Ring
