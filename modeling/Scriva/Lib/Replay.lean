import Mathlib.Data.List.Basic
import Mathlib.Logic.Function.Basic
import Mathlib.Tactic

/-!
# Replaying a log onto a state that may be ahead of it

A log changes the values under keys.  A replica takes a value over only if its
revision is above that of the value it has, and always takes a removal over.
It may start from a state that already has later changes in it, key by key, and
it may go back to an earlier place in the log and replay from there.  While it
does, what it has under each key is what the log made of the key at some place
between where the replica is and the furthest place it ever was at or started
from.  Once it is there again, it has exactly the state of the log.
-/

namespace Scriva.Lib.Replay

variable {K V : Type} [DecidableEq K]

/-- A new value for a key, or its removal. -/
structure Change (K V : Type) where
  key : K
  value : Option V

def commit (state : K → Option V) (change : Change K V) : K → Option V :=
  Function.update state change.key change.value

/-- The state after the first changes of a log. -/
def after (log : List (Change K V)) (n : Nat) : K → Option V :=
  (log.take n).foldl commit fun _ => none

/-- What a replica has under a key after a change of it. -/
def accept (rev : V → Nat) (current change : Option V) : Option V :=
  match current, change with
  | _, none => none
  | none, some value => some value
  | some held, some value => if rev value ≤ rev held then some held else some value

def apply (rev : V → Nat) (state : K → Option V) (change : Change K V) : K → Option V :=
  Function.update state change.key (accept rev (state change.key) change.value)

/-- The revisions of a key increase from one removal to the next. -/
def Increasing (rev : V → Nat) (log : List (Change K V)) : Prop :=
  ∀ (i j : Nat) (key : K) (first second : V), i < j → log[i]? = some ⟨key, some first⟩ →
    log[j]? = some ⟨key, some second⟩ →
    (∀ k : Nat, i < k → k < j → log[k]? ≠ some ⟨key, none⟩) → rev first < rev second

/-! ## The state of a log -/

section States

variable {log : List (Change K V)} {n : Nat}

theorem after_succ {change : Change K V} (here : log[n]? = some change) :
    after log (n + 1) = commit (after log n) change := by
  rw [after, List.take_add_one, here, List.foldl_append]
  rfl

theorem after_beyond (ended : log[n]? = none) : after log (n + 1) = after log n := by
  rw [after, List.take_add_one, ended, Option.toList_none, List.append_nil, after]

/-- Changing the values of a log changes the values of its states. -/
theorem after_map {W : Type} (f : V → W) (log : List (Change K V)) (n : Nat) (key : K) :
    after (log.map fun change => ⟨change.key, change.value.map f⟩) n key =
      (after log n key).map f := by
  induction n with
  | zero => rfl
  | succ n ih =>
    rcases here : log[n]? with - | change
    · have ended : (log.map fun change => (⟨change.key, change.value.map f⟩ : Change K W))[n]? =
          none := by
        rw [List.getElem?_map, here]
        rfl
      rw [after_beyond here, after_beyond ended, ih]
    · have mapped : (log.map fun change => (⟨change.key, change.value.map f⟩ : Change K W))[n]? =
          some ⟨change.key, change.value.map f⟩ := by
        rw [List.getElem?_map, here]
        rfl
      rw [after_succ here, after_succ mapped, commit, commit, Function.update_apply,
        Function.update_apply]
      split_ifs
      · rfl
      · exact ih

/-- A value was put at some place, and its key was not changed from there on. -/
theorem exists_of_after {key : K} {value : V} (found : after log n key = some value) :
    ∃ i < n, log[i]? = some ⟨key, some value⟩ ∧
      ∀ k, i < k → k < n → ∀ change, log[k]? = some change → change.key ≠ key := by
  induction n with
  | zero => cases found
  | succ n ih =>
    rcases here : log[n]? with - | change
    · rw [after_beyond here] at found
      obtain ⟨i, below, put, later⟩ := ih found
      refine ⟨i, Nat.lt_succ_of_lt below, put, ?_⟩
      intro k above within change there
      rcases Nat.lt_succ_iff_lt_or_eq.mp within with inside | rfl
      · exact later k above inside change there
      · rw [here] at there
        cases there
    · rw [after_succ here, commit, Function.update_apply] at found
      split_ifs at found with same
      · obtain ⟨changed, assigned⟩ := change
        dsimp only at same found
        subst same found
        exact ⟨n, Nat.lt_succ_self n, here, fun k above within => absurd within (by omega)⟩
      · obtain ⟨i, below, put, later⟩ := ih found
        refine ⟨i, Nat.lt_succ_of_lt below, put, ?_⟩
        intro k above within other there
        rcases Nat.lt_succ_iff_lt_or_eq.mp within with inside | rfl
        · exact later k above inside other there
        · rw [here, Option.some.injEq] at there
          rw [← there]
          exact Ne.symm same

theorem Increasing.rev_lt {rev : V → Nat} (increasing : Increasing rev log) {key : K}
    {held value : V} (found : after log n key = some held)
    (here : log[n]? = some ⟨key, some value⟩) : rev held < rev value := by
  obtain ⟨i, below, put, later⟩ := exists_of_after found
  refine increasing i n key held value below put here ?_
  intro k above within removed
  exact later k above within _ removed rfl

end States

/-! ## Replicas -/

/-- Under each key, the state of the log at a place between two others. -/
def Ahead (log : List (Change K V)) (low high : Nat) (state : K → Option V) : Prop :=
  ∀ key, ∃ i, low ≤ i ∧ i ≤ high ∧ state key = after log i key

section Replicas

variable {log : List (Change K V)} {n low high : Nat} {state : K → Option V}

theorem Ahead.mono (ahead : Ahead log n high state) {low high' : Nat} (earlier : low ≤ n)
    (later : high ≤ high') : Ahead log low high' state := by
  intro key
  obtain ⟨i, above, below, same⟩ := ahead key
  exact ⟨i, earlier.trans above, below.trans later, same⟩

theorem Ahead.apply {rev : V → Nat} (increasing : Increasing rev log)
    (ahead : Ahead log n high state) {change : Change K V} (here : log[n]? = some change) :
    Ahead log (n + 1) (max high (n + 1)) (apply rev state change) := by
  intro key
  obtain ⟨i, above, below, same⟩ := ahead key
  have next : after log (n + 1) key =
      if key = change.key then change.value else after log n key := by
    rw [after_succ here, commit, Function.update_apply]
  have changed : Replay.apply rev state change key =
      if key = change.key then accept rev (state change.key) change.value else state key := by
    rw [Replay.apply, Function.update_apply]
  by_cases target : key = change.key
  · subst target
    rw [if_pos rfl] at next changed
    obtain ⟨key, value⟩ := change
    rcases value with - | value
    · exact ⟨n + 1, le_rfl, le_max_right _ _, changed.trans next.symm⟩
    · rcases held : state key with - | old
      · rw [held] at changed
        exact ⟨n + 1, le_rfl, le_max_right _ _, changed.trans next.symm⟩
      · rw [held, accept] at changed
        split_ifs at changed with stale
        · -- a value of this or a higher revision is from a later place
          refine ⟨i, ?_, below.trans (le_max_left _ _), by rw [changed, ← held]; exact same⟩
          rcases Nat.eq_or_lt_of_le above with rfl | later
          · have lower := increasing.rev_lt (same.symm.trans held) here
            omega
          · exact later
        · exact ⟨n + 1, le_rfl, le_max_right _ _, changed.trans next.symm⟩
  · rw [if_neg target] at next changed
    rcases Nat.eq_or_lt_of_le above with rfl | later
    · exact ⟨n + 1, le_rfl, le_max_right _ _, changed.trans (same.trans next.symm)⟩
    · exact ⟨i, later, below.trans (le_max_left _ _), changed.trans same⟩

/-- A replica that has come to where it was furthest has the state of the log. -/
theorem Ahead.eq_after (ahead : Ahead log n high state) (furthest : high ≤ n) :
    state = after log n := by
  funext key
  obtain ⟨i, above, below, same⟩ := ahead key
  obtain rfl : i = n := by omega
  exact same

end Replicas

end Scriva.Lib.Replay
