import Mathlib.Data.Finmap
import Mathlib.Tactic

/-!
# Keyed folds

A log whose entries each change a finite map at one key.  What the map holds
at a key after the log has been replayed depends only on the entries with that
key, which turns facts about a replay into facts about one key's history.
-/

namespace Scriva.Lib.Keyed

/-- Finite maps from keys to values. -/
abbrev Map (K V : Type) := Finmap fun _ : K => V

variable {K V E : Type} [DecidableEq K]

theorem lookup_insert_if (m : Map K V) (key other : K) (value : V) :
    (m.insert key value).lookup other =
      if other = key then some value else m.lookup other := by
  by_cases same : other = key
  · subst same
    simp [Finmap.lookup_insert]
  · simp [Finmap.lookup_insert_of_ne m same, same]

theorem lookup_erase_if (m : Map K V) (key other : K) :
    (m.erase key).lookup other = if other = key then none else m.lookup other := by
  by_cases same : other = key
  · subst same
    simp [Finmap.lookup_erase]
  · simp [Finmap.lookup_erase_ne same, same]

/-- Set a key to a value, or remove it. -/
def alter (m : Map K V) (key : K) : Option V → Map K V
  | some value => m.insert key value
  | none => m.erase key

theorem lookup_alter (m : Map K V) (key other : K) (value : Option V) :
    (alter m key value).lookup other = if other = key then value else m.lookup other := by
  cases value with
  | none => exact lookup_erase_if m key other
  | some value => exact lookup_insert_if m key other value

theorem alter_lookup (m : Map K V) (key : K) : alter m key (m.lookup key) = m := by
  apply Finmap.ext_lookup
  intro other
  rw [lookup_alter]
  split_ifs with same
  · rw [same]
  · rfl

/-- The map that gives every listed key its value. -/
def collect (value : K → V) (keys : List K) : Map K V :=
  keys.foldr (fun key m => m.insert key (value key)) ∅

theorem lookup_collect (value : K → V) (keys : List K) (key : K) :
    (collect value keys).lookup key = if key ∈ keys then some (value key) else none := by
  induction keys with
  | nil => rfl
  | cons first keys ih =>
    rw [collect, List.foldr_cons, lookup_insert_if]
    by_cases here : key = first
    · simp [here]
    · rw [if_neg here]
      exact ih.trans (by simp [here])

section Replay

variable (key : E → K) (step : E → Option V → Option V)

/-- What a log makes of the value at one key. -/
def history (log : List E) (target : K) (start : Option V) : Option V :=
  (log.filter fun e => key e = target).foldl (fun value e => step e value) start

/-- Replaying a log and then looking at a key is following the key's history. -/
theorem lookup_foldl (log : List E) (m : Map K V) (target : K)
    (apply : Map K V → E → Map K V)
    (pointwise : ∀ m e, apply m e = alter m (key e) (step e (m.lookup (key e)))) :
    (log.foldl apply m).lookup target = history key step log target (m.lookup target) := by
  induction log generalizing m with
  | nil => rfl
  | cons e log ih =>
    rw [List.foldl_cons, ih, pointwise, lookup_alter, history, history,
      List.filter_cons]
    by_cases same : target = key e
    · subst same
      simp
    · simp [same, Ne.symm same]

@[simp]
theorem history_nil (target : K) (start : Option V) :
    history key step [] target start = start := rfl

theorem history_append (front back : List E) (target : K) (start : Option V) :
    history key step (front ++ back) target start =
      history key step back target (history key step front target start) := by
  simp [history]

theorem history_cons (e : E) (log : List E) (target : K) (start : Option V) :
    history key step (e :: log) target start =
      history key step log target (if key e = target then step e start else start) := by
  by_cases same : key e = target
  · simp [history, same]
  · simp [history, same]

theorem history_of_not_mem {log : List E} {target : K} (start : Option V)
    (untouched : ∀ e ∈ log, key e ≠ target) : history key step log target start = start := by
  have empty : (log.filter fun e => key e = target) = [] := by
    simpa [List.filter_eq_nil_iff] using untouched
  rw [history, empty, List.foldl_nil]

end Replay

end Scriva.Lib.Keyed
