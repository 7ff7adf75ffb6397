import Scriva.Store.Record

/-!
# Filters

Predicates on the data of a record.  A comparison value is JSON text; text that
is no JSON stands for itself.  Two numbers are compared as numbers, any other
two values by their form under the `%v` verb.
-/

namespace Scriva.Query

open Lib.Text Lib.JsonText Store.Record

/-- How numbers compare.  Numbers with the same form under `%v` are equal. -/
class NumberOrder (N : Type) [JsonNumber N] where
  compare : N → N → Ordering
  compare_of_sprint : ∀ left right : N,
    JsonNumber.sprint left = JsonNumber.sprint right → compare left right = .eq

/-- The integers in their order. -/
instance : NumberOrder Int where
  compare left right := Ord.compare left right
  compare_of_sprint left right same := by
    have forms : signed left = signed right := String.ofList_injective same
    have parsed := congrArg signed? forms
    rw [signed?_signed, signed?_signed] at parsed
    rw [Option.some.inj parsed]
    exact Int.compare_eq_eq.mpr rfl

inductive Op where
  | eq
  | neq
  | gt
  | gte
  | lt
  | lte
  | contains
  | regex
  | other (text : String)
deriving DecidableEq, Repr

/-- A test of one field against a JSON-encoded value. -/
structure FieldFilter where
  field : String
  op : Op
  value : String
deriving DecidableEq, Repr

inductive Filter where
  | matchAll
  | field (test : FieldFilter)
  | and (filters : List Filter)
  | or (filters : List Filter)

/-- A regular expression compiled, unless it is invalid. -/
abbrev Regexp := String → Option (String → Bool)

variable {N : Type} [JsonNumber N]

/-- The value that JSON text encodes, or the text itself. -/
def decodeValue (text : String) : Value N :=
  ((parse text.toList).bind ofJson?).getD (.str text)

variable [NumberOrder N]

def equal (left right : Value N) : Bool :=
  match left, right with
  | .num a, .num b => NumberOrder.compare a b = .eq
  | _, _ => sprint left = sprint right

def compare (left right : Value N) : Ordering :=
  match left, right with
  | .num a, .num b => NumberOrder.compare a b
  | _, _ => Ord.compare (sprint left) (sprint right)

def contains (text part : String) : Bool :=
  decide (part.toList <:+: text.toList)

def FieldFilter.matchData (regexp : Regexp) (test : FieldFilter) (data : Option (Data N)) : Bool :=
  match field? data test.field with
  | none => false
  | some value =>
    let other : Value N := decodeValue test.value
    match test.op with
    | .eq => equal value other
    | .neq => !equal value other
    | .gt => compare value other = .gt
    | .gte => compare value other ≠ .lt
    | .lt => compare value other = .lt
    | .lte => compare value other ≠ .gt
    | .contains => contains (sprint value) (sprint other)
    | .regex => ((regexp (sprint other)).map fun test => test (sprint value)).getD false
    | .other _ => false

mutual

def Filter.matchData (regexp : Regexp) (data : Option (Data N)) : Filter → Bool
  | .matchAll => true
  | .field test => test.matchData regexp data
  | .and filters => matchEvery regexp data filters
  | .or filters => matchSome regexp data filters

def matchEvery (regexp : Regexp) (data : Option (Data N)) : List Filter → Bool
  | [] => true
  | filter :: filters => filter.matchData regexp data && matchEvery regexp data filters

def matchSome (regexp : Regexp) (data : Option (Data N)) : List Filter → Bool
  | [] => false
  | filter :: filters => filter.matchData regexp data || matchSome regexp data filters

end

/-- Values with the same form under `%v` pass an equality test. -/
theorem equal_of_sprint {left right : Value N} (same : sprint left = sprint right) :
    equal left right = true := by
  unfold equal
  split
  · rename_i a b
    exact decide_eq_true (NumberOrder.compare_of_sprint a b same)
  · exact decide_eq_true same

mutual

/-- The first field of a filter, from the left, with a property. -/
def Filter.firstField (marked : String → Bool) : Filter → Option String
  | .matchAll => none
  | .field test => if marked test.field then some test.field else none
  | .and filters | .or filters => firstFieldIn marked filters

def firstFieldIn (marked : String → Bool) : List Filter → Option String
  | [] => none
  | filter :: filters => (filter.firstField marked).or (firstFieldIn marked filters)

end

end Scriva.Query
