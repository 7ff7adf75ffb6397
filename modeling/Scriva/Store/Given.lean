import Scriva.Store.Record

/-!
# Values as the embedded API takes them

A program that embeds the store writes maps of values of the language.  Numbers
come as floats or as integers; the encoder writes an integer in decimal, and the
decoder reads every number as a float.  So what is indexed at a write may print
differently from what is stored, although both have one JSON form.
-/

namespace Scriva.Store.Given

open Lib.Text Lib.JsonText Store.Record

inductive GoValue (N : Type) where
  | null
  | bool (value : Bool)
  | float (number : N)
  | int (value : Int)
  | str (text : String)
  | arr (items : List (GoValue N))
  | obj (fields : List (String × GoValue N))

/-- The fields of a map, in the order of their names. -/
abbrev GoData (N : Type) := List (String × GoValue N)

namespace GoValue

variable {N : Type} [JsonNumber N]

mutual

/-- The textual form under `%v`. -/
def sprint : GoValue N → String
  | .null => "<nil>"
  | .bool true => "true"
  | .bool false => "false"
  | .float number => JsonNumber.sprint number
  | .int value => String.ofList (signed value)
  | .str text => text
  | .arr items => "[" ++ " ".intercalate (sprintItems items) ++ "]"
  | .obj fields => "map[" ++ " ".intercalate (sprintFields fields) ++ "]"

def sprintItems : List (GoValue N) → List String
  | [] => []
  | item :: items => sprint item :: sprintItems items

def sprintFields : GoData N → List String
  | [] => []
  | (name, value) :: fields => (name ++ ":" ++ sprint value) :: sprintFields fields

end

mutual

def toJson : GoValue N → Json
  | .null => .null
  | .bool value => .bool value
  | .float number => .num (JsonNumber.format number)
  | .int value => .num (String.ofList (signed value))
  | .str text => .str text
  | .arr items => .arr (toJsonItems items)
  | .obj fields => .obj (toJsonFields fields)

def toJsonItems : List (GoValue N) → List Json
  | [] => []
  | item :: items => toJson item :: toJsonItems items

def toJsonFields : GoData N → List (String × Json)
  | [] => []
  | (name, value) :: fields => (name, toJson value) :: toJsonFields fields

end

mutual

/-- A value as the decoder returns it. -/
def ofValue : Value N → GoValue N
  | .null => .null
  | .bool value => .bool value
  | .num number => .float number
  | .str text => .str text
  | .arr items => .arr (ofItems items)
  | .obj fields => .obj (ofFields fields)

def ofItems : List (Value N) → List (GoValue N)
  | [] => []
  | item :: items => ofValue item :: ofItems items

def ofFields : List (String × Value N) → GoData N
  | [] => []
  | (name, value) :: fields => (name, ofValue value) :: ofFields fields

end

mutual

@[simp]
theorem sprint_ofValue (value : Value N) : (ofValue value).sprint = Record.sprint value := by
  match value with
  | .null | .bool true | .bool false | .num _ | .str _ => simp [ofValue, sprint, Record.sprint]
  | .arr items => simp [ofValue, sprint, Record.sprint, sprintItems_ofItems items]
  | .obj fields => simp [ofValue, sprint, Record.sprint, sprintFields_ofFields fields]

theorem sprintItems_ofItems (items : List (Value N)) :
    sprintItems (ofItems items) = Record.sprintItems items := by
  match items with
  | [] => rfl
  | item :: items =>
    rw [ofItems, sprintItems, Record.sprintItems, sprint_ofValue item,
      sprintItems_ofItems items]

theorem sprintFields_ofFields (fields : List (String × Value N)) :
    sprintFields (ofFields fields) = Record.sprintFields fields := by
  match fields with
  | [] => rfl
  | (_, value) :: fields =>
    rw [ofFields, sprintFields, Record.sprintFields, sprint_ofValue value,
      sprintFields_ofFields fields]

end

mutual

@[simp]
theorem toJson_ofValue (value : Value N) : (ofValue value).toJson = Record.toJson value := by
  match value with
  | .null | .bool _ | .num _ | .str _ => simp [ofValue, toJson, Record.toJson]
  | .arr items => simp [ofValue, toJson, Record.toJson, toJsonItems_ofItems items]
  | .obj fields => simp [ofValue, toJson, Record.toJson, toJsonFields_ofFields fields]

theorem toJsonItems_ofItems (items : List (Value N)) :
    toJsonItems (ofItems items) = Record.toJsonItems items := by
  match items with
  | [] => rfl
  | item :: items =>
    rw [ofItems, toJsonItems, Record.toJsonItems, toJson_ofValue item,
      toJsonItems_ofItems items]

theorem toJsonFields_ofFields (fields : List (String × Value N)) :
    toJsonFields (ofFields fields) = Record.toJsonFields fields := by
  match fields with
  | [] => rfl
  | (_, value) :: fields =>
    rw [ofFields, toJsonFields, Record.toJsonFields, toJson_ofValue value,
      toJsonFields_ofFields fields]

end

end GoValue

/-! ## Maps and the records they are stored as -/

variable {N : Type} [JsonNumber N]

theorem lookup_toJsonFields_given (fields : GoData N) (name : String) :
    (GoValue.toJsonFields fields).lookup name = (fields.lookup name).map GoValue.toJson := by
  induction fields with
  | nil => rfl
  | cons field fields ih =>
    obtain ⟨first, value⟩ := field
    rw [GoValue.toJsonFields, List.lookup_cons, List.lookup_cons]
    cases name == first with
    | true => rfl
    | false => exact ih

theorem lookup_toJsonFields (fields : List (String × Value N)) (name : String) :
    (toJsonFields fields).lookup name = (fields.lookup name).map toJson := by
  induction fields with
  | nil => rfl
  | cons field fields ih =>
    obtain ⟨first, value⟩ := field
    rw [toJsonFields, List.lookup_cons, List.lookup_cons]
    cases name == first with
    | true => rfl
    | false => exact ih

/-- A map and the record it is stored as have one JSON form.  A line can be read
back only then, because its checksum is over the JSON form of the map, and the
reader computes it over that of the record. -/
def Written (given : Option (GoData N)) (data : Option (Data N)) : Prop :=
  given.map GoValue.toJsonFields = data.map fun data => toJsonFields data.fields

/-- Field access on a map that may be nil. -/
def given? (given : Option (GoData N)) (field : String) : Option (GoValue N) :=
  given.bind fun fields => fields.lookup field

theorem Written.field {given : Option (GoData N)} {data : Option (Data N)}
    (written : Written given data) (field : String) :
    (given? given field).map GoValue.toJson = (field? data field).map toJson := by
  have looked := congrArg (fun fields => fields.bind fun fields => fields.lookup field) written
  simp only [Option.bind_map] at looked
  rcases given with - | given
  · rcases data with - | data
    · rfl
    · cases written
  · rcases data with - | data
    · cases written
    · rw [Option.bind_some, Option.bind_some, Function.comp_apply, Function.comp_apply,
        lookup_toJsonFields_given, lookup_toJsonFields] at looked
      exact looked

end Scriva.Store.Given
