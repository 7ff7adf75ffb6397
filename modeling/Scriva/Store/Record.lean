import Scriva.Lib.Fallible
import Scriva.Lib.JsonText

/-!
# Record data

The values a record field can hold, and the maps from field names to values
that make up a record.  A map is kept as its fields in strictly increasing
order of their names, at every depth, which is the order the encoder writes
them in; so equal maps are equal lists and have equal renderings.

Numbers are a parameter: the encoder renders a number to a literal and the
decoder reads the literal back, and this is all that is assumed of it.
-/

namespace Scriva.Store.Record

open Lib.JsonText Lib.Text

/-- The textual forms of the numbers of the program: the JSON literal, which
round-trips, and the form under the `%v` verb. -/
class JsonNumber (N : Type) where
  format : N → String
  parse : String → Option N
  sprint : N → String
  parse_format : ∀ number, parse (format number) = some number
  format_literal : ∀ number,
    (format number).toList ≠ [] ∧ ∀ c ∈ (format number).toList, isNumberChar c

/-- The integers are numbers, written in decimal. -/
instance : JsonNumber Int where
  format number := String.ofList (signed number)
  parse literal := signed? literal.toList
  sprint number := String.ofList (signed number)
  parse_format number := by simp
  format_literal number := by
    refine ⟨by simpa using signed_ne_nil number, fun c member => ?_⟩
    rcases mem_signed (by simpa using member) with digit | rfl
    · simp [isNumberChar, digit]
    · decide

/-- A value as the decoder produces it. -/
inductive Value (N : Type) where
  | null
  | bool (value : Bool)
  | num (number : N)
  | str (text : String)
  | arr (items : List (Value N))
  | obj (fields : List (String × Value N))
deriving Repr

variable {N : Type}

/-! ## Decidable equality -/

section DecidableEquality

variable [DecidableEq N]

mutual

def decideValue : (left right : Value N) → Decidable (left = right)
  | .null, .null => isTrue rfl
  | .bool a, .bool b => decidable_of_iff (a = b) (by simp)
  | .num a, .num b => decidable_of_iff (a = b) (by simp)
  | .str a, .str b => decidable_of_iff (a = b) (by simp)
  | .arr a, .arr b =>
    have := decideItems a b
    decidable_of_iff (a = b) (by simp)
  | .obj a, .obj b =>
    have := decideFields a b
    decidable_of_iff (a = b) (by simp)
  | .null, .bool _ | .null, .num _ | .null, .str _ | .null, .arr _
  | .null, .obj _ | .bool _, .null | .bool _, .num _ | .bool _, .str _
  | .bool _, .arr _ | .bool _, .obj _ | .num _, .null | .num _, .bool _
  | .num _, .str _ | .num _, .arr _ | .num _, .obj _ | .str _, .null
  | .str _, .bool _ | .str _, .num _ | .str _, .arr _ | .str _, .obj _
  | .arr _, .null | .arr _, .bool _ | .arr _, .num _ | .arr _, .str _
  | .arr _, .obj _ | .obj _, .null | .obj _, .bool _ | .obj _, .num _
  | .obj _, .str _ | .obj _, .arr _ => isFalse (by simp)

def decideItems : (left right : List (Value N)) → Decidable (left = right)
  | [], [] => isTrue rfl
  | [], _ :: _ | _ :: _, [] => isFalse (by simp)
  | a :: left, b :: right =>
    have := decideValue a b
    have := decideItems left right
    decidable_of_iff (a = b ∧ left = right) (by simp)

def decideFields :
    (left right : List (String × Value N)) → Decidable (left = right)
  | [], [] => isTrue rfl
  | [], _ :: _ | _ :: _, [] => isFalse (by simp)
  | (name, a) :: left, (name', b) :: right =>
    have := decideValue a b
    have := decideFields left right
    decidable_of_iff (name = name' ∧ a = b ∧ left = right) (by simp [and_assoc])

end

instance : DecidableEq (Value N) := decideValue

end DecidableEquality

/-! ## Fields in order -/

/-- Set a field, keeping the fields in the order of their names. -/
def insertField (name : String) (value : Value N) :
    List (String × Value N) → List (String × Value N)
  | [] => [(name, value)]
  | (name', value') :: rest =>
    if name < name' then (name, value) :: (name', value') :: rest
    else if name = name' then (name, value) :: rest
    else (name', value') :: insertField name value rest

theorem lookup_cons_if (name other : String) (value : Value N)
    (fields : List (String × Value N)) :
    ((name, value) :: fields).lookup other =
      if other = name then some value else fields.lookup other := by
  by_cases same : other = name
  · simp [same]
  · have differs : (other == name) = false := by simpa using same
    simp [List.lookup_cons, differs, same]

theorem lookup_insertField (name other : String) (value : Value N)
    (fields : List (String × Value N)) :
    (insertField name value fields).lookup other =
      if other = name then some value else fields.lookup other := by
  induction fields with
  | nil => exact lookup_cons_if name other value []
  | cons field rest ih =>
    obtain ⟨name', value'⟩ := field
    unfold insertField
    by_cases before : name < name'
    · rw [if_pos before]
      exact lookup_cons_if name other value ((name', value') :: rest)
    · rw [if_neg before]
      by_cases equal : name = name'
      · subst equal
        simp only [if_true, lookup_cons_if]
        split_ifs <;> rfl
      · simp only [if_neg equal, lookup_cons_if, ih]
        by_cases here : other = name'
        · subst here
          simp [Ne.symm equal]
        · simp [here]

variable {name : String} {value : Value N} {fields : List (String × Value N)}

theorem mem_insertField_name {field : String × Value N}
    (member : field ∈ insertField name value fields) : field.1 = name ∨ field ∈ fields := by
  induction fields with
  | nil =>
    simp only [insertField, List.mem_singleton] at member
    exact Or.inl (by rw [member])
  | cons head rest ih =>
    obtain ⟨name', value'⟩ := head
    unfold insertField at member
    split_ifs at member with before equal
    · rcases List.mem_cons.mp member with rfl | old
      · exact Or.inl rfl
      · exact Or.inr old
    · rcases List.mem_cons.mp member with rfl | old
      · exact Or.inl rfl
      · exact Or.inr (.tail _ old)
    · rcases List.mem_cons.mp member with rfl | old
      · exact Or.inr (.head _)
      · rcases ih old with same | old
        · exact Or.inl same
        · exact Or.inr (.tail _ old)

mutual

/-- Every map inside the value has its fields in strictly increasing order. -/
def canonical : Value N → Bool
  | .null | .bool _ | .num _ | .str _ => true
  | .arr items => canonicalItems items
  | .obj fields => canonicalFields fields

def canonicalItems : List (Value N) → Bool
  | [] => true
  | item :: items => canonical item && canonicalItems items

def canonicalFields : List (String × Value N) → Bool
  | [] => true
  | (name, value) :: fields =>
    fields.all (fun field => name < field.1) && canonical value &&
      canonicalFields fields

end

theorem canonicalFields_cons_iff (name : String) (value : Value N)
    (fields : List (String × Value N)) :
    canonicalFields ((name, value) :: fields) = true ↔
      (∀ field ∈ fields, name < field.1) ∧ canonical value = true ∧
        canonicalFields fields = true := by
  simp [canonicalFields, and_assoc]

theorem canonicalFields_insertField (ordered : canonicalFields fields) (nested : canonical value) :
    canonicalFields (insertField name value fields) := by
  induction fields with
  | nil => simp [insertField, canonicalFields, nested]
  | cons field rest ih =>
    obtain ⟨name', value'⟩ := field
    obtain ⟨least, valid, tail⟩ :=
      (canonicalFields_cons_iff name' value' rest).mp ordered
    unfold insertField
    split_ifs with before equal
    · rw [canonicalFields_cons_iff]
      refine ⟨fun field member => ?_, nested, ordered⟩
      rcases List.mem_cons.mp member with rfl | member
      · exact before
      · exact before.trans (least field member)
    · subst equal
      rw [canonicalFields_cons_iff]
      exact ⟨least, nested, tail⟩
    · rw [canonicalFields_cons_iff]
      refine ⟨fun field member => ?_, valid, ih tail⟩
      rcases mem_insertField_name member with same | old
      · rw [same]
        exact lt_of_le_of_ne (not_lt.mp before) (Ne.symm equal)
      · exact least field old

/-- A field past all others is added at the end. -/
theorem insertField_last (last : ∀ field ∈ fields, field.1 < name) :
    insertField name value fields = fields ++ [(name, value)] := by
  induction fields with
  | nil => rfl
  | cons field rest ih =>
    obtain ⟨name', value'⟩ := field
    have above : name' < name := last _ (.head _)
    rw [insertField, if_neg above.asymm, if_neg above.ne',
      ih fun field member => last field (.tail _ member)]
    rfl

/-! ## Records -/

/-- The fields of a record. -/
structure Data (N : Type) where
  fields : List (String × Value N)
  ordered : canonicalFields fields = true

@[ext]
theorem Data.ext {left right : Data N} (equal : left.fields = right.fields) :
    left = right := by
  cases left
  cases right
  cases equal
  rfl

instance [DecidableEq N] : DecidableEq (Data N) := fun left right =>
  decidable_of_iff (left.fields = right.fields)
    ⟨Data.ext, fun equal => by rw [equal]⟩

namespace Data

def empty : Data N := ⟨[], rfl⟩

def get (data : Data N) (field : String) : Option (Value N) :=
  data.fields.lookup field

/-- A copy of the record with one field set to a text. -/
def set (data : Data N) (field text : String) : Data N where
  fields := insertField field (.str text) data.fields
  ordered := canonicalFields_insertField data.ordered rfl

@[simp]
theorem get_set (data : Data N) (field other text : String) :
    (data.set field text).get other =
      if other = field then some (.str text) else data.get other :=
  lookup_insertField field other (.str text) data.fields

theorem set_ne_empty (data : Data N) (field text : String) :
    data.set field text ≠ empty := by
  intro equal
  have found := get_set data field field text
  rw [equal] at found
  simp [get, empty] at found

end Data

/-- Field access on a map that may be nil, as the language has it. -/
def field? (data : Option (Data N)) (field : String) : Option (Value N) :=
  data.bind (·.get field)

/-! ## The textual form under `%v` -/

section Sprint

variable [JsonNumber N]

mutual

def sprint : Value N → String
  | .null => "<nil>"
  | .bool true => "true"
  | .bool false => "false"
  | .num number => JsonNumber.sprint number
  | .str text => text
  | .arr items => "[" ++ " ".intercalate (sprintItems items) ++ "]"
  | .obj fields => "map[" ++ " ".intercalate (sprintFields fields) ++ "]"

def sprintItems : List (Value N) → List String
  | [] => []
  | item :: items => sprint item :: sprintItems items

def sprintFields : List (String × Value N) → List String
  | [] => []
  | (name, value) :: fields => (name ++ ":" ++ sprint value) :: sprintFields fields

end

end Sprint

/-! ## Encoding and decoding -/

section Codec

variable [JsonNumber N]

mutual

def toJson : Value N → Json
  | .null => .null
  | .bool value => .bool value
  | .num number => .num (JsonNumber.format number)
  | .str text => .str text
  | .arr items => .arr (toJsonItems items)
  | .obj fields => .obj (toJsonFields fields)

def toJsonItems : List (Value N) → List Json
  | [] => []
  | item :: items => toJson item :: toJsonItems items

def toJsonFields : List (String × Value N) → List (String × Json)
  | [] => []
  | (name, value) :: fields => (name, toJson value) :: toJsonFields fields

end

mutual

def ofJson? : Json → Option (Value N)
  | .null => some .null
  | .bool value => some (.bool value)
  | .num literal => (JsonNumber.parse literal).map .num
  | .str text => some (.str text)
  | .arr items => (ofJsonItems? items).map .arr
  | .obj fields => (ofJsonFields? fields []).map .obj

def ofJsonItems? : List Json → Option (List (Value N))
  | [] => some []
  | item :: items =>
    match ofJson? item, ofJsonItems? items with
    | some value, some values => some (value :: values)
    | _, _ => none

/-- Fill a map field by field; a repeated name overwrites the earlier value. -/
def ofJsonFields? :
    List (String × Json) → List (String × Value N) →
      Option (List (String × Value N))
  | [], filled => some filled
  | (name, json) :: fields, filled =>
    match ofJson? json with
    | some value => ofJsonFields? fields (insertField name value filled)
    | none => none

end

mutual

theorem wellFormed_toJson (value : Value N) : WellFormed (toJson value) := by
  match value with
  | .null | .bool _ | .str _ => trivial
  | .num number => exact JsonNumber.format_literal number
  | .arr items => exact wellFormed_toJsonItems items
  | .obj fields => exact wellFormed_toJsonFields fields

theorem wellFormed_toJsonItems (items : List (Value N)) :
    WellFormedItems (toJsonItems items) := by
  match items with
  | [] => trivial
  | item :: items => exact ⟨wellFormed_toJson item, wellFormed_toJsonItems items⟩

theorem wellFormed_toJsonFields (fields : List (String × Value N)) :
    WellFormedFields (toJsonFields fields) := by
  match fields with
  | [] => trivial
  | (_, value) :: fields =>
    exact ⟨wellFormed_toJson value, wellFormed_toJsonFields fields⟩

end

mutual

theorem ofJson?_toJson (value : Value N) (ordered : canonical value) :
    ofJson? (toJson value) = some value := by
  match value with
  | .null | .bool _ | .str _ => rfl
  | .num number => simp [toJson, ofJson?, JsonNumber.parse_format]
  | .arr items =>
    simp [toJson, ofJson?, ofJsonItems?_toJsonItems items ordered]
  | .obj fields =>
    have read := ofJsonFields?_toJsonFields fields [] ordered (by simp)
    simp [toJson, ofJson?, read]

theorem ofJsonItems?_toJsonItems (items : List (Value N))
    (ordered : canonicalItems items) :
    ofJsonItems? (toJsonItems items) = some items := by
  match items with
  | [] => rfl
  | item :: items =>
    simp only [canonicalItems, Bool.and_eq_true] at ordered
    simp [toJsonItems, ofJsonItems?, ofJson?_toJson item ordered.1,
      ofJsonItems?_toJsonItems items ordered.2]

theorem ofJsonFields?_toJsonFields (fields filled : List (String × Value N))
    (ordered : canonicalFields fields)
    (above : ∀ earlier ∈ filled, ∀ later ∈ fields, earlier.1 < later.1) :
    ofJsonFields? (toJsonFields fields) filled = some (filled ++ fields) := by
  match fields with
  | [] => simp [toJsonFields, ofJsonFields?]
  | (name, value) :: fields =>
    obtain ⟨least, nested, tail⟩ :=
      (canonicalFields_cons_iff name value fields).mp ordered
    have placed : insertField name value filled = filled ++ [(name, value)] :=
      insertField_last fun earlier member =>
        above earlier member _ (.head _)
    simp only [toJsonFields, ofJsonFields?, ofJson?_toJson value nested, placed]
    rw [ofJsonFields?_toJsonFields fields (filled ++ [(name, value)]) tail]
    · simp
    · intro earlier member later here
      rcases List.mem_append.mp member with old | new
      · exact above earlier old later (.tail _ here)
      · rw [List.mem_singleton.mp new]
        exact least later here

end

mutual

theorem canonical_ofJson? (json : Json) (value : Value N)
    (read : ofJson? json = some value) : canonical value := by
  match json with
  | .null | .bool _ | .str _ =>
    simp only [ofJson?, Option.some.injEq] at read
    subst read
    rfl
  | .num literal =>
    simp only [ofJson?, Option.map_eq_some_iff] at read
    obtain ⟨_, -, rfl⟩ := read
    rfl
  | .arr items =>
    simp only [ofJson?, Option.map_eq_some_iff] at read
    obtain ⟨values, found, rfl⟩ := read
    exact canonicalItems_ofJsonItems? items values found
  | .obj fields =>
    simp only [ofJson?, Option.map_eq_some_iff] at read
    obtain ⟨values, found, rfl⟩ := read
    exact canonicalFields_ofJsonFields? fields [] values rfl found

theorem canonicalItems_ofJsonItems? (items : List Json)
    (values : List (Value N)) (read : ofJsonItems? items = some values) :
    canonicalItems values := by
  match items with
  | [] =>
    simp only [ofJsonItems?, Option.some.injEq] at read
    subst read
    rfl
  | item :: items =>
    simp only [ofJsonItems?] at read
    split at read
    · rename_i value rest first others
      simp only [Option.some.injEq] at read
      subst read
      simp [canonicalItems, canonical_ofJson? item value first,
        canonicalItems_ofJsonItems? items rest others]
    · cases read

theorem canonicalFields_ofJsonFields? (fields : List (String × Json))
    (filled values : List (String × Value N)) (ordered : canonicalFields filled)
    (read : ofJsonFields? fields filled = some values) :
    canonicalFields values := by
  match fields with
  | [] =>
    simp only [ofJsonFields?, Option.some.injEq] at read
    subst read
    exact ordered
  | (name, json) :: fields =>
    simp only [ofJsonFields?] at read
    split at read
    · rename_i value first
      exact canonicalFields_ofJsonFields? fields _ values
        (canonicalFields_insertField ordered
          (canonical_ofJson? json value first)) read
    · cases read

end

theorem mem_toJsonFields (member : (name, value) ∈ fields) :
    (name, toJson value) ∈ toJsonFields fields := by
  induction fields with
  | nil => cases member
  | cons first fields ih =>
    rw [toJsonFields]
    rcases List.mem_cons.mp member with rfl | later
    · exact (.head _)
    · exact List.mem_cons_of_mem _ (ih later)

/-- The record written as a JSON object. -/
def Data.toJson (data : Data N) : Json :=
  .obj (toJsonFields data.fields)

/-- Read a record into a map that may already hold fields: an object adds its
fields to it, `null` makes it nil. -/
def Data.merge? (old : Option (Data N)) : Json → Option (Option (Data N))
  | .null => some none
  | .obj fields =>
    let filled := old.getD Data.empty
    match read : ofJsonFields? fields filled.fields with
    | some values =>
      some (some ⟨values,
        canonicalFields_ofJsonFields? fields _ values filled.ordered read⟩)
    | none => none
  | _ => none

theorem Data.merge?_toJson (data : Data N) :
    Data.merge? none data.toJson = some (some data) := by
  have read := ofJsonFields?_toJsonFields data.fields [] data.ordered (by simp)
  rw [List.nil_append] at read
  simp only [Data.toJson, Data.merge?]
  split
  · rename_i values found
    cases read.symm.trans found
    rfl
  · rename_i missing
    cases read.symm.trans missing

end Codec

end Scriva.Store.Record
