import Scriva.Lib.Binary64
import Scriva.Store.Given
import Scriva.Store.Ndjson

/-!
# Integers in entries

The checksum of an entry is taken over the JSON form of the map that is written,
where an integer stands in decimal, and is verified over the JSON form of the map
that is read, where the same literal has become a float and stands as that float
prints.  An entry is therefore read back where the two forms have one checksum.
-/

namespace Scriva.Store.Integers

open Lib.Text Lib.JsonText Lib.Crc Lib.Binary64 Store.Record Ndjson Given

/-! ## Integers and floats -/

/-- The values of the integer types of the language, signed and unsigned. -/
def Word (n : Int) : Prop :=
  -2 ^ 63 ≤ n ∧ n < 2 ^ 64

instance (n : Int) : Decidable (Word n) := by
  unfold Word
  infer_instance

/-- The magnitude that is printed for the float an integer is read as. -/
def printed (n : Int) : Nat :=
  shortest (nearest n.natAbs)

/-- A magnitude in decimal with the sign of an integer. -/
def withSign (n : Int) (magnitude : Nat) : List Char :=
  if n < 0 then '-' :: decimal magnitude else decimal magnitude

/-- Numbers that hold the floats nearest to the integers: a literal is read as the
nearest float, and a float is printed in the fewest digits. -/
class Float64 (N : Type) extends JsonNumber N where
  ofInt : Int → N
  parse_signed : ∀ n, Word n → parse (String.ofList (signed n)) = some (ofInt n)
  format_ofInt : ∀ n, Word n → format (ofInt n) = String.ofList (withSign n (printed n))

/-- Printing after rounding gives the digits of the integer. -/
def Reprints (n : Int) : Prop :=
  printed n = n.natAbs

instance (n : Int) : Decidable (Reprints n) := by
  unfold Reprints
  infer_instance

theorem reprints_of_small {n : Int} (small : n.natAbs ≤ 2 ^ 53) : Reprints n := by
  rw [Reprints, printed, nearest_small small, shortest_small small]

variable {N : Type} [Float64 N]

theorem format_ofInt_of_reprints {n : Int} (word : Word n) (same : Reprints n) :
    JsonNumber.format (Float64.ofInt n : N) = String.ofList (signed n) := by
  rw [Float64.format_ofInt n word, same]
  rfl

/-! ## Maps with integers -/

mutual

/-- The value as it is read back: an integer becomes the nearest float. -/
def stored : GoValue N → Value N
  | .null => .null
  | .bool value => .bool value
  | .float number => .num number
  | .int value => .num (Float64.ofInt value)
  | .str text => .str text
  | .arr items => .arr (storedItems items)
  | .obj fields => .obj (storedFields fields)

def storedItems : List (GoValue N) → List (Value N)
  | [] => []
  | item :: items => stored item :: storedItems items

def storedFields : GoData N → List (String × Value N)
  | [] => []
  | (name, value) :: fields => (name, stored value) :: storedFields fields

end

mutual

/-- The integers inside a value. -/
def integers : GoValue N → List Int
  | .null | .bool _ | .float _ | .str _ => []
  | .int value => [value]
  | .arr items => integersItems items
  | .obj fields => integersFields fields

def integersItems : List (GoValue N) → List Int
  | [] => []
  | item :: items => integers item ++ integersItems items

def integersFields : GoData N → List Int
  | [] => []
  | (_, value) :: fields => integers value ++ integersFields fields

end

/-- A map of the language: its fields in the order of their names, at every depth,
and its integers of the language's types. -/
structure GoMap (N : Type) [Float64 N] where
  fields : GoData N
  ordered : canonicalFields (storedFields fields) = true
  words : ∀ n ∈ integersFields fields, Word n

namespace GoMap

def toJson (given : GoMap N) : Json :=
  .obj (GoValue.toJsonFields given.fields)

/-- The record that is read back. -/
def stored (given : GoMap N) : Data N :=
  ⟨storedFields given.fields, given.ordered⟩

/-- Every integer of the map has the digits it is printed with as a float. -/
def Reprinted (given : GoMap N) : Prop :=
  ∀ n ∈ integersFields given.fields, Reprints n

end GoMap

/-! ## One JSON form or two -/

mutual

theorem toJson_stored (value : GoValue N) (words : ∀ n ∈ integers value, Word n)
    (same : ∀ n ∈ integers value, Reprints n) : toJson (stored value) = value.toJson := by
  match value with
  | .null | .bool _ | .float _ | .str _ => rfl
  | .int n =>
    have here : n ∈ integers (.int n : GoValue N) := List.mem_singleton_self n
    rw [stored, toJson, GoValue.toJson, format_ofInt_of_reprints (words n here) (same n here)]
  | .arr items =>
    rw [stored, toJson, GoValue.toJson, toJsonItems_stored items words same]
  | .obj fields =>
    rw [stored, toJson, GoValue.toJson, toJsonFields_stored fields words same]

theorem toJsonItems_stored (items : List (GoValue N)) (words : ∀ n ∈ integersItems items, Word n)
    (same : ∀ n ∈ integersItems items, Reprints n) :
    toJsonItems (storedItems items) = GoValue.toJsonItems items := by
  match items with
  | [] => rfl
  | item :: items =>
    rw [integersItems, List.forall_mem_append] at words same
    rw [storedItems, toJsonItems, GoValue.toJsonItems, toJson_stored item words.1 same.1,
      toJsonItems_stored items words.2 same.2]

theorem toJsonFields_stored (fields : GoData N) (words : ∀ n ∈ integersFields fields, Word n)
    (same : ∀ n ∈ integersFields fields, Reprints n) :
    toJsonFields (storedFields fields) = GoValue.toJsonFields fields := by
  match fields with
  | [] => rfl
  | (name, value) :: fields =>
    rw [integersFields, List.forall_mem_append] at words same
    rw [storedFields, toJsonFields, GoValue.toJsonFields, toJson_stored value words.1 same.1,
      toJsonFields_stored fields words.2 same.2]

end

theorem GoMap.toJson_stored {given : GoMap N} (same : given.Reprinted) :
    given.stored.toJson = given.toJson :=
  congrArg Json.obj (toJsonFields_stored given.fields given.words same)

mutual

theorem ofJson?_given (value : GoValue N) (words : ∀ n ∈ integers value, Word n)
    (ordered : canonical (stored value)) : ofJson? value.toJson = some (stored value) := by
  match value with
  | .null | .bool _ | .str _ => rfl
  | .float number =>
    rw [GoValue.toJson, ofJson?, JsonNumber.parse_format]
    rfl
  | .int n =>
    rw [GoValue.toJson, ofJson?, Float64.parse_signed n (words n (List.mem_singleton_self n))]
    rfl
  | .arr items =>
    rw [GoValue.toJson, ofJson?, ofJsonItems?_given items words ordered]
    rfl
  | .obj fields =>
    rw [GoValue.toJson, ofJson?, ofJsonFields?_given fields [] words ordered (by simp)]
    rfl

theorem ofJsonItems?_given (items : List (GoValue N)) (words : ∀ n ∈ integersItems items, Word n)
    (ordered : canonicalItems (storedItems items)) :
    ofJsonItems? (GoValue.toJsonItems items) = some (storedItems items) := by
  match items with
  | [] => rfl
  | item :: items =>
    rw [integersItems, List.forall_mem_append] at words
    simp only [storedItems, canonicalItems, Bool.and_eq_true] at ordered
    simp only [GoValue.toJsonItems, ofJsonItems?, ofJson?_given item words.1 ordered.1,
      ofJsonItems?_given items words.2 ordered.2, storedItems]

theorem ofJsonFields?_given (fields : GoData N) (filled : List (String × Value N))
    (words : ∀ n ∈ integersFields fields, Word n)
    (ordered : canonicalFields (storedFields fields))
    (above : ∀ earlier ∈ filled, ∀ later ∈ storedFields fields, earlier.1 < later.1) :
    ofJsonFields? (GoValue.toJsonFields fields) filled = some (filled ++ storedFields fields) := by
  match fields with
  | [] => simp [GoValue.toJsonFields, ofJsonFields?, storedFields]
  | (name, value) :: fields =>
    rw [integersFields, List.forall_mem_append] at words
    obtain ⟨least, nested, tail⟩ :=
      (canonicalFields_cons_iff name (stored value) (storedFields fields)).mp ordered
    have placed : insertField name (stored value) filled = filled ++ [(name, stored value)] :=
      insertField_last fun earlier member =>
        above earlier member _ (.head _)
    simp only [GoValue.toJsonFields, ofJsonFields?, ofJson?_given value words.1 nested, placed]
    rw [ofJsonFields?_given fields (filled ++ [(name, stored value)]) words.2 tail]
    · simp [storedFields]
    · intro earlier member later here
      rcases List.mem_append.mp member with old | new
      · exact above earlier old later (.tail _ here)
      · rw [List.mem_singleton.mp new]
        exact least later here

end

theorem GoMap.merge?_toJson (given : GoMap N) :
    Data.merge? none given.toJson = some (some given.stored) := by
  have read := ofJsonFields?_given given.fields [] given.words given.ordered (by simp)
  rw [List.nil_append] at read
  simp only [GoMap.toJson, Data.merge?]
  split
  · rename_i values found
    cases read.symm.trans found
    rfl
  · rename_i missing
    cases read.symm.trans missing

mutual

theorem wellFormed_given (value : GoValue N) : WellFormed value.toJson := by
  match value with
  | .null | .bool _ | .str _ => trivial
  | .float number => exact JsonNumber.format_literal number
  | .int n => exact wellFormed_intJson n
  | .arr items => exact wellFormedItems_given items
  | .obj fields => exact wellFormedFields_given fields

theorem wellFormedItems_given (items : List (GoValue N)) :
    WellFormedItems (GoValue.toJsonItems items) := by
  match items with
  | [] => trivial
  | item :: items => exact ⟨wellFormed_given item, wellFormedItems_given items⟩

theorem wellFormedFields_given (fields : GoData N) :
    WellFormedFields (GoValue.toJsonFields fields) := by
  match fields with
  | [] => trivial
  | (_, value) :: fields => exact ⟨wellFormed_given value, wellFormedFields_given fields⟩

end

/-! ## The codec on such maps -/

/-- The entry with the record that is read back. -/
def holding (e : Entry N) (given : GoMap N) : Entry N :=
  { e with data := some given.stored }

def checksumGiven (e : Entry N) (given : GoMap N) : Register :=
  crc32c (header e ++ utf8 (render given.toJson))

def givenFields (e : Entry N) (given : GoMap N) (ts : String) (sum : Register) :
    List (String × Json) :=
  lineFields e (omitEmpty "data" given.fields.isEmpty given.toJson) ts sum

def encodeGiven (e : Entry N) (given : GoMap N) : Option Bytes :=
  if InRange e then
    (Rfc3339.format e.ts).map fun ts =>
      utf8 (render (.obj (givenFields e given (String.ofList ts) (checksumGiven e given))) ++
        ['\n'])
  else none

theorem isEmpty_storedFields (fields : GoData N) :
    (storedFields fields).isEmpty = fields.isEmpty := by
  cases fields with
  | nil => rfl
  | cons field fields => rfl

theorem checksum_holding {e : Entry N} {given : GoMap N} (same : given.Reprinted) :
    checksum (holding e given) = checksumGiven e given := by
  have bytes : dataBytes (holding e given).data = utf8 (render given.toJson) := by
    rw [holding, dataBytes, GoMap.toJson_stored same]
  rw [checksum, bytes]
  rfl

/-- Where the integers are printed with their own digits, the line is the one
that the record as read back would have been given. -/
theorem encodeGiven_eq {e : Entry N} {given : GoMap N} (same : given.Reprinted) :
    encodeGiven e given = encode (holding e given) := by
  have fields (ts : String) (sum : Register) :
      givenFields e given ts sum = entryFields (holding e given) ts sum := by
    simp only [givenFields, entryFields, lineFields, holding, dataField, GoMap.toJson_stored same]
    rw [GoMap.stored, isEmpty_storedFields]
    rfl
  unfold encodeGiven encode
  simp only [fields, checksum_holding same]
  rfl

theorem decodeFields_givenFields (e : Entry N) (given : GoMap N) (sum : Register)
    {ts : List Char} (inRange : InRange e) (formatted : Rfc3339.format e.ts = some ts) :
    decodeFields ⟨.zero, none⟩ (givenFields e given (String.ofList ts) sum) =
      some ⟨(holding e given).written, some sum⟩ := by
  refine decodeFields_lineFields e sum inRange formatted fun id op ts rev => ?_
  apply decodeFields_omitEmpty
  · intro empty
    simp [holding, writtenData, GoMap.stored, isEmpty_storedFields, empty]
  · intro filled
    simp [decodeField, show foldName "data" = "data" by decide,
      GoMap.merge?_toJson, holding, writtenData, GoMap.stored, isEmpty_storedFields, filled]

theorem wellFormed_givenFields (e : Entry N) (given : GoMap N) (ts : String) (sum : Register) :
    WellFormed (.obj (givenFields e given ts sum)) := by
  have data : WellFormed given.toJson := wellFormedFields_given given.fields
  exact wellFormed_lineFields e (wellFormedFields_omitEmpty data) ts sum

/-- What decoding makes of the text of an entry: the record with its integers as
floats, if its checksum is that of the map, and a corrupt entry otherwise. -/
theorem decode_givenText (e : Entry N) (given : GoMap N) {ts : List Char} (inRange : InRange e)
    (formatted : Rfc3339.format e.ts = some ts) :
    decode (utf8 (render
        (.obj (givenFields e given (String.ofList ts) (checksumGiven e given))))) =
      if checksum (holding e given).written = checksumGiven e given then
        .ok (holding e given).written
      else
        .error (.corruptEntry e.id (checksumGiven e given)
          (checksum (holding e given).written)) := by
  have read := decode_fields (wellFormed_givenFields e given (String.ofList ts) _)
    (decodeFields_givenFields e given (checksumGiven e given) inRange formatted)
    (List.forall_mem_nil _)
  rwa [List.append_nil] at read

end Scriva.Store.Integers
