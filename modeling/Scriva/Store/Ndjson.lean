import Scriva.Lib.Crc
import Scriva.Store.Record
import Scriva.Store.Rfc3339

/-!
# Segment entries

The lines of a segment file.  `encode` stamps an entry with a checksum over its
id, operation, revision, expiry, epoch and data and writes it as one JSON
object; `decode` reads the object back and verifies the checksum when the line
carries one.

The checksum is taken over the entry in memory, where the nil map and the
empty map differ, while the line omits both.  The two sides therefore agree on
every entry except those with an empty map, where they agree only if the
checksum register happens to be one that the two bytes `{}` leave unchanged.
-/

namespace Scriva.Store.Ndjson

open Lib.Text Lib.JsonText Lib.Crc Store.Record
open Rfc3339 (Timestamp)

/-! ## Entries -/

/-- The operation of an entry.  The source's type is a string with three named
constants, and decoding accepts any text. -/
inductive Op where
  | insert
  | update
  | delete
  | other (text : String) (unnamed : text ∉ ["insert", "update", "delete"])
deriving DecidableEq, Repr

theorem unnamed_empty : "" ∉ ["insert", "update", "delete"] := by decide

def Op.text : Op → String
  | .insert => "insert"
  | .update => "update"
  | .delete => "delete"
  | .other text _ => text

def Op.ofText (text : String) : Op :=
  if unnamed : text ∉ ["insert", "update", "delete"] then .other text unnamed
  else if text = "insert" then .insert
  else if text = "update" then .update
  else .delete

@[simp]
theorem Op.ofText_text (op : Op) : Op.ofText op.text = op := by
  cases op with
  | insert | update | delete => rfl
  | other text unnamed => exact dif_pos unnamed

variable {N : Type}

/-- One line of a segment file.  The checksum is present only on the line. -/
structure Entry (N : Type) where
  id : Nat
  op : Op
  ts : Timestamp
  rev : Nat := 0
  data : Option (Data N) := none
  epoch : Nat := 0
  expiresAt : Int := 0
deriving DecidableEq

/-- The entry that decoding starts from. -/
def Entry.zero : Entry N where
  id := 0
  op := .other "" (by decide)
  ts := .zero

def newInsert (id : Nat) (data : Option (Data N)) (now : Timestamp) : Entry N :=
  { id, op := .insert, ts := now, data }

def newUpdate (id : Nat) (data : Option (Data N)) (now : Timestamp) : Entry N :=
  { id, op := .update, ts := now, data }

def newDelete (id : Nat) (now : Timestamp) : Entry N :=
  { id, op := .delete, ts := now }

/-! ## Checksummed bytes -/

/-- The eight bytes of a 64-bit word, least significant first. -/
def littleEndian (value : Nat) : Bytes :=
  (List.range 8).map fun index => UInt8.ofNat (value / 256 ^ index)

/-- The checksummed bytes in front of the data. -/
def header (e : Entry N) : Bytes :=
  littleEndian e.id ++ utf8 e.op.text.toList ++
    (if e.rev ≠ 0 then littleEndian e.rev else []) ++
    (if e.expiresAt ≠ 0 then littleEndian (e.expiresAt % 2 ^ 64).toNat else []) ++
    (if e.epoch ≠ 0 then littleEndian e.epoch else [])

/-! ## What a line says -/

/-- What a line says about the data: nothing if it has no fields. -/
def writtenData : Option (Data N) → Option (Data N)
  | some data => if data.fields.isEmpty then none else some data
  | none => none

/-- What a line says about an entry; seconds of a zone offset are dropped. -/
def Entry.written (e : Entry N) : Entry N :=
  { e with ts := e.ts.truncateZone, data := writtenData e.data }

/-- The fields of a map, none for the nil map. -/
def fieldsOf (data : Option (Data N)) : List (String × Value N) :=
  (data.getD Data.empty).fields

theorem fieldsOf_writtenData (data : Option (Data N)) :
    fieldsOf (writtenData data) = fieldsOf data := by
  rcases data with - | data
  · rfl
  · simp only [writtenData]
    split_ifs with empty
    · exact (List.isEmpty_iff.mp empty).symm
    · rfl

section Codec

variable [JsonNumber N]

/-! ## The checksum -/

/-- The canonical data: nothing for a nil map, `{}` for an empty one. -/
def dataBytes : Option (Data N) → Bytes
  | some data => utf8 (render data.toJson)
  | none => []

def checksum (e : Entry N) : Register :=
  crc32c (header e ++ dataBytes e.data)

/-! ## Encoding -/

def natJson (value : Nat) : Json :=
  .num (String.ofList (decimal value))

def intJson (value : Int) : Json :=
  .num (String.ofList (signed value))

/-- A field that is left out when it has its zero value. -/
def omitEmpty (name : String) (zero : Bool) (value : Json) : List (String × Json) :=
  if zero then [] else [(name, value)]

def dataField : Option (Data N) → List (String × Json)
  | some data => omitEmpty "data" data.fields.isEmpty data.toJson
  | none => []

/-- The fields of a line, with its data as they are written. -/
def lineFields (e : Entry N) (data : List (String × Json)) (ts : String) (sum : Register) :
    List (String × Json) :=
  [("id", natJson e.id), ("op", .str e.op.text), ("ts", .str ts)] ++
    omitEmpty "rev" (e.rev = 0) (natJson e.rev) ++
    data ++
    omitEmpty "epoch" (e.epoch = 0) (natJson e.epoch) ++
    omitEmpty "expires_at" (e.expiresAt = 0) (intJson e.expiresAt) ++
    [("crc", natJson sum.toNat)]

def entryFields (e : Entry N) (ts : String) (sum : Register) : List (String × Json) :=
  lineFields e (dataField e.data) ts sum

/-- The first number past a 64-bit word. -/
def wordBound : Nat := 2 ^ 64

/-- The numbers of an entry are 64-bit words, the expiry a signed one. -/
def InRange (e : Entry N) : Prop :=
  e.id < wordBound ∧ e.rev < wordBound ∧ e.epoch < wordBound ∧
    -2 ^ 63 ≤ e.expiresAt ∧ e.expiresAt < 2 ^ 63

instance (e : Entry N) : Decidable (InRange e) := by
  unfold InRange
  infer_instance

def encode (e : Entry N) : Option Bytes :=
  if InRange e then
    (Rfc3339.format e.ts).map fun ts =>
      utf8 (render (.obj (entryFields e (String.ofList ts) (checksum e))) ++ ['\n'])
  else none

/-! ## Decoding -/

inductive DecodeError where
  | malformed
  | corruptEntry (id : Nat) (want got : Register)
deriving DecidableEq

/-- The fields of a line, filled as they are read. -/
structure Line (N : Type) where
  entry : Entry N
  crc : Option Register

/-- Field names are matched without regard to case; two letters outside ASCII
fold onto ASCII ones. -/
def foldName (name : String) : String :=
  String.ofList (name.toList.map fun c =>
    if c = 'ſ' then 's' else if c = 'K' then 'k' else c.toLower)

def nat? (bound old : Nat) : Json → Option Nat
  | .null => some old
  | .num literal =>
    (decimal? literal.toList).filter fun value => value < bound
  | _ => none

def int? (old : Int) : Json → Option Int
  | .null => some old
  | .num literal =>
    (signed? literal.toList).filter fun value => -2 ^ 63 ≤ value ∧ value < 2 ^ 63
  | _ => none

def text? (old : Op) : Json → Option Op
  | .null => some old
  | .str text => some (Op.ofText text)
  | _ => none

def ts? (old : Timestamp) : Json → Option Timestamp
  | .null => some old
  | .str text => Rfc3339.parse text.toList
  | _ => none

def crc? : Json → Option (Option Register)
  | .null => some none
  | json => (nat? (2 ^ 32) 0 json).map fun value => some (BitVec.ofNat 32 value)

def decodeField (line : Line N) (field : String × Json) : Option (Line N) :=
  match foldName field.1 with
  | "id" => (nat? wordBound line.entry.id field.2).map fun id =>
    { line with entry := { line.entry with id } }
  | "op" => (text? line.entry.op field.2).map fun op =>
    { line with entry := { line.entry with op } }
  | "ts" => (ts? line.entry.ts field.2).map fun ts =>
    { line with entry := { line.entry with ts } }
  | "rev" => (nat? wordBound line.entry.rev field.2).map fun rev =>
    { line with entry := { line.entry with rev } }
  | "data" => (Data.merge? line.entry.data field.2).map fun data =>
    { line with entry := { line.entry with data } }
  | "epoch" => (nat? wordBound line.entry.epoch field.2).map fun epoch =>
    { line with entry := { line.entry with epoch } }
  | "expires_at" => (int? line.entry.expiresAt field.2).map fun expiresAt =>
    { line with entry := { line.entry with expiresAt } }
  | "crc" => (crc? field.2).map fun crc => { line with crc }
  | _ => some line

def decodeFields (line : Line N) : List (String × Json) → Option (Line N)
  | [] => some line
  | field :: fields =>
    (decodeField line field).bind fun line => decodeFields line fields

def unmarshal (bytes : Bytes) : Option (Line N) :=
  match (utf8? bytes).bind parse with
  | some (.obj fields) => decodeFields ⟨.zero, none⟩ fields
  | some .null => some ⟨.zero, none⟩
  | _ => none

def decode (bytes : Bytes) : Except DecodeError (Entry N) :=
  match unmarshal bytes with
  | none => .error .malformed
  | some line =>
    match line.crc with
    | none => .ok line.entry
    | some want =>
      if checksum line.entry = want then .ok line.entry
      else .error (.corruptEntry line.entry.id want (checksum line.entry))

/-! ## Round trip -/

theorem decodeFields_append (line : Line N) (front back : List (String × Json)) :
    decodeFields line (front ++ back) =
      (decodeFields line front).bind fun line => decodeFields line back := by
  induction front generalizing line with
  | nil => rfl
  | cons field front ih =>
    simp only [List.cons_append, decodeFields, Option.bind_assoc]
    exact congrArg _ (funext ih)

theorem nat?_natJson {bound value : Nat} (old : Nat) (small : value < bound) :
    nat? bound old (natJson value) = some value := by
  simp [nat?, natJson, small]

theorem int?_intJson {value : Int} (old : Int) (lower : -2 ^ 63 ≤ value)
    (upper : value < 2 ^ 63) : int? old (intJson value) = some value := by
  simp only [int?, intJson, String.toList_ofList, signed?_signed, Option.filter_some,
    lower, upper, and_self, decide_true, if_true]

theorem decodeFields_omitEmpty {line filled : Line N} {name : String}
    {zero : Bool} {value : Json} (absent : zero = true → filled = line)
    (present : zero = false → decodeField line (name, value) = some filled) :
    decodeFields line (omitEmpty name zero value) = some filled := by
  cases zero with
  | true => simp [omitEmpty, decodeFields, absent]
  | false => simp [omitEmpty, decodeFields, present]

theorem decodeFields_dataField (line : Line N) (data : Option (Data N))
    (fresh : line.entry.data = none) :
    decodeFields line (dataField data) =
      some { line with entry := { line.entry with data := writtenData data } } := by
  obtain ⟨⟨id, op, ts, rev, old, epoch, expiresAt⟩, crc⟩ := line
  obtain rfl : old = none := fresh
  cases data with
  | none => rfl
  | some data =>
    apply decodeFields_omitEmpty
    · intro empty
      simp [writtenData, empty]
    · intro filled
      simp [decodeField, show foldName "data" = "data" by decide,
        Data.merge?_toJson, writtenData, filled]

theorem decodeFields_rev (line : Line N) {rev : Nat} (range : rev < wordBound)
    (fresh : line.entry.rev = 0) :
    decodeFields line (omitEmpty "rev" (rev = 0) (natJson rev)) =
      some { line with entry := { line.entry with rev } } := by
  obtain ⟨⟨id, op, ts, old, data, epoch, expiresAt⟩, crc⟩ := line
  obtain rfl : old = 0 := fresh
  apply decodeFields_omitEmpty
  · intro zero
    simpa using zero
  · intro _
    simp [decodeField, show foldName "rev" = "rev" by decide, nat?_natJson _ range]

theorem decodeFields_epoch (line : Line N) {epoch : Nat} (range : epoch < wordBound)
    (fresh : line.entry.epoch = 0) :
    decodeFields line (omitEmpty "epoch" (epoch = 0) (natJson epoch)) =
      some { line with entry := { line.entry with epoch } } := by
  obtain ⟨⟨id, op, ts, rev, data, old, expiresAt⟩, crc⟩ := line
  obtain rfl : old = 0 := fresh
  apply decodeFields_omitEmpty
  · intro zero
    simpa using zero
  · intro _
    simp [decodeField, show foldName "epoch" = "epoch" by decide,
      nat?_natJson _ range]

theorem decodeFields_expiresAt (line : Line N) {expiresAt : Int}
    (lower : -2 ^ 63 ≤ expiresAt) (upper : expiresAt < 2 ^ 63)
    (fresh : line.entry.expiresAt = 0) :
    decodeFields line (omitEmpty "expires_at" (expiresAt = 0) (intJson expiresAt)) =
      some { line with entry := { line.entry with expiresAt } } := by
  obtain ⟨⟨id, op, ts, rev, data, epoch, old⟩, crc⟩ := line
  obtain rfl : old = 0 := fresh
  apply decodeFields_omitEmpty
  · intro zero
    simpa using zero
  · intro _
    simp [decodeField, show foldName "expires_at" = "expires_at" by decide,
      int?_intJson _ lower upper]

theorem decodeFields_crc (line : Line N) (sum : Register) :
    decodeFields line [("crc", natJson sum.toNat)] =
      some { line with crc := some sum } := by
  have read : crc? (natJson sum.toNat) = some (some sum) := by
    have number := nat?_natJson 0 sum.isLt
    simp only [natJson] at number
    simp only [crc?, natJson, number, Option.map_some, BitVec.ofNat_toNat,
      BitVec.setWidth_eq]
  simp [decodeFields, decodeField, show foldName "crc" = "crc" by decide, read]

/-- Reading the fields written for an entry restores the entry, with what is read of
its data, and the checksum it was stamped with. -/
theorem decodeFields_lineFields (e : Entry N) {data : List (String × Json)}
    {stored : Option (Data N)} (sum : Register) {ts : List Char} (inRange : InRange e)
    (formatted : Rfc3339.format e.ts = some ts)
    (read : ∀ id op ts rev, decodeFields (⟨{ id, op, ts, rev }, none⟩ : Line N) data =
      some ⟨{ id, op, ts, rev, data := stored }, none⟩) :
    decodeFields ⟨.zero, none⟩ (lineFields e data (String.ofList ts) sum) =
      some ⟨{ e.written with data := stored }, some sum⟩ := by
  obtain ⟨idRange, revRange, epochRange, expiryLower, expiryUpper⟩ := inRange
  have start : decodeFields (⟨.zero, none⟩ : Line N)
      [("id", natJson e.id), ("op", .str e.op.text), ("ts", .str (String.ofList ts))] =
        some ⟨{ id := e.id, op := e.op, ts := e.ts.truncateZone }, none⟩ := by
    simp [decodeFields, decodeField, show foldName "id" = "id" by decide,
      show foldName "op" = "op" by decide, show foldName "ts" = "ts" by decide,
      nat?_natJson _ idRange, text?, ts?, Rfc3339.parse_format formatted, Entry.zero]
  simp only [lineFields, decodeFields_append, start, Option.bind_some,
    decodeFields_rev _ revRange, read, decodeFields_epoch _ epochRange,
    decodeFields_expiresAt _ expiryLower expiryUpper, decodeFields_crc, Entry.written]

theorem wellFormed_natJson (value : Nat) : WellFormed (natJson value) := by
  refine ⟨by simp [decimal, Nat.toDigits_ne_nil], fun c member => ?_⟩
  have digit := isDigit_of_mem_decimal (by simpa using member)
  simp [isNumberChar, digit]

theorem wellFormed_intJson (value : Int) : WellFormed (intJson value) :=
  JsonNumber.format_literal value

theorem wellFormedFields_omitEmpty {name : String} {zero : Bool} {value : Json}
    (wellFormed : WellFormed value) : WellFormedFields (omitEmpty name zero value) := by
  cases zero with
  | true => trivial
  | false => exact ⟨wellFormed, trivial⟩

omit [JsonNumber N] in
theorem wellFormed_lineFields (e : Entry N) {data : List (String × Json)}
    (wellFormed : WellFormedFields data) (ts : String) (sum : Register) :
    WellFormed (.obj (lineFields e data ts sum)) := by
  simp only [WellFormed, lineFields, wellFormedFields_append]
  exact ⟨⟨⟨⟨⟨⟨wellFormed_natJson _, trivial, trivial, trivial⟩,
    wellFormedFields_omitEmpty (wellFormed_natJson _)⟩, wellFormed⟩,
    wellFormedFields_omitEmpty (wellFormed_natJson _)⟩,
    wellFormedFields_omitEmpty (wellFormed_intJson _)⟩, wellFormed_natJson _, trivial⟩

theorem wellFormed_entryFields (e : Entry N) (ts : String) (sum : Register) :
    WellFormed (.obj (entryFields e ts sum)) := by
  refine wellFormed_lineFields e ?_ ts sum
  cases e.data with
  | none => trivial
  | some data => exact wellFormedFields_omitEmpty (wellFormed_toJsonFields data.fields)

/-- What decoding makes of the text of a line, with or without the line's end: the
entry in its fields if its checksum is the one there, and a corrupt entry otherwise. -/
theorem decode_fields {fields : List (String × Json)} (wellFormed : WellFormed (.obj fields))
    {entry : Entry N} {sum : Register}
    (read : decodeFields ⟨.zero, none⟩ fields = some ⟨entry, some sum⟩) {blank : List Char}
    (spaces : ∀ c ∈ blank, isSpace c) :
    decode (utf8 (render (.obj fields) ++ blank)) =
      if checksum entry = sum then .ok entry
      else .error (.corruptEntry entry.id sum (checksum entry)) := by
  simp only [decode, unmarshal, utf8?_utf8, Option.bind_some,
    parse_render (.obj fields) blank wellFormed spaces, read]

theorem decode_text (e : Entry N) {ts blank : List Char} (inRange : InRange e)
    (formatted : Rfc3339.format e.ts = some ts) (spaces : ∀ c ∈ blank, isSpace c) :
    decode (utf8 (render (.obj (entryFields e (String.ofList ts) (checksum e))) ++
        blank)) =
      if checksum e.written = checksum e then .ok e.written
      else .error (.corruptEntry e.id (checksum e) (checksum e.written)) :=
  decode_fields (wellFormed_entryFields _ _ _) (decodeFields_lineFields e _ inRange formatted
    fun _ _ _ _ => decodeFields_dataField _ _ rfl) spaces

/-- The checksum survives exactly when nothing checksummed was left out, or
the register in front of the left out bytes is one they do not change. -/
theorem checksum_written_iff (e : Entry N) :
    checksum e.written = checksum e ↔
      (e.data = some Data.empty →
        feedAll (BitVec.allOnes 32) (header e) ∈ bracesFixed) := by
  have front : header e.written = header e := rfl
  have same (kept : e.written.data = e.data) : checksum e.written = checksum e := by
    simp only [checksum, front, kept]
  rcases missing : e.data with - | data
  · simp [same (by simp [Entry.written, missing, writtenData])]
  · by_cases empty : data = Data.empty
    · subst empty
      have bytes : dataBytes (some (Data.empty : Data N)) = braces := by
        have text : dataBytes (some (Data.empty : Data N)) = utf8 ['{', '}'] := rfl
        exact text.trans (by decide)
      have nothing : dataBytes (none : Option (Data N)) = [] := rfl
      have dropped : e.written.data = none := by
        simp [Entry.written, missing, writtenData, Data.empty]
      simp only [checksum, front, dropped, missing, bytes, nothing,
        crc32c, List.append_nil, feedAll_append, forall_const, ← feedAll_braces_iff]
      rw [BitVec.not_inj, eq_comm]
    · have filled : data.fields ≠ [] := fun none => empty (Data.ext none)
      have kept := same (by simp [Entry.written, missing, writtenData, filled])
      simp [kept, empty]

theorem encode_eq_some {e : Entry N} {line : Bytes} (encoded : encode e = some line) :
    InRange e ∧ ∃ ts, Rfc3339.format e.ts = some ts ∧
      line = utf8 (render (.obj (entryFields e (String.ofList ts) (checksum e))) ++
        ['\n']) := by
  unfold encode at encoded
  split_ifs at encoded with inRange
  simp only [Option.map_eq_some_iff] at encoded
  obtain ⟨ts, formatted, rfl⟩ := encoded
  exact ⟨inRange, ts, formatted, rfl⟩

theorem decode_encode {e : Entry N} {line : Bytes} (encoded : encode e = some line) :
    decode line =
      if checksum e.written = checksum e then .ok e.written
      else .error (.corruptEntry e.id (checksum e) (checksum e.written)) := by
  obtain ⟨inRange, ts, formatted, rfl⟩ := encode_eq_some encoded
  exact decode_text e inRange formatted (by simp [isSpace])

/-- What was read says what was written, the nil and the empty map taken as
one. -/
structure Entry.Agrees (e read : Entry N) : Prop where
  id : read.id = e.id
  op : read.op = e.op
  ts : read.ts = e.ts
  rev : read.rev = e.rev
  expiresAt : read.expiresAt = e.expiresAt
  epoch : read.epoch = e.epoch
  data : fieldsOf read.data = fieldsOf e.data

/-- An entry is read back exactly when the zone of its timestamp is in whole
minutes and its data is not an empty map, or is one but the checksum register
after the other fields is unchanged by the two bytes of the empty map. -/
theorem decode_encode_agrees_iff (e : Entry N) (line : Bytes)
    (encoded : encode e = some line) :
    (∃ read, decode line = .ok read ∧ e.Agrees read) ↔
      (60 : Int) ∣ e.ts.offset ∧
      (e.data = some Data.empty →
        feedAll (BitVec.allOnes 32) (header e) ∈ bracesFixed) := by
  rw [decode_encode encoded, ← checksum_written_iff, ← e.ts.truncateZone_eq_iff]
  constructor
  · rintro ⟨read, decoded, agrees⟩
    split_ifs at decoded with stable
    obtain rfl := Except.ok.inj decoded
    exact ⟨agrees.ts, stable⟩
  · rintro ⟨zone, stable⟩
    refine ⟨e.written, if_pos stable, rfl, rfl, zone, rfl, rfl, rfl, ?_⟩
    exact fieldsOf_writtenData e.data

end Codec

/-- An insert of a record without fields. -/
def emptyRecord : Entry Int :=
  { id := 1, op := .insert, ts := .zero, rev := 1, data := some Data.empty }

/-- An insert of a record with one field, an hour east of UTC. -/
def plainRecord : Entry Int :=
  { id := 7, op := .insert, ts := { Timestamp.zero with offset := 3600 }, rev := 2,
    data := some ⟨[("n", .num 5)], rfl⟩, epoch := 3, expiresAt := -4 }

theorem encode_plainRecord : ∃ line, encode plainRecord = some line :=
  Option.isSome_iff_exists.mp (by decide +kernel)

theorem decode_encode_agrees_plainRecord :
    ∃ line, encode plainRecord = some line ∧
      ∃ read, decode line = .ok read ∧ plainRecord.Agrees read := by
  obtain ⟨line, encoded⟩ := encode_plainRecord
  refine ⟨line, encoded, (decode_encode_agrees_iff plainRecord line encoded).mpr ?_⟩
  decide +kernel

theorem decode_encode_emptyRecord :
    ∃ line, encode emptyRecord = some line ∧
      ∀ read : Entry Int, decode line ≠ .ok read := by
  obtain ⟨line, encoded⟩ : ∃ line, encode emptyRecord = some line :=
    Option.isSome_iff_exists.mp (by decide +kernel)
  refine ⟨line, encoded, fun read decoded => ?_⟩
  rw [decode_encode encoded, if_neg (by decide +kernel)] at decoded
  cases decoded

end Scriva.Store.Ndjson
