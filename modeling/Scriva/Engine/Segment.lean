import Scriva.Lib.Lines
import Scriva.Store.Ndjson

/-!
# Segment files

How a segment file is read: by a scanner with a bounded line buffer, from a
byte offset, and for the offsets of its lines; how a torn last line is cut off
when the file is opened for appending; and which entries an append refuses.

A `SegmentLine` is a line that the scanner accepts together with the entry it
decodes to.  Every file the engine writes is a list of such lines, and all
ways of reading it are determined by that list.
-/

namespace Scriva.Engine.Segment

open Lib.Text Lib.Lines Lib.JsonText Store.Record Store.Ndjson

/-- The longest line, with its newline, that the scanners read. -/
def maxScanTokenSize : Nat := 16 * 1024 * 1024

/-- A carriage return in front of the newline is not part of the token. -/
def dropCR (line : Bytes) : Bytes :=
  if line.getLast? = some 13 then line.dropLast else line

/-- The lines a scanner reads: the complete ones and a non-empty tail. -/
def scannedLines (file : Bytes) : List Bytes :=
  match splitLines file with
  | (lines, tail) => if tail = [] then lines else lines ++ [tail]

/-- The offset of every newline-terminated line, empty ones included. -/
def scanOffsets (file : Bytes) : List Nat :=
  starts 0 (splitLines file).1

/-- The size of a file without the bytes after its last newline. -/
def recoverPartialLine (file : Bytes) : Nat :=
  file.length - (splitLines file).2.length

/-- What is left of a file that is opened for appending. -/
theorem take_recoverPartialLine (file : Bytes) :
    file.take (recoverPartialLine file) = joinLines (splitLines file).1 ∧
      (joinLines (splitLines file).1).length = recoverPartialLine file := by
  have parts := joinLines_splitLines file
  have size : (joinLines (splitLines file).1).length = recoverPartialLine file := by
    have total := congrArg List.length parts
    rw [List.length_append] at total
    rw [recoverPartialLine]
    omega
  refine ⟨?_, size⟩
  rw [← size]
  nth_rewrite 2 [← parts]
  exact List.take_left

variable {N : Type}

/-- Entries that a line says in full: the timestamp's zone is in whole minutes
and the data, if any, has fields. -/
def Storable (e : Entry N) : Prop :=
  (60 : Int) ∣ e.ts.offset ∧ e.data ≠ some Data.empty

instance [DecidableEq N] (e : Entry N) : Decidable (Storable e) := by
  unfold Storable
  infer_instance

variable {e : Entry N}

theorem Storable.written_eq (storable : Storable e) : e.written = e := by
  obtain ⟨zone, filled⟩ := storable
  have ts := e.ts.truncateZone_eq_iff.mpr zone
  have data : writtenData e.data = e.data := by
    rcases missing : e.data with - | data
    · rfl
    · have fields : data.fields ≠ [] := by
        intro none
        exact filled (by rw [missing]; exact congrArg some (Data.ext none))
      simp [writtenData, fields]
  simp only [Entry.written, ts, data]

variable [JsonNumber N]

/-- Decode tokens in order, skipping empty ones. -/
def decodeTokens : List Bytes → Option (List (Entry N))
  | [] => some []
  | token :: tokens =>
    if token = [] then decodeTokens tokens
    else
      match decode token with
      | .ok e => (decodeTokens tokens).map (e :: ·)
      | .error _ => none

/-- Every entry of a file in order; an overlong line or an undecodable one
fails the whole scan. -/
def scanAll (file : Bytes) : Option (List (Entry N)) :=
  if ∀ line ∈ scannedLines file, line.length < maxScanTokenSize then
    decodeTokens ((scannedLines file).map dropCR)
  else none

/-- The entry of the line that starts at an offset. -/
def readAt (file : Bytes) (offset : Nat) : Option (Entry N) :=
  match scannedLines (file.drop offset) with
  | [] => none
  | line :: _ =>
    if line.length < maxScanTokenSize then (decode (dropCR line)).toOption
    else none

inductive AppendError where
  | encode
  | recordTooLarge (id length : Nat)
deriving DecidableEq

/-- The bytes an append writes for an entry. -/
def appendBytes (e : Entry N) : Except AppendError Bytes :=
  match encode e with
  | none => .error .encode
  | some bytes =>
    if bytes.length > maxScanTokenSize then
      .error (.recordTooLarge e.id bytes.length)
    else .ok bytes

/-! ## Lines that can be read -/

/-- A line the scanner accepts, and the entry it holds. -/
structure SegmentLine (N : Type) [JsonNumber N] where
  raw : Bytes
  entry : Entry N
  plain : newline ∉ raw
  fits : raw.length < maxScanTokenSize
  reads : decode (dropCR raw) = .ok entry

/-- The bytes of a file with these lines. -/
def fileOf (lines : List (SegmentLine N)) : Bytes :=
  joinLines (lines.map SegmentLine.raw)

theorem decode_nil : decode ([] : Bytes) = (.error .malformed : Except _ (Entry N)) := by
  rfl

theorem SegmentLine.dropCR_ne_nil (line : SegmentLine N) : dropCR line.raw ≠ [] := by
  intro empty
  have reads := line.reads
  rw [empty, decode_nil] at reads
  cases reads

@[simp]
theorem fileOf_nil : fileOf ([] : List (SegmentLine N)) = [] := rfl

@[simp]
theorem fileOf_append (front back : List (SegmentLine N)) :
    fileOf (front ++ back) = fileOf front ++ fileOf back := by
  simp [fileOf]

theorem fileOf_singleton (line : SegmentLine N) :
    fileOf [line] = line.raw ++ [newline] := by
  simp [fileOf]

variable {tail bytes : Bytes}

theorem splitLines_fileOf (lines : List (SegmentLine N)) (unfinished : newline ∉ tail) :
    splitLines (fileOf lines ++ tail) = (lines.map SegmentLine.raw, tail) := by
  apply splitLines_joinLines _ unfinished
  intro raw member
  obtain ⟨line, -, rfl⟩ := List.mem_map.mp member
  exact line.plain

theorem scannedLines_fileOf (lines : List (SegmentLine N)) :
    scannedLines (fileOf lines) = lines.map SegmentLine.raw := by
  have split := splitLines_fileOf lines List.not_mem_nil
  rw [List.append_nil] at split
  simp [scannedLines, split]

theorem decodeTokens_map (lines : List (SegmentLine N)) :
    decodeTokens ((lines.map SegmentLine.raw).map dropCR) =
      some (lines.map SegmentLine.entry) := by
  induction lines with
  | nil => rfl
  | cons line lines ih =>
    simp only [List.map_cons, decodeTokens, line.dropCR_ne_nil, if_false,
      line.reads, ih, Option.map_some]

/-- A scan of a file of readable lines returns their entries. -/
theorem scanAll_fileOf (lines : List (SegmentLine N)) :
    scanAll (fileOf lines) = some (lines.map SegmentLine.entry) := by
  have fit : ∀ raw ∈ lines.map SegmentLine.raw, raw.length < maxScanTokenSize := by
    intro raw member
    obtain ⟨line, -, rfl⟩ := List.mem_map.mp member
    exact line.fits
  rw [scanAll, scannedLines_fileOf, if_pos fit, decodeTokens_map]

theorem scanOffsets_fileOf (lines : List (SegmentLine N)) :
    scanOffsets (fileOf lines) = starts 0 (lines.map SegmentLine.raw) := by
  have split := splitLines_fileOf lines List.not_mem_nil
  rw [List.append_nil] at split
  rw [scanOffsets, split]

theorem readAt_fileOf (front back : List (SegmentLine N)) (line : SegmentLine N) :
    readAt (fileOf (front ++ line :: back)) (fileOf front).length =
      some line.entry := by
  have rest : (fileOf (front ++ line :: back)).drop (fileOf front).length =
      fileOf (line :: back) := by
    rw [fileOf_append, List.drop_left]
  rw [readAt, rest, scannedLines_fileOf]
  simp [line.fits, line.reads, Except.toOption]

/-- Opening a file whose last line is unfinished keeps the finished ones. -/
theorem recoverPartialLine_fileOf (lines : List (SegmentLine N)) (unfinished : newline ∉ tail) :
    recoverPartialLine (fileOf lines ++ tail) = (fileOf lines).length := by
  rw [recoverPartialLine, splitLines_fileOf lines unfinished, List.length_append]
  exact Nat.add_sub_cancel _ _

/-! ## Lines that are written -/

theorem dropCR_of_printable {line : Bytes} (printed : ∀ byte ∈ line, 32 ≤ byte.toNat) :
    dropCR line = line := by
  unfold dropCR
  rw [if_neg]
  intro last
  have member := List.mem_of_getLast? last
  exact absurd (printed 13 member) (by decide)

theorem encode_of_appendBytes (accepted : appendBytes e = .ok bytes) :
    encode e = some bytes ∧ bytes.length ≤ maxScanTokenSize := by
  unfold appendBytes at accepted
  split at accepted
  · cases accepted
  · rename_i line encoded
    split_ifs at accepted with long
    obtain rfl := Except.ok.inj accepted
    exact ⟨encoded, not_lt.mp long⟩

/-- An encoded entry is one line without control characters, which says the entry
as written, if its checksum is that of the entry. -/
theorem encode_shape (encoded : encode e = some bytes) :
    ∃ raw, bytes = raw ++ [newline] ∧ (∀ byte ∈ raw, 32 ≤ byte.toNat) ∧
      decode raw =
        if checksum e.written = checksum e then .ok e.written
        else .error (.corruptEntry e.id (checksum e) (checksum e.written)) := by
  obtain ⟨inRange, ts, formatted, shape⟩ := encode_eq_some encoded
  have decoded := decode_text e inRange formatted (List.forall_mem_nil _)
  rw [List.append_nil] at decoded
  rw [utf8_append] at shape
  exact ⟨_, shape, fun byte =>
    printable_utf8 (printable_render _ (wellFormed_entryFields _ _ _)), decoded⟩

theorem newline_notMem_of_printable {raw : Bytes} (printed : ∀ byte ∈ raw, 32 ≤ byte.toNat) :
    newline ∉ raw :=
  fun member => absurd (printed newline member) (by decide)

/-- An append writes no control character but the newline. -/
theorem not_control_of_appendBytes (accepted : appendBytes e = .ok bytes) {byte : UInt8}
    (member : byte ∈ bytes) : 32 ≤ byte.toNat ∨ byte = newline := by
  obtain ⟨raw, rfl, printed, -⟩ := encode_shape (encode_of_appendBytes accepted).1
  rcases List.mem_append.mp member with inside | last
  · exact .inl (printed byte inside)
  · exact .inr (List.mem_singleton.mp last)

/-- What an append writes is one line that the scanner takes as it is. -/
theorem appendBytes_shape (accepted : appendBytes e = .ok bytes) :
    ∃ raw, bytes = raw ++ [newline] ∧ newline ∉ raw ∧ raw.length < maxScanTokenSize ∧
      dropCR raw = raw ∧
      decode raw =
        if checksum e.written = checksum e then .ok e.written
        else .error (.corruptEntry e.id (checksum e) (checksum e.written)) := by
  obtain ⟨encoded, short⟩ := encode_of_appendBytes accepted
  obtain ⟨raw, rfl, printed, decoded⟩ := encode_shape encoded
  rw [List.length_append, List.length_singleton] at short
  exact ⟨raw, rfl, newline_notMem_of_printable printed, short, dropCR_of_printable printed, decoded⟩

/-- An entry with a text as long as the longest line is refused. -/
theorem appendBytes_long {data : Data N} (held : e.data = some data) {field text : String}
    (inside : (field, .str text) ∈ data.fields) (long : maxScanTokenSize ≤ text.toList.length)
    (bytes : Bytes) : appendBytes e ≠ .ok bytes := by
  intro accepted
  obtain ⟨encoded, short⟩ := encode_of_appendBytes accepted
  obtain ⟨-, ts, -, shape⟩ := encode_eq_some encoded
  have filled : data.fields.isEmpty = false := by
    rw [List.isEmpty_eq_false_iff]
    exact List.ne_nil_of_mem inside
  have there : ("data", data.toJson) ∈ entryFields e (String.ofList ts) (checksum e) := by
    simp [entryFields, lineFields, held, dataField, omitEmpty, filled]
  have inner : (field, Json.str text) ∈ toJsonFields data.fields := mem_toJsonFields inside
  have textFits := length_le_renderChars text.toList
  have dataFits : (render (.str text)).length ≤ (render data.toJson).length :=
    length_le_render_obj inner
  have lineFits := length_le_render_obj there
  have bytesFit := length_le_utf8 (render (.obj (entryFields e (String.ofList ts) (checksum e)))
    ++ ['\n'])
  rw [← shape, List.length_append, List.length_singleton] at bytesFit
  rw [render, renderString, List.length_cons] at dataFits
  omega

/-- What an append of a storable entry writes is one readable line holding
exactly that entry. -/
theorem exists_line_of_appendBytes (storable : Storable e) (accepted : appendBytes e = .ok bytes) :
    ∃ line : SegmentLine N, line.entry = e ∧ bytes = fileOf [line] := by
  obtain ⟨raw, ending, plain, fits, whole, decoded⟩ := appendBytes_shape accepted
  have reads : decode (dropCR raw) = .ok e := by
    rw [whole, decoded, storable.written_eq, if_pos rfl]
  exact ⟨⟨raw, e, plain, fits, reads⟩, rfl, by rw [ending, fileOf_singleton]⟩

end Scriva.Engine.Segment
