import Scriva.Engine.Segment
import Scriva.Store.Integers

/-!
# Integers in segment files

Reads of one record, scans, compaction and the rebuilding of indexes all come
down to decoding the lines of segment files, one at an offset or all in order.
An accepted append of a map with integers is followed for every file the line can
stand in.
-/

namespace Scriva.Engine.Integers

open Lib.Text Lib.Binary64 Lib.JsonText Lib.Lines Store.Record Store.Ndjson
open Store.Integers Segment

variable {N : Type} [Float64 N]

/-- The bytes an append writes for an entry with the given map. -/
def appendGiven (e : Entry N) (given : GoMap N) : Except AppendError Bytes :=
  match encodeGiven e given with
  | none => .error .encode
  | some bytes =>
    if bytes.length > maxScanTokenSize then
      .error (.recordTooLarge e.id bytes.length)
    else .ok bytes

theorem appendGiven_eq {e : Entry N} {given : GoMap N} (same : given.Reprinted) :
    appendGiven e given = appendBytes (holding e given) := by
  rw [appendGiven, encodeGiven_eq same]
  rfl

theorem storable_holding {e : Entry N} {given : GoMap N} (zone : (60 : Int) ∣ e.ts.offset)
    (filled : given.fields ≠ []) : Storable (holding e given) := by
  refine ⟨zone, fun empty => filled ?_⟩
  have fields : storedFields given.fields = [] :=
    congrArg Data.fields (Option.some.inj empty)
  rw [← List.isEmpty_iff, ← isEmpty_storedFields, fields]
  rfl

/-- What an append writes is one line that the scanner takes as it is; it says the
record as read back, if its checksum is that of the map. -/
theorem appendGiven_shape {e : Entry N} {given : GoMap N} {bytes : Bytes}
    (accepted : appendGiven e given = .ok bytes) :
    ∃ raw, bytes = raw ++ [newline] ∧ newline ∉ raw ∧ raw.length < maxScanTokenSize ∧
      dropCR raw = raw ∧
      decode raw =
        if checksum (holding e given).written = checksumGiven e given then
          .ok (holding e given).written
        else
          .error (.corruptEntry e.id (checksumGiven e given)
            (checksum (holding e given).written)) := by
  unfold appendGiven at accepted
  split at accepted
  · cases accepted
  rename_i line encoded
  split_ifs at accepted with long
  obtain rfl := Except.ok.inj accepted
  unfold encodeGiven at encoded
  split_ifs at encoded with inRange
  simp only [Option.map_eq_some_iff] at encoded
  obtain ⟨ts, formatted, shape⟩ := encoded
  obtain ⟨raw, text⟩ : ∃ raw, raw = utf8 (render (.obj (givenFields e given
      (String.ofList ts) (checksumGiven e given)))) := ⟨_, rfl⟩
  have ending : line = raw ++ [newline] := by
    rw [← shape, utf8_append, text]
    rfl
  have printed : ∀ byte ∈ raw, 32 ≤ byte.toNat := by
    rw [text]
    exact fun byte => printable_utf8 (printable_render _ (wellFormed_givenFields _ _ _ _))
  have decoded := decode_givenText e given inRange formatted
  rw [← text] at decoded
  refine ⟨raw, ending, ?_, ?_, dropCR_of_printable printed, decoded⟩
  · exact fun member => absurd (printed newline member) (by decide)
  · rw [ending, List.length_append, List.length_singleton] at long
    omega

/-- An accepted write is read back, wherever its line stands in a file and both at
its offset and in a scan, exactly when its integers are printed as floats with the
digits they were written with, or the other digits happen to have the same
checksum.  With the same digits a rewrite of what was read has the same bytes. -/
theorem integers_read_back_iff (e : Entry N) (given : GoMap N) (bytes : Bytes)
    (zone : (60 : Int) ∣ e.ts.offset) (filled : given.fields ≠ [])
    (accepted : appendGiven e given = .ok bytes) :
    ((∀ front back : List (SegmentLine N),
        readAt (fileOf front ++ bytes ++ fileOf back) (fileOf front).length =
            some (holding e given) ∧
          scanAll (fileOf front ++ bytes ++ fileOf back) =
            some (front.map SegmentLine.entry ++
              holding e given :: back.map SegmentLine.entry)) ↔
      given.Reprinted ∨ checksum (holding e given) = checksumGiven e given) ∧
    (given.Reprinted → appendBytes (holding e given) = .ok bytes) := by
  have whole := (storable_holding zone filled).written_eq
  obtain ⟨raw, ending, plain, fits, kept, decoded⟩ := appendGiven_shape accepted
  rw [whole] at decoded
  refine ⟨⟨fun readable => .inr ?_, fun checked => ?_⟩, fun same => ?_⟩
  · -- the file that holds nothing else
    have alone := (readable [] []).1
    have line : scannedLines (raw ++ [newline]) = [raw] := by
      simp [scannedLines, splitLines_line [] plain, splitLines]
    by_contra differs
    rw [if_neg differs] at decoded
    simp [readAt, ending, line, fits, kept, decoded, Except.toOption] at alone
  · have equal : checksum (holding e given) = checksumGiven e given :=
      checked.elim checksum_holding id
    rw [if_pos equal] at decoded
    obtain ⟨line, entry, shape⟩ : ∃ line : SegmentLine N,
        line.entry = holding e given ∧ bytes = fileOf [line] :=
      ⟨⟨raw, holding e given, plain, fits, by rw [kept, decoded]⟩, rfl,
        by rw [ending, fileOf_singleton]⟩
    intro front back
    have file : fileOf front ++ bytes ++ fileOf back = fileOf (front ++ line :: back) := by
      rw [shape, ← fileOf_append, ← fileOf_append, List.append_assoc]
      rfl
    rw [file, readAt_fileOf, scanAll_fileOf, List.map_append, List.map_cons, entry]
    exact ⟨rfl, rfl⟩
  · rw [← appendGiven_eq same]
    exact accepted

/-! ## Whole floats -/

/-- The floats without a fraction, up to where they are printed with an
exponent. -/
structure WholeFloat where
  negative : Bool
  magnitude : Nat
  exact : nearest magnitude = magnitude
  bounded : magnitude < 10 ^ 21
deriving DecidableEq

namespace WholeFloat

def ofMagnitude (negative : Bool) (n : Nat) : Option WholeFloat :=
  if bounded : nearest n < 10 ^ 21 then some ⟨negative, nearest n, nearest_nearest n, bounded⟩
  else none

theorem ofMagnitude_shortest (number : WholeFloat) :
    ofMagnitude number.negative (shortest number.magnitude) = some number := by
  have read := nearest_shortest number.exact
  simp only [ofMagnitude, read, number.bounded, dif_pos]

def format (number : WholeFloat) : List Char :=
  if number.negative then '-' :: decimal (shortest number.magnitude)
  else decimal (shortest number.magnitude)

def parse : List Char → Option WholeFloat
  | '-' :: digits => (decimal? digits).bind (ofMagnitude true)
  | digits => (decimal? digits).bind (ofMagnitude false)

theorem parse_decimal (n : Nat) : parse (decimal n) = ofMagnitude false n := by
  unfold parse
  split
  · rename_i digits minus
    have member : '-' ∈ decimal n := by simp [minus]
    exact absurd member (minus_not_mem_decimal _)
  · rw [decimal?_decimal, Option.bind_some]

theorem parse_minus (n : Nat) : parse ('-' :: decimal n) = ofMagnitude true n := by
  rw [parse, decimal?_decimal, Option.bind_some]

theorem parse_withSign (n : Int) (magnitude : Nat) :
    parse (withSign n magnitude) = ofMagnitude (n < 0) magnitude := by
  unfold withSign
  split_ifs with negative
  · rw [parse_minus, decide_eq_true negative]
  · rw [parse_decimal, decide_eq_false negative]

theorem parse_format (number : WholeFloat) : parse number.format = some number := by
  have read := ofMagnitude_shortest number
  unfold format
  cases sign : number.negative with
  | true =>
    rw [sign] at read
    rw [if_pos rfl, parse_minus, read]
  | false =>
    rw [sign] at read
    rw [if_neg Bool.false_ne_true, parse_decimal, read]

theorem format_literal (number : WholeFloat) :
    number.format ≠ [] ∧ ∀ c ∈ number.format, isNumberChar c := by
  have digit {n : Nat} {c : Char} (member : c ∈ decimal n) : isNumberChar c := by
    simp [isNumberChar, isDigit_of_mem_decimal member]
  unfold format
  split_ifs
  · refine ⟨List.cons_ne_nil _ _, fun c member => ?_⟩
    rcases List.mem_cons.mp member with rfl | later
    · decide
    · exact digit later
  · exact ⟨by simp [decimal, Nat.toDigits_ne_nil], fun c member => digit member⟩

/-- The form under `%v`: an exponent from seven digits on. -/
def sprint (number : WholeFloat) : String :=
  let digits := decimal (shortest number.magnitude)
  let sign := if number.negative then "-" else ""
  if digits.length ≤ 6 then sign ++ String.ofList digits
  else
    let significant := (digits.reverse.dropWhile (· = '0')).reverse
    let fraction := if significant.length ≤ 1 then [] else '.' :: significant.drop 1
    sign ++ String.ofList (significant.take 1 ++ fraction ++ ['e', '+'] ++
      padded 2 (digits.length - 1))

/-- The float nearest to an integer of the language. -/
def ofInt (n : Int) : WholeFloat :=
  (ofMagnitude (n < 0) n.natAbs).getD ⟨false, 0, by decide, by decide⟩

theorem ofMagnitude_word {n : Int} (word : Word n) :
    ofMagnitude (n < 0) n.natAbs = some (ofInt n) ∧
      (ofInt n).negative = decide (n < 0) ∧ (ofInt n).magnitude = nearest n.natAbs := by
  obtain ⟨lower, upper⟩ := word
  have size : n.natAbs ≤ 2 ^ 64 := by omega
  have bounded : nearest n.natAbs < 10 ^ 21 := by
    calc nearest n.natAbs ≤ 2 * n.natAbs := nearest_le _
      _ ≤ 2 * 2 ^ 64 := Nat.mul_le_mul_left 2 size
      _ < 10 ^ 21 := by decide
  have made : ofMagnitude (n < 0) n.natAbs =
      some ⟨n < 0, nearest n.natAbs, nearest_nearest _, bounded⟩ := dif_pos bounded
  rw [ofInt, made]
  exact ⟨rfl, rfl, rfl⟩

end WholeFloat

instance : JsonNumber WholeFloat where
  format number := String.ofList number.format
  parse literal := WholeFloat.parse literal.toList
  sprint := WholeFloat.sprint
  parse_format number := by rw [String.toList_ofList, WholeFloat.parse_format]
  format_literal number := by
    rw [String.toList_ofList]
    exact number.format_literal

instance : Float64 WholeFloat where
  ofInt := WholeFloat.ofInt
  parse_signed n word := by
    obtain ⟨made, -, -⟩ := WholeFloat.ofMagnitude_word word
    have text : signed n = withSign n n.natAbs := rfl
    change WholeFloat.parse (String.ofList (signed n)).toList = some (WholeFloat.ofInt n)
    rw [String.toList_ofList, text, WholeFloat.parse_withSign, made]
  format_ofInt n word := by
    obtain ⟨-, sign, magnitude⟩ := WholeFloat.ofMagnitude_word word
    change String.ofList (WholeFloat.ofInt n).format = _
    rw [WholeFloat.format, sign, magnitude, withSign, printed]
    simp only [decide_eq_true_eq]

/-! ## Two timestamps -/

/-- A record whose one field is an integer. -/
def stamped (n : Int) (word : Word n) : GoMap WholeFloat where
  fields := [("at", .int n)]
  ordered := rfl
  words := by simpa [integersFields, integers] using word

/-- The insert of such a record. -/
def stampEntry : Entry WholeFloat :=
  { id := 1, op := .insert, ts := .zero, rev := 1 }

/-- A time in milliseconds is read back. -/
theorem integers_read_back_milliseconds :
    ∃ bytes, appendGiven stampEntry (stamped 1700000000123 (by decide)) = .ok bytes ∧
      scanAll bytes = some [holding stampEntry (stamped 1700000000123 (by decide))] := by
  have accepted : (appendGiven stampEntry (stamped 1700000000123 (by decide))).isOk = true := by
    decide +kernel
  rcases wrote : appendGiven stampEntry (stamped 1700000000123 (by decide)) with error | bytes
  · rw [wrote] at accepted
    cases accepted
  · have small : (stamped 1700000000123 (by decide)).Reprinted := by
      intro n member
      rw [List.mem_singleton.mp member]
      exact reprints_of_small (by decide)
    have read := ((integers_read_back_iff stampEntry (stamped 1700000000123 (by decide)) bytes
      (by decide) (List.cons_ne_nil _ _) wrote).1.mpr (.inl small)) [] []
    rw [fileOf_nil, List.nil_append, List.append_nil] at read
    exact ⟨bytes, rfl, read.2⟩

/-- The same time in nanoseconds is accepted, and neither a read at its offset nor
a scan returns anything. -/
theorem nanoseconds_lost :
    ∃ bytes, appendGiven stampEntry (stamped 1700000000123456789 (by decide)) = .ok bytes ∧
      (readAt bytes 0 : Option (Entry WholeFloat)) = none ∧
      (scanAll bytes : Option (List (Entry WholeFloat))) = none := by
  have run : (appendGiven stampEntry (stamped 1700000000123456789 (by decide))).toOption.any
      (fun bytes => (readAt bytes 0 : Option (Entry WholeFloat)).isNone &&
        (scanAll bytes : Option (List (Entry WholeFloat))).isNone) = true := by
    decide +kernel
  rcases wrote : appendGiven stampEntry (stamped 1700000000123456789 (by decide)) with _ | bytes
  · rw [wrote] at run
    cases run
  · rw [wrote, Except.toOption, Option.any_some, Bool.and_eq_true, Option.isNone_iff_eq_none,
      Option.isNone_iff_eq_none] at run
    exact ⟨bytes, rfl, run⟩

end Scriva.Engine.Integers
