import Mathlib.Data.Int.Basic
import Mathlib.Tactic
import Scriva.Lib.Text

/-!
# Timestamps on the wire

A timestamp is held as the civil date and time of day in its own zone together
with the zone's offset in seconds.  It is written in RFC 3339 form: fractional
seconds without trailing zeros, and the offset in whole minutes.  Seconds of
the offset are dropped by the writer, so only timestamps whose offset is a
whole number of minutes are read back as the same instant.
-/

namespace Scriva.Store.Rfc3339

open Lib.Text

def isLeap (year : Int) : Bool :=
  year % 4 = 0 && (year % 100 ≠ 0 || year % 400 = 0)

def daysIn (month : Nat) (year : Int) : Nat :=
  if month = 2 then (if isLeap year then 29 else 28)
  else if month = 4 ∨ month = 6 ∨ month = 9 ∨ month = 11 then 30
  else 31

/-- The civil date exists and the time of day is in range. -/
def validCivil (year : Int) (month day hour minute second nano : Nat) : Bool :=
  1 ≤ month && month ≤ 12 && 1 ≤ day && day ≤ daysIn month year &&
    hour < 24 && minute < 60 && second < 60 && nano < 1000000000

structure Timestamp where
  year : Int
  month : Nat
  day : Nat
  hour : Nat
  minute : Nat
  second : Nat
  nano : Nat
  /-- Seconds east of UTC. -/
  offset : Int
  valid : validCivil year month day hour minute second nano = true
deriving DecidableEq, Repr

/-- The zero time, which a line without a timestamp decodes to. -/
def Timestamp.zero : Timestamp where
  year := 1
  month := 1
  day := 1
  hour := 0
  minute := 0
  second := 0
  nano := 0
  offset := 0
  valid := rfl

/-- The timestamp with the seconds of its zone offset dropped. -/
def Timestamp.truncateZone (ts : Timestamp) : Timestamp :=
  { ts with offset := ts.offset.tdiv 60 * 60 }

theorem Timestamp.truncateZone_eq_iff (ts : Timestamp) :
    ts.truncateZone = ts ↔ (60 : Int) ∣ ts.offset := by
  constructor
  · intro equal
    have offset := congrArg Timestamp.offset equal
    exact ⟨ts.offset.tdiv 60, by rw [← offset]; simp [truncateZone, mul_comm]⟩
  · intro whole
    have exact := Int.tdiv_mul_cancel whole
    cases ts
    simp_all [truncateZone]

/-! ## Writing -/

/-- Drop trailing zeros. -/
def trimZeros : List Char → List Char
  | [] => []
  | c :: rest =>
    if trimZeros rest = [] ∧ c = '0' then [] else c :: trimZeros rest

def fraction (nano : Nat) : List Char :=
  if nano = 0 then [] else '.' :: trimZeros (padded 9 nano)

def zoneText (offset : Int) : List Char :=
  if offset = 0 then ['Z']
  else
    let zone := offset.tdiv 60
    (if zone < 0 then '-' else '+') ::
      (padded 2 (zone.natAbs / 60) ++ ':' :: padded 2 (zone.natAbs % 60))

/-- The RFC 3339 text, or an error when the year does not have four digits or
the zone is a day or more away from UTC. -/
def format (ts : Timestamp) : Option (List Char) :=
  if 0 ≤ ts.year ∧ ts.year ≤ 9999 ∧ (ts.offset.tdiv 60).natAbs / 60 < 24 then
    some (padded 4 ts.year.toNat ++ '-' :: (padded 2 ts.month ++
      '-' :: (padded 2 ts.day ++ 'T' :: (padded 2 ts.hour ++
      ':' :: (padded 2 ts.minute ++ ':' :: (padded 2 ts.second ++
      (fraction ts.nano ++ zoneText ts.offset)))))))
  else none

/-! ## Reading -/

/-- Exactly `width` digits, and what follows them. -/
def digits? (width : Nat) (input : List Char) : Option (Nat × List Char) :=
  if width ≤ input.length then
    (decimal? (input.take width)).map fun value => (value, input.drop width)
  else none

def literal? (c : Char) : List Char → Option (List Char)
  | head :: rest => if head = c then some rest else none
  | [] => none

/-- Fill a fraction up to nine digits, ignoring any beyond the ninth. -/
def nanoDigits (digits : List Char) : List Char :=
  digits.take 9 ++ List.replicate (9 - digits.length) '0'

def fraction? : List Char → Option (Nat × List Char)
  | '.' :: rest =>
    (decimal? (rest.takeWhile Char.isDigit)).bind fun _ =>
      (decimal? (nanoDigits (rest.takeWhile Char.isDigit))).map fun nano =>
        (nano, rest.dropWhile Char.isDigit)
  | input => some (0, input)

def zone? : List Char → Option Int
  | ['Z'] => some 0
  | sign :: rest => do
    let (hours, rest) ← digits? 2 rest
    let rest ← literal? ':' rest
    let (minutes, rest) ← digits? 2 rest
    if hours < 24 ∧ minutes < 60 ∧ rest = [] then
      if sign = '+' then some (((hours * 60 + minutes) * 60 : Nat) : Int)
      else if sign = '-' then some (-((hours * 60 + minutes) * 60 : Nat) : Int)
      else none
    else none
  | [] => none

def parse (input : List Char) : Option Timestamp := do
  let (year, input) ← digits? 4 input
  let input ← literal? '-' input
  let (month, input) ← digits? 2 input
  let input ← literal? '-' input
  let (day, input) ← digits? 2 input
  let input ← literal? 'T' input
  let (hour, input) ← digits? 2 input
  let input ← literal? ':' input
  let (minute, input) ← digits? 2 input
  let input ← literal? ':' input
  let (second, input) ← digits? 2 input
  let (nano, input) ← fraction? input
  let offset ← zone? input
  if valid : validCivil year month day hour minute second nano = true then
    some ⟨year, month, day, hour, minute, second, nano, offset, valid⟩
  else none

/-! ## Round trip -/

theorem digits?_padded (width value : Nat) (rest : List Char)
    (positive : 0 < width) (fits : value < 10 ^ width) :
    digits? width (padded width value ++ rest) = some (value, rest) := by
  have size := length_padded positive fits
  rw [digits?, if_pos (by simp [size]), List.take_left' size,
    List.drop_left' size, decimal?_padded]
  rfl

@[simp]
theorem literal?_cons (c : Char) (rest : List Char) :
    literal? c (c :: rest) = some rest := by
  simp [literal?]

theorem trimZeros_append (digits : List Char) :
    trimZeros digits ++
      List.replicate (digits.length - (trimZeros digits).length) '0' = digits := by
  induction digits with
  | nil => rfl
  | cons c rest ih =>
    unfold trimZeros
    split_ifs with zero
    · obtain ⟨trimmed, rfl⟩ := zero
      rw [trimmed] at ih
      simpa [List.replicate_succ] using ih
    · simpa using ih

theorem length_trimZeros_le (digits : List Char) :
    (trimZeros digits).length ≤ digits.length := by
  have size := congrArg List.length (trimZeros_append digits)
  rw [List.length_append] at size
  omega

theorem trimZeros_padded_ne_nil {nano : Nat} (positive : nano ≠ 0) :
    trimZeros (padded 9 nano) ≠ [] := by
  intro empty
  have zeros := trimZeros_append (padded 9 nano)
  rw [empty, List.nil_append] at zeros
  have read := decimal?_padded 9 nano
  rw [← zeros, decimal?] at read
  split_ifs at read with digits
  simp only [Nat.ofDigitChars_replicate_zero, Nat.mul_zero, Option.some.injEq] at read
  exact positive read.symm

theorem fraction?_zoneText (offset : Int) :
    fraction? (zoneText offset) = some (0, zoneText offset) := by
  unfold zoneText
  split_ifs with utc
  · rfl
  · dsimp only
    split_ifs <;> rfl

theorem takeWhile_zoneText (digits : List Char) (offset : Int)
    (allDigits : ∀ c ∈ digits, c.isDigit) :
    (digits ++ zoneText offset).takeWhile Char.isDigit = digits ∧
      (digits ++ zoneText offset).dropWhile Char.isDigit = zoneText offset := by
  rw [List.takeWhile_append_of_pos allDigits, List.dropWhile_append_of_pos allDigits]
  unfold zoneText
  split_ifs with utc
  · simp [List.takeWhile, List.dropWhile]
  · dsimp only
    split_ifs <;> simp [List.takeWhile, List.dropWhile]

theorem fraction?_fraction {nano : Nat} (small : nano < 1000000000)
    (offset : Int) :
    fraction? (fraction nano ++ zoneText offset) = some (nano, zoneText offset) := by
  unfold fraction
  by_cases zero : nano = 0
  · simp [zero, fraction?_zoneText]
  · have padding := trimZeros_append (padded 9 nano)
    have size : (padded 9 nano).length = 9 := length_padded (by decide) small
    have bound := length_trimZeros_le (padded 9 nano)
    have digits : ∀ c ∈ trimZeros (padded 9 nano), c.isDigit := by
      intro c member
      apply isDigit_of_mem_padded
      rw [← padding]
      exact List.mem_append_left _ member
    obtain ⟨taken, dropped⟩ := takeWhile_zoneText _ offset digits
    have readable : ∃ value, decimal? (trimZeros (padded 9 nano)) = some value :=
      ⟨_, if_pos ⟨trimZeros_padded_ne_nil zero, List.all_eq_true.mpr digits⟩⟩
    obtain ⟨value, readable⟩ := readable
    have filled : nanoDigits (trimZeros (padded 9 nano)) = padded 9 nano := by
      rw [nanoDigits, List.take_of_length_le (by omega)]
      rw [size] at padding
      exact padding
    rw [if_neg zero, List.cons_append, fraction?, taken, dropped, readable, filled,
      decimal?_padded]
    rfl

theorem zone?_zoneText {offset : Int}
    (near : (offset.tdiv 60).natAbs / 60 < 24) :
    zone? (zoneText offset) = some (offset.tdiv 60 * 60) := by
  unfold zoneText
  by_cases utc : offset = 0
  · simp [utc, zone?]
  · have minutes : (offset.tdiv 60).natAbs % 60 < 60 := Nat.mod_lt _ (by decide)
    have whole := Nat.div_add_mod' (offset.tdiv 60).natAbs 60
    have last := digits?_padded 2 ((offset.tdiv 60).natAbs % 60) []
      (by decide) (by omega)
    rw [List.append_nil] at last
    rw [if_neg utc]
    dsimp only
    unfold zone?
    split
    · rename_i impossible
      split_ifs at impossible <;> simp at impossible
    · rename_i sign rest _ parts
      obtain ⟨rfl, rfl⟩ := List.cons.inj parts
      simp only [digits?_padded 2 ((offset.tdiv 60).natAbs / 60) _ (by decide)
        (by omega), Option.bind_eq_bind,
        Option.bind_some, literal?_cons, last, near, minutes, true_and, if_true, whole]
      by_cases negative : offset.tdiv 60 < 0
      · simp only [negative, if_true]
        rw [if_neg (by decide)]
        congr 1
        omega
      · simp only [negative, if_false, if_true]
        congr 1
        omega
    · rename_i impossible
      simp at impossible

/-- What is written is read back, up to the seconds of the zone offset. -/
theorem parse_format {ts : Timestamp} {text : List Char}
    (written : format ts = some text) : parse text = some ts.truncateZone := by
  obtain ⟨year, month, day, hour, minute, second, nano, offset, valid⟩ := ts
  simp only [format, Option.ite_none_right_eq_some, Option.some.injEq] at written
  obtain ⟨⟨lower, upper, near⟩, rfl⟩ := written
  have ranges := valid
  simp only [validCivil, Bool.and_eq_true, decide_eq_true_eq] at ranges
  obtain ⟨⟨⟨⟨⟨⟨⟨-, months⟩, -⟩, days⟩, hours⟩, minutes⟩, seconds⟩, small⟩ := ranges
  have dayBound : daysIn month year ≤ 31 := by
    unfold daysIn
    split_ifs <;> omega
  have yearCast : ((year.toNat : Nat) : Int) = year := Int.toNat_of_nonneg lower
  have four := fun rest => digits?_padded 4 year.toNat rest (by decide) (by omega)
  have two : ∀ value rest, value < 100 →
      digits? 2 (padded 2 value ++ rest) = some (value, rest) :=
    fun value rest bound => digits?_padded 2 value rest (by decide) bound
  simp only [parse, four, literal?_cons, Option.bind_eq_bind, Option.bind_some,
    two month _ (by omega), two day _ (by omega), two hour _ (by omega),
    two minute _ (by omega), two second _ (by omega), fraction?_fraction small,
    zone?_zoneText near, yearCast]
  rw [dif_pos valid]
  rfl

example : (format { Timestamp.zero with nano := 120000000, valid := rfl }).map
    String.ofList = some "0001-01-01T00:00:00.12Z" := by decide

end Scriva.Store.Rfc3339
