import Mathlib

/-!
# Text and bytes

The UTF-8 bytes of a text and the decimal digits of a number, in the forms a
line-based file format uses them: plain decimals, and decimals padded with
zeros to a fixed width.  Both are read back exactly, a text without newline
characters has no newline byte, and padded decimals are ordered as text the
way they are ordered as numbers while they fit the width.
-/

namespace Scriva.Lib.Text

-- the laws of the order of texts by name, for sorting
instance isTrans_string : IsTrans String (· ≤ ·) := inferInstance

instance antisymm_string : Std.Antisymm (α := String) (· ≤ ·) := inferInstance

/-! ## UTF-8 -/

abbrev Bytes := List UInt8

/-- The newline byte. -/
def newline : UInt8 := 10

def utf8 (text : List Char) : Bytes :=
  text.flatMap String.utf8EncodeChar

def utf8? (bytes : Bytes) : Option (List Char) :=
  bytes.toByteArray.utf8Decode?.map Array.toList

theorem utf8?_utf8 (text : List Char) : utf8? (utf8 text) = some text := by
  have encoded : (utf8 text).toByteArray = text.utf8Encode := rfl
  rw [utf8?, encoded, List.utf8Decode?_utf8Encode]
  simp

/-- A text without control characters. -/
def printable (text : List Char) : Bool :=
  text.all fun c => 32 ≤ c.toNat

@[simp]
theorem printable_append (front back : List Char) :
    printable (front ++ back) = (printable front && printable back) :=
  List.all_append

@[simp]
theorem printable_cons (c : Char) (rest : List Char) :
    printable (c :: rest) = (decide (32 ≤ c.toNat) && printable rest) :=
  List.all_cons

variable {c : Char} {byte : UInt8} {value width small large : Nat} {front back : List Char}

theorem printable_utf8EncodeChar (plain : 32 ≤ c.toNat) (member : byte ∈ String.utf8EncodeChar c) :
    32 ≤ byte.toNat := by
  have code : 32 ≤ c.val.toNat := plain
  simp only [String.utf8EncodeChar] at member
  split_ifs at member with one two three
  all_goals
    simp only [List.mem_cons, List.not_mem_nil, or_false] at member
    rcases member with rfl | rfl | rfl | rfl
  all_goals
    simp only [UInt8.toNat_ofNat']
    omega

/-- The bytes of a text without control characters are no control bytes. -/
theorem printable_utf8 {text : List Char} (plain : printable text) (member : byte ∈ utf8 text) :
    32 ≤ byte.toNat := by
  obtain ⟨c, inside, here⟩ := List.mem_flatMap.mp member
  have printed := List.all_eq_true.mp plain c inside
  exact printable_utf8EncodeChar (by simpa using printed) here

theorem utf8_append (front back : List Char) :
    utf8 (front ++ back) = utf8 front ++ utf8 back :=
  List.flatMap_append

theorem length_le_utf8 (text : List Char) : text.length ≤ (utf8 text).length := by
  induction text with
  | nil => rfl
  | cons c text ih =>
    have byte : 1 ≤ (String.utf8EncodeChar c).length := by
      rw [String.length_utf8EncodeChar]
      exact c.utf8Size_pos
    change text.length + 1 ≤ (String.utf8EncodeChar c ++ utf8 text).length
    rw [List.length_append]
    omega

/-! ## Decimals -/

def decimal (value : Nat) : List Char :=
  Nat.toDigits 10 value

/-- A non-empty run of digits, leading zeros allowed. -/
def decimal? (text : List Char) : Option Nat :=
  if text ≠ [] ∧ text.all Char.isDigit then some (Nat.ofDigitChars 10 text 0)
  else none

theorem isDigit_of_mem_decimal (member : c ∈ decimal value) : c.isDigit :=
  Nat.isDigit_of_mem_toDigits (by decide) (by decide) member

/-- A decimal with zeros in front of it, up to a width. -/
def padded (width value : Nat) : List Char :=
  List.replicate (width - (decimal value).length) '0' ++ decimal value

theorem isDigit_of_mem_padded (member : c ∈ padded width value) : c.isDigit := by
  rcases List.mem_append.mp member with zero | digit
  · rw [List.eq_of_mem_replicate zero]
    decide
  · exact isDigit_of_mem_decimal digit

@[simp]
theorem decimal?_padded (width value : Nat) :
    decimal? (padded width value) = some value := by
  have nonempty : padded width value ≠ [] := by
    simp [padded, decimal, Nat.toDigits_ne_nil]
  have digits : (padded width value).all Char.isDigit :=
    List.all_eq_true.mpr fun _ member => isDigit_of_mem_padded member
  rw [decimal?, if_pos ⟨nonempty, digits⟩, padded, Nat.ofDigitChars_append,
    Nat.ofDigitChars_replicate_zero, Nat.mul_zero]
  exact congrArg some Nat.ofDigitChars_ten_toDigits

@[simp]
theorem decimal?_decimal (value : Nat) : decimal? (decimal value) = some value := by
  simpa [padded] using decimal?_padded 0 value

def signed (value : Int) : List Char :=
  if value < 0 then '-' :: decimal value.natAbs else decimal value.natAbs

def signed? : List Char → Option Int
  | '-' :: digits => (decimal? digits).map fun value : Nat => -(value : Int)
  | digits => (decimal? digits).map Int.ofNat

theorem minus_not_mem_decimal (value : Nat) : '-' ∉ decimal value := by
  intro member
  exact absurd (isDigit_of_mem_decimal member) (by decide)

@[simp]
theorem signed?_signed (value : Int) : signed? (signed value) = some value := by
  unfold signed signed?
  by_cases negative : value < 0
  · have restored : -(value.natAbs : Int) = value := by omega
    simp only [negative, if_true, decimal?_decimal, Option.map_some, restored]
  · have restored : (value.natAbs : Int) = value := by omega
    simp only [negative, if_false]
    split
    · rename_i digits minus
      have member : '-' ∈ decimal value.natAbs := by simp [minus]
      exact absurd member (minus_not_mem_decimal _)
    · simp [restored]

theorem mem_signed {value : Int} (member : c ∈ signed value) : c.isDigit ∨ c = '-' := by
  unfold signed at member
  split_ifs at member
  · rcases List.mem_cons.mp member with minus | digit
    · exact Or.inr minus
    · exact Or.inl (isDigit_of_mem_decimal digit)
  · exact Or.inl (isDigit_of_mem_decimal member)

theorem signed_ne_nil (value : Int) : signed value ≠ [] := by
  unfold signed
  split_ifs <;> simp [decimal, Nat.toDigits_ne_nil]

theorem length_decimal_le_iff (positive : 0 < width) :
    (decimal value).length ≤ width ↔ value < 10 ^ width :=
  Nat.length_toDigits_le_iff (by decide) positive

theorem length_padded (positive : 0 < width) (fits : value < 10 ^ width) :
    (padded width value).length = width := by
  have short := (length_decimal_le_iff positive).mpr fits
  simp only [padded, List.length_append, List.length_replicate]
  omega

theorem padded_injective (width : Nat) : Function.Injective (padded width) := by
  intro left right equal
  have read := congrArg decimal? equal
  simpa using read

/-! ### The order of padded decimals -/

theorem digit_le (digit : c.isDigit) : c.toNat - '0'.toNat ≤ 9 := by
  simp only [Char.isDigit, Bool.and_eq_true, decide_eq_true_eq] at digit
  have upper : c.toNat ≤ 57 := digit.2
  change c.toNat - 48 ≤ 9
  omega

/-- What is read so far decides between numbers of the same length. -/
theorem ofDigitChars_lt (digits : ∀ c ∈ front, c.isDigit) (same : front.length = back.length)
    (below : small < large) : Nat.ofDigitChars 10 front small < Nat.ofDigitChars 10 back large := by
  induction front generalizing back small large with
  | nil =>
    obtain rfl := List.length_eq_zero_iff.mp same.symm
    exact below
  | cons c front ih =>
    obtain ⟨d, back, rfl⟩ := List.exists_cons_of_length_eq_add_one same.symm
    have digit := digit_le (digits c (.head _))
    rw [Nat.ofDigitChars_cons, Nat.ofDigitChars_cons]
    apply ih (fun other member => digits other (.tail _ member))
    · simpa using same
    · omega

theorem ofDigitChars_lt_of_lt (digits : ∀ c ∈ front, c.isDigit) (same : front.length = back.length)
    (below : front < back) (start : Nat) :
    Nat.ofDigitChars 10 front start < Nat.ofDigitChars 10 back start := by
  induction front generalizing back start with
  | nil =>
    obtain rfl := List.length_eq_zero_iff.mp same.symm
    exact absurd below (lt_irrefl _)
  | cons c front ih =>
    obtain ⟨d, back, rfl⟩ := List.exists_cons_of_length_eq_add_one same.symm
    have length : front.length = back.length := by simpa using same
    have rest : ∀ c ∈ front, c.isDigit := fun other member =>
      digits other (.tail _ member)
    rw [Nat.ofDigitChars_cons, Nat.ofDigitChars_cons]
    rcases List.cons_lt_cons_iff.mp below with first | ⟨rfl, later⟩
    · apply ofDigitChars_lt rest length
      have low : '0'.toNat ≤ c.toNat := by
        have digit := digits c (.head _)
        simp only [Char.isDigit, Bool.and_eq_true, decide_eq_true_eq] at digit
        exact digit.1
      have order : c.toNat < d.toNat := first
      omega
    · exact ih rest length later _

/-- Padded decimals that fit their width are ordered like the numbers. -/
theorem padded_lt_padded (positive : 0 < width) (fits : large < 10 ^ width)
    (below : small < large) : padded width small < padded width large := by
  have value (number : Nat) :
      Nat.ofDigitChars 10 (padded width number) 0 = number := by
    have read := decimal?_padded width number
    unfold decimal? at read
    split_ifs at read
    exact Option.some.inj read
  have length : (padded width large).length = (padded width small).length := by
    rw [length_padded positive fits, length_padded positive (below.trans fits)]
  rcases lt_trichotomy (padded width small) (padded width large) with less | equal | more
  · exact less
  · exact absurd (padded_injective width equal) below.ne
  · have reversed := ofDigitChars_lt_of_lt (fun _ => isDigit_of_mem_padded) length more 0
    rw [value, value] at reversed
    omega

end Scriva.Lib.Text
