import Scriva.Lib.Text

/-!
# CRC-32C

The reflected Castagnoli checksum, one bit at a time.  A shift of the
register is linear over exclusive or, so the states that some fixed bytes
leave unchanged are an affine subspace.  For the two bytes `{}` it has exactly
two elements, computed here with an explicit left inverse.
-/

namespace Scriva.Lib.Crc

open Text

/-! ## The checksum -/

abbrev Register := BitVec 32

/-- The reflected Castagnoli polynomial. -/
def polynomial : Register := 0x82F63B78#32

def shift (register : Register) : Register :=
  if register.getLsbD 0 then (register >>> 1) ^^^ polynomial
  else register >>> 1

def shifts : Nat → Register → Register
  | 0, register => register
  | count + 1, register => shifts count (shift register)

def feed (register : Register) (byte : UInt8) : Register :=
  shifts 8 (register ^^^ byte.toBitVec.setWidth 32)

/-- The register after some bytes, without the final complement. -/
def feedAll (register : Register) (bytes : Bytes) : Register :=
  bytes.foldl feed register

def crc32c (bytes : Bytes) : Register :=
  ~~~ feedAll (BitVec.allOnes 32) bytes

/-- The check value of the algorithm's definition. -/
example : crc32c (utf8 "123456789".toList) = 0xE3069283#32 := by decide +kernel

theorem feedAll_append (register : Register) (front back : Bytes) :
    feedAll register (front ++ back) =
      feedAll (feedAll register front) back := by
  simp [feedAll, List.foldl_append]

/-! ## Linearity -/

theorem shift_xor (left right : Register) :
    shift (left ^^^ right) = shift left ^^^ shift right := by
  unfold shift
  simp only [BitVec.getLsbD_xor, BitVec.ushiftRight_xor_distrib]
  cases left.getLsbD 0 <;> cases right.getLsbD 0
  · simp
  · simp [BitVec.xor_assoc]
  · simp only [Bool.xor_false, if_true, Bool.false_eq_true, if_false]
    rw [BitVec.xor_assoc, BitVec.xor_comm (right >>> 1), ← BitVec.xor_assoc]
  · simp only [Bool.xor_self, Bool.false_eq_true, if_false, if_true]
    rw [BitVec.xor_assoc, BitVec.xor_comm polynomial, BitVec.xor_assoc,
      BitVec.xor_self, BitVec.xor_zero]

theorem shifts_xor (count : Nat) (left right : Register) :
    shifts count (left ^^^ right) = shifts count left ^^^ shifts count right := by
  induction count generalizing left right with
  | zero => rfl
  | succ count ih => simp only [shifts, shift_xor, ih]

theorem shifts_add (first second : Nat) (register : Register) :
    shifts (first + second) register = shifts second (shifts first register) := by
  induction first generalizing register with
  | zero => simp [shifts]
  | succ first ih =>
    rw [Nat.succ_add_eq_add_succ, ← Nat.succ_eq_add_one, Nat.add_succ]
    simp only [shifts, ih]

/-- An additive map that kills every power of two is zero. -/
theorem eq_zero_of_basis (map : Register → Register)
    (additive : ∀ left right, map (left ^^^ right) = map left ^^^ map right)
    (basis : ∀ i : Fin 32, map (BitVec.twoPow 32 i) = 0#32)
    (register : Register) : map register = 0#32 := by
  have zero : map 0#32 = 0#32 := by
    have self := additive 0#32 0#32
    simpa using self
  -- clear the register from the top bit downwards
  have low (count : Nat) (register : Register)
      (high : ∀ i, count ≤ i → register.getLsbD i = false) :
      map register = 0#32 := by
    induction count generalizing register with
    | zero =>
      have cleared : register = 0#32 :=
        BitVec.eq_of_getLsbD_eq fun i _ => by simp [high i (Nat.zero_le i)]
      rw [cleared, zero]
    | succ count ih =>
      by_cases bit : register.getLsbD count = true
      · have bound : count < 32 := by
          by_contra large
          rw [BitVec.getLsbD_of_ge register count (by omega)] at bit
          cases bit
        have rest := ih (register ^^^ BitVec.twoPow 32 count) (by
          intro i large
          rw [BitVec.getLsbD_xor, BitVec.getLsbD_twoPow]
          by_cases equal : count = i
          · subst equal
            simp [bit, bound]
          · simp [equal, high i (by omega)])
        have split : register =
            (register ^^^ BitVec.twoPow 32 count) ^^^ BitVec.twoPow 32 count := by
          rw [BitVec.xor_assoc, BitVec.xor_self, BitVec.xor_zero]
        rw [split, additive, rest, basis ⟨count, bound⟩, BitVec.xor_zero]
      · refine ih register fun i large => ?_
        by_cases equal : i = count
        · subst equal
          simpa using bit
        · exact high i (by omega)
  exact low 32 register fun i large => BitVec.getLsbD_of_ge register i large

/-! ## Registers unchanged by the bytes `{}` -/

/-- The bytes of an empty JSON object. -/
def braces : Bytes := [123, 125]

/-- The two registers that `{}` leaves as they are. -/
def bracesFixed : List Register := [0x45A87D6C#32, 0xB90C50C3#32]

/-- Columns of a left inverse of the map that sends a register to its sum with
its sixteenth shift. -/
def inverseColumns : List Register :=
  [0x0#32, 0x667B2786#32, 0x56294525#32, 0x368D8063#32, 0x0B602740#32,
    0x70BB6906#32, 0x7BA9D825#32, 0x6D8CBA63#32, 0x41C67EEF#32, 0x1953F7F7#32,
    0x54DCC868#32, 0x33669AF9#32, 0x00B61274#32, 0x6717036E#32, 0x54F10CF5#32,
    0x333D13C3#32, 0x00010000#32, 0x66792786#32, 0x562D4525#32, 0x36858063#32,
    0x0B702740#32, 0x709B6906#32, 0x7BE9D825#32, 0x6D0CBA63#32, 0x40C67EEF#32,
    0x1B53F7F7#32, 0x50DCC868#32, 0x3B669AF9#32, 0x10B61274#32, 0x4717036E#32,
    0x14F10CF5#32, 0x4F993E6C#32]

/-- Sum the columns selected by the bits of a register, from bit `start`. -/
def combine : Nat → List Register → Register → Register
  | _, [], _ => 0#32
  | start, column :: columns, register =>
    (if register.getLsbD start then column else 0#32) ^^^
      combine (start + 1) columns register

theorem select_xor (left right : Bool) (column : Register) :
    (if (left ^^ right) then column else 0#32) =
      (if left then column else 0#32) ^^^ (if right then column else 0#32) := by
  cases left <;> cases right <;> simp

theorem combine_xor (start : Nat) (columns : List Register)
    (left right : Register) :
    combine start columns (left ^^^ right) =
      combine start columns left ^^^ combine start columns right := by
  induction columns generalizing start with
  | nil => simp [combine]
  | cons column columns ih =>
    simp only [combine, ih, BitVec.getLsbD_xor, select_xor]
    ac_rfl

/-- The register whose multiples are fixed by sixteen shifts. -/
def kernel : Register := 0xFCA42DAF#32

/-- The left inverse recovers a register up to the kernel. -/
theorem combine_inverse (register : Register) :
    combine 0 inverseColumns (shifts 16 register ^^^ register) =
      register ^^^ (if register.getLsbD 31 then kernel else 0#32) := by
  have vanishes := eq_zero_of_basis
    (fun register =>
      combine 0 inverseColumns (shifts 16 register ^^^ register) ^^^
        (register ^^^ (if register.getLsbD 31 then kernel else 0#32)))
    (by
      intro left right
      simp only [shifts_xor, combine_xor, BitVec.getLsbD_xor, select_xor]
      ac_rfl)
    (by decide +kernel) register
  exact BitVec.xor_eq_zero_iff.mp vanishes

theorem shifts_fixed_iff (register : Register) :
    shifts 16 register = register ↔ register = 0#32 ∨ register = kernel := by
  constructor
  · intro fixed
    have recovered := combine_inverse register
    rw [fixed, BitVec.xor_self] at recovered
    have empty : combine 0 inverseColumns 0#32 = 0#32 := by decide +kernel
    rw [empty] at recovered
    split at recovered
    · exact Or.inr (BitVec.xor_eq_zero_iff.mp recovered.symm)
    · rw [BitVec.xor_zero] at recovered
      exact Or.inl recovered.symm
  · rintro (rfl | rfl) <;> decide +kernel

/-- Exactly two registers are unchanged by the bytes of an empty object. -/
theorem feedAll_braces_iff (register : Register) :
    feedAll register braces = register ↔ register ∈ bracesFixed := by
  -- compare with one solution: the difference is fixed by sixteen shifts
  have linear : feedAll register braces =
      shifts 16 register ^^^ feedAll 0#32 braces := by
    simp only [feedAll, braces, List.foldl_cons, List.foldl_nil, feed,
      shifts_xor, BitVec.zero_xor]
    rw [show (16 : Nat) = 8 + 8 from rfl, shifts_add, BitVec.xor_assoc]
  have solution : feedAll 0#32 braces =
      shifts 16 0x45A87D6C#32 ^^^ 0x45A87D6C#32 := by decide +kernel
  have shifted : feedAll register braces = register ↔
      shifts 16 (register ^^^ 0x45A87D6C#32) = register ^^^ 0x45A87D6C#32 := by
    rw [linear, solution, shifts_xor, ← BitVec.xor_assoc,
      ← BitVec.xor_eq_zero_iff (x := _ ^^^ _), ← BitVec.xor_eq_zero_iff (y := _ ^^^ _)]
    rw [BitVec.xor_assoc (_ ^^^ _), BitVec.xor_comm 0x45A87D6C#32 register]
  rw [shifted, shifts_fixed_iff, BitVec.xor_eq_zero_iff]
  simp only [bracesFixed, List.mem_cons, List.not_mem_nil, or_false]
  have other : register ^^^ 0x45A87D6C#32 = kernel ↔
      register = 0xB90C50C3#32 := by
    constructor
    · intro equal
      have restored := congrArg (· ^^^ 0x45A87D6C#32) equal
      simp only [BitVec.xor_assoc, BitVec.xor_self, BitVec.xor_zero] at restored
      exact restored.trans (by decide)
    · rintro rfl
      decide
  rw [other]

end Scriva.Lib.Crc
