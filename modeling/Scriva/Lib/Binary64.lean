import Mathlib.Tactic

/-!
# Whole numbers as 64-bit floats

A 64-bit float has 53 significant bits.  A natural number is read as the float
nearest to it, of two equally near ones the one whose last bit is zero, and a
float is printed in the fewest decimal digits that are read as that float.

Up to `2 ^ 53` both do nothing.  Beyond, a number and its printed form agree only
where the number is itself the shortest decimal of some float.
-/

namespace Scriva.Lib.Binary64

/-! ## Reading -/

/-- The weight of the last significant bit, as a power of two. -/
def exponent (n : Nat) : Nat :=
  n.log2 - 52

/-- The float nearest to a number, ties going to the even significand. -/
def nearest (n : Nat) : Nat :=
  let ulp := 2 ^ exponent n
  let significand := n / ulp
  if 2 * (n % ulp) < ulp ∨ (2 * (n % ulp) = ulp ∧ significand % 2 = 0) then significand * ulp
  else (significand + 1) * ulp

theorem lt_two_pow_exponent (n : Nat) : n < 2 ^ (53 + exponent n) := by
  have top := @Nat.lt_log2_self n
  refine top.trans_le (Nat.pow_le_pow_right (by decide) ?_)
  unfold exponent
  omega

theorem two_pow_exponent_le {n : Nat} (large : 2 ^ 52 ≤ n) : 2 ^ (52 + exponent n) ≤ n := by
  have positive : n ≠ 0 := by omega
  have bits : 52 ≤ n.log2 := (Nat.le_log2 positive).mpr large
  have whole : 52 + exponent n = n.log2 := by
    unfold exponent
    omega
  rw [whole]
  exact Nat.log2_self_le positive

theorem significand_lt (n : Nat) : n / 2 ^ exponent n < 2 ^ 53 := by
  rw [Nat.div_lt_iff_lt_mul (Nat.two_pow_pos _), ← Nat.pow_add]
  exact lt_two_pow_exponent n

theorem nearest_of_dvd {n : Nat} (exact : 2 ^ exponent n ∣ n) : nearest n = n := by
  have positive := Nat.two_pow_pos (exponent n)
  have rest : n % 2 ^ exponent n = 0 := Nat.mod_eq_zero_of_dvd exact
  unfold nearest
  simp only [rest]
  rw [if_pos (Or.inl (by omega))]
  exact Nat.div_mul_cancel exact

/-- A number with at most 53 significant bits is a float. -/
theorem nearest_mul_two_pow {significand : Nat} (short : significand ≤ 2 ^ 53) (k : Nat) :
    nearest (significand * 2 ^ k) = significand * 2 ^ k := by
  apply nearest_of_dvd
  rcases short.lt_or_eq with less | rfl
  · -- the last significant bit is at most the `k`-th
    refine (Nat.pow_dvd_pow 2 ?_).trans (Nat.dvd_mul_left _ _)
    rcases Nat.eq_zero_or_pos (significand * 2 ^ k) with zero | positive
    · simp [zero, exponent]
    · have bound : significand * 2 ^ k < 2 ^ (53 + k) := by
        rw [Nat.pow_add]
        exact Nat.mul_lt_mul_of_pos_right less (Nat.two_pow_pos k)
      have bits := (Nat.log2_lt positive.ne').mpr bound
      unfold exponent
      omega
  · have power : 2 ^ 53 * 2 ^ k = 2 ^ (53 + k) := (Nat.pow_add 2 53 k).symm
    rw [power]
    refine Nat.pow_dvd_pow 2 ?_
    rw [exponent, Nat.log2_two_pow]
    omega

theorem nearest_small {n : Nat} (small : n ≤ 2 ^ 53) : nearest n = n := by
  have exact := nearest_mul_two_pow small 0
  rwa [Nat.pow_zero, Nat.mul_one] at exact

theorem nearest_cases (n : Nat) :
    ∃ significand, n / 2 ^ exponent n ≤ significand ∧ significand ≤ n / 2 ^ exponent n + 1 ∧
      nearest n = significand * 2 ^ exponent n := by
  unfold nearest
  simp only
  split_ifs
  · exact ⟨_, le_rfl, Nat.le_succ _, rfl⟩
  · exact ⟨_, Nat.le_succ _, le_rfl, rfl⟩

@[simp]
theorem nearest_nearest (n : Nat) : nearest (nearest n) = nearest n := by
  obtain ⟨significand, -, upper, shape⟩ := nearest_cases n
  rw [shape]
  exact nearest_mul_two_pow (upper.trans (significand_lt n)) _

theorem le_nearest {n : Nat} (large : 2 ^ 53 ≤ n) : 2 ^ 53 ≤ nearest n := by
  obtain ⟨significand, lower, -, shape⟩ := nearest_cases n
  have top := two_pow_exponent_le (le_trans (by decide) large)
  have full : 2 ^ 52 ≤ n / 2 ^ exponent n := by
    rw [Nat.le_div_iff_mul_le (Nat.two_pow_pos _), ← Nat.pow_add]
    exact top
  have coarse : 2 ≤ 2 ^ exponent n := by
    have bits : 53 ≤ n.log2 := (Nat.le_log2 (by omega)).mpr large
    exact Nat.le_self_pow (by unfold exponent; omega) 2
  calc 2 ^ 53 = 2 ^ 52 * 2 := by decide
    _ ≤ significand * 2 ^ exponent n := Nat.mul_le_mul (full.trans lower) coarse
    _ = nearest n := shape.symm

theorem nearest_le (n : Nat) : nearest n ≤ 2 * n := by
  rcases Nat.lt_or_ge n (2 ^ 53) with small | large
  · rw [nearest_small small.le]
    omega
  · obtain ⟨significand, -, upper, shape⟩ := nearest_cases n
    have top := two_pow_exponent_le (le_trans (by decide) large)
    have ulp : 2 ^ exponent n ≤ n :=
      (Nat.pow_le_pow_right (by decide) (Nat.le_add_left _ _)).trans top
    calc nearest n = significand * 2 ^ exponent n := shape
      _ ≤ (n / 2 ^ exponent n + 1) * 2 ^ exponent n := Nat.mul_le_mul_right _ upper
      _ = n / 2 ^ exponent n * 2 ^ exponent n + 2 ^ exponent n := by ring
      _ ≤ n + n := Nat.add_le_add (Nat.div_mul_le_self _ _) ulp
      _ = 2 * n := by ring

/-! ## Printing -/

/-- Of the two multiples of a power of ten around a float, the one to print: one
that is read as the float, the closer one if both are, and at equal distance the
one with the even last digit. -/
def candidate (v k : Nat) : Option Nat :=
  let unit := 10 ^ k
  let down := v / unit * unit
  let up := down + unit
  let closer := 2 * (v % unit) < unit ∨ (2 * (v % unit) = unit ∧ v / unit % 2 = 0)
  if nearest down = v ∧ (nearest up ≠ v ∨ closer) then some down
  else if nearest up = v then some up
  else none

/-- The digits of a float, followed by zeros up to the units: for floats below
`10 ^ 21`. -/
def shortest (v : Nat) : Nat :=
  ((List.range 21).reverse.findSome? (candidate v)).getD v

theorem nearest_of_candidate {v k printed : Nat} (found : candidate v k = some printed) :
    nearest printed = v := by
  unfold candidate at found
  simp only at found
  split_ifs at found with down up
  · rw [← Option.some.inj found]
    exact down.1
  · rw [← Option.some.inj found]
    exact up

/-- What is printed for a float is read as that float. -/
theorem nearest_shortest {v : Nat} (float : nearest v = v) : nearest (shortest v) = v := by
  unfold shortest
  rcases found : (List.range 21).reverse.findSome? (candidate v) with - | printed
  · exact float
  · obtain ⟨k, -, here⟩ := List.exists_of_findSome?_eq_some found
    exact nearest_of_candidate here

/-- A float of at most 53 bits is printed in full. -/
theorem shortest_small {v : Nat} (small : v ≤ 2 ^ 53) : shortest v = v := by
  rcases small.lt_or_eq with less | rfl
  · have read := nearest_shortest (nearest_small small)
    -- whatever is read as a float below `2 ^ 53` is that number
    have bounded : shortest v < 2 ^ 53 := by
      by_contra large
      have := le_nearest (not_lt.mp large)
      omega
    rwa [nearest_small bounded.le] at read
  · decide +kernel

end Scriva.Lib.Binary64
