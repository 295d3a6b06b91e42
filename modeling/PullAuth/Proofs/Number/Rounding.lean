import Mathlib.Algebra.Group.Nat.Defs
import PullAuth.Number.Shortest

/-!
Doubles and the decimals that read back as them. Rounding depends on the number alone, not on how
a fraction or a decimal writes it (`nearestRank_mul`, `decimalRank_shift`), and the exact value of a
double rounds to the double (`nearestRank_magnitude`). So the shortest decimal of a double reads
back as it (`decimalRank_shortest`), whether one of the first seventeen grids has it or the exact
value serves.
-/
namespace PullAuth.Double

/-! ## Fractions -/

theorem roundedQuotient_mul {k : Nat} (hk : 0 < k) (num den : Nat) :
    roundedQuotient (k * num) (k * den) = roundedQuotient num den := by
  have below : 2 * (k * (num % den)) < k * den ↔ 2 * (num % den) < den := by
    rw [Nat.mul_left_comm]
    exact Nat.mul_lt_mul_left hk
  have above : k * den < 2 * (k * (num % den)) ↔ den < 2 * (num % den) := by
    rw [Nat.mul_left_comm 2]
    exact Nat.mul_lt_mul_left hk
  simp only [roundedQuotient, Nat.mul_div_mul_left num den hk, Nat.mul_mod_mul_left, gt_iff_lt,
    below, above]

/-- A fraction that is not in lowest terms is rounded like one that is. -/
theorem nearestRank_mul {k : Nat} (hk : 0 < k) (num den : Nat) :
    nearestRank (k * num) (k * den) = nearestRank num den := by
  simp only [nearestRank, Nat.mul_div_mul_left num den hk, Nat.mul_assoc, roundedQuotient_mul hk]

theorem roundedQuotient_of_dvd {n den : Nat} (h : 0 < den) :
    roundedQuotient (n * den) den = n := by
  simp only [roundedQuotient, Nat.mul_div_cancel n h, Nat.mul_mod_left, Nat.mul_zero, h, if_true]

/-- A number with 53 significant bits is rounded to itself. -/
theorem nearestRank_of_significand {f e : Nat} (low : ranksPerExponent ≤ f)
    (high : f < 2 * ranksPerExponent) :
    nearestRank (f * 2 ^ e) 1 = e * ranksPerExponent + f := by
  have ranks : ranksPerExponent = 2 ^ 52 := rfl
  have bits : Nat.log2 (f * 2 ^ e) = 52 + e := by
    have positive : 0 < 2 ^ e := Nat.two_pow_pos e
    have present : f * 2 ^ e ≠ 0 := by
      have : 0 < f := by omega
      exact Nat.mul_ne_zero (by omega) (by omega)
    rw [Nat.log2_eq_iff present, Nat.pow_add, Nat.add_right_comm, Nat.pow_add]
    constructor
    · exact Nat.mul_le_mul_right _ (by omega)
    · exact Nat.mul_lt_mul_of_pos_right (by omega) positive
  have exact := roundedQuotient_of_dvd (n := f) (Nat.two_pow_pos e)
  simp only [nearestRank, Nat.div_one, bits, Nat.add_sub_cancel_left, Nat.one_mul, Nat.pow_eq,
    exact]

/-- The exact value of a double is rounded to it. -/
theorem nearestRank_magnitude (rank : Nat) : nearestRank (magnitude rank) 1 = rank := by
  have ranks : ranksPerExponent = 2 ^ 52 := rfl
  unfold magnitude
  by_cases h : rank < ranksPerExponent
  · -- A subnormal number is its rank in units, and nothing is shifted out.
    have unshifted : Nat.log2 rank - 52 = 0 := by
      by_cases hz : rank = 0
      · rw [hz]
        rfl
      · have := (Nat.log2_lt hz).2 (ranks ▸ h)
        omega
    have exact := @roundedQuotient_of_dvd rank 1 (by decide)
    rw [Nat.mul_one] at exact
    simp only [if_pos h, nearestRank, Nat.div_one, unshifted, Nat.zero_mul, Nat.zero_add,
      Nat.one_mul, Nat.pow_eq, Nat.pow_zero, exact]
  · have whole := Nat.div_add_mod rank ranksPerExponent
    have rest := Nat.mod_lt rank (show ranksPerExponent > 0 by decide)
    have first : 0 < rank / ranksPerExponent := Nat.div_pos (by omega) (by decide)
    obtain ⟨e, he⟩ := Nat.exists_eq_add_of_lt first
    rw [Nat.zero_add] at he
    rw [if_neg h, he, Nat.add_sub_cancel, Nat.pow_eq,
      nearestRank_of_significand (by omega) (by omega)]
    calc e * ranksPerExponent + (ranksPerExponent + rank % ranksPerExponent)
        = ranksPerExponent * (e + 1) + rank % ranksPerExponent := by
          rw [Nat.mul_succ, Nat.mul_comm, Nat.add_assoc]
      _ = rank := by rw [← he, whole]

/-! ## Decimals -/

theorem length_toDigits_mul {n : Nat} (h : n ≠ 0) :
    (Nat.toDigits 10 (10 * n)).length = (Nat.toDigits 10 n).length + 1 := by
  rw [Nat.toDigits_of_base_le (by decide) (by omega), List.length_append,
    Nat.mul_div_cancel_left n (by decide), List.length_singleton]

/-- A zero more among the digits makes up for a power of ten less. -/
theorem decimalRank_mul (digits : Nat) (exponent : Int) :
    decimalRank (10 * digits) (exponent - 1) = decimalRank digits exponent := by
  by_cases h : digits = 0
  · rw [h]
    rfl
  have h' : 10 * digits ≠ 0 := by omega
  have size : (((Nat.toDigits 10 (10 * digits)).length : Int) + (exponent - 1)) =
      (Nat.toDigits 10 digits).length + exponent := by
    rw [length_toDigits_mul h]
    omega
  unfold decimalRank
  simp only [if_neg h, if_neg h', size]
  congr 2
  -- The two sides are the same fraction, one of them perhaps not in lowest terms.
  match exponent with
  | .ofNat (e + 1) =>
    have before : (Int.ofNat (e + 1)) - 1 = Int.ofNat e := by
      simp only [Int.ofNat_eq_natCast]
      omega
    simp only [before, Nat.pow_eq, Nat.pow_succ]
    congr 2
    rw [Nat.mul_comm (10 ^ e), ← Nat.mul_assoc, Nat.mul_comm digits]
  | .ofNat 0 =>
    show nearestRank (10 * digits * unitsInOne) (Nat.pow 10 1) =
      nearestRank (digits * Nat.pow 10 0 * unitsInOne) 1
    simp only [Nat.pow_eq, Nat.pow_zero, Nat.mul_one, Nat.pow_one, Nat.mul_assoc]
    exact nearestRank_mul (k := 10) (by decide) (digits * unitsInOne) 1
  | .negSucc e =>
    have before : (Int.negSucc e) - 1 = Int.negSucc (e + 1) := by omega
    simp only [before, Nat.pow_eq, Nat.mul_assoc]
    rw [Nat.pow_succ 10 (e + 1), Nat.mul_comm (10 ^ (e + 1))]
    exact nearestRank_mul (k := 10) (by decide) (digits * unitsInOne) (10 ^ (e + 1))

/-- Zeros behind the digits make up for powers of ten. -/
theorem decimalRank_shift (digits k : Nat) (exponent : Int) :
    decimalRank (digits * 10 ^ k) (exponent - k) = decimalRank digits exponent := by
  induction k with
  | zero => rw [Nat.pow_zero, Nat.mul_one, Int.natCast_zero, Int.sub_zero]
  | succ k ih =>
    have digits_eq : digits * 10 ^ (k + 1) = 10 * (digits * 10 ^ k) := by
      rw [Nat.pow_succ, Nat.mul_comm (10 ^ k), Nat.mul_left_comm]
    have exponent_eq : exponent - (k + 1 : Nat) = exponent - k - 1 := by omega
    rw [digits_eq, exponent_eq, decimalRank_mul, ih]

/-! ## The shortest decimal -/

theorem magnitude_pos {rank : Nat} (h : rank ≠ 0) : 0 < magnitude rank := by
  unfold magnitude
  split
  · omega
  · have : 0 < ranksPerExponent := by decide
    rw [Nat.pow_eq]
    exact Nat.mul_pos (by omega) (Nat.two_pow_pos _)

theorem magnitude_lt {rank e : Nat} (h : rank / ranksPerExponent ≤ e + 1) :
    magnitude rank < 2 ^ (53 + e) := by
  have ranks : ranksPerExponent = 2 ^ 52 := rfl
  have rest := Nat.mod_lt rank (show ranksPerExponent > 0 by decide)
  have more : 2 ^ 53 ≤ 2 ^ (53 + e) := Nat.pow_le_pow_right (by decide) (by omega)
  unfold magnitude
  split
  · omega
  · calc (ranksPerExponent + rank % ranksPerExponent) *
          Nat.pow 2 (rank / ranksPerExponent - 1)
        < 2 ^ 53 * 2 ^ (rank / ranksPerExponent - 1) :=
          Nat.mul_lt_mul_of_pos_right (by omega) (Nat.two_pow_pos _)
      _ ≤ 2 ^ 53 * 2 ^ e :=
          Nat.mul_le_mul_left _ (Nat.pow_le_pow_right (by decide) (by omega))
      _ = 2 ^ (53 + e) := (Nat.pow_add 2 53 e).symm

/-- The exact value as a decimal reads back. -/
theorem decimalRank_exact {rank : Nat} (h : rank ≠ 0) (hf : rank < finiteCount) :
    decimalRank (magnitude rank * Nat.pow 5 1074) (-1074) = rank := by
  have low := magnitude_pos h
  have exponent : rank / ranksPerExponent ≤ 2045 + 1 := by
    have count : finiteCount = 2047 * ranksPerExponent := rfl
    exact Nat.le_of_lt_succ ((Nat.div_lt_iff_lt_mul (by decide)).2 (count ▸ hf))
  have high := magnitude_lt exponent
  have present : magnitude rank * Nat.pow 5 1074 ≠ 0 :=
    Nat.mul_ne_zero (by omega) (by decide +kernel)
  have short : (Nat.toDigits 10 (magnitude rank * Nat.pow 5 1074)).length ≤ 1424 := by
    rw [Nat.length_toDigits_le_iff (by decide) (by decide)]
    calc magnitude rank * Nat.pow 5 1074
        < 2 ^ (53 + 2045) * Nat.pow 5 1074 :=
          Nat.mul_lt_mul_of_pos_right high (by decide +kernel)
      _ ≤ 10 ^ 1424 := by decide +kernel
  have long : ¬(Nat.toDigits 10 (magnitude rank * Nat.pow 5 1074)).length ≤ 723 := by
    rw [Nat.length_toDigits_le_iff (by decide) (by decide)]
    refine Nat.not_lt_of_le ?_
    calc 10 ^ 723 ≤ Nat.pow 5 1074 := by decide +kernel
      _ ≤ magnitude rank * Nat.pow 5 1074 := Nat.le_mul_of_pos_left _ low
  have negative : (-1074 : Int) = .negSucc 1073 := rfl
  unfold decimalRank
  rw [if_neg present, if_neg (by omega), if_neg (by omega), negative]
  dsimp only
  -- Five and two to the same power make ten, which cancels.
  have ten : Nat.pow 5 1074 * unitsInOne = Nat.pow 10 (1073 + 1) := by decide +kernel
  have positive : 0 < Nat.pow 10 (1073 + 1) := by decide +kernel
  generalize Nat.pow 10 (1073 + 1) = p at ten positive ⊢
  calc nearestRank (magnitude rank * Nat.pow 5 1074 * unitsInOne) p
      = nearestRank (p * magnitude rank) (p * 1) := by
        rw [Nat.mul_assoc, ten, Nat.mul_comm, Nat.mul_one]
    _ = rank := by rw [nearestRank_mul positive, nearestRank_magnitude]

theorem decimalRank_of_onGrid? {rank : Nat} {exponent : Int} {d : Decimal}
    (h : onGrid? rank exponent = some d) : decimalRank d.digits d.exponent = rank := by
  unfold onGrid? at h
  simp only [beq_iff_eq] at h
  repeat' split at h
  all_goals cases h
  all_goals assumption

/-- The shortest decimal reads back as the double that it is written for. -/
theorem decimalRank_shortest {rank : Nat} (h : rank ≠ 0) (hf : rank < finiteCount) :
    decimalRank (shortest rank).digits (shortest rank).exponent = rank := by
  have from_count (size : Int) (fuel count : Nat) :
      decimalRank (shortestFrom rank size fuel count).digits
        (shortestFrom rank size fuel count).exponent = rank := by
    induction fuel generalizing count with
    | zero => exact decimalRank_exact h hf
    | succ fuel ih =>
      unfold shortestFrom
      split
      · next d hd => exact decimalRank_of_onGrid? hd
      · exact ih (count + 1)
  exact from_count (decimalSize rank) 17 1

end PullAuth.Double
