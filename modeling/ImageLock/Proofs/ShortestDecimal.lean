/-
Decimals of numbers. Seventeen digits are enough for each number, so the search for the
fewest digits ends with some that read back.
-/
import ImageLock.Number.Decimal
import ImageLock.Proofs.Rounding

namespace ImageLock.Number

/-! Powers of ten and of two. -/

/-- How many decimal digits so many binary ones are, as far as the format goes. -/
theorem ten_pow_le_two_pow : ∀ n < 1100,
    10 ^ (n * 30103 / 100000) ≤ 2 ^ (n + 1) ∧ 2 ^ n ≤ 10 ^ (n * 30103 / 100000 + 1) := by
  decide +kernel

theorem ten_zpow_succ (k : Int) : (10 : ℚ) ^ (k + 1) = 10 * 10 ^ k := by
  rw [zpow_add₀ (by norm_num), zpow_one, mul_comm]

theorem ten_zpow_mono {j k : Int} (le : j ≤ k) : (10 : ℚ) ^ j ≤ 10 ^ k :=
  zpow_le_zpow_right₀ (by norm_num) le

/-- The same for exponents, which can be negative. -/
theorem ten_zpow_near {k : Int} (low : -1100 < k) (high : k < 1100) :
    (10 : ℚ) ^ (k * 30103 / 100000 - 1) ≤ 2 ^ k ∧
      (2 : ℚ) ^ k ≤ 10 ^ (k * 30103 / 100000 + 2) := by
  obtain ⟨least, most⟩ := ten_pow_le_two_pow k.natAbs (by omega)
  have least' : (10 : ℚ) ^ ((k.natAbs * 30103 / 100000 : Nat) : Int) ≤
      2 * 2 ^ (k.natAbs : Int) := by
    rw [zpow_natCast, zpow_natCast, ← pow_succ']
    exact_mod_cast least
  have most' : (2 : ℚ) ^ (k.natAbs : Int) ≤
      10 * 10 ^ ((k.natAbs * 30103 / 100000 : Nat) : Int) := by
    rw [zpow_natCast, zpow_natCast, ← pow_succ']
    exact_mod_cast most
  generalize digits : k.natAbs * 30103 / 100000 = n at least' most'
  rcases Int.le_total 0 k with up | down
  · have size : k * 30103 / 100000 = n := by omega
    rw [Int.natAbs_of_nonneg up] at least' most'
    have less := ten_zpow_succ ((n : Int) - 1)
    have more := ten_zpow_succ ((n : Int) + 1)
    have next := ten_zpow_succ (n : Int)
    have pos : (0 : ℚ) < 2 ^ k := by positivity
    have pos' : (0 : ℚ) < 10 ^ (n : Int) := by positivity
    rw [sub_add_cancel] at less
    rw [size, show (n : Int) + 2 = n + 1 + 1 by ring]
    constructor <;> linarith
  · have size : k * 30103 / 100000 ≤ -n ∧ -n - 1 ≤ k * 30103 / 100000 := by omega
    have abs : (k.natAbs : Int) = -k := by omega
    have next := ten_zpow_succ (-(n : Int))
    have early := ten_zpow_succ (-(n : Int) - 1)
    have two_pos : (0 : ℚ) < 2 ^ k := by positivity
    have ten_pos : (0 : ℚ) < 10 ^ (n : Int) := by positivity
    rw [abs, zpow_neg] at least' most'
    rw [sub_add_cancel] at early
    rw [zpow_neg] at early next
    constructor
    · refine (ten_zpow_mono (by omega : k * 30103 / 100000 - 1 ≤ -n - 1)).trans ?_
      have inverse : (10 ^ (n : Int))⁻¹ ≤ 10 * (2 : ℚ) ^ k := by
        rw [inv_le_comm₀ ten_pos (by positivity), mul_inv]
        linarith
      linarith
    · refine le_trans ?_ (ten_zpow_mono (by omega : -n + 1 ≤ k * 30103 / 100000 + 2))
      have inverse : (2 : ℚ) ^ k ≤ 2 * (10 ^ (n : Int))⁻¹ := by
        rw [← inv_le_inv₀ (by positivity) two_pos, mul_inv, inv_inv]
        linarith
      have pos' : (0 : ℚ) < (10 ^ (n : Int))⁻¹ := by positivity
      linarith

/-! Numerals. -/

namespace Binary64

/-- A numeral that its number of digits does not settle is a quotient. -/
theorem ofDecimal_of_size {negative : Bool} {digits : Nat} {power : Int} (nonzero : digits ≠ 0)
    (most : (digits.log2 : Int) * 30103 / 100000 + power ≤ 320)
    (least : -400 ≤ (digits.log2 : Int) * 30103 / 100000 + power) :
    ofDecimal negative digits power = nearest negative (digits * 10 ^ power) := by
  have pos : 0 < digits := Nat.pos_of_ne_zero nonzero
  unfold ofDecimal
  dsimp only
  rw [if_neg nonzero, if_neg (by omega), if_neg (by omega)]
  split
  next up =>
    have ten : 0 < Nat.pow 10 power.toNat := Nat.pow_pos (by norm_num)
    have unit : ((10 : ℚ) ^ power) = ((Nat.pow 10 power.toNat : Nat) : ℚ) := by
      conv_lhs => rw [← Int.toNat_of_nonneg up, zpow_natCast]
      exact (Nat.cast_pow 10 power.toNat).symm
    rw [ofRatio_eq negative (Nat.mul_pos pos ten) Nat.one_pos, unit]
    push_cast
    rw [div_one]
  next down =>
    have ten : 0 < Nat.pow 10 (-power).toNat := Nat.pow_pos (by norm_num)
    have unit : ((10 : ℚ) ^ power) = ((Nat.pow 10 (-power).toNat : Nat) : ℚ)⁻¹ := by
      conv_lhs => rw [← neg_neg power, zpow_neg,
        ← Int.toNat_of_nonneg (by omega : 0 ≤ -power), zpow_natCast]
      exact congrArg _ (Nat.cast_pow 10 (-power).toNat).symm
    rw [ofRatio_eq negative pos ten, unit, div_eq_mul_inv]

/-- Only zero and what is beyond all numbers is settled by the number of digits. -/
theorem ofDecimal_finite {negative : Bool} {digits significand : Nat} {power exponent : Int}
    (nonzero : significand ≠ 0)
    (read : ofDecimal negative digits power = finite negative significand exponent) :
    digits ≠ 0 ∧ nearest negative (digits * 10 ^ power) =
      finite negative significand exponent := by
  have digits_ne : digits ≠ 0 := by
    intro zero
    simp only [ofDecimal, if_pos zero] at read
    cases read
    exact nonzero rfl
  refine ⟨digits_ne, ?_⟩
  have whole := read
  unfold ofDecimal at read
  dsimp only at read
  rw [if_neg digits_ne] at read
  split at read
  next => cases read
  next most =>
    split at read
    next =>
      cases read
      exact (nonzero rfl).elim
    next least => rw [← ofDecimal_of_size digits_ne (by omega) (by omega), whole]

/-- A numeral with not too many digits in the range of the format is a quotient. -/
theorem ofDecimal_eq {negative : Bool} {digits : Nat} {power : Int} (nonzero : digits ≠ 0)
    (few : digits < 2 ^ 200) (least : 2 ^ (leastExponent - 1) ≤ (digits : ℚ) * 10 ^ power)
    (most : (digits : ℚ) * 10 ^ power < 2 ^ (tooLarge + 52)) :
    ofDecimal negative digits power = nearest negative (digits * 10 ^ power) := by
  have log : digits.log2 < 200 := (Nat.log2_lt nonzero).mpr few
  have low : (2 : ℚ) ^ (digits.log2 : Int) ≤ digits := by
    rw [zpow_natCast]
    exact_mod_cast Nat.log2_self_le nonzero
  have high : (digits : ℚ) < 2 ^ ((digits.log2 : Int) + 1) := by
    rw [← Nat.cast_succ, zpow_natCast]
    exact_mod_cast Nat.lt_log2_self
  obtain ⟨below, -⟩ := ten_zpow_near (k := digits.log2) (by omega) (by omega)
  obtain ⟨-, above⟩ := ten_zpow_near (k := digits.log2 + 1) (by omega) (by omega)
  obtain ⟨-, largest⟩ := ten_zpow_near (k := tooLarge + 52) (by decide) (by decide)
  obtain ⟨smallest, -⟩ := ten_zpow_near (k := leastExponent - 1) (by decide) (by decide)
  have ten : (1 : ℚ) < 10 := by norm_num
  have unit : (0 : ℚ) < 10 ^ power := by positivity
  refine ofDecimal_of_size nonzero ?_ ?_
  · have less : (10 : ℚ) ^ ((digits.log2 : Int) * 30103 / 100000 - 1 + power) <
        10 ^ ((tooLarge + 52) * 30103 / 100000 + 2) := by
      rw [zpow_add₀ (by norm_num)]
      exact ((mul_le_mul_of_nonneg_right (below.trans low) unit.le).trans_lt most).trans_le largest
    have exponents := (zpow_lt_zpow_iff_right₀ ten).mp less
    unfold tooLarge at exponents
    omega
  · have more : (10 : ℚ) ^ ((leastExponent - 1) * 30103 / 100000 - 1) <
        10 ^ (((digits.log2 : Int) + 1) * 30103 / 100000 + 2 + power) := by
      rw [zpow_add₀ (by norm_num)]
      exact smallest.trans_lt (least.trans_lt
        (mul_lt_mul_of_pos_right (high.trans_le above) unit))
    have exponents := (zpow_lt_zpow_iff_right₀ ten).mp more
    unfold leastExponent at exponents
    omega

/-- Whatever is read is a number of the format. -/
theorem proper_ofDecimal (negative : Bool) (digits : Nat) (power : Int) :
    (ofDecimal negative digits power).Proper := by
  have zero : InFormat 0 leastExponent :=
    ⟨by decide, le_rfl, by decide, fun _ => rfl⟩
  unfold ofDecimal
  dsimp only
  split
  next => exact zero
  next nonzero =>
    have pos : 0 < digits := Nat.pos_of_ne_zero nonzero
    have ratio {a b : Nat} (up : 0 < a) (down : 0 < b) : (ofRatio negative a b).Proper := by
      rw [ofRatio_eq negative up down]
      exact proper_nearest negative (div_pos (by exact_mod_cast up) (by exact_mod_cast down))
    split
    next => trivial
    next =>
      split
      next => exact zero
      next =>
        split
        next => exact ratio (Nat.mul_pos pos (Nat.pow_pos (by norm_num))) Nat.one_pos
        next => exact ratio pos (Nat.pow_pos (by norm_num))

end Binary64

/-! Digits of a number. -/

/-- A power, as what it multiplies by above the fraction line. -/
def powAbove (base : Nat) (e : Int) : Nat := if 0 ≤ e then Nat.pow base e.toNat else 1

theorem powAbove_pos (base : Nat) (pos : 0 < base) (e : Int) : 0 < powAbove base e := by
  unfold powAbove
  split
  · exact Nat.pow_pos pos
  · exact Nat.one_pos

/-- What stands above and what stands below make the power. -/
theorem powAbove_eq (base : Nat) (pos : 0 < base) (e : Int) :
    (powAbove base e : ℚ) = base ^ e * powAbove base (-e) := by
  have base_ne : (base : ℚ) ≠ 0 := by exact_mod_cast pos.ne'
  have cast (n : Nat) : ((Nat.pow base n : Nat) : ℚ) = base ^ (n : Int) := by
    rw [zpow_natCast]
    exact Nat.cast_pow base n
  unfold powAbove
  rcases Int.lt_trichotomy e 0 with down | rfl | up
  · rw [if_neg (by omega), if_pos (by omega), cast, Int.toNat_of_nonneg (by omega),
      ← zpow_add₀ base_ne, add_neg_cancel, zpow_zero, Nat.cast_one]
  · simp
  · rw [if_pos (by omega), if_neg (by omega), cast, Int.toNat_of_nonneg (by omega), Nat.cast_one,
      mul_one]

section

variable {significand : Nat} {exponent power : Int}

/-- How often a unit of a decimal grid goes into a number. -/
theorem le_floorAt {n : Nat} :
    n ≤ floorAt significand exponent power ↔
      (n : ℚ) * 10 ^ power ≤ significand * 2 ^ exponent := by
  have two := powAbove_eq 2 (by norm_num) exponent
  have ten := powAbove_eq 10 (by norm_num) power
  have two_pos := powAbove_pos 2 (by norm_num) (-exponent)
  have ten_pos := powAbove_pos 10 (by norm_num) (-power)
  have below : 0 < powAbove 2 (-exponent) * powAbove 10 power :=
    Nat.mul_pos two_pos (powAbove_pos 10 (by norm_num) power)
  have whole : n ≤ floorAt significand exponent power ↔
      n * (powAbove 2 (-exponent) * powAbove 10 power) ≤
        significand * powAbove 2 exponent * powAbove 10 (-power) :=
    Nat.le_div_iff_mul_le below
  have common : (0 : ℚ) < powAbove 2 (-exponent) * powAbove 10 (-power) := by
    exact_mod_cast Nat.mul_pos two_pos ten_pos
  push_cast at two ten
  have left : ((n * (powAbove 2 (-exponent) * powAbove 10 power) : Nat) : ℚ) =
      n * 10 ^ power * (powAbove 2 (-exponent) * powAbove 10 (-power)) := by
    push_cast
    rw [ten]
    ring
  have right : ((significand * powAbove 2 exponent * powAbove 10 (-power) : Nat) : ℚ) =
      significand * 2 ^ exponent * (powAbove 2 (-exponent) * powAbove 10 (-power)) := by
    push_cast
    rw [two]
    ring
  rw [whole, ← Nat.cast_le (α := ℚ), left, right, mul_le_mul_iff_left₀ common]

theorem floorAt_lt {n : Nat} :
    floorAt significand exponent power < n ↔
      (significand : ℚ) * 2 ^ exponent < n * 10 ^ power := by
  rw [← not_le, ← not_le, le_floorAt]

/-- The search for the number of digits before the point goes on as long as there are more. -/
theorem settle_spec {fuel : Nat} {k : Int}
    (least : (10 : ℚ) ^ (k - 1) ≤ significand * 2 ^ exponent)
    (most : (significand : ℚ) * 2 ^ exponent < 10 ^ (k + fuel)) :
    (10 : ℚ) ^ (magnitude.settle significand exponent fuel k - 1) ≤ significand * 2 ^ exponent ∧
      (significand : ℚ) * 2 ^ exponent < 10 ^ magnitude.settle significand exponent fuel k := by
  induction fuel generalizing k with
  | zero => exact ⟨least, by simpa [magnitude.settle] using most⟩
  | succ fuel ih =>
      rw [magnitude.settle]
      have none : floorAt significand exponent k = 0 ↔
          (significand : ℚ) * 2 ^ exponent < 10 ^ k := by
        rw [← Nat.lt_one_iff, floorAt_lt, Nat.cast_one, one_mul]
      split
      next here => exact ⟨least, none.mp here⟩
      next more =>
        refine ih ?_ ?_
        · rw [add_sub_cancel_right]
          exact not_lt.mp fun less => more (none.mpr less)
        · rwa [show k + 1 + (fuel : Int) = k + (fuel + 1 : Nat) by push_cast; ring]

theorem magnitude_spec (format : InFormat significand exponent) (nonzero : significand ≠ 0) :
    (10 : ℚ) ^ (magnitude significand exponent - 1) ≤ significand * 2 ^ exponent ∧
      (significand : ℚ) * 2 ^ exponent < 10 ^ magnitude significand exponent := by
  have log : significand.log2 < 53 := (Nat.log2_lt nonzero).mpr format.small
  have low : (2 : ℚ) ^ (significand.log2 : Int) ≤ significand := by
    rw [zpow_natCast]
    exact_mod_cast Nat.log2_self_le nonzero
  have high : (significand : ℚ) < 2 ^ ((significand.log2 : Int) + 1) := by
    rw [← Nat.cast_succ, zpow_natCast]
    exact_mod_cast Nat.lt_log2_self
  obtain ⟨least, most⟩ := And.intro format.least format.most
  unfold Binary64.leastExponent at least
  unfold Binary64.tooLarge at most
  obtain ⟨below, above⟩ :=
    ten_zpow_near (k := (significand.log2 : Int) + exponent) (by omega) (by omega)
  have unit : (0 : ℚ) < 2 ^ exponent := by positivity
  unfold magnitude
  dsimp only
  generalize ((significand.log2 : Int) + exponent) * 30103 / 100000 = estimate at below above
  rw [zpow_add₀ (by norm_num)] at below above
  refine settle_spec ?_ ?_
  · have early := ten_zpow_mono (by omega : estimate - 1 - 1 ≤ estimate - 1)
    exact early.trans (below.trans (mul_le_mul_of_nonneg_right low unit.le))
  · have next := ten_zpow_succ (estimate + 2)
    rw [zpow_add₀ (by norm_num), zpow_one] at high
    have pos : (0 : ℚ) < 10 ^ (estimate + 2) := by positivity
    have twice : (significand : ℚ) * 2 ^ exponent <
        2 * (2 ^ (significand.log2 : Int) * 2 ^ exponent) := by nlinarith
    rw [show estimate - 1 + (4 : Nat) = estimate + 2 + 1 by push_cast; ring]
    linarith

/-! The search for the fewest digits. -/

/-- Digits that read back as a number. -/
structure Denotes (digits : Nat) (power : Int) (significand : Nat) (exponent : Int) : Prop where
  nonzero : digits ≠ 0
  few : digits ≤ 10 ^ 17
  rounds : nearest false (digits * 10 ^ power) = .finite false significand exponent

theorem floorAt_magnitude_lt (format : InFormat significand exponent) (nonzero : significand ≠ 0)
    (count : Nat) :
    floorAt significand exponent (magnitude significand exponent - count) < 10 ^ count := by
  obtain ⟨-, most⟩ := magnitude_spec format nonzero
  rw [floorAt_lt]
  push_cast
  rwa [← zpow_natCast, ← zpow_add₀ (by norm_num), add_sub_cancel]

theorem candidate?_reads {count digits : Nat}
    (found : candidate? significand exponent count = some (digits, power)) :
    power = magnitude significand exponent - count ∧
      digits ≤ floorAt significand exponent power + 1 ∧
      Binary64.ofDecimal false digits power = .finite false significand exponent := by
  unfold candidate? at found
  dsimp only at found
  split at found
  next low _ =>
    cases found
    exact ⟨rfl, by omega, beq_iff_eq.mp low⟩
  next _ high =>
    cases found
    exact ⟨rfl, le_rfl, beq_iff_eq.mp high⟩
  next => cases found
  next low high =>
    repeat' split at found
    all_goals
      cases found
      first
      | exact ⟨rfl, by omega, beq_iff_eq.mp low⟩
      | exact ⟨rfl, le_rfl, beq_iff_eq.mp high⟩

/-- A candidate denotes its number. -/
theorem candidate?_denotes {count digits : Nat} (format : InFormat significand exponent)
    (nonzero : significand ≠ 0) (few : count ≤ 17)
    (found : candidate? significand exponent count = some (digits, power)) :
    Denotes digits power significand exponent := by
  obtain ⟨rfl, most, reads⟩ := candidate?_reads found
  obtain ⟨digits_ne, rounds⟩ := Binary64.ofDecimal_finite nonzero reads
  have less := floorAt_magnitude_lt format nonzero count
  have more : 10 ^ count ≤ 10 ^ 17 := Nat.pow_le_pow_right (by norm_num) few
  exact ⟨digits_ne, by omega, rounds⟩

/-- Half a unit of the seventeenth digit is less than half of the way to the next number. -/
theorem ofDecimal_near {digits : Nat} (format : InFormat significand exponent)
    (nonzero : significand ≠ 0) (few : digits ≤ 10 ^ 17)
    (unit : (10 : ℚ) ^ power * 10 ^ 16 ≤ significand * 2 ^ exponent)
    (below : (digits : ℚ) * 10 ^ power ≤ significand * 2 ^ exponent + 10 ^ power / 2)
    (above : significand * 2 ^ exponent ≤ (digits : ℚ) * 10 ^ power + 10 ^ power / 2) :
    Binary64.ofDecimal false digits power = .finite false significand exponent := by
  have one : (1 : ℚ) ≤ significand := by exact_mod_cast Nat.one_le_iff_ne_zero.mpr nonzero
  have small : (significand : ℚ) ≤ 2 ^ 53 - 1 := by
    have whole : significand + 1 ≤ 2 ^ 53 := format.small
    have cast : (significand : ℚ) + 1 ≤ 2 ^ 53 := by exact_mod_cast whole
    linarith
  have step : (0 : ℚ) < 2 ^ exponent := by positivity
  have grid : (0 : ℚ) < 10 ^ power := by positivity
  have most : (significand : ℚ) * 2 ^ exponent ≤ (2 ^ 53 - 1) * 2 ^ exponent :=
    mul_le_mul_of_nonneg_right small step.le
  have least : (2 : ℚ) ^ exponent ≤ significand * 2 ^ exponent := le_mul_of_one_le_left step.le one
  have digits_ne : digits ≠ 0 := by
    rintro rfl
    norm_num at above
    linarith
  have inside : (2 : ℚ) ^ (Binary64.leastExponent - 1) ≤ digits * 10 ^ power := by
    have first : (2 : ℚ) ^ Binary64.leastExponent ≤ 2 ^ exponent :=
      zpow_le_zpow_right₀ (by norm_num) format.least
    have half := two_zpow_succ (Binary64.leastExponent - 1)
    rw [sub_add_cancel] at half
    linarith
  have inside' : (digits : ℚ) * 10 ^ power < 2 ^ (Binary64.tooLarge + 52) := by
    have last : (2 : ℚ) ^ (exponent + (53 : Nat)) ≤ 2 ^ (Binary64.tooLarge + 52) :=
      zpow_le_zpow_right₀ (by norm_num) (by have := format.most; push_cast; omega)
    rw [two_zpow_add] at last
    linarith
  rw [Binary64.ofDecimal_eq digits_ne (by omega) inside inside']
  refine nearest_eq format nonzero (by linarith) (fun first => ?_) (by linarith)
  rw [first] at unit above ⊢
  push_cast at unit above ⊢
  linarith

/-- With seventeen digits one of the two neighbours reads back. -/
theorem exists_candidate? (format : InFormat significand exponent)
    (nonzero : significand ≠ 0) :
    ∃ found, candidate? significand exponent 17 = some found := by
  obtain ⟨least, -⟩ := magnitude_spec format nonzero
  have few := floorAt_magnitude_lt format nonzero 17
  have unit : (10 : ℚ) ^ (magnitude significand exponent - (17 : Nat)) * 10 ^ 16 ≤
      significand * 2 ^ exponent := by
    rwa [← zpow_natCast, ← zpow_add₀ (by norm_num),
      show magnitude significand exponent - (17 : Nat) + ((16 : Nat) : Int) =
        magnitude significand exponent - 1 by push_cast; ring]
  unfold candidate?
  dsimp only
  generalize magnitude significand exponent - (17 : Nat) = power at *
  have low : (floorAt significand exponent power : ℚ) * 10 ^ power ≤ significand * 2 ^ exponent :=
    le_floorAt.mp le_rfl
  have high : (significand : ℚ) * 2 ^ exponent <
      (floorAt significand exponent power + 1 : Nat) * 10 ^ power :=
    floorAt_lt.mp (Nat.lt_succ_self _)
  push_cast at high
  generalize floorAt significand exponent power = digits at *
  have reads : Binary64.ofDecimal false digits power = .finite false significand exponent ∨
      Binary64.ofDecimal false (digits + 1) power = .finite false significand exponent := by
    rcases le_total ((significand : ℚ) * 2 ^ exponent) ((digits + 1 / 2) * 10 ^ power) with
      down | up
    · refine .inl (ofDecimal_near format nonzero few.le unit ?_ ?_) <;> linarith
    · refine .inr (ofDecimal_near format nonzero few unit ?_ ?_) <;> push_cast <;> linarith
  split
  next => exact ⟨_, rfl⟩
  next => exact ⟨_, rfl⟩
  next low high =>
    rcases reads with read | read
    · exact absurd read (by simpa using low)
    · exact absurd read (by simpa using high)
  next =>
    repeat' split
    all_goals exact ⟨_, rfl⟩

theorem Denotes.dropZeros {digits : Nat} (denotes : Denotes digits power significand exponent)
    (fuel : Nat) :
    Denotes (dropZeros fuel digits power).1 (dropZeros fuel digits power).2 significand
      exponent := by
  induction fuel generalizing digits power with
  | zero => exact denotes
  | succ fuel ih =>
      rw [Number.dropZeros]
      split
      next zero =>
        have split : digits = 10 * (digits / 10) := by omega
        have same : ((digits / 10 : Nat) : ℚ) * 10 ^ (power + 1) = digits * 10 ^ power := by
          conv_rhs => rw [split]
          rw [ten_zpow_succ]
          push_cast
          ring
        have nonzero := denotes.nonzero
        have few := denotes.few
        refine ih ⟨by omega, by omega, ?_⟩
        rw [same]
        exact denotes.rounds
      next => exact denotes

theorem search_denotes (format : InFormat significand exponent) (nonzero : significand ≠ 0)
    {fuel count : Nat} (left : fuel + count = 17) :
    Denotes (shortest.search significand exponent (fuel + 1) count).1
      (shortest.search significand exponent (fuel + 1) count).2 significand exponent := by
  induction fuel generalizing count with
  | zero =>
      obtain rfl : count = 17 := by omega
      obtain ⟨found, last⟩ := exists_candidate? format nonzero
      rw [shortest.search, last]
      exact candidate?_denotes format nonzero le_rfl last
  | succ fuel ih =>
      rw [shortest.search]
      split
      next found here => exact candidate?_denotes format nonzero (by omega) here
      next => exact ih (by omega)

/-- The shortest decimal of a number denotes it. -/
theorem shortest_denotes (format : InFormat significand exponent) (nonzero : significand ≠ 0) :
    Denotes (shortest significand exponent).1 (shortest significand exponent).2 significand
      exponent :=
  (search_denotes format nonzero rfl).dropZeros 20

end

end ImageLock.Number
