/-
Quotients as numbers of the format. A positive quotient goes to the nearest number,
which depends on nothing but its value, and a quotient that is close enough to a
number of the format goes to that number.
-/
import Mathlib.Algebra.Order.Field.Power
import Mathlib.Data.Int.Log
import Mathlib.Data.Rat.Floor
import Mathlib.Tactic.FieldSimp
import Mathlib.Tactic.Linarith
import Mathlib.Tactic.NormNum
import Mathlib.Tactic.Positivity
import Mathlib.Tactic.Ring
import ImageLock.Number.Binary64

namespace ImageLock.Number

/-! Nearest integers. -/

namespace Binary64

theorem div_le_roundRatio (a b : Nat) : a / b ≤ roundRatio a b := by
  unfold roundRatio
  dsimp only
  repeat' split
  all_goals omega

theorem roundRatio_le_div (a b : Nat) : roundRatio a b ≤ a / b + 1 := by
  unfold roundRatio
  dsimp only
  repeat' split
  all_goals omega

theorem le_roundRatio {a b n : Nat} (pos : 0 < b) (above : 2 * (n * b) < 2 * a + b) :
    n ≤ roundRatio a b := by
  have parts := Nat.div_add_mod a b
  rcases Nat.lt_or_ge (a / b) n with more | less
  · have up : b * (a / b + 1) ≤ n * b := by
      rw [Nat.mul_comm]
      exact Nat.mul_le_mul_right b more
    rw [Nat.mul_add, Nat.mul_one] at up
    have half : b < 2 * (a % b) := by omega
    have rounded : roundRatio a b = a / b + 1 := by
      unfold roundRatio
      dsimp only
      rw [if_neg (by omega), if_pos half]
    rw [rounded]
    by_contra beyond
    have far : b * (a / b + 2) ≤ n * b := by
      rw [Nat.mul_comm]
      exact Nat.mul_le_mul_right b (by omega)
    have rest := Nat.mod_lt a pos
    rw [Nat.mul_add] at far
    omega
  · exact less.trans (div_le_roundRatio a b)

theorem roundRatio_le {a b n : Nat} (below : 2 * a < 2 * (n * b) + b) :
    roundRatio a b ≤ n := by
  have parts := Nat.div_add_mod a b
  rcases Nat.lt_or_ge (a / b) n with less | more
  · exact (roundRatio_le_div a b).trans less
  · have up : n * b ≤ b * (a / b) := by
      rw [Nat.mul_comm b]
      exact Nat.mul_le_mul_right b more
    have half : 2 * (a % b) < b := by omega
    have rounded : roundRatio a b = a / b := by
      unfold roundRatio
      dsimp only
      rw [if_pos half]
    rw [rounded]
    by_contra beyond
    have far : (n + 1) * b ≤ b * (a / b) := by
      rw [Nat.mul_comm b]
      exact Nat.mul_le_mul_right b (by omega)
    rw [Nat.add_mul] at far
    omega

theorem roundRatio_mul_right (a b : Nat) {c : Nat} (pos : 0 < c) :
    roundRatio (a * c) (b * c) = roundRatio a b := by
  have less (x y : Nat) : 2 * (x * c) < y * c ↔ 2 * x < y := by
    rw [← Nat.mul_assoc]
    exact Nat.mul_lt_mul_right pos
  have more (x y : Nat) : y * c < 2 * (x * c) ↔ y < 2 * x := by
    rw [← Nat.mul_assoc]
    exact Nat.mul_lt_mul_right pos
  simp only [roundRatio, Nat.mul_div_mul_right a b pos, Nat.mul_mod_mul_right, less, more]

end Binary64

/-- The integer nearest to a quotient, a tie to the even one. -/
def nearestInt (x : ℚ) : Nat := Binary64.roundRatio x.num.toNat x.den

theorem roundRatio_eq (a : Nat) {b : Nat} (pos : 0 < b) :
    Binary64.roundRatio a b = nearestInt (a / b) := by
  have den_pos := Rat.den_pos ((a : ℚ) / b)
  have num_nonneg : 0 ≤ ((a : ℚ) / b).num := Rat.num_nonneg.mpr (by positivity)
  have num_eq : ((((a : ℚ) / b).num.toNat : Int) : ℚ) = ((a : ℚ) / b).num := by
    rw [Int.toNat_of_nonneg num_nonneg]
  have cross : ((a : ℚ) / b).num.toNat * b = a * ((a : ℚ) / b).den := by
    have value := Rat.num_div_den ((a : ℚ) / b)
    rw [← num_eq, div_eq_div_iff (by positivity) (by positivity)] at value
    exact_mod_cast value
  rw [nearestInt, ← Binary64.roundRatio_mul_right a b den_pos, ← cross,
    Nat.mul_comm _ b, Nat.mul_comm b ((a : ℚ) / b).den, Nat.mul_comm b,
    Binary64.roundRatio_mul_right _ _ pos]

theorem le_nearestInt {x : ℚ} {n : Nat} (pos : 0 ≤ x) (above : (n : ℚ) - 1 / 2 < x) :
    n ≤ nearestInt x := by
  have den_pos := Rat.den_pos x
  have value : (x.num.toNat : ℚ) = x * x.den := by
    have cast : ((x.num.toNat : Int) : ℚ) = x.num := by
      rw [Int.toNat_of_nonneg (Rat.num_nonneg.mpr pos)]
    rw [Rat.mul_den_eq_num]
    exact_mod_cast cast
  refine Binary64.le_roundRatio den_pos ?_
  have scaled : (2 * (n * x.den) : ℚ) < 2 * x.num.toNat + x.den := by
    rw [value]
    have den : (0 : ℚ) < x.den := by exact_mod_cast den_pos
    nlinarith
  exact_mod_cast scaled

theorem nearestInt_le {x : ℚ} {n : Nat} (pos : 0 ≤ x) (below : x < n + 1 / 2) :
    nearestInt x ≤ n := by
  have den_pos := Rat.den_pos x
  have value : (x.num.toNat : ℚ) = x * x.den := by
    have cast : ((x.num.toNat : Int) : ℚ) = x.num := by
      rw [Int.toNat_of_nonneg (Rat.num_nonneg.mpr pos)]
    rw [Rat.mul_den_eq_num]
    exact_mod_cast cast
  refine Binary64.roundRatio_le ?_
  have scaled : (2 * x.num.toNat : ℚ) < 2 * (n * x.den) + x.den := by
    rw [value]
    have den : (0 : ℚ) < x.den := by exact_mod_cast den_pos
    nlinarith
  exact_mod_cast scaled

theorem scaled_eq (a : Nat) {b : Nat} (pos : 0 < b) (exponent : Int) :
    Binary64.scaled a b exponent = nearestInt (a / b / 2 ^ exponent) := by
  unfold Binary64.scaled
  split
  next up =>
    have unit : ((2 : ℚ) ^ exponent) = ((Nat.pow 2 exponent.toNat : Nat) : ℚ) := by
      conv_lhs => rw [← Int.toNat_of_nonneg up, zpow_natCast]
      exact (Nat.cast_pow 2 exponent.toNat).symm
    have two : 0 < Nat.pow 2 exponent.toNat := Nat.two_pow_pos _
    rw [roundRatio_eq a (Nat.mul_pos pos two), unit, div_div]
    push_cast
    rfl
  next down =>
    have unit : ((2 : ℚ) ^ exponent) = ((Nat.pow 2 (-exponent).toNat : Nat) : ℚ)⁻¹ := by
      conv_lhs => rw [← neg_neg exponent, zpow_neg,
        ← Int.toNat_of_nonneg (by omega : 0 ≤ -exponent), zpow_natCast]
      rw [← Nat.cast_ofNat, ← Nat.cast_pow]
      rfl
    rw [roundRatio_eq _ pos, unit, div_inv_eq_mul, div_mul_eq_mul_div]
    push_cast
    rfl

/-! The nearest number. -/

/-- The exponent of the numbers around a quotient. -/
def exponentAt (x : ℚ) : Int := max (Int.log 2 x - 52) Binary64.leastExponent

/-- The significand and the exponent of the nearest number. A significand that is rounded
up to the next power of two belongs to the next exponent. -/
def nearestParts (x : ℚ) : Nat × Int :=
  let rounded := nearestInt (x / 2 ^ exponentAt x)
  if rounded < Binary64.significandBound then (rounded, exponentAt x)
  else (2 ^ 52, exponentAt x + 1)

/-- The number nearest to a positive quotient. -/
def nearest (negative : Bool) (x : ℚ) : Binary64 :=
  let (significand, exponent) := nearestParts x
  if Binary64.tooLarge ≤ exponent then .infinite negative
  else .finite negative significand exponent

theorem two_zpow_succ (e : Int) : (2 : ℚ) ^ (e + 1) = 2 * 2 ^ e := by
  rw [zpow_add₀ (by norm_num), zpow_one, mul_comm]

theorem two_zpow_add (e : Int) (n : Nat) : (2 : ℚ) ^ (e + n) = 2 ^ n * 2 ^ e := by
  rw [zpow_add₀ (by norm_num), zpow_natCast, mul_comm]

theorem le_log_iff {x : ℚ} (pos : 0 < x) {k : Int} : k ≤ Int.log 2 x ↔ 2 ^ k ≤ x :=
  (Int.zpow_le_iff_le_log (b := 2) (by norm_num) pos).symm

theorem log_lt_iff {x : ℚ} (pos : 0 < x) {k : Int} : Int.log 2 x < k ↔ x < 2 ^ k :=
  (Int.lt_zpow_iff_log_lt (b := 2) (by norm_num) pos).symm

/-- The exponent of a quotient is told by the sizes of its two parts, but for one. -/
theorem log_ratio {a b : Nat} (pos : 0 < a) (pos' : 0 < b) :
    Int.log 2 ((a : ℚ) / b) = a.log2 - b.log2 ∨ Int.log 2 ((a : ℚ) / b) = a.log2 - b.log2 - 1 := by
  have low : (2 : ℚ) ^ a.log2 ≤ a := by exact_mod_cast Nat.log2_self_le pos.ne'
  have high : (a : ℚ) < 2 ^ (a.log2 + 1) := by exact_mod_cast Nat.lt_log2_self
  have low' : (2 : ℚ) ^ b.log2 ≤ b := by exact_mod_cast Nat.log2_self_le pos'.ne'
  have high' : (b : ℚ) < 2 ^ (b.log2 + 1) := by exact_mod_cast Nat.lt_log2_self
  have den : (0 : ℚ) < b := by exact_mod_cast pos'
  have ratio : (0 : ℚ) < a / b := div_pos (by exact_mod_cast pos) den
  have above : (2 : ℚ) ^ ((a.log2 : Int) - (b.log2 + 1 : Nat)) ≤ a / b := by
    rw [zpow_sub₀ (by norm_num), zpow_natCast, zpow_natCast]
    exact div_le_div₀ (by positivity) low den high'.le
  have below : (a : ℚ) / b < 2 ^ (((a.log2 + 1 : Nat) : Int) - b.log2) := by
    rw [zpow_sub₀ (by norm_num), zpow_natCast, zpow_natCast]
    exact div_lt_div₀ high low' (by positivity) (by positivity)
  have least := (le_log_iff ratio).mpr above
  have most := (log_lt_iff ratio).mpr below
  omega

theorem lt_exponentAt {x : ℚ} (pos : 0 < x) : x < 2 ^ 53 * 2 ^ exponentAt x := by
  have above : Int.log 2 x - 52 ≤ exponentAt x := le_max_left _ _
  have below := (log_lt_iff pos (k := exponentAt x + (53 : Nat))).mp (by omega)
  rwa [two_zpow_add] at below

theorem exponentAt_le {x : ℚ} (pos : 0 < x)
    (above : Binary64.leastExponent < exponentAt x) : 2 ^ 52 * 2 ^ exponentAt x ≤ x := by
  have exact : exponentAt x = Int.log 2 x - 52 := by
    unfold exponentAt at above ⊢
    omega
  have least := (le_log_iff pos (k := exponentAt x + (52 : Nat))).mp (by omega)
  rwa [two_zpow_add] at least

theorem le_nearestInt_unit {x : ℚ} {e : Int} {n : Nat} (pos : 0 < x)
    (above : (n - 1 / 2) * 2 ^ e < x) : n ≤ nearestInt (x / 2 ^ e) :=
  le_nearestInt (by positivity) ((lt_div_iff₀ (by positivity)).mpr above)

theorem nearestInt_unit_le {x : ℚ} {e : Int} {n : Nat} (pos : 0 < x)
    (below : x < (n + 1 / 2) * 2 ^ e) : nearestInt (x / 2 ^ e) ≤ n :=
  nearestInt_le (by positivity) ((div_lt_iff₀ (by positivity)).mpr below)

theorem nearestInt_unit_eq {x : ℚ} {e : Int} {n : Nat} (pos : 0 < x)
    (above : (n - 1 / 2) * 2 ^ e < x) (below : x < (n + 1 / 2) * 2 ^ e) :
    nearestInt (x / 2 ^ e) = n :=
  (nearestInt_unit_le pos below).antisymm (le_nearestInt_unit pos above)

/-- Whoever starts one exponent early gets to the same number. -/
theorem nearestParts_from {x : ℚ} (pos : 0 < x) {e : Int}
    (start : exponentAt x = e ∨ exponentAt x = e + 1 ∧ 2 ^ 53 * 2 ^ e ≤ x) :
    (if nearestInt (x / 2 ^ e) < Binary64.significandBound then (nearestInt (x / 2 ^ e), e)
      else if nearestInt (x / 2 ^ (e + 1)) < Binary64.significandBound then
        (nearestInt (x / 2 ^ (e + 1)), e + 1)
      else (nearestInt (x / 2 ^ (e + 1)) / 2, e + 1 + 1)) = nearestParts x := by
  have below := lt_exponentAt pos
  have unit : (0 : ℚ) < 2 ^ e := by positivity
  have bound : Binary64.significandBound = 2 ^ 53 := rfl
  unfold nearestParts
  dsimp only
  rw [bound]
  rcases start with same | ⟨next, far⟩
  · rw [same] at below ⊢
    split
    next => rfl
    next carried =>
      -- Only what is just below the next power of two is rounded up to it.
      have high : (2 ^ 53 - 1 / 2) * 2 ^ e ≤ x := by
        by_contra low
        have most := nearestInt_unit_le (n := 2 ^ 53 - 1) pos (e := e) (by push_cast; linarith)
        omega
      have half : nearestInt (x / 2 ^ (e + 1)) = 2 ^ 52 := by
        refine nearestInt_unit_eq pos ?_ ?_ <;> rw [two_zpow_succ] <;> push_cast <;> linarith
      rw [half, if_pos (by norm_num)]
  · rw [next, two_zpow_succ] at below
    have carried : 2 ^ 53 ≤ nearestInt (x / 2 ^ e) :=
      le_nearestInt_unit pos (by push_cast; linarith)
    rw [if_neg (by omega), next]
    split
    next => rfl
    next again =>
      have most : nearestInt (x / 2 ^ (e + 1)) ≤ 2 ^ 53 := by
        refine nearestInt_unit_le pos ?_
        rw [two_zpow_succ]
        push_cast
        linarith
      have exact : nearestInt (x / 2 ^ (e + 1)) = 2 ^ 53 := by omega
      rw [exact]
      norm_num

/-- A quotient goes to the nearest number, however it is written. -/
theorem ofRatio_eq (negative : Bool) {a b : Nat} (pos : 0 < a) (pos' : 0 < b) :
    Binary64.ofRatio negative a b = nearest negative (a / b) := by
  have ratio : (0 : ℚ) < a / b := div_pos (by exact_mod_cast pos) (by exact_mod_cast pos')
  have start := nearestParts_from ratio
    (e := max ((a.log2 : Int) - b.log2 - 53) Binary64.leastExponent) ?_
  · unfold Binary64.ofRatio nearest
    simp only [← start, scaled_eq a pos']
  -- The exponent that is guessed is the right one or one less, which is above the least one.
  · have log := log_ratio pos pos'
    have exact : exponentAt ((a : ℚ) / b) =
        max (Int.log 2 ((a : ℚ) / b) - 52) Binary64.leastExponent := rfl
    by_cases early : exponentAt ((a : ℚ) / b) =
        max ((a.log2 : Int) - b.log2 - 53) Binary64.leastExponent
    · exact .inl early
    · have guess : max ((a.log2 : Int) - b.log2 - 53) Binary64.leastExponent =
          Int.log 2 ((a : ℚ) / b) - (53 : Nat) := by omega
      refine .inr ⟨by omega, ?_⟩
      rw [guess, ← two_zpow_add, sub_add_cancel]
      exact (le_log_iff ratio).mp le_rfl

/-! Numbers of the format. -/

/-- A significand and an exponent as the format has them: no exponent but the least one
has a significand that could be larger. -/
structure InFormat (significand : Nat) (exponent : Int) : Prop where
  small : significand < Binary64.significandBound
  least : Binary64.leastExponent ≤ exponent
  most : exponent < Binary64.tooLarge
  full : significand < 2 ^ 52 → exponent = Binary64.leastExponent

/-- A number in the one form that it has in the format. -/
def Binary64.Proper : Binary64 → Prop
  | .finite _ significand exponent => InFormat significand exponent
  | .infinite _ | .notANumber => True

theorem leastExponent_le_exponentAt (x : ℚ) : Binary64.leastExponent ≤ exponentAt x :=
  le_max_right _ _

theorem nearestParts_bounds {x : ℚ} (pos : 0 < x) :
    (nearestParts x).1 < Binary64.significandBound ∧ Binary64.leastExponent ≤ (nearestParts x).2 ∧
      ((nearestParts x).1 < 2 ^ 52 → (nearestParts x).2 = Binary64.leastExponent) := by
  have least := leastExponent_le_exponentAt x
  unfold nearestParts
  dsimp only
  split
  next small =>
    refine ⟨small, least, fun part => ?_⟩
    by_contra more
    have full := exponentAt_le pos (lt_of_le_of_ne least (Ne.symm more))
    have unit : (0 : ℚ) < 2 ^ exponentAt x := by positivity
    have reached : 2 ^ 52 ≤ nearestInt (x / 2 ^ exponentAt x) :=
      le_nearestInt_unit pos (by push_cast; linarith)
    omega
  next => exact ⟨by norm_num [Binary64.significandBound], by dsimp only; omega, fun less => absurd less (by norm_num)⟩

theorem proper_nearest (negative : Bool) {x : ℚ} (pos : 0 < x) :
    (nearest negative x).Proper := by
  obtain ⟨small, least, full⟩ := nearestParts_bounds pos
  unfold nearest
  dsimp only
  split
  next => trivial
  next most => exact ⟨small, least, not_le.mp most, full⟩

/-- The sign has no part in rounding. -/
theorem nearest_finite_iff {negative : Bool} {x : ℚ} {significand : Nat} {exponent : Int} :
    nearest negative x = .finite negative significand exponent ↔
      nearestParts x = (significand, exponent) ∧ exponent < Binary64.tooLarge := by
  unfold nearest
  dsimp only
  rw [Prod.ext_iff]
  split
  next large => simpa using fun _ same => same ▸ large
  next small =>
    constructor
    · intro same
      cases same
      exact ⟨⟨rfl, rfl⟩, not_le.mp small⟩
    · rintro ⟨⟨same, same'⟩, _⟩
      rw [same, same']

/-- What goes to a number other than zero is neither beyond all numbers nor below half of
the least one. -/
theorem nearest_finite_bounds {negative : Bool} {x : ℚ} {significand : Nat} {exponent : Int}
    (pos : 0 < x) (nonzero : significand ≠ 0)
    (found : nearest negative x = .finite negative significand exponent) :
    2 ^ (Binary64.leastExponent - 1) ≤ x ∧ x < 2 ^ (Binary64.tooLarge + 52) := by
  obtain ⟨parts, most⟩ := nearest_finite_iff.mp found
  have below := lt_exponentAt pos
  constructor
  · by_contra low
    have unit := two_zpow_succ (Binary64.leastExponent - 1)
    rw [sub_add_cancel] at unit
    have log := (log_lt_iff pos).mpr (not_le.mp low)
    have least : exponentAt x = Binary64.leastExponent := max_eq_right (by omega)
    have none : nearestInt (x / 2 ^ exponentAt x) = 0 := by
      refine Nat.le_zero.mp (nearestInt_unit_le pos ?_)
      rw [least, Nat.cast_zero]
      linarith
    rw [nearestParts, none] at parts
    exact nonzero (congrArg Prod.fst parts).symm
  · have reached : exponentAt x ≤ exponent := by
      have second := congrArg Prod.snd parts
      unfold nearestParts at second
      dsimp only at second
      split at second <;> dsimp only at second <;> omega
    refine below.trans_le ?_
    rw [← two_zpow_add]
    exact zpow_le_zpow_right₀ (by norm_num) (by push_cast; omega)

/-- Just below a power of two, the exponent is the one before, and the significand is
rounded up to it. -/
theorem nearestParts_before {x : ℚ} {e : Int} (pos : 0 < x)
    (near : (2 ^ 52 - 1 / 4) * 2 ^ e < x) (under : x < 2 ^ 52 * 2 ^ e)
    (least : Binary64.leastExponent < e) : nearestParts x = (2 ^ 52, e) := by
  have unit : (0 : ℚ) < 2 ^ e := by positivity
  have early : Int.log 2 x < e + (52 : Nat) := by
    refine (log_lt_iff pos).mpr ?_
    rwa [two_zpow_add]
  have late : e + (51 : Nat) ≤ Int.log 2 x := by
    refine (le_log_iff pos).mpr ?_
    rw [two_zpow_add]
    nlinarith
  have half : exponentAt x = e - 1 := by
    unfold exponentAt
    omega
  have twice : (2 : ℚ) ^ e = 2 * 2 ^ (e - 1) := by
    rw [← two_zpow_succ, sub_add_cancel]
  have carried : 2 ^ 53 ≤ nearestInt (x / 2 ^ (e - 1)) := by
    refine le_nearestInt_unit pos ?_
    rw [twice] at near
    push_cast
    linarith
  have bound : Binary64.significandBound = 2 ^ 53 := rfl
  unfold nearestParts
  dsimp only
  rw [half, bound, if_neg (by omega), sub_add_cancel]

/-- A quotient that is closer to a number than half of the way to the next one goes to
it. The next smaller number is closer where the exponent changes. -/
theorem nearest_eq {negative : Bool} {x : ℚ} {significand : Nat} {exponent : Int}
    (format : InFormat significand exponent) (nonzero : significand ≠ 0)
    (above : (significand - 1 / 2) * 2 ^ exponent < x)
    (closer : significand = 2 ^ 52 → (significand - 1 / 4) * 2 ^ exponent < x)
    (below : x < (significand + 1 / 2) * 2 ^ exponent) :
    nearest negative x = .finite negative significand exponent := by
  have unit : (0 : ℚ) < 2 ^ exponent := by positivity
  have one : (1 : ℚ) ≤ significand := by exact_mod_cast Nat.one_le_iff_ne_zero.mpr nonzero
  have small : (significand : ℚ) ≤ 2 ^ 53 - 1 := by
    have whole : significand + 1 ≤ 2 ^ 53 := format.small
    have cast : (significand : ℚ) + 1 ≤ 2 ^ 53 := by exact_mod_cast whole
    linarith
  have pos : 0 < x := lt_trans (mul_pos (by linarith) unit) above
  have least := format.least
  refine nearest_finite_iff.mpr ⟨?_, format.most⟩
  have logLess : Int.log 2 x < exponent + (53 : Nat) := by
    refine (log_lt_iff pos).mpr ?_
    rw [two_zpow_add]
    nlinarith
  by_cases same : exponentAt x = exponent
  · unfold nearestParts
    dsimp only
    rw [same, nearestInt_unit_eq pos above below, if_pos format.small]
  · -- Then the quotient is below the first number with this exponent.
    unfold exponentAt at same
    have under := (log_lt_iff pos).mp (show Int.log 2 x < exponent + (52 : Nat) by omega)
    rw [two_zpow_add] at under
    have above_least : Binary64.leastExponent < exponent := by omega
    have first : significand = 2 ^ 52 := by
      have full : 2 ^ 52 ≤ significand := by
        by_contra part
        exact above_least.ne (format.full (not_le.mp part)).symm
      have most : (significand : ℚ) < 2 ^ 52 + 1 := by nlinarith
      have most' : significand < 2 ^ 52 + 1 := by exact_mod_cast most
      omega
    have near := closer first
    rw [first] at near ⊢
    exact nearestParts_before pos (by exact_mod_cast near) under above_least

end ImageLock.Number
