import ExprLang.Decimal
import Mathlib.Algebra.Order.Field.Rat
import Mathlib.Algebra.Order.Field.Power
import Mathlib.Tactic.Ring
import Mathlib.Tactic.Linarith
import Mathlib.Tactic.Positivity

/-!
Rounding intervals. The numbers that round to a positive finite floating-point number lie
between the middles of the steps to its two neighbours; the middles themselves round to
whichever neighbour has the even significand. The end of each interval is the start of the
next one, so no two of them have a number in common, and the decimal that is chosen for a
floating-point number lies in its interval.
-/
namespace ExprLang

def Decimal.value (d : Decimal) : ℚ := d.coefficient * 10 ^ d.exponent

namespace Binary64

variable {x y : Binary64} {v : ℚ}

def magnitude (x : Binary64) : Nat := x.bits.toNat % 2 ^ 63

theorem magnitude_eq (x : Binary64) :
    x.magnitude = x.storedExponent * 2 ^ 52 + x.storedFraction := by
  simp only [magnitude, storedExponent, storedFraction, Nat.shiftRight_eq_div_pow,
    Nat.shiftLeft_eq]
  omega

theorem storedFraction_lt (x : Binary64) : x.storedFraction < 2 ^ 52 :=
  Nat.mod_lt _ (by decide)

/-- Sign and magnitude make up a floating-point number. -/
theorem eq_of_magnitude (hsign : x.isNegative = y.isNegative)
    (hmagnitude : x.magnitude = y.magnitude) : x = y := by
  obtain ⟨bits⟩ := x
  obtain ⟨bits'⟩ := y
  simp only [isNegative, magnitude, Nat.testBit_eq_decide_div_mod_eq] at hsign hmagnitude
  have hlt := bits.toNat_lt
  have hlt' := bits'.toNat_lt
  have hbit := decide_eq_decide.mp hsign
  rw [mk.injEq, ← UInt64.toNat_inj]
  omega

/-- The middle of the step from the number with this magnitude to the next one, in the unit
`2 ^ (-1076)`, of which all numbers and all middles are multiples. -/
def middleAbove (magnitude : Nat) : Nat :=
  (4 * (if magnitude / 2 ^ 52 = 0 then magnitude % 2 ^ 52 else 2 ^ 52 + magnitude % 2 ^ 52) + 2) *
    2 ^ (magnitude / 2 ^ 52 - 1)

def lower (x : Binary64) : ℚ :=
  ((4 * x.significand - x.roomBelow : Nat) : ℚ) * 2 ^ (x.scale - 2)

def upper (x : Binary64) : ℚ := ((4 * x.significand + 2 : Nat) : ℚ) * 2 ^ (x.scale - 2)

/-- A number lies in the interval. The ends belong to it if the significand is even. -/
structure Attracts (x : Binary64) (v : ℚ) : Prop where
  above : x.lower < v ∨ x.significand % 2 = 0 ∧ x.lower = v
  below : v < x.upper ∨ x.significand % 2 = 0 ∧ v = x.upper

section Middles

/-- The interval of a number starts where that of the one before ends. -/
theorem lower_unit {n : Nat} (h : x.magnitude = n + 1) :
    (4 * x.significand - x.roomBelow) * 2 ^ (x.storedExponent - 1) = middleAbove n := by
  have hfraction := x.storedFraction_lt
  rw [magnitude_eq] at h
  rw [significand, roomBelow, middleAbove, Nat.shiftLeft_eq, Nat.one_mul]
  generalize x.storedExponent = exponent at h
  generalize x.storedFraction = fraction at h hfraction
  rcases Nat.eq_zero_or_pos fraction with rfl | hpositive
  · obtain ⟨exponent, rfl⟩ : ∃ k, exponent = k + 1 := ⟨exponent - 1, by omega⟩
    have hexponent : n / 2 ^ 52 = exponent := by omega
    have hlast : n % 2 ^ 52 = 2 ^ 52 - 1 := by omega
    rw [hexponent, hlast]
    cases exponent with
    | zero => rfl
    | succ exponent =>
      -- Below a power of two the numbers lie twice as dense.
      simp only [Nat.add_eq_zero_iff, Nat.one_ne_zero, and_false, if_false, Nat.add_sub_cancel,
        true_and, show 1 < exponent + 1 + 1 by omega, if_true, pow_succ]
      omega
  · have hexponent : n / 2 ^ 52 = exponent := by omega
    have hfraction' : n % 2 ^ 52 = fraction - 1 := by omega
    have hroom : ¬ (fraction = 0 ∧ 1 < exponent) := by omega
    rw [hexponent, hfraction', if_neg hroom]
    congr 1
    split <;> omega

theorem upper_unit (x : Binary64) :
    (4 * x.significand + 2) * 2 ^ (x.storedExponent - 1) = middleAbove x.magnitude := by
  have hfraction := x.storedFraction_lt
  have hexponent : x.magnitude / 2 ^ 52 = x.storedExponent := by
    rw [magnitude_eq]
    omega
  have hfraction' : x.magnitude % 2 ^ 52 = x.storedFraction := by
    rw [magnitude_eq]
    omega
  rw [middleAbove, hexponent, hfraction', significand, Nat.shiftLeft_eq, Nat.one_mul]

/-- Middles go up. -/
theorem strictMono_middleAbove : StrictMono middleAbove := by
  apply strictMono_nat_of_lt_succ
  intro n
  rw [middleAbove, middleAbove]
  rcases Nat.lt_or_ge (n % 2 ^ 52 + 1) (2 ^ 52) with hinner | hlast
  · have hexponent : (n + 1) / 2 ^ 52 = n / 2 ^ 52 := by omega
    have hfraction : (n + 1) % 2 ^ 52 = n % 2 ^ 52 + 1 := by omega
    rw [hexponent, hfraction]
    apply Nat.mul_lt_mul_of_pos_right
    · split <;> omega
    · positivity
  · have hexponent : (n + 1) / 2 ^ 52 = n / 2 ^ 52 + 1 := by omega
    have hfraction : (n + 1) % 2 ^ 52 = 0 := by omega
    rw [hexponent, hfraction, if_neg (Nat.succ_ne_zero _), Nat.add_sub_cancel]
    cases n / 2 ^ 52 with
    | zero =>
      rw [if_pos rfl]
      omega
    | succ exponent =>
      rw [if_neg (Nat.succ_ne_zero _), Nat.add_sub_cancel, pow_succ' 2 exponent, ← Nat.mul_assoc]
      apply Nat.mul_lt_mul_of_pos_right
      · omega
      · positivity

/-- In the unit that all middles are multiples of. -/
theorem zpow_scale (x : Binary64) :
    (2 : ℚ) ^ (x.scale - 2) * 2 ^ 1076 = 2 ^ (x.storedExponent - 1) := by
  have hexponent : x.scale - 2 + (1076 : ℕ) = (x.storedExponent - 1 : ℕ) := by
    rw [scale]
    omega
  rw [← zpow_natCast, ← zpow_natCast, ← zpow_add₀ two_ne_zero, hexponent]

theorem upper_eq (x : Binary64) : x.upper * 2 ^ 1076 = middleAbove x.magnitude := by
  rw [upper, mul_assoc, zpow_scale, ← upper_unit]
  push_cast
  ring

theorem lower_eq {n : Nat} (h : x.magnitude = n + 1) : x.lower * 2 ^ 1076 = middleAbove n := by
  rw [lower, mul_assoc, zpow_scale, ← lower_unit h]
  push_cast
  ring

/-- The significand and the magnitude are even together. -/
theorem significand_mod_two (x : Binary64) : x.significand % 2 = x.magnitude % 2 := by
  rw [significand, magnitude_eq, Nat.shiftLeft_eq]
  split
  · next h =>
    rw [h]
    omega
  · omega

/-- Intervals have no number in common. Where two of them meet, one of the significands is
odd. -/
theorem Attracts.magnitude_le (hx : x.Attracts v) (hy : y.Attracts v) :
    y.magnitude ≤ x.magnitude := by
  by_contra hlt
  obtain ⟨n, hn⟩ : ∃ n, y.magnitude = n + 1 := ⟨y.magnitude - 1, by omega⟩
  have hunit : (0 : ℚ) < 2 ^ 1076 := by positivity
  have hupper : v ≤ x.upper := hx.below.elim le_of_lt fun h => h.2.le
  have hlower : y.lower ≤ v := hy.above.elim le_of_lt fun h => h.2.le
  have hmiddles : middleAbove n ≤ middleAbove x.magnitude := by
    have hends := mul_le_mul_of_nonneg_right (hlower.trans hupper) hunit.le
    rw [lower_eq hn, upper_eq] at hends
    exact_mod_cast hends
  have hle := strictMono_middleAbove.le_iff_le.mp hmiddles
  -- The two are neighbours, and the number is the middle between them.
  obtain rfl : n = x.magnitude := by omega
  have hmeet : y.lower = x.upper :=
    mul_right_cancel₀ hunit.ne' ((lower_eq hn).trans (upper_eq x).symm)
  have heven : x.significand % 2 = 0 := by
    rcases hx.below with hlt | ⟨heven, -⟩
    · exact absurd (hmeet ▸ hlower) (not_le.mpr hlt)
    · exact heven
  have heven' : y.significand % 2 = 0 := by
    rcases hy.above with hlt | ⟨heven, -⟩
    · exact absurd (hmeet ▸ hupper) (not_le.mpr hlt)
    · exact heven
  rw [significand_mod_two] at heven heven'
  omega

/-- A number is in one interval. -/
theorem Attracts.unique (hx : x.Attracts v) (hy : y.Attracts v)
    (hsign : x.isNegative = y.isNegative) : x = y :=
  eq_of_magnitude hsign (le_antisymm (hy.magnitude_le hx) (hx.magnitude_le hy))

end Middles

section Grids

/-- A power with a whole exponent, as a power with a natural one. -/
theorem pow_toNat (base : ℚ) (h : base ≠ 0) (exponent : ℤ) :
    base ^ exponent.toNat = base ^ exponent * base ^ (-exponent).toNat := by
  rw [← zpow_natCast, ← zpow_natCast, ← zpow_add₀ h]
  congr 1
  omega

/-- The two units of a grid are to each other as a step of the grid is to a quarter of a unit
in the last place. -/
theorem exists_gridUnits (x : Binary64) (exponent : ℤ) : ∃ unit : ℚ, 0 < unit ∧
    ((x.gridUnits exponent).1 : ℚ) = 10 ^ exponent * unit ∧
    ((x.gridUnits exponent).2 : ℚ) = 2 ^ (x.scale - 2) * unit := by
  have hten := pow_toNat 10 (by norm_num) exponent
  have htwo := pow_toNat 2 two_ne_zero (x.scale - 2)
  have hscale : -(x.scale - 2) = 2 - x.scale := by omega
  rw [hscale] at htwo
  refine ⟨10 ^ (-exponent).toNat * 2 ^ (2 - x.scale).toNat, by positivity, ?_, ?_⟩
  · simp only [gridUnits, Nat.shiftLeft_eq, Nat.pow_eq]
    push_cast
    rw [hten]
    ring
  · simp only [gridUnits, Nat.shiftLeft_eq, Nat.pow_eq]
    push_cast
    rw [htwo]
    ring

/-- A point of a grid is in the interval if it is in terms of the units of the grid. -/
theorem attracts_of_gridUnits {exponent : ℤ} {point : Nat}
    (habove : (4 * x.significand - x.roomBelow) * (x.gridUnits exponent).2 <
        point * (x.gridUnits exponent).1 ∨ x.significand % 2 = 0 ∧
      (4 * x.significand - x.roomBelow) * (x.gridUnits exponent).2 =
        point * (x.gridUnits exponent).1)
    (hbelow : point * (x.gridUnits exponent).1 <
        (4 * x.significand + 2) * (x.gridUnits exponent).2 ∨ x.significand % 2 = 0 ∧
      point * (x.gridUnits exponent).1 = (4 * x.significand + 2) * (x.gridUnits exponent).2) :
    x.Attracts (point * 10 ^ exponent) := by
  obtain ⟨unit, hunit, hstep, hquarter⟩ := x.exists_gridUnits exponent
  have hpoint : ((point * (x.gridUnits exponent).1 : Nat) : ℚ) =
      point * 10 ^ exponent * unit := by
    rw [Nat.cast_mul, hstep, mul_assoc]
  have hlower : (((4 * x.significand - x.roomBelow) * (x.gridUnits exponent).2 : Nat) : ℚ) =
      x.lower * unit := by
    rw [Nat.cast_mul, hquarter, lower, mul_assoc]
  have hupper : (((4 * x.significand + 2) * (x.gridUnits exponent).2 : Nat) : ℚ) =
      x.upper * unit := by
    rw [Nat.cast_mul, hquarter, upper, mul_assoc]
  refine ⟨habove.imp (fun h => ?_) (fun h => ⟨h.1, ?_⟩),
    hbelow.imp (fun h => ?_) (fun h => ⟨h.1, ?_⟩)⟩
  · exact lt_of_mul_lt_mul_right (by rw [← hlower, ← hpoint]; exact_mod_cast h) hunit.le
  · exact mul_right_cancel₀ hunit.ne' (by rw [← hlower, ← hpoint, h.2])
  · exact lt_of_mul_lt_mul_right (by rw [← hupper, ← hpoint]; exact_mod_cast h) hunit.le
  · exact mul_right_cancel₀ hunit.ne' (by rw [← hupper, ← hpoint, h.2])

theorem roomBelow_pos (x : Binary64) : 0 < x.roomBelow := by
  rw [roomBelow]
  split <;> decide

theorem gridUnits_pos (x : Binary64) (exponent : ℤ) :
    0 < (x.gridUnits exponent).1 ∧ 0 < (x.gridUnits exponent).2 := by
  obtain ⟨unit, hunit, hstep, hquarter⟩ := x.exists_gridUnits exponent
  constructor
  · exact_mod_cast (show (0 : ℚ) < ((x.gridUnits exponent).1 : ℚ) by rw [hstep]; positivity)
  · exact_mod_cast (show (0 : ℚ) < ((x.gridUnits exponent).2 : ℚ) by rw [hquarter]; positivity)

/-- A point that is found on a grid is in the interval. -/
theorem attracts_of_onGrid {exponent : ℤ} {point : Nat} (hpositive : 0 < x.significand)
    (h : x.onGrid? exponent = some point) : x.Attracts (point * 10 ^ exponent) := by
  obtain ⟨hstep, hquarter⟩ := x.gridUnits_pos exponent
  have hroom := x.roomBelow_pos
  apply attracts_of_gridUnits
  all_goals
    rw [onGrid?] at h
    generalize x.gridUnits exponent = units at h hstep hquarter
    obtain ⟨step, quarter⟩ := units
    simp only at h hstep hquarter ⊢
  · have hlow : (4 * x.significand - x.roomBelow) * quarter < 4 * x.significand * quarter :=
      Nat.mul_lt_mul_of_pos_right (by omega) hquarter
    have hnext := (Nat.div_lt_iff_lt_mul hstep).mp
      (Nat.lt_succ_self (4 * x.significand * quarter / step))
    split at h
    · next hbelow =>
      obtain rfl := Option.some.inj h
      simp only [Bool.and_eq_true, decide_eq_true_eq] at hbelow
      exact hbelow.1
    · split at h
      · obtain rfl := Option.some.inj h
        exact .inl (hlow.trans hnext)
      · cases h
  · have hhigh : 4 * x.significand * quarter < (4 * x.significand + 2) * quarter :=
      Nat.mul_lt_mul_of_pos_right (by omega) hquarter
    have hprevious := Nat.div_mul_le_self (4 * x.significand * quarter) step
    split at h
    · obtain rfl := Option.some.inj h
      exact .inl (hprevious.trans_lt hhigh)
    · split at h
      · next habove =>
        obtain rfl := Option.some.inj h
        simpa using habove
      · cases h

/-- The decimal that is found on one of the grids is in the interval. -/
theorem attracts_of_firstOnGrids {grids : Nat} {exponent : ℤ} {d : Decimal}
    (hpositive : 0 < x.significand) (h : x.firstOnGrids? grids exponent = some d) :
    x.Attracts d.value := by
  induction grids generalizing exponent with
  | zero => cases h
  | succ grids ih =>
    unfold firstOnGrids? at h
    split at h
    · next point hpoint =>
      obtain rfl := Option.some.inj h
      exact attracts_of_onGrid hpositive hpoint
    · exact ih h

theorem value_exact (x : Binary64) : x.exact.value = x.significand * 2 ^ x.scale := by
  have htwo := pow_toNat 2 two_ne_zero x.scale
  have hten : (5 : ℚ) ^ (-x.scale).toNat * 2 ^ (-x.scale).toNat * 10 ^ min 0 x.scale = 1 := by
    have hexponent : ((-x.scale).toNat : ℤ) + min 0 x.scale = 0 := by omega
    rw [← mul_pow, show (5 : ℚ) * 2 = 10 by norm_num, ← zpow_natCast,
      ← zpow_add₀ (by norm_num), hexponent, zpow_zero]
  calc x.exact.value
      = x.significand * 2 ^ x.scale.toNat * 5 ^ (-x.scale).toNat * 10 ^ min 0 x.scale := by
        simp only [exact, Decimal.value, Nat.shiftLeft_eq, Nat.pow_eq]
        push_cast
        ring
    _ = x.significand * 2 ^ x.scale *
          (5 ^ (-x.scale).toNat * 2 ^ (-x.scale).toNat * 10 ^ min 0 x.scale) := by
        rw [htwo]
        ring
    _ = x.significand * 2 ^ x.scale := by rw [hten, mul_one]

/-- A number is in its own interval. -/
theorem attracts_exact (hpositive : 0 < x.significand) : x.Attracts x.exact.value := by
  have hroom := x.roomBelow_pos
  have hunit : (0 : ℚ) < 2 ^ (x.scale - 2) := by positivity
  have hvalue : x.exact.value = ((4 * x.significand : Nat) : ℚ) * 2 ^ (x.scale - 2) := by
    rw [value_exact, zpow_sub₀ two_ne_zero]
    push_cast
    ring
  rw [hvalue]
  refine ⟨.inl (mul_lt_mul_of_pos_right ?_ hunit), .inl (mul_lt_mul_of_pos_right ?_ hunit)⟩
  · exact_mod_cast (show 4 * x.significand - x.roomBelow < 4 * x.significand by omega)
  · exact_mod_cast (show 4 * x.significand < 4 * x.significand + 2 by omega)

/-- The decimal that stands for a number is in its interval. -/
theorem attracts_shortest (hpositive : 0 < x.significand) : x.Attracts x.shortest.value := by
  rw [shortest]
  cases h : x.firstOnGrids? (x.coarsest + 325).toNat x.coarsest with
  | none => exact attracts_exact hpositive
  | some d => exact attracts_of_firstOnGrids hpositive h

end Grids

end Binary64

end ExprLang
