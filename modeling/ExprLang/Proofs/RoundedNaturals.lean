import ExprLang.Proofs.RoundingIntervals

/-!
Rounding natural numbers. A natural number goes to the pattern whose interval it lies in, as if
patterns went on without end; infinity stands for all those behind the largest finite one. So a
larger natural number never goes to a smaller floating-point number, a natural number in the
interval of a floating-point number goes to just this one, and what a natural number goes to is
a natural number again, the same one up to `2 ^ 53`.
-/
namespace ExprLang

/-- A fraction misses the integer that it is rounded to by half a unit at most, and by just half
a unit only if this integer is even. -/
theorem divNearest_spec {den : Nat} (num : Nat) (hden : 0 < den) :
    (2 * num < (2 * divNearest num den + 1) * den ∨ divNearest num den % 2 = 0 ∧
      2 * num = (2 * divNearest num den + 1) * den) ∧
    (2 * divNearest num den * den < 2 * num + den ∨ divNearest num den % 2 = 0 ∧
      2 * divNearest num den * den = 2 * num + den) := by
  have hwhole : num = num / den * den + num % den := by
    rw [Nat.mul_comm]
    exact (Nat.div_add_mod num den).symm
  have hrest := Nat.mod_lt num hden
  rw [divNearest]
  generalize num / den = low at hwhole ⊢
  generalize num % den = rest at hwhole hrest ⊢
  have hlow : (2 * low + 1) * den = 2 * (low * den) + den := by ring
  have hlow' : 2 * low * den = 2 * (low * den) := by ring
  have hhigh : (2 * (low + 1) + 1) * den = 2 * (low * den) + 3 * den := by ring
  have hhigh' : 2 * (low + 1) * den = 2 * (low * den) + 2 * den := by ring
  split
  · omega
  · split
    · omega
    · -- Halfway the even one of the two neighbours is taken.
      obtain ⟨heven, hsame⟩ | ⟨hodd, hnext⟩ : low % 2 = 0 ∧ low + low % 2 = low ∨
          low % 2 = 1 ∧ low + low % 2 = low + 1 := by omega
      · rw [hsame]
        omega
      · rw [hnext]
        omega

/-- The same in another unit: the denominator times the unit is twice the power. -/
theorem divNearest_scaled {den power unit : Nat} (num : Nat) (hden : 0 < den) (hpos : 0 < unit)
    (hunit : 2 * power = den * unit) :
    (2 * num * unit < (4 * divNearest num den + 2) * power ∨ divNearest num den % 2 = 0 ∧
      2 * num * unit = (4 * divNearest num den + 2) * power) ∧
    (4 * divNearest num den * power < 2 * num * unit + 2 * power ∨ divNearest num den % 2 = 0 ∧
      4 * divNearest num den * power = 2 * num * unit + 2 * power) := by
  obtain ⟨hupper, hlower⟩ := divNearest_spec num hden
  generalize divNearest num den = r at hupper hlower ⊢
  have hbelow : (4 * r + 2) * power = (2 * r + 1) * den * unit := by
    rw [Nat.mul_assoc, ← hunit]
    ring
  have habove : 4 * r * power = 2 * r * den * unit := by
    rw [Nat.mul_assoc (2 * r), ← hunit]
    ring
  rw [hbelow, habove, hunit, ← Nat.add_mul]
  exact ⟨hupper.imp (fun h => Nat.mul_lt_mul_of_pos_right h hpos)
      fun h => ⟨h.1, congrArg (· * unit) h.2⟩,
    hlower.imp (fun h => Nat.mul_lt_mul_of_pos_right h hpos)
      fun h => ⟨h.1, congrArg (· * unit) h.2⟩⟩

namespace Binary64

variable {x y : Binary64} {m n magnitude magnitude' : Nat}

/-- The natural number is nearest to the number with this magnitude, as if there were one for
every magnitude. In the middle between two of them the even magnitude is taken. -/
structure RoundsTo (n magnitude : Nat) : Prop where
  pos : 0 < magnitude
  above : middleAbove (magnitude - 1) < n * 2 ^ 1076 ∨
    magnitude % 2 = 0 ∧ middleAbove (magnitude - 1) = n * 2 ^ 1076
  below : n * 2 ^ 1076 < middleAbove magnitude ∨
    magnitude % 2 = 0 ∧ n * 2 ^ 1076 = middleAbove magnitude

section Magnitudes

/-- A larger number is rounded to no smaller magnitude. -/
theorem RoundsTo.mono (h : RoundsTo m magnitude) (h' : RoundsTo n magnitude') (hle : m ≤ n) :
    magnitude ≤ magnitude' := by
  by_contra hlt
  have hscaled : m * 2 ^ 1076 ≤ n * 2 ^ 1076 := Nat.mul_le_mul_right _ hle
  have hlow : middleAbove (magnitude - 1) ≤ m * 2 ^ 1076 :=
    h.above.elim Nat.le_of_lt fun h => h.2.le
  have hhigh : n * 2 ^ 1076 ≤ middleAbove magnitude' := h'.below.elim Nat.le_of_lt fun h => h.2.le
  have hneighbour := strictMono_middleAbove.le_iff_le.mp ((hlow.trans hscaled).trans hhigh)
  -- The magnitudes are neighbours, and both numbers are the middle between them.
  obtain rfl : magnitude' = magnitude - 1 := by omega
  rcases h.above with habove | ⟨heven, -⟩
  · omega
  · rcases h'.below with hbelow | ⟨heven', -⟩
    · omega
    · have hpos := h.pos
      omega

theorem RoundsTo.unique (h : RoundsTo n magnitude) (h' : RoundsTo n magnitude') :
    magnitude = magnitude' :=
  le_antisymm (h.mono h' le_rfl) (h'.mono h le_rfl)

/-- A number is at least half as large as the power of two behind its width. -/
theorem two_pow_width_le (h : n ≠ 0) : 2 ^ (n.log2 + 1) ≤ 2 * n := by
  rw [pow_succ']
  exact Nat.mul_le_mul_left 2 (Nat.log2_self_le h)

def roundedMagnitude (n : Nat) : Nat :=
  (n.log2 + 1022) * 2 ^ 52 + divNearest (n * 2 ^ 53) (2 ^ (n.log2 + 1))

/-- The middle above a number with the significand `r` and all bits of the exponent. -/
theorem middleAbove_of_normal {exponent r : Nat} (hlow : 2 ^ 52 ≤ r) (hhigh : r < 2 ^ 53) :
    middleAbove (exponent * 2 ^ 52 + r) = (4 * r + 2) * 2 ^ exponent := by
  have hexponent : (exponent * 2 ^ 52 + r) / 2 ^ 52 = exponent + 1 := by omega
  have hfraction : (exponent * 2 ^ 52 + r) % 2 ^ 52 = r - 2 ^ 52 := by omega
  rw [middleAbove, hexponent, hfraction, if_neg (Nat.succ_ne_zero _), Nat.add_sub_cancel,
    Nat.add_sub_cancel' hlow]

/-- A number that fills the width of the denominator is rounded to a significand of 53 binary
digits, or to the power of two behind them. -/
theorem divNearest_bounds {den : Nat} (hlow : den ≤ 2 * n) (hhigh : n < den) :
    2 ^ 52 ≤ divNearest (n * 2 ^ 53) den ∧ divNearest (n * 2 ^ 53) den ≤ 2 ^ 53 := by
  obtain ⟨hupper, hlower⟩ := divNearest_spec (n * 2 ^ 53) (Nat.zero_lt_of_lt hhigh)
  generalize divNearest (n * 2 ^ 53) den = r at hupper hlower ⊢
  constructor
  · by_contra hlt
    have hbound : (2 * r + 1) * den ≤ (2 * (2 ^ 52 - 1) + 1) * den :=
      Nat.mul_le_mul_right _ (by omega)
    omega
  · by_contra hlt
    have hbound : 2 * (2 ^ 53 + 1) * den ≤ 2 * r * den := Nat.mul_le_mul_right _ (by omega)
    omega

/-- The middle above a number with a rounded significand, and the one below it. -/
theorem middleAbove_rounded {exponent r : Nat} (hexponent : 0 < exponent) (hlow : 2 ^ 52 ≤ r)
    (hhigh : r ≤ 2 ^ 53) :
    (middleAbove (exponent * 2 ^ 52 + r) = (4 * r + 2) * 2 ^ exponent ∨
      (4 * r + 2) * 2 ^ exponent < middleAbove (exponent * 2 ^ 52 + r)) ∧
    (middleAbove (exponent * 2 ^ 52 + r - 1) + 2 * 2 ^ exponent = 4 * r * 2 ^ exponent ∨
      middleAbove (exponent * 2 ^ 52 + r - 1) < 2 ^ 54 * 2 ^ exponent) := by
  obtain ⟨exponent, rfl⟩ : ∃ k, exponent = k + 1 := ⟨exponent - 1, by omega⟩
  constructor
  · rcases Nat.lt_or_eq_of_le hhigh with hlt | rfl
    · exact .inl (middleAbove_of_normal hlow hlt)
    · -- The next power of two has the next exponent.
      have hnext : (exponent + 1) * 2 ^ 52 + 2 ^ 53 = (exponent + 1 + 1) * 2 ^ 52 + 2 ^ 52 := by
        ring
      have hpos := Nat.two_pow_pos (exponent + 1)
      rw [hnext, middleAbove_of_normal le_rfl (by decide), pow_succ 2 (exponent + 1)]
      exact .inr (by omega)
  · rcases Nat.lt_or_eq_of_le hlow with hlt | rfl
    · have hprevious : (exponent + 1) * 2 ^ 52 + r - 1 = (exponent + 1) * 2 ^ 52 + (r - 1) := by
        omega
      rw [hprevious, middleAbove_of_normal (by omega) (by omega), ← Nat.add_mul]
      exact .inl (by congr 1; omega)
    · have hprevious : (exponent + 1) * 2 ^ 52 + 2 ^ 52 - 1 = exponent * 2 ^ 52 + (2 ^ 53 - 1) := by
        omega
      have hpos := Nat.two_pow_pos exponent
      rw [hprevious, middleAbove_of_normal (by decide) (by decide), pow_succ]
      exact .inr (by omega)

/-- A natural number is rounded to the magnitude with its own width and the nearest
significand. -/
theorem roundsTo_roundedMagnitude (h : n ≠ 0) : RoundsTo n (roundedMagnitude n) := by
  obtain ⟨hmin, hmax⟩ := divNearest_bounds (two_pow_width_le h) Nat.lt_log2_self
  obtain ⟨unit, hpos, hunit, hnumber⟩ : ∃ unit, 0 < unit ∧
      2 * 2 ^ (n.log2 + 1022) = 2 ^ (n.log2 + 1) * unit ∧
      2 * (n * 2 ^ 53) * unit = n * 2 ^ 1076 := by
    refine ⟨2 ^ 1022, by positivity, ?_, ?_⟩
    · rw [← pow_succ', ← pow_add]
    · rw [Nat.mul_left_comm, Nat.mul_assoc, ← pow_succ', ← pow_add]
  have hpower : 2 ^ 54 * 2 ^ (n.log2 + 1022) ≤ n * 2 ^ 1076 := by
    have hleast := Nat.mul_le_mul_right (2 ^ 1076) (Nat.log2_self_le h)
    rwa [← pow_add, show n.log2 + 1076 = 54 + (n.log2 + 1022) by omega, pow_add] at hleast
  obtain ⟨hbelow, habove⟩ := divNearest_scaled (n * 2 ^ 53) (Nat.two_pow_pos (n.log2 + 1))
    hpos hunit
  obtain ⟨hupper, hlower⟩ := middleAbove_rounded (show 0 < n.log2 + 1022 by omega) hmin hmax
  rw [hnumber] at hbelow habove
  rw [roundedMagnitude]
  generalize divNearest (n * 2 ^ 53) (2 ^ (n.log2 + 1)) = r at hmin hbelow habove hupper hlower ⊢
  have hparity : ((n.log2 + 1022) * 2 ^ 52 + r) % 2 = r % 2 := by omega
  refine ⟨by omega, ?_, ?_⟩
  all_goals
    rw [hparity]
    generalize n * 2 ^ 1076 = number at hpower hbelow habove ⊢
    generalize 2 ^ (n.log2 + 1022) = power at hpower hbelow habove hupper hlower ⊢
  · rcases hlower with hmiddle | hmiddle
    · omega
    · exact .inl (hmiddle.trans_le hpower)
  · rcases hupper with hmiddle | hmiddle
    · rwa [hmiddle]
    · exact .inl (hbelow.elim (·.trans hmiddle) fun h => h.2.trans_lt hmiddle)

end Magnitudes

section Patterns

/-- What a natural number other than zero is rounded to: the pattern with the rounded
magnitude, if it is finite. -/
theorem ofNat_eq (h : n ≠ 0) : ofNat n =
    if roundedMagnitude n < infinity.bits.toNat then ⟨(roundedMagnitude n).toUInt64⟩
    else infinity := by
  have hpattern : (n.log2 + 1 + 1021) <<< 52 + divNearest (n <<< 53) (1 <<< (n.log2 + 1)) =
      roundedMagnitude n := by
    simp only [Nat.shiftLeft_eq, Nat.one_mul, roundedMagnitude]
  rw [ofNat, if_neg h]
  simp only [hpattern]

theorem ofNat_of_lt (h : n ≠ 0) (hlt : roundedMagnitude n < 2047 * 2 ^ 52) :
    ofNat n = ⟨(roundedMagnitude n).toUInt64⟩ := by
  rw [ofNat_eq h, if_pos (by exact hlt)]

theorem ofNat_of_le (h : n ≠ 0) (hle : 2047 * 2 ^ 52 ≤ roundedMagnitude n) :
    ofNat n = infinity := by
  rw [ofNat_eq h, if_neg (by exact Nat.not_lt.mpr hle)]

/-- A pattern below that of infinity stands for a number without a sign. -/
theorem of_toUInt64 (h : magnitude < 2047 * 2 ^ 52) :
    (mk magnitude.toUInt64).magnitude = magnitude ∧
      (mk magnitude.toUInt64).isNegative = false := by
  have hbits : magnitude.toUInt64.toNat = magnitude :=
    UInt64.toNat_ofNat_of_lt (by rw [UInt64.size]; omega)
  constructor
  · rw [Binary64.magnitude, hbits]
    omega
  · rw [isNegative, hbits]
    exact Nat.testBit_lt_two_pow (by omega)

/-- A finite number has a pattern below that of infinity, but for the sign. -/
theorem magnitude_lt_iff (x : Binary64) :
    x.magnitude < 2047 * 2 ^ 52 ↔ x.isNaN = false ∧ x.isInfinite = false := by
  have hexponent : x.storedExponent < 2048 := Nat.mod_lt _ (by decide)
  have hfraction := x.storedFraction_lt
  rw [magnitude_eq, isNaN, isInfinite, decide_eq_false_iff_not, decide_eq_false_iff_not]
  omega

/-- Comparing with a natural number in a smaller unit. -/
theorem compare_scaled {unit scaled : Nat} {v : ℚ} (hunit : 0 < unit) (h : v * unit = scaled) :
    (v < n ↔ scaled < n * unit) ∧ (n < v ↔ n * unit < scaled) ∧ (v = n ↔ scaled = n * unit) := by
  have hunit' : (0 : ℚ) < unit := Nat.cast_pos.mpr hunit
  refine ⟨?_, ?_, ?_⟩
  · rw [← mul_lt_mul_iff_left₀ hunit', h]
    exact_mod_cast Iff.rfl
  · rw [← mul_lt_mul_iff_left₀ hunit', h]
    exact_mod_cast Iff.rfl
  · rw [← mul_left_inj' hunit'.ne', h]
    exact_mod_cast Iff.rfl

/-- A natural number lies in the interval of a number if it is rounded to its magnitude. -/
theorem attracts_natCast_iff (hpos : 0 < x.magnitude) :
    x.Attracts n ↔ RoundsTo n x.magnitude := by
  have hlower := lower_eq (x := x) (n := x.magnitude - 1) (by omega)
  have hupper := x.upper_eq
  have hcast : (2 : ℚ) ^ 1076 = (2 ^ 1076 : Nat) := by rw [Nat.cast_pow, Nat.cast_ofNat]
  rw [hcast] at hlower hupper
  obtain ⟨habove, -, habove'⟩ := compare_scaled (n := n) (by positivity) hlower
  obtain ⟨-, hbelow, hbelow'⟩ := compare_scaled (n := n) (by positivity) hupper
  rw [eq_comm, eq_comm (a := middleAbove x.magnitude)] at hbelow'
  constructor
  · rintro ⟨hleft, hright⟩
    rw [significand_mod_two, habove, habove'] at hleft
    rw [significand_mod_two, hbelow, hbelow'] at hright
    exact ⟨hpos, hleft, hright⟩
  · rintro ⟨-, hleft, hright⟩
    rw [← significand_mod_two, ← habove, ← habove'] at hleft
    rw [← significand_mod_two, ← hbelow, ← hbelow'] at hright
    exact ⟨hleft, hright⟩

theorem infinity_parts : infinity.isNegative = false ∧ infinity.isNaN = false ∧
    infinity.isInfinite = true := by decide

theorem zero_parts : (ofNat 0).isNegative = false ∧ (ofNat 0).magnitude = 0 := by decide

/-- A natural number goes to a number without a sign or to infinity, never to a pattern that is
not a number. -/
theorem ofNat_parts (n : Nat) : (ofNat n).isNegative = false ∧ (ofNat n).isNaN = false := by
  rcases eq_or_ne n 0 with rfl | h
  · exact ⟨zero_parts.1, ((magnitude_lt_iff _).mp (by rw [zero_parts.2]; decide)).1⟩
  · rcases Nat.lt_or_ge (roundedMagnitude n) (2047 * 2 ^ 52) with hlt | hle
    · rw [ofNat_of_lt h hlt]
      obtain ⟨hmagnitude, hsign⟩ := of_toUInt64 hlt
      exact ⟨hsign, ((magnitude_lt_iff _).mp (by rwa [hmagnitude])).1⟩
    · rw [ofNat_of_le h hle]
      exact ⟨infinity_parts.1, infinity_parts.2.1⟩

/-- It goes to infinity if its rounded magnitude is that of no finite number. -/
theorem isInfinite_ofNat_iff (h : n ≠ 0) :
    (ofNat n).isInfinite = true ↔ 2047 * 2 ^ 52 ≤ roundedMagnitude n := by
  rcases Nat.lt_or_ge (roundedMagnitude n) (2047 * 2 ^ 52) with hlt | hle
  · obtain ⟨hmagnitude, -⟩ := of_toUInt64 hlt
    have hfinite := ((magnitude_lt_iff _).mp (by rwa [hmagnitude])).2
    rw [ofNat_of_lt h hlt, hfinite]
    exact iff_of_false Bool.false_ne_true (Nat.not_le.mpr hlt)
  · rw [ofNat_of_le h hle]
    exact iff_of_true infinity_parts.2.2 hle

/-- Numbers of at most 1023 binary digits go to finite numbers. -/
theorem isInfinite_ofNat_of_log2_lt (h : n ≠ 0) (hwidth : n.log2 < 1023) :
    (ofNat n).isInfinite = false := by
  obtain ⟨-, hmax⟩ := divNearest_bounds (two_pow_width_le h) Nat.lt_log2_self
  rw [Bool.eq_false_iff, ne_eq, isInfinite_ofNat_iff h, roundedMagnitude]
  omega

/-- Infinity stands for everything from the middle above the largest finite number on. -/
theorem isInfinite_ofNat_iff_le (h : n ≠ 0) :
    (ofNat n).isInfinite = true ↔ 2 ^ 1024 - 2 ^ 970 ≤ n := by
  have hrounds := roundsTo_roundedMagnitude h
  have hlow : middleAbove (roundedMagnitude n - 1) ≤ n * 2 ^ 1076 :=
    hrounds.above.elim Nat.le_of_lt fun h => h.2.le
  have hlargest : (2 ^ 1024 - 2 ^ 970) * 2 ^ 1076 =
      middleAbove (2045 * 2 ^ 52 + (2 ^ 53 - 1)) := by
    rw [middleAbove_of_normal (by decide) (by decide)]
    decide +kernel
  have hscaled : 2 ^ 1024 - 2 ^ 970 ≤ n ↔
      middleAbove (2045 * 2 ^ 52 + (2 ^ 53 - 1)) ≤ n * 2 ^ 1076 := by
    rw [← hlargest]
    exact (Nat.mul_le_mul_right_iff (by positivity)).symm
  rw [isInfinite_ofNat_iff h, hscaled]
  constructor
  · intro hle
    exact (strictMono_middleAbove.monotone (by omega)).trans hlow
  · intro hle
    by_contra hlt
    -- The largest finite magnitude is odd, so it does not take the middle above.
    rcases hrounds.below with hbelow | ⟨heven, hbelow⟩
    · have hmagnitude := strictMono_middleAbove.lt_iff_lt.mp (hle.trans_lt hbelow)
      omega
    · have hmagnitude := strictMono_middleAbove.le_iff_le.mp (hle.trans hbelow.le)
      omega

theorem magnitude_ofNat (h : n ≠ 0) (hfinite : (ofNat n).isInfinite = false) :
    (ofNat n).magnitude = roundedMagnitude n := by
  have hlt : roundedMagnitude n < 2047 * 2 ^ 52 := by
    by_contra hle
    rw [(isInfinite_ofNat_iff h).mpr (Nat.not_lt.mp hle)] at hfinite
    cases hfinite
  rw [ofNat_of_lt h hlt]
  exact (of_toUInt64 hlt).1

/-- A finite number that a natural number goes to is the nearest one. -/
theorem attracts_ofNat (h : n ≠ 0) (hfinite : (ofNat n).isInfinite = false) :
    (ofNat n).Attracts n := by
  have hrounds := roundsTo_roundedMagnitude h
  rw [← magnitude_ofNat h hfinite] at hrounds
  exact (attracts_natCast_iff hrounds.pos).mpr hrounds

/-- A natural number in the interval of a number goes to this number. -/
theorem ofNat_eq_of_attracts (h : n ≠ 0) (hsign : x.isNegative = false)
    (hnumber : x.isNaN = false) (hfinite : x.isInfinite = false) (hpos : 0 < x.magnitude)
    (hattracts : x.Attracts n) : ofNat n = x := by
  have hrounds := (attracts_natCast_iff hpos).mp hattracts
  have hmagnitude := (roundsTo_roundedMagnitude h).unique hrounds
  have hlt : roundedMagnitude n < 2047 * 2 ^ 52 := by
    rw [hmagnitude]
    exact (magnitude_lt_iff x).mpr ⟨hnumber, hfinite⟩
  rw [ofNat_of_lt h hlt]
  obtain ⟨hmagnitude', hsign'⟩ := of_toUInt64 hlt
  exact eq_of_magnitude (hsign'.trans hsign.symm) (hmagnitude'.trans hmagnitude)

end Patterns

section Order

/-- The number that a pattern stands for, apart from its sign. Infinity is above all others. -/
def size (x : Binary64) : WithTop ℚ :=
  if x.isInfinite then ⊤ else ((x.significand * 2 ^ x.scale : ℚ) : WithTop ℚ)

theorem size_eq_exact (h : x.isInfinite = false) : x.size = (x.exact.value : ℚ) := by
  rw [size, h, if_neg Bool.false_ne_true, value_exact]

/-- The fields of a pattern, by its magnitude. -/
theorem fields_eq (x : Binary64) :
    x.storedExponent = x.magnitude / 2 ^ 52 ∧ x.storedFraction = x.magnitude % 2 ^ 52 := by
  have hfraction := x.storedFraction_lt
  rw [magnitude_eq]
  omega

theorem significand_pos_iff : 0 < x.significand ↔ 0 < x.magnitude := by
  have hfraction := x.storedFraction_lt
  rw [significand, magnitude_eq, Nat.shiftLeft_eq]
  split <;> omega

/-- Finite numbers go up with their magnitudes. -/
theorem exact_le_exact (h : x.magnitude ≤ y.magnitude) : x.exact.value ≤ y.exact.value := by
  rcases Nat.lt_or_eq_of_le h with hlt | heq
  · obtain ⟨k, hk⟩ : ∃ k, y.magnitude = k + 1 := ⟨y.magnitude - 1, by omega⟩
    have hlower : y.lower ≤ y.exact.value :=
      (attracts_exact (significand_pos_iff.mpr (by omega))).above.elim le_of_lt fun h => h.2.le
    have hends : x.upper ≤ y.lower := by
      have hunit : (0 : ℚ) < 2 ^ 1076 := by positivity
      rw [← mul_le_mul_iff_left₀ hunit, lower_eq hk, upper_eq]
      exact_mod_cast strictMono_middleAbove.monotone (show x.magnitude ≤ k by omega)
    have hupper : x.exact.value ≤ x.upper := by
      rcases Nat.eq_zero_or_pos x.significand with hzero | hpos
      · rw [value_exact, hzero, Nat.cast_zero, zero_mul, upper]
        positivity
      · exact (attracts_exact hpos).below.elim le_of_lt fun h => h.2.le
    exact hupper.trans (hends.trans hlower)
  · have hsignificand : x.significand = y.significand := by
      rw [significand, significand, x.fields_eq.1, x.fields_eq.2, y.fields_eq.1, y.fields_eq.2, heq]
    have hscale : x.scale = y.scale := by
      rw [scale, scale, x.fields_eq.1, y.fields_eq.1, heq]
    rw [value_exact, value_exact, hsignificand, hscale]

/-- A larger natural number never goes to a smaller number. -/
theorem size_ofNat_mono (h : m ≤ n) : (ofNat m).size ≤ (ofNat n).size := by
  cases hinfinite : (ofNat n).isInfinite with
  | true =>
    rw [size, size, hinfinite, if_pos rfl]
    exact le_top
  | false =>
    have hmagnitude : (ofNat m).magnitude ≤ (ofNat n).magnitude ∧ (ofNat m).isInfinite = false := by
      rcases eq_or_ne m 0 with rfl | hm
      · rw [zero_parts.2]
        exact ⟨Nat.zero_le _, ((magnitude_lt_iff _).mp (by rw [zero_parts.2]; decide)).2⟩
      · have hn : n ≠ 0 := by omega
        have hle := (roundsTo_roundedMagnitude hm).mono (roundsTo_roundedMagnitude hn) h
        have hfinite : (ofNat m).isInfinite = false := by
          rw [Bool.eq_false_iff, ne_eq, isInfinite_ofNat_iff hm]
          rw [Bool.eq_false_iff, ne_eq, isInfinite_ofNat_iff hn] at hinfinite
          omega
        rw [magnitude_ofNat hm hfinite, magnitude_ofNat hn hinfinite]
        exact ⟨hle, hfinite⟩
    rw [size_eq_exact hmagnitude.2, size_eq_exact hinfinite]
    exact WithTop.coe_le_coe.mpr (exact_le_exact hmagnitude.1)

end Order

section Exactness

theorem divNearest_mul_self {den : Nat} (num : Nat) (hden : 0 < den) :
    divNearest (num * den) den = num := by
  rw [divNearest, Nat.mul_div_cancel num hden, Nat.mul_mod_left, if_pos (by omega)]

/-- The fields of what a natural number goes to, if it is finite. -/
theorem fields_ofNat (h : n ≠ 0) (hfinite : (ofNat n).isInfinite = false) :
    n.log2 + 1023 ≤ (ofNat n).storedExponent ∧
    (divNearest (n * 2 ^ 53) (2 ^ (n.log2 + 1)) < 2 ^ 53 →
      (ofNat n).significand = divNearest (n * 2 ^ 53) (2 ^ (n.log2 + 1)) ∧
      (ofNat n).scale = n.log2 - 52) := by
  obtain ⟨hmin, -⟩ := divNearest_bounds (two_pow_width_le h) Nat.lt_log2_self
  obtain ⟨hexponent, hfraction⟩ := (ofNat n).fields_eq
  rw [magnitude_ofNat h hfinite, roundedMagnitude] at hexponent hfraction
  generalize divNearest (n * 2 ^ 53) (2 ^ (n.log2 + 1)) = r at *
  refine ⟨by omega, fun hmax => ?_⟩
  have hexponent' : (ofNat n).storedExponent = n.log2 + 1023 := by omega
  rw [significand, scale, hexponent', if_neg (Nat.succ_ne_zero _), Nat.shiftLeft_eq]
  omega

/-- With no more than 53 binary digits nothing is rounded off. -/
theorem exact_ofNat_of_lt (hn : n ≠ 0) (h : n < 2 ^ 53) : (ofNat n).exact.value = n := by
  have hwidth : n.log2 < 53 := (Nat.log2_lt hn).mpr h
  obtain ⟨k, hk⟩ : ∃ k, n.log2 + 1 + k = 53 := ⟨52 - n.log2, by omega⟩
  have hpower : 2 ^ 53 = 2 ^ k * 2 ^ (n.log2 + 1) := by rw [← pow_add, Nat.add_comm k, hk]
  have hrounded : divNearest (n * 2 ^ 53) (2 ^ (n.log2 + 1)) = n * 2 ^ k := by
    rw [hpower, ← Nat.mul_assoc, divNearest_mul_self _ (Nat.two_pow_pos _)]
  have hsmall : n * 2 ^ k < 2 ^ 53 := by
    rw [hpower, Nat.mul_comm]
    exact Nat.mul_lt_mul_of_pos_left Nat.lt_log2_self (Nat.two_pow_pos k)
  obtain ⟨-, hfields⟩ := fields_ofNat hn (isInfinite_ofNat_of_log2_lt hn (by omega))
  rw [hrounded] at hfields
  obtain ⟨hsignificand, hscale⟩ := hfields hsmall
  have hexponent : (n.log2 : ℤ) - 52 = -(k : ℤ) := by omega
  rw [value_exact, hsignificand, hscale, hexponent, zpow_neg, zpow_natCast, Nat.cast_mul,
    Nat.cast_pow, Nat.cast_ofNat, mul_inv_cancel_right₀ (by positivity)]

/-- Up to `2 ^ 53` natural numbers are floating-point numbers. -/
theorem exact_ofNat (h : n ≤ 2 ^ 53) : (ofNat n).exact.value = n := by
  rcases eq_or_ne n 0 with rfl | hn
  · decide +kernel
  · rcases Nat.lt_or_eq_of_le h with hlt | rfl
    · exact exact_ofNat_of_lt hn hlt
    · decide +kernel

/-- What a natural number goes to is a natural number, if it is finite. -/
theorem exists_exact_ofNat (hfinite : (ofNat n).isInfinite = false) :
    ∃ m : Nat, (ofNat n).exact.value = m := by
  rcases Nat.lt_or_ge n (2 ^ 53) with hlt | hle
  · exact ⟨n, exact_ofNat hlt.le⟩
  · have hn : n ≠ 0 := by omega
    have hwidth : 53 ≤ n.log2 := (Nat.le_log2 hn).mpr hle
    obtain ⟨hexponent, -⟩ := fields_ofNat hn hfinite
    have hscale : 0 ≤ (ofNat n).scale := by
      rw [scale]
      omega
    refine ⟨(ofNat n).significand * 2 ^ (ofNat n).scale.toNat, ?_⟩
    rw [value_exact, Nat.cast_mul, Nat.cast_pow, Nat.cast_ofNat, ← zpow_natCast,
      Int.toNat_of_nonneg hscale]

end Exactness

end Binary64

end ExprLang
