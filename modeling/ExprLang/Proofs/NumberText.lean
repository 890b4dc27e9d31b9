import ExprLang.Proofs.RoundingIntervals
import Mathlib.Data.List.TakeWhile

/-!
The text of a number determines it. The decimal digits of a text are read back as the number
that they were written for, which lies in one rounding interval only. So two numbers with the
same text have the same sign and the same interval, and are the same.
-/
namespace ExprLang

theorem toList_pushn (text : String) (c : Char) (n : Nat) :
    (text.pushn c n).toList = text.toList ++ List.replicate n c := by
  rw [String.pushn_eq_repeat_push]
  induction n with
  | zero => simp [Nat.repeat]
  | succ n ih => rw [Nat.repeat, String.toList_push, ih, List.append_assoc, List.replicate_succ']

/-- The number that digits with a decimal point among them, or with none, are read as. -/
def readDecimal (cs : List Char) : ℚ :=
  let whole := cs.takeWhile (· != '.')
  let places := (cs.dropWhile (· != '.')).tail
  Nat.ofDigitChars 10 (whole ++ places) 0 / 10 ^ places.length

section Digits

variable {whole places : List Char}

theorem ne_point_of_isDigit {c : Char} (h : c.isDigit = true) : (c != '.') = true := by
  rw [bne_iff_ne]
  rintro rfl
  exact absurd h (by decide)

theorem readDecimal_digits (h : ∀ c ∈ whole, c.isDigit = true) :
    readDecimal whole = Nat.ofDigitChars 10 whole 0 := by
  have hplain : ∀ c ∈ whole, (c != '.') = true := fun c hc => ne_point_of_isDigit (h c hc)
  simp [readDecimal, List.takeWhile_eq_self_iff.mpr hplain, List.dropWhile_eq_nil_iff.mpr hplain]

theorem readDecimal_point (h : ∀ c ∈ whole, c.isDigit = true) :
    readDecimal (whole ++ '.' :: places) =
      Nat.ofDigitChars 10 (whole ++ places) 0 / 10 ^ places.length := by
  have hplain : ∀ c ∈ whole, (c != '.') = true := fun c hc => ne_point_of_isDigit (h c hc)
  simp [readDecimal, List.takeWhile_append_of_pos hplain, List.dropWhile_append_of_pos hplain]

end Digits

namespace Decimal

/-- The two forms of the text of a decimal: its digits with zeros behind them, or digits on
both sides of a point. -/
theorem text_cases (d : Decimal) :
    (0 ≤ d.exponent ∧
      d.text.toList = Nat.toDigits 10 d.coefficient ++ List.replicate d.exponent.toNat '0') ∨
    (d.exponent < 0 ∧ ∃ whole places, d.text.toList = whole ++ '.' :: places ∧ whole ≠ [] ∧
      (∀ c ∈ whole ++ places, c.isDigit = true) ∧ places.length = (-d.exponent).toNat ∧
      Nat.ofDigitChars 10 (whole ++ places) 0 = d.coefficient) := by
  rcases le_or_gt 0 d.exponent with hexponent | hexponent
  · refine .inl ⟨hexponent, ?_⟩
    rw [text, if_pos hexponent, toList_pushn, Nat.toList_repr]
  · refine .inr ⟨hexponent, ?_⟩
    let digits := Nat.toDigits 10 d.coefficient
    let padded := List.replicate ((-d.exponent).toNat + 1 - digits.length) '0' ++ digits
    let whole := padded.length - (-d.exponent).toNat
    have htext : d.text.toList = padded.take whole ++ '.' :: padded.drop whole := by
      rw [text, if_neg (not_le.mpr hexponent), String.toList_ofList, ← String.length_toList,
        Nat.toList_repr]
    have hlength : padded.length = (-d.exponent).toNat + whole ∧ 0 < whole := by
      have hpadded : padded.length = (-d.exponent).toNat + 1 - digits.length + digits.length := by
        rw [List.length_append, List.length_replicate]
      have hwhole : whole = padded.length - (-d.exponent).toNat := rfl
      omega
    refine ⟨padded.take whole, padded.drop whole, htext, ?_, ?_, ?_, ?_⟩
    · rw [ne_eq, List.take_eq_nil_iff, not_or, ← List.length_eq_zero_iff]
      omega
    · rw [List.take_append_drop, List.forall_mem_append]
      refine ⟨fun c hc => ?_, fun c hc => Nat.isDigit_of_mem_toDigits (by decide) (by decide) hc⟩
      rw [(List.mem_replicate.mp hc).2]
      decide
    · rw [List.length_drop]
      omega
    · rw [List.take_append_drop, Nat.ofDigitChars_append, Nat.ofDigitChars_replicate_zero,
        Nat.mul_zero, Nat.ofDigitChars_ten_toDigits]

/-- The text of a decimal is read back as the number that it is. -/
theorem readDecimal_text (d : Decimal) : readDecimal d.text.toList = d.value := by
  rcases d.text_cases with ⟨hexponent, htext⟩ |
    ⟨hexponent, whole, places, htext, -, hdigits, hplaces, hvalue⟩
  · have hdigits : ∀ c ∈ Nat.toDigits 10 d.coefficient ++ List.replicate d.exponent.toNat '0',
        c.isDigit = true := by
      rw [List.forall_mem_append]
      refine ⟨fun c hc => Nat.isDigit_of_mem_toDigits (by decide) (by decide) hc, fun c hc => ?_⟩
      rw [(List.mem_replicate.mp hc).2]
      decide
    have hpower : ((10 ^ d.exponent.toNat : Nat) : ℚ) = 10 ^ d.exponent := by
      rw [Nat.cast_pow, ← zpow_natCast, Int.toNat_of_nonneg hexponent]
      rfl
    rw [htext, readDecimal_digits hdigits, Nat.ofDigitChars_append,
      Nat.ofDigitChars_ten_toDigits, Nat.ofDigitChars_replicate_zero, Nat.cast_mul, hpower, value,
      mul_comm]
  · have hpower : (10 : ℚ) ^ (-d.exponent).toNat = (10 ^ d.exponent)⁻¹ := by
      rw [← zpow_natCast, Int.toNat_of_nonneg (by omega), zpow_neg]
    rw [List.forall_mem_append] at hdigits
    rw [htext, readDecimal_point hdigits.1, hvalue, hplaces, hpower, div_inv_eq_mul, value]

/-- The text of a decimal starts with a digit and goes on with digits and points. -/
theorem text_shape (d : Decimal) : ∃ first rest, d.text.toList = first :: rest ∧
    first.isDigit = true ∧ ∀ c ∈ rest, c.isDigit = true ∨ c = '.' := by
  have hparts : ∃ whole behind, d.text.toList = whole ++ behind ∧ whole ≠ [] ∧
      (∀ c ∈ whole, c.isDigit = true) ∧ ∀ c ∈ behind, c.isDigit = true ∨ c = '.' := by
    rcases d.text_cases with ⟨-, htext⟩ | ⟨-, whole, places, htext, hne, hdigits, -⟩
    · refine ⟨_, _, htext, Nat.toDigits_ne_nil,
        fun c hc => Nat.isDigit_of_mem_toDigits (by decide) (by decide) hc, fun c hc => .inl ?_⟩
      rw [(List.mem_replicate.mp hc).2]
      decide
    · rw [List.forall_mem_append] at hdigits
      exact ⟨whole, _, htext, hne, hdigits.1, List.forall_mem_cons.mpr
        ⟨.inr rfl, fun c hc => .inl (hdigits.2 c hc)⟩⟩
  obtain ⟨whole, behind, htext, hne, hwhole, hbehind⟩ := hparts
  obtain ⟨first, whole, rfl⟩ := List.exists_cons_of_ne_nil hne
  obtain ⟨hfirst, hwhole⟩ := List.forall_mem_cons.mp hwhole
  refine ⟨first, whole ++ behind, htext, hfirst, ?_⟩
  exact List.forall_mem_append.mpr ⟨fun c hc => .inl (hwhole c hc), hbehind⟩

end Decimal

namespace Binary64

variable {x y : Binary64}

def sizeText (x : Binary64) : String :=
  if x.isInfinite then "inf" else if x.isZero then "0" else x.shortest.text

theorem text_eq (h : x.isNaN = false) :
    x.text.toList = (if x.isNegative then ['-'] else []) ++ x.sizeText.toList := by
  rw [text, h, if_neg Bool.false_ne_true, ← sizeText]
  split <;> simp

theorem isZero_iff (x : Binary64) : x.isZero = true ↔ x.magnitude = 0 := by
  rw [magnitude_eq, isZero, decide_eq_true_eq]
  omega

theorem significand_pos (h : x.isZero = false) : 0 < x.significand := by
  simp only [isZero, decide_eq_false_iff_not] at h
  rw [significand]
  split
  · omega
  · rw [Nat.shiftLeft_eq]
    omega

/-- The text of a finite number without its sign. -/
theorem sizeText_shape (h : x.isInfinite = false) : ∃ first rest,
    x.sizeText.toList = first :: rest ∧ first.isDigit = true ∧
      ∀ c ∈ rest, c.isDigit = true ∨ c = '.' := by
  rw [sizeText, h, if_neg Bool.false_ne_true]
  split
  · exact ⟨'0', [], rfl, by decide, by simp⟩
  · exact x.shortest.text_shape

/-- A decimal that a number other than zero attracts is not zero. -/
theorem Attracts.pos {v : ℚ} (hx : x.Attracts v) (hpositive : 0 < x.significand) : 0 < v := by
  have hroom : x.roomBelow ≤ 2 := by
    rw [roomBelow]
    split <;> decide
  have hlower : 0 < x.lower := by
    refine mul_pos ?_ (by positivity)
    exact_mod_cast (show 0 < 4 * x.significand - x.roomBelow by omega)
  exact hx.above.elim hlower.trans fun h => h.2 ▸ hlower

/-- Finite numbers of the same sign with the same text are the same. -/
theorem eq_of_sizeText (hx : x.isInfinite = false) (hy : y.isInfinite = false)
    (hsign : x.isNegative = y.isNegative) (h : x.sizeText = y.sizeText) : x = y := by
  have hread : ∀ z : Binary64, z.isInfinite = false →
      (z.isZero = true ∧ readDecimal z.sizeText.toList = 0) ∨
      (0 < z.significand ∧ readDecimal z.sizeText.toList = z.shortest.value) := by
    intro z hz
    rw [sizeText, hz, if_neg Bool.false_ne_true]
    cases hzero : z.isZero with
    | true => exact .inl ⟨rfl, by simp [readDecimal]; decide⟩
    | false => exact .inr ⟨significand_pos hzero, by simpa using z.shortest.readDecimal_text⟩
  have hx' := hread x hx
  rw [h] at hx'
  rcases hx', hread y hy with
    ⟨⟨hzero, hvalue⟩ | ⟨hpos, hvalue⟩, ⟨hzero', hvalue'⟩ | ⟨hpos', hvalue'⟩⟩
  · rw [isZero_iff] at hzero hzero'
    exact eq_of_magnitude hsign (hzero.trans hzero'.symm)
  · exact absurd (hvalue.symm.trans hvalue') ((attracts_shortest hpos').pos hpos').ne
  · exact absurd (hvalue'.symm.trans hvalue) ((attracts_shortest hpos).pos hpos).ne
  · have hattracts := attracts_shortest hpos
    rw [← hvalue, hvalue'] at hattracts
    exact hattracts.unique (attracts_shortest hpos') hsign

theorem sizeText_of_isInfinite (h : x.isInfinite = true) : x.sizeText.toList = ['i', 'n', 'f'] := by
  rw [sizeText, h, if_pos rfl]
  rfl

/-- No text of a number without its sign starts with one. -/
theorem head?_sizeText (x : Binary64) : x.sizeText.toList.head? ≠ some '-' := by
  cases hinfinite : x.isInfinite with
  | true =>
    rw [sizeText_of_isInfinite hinfinite]
    decide
  | false =>
    obtain ⟨first, rest, htext, hfirst, -⟩ := sizeText_shape hinfinite
    rw [htext, List.head?_cons, ne_eq, Option.some.injEq]
    rintro rfl
    exact absurd hfirst (by decide)

/-- The sign and the rest of the text can be told apart. -/
theorem sign_and_sizeText (hx : x.isNaN = false) (hy : y.isNaN = false) (h : x.text = y.text) :
    x.isNegative = y.isNegative ∧ x.sizeText = y.sizeText := by
  have hlists := congrArg String.toList h
  rw [text_eq hx, text_eq hy] at hlists
  have hx' := x.head?_sizeText
  have hy' := y.head?_sizeText
  cases hsign : x.isNegative <;> cases hsign' : y.isNegative <;>
    simp only [hsign, hsign', if_true, if_false, Bool.false_eq_true, List.nil_append,
      List.singleton_append, List.cons.injEq, true_and] at hlists
  · exact ⟨rfl, String.toList_inj.mp hlists⟩
  · exact absurd (by rw [hlists, List.head?_cons]) hx'
  · exact absurd (by rw [← hlists, List.head?_cons]) hy'
  · exact ⟨rfl, String.toList_inj.mp hlists⟩

theorem magnitude_of_isInfinite (h : x.isInfinite = true) : x.magnitude = 2047 * 2 ^ 52 := by
  simp only [isInfinite, decide_eq_true_eq] at h
  rw [magnitude_eq, h.1, h.2, Nat.add_zero]

/-- An infinity has another text than a finite number. -/
theorem sizeText_ne (hx : x.isInfinite = true) (hy : y.isInfinite = false) :
    x.sizeText ≠ y.sizeText := by
  intro h
  obtain ⟨first, rest, htext, hfirst, -⟩ := sizeText_shape hy
  rw [← h, sizeText_of_isInfinite hx] at htext
  obtain rfl := (List.cons.inj htext).1
  exact absurd hfirst (by decide)

/-- The text of a number determines it, if it is one. -/
theorem eq_of_text (hx : x.isNaN = false) (hy : y.isNaN = false) (h : x.text = y.text) : x = y := by
  obtain ⟨hsign, hsize⟩ := sign_and_sizeText hx hy h
  cases hinfinite : x.isInfinite <;> cases hinfinite' : y.isInfinite
  · exact eq_of_sizeText hinfinite hinfinite' hsign hsize
  · exact absurd hsize.symm (sizeText_ne hinfinite' hinfinite)
  · exact absurd hsize (sizeText_ne hinfinite hinfinite')
  · exact eq_of_magnitude hsign
      ((magnitude_of_isInfinite hinfinite).trans (magnitude_of_isInfinite hinfinite').symm)

/-- No number is written with a line feed. -/
theorem feed_not_mem_text (h : x.isNaN = false) : '\n' ∉ x.text.toList := by
  rw [text_eq h, List.mem_append, not_or]
  constructor
  · split <;> decide
  · cases hinfinite : x.isInfinite with
    | true =>
      rw [sizeText_of_isInfinite hinfinite]
      decide
    | false =>
      obtain ⟨first, rest, htext, hfirst, hrest⟩ := sizeText_shape hinfinite
      rw [htext, List.mem_cons, not_or]
      constructor
      · rintro rfl
        exact absurd hfirst (by decide)
      · intro hmem
        exact absurd (hrest _ hmem) (by decide)

/-- A finite number is written with digits and a point, and with a sign in front if it has
one. -/
theorem text_shape (hnumber : x.isNaN = false) (hfinite : x.isInfinite = false) :
    ∃ first rest, x.text.toList = first :: rest ∧ (first.isDigit = true ∨ first = '-') ∧
      ∀ c ∈ rest, c.isDigit = true ∨ c = '.' := by
  obtain ⟨first, rest, htext, hfirst, hrest⟩ := sizeText_shape hfinite
  rw [text_eq hnumber, htext]
  cases x.isNegative with
  | false => exact ⟨first, rest, rfl, .inl hfirst, hrest⟩
  | true => exact ⟨'-', first :: rest, rfl, .inr rfl, List.forall_mem_cons.mpr ⟨.inl hfirst, hrest⟩⟩

end Binary64

end ExprLang
