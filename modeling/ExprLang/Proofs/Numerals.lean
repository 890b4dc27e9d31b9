import ExprLang.Proofs.Layout
import ExprLang.Proofs.NumberText
import ExprLang.Proofs.RoundedNaturals
import ExprLang.Proofs.WholeReading
import ExprLang.SExpression

/-!
Numbers written out and read again. The value of a digit run is a natural number or infinity.
So the search for its decimal ends on the grid of natural numbers at the latest, and what is
written is the numeral of a natural number in its rounding interval, which is read as the value
it was written for. Infinity is written as a name.
-/
namespace ExprLang

open Lexer (Stream)

/-- Digits only, and no zero in front that could be left out. -/
structure IsNumeral (text : String) : Prop where
  ne_nil : text.toList ≠ []
  digits : ∀ c ∈ text.toList, c.isDigit = true
  front : ∀ cs, text.toList = '0' :: cs → cs = []

section Numerals

variable {n : Nat}

/-- The numeral of a positive number begins with no zero. -/
theorem head?_toDigits (h : 0 < n) : (Nat.toDigits 10 n).head? ≠ some '0' := by
  induction n using Nat.strong_induction_on with
  | h n ih =>
    rcases Nat.lt_or_ge n 10 with hlt | hge
    · rw [Nat.toDigits_of_lt_base hlt, List.head?_cons, ne_eq, Option.some.injEq,
        Nat.digitChar_eq_zero]
      omega
    · rw [Nat.toDigits_of_base_le (by decide) hge,
        List.head?_append_of_ne_nil _ Nat.toDigits_ne_nil]
      exact ih (n / 10) (by omega) (by omega)

theorem isNumeral_repr (n : Nat) : IsNumeral n.repr where
  ne_nil := by
    rw [Nat.toList_repr]
    exact Nat.toDigits_ne_nil
  digits c hc := by
    rw [Nat.toList_repr] at hc
    exact Nat.isDigit_of_mem_toDigits (by decide) (by decide) hc
  front cs hcs := by
    rw [Nat.toList_repr] at hcs
    rcases Nat.eq_zero_or_pos n with rfl | hpos
    · exact (List.cons.inj hcs).2.symm
    · exact absurd (by rw [hcs, List.head?_cons]) (head?_toDigits hpos)

/-- Zeros behind a numeral multiply. -/
theorem toDigits_mul_pow (h : 0 < n) (k : Nat) :
    Nat.toDigits 10 (n * 10 ^ k) = Nat.toDigits 10 n ++ List.replicate k '0' := by
  induction k with
  | zero => simp
  | succ k ih =>
    have hnext := Nat.toDigits_append_toDigits (b := 10) (n := n * 10 ^ k) (d := 0) (by decide)
      (by positivity) (by decide)
    rw [List.replicate_succ', ← List.append_assoc, ← ih, pow_succ, ← Nat.mul_assoc,
      Nat.mul_comm _ 10]
    exact hnext.symm

/-- A decimal on the grid of natural numbers or a coarser one is written as a numeral. -/
theorem Decimal.text_natCast {coefficient k : Nat} (h : 0 < coefficient) :
    (Decimal.mk coefficient k).text = (coefficient * 10 ^ k).repr := by
  rw [← String.toList_inj, Nat.toList_repr, toDigits_mul_pow h]
  simp only [text, Int.natCast_nonneg, if_true, toList_pushn, Nat.toList_repr, Int.toNat_natCast]

end Numerals

namespace Binary64

variable {x : Binary64} {n m : Nat}

section Grids

/-- On the grid of natural numbers a number that is one is found. -/
theorem onGrid_zero (hpositive : 0 < x.significand) (hwhole : x.exact.value = m) :
    x.onGrid? 0 = some m := by
  obtain ⟨unit, hunit, hstep, hquarter⟩ := x.exists_gridUnits 0
  obtain ⟨hstep', hquarter'⟩ := x.gridUnits_pos 0
  have hroom := x.roomBelow_pos
  have hvalue : 4 * x.significand * (x.gridUnits 0).2 = m * (x.gridUnits 0).1 := by
    have hcast : (4 * x.significand * (x.gridUnits 0).2 : ℚ) = m * (x.gridUnits 0).1 := by
      rw [hstep, hquarter, ← hwhole, value_exact, zpow_sub₀ two_ne_zero]
      ring
    exact_mod_cast hcast
  rw [onGrid?]
  generalize x.gridUnits 0 = units at *
  obtain ⟨step, quarter⟩ := units
  simp only at *
  have hbelow : (4 * x.significand - x.roomBelow) * quarter < m * step := by
    rw [← hvalue]
    exact Nat.mul_lt_mul_of_pos_right (by omega) hquarter'
  have hnear : m * step - m * step < (m + 1) * step - m * step := by
    rw [Nat.sub_self, Nat.succ_mul, Nat.add_sub_cancel_left]
    exact hstep'
  rw [hvalue, Nat.mul_div_cancel m hstep', if_pos]
  simp only [Bool.and_eq_true, Bool.or_eq_true, decide_eq_true_eq]
  exact ⟨.inl hbelow, .inr hnear⟩

/-- The search goes no further than to the grid of natural numbers if the number is one. -/
theorem exists_firstOnGrids (hzero : x.onGrid? 0 = some m) {grids k : Nat} (h : k < grids) :
    ∃ coefficient exponent : Nat, x.firstOnGrids? grids k = some ⟨coefficient, exponent⟩ := by
  induction grids generalizing k with
  | zero => omega
  | succ grids ih =>
    unfold firstOnGrids?
    cases hgrid : x.onGrid? k with
    | some coefficient => exact ⟨coefficient, k, rfl⟩
    | none =>
      cases k with
      | zero =>
        rw [Nat.cast_zero, hzero] at hgrid
        cases hgrid
      | succ k =>
        obtain ⟨coefficient, exponent, hfound⟩ := ih (show k < grids by omega)
        refine ⟨coefficient, exponent, ?_⟩
        have hprevious : ((k + 1 : Nat) : ℤ) - 1 = k := by omega
        simpa only [hprevious] using hfound

/-- So the decimal of a natural number is a natural number. -/
theorem exists_shortest (hpositive : 0 < x.significand) (hwhole : x.exact.value = m) :
    ∃ coefficient exponent : Nat, x.shortest = ⟨coefficient, exponent⟩ := by
  have hgrids : x.coarsest.toNat < (x.coarsest + 325).toNat := by
    rw [coarsest]
    omega
  obtain ⟨coefficient, exponent, hfound⟩ :=
    exists_firstOnGrids (onGrid_zero hpositive hwhole) hgrids
  refine ⟨coefficient, exponent, ?_⟩
  have hcoarsest : ((x.coarsest.toNat : Nat) : ℤ) = x.coarsest := by
    rw [coarsest]
    omega
  rw [hcoarsest] at hfound
  rw [shortest, hfound, Option.getD_some]

end Grids

section Texts

/-- A finite value of a natural number is written as a natural number with this value. -/
theorem exists_text_ofNat (hfinite : (ofNat n).isInfinite = false) :
    ∃ m : Nat, (ofNat n).text = m.repr ∧ ofNat m = ofNat n := by
  rcases eq_or_ne n 0 with rfl | hn
  · exact ⟨0, by decide, rfl⟩
  · obtain ⟨hsign, hnumber⟩ := ofNat_parts n
    have hmagnitude : 0 < (ofNat n).magnitude := by
      rw [magnitude_ofNat hn hfinite]
      exact (roundsTo_roundedMagnitude hn).pos
    have hpositive := significand_pos_iff.mpr hmagnitude
    obtain ⟨whole, hwhole⟩ := exists_exact_ofNat hfinite
    obtain ⟨coefficient, exponent, hshortest⟩ := exists_shortest hpositive hwhole
    have hattracts := attracts_shortest hpositive
    have hvalue : (ofNat n).shortest.value = ((coefficient * 10 ^ exponent : Nat) : ℚ) := by
      rw [hshortest, Decimal.value, Nat.cast_mul, Nat.cast_pow, zpow_natCast]
      rfl
    have hcoefficient : 0 < coefficient := by
      have hpos := hattracts.pos hpositive
      rw [hvalue, Nat.cast_pos] at hpos
      exact Nat.pos_of_mul_pos_right hpos
    have hzero : (ofNat n).isZero = false := by
      rw [Bool.eq_false_iff, ne_eq, isZero_iff]
      omega
    refine ⟨coefficient * 10 ^ exponent, ?_, ?_⟩
    · rw [← Decimal.text_natCast hcoefficient, ← hshortest]
      simp only [text, hnumber, hfinite, hzero, hsign, Bool.false_eq_true, if_false]
    · rw [hvalue] at hattracts
      exact ofNat_eq_of_attracts (by positivity) hsign hnumber hfinite hmagnitude hattracts

/-- Up to `2 ^ 53` the text is the numeral itself. -/
theorem text_ofNat_of_le (h : n ≤ 2 ^ 53) : (ofNat n).text = n.repr := by
  rcases Nat.lt_or_eq_of_le h with hlt | rfl
  · have hfinite : (ofNat n).isInfinite = false := by
      rcases eq_or_ne n 0 with rfl | hn
      · decide
      · exact isInfinite_ofNat_of_log2_lt hn (((Nat.log2_lt hn).mpr hlt).trans (by decide))
    obtain ⟨m, htext, hsame⟩ := exists_text_ofNat hfinite
    have hvalue : (ofNat m).exact.value = n := by rw [hsame, exact_ofNat h]
    have hsmall : m ≤ 2 ^ 53 := by
      by_contra hlarge
      have hsize := size_ofNat_mono (Nat.le_of_not_le hlarge)
      rw [hsame, size_eq_exact hfinite, size_eq_exact (by decide), WithTop.coe_le_coe,
        exact_ofNat le_rfl, exact_ofNat h, Nat.cast_le] at hsize
      omega
    rw [exact_ofNat hsmall, Nat.cast_inj] at hvalue
    rw [htext, hvalue]
  · -- The next number goes to the same value, but its numeral is no nearer to it.
    decide +kernel

end Texts

end Binary64

def denoted (digits : String) : Nat := Nat.ofDigitChars 10 digits.toList 0

/-- The value of a run of digits, wherever in a source it stands. -/
def IsValueOf (digits : String) (value : Binary64) : Prop :=
  ∀ (p : Parser) (token : Token), p.ahead.head = .ok token → token.kind = .number digits →
    ∃ q, Parser.number p = .ok (.number value token.span) q

structure IsReadAs (text : String) (file : Option String) (kind : Token.Kind) (node : Node) :
    Prop where
  tokens : ∃ token final, tokenize text file = .ok [token, final] ∧ token.kind = kind ∧
    final.kind = .endOfInput
  outcome : (parse text file).outcome = .ok [node]
  diagnostics : (parse text file).parser.diagnostics = #[]

section Reading

variable {kind : Token.Kind} {file : Option String}

/-- What a lexer has left of a source that is a single token. -/
theorem stream_spelling (hlegal : kind.IsLegal) (file : Option String) :
    ∃ final : Token, (Lexer.ofSource kind.spelling file).stream =
      ⟨[.placed (file.getD Lexer.defaultFile) 0 kind], .ok final⟩ ∧ final.kind = .endOfInput := by
  have hstops : kind.StopsAt [] := by
    intro c hc
    cases hc
  have hmunch : Token.Kind.munch? kind.spelling.toList = some (kind, []) := by
    simpa using hlegal.munch? hstops
  have hblanks : ∀ c ∈ ([] : List Char), isBlank c = true := by simp
  exact ⟨_, (Tiles.token hblanks hmunch (.finish hblanks)).stream_eq, rfl⟩

/-- A source that is a single token which is an operand is read as this operand. -/
theorem isReadAs_of_primary (kind : Token.Kind) {node : Node} (hlegal : kind.IsLegal)
    (hread : ∀ final : Token, final.kind = .endOfInput →
      Reads (.ok final) .primary [.placed (file.getD Lexer.defaultFile) 0 kind] node []) :
    IsReadAs kind.spelling file kind node := by
  obtain ⟨final, hstream, hfinal⟩ := stream_spelling hlegal file
  have hend : ∀ op, final.kind.operator? ≠ some op := by
    rw [hfinal]
    rintro op ⟨⟩
  have hexpression : Reads (.ok final) .expression _ node [] :=
    .expression (hread final hfinal) (.productsEnd rfl (hend _))
      (.sumsEnd rfl fun op hop => absurd hop (hend op))
  obtain ⟨houtcome, hdiagnostics⟩ :=
    parse_of_readsAll hstream (.construct (.expression hexpression) .done)
  refine ⟨⟨_, final, tokenize_eq _ _ _ _ hstream, rfl, hfinal⟩, houtcome, ?_⟩
  rw [← Array.toList_inj, hdiagnostics]

end Reading

section Digits

variable {digits : String}

theorem ofDigits?_eq (hne : digits.toList ≠ []) (hdigits : ∀ c ∈ digits.toList, c.isDigit = true) :
    Binary64.ofDigits? digits = some (.ofNat (denoted digits)) :=
  if_pos ⟨hne, List.all_eq_true.mpr hdigits⟩

/-- Digits have one value, whatever stands around them. -/
theorem isValueOf_ofNat (hne : digits.toList ≠ [])
    (hdigits : ∀ c ∈ digits.toList, c.isDigit = true) :
    IsValueOf digits (.ofNat (denoted digits)) := by
  intro p token hhead hkind
  have hkinds := (Lexer.stream_kinds p.lexer p.ahead.tokens p.ahead.last rfl).2
  cases htokens : p.ahead.tokens with
  | nil =>
    have hlast : p.ahead.last = .ok token := by
      rw [← hhead]
      simp only [Stream.head, htokens]
    rw [hkinds token hlast] at hkind
    cases hkind
  | cons first rest =>
    obtain rfl : first = token := by
      simpa only [Stream.head, htokens, Except.ok.injEq] using hhead
    have hahead : p.ahead = ⟨first :: rest, p.ahead.last⟩ := by rw [← htokens]
    obtain ⟨q, -, -, hrun⟩ := Parser.number_ends hahead hkind (ofDigits?_eq hne hdigits)
    exact ⟨q, hrun⟩

/-- A source of digits only is read as their value. -/
theorem isReadAs_number (hne : digits.toList ≠ [])
    (hdigits : ∀ c ∈ digits.toList, c.isDigit = true) (file : Option String) :
    ∃ span, IsReadAs digits file (.number digits) (.number (.ofNat (denoted digits)) span) :=
  ⟨_, isReadAs_of_primary (.number digits) (.number hne hdigits) fun _ _ =>
    .number rfl (ofDigits?_eq hne hdigits)⟩

/-- A name that is no reserved word is read as a variable. -/
theorem isReadAs_var {name : String} (hname : IsName name) (file : Option String) :
    ∃ span, IsReadAs name file (.identifier name) (.var name span) :=
  ⟨_, isReadAs_of_primary (.identifier name) (.identifier hname) fun final hfinal =>
    .name rfl (show Stream.head ⟨[], .ok final⟩ = .ok final from rfl) (by rw [hfinal]; rintro ⟨⟩)⟩

theorem denoted_repr (n : Nat) : denoted n.repr = n := by
  rw [denoted, Nat.toList_repr, Nat.ofDigitChars_ten_toDigits]

/-- Zeros in front denote nothing. -/
theorem denoted_zeros (zeros : Nat) (digits : String) :
    denoted (String.ofList (List.replicate zeros '0' ++ digits.toList)) = denoted digits := by
  rw [denoted, String.toList_ofList, Nat.ofDigitChars_append, Nat.ofDigitChars_replicate_zero,
    Nat.mul_zero, denoted]

end Digits

/-- The value is the floating-point number nearest to the natural number, and infinity from the
middle above the largest finite number on. -/
structure IsNearest (value : Binary64) (n : Nat) : Prop where
  isNegative_eq : value.isNegative = false
  isNaN_eq : value.isNaN = false
  attracts : n ≠ 0 → value.isInfinite = false → value.Attracts n
  eq_zero : n = 0 → value = ⟨0⟩
  isInfinite_iff : value.isInfinite = true ↔ 2 ^ 1024 - 2 ^ 970 ≤ n

theorem isNearest_ofNat (n : Nat) : IsNearest (.ofNat n) n where
  isNegative_eq := (Binary64.ofNat_parts n).1
  isNaN_eq := (Binary64.ofNat_parts n).2
  attracts := Binary64.attracts_ofNat
  eq_zero h := by rw [h, Binary64.ofNat, if_pos rfl]
  isInfinite_iff := by
    rcases eq_or_ne n 0 with rfl | h
    · decide +kernel
    · exact Binary64.isInfinite_ofNat_iff_le h

/-- A number that is printed reads back as the same number. A run of digits, of any length, has
one value: the floating-point number nearest to the natural number that it denotes. If this is
finite, its text is a numeral, which is one token and is read as the same value with the same
text again; up to `2 ^ 53` it is the numeral of the natural number. If it is infinite, its text
is read as a variable. Zeros in front do not change the value, and digits that denote a larger
number have no smaller value. -/
theorem number_reads_back (digits : String) (file : Option String) (hne : digits.toList ≠ [])
    (hdigits : ∀ c ∈ digits.toList, c.isDigit = true) :
    ∃ value span, IsValueOf digits value ∧
      IsReadAs digits file (.number digits) (.number value span) ∧
      IsNearest value (denoted digits) ∧
      (value.isInfinite = false →
        IsNumeral (Node.number value span).sexpr ∧
        ∃ span', IsReadAs (Node.number value span).sexpr file
            (.number (Node.number value span).sexpr) (.number value span') ∧
          (Node.number value span').sexpr = (Node.number value span).sexpr) ∧
      (denoted digits ≤ 2 ^ 53 → (Node.number value span).sexpr = (denoted digits).repr) ∧
      (value.isInfinite = true → (Node.number value span).sexpr = "inf" ∧
        ∃ span', IsReadAs "inf" file (.identifier "inf") (.var "inf" span')) ∧
      (∀ zeros, IsValueOf (String.ofList (List.replicate zeros '0' ++ digits.toList)) value) ∧
      ∀ larger : String, larger.toList ≠ [] → (∀ c ∈ larger.toList, c.isDigit = true) →
        denoted digits ≤ denoted larger →
        ∃ value', IsValueOf larger value' ∧ IsNearest value' (denoted larger) ∧
          value.size ≤ value'.size := by
  obtain ⟨span, hread⟩ := isReadAs_number hne hdigits file
  refine ⟨_, span, isValueOf_ofNat hne hdigits, hread, isNearest_ofNat _, fun hfinite => ?_,
    Binary64.text_ofNat_of_le, fun hinfinite => ?_, fun zeros => ?_,
    fun larger hne' hdigits' hle => ?_⟩
  · obtain ⟨m, htext, hsame⟩ := Binary64.exists_text_ofNat hfinite
    have hnumeral := isNumeral_repr m
    obtain ⟨span', hread'⟩ := isReadAs_number hnumeral.ne_nil hnumeral.digits file
    rw [denoted_repr, hsame, ← htext] at hread'
    rw [← htext] at hnumeral
    exact ⟨hnumeral, span', hread', rfl⟩
  · obtain ⟨hsign, hnumber⟩ := Binary64.ofNat_parts (denoted digits)
    refine ⟨?_, isReadAs_var ⟨⟨'i', ['n', 'f'], rfl, rfl, List.all_eq_true.mp rfl⟩, by decide⟩ file⟩
    rw [Node.sexpr, Binary64.text, hnumber, hinfinite, hsign]
    rfl
  · rw [← denoted_zeros zeros]
    refine isValueOf_ofNat (by simp [hne]) ?_
    rw [String.toList_ofList, List.forall_mem_append]
    refine ⟨fun c hc => ?_, hdigits⟩
    rw [(List.mem_replicate.mp hc).2]
    decide
  · exact ⟨_, isValueOf_ofNat hne' hdigits', isNearest_ofNat _, Binary64.size_ofNat_mono hle⟩

/-- The case of the first natural number that is no floating-point number. It goes to the even
one of its two neighbours, which is written and read back. -/
theorem number_reads_back_of_tie :
    "9007199254740993".toList ≠ [] ∧ (∀ c ∈ "9007199254740993".toList, c.isDigit = true) ∧
    IsValueOf "9007199254740993" ⟨0x4340000000000000⟩ ∧
    IsValueOf "009007199254740993" ⟨0x4340000000000000⟩ ∧
    IsNumeral "9007199254740992" ∧
    ∃ span, IsReadAs "9007199254740992" none (.number "9007199254740992")
      (.number ⟨0x4340000000000000⟩ span) := by
  have hne : "9007199254740993".toList ≠ [] := by decide
  have hdigits : ∀ c ∈ "9007199254740993".toList, c.isDigit = true :=
    List.all_eq_true.mp (by decide)
  obtain ⟨value, span, hvalue, hread, -, hfinite, -, -, hzeros, -⟩ :=
    number_reads_back "9007199254740993" none hne hdigits
  obtain ⟨_, hread'⟩ := isReadAs_number hne hdigits none
  have hsame := hread.outcome.symm.trans hread'.outcome
  simp only [Except.ok.injEq, List.cons.injEq, Node.number.injEq] at hsame
  have hbits : Binary64.ofNat (denoted "9007199254740993") = ⟨0x4340000000000000⟩ := by
    decide +kernel
  obtain rfl : value = ⟨0x4340000000000000⟩ := hsame.1.1.trans hbits
  have htext : (Node.number ⟨0x4340000000000000⟩ span).sexpr = "9007199254740992" := by
    rw [Node.sexpr]
    decide +kernel
  obtain ⟨hnumeral, span', hread', -⟩ := hfinite (by decide)
  rw [htext] at hnumeral hread'
  exact ⟨hne, hdigits, hvalue, hzeros 2, hnumeral, span', hread'⟩

end ExprLang
