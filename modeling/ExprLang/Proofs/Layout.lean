import ExprLang.Proofs.Reading
import ExprLang.Proofs.Tiling

/-!
Tokens written out. Blanks may stand between any two tokens, and they have to
where the two would be read as one: between a word and a word or a number, and
between two numbers. A text written so is split into the tokens that were written.
-/
namespace ExprLang

open Token.Kind (mark)

structure IsName (name : String) : Prop where
  begins : ∃ c cs, name.toList = c :: cs ∧ c.isAlpha = true ∧ ∀ d ∈ cs, d.isAlphanum = true
  free : name ≠ "def" ∧ name ≠ "extern"

def symbolChars : List Char := ['(', ')', '+', '-', '*', ',', '.']

theorem isSymbolChar_iff {c : Char} : isSymbolChar c = true ↔ c ∈ symbolChars := by
  simp [isSymbolChar, symbolChars]

namespace Token.Kind

inductive IsLegal : Token.Kind → Prop
  | define : IsLegal .define
  | declare : IsLegal .declare
  | identifier {name : String} (hname : IsName name) : IsLegal (.identifier name)
  | number {digits : String} (hne : digits.toList ≠ [])
      (hdigits : ∀ c ∈ digits.toList, c.isDigit = true) : IsLegal (.number digits)
  | mark {c : Char} (hc : c ∈ symbolChars) : IsLegal (mark c)

def isWord : Token.Kind → Bool
  | define | declare | identifier _ => true
  | _ => false

def isNumber : Token.Kind → Bool
  | number _ => true
  | _ => false

/-- Whether two tokens with nothing between them are read as something else. -/
def joins (first second : Token.Kind) : Bool :=
  first.isWord && (second.isWord || second.isNumber) || first.isNumber && second.isNumber

/-- A token written in front of a text does not go on into it. -/
def StopsAt (kind : Token.Kind) (text : List Char) : Prop :=
  ∀ c ∈ text.head?, (kind.isWord = true → c.isAlphanum = false) ∧
    (kind.isNumber = true → c.isDigit = false)

end Token.Kind

/-- The tokens written one after another, behind the token before them if there is
one. -/
inductive LaidOut : Option Token.Kind → List Token.Kind → List Char → Prop
  | finish {before blanks} (hblanks : ∀ c ∈ blanks, isBlank c = true) : LaidOut before [] blanks
  | token {before blanks kind kinds text} (hblanks : ∀ c ∈ blanks, isBlank c = true)
      (hapart : ∀ first ∈ before, first.joins kind = true → blanks ≠ [])
      (hrest : LaidOut (some kind) kinds text) :
      LaidOut before (kind :: kinds) (blanks ++ (kind.spelling.toList ++ text))

section Characters

/-- A symbol is neither a letter nor a digit. -/
theorem not_alphanum_of_mem_symbolChars {c : Char} (hc : c ∈ symbolChars) :
    c.isAlphanum = false ∧ c.isAlpha = false ∧ c.isDigit = false := by
  simp only [symbolChars, List.mem_cons, List.not_mem_nil, or_false] at hc
  rcases hc with rfl | rfl | rfl | rfl | rfl | rfl | rfl <;> decide

/-- A digit is no letter. -/
theorem isAlpha_of_isDigit {c : Char} (hc : c.isDigit = true) : c.isAlpha = false := by
  have hnine : c.toNat ≤ 57 := (Char.isDigit_iff_toNat.mp hc).2
  have hupper : ¬ 'A'.val ≤ c.val := by
    intro hle
    have hle' : 65 ≤ c.toNat := UInt32.le_iff_toNat_le.mp hle
    omega
  have hlower : ¬ 'a'.val ≤ c.val := by
    intro hle
    have hle' : 97 ≤ c.toNat := UInt32.le_iff_toNat_le.mp hle
    omega
  show (decide ('A'.val ≤ c.val ∧ c.val ≤ 'Z'.val) ||
    (decide ('a'.val ≤ c.val) && decide (c.val ≤ 'z'.val))) = false
  rw [decide_eq_false fun h => hupper h.1, decide_eq_false hlower, Bool.false_and, Bool.or_false]

theorem not_alphanum_of_isBlank {c : Char} (hc : isBlank c = true) :
    c.isAlphanum = false ∧ c.isDigit = false := by
  simp only [isBlank_iff, List.mem_cons, List.not_mem_nil, or_false] at hc
  rcases hc with rfl | rfl | rfl | rfl <;> decide

end Characters

namespace Token.Kind

variable {kind : Token.Kind} {text : List Char}

/-- A word is read up to the first character that is no letter and no digit. -/
theorem munch?_word {word : String} {c : Char} {cs : List Char} (hword : word.toList = c :: cs)
    (hc : c.isAlpha = true) (hcs : ∀ d ∈ cs, d.isAlphanum = true)
    (htext : ∀ d ∈ text.head?, d.isAlphanum = false) :
    munch? (word.toList ++ text) = some (ofWord word, text) := by
  have hspelled : String.ofList (c :: cs) = word := by
    rw [← hword, String.ofList_toList]
  rw [hword, List.cons_append]
  simp only [munch?, hc, if_true, takeWhile_run hcs htext, dropWhile_run hcs htext, hspelled]

theorem munch?_number {digits : String} (hne : digits.toList ≠ [])
    (hdigits : ∀ c ∈ digits.toList, c.isDigit = true)
    (htext : ∀ d ∈ text.head?, d.isDigit = false) :
    munch? (digits.toList ++ text) = some (.number digits, text) := by
  obtain ⟨c, cs, hcs⟩ := List.exists_cons_of_ne_nil hne
  rw [hcs] at hdigits
  obtain ⟨hc, hrun⟩ := List.forall_mem_cons.mp hdigits
  have hspelled : String.ofList (c :: cs) = digits := by
    rw [← hcs, String.ofList_toList]
  have halpha := isAlpha_of_isDigit hc
  rw [hcs, List.cons_append]
  simp only [munch?, halpha, hc, if_true, Bool.false_eq_true, if_false, takeWhile_run hrun htext,
    dropWhile_run hrun htext, hspelled]

theorem munch?_mark {c : Char} (hc : c ∈ symbolChars) :
    munch? ((mark c).spelling.toList ++ text) = some (mark c, text) := by
  obtain ⟨-, halpha, hdigit⟩ := not_alphanum_of_mem_symbolChars hc
  simp [mark, spelling, munch?, halpha, hdigit, isSymbolChar_iff.mpr hc]

/-- A token that can be written is read back in front of a text that it does not go
on into. -/
theorem IsLegal.munch? (h : kind.IsLegal) (htext : kind.StopsAt text) :
    munch? (kind.spelling.toList ++ text) = some (kind, text) := by
  have hword : kind.isWord = true → ∀ d ∈ text.head?, d.isAlphanum = false :=
    fun hkind d hd => (htext d hd).1 hkind
  have hnumber : kind.isNumber = true → ∀ d ∈ text.head?, d.isDigit = false :=
    fun hkind d hd => (htext d hd).2 hkind
  cases h with
  | define =>
    have hspelled : "def".toList = 'd' :: ['e', 'f'] := rfl
    exact munch?_word hspelled (by decide) (by simp) (hword rfl)
  | declare =>
    have hspelled : "extern".toList = 'e' :: ['x', 't', 'e', 'r', 'n'] := rfl
    exact munch?_word hspelled (by decide) (by simp) (hword rfl)
  | @identifier name hname =>
    obtain ⟨c, cs, hcs, hc, hrun⟩ := hname.begins
    have hfree : ofWord name = .identifier name := by
      unfold ofWord reserved?
      split
      · exact absurd rfl hname.free.1
      · exact absurd rfl hname.free.2
      · rfl
    rw [← hfree]
    rw [spelling_ofWord]
    exact munch?_word hcs hc hrun (hword rfl)
  | number hne hdigits => exact munch?_number hne hdigits (hnumber rfl)
  | mark hc => exact munch?_mark hc

/-- What is read off a text can be written, and it does not go on into the rest. -/
theorem isLegal_of_munch? {rest : List Char} (h : Kind.munch? text = some (kind, rest)) :
    kind.IsLegal ∧ kind.StopsAt rest := by
  cases text with
  | nil => cases h
  | cons c cs =>
    simp only [Kind.munch?] at h
    split at h
    · next halpha =>
      obtain ⟨rfl, rfl⟩ := Prod.mk.inj (Option.some.inj h)
      have hstops : ∀ d ∈ (cs.dropWhile Char.isAlphanum).head?, d.isAlphanum = false := by
        intro d hd
        have hnot := List.head?_dropWhile_not Char.isAlphanum cs
        rwa [hd] at hnot
      refine ⟨?_, fun d hd => ⟨fun _ => hstops d hd, fun _ => ?_⟩⟩
      · unfold ofWord reserved?
        split
        · exact .define
        · exact .declare
        · next hdef hextern =>
          refine .identifier ⟨⟨c, _, String.toList_ofList, halpha, fun d hd => ?_⟩, hdef, hextern⟩
          exact List.mem_takeWhile_imp hd
      · exact (Bool.or_eq_false_iff.mp (hstops d hd)).2
    · split at h
      · next hdigit =>
        obtain ⟨rfl, rfl⟩ := Prod.mk.inj (Option.some.inj h)
        refine ⟨.number (by simp) ?_, fun d hd => ⟨by simp [isWord], fun _ => ?_⟩⟩
        · simpa [hdigit] using fun d hd => List.mem_takeWhile_imp hd
        · have hnot := List.head?_dropWhile_not Char.isDigit cs
          rwa [hd] at hnot
      · split at h
        · next hsymbol =>
          obtain ⟨rfl, rfl⟩ := Prod.mk.inj (Option.some.inj h)
          exact ⟨.mark (isSymbolChar_iff.mp hsymbol), fun d hd => by simp [isWord, isNumber]⟩
        · cases h

/-- What a token begins with tells words, numbers and symbols apart. -/
theorem IsLegal.begins (h : kind.IsLegal) : ∃ c cs, kind.spelling.toList = c :: cs ∧
    (c.isAlphanum = true → kind.isWord = true ∨ kind.isNumber = true) ∧
    (c.isDigit = true → kind.isNumber = true) := by
  cases h with
  | define => exact ⟨'d', ['e', 'f'], by decide, fun _ => Or.inl rfl, by decide⟩
  | declare => exact ⟨'e', ['x', 't', 'e', 'r', 'n'], by decide, fun _ => Or.inl rfl, by decide⟩
  | identifier hname =>
    obtain ⟨c, cs, hcs, hc, -⟩ := hname.begins
    refine ⟨c, cs, hcs, fun _ => Or.inl rfl, fun hdigit => ?_⟩
    rw [isAlpha_of_isDigit hdigit] at hc
    cases hc
  | number hne hdigits =>
    obtain ⟨c, cs, hcs⟩ := List.exists_cons_of_ne_nil hne
    exact ⟨c, cs, hcs, fun _ => Or.inr rfl, fun _ => rfl⟩
  | @mark c hc =>
    obtain ⟨halphanum, -, hdigit⟩ := not_alphanum_of_mem_symbolChars hc
    refine ⟨c, [], by simp [Kind.mark, spelling], fun h => ?_, fun h => ?_⟩
    · rw [halphanum] at h
      cases h
    · rw [hdigit] at h
      cases h

end Token.Kind

namespace LaidOut

variable {before : Option Token.Kind} {kind : Token.Kind} {kinds : List Token.Kind}
  {text : List Char}

/-- Tokens that are not read as one may touch. -/
theorem touch (hapart : ∀ first ∈ before, first.joins kind = false)
    (hrest : LaidOut (some kind) kinds text) :
    LaidOut before (kind :: kinds) (kind.spelling.toList ++ text) := by
  have hblanks : ∀ c ∈ ([] : List Char), isBlank c = true := by simp
  have hfree : ∀ first ∈ before, first.joins kind = true → ([] : List Char) ≠ [] := by
    intro first hfirst hjoins
    rw [hapart first hfirst] at hjoins
    cases hjoins
  exact .token hblanks hfree hrest

/-- Behind a token stands a blank, the end, or a token that it does not join. -/
theorem stopsAt (h : LaidOut (some kind) kinds text) (hlegal : ∀ next ∈ kinds, next.IsLegal) :
    kind.StopsAt text := by
  generalize hbefore : some kind = before at h
  intro c hc
  cases h with
  | finish hblanks =>
    obtain ⟨halphanum, hdigit⟩ := not_alphanum_of_isBlank (hblanks c (List.mem_of_head? hc))
    exact ⟨fun _ => halphanum, fun _ => hdigit⟩
  | @token _ blanks next kinds text hblanks hapart hrest =>
    cases blanks with
    | cons blank blanks =>
      obtain rfl : blank = c := by simpa using hc
      obtain ⟨halphanum, hdigit⟩ := not_alphanum_of_isBlank (hblanks blank (List.mem_cons_self ..))
      exact ⟨fun _ => halphanum, fun _ => hdigit⟩
    | nil =>
      have hfree : kind.joins next = false := by
        cases hjoins : kind.joins next with
        | false => rfl
        | true => exact absurd rfl (hapart kind hbefore.symm hjoins)
      obtain ⟨first, cs, hcs, halphanum, hdigit⟩ := (hlegal next (List.mem_cons_self ..)).begins
      obtain rfl : first = c := by simpa [hcs] using hc
      simp only [Token.Kind.joins, Bool.or_eq_false_iff, Bool.and_eq_false_iff] at hfree
      obtain ⟨hword, hnumber⟩ := hfree
      constructor
      · intro hkind
        rw [hkind] at hword
        obtain ⟨hnextWord, hnextNumber⟩ := hword.resolve_left (by simp)
        apply Bool.eq_false_iff.mpr
        intro hfirst
        rcases halphanum hfirst with h | h
        · exact absurd h (by simp [hnextWord])
        · exact absurd h (by simp [hnextNumber])
      · intro hkind
        rw [hkind] at hnumber
        have hnextNumber := hnumber.resolve_left (by simp)
        apply Bool.eq_false_iff.mpr
        intro hfirst
        exact absurd (hdigit hfirst) (by simp [hnextNumber])

/-- Tokens that are written out are a division of their text. -/
theorem exists_tiles (h : LaidOut before kinds text) (hlegal : ∀ kind ∈ kinds, kind.IsLegal)
    (file : String) (offset : Nat) : ∃ tokens final, Tiles file offset text tokens (.ok final) ∧
      tokens.map Token.kind = kinds := by
  induction h generalizing offset with
  | finish hblanks => exact ⟨[], _, .finish hblanks, rfl⟩
  | @token before blanks kind kinds text hblanks hapart hrest ih =>
    obtain ⟨hkind, hkinds⟩ := List.forall_mem_cons.mp hlegal
    have hmunch := hkind.munch? (hrest.stopsAt hkinds)
    obtain ⟨tokens, final, htiles, htokens⟩ :=
      ih hkinds (offset + blanks.length + kind.spelling.length)
    exact ⟨_, final, .token hblanks hmunch htiles, by rw [List.map_cons, htokens]; rfl⟩

/-- A text is split into the tokens that were written. -/
theorem exists_tokenize {source : String} (h : LaidOut none kinds source.toList)
    (hlegal : ∀ kind ∈ kinds, kind.IsLegal) (file : Option String) : ∃ tokens final,
      tokenize source file = .ok (tokens ++ [final]) ∧ tokens.map Token.kind = kinds := by
  let lexer := Lexer.ofSource source file
  obtain ⟨tokens, final, htiles, htokens⟩ := h.exists_tiles hlegal lexer.file lexer.offset
  obtain ⟨hall, hlast⟩ := (Lexer.tiles lexer rfl).unique htiles
  have hsplit := tokenize_eq source file _ _ rfl
  refine ⟨tokens, final, ?_, htokens⟩
  rw [hsplit, hall, hlast]
  rfl

end LaidOut

end ExprLang
