import ExprLang.Proofs.Alphabet
import Mathlib.Data.List.Chain

/-!
Separators. Tokens written one after another, each with some blanks in front of it,
always make a text that can be split into tokens. They are the tokens that were
written if and only if none of them runs into the next: a word that touches a word
or a number is read on into it, and so is a number that touches a number.
-/
namespace ExprLang

/-- Tokens one after another, each behind the blanks given with it, and blanks behind
all of them. -/
def written (pieces : List (String × Token.Kind)) (behind : String) : String :=
  String.join (pieces.map fun piece => piece.1 ++ piece.2.spelling) ++ behind

def IsSeparated (pieces : List (String × Token.Kind)) : Prop :=
  pieces.IsChain fun first second => first.2.joins second.2 = true → second.1 ≠ ""

section Characters

variable {pieces : List (String × Token.Kind)} {behind : String}

theorem toList_written_nil : (written [] behind).toList = behind.toList := by
  simp [written]

theorem toList_written_cons (piece : String × Token.Kind) :
    (written (piece :: pieces) behind).toList =
      piece.1.toList ++ (piece.2.spelling.toList ++ (written pieces behind).toList) := by
  simp [written, String.toList_append]

/-- What is written is of the alphabet. -/
theorem isLegalChar_written (hlegal : ∀ piece ∈ pieces, piece.2.IsLegal)
    (hblank : ∀ piece ∈ pieces, ∀ c ∈ piece.1.toList, isBlank c = true)
    (hbehind : ∀ c ∈ behind.toList, isBlank c = true) :
    ∀ c ∈ (written pieces behind).toList, isLegalChar c = true := by
  induction pieces with
  | nil =>
    rw [toList_written_nil]
    exact Tiles.isLegalChar_of_blanks hbehind
  | cons piece pieces ih =>
    obtain ⟨hkind, hkinds⟩ := List.forall_mem_cons.mp hlegal
    obtain ⟨hfirst, hrest⟩ := List.forall_mem_cons.mp hblank
    rw [toList_written_cons]
    simp only [List.forall_mem_append]
    exact ⟨Tiles.isLegalChar_of_blanks hfirst, hkind.isLegalChar_spelling, ih hkinds hrest⟩

/-- A text of the alphabet can be split into tokens, which divide it up to its end. -/
theorem exists_tiles_of_isLegalChar {source : String}
    (h : ∀ c ∈ source.toList, isLegalChar c = true) (file : Option String) : ∃ tokens final,
      Tiles (file.getD Lexer.defaultFile) 0 source.toList tokens (.ok final) ∧
      tokenize source file = .ok (tokens ++ [final]) ∧ final.kind = .endOfInput := by
  have htiles := Lexer.tiles_ofSource source file
  have hsplit := tokenize_eq source file _ _ rfl
  generalize (Lexer.ofSource source file).stream.tokens = tokens at htiles hsplit
  generalize (Lexer.ofSource source file).stream.last = last at htiles hsplit
  cases last with
  | ok final => exact ⟨tokens, final, htiles, hsplit, by rw [htiles.final_eq]; rfl⟩
  | error error =>
    obtain ⟨before, c, after, htext, -, hc, -⟩ := htiles.exists_of_error
    rw [h c (by simp [htext])] at hc
    cases hc

end Characters

namespace Token.Kind

variable {kind first second : Token.Kind}

theorem IsLegal.begins_word (h : kind.IsLegal) (hword : kind.isWord = true) :
    ∃ c cs, kind.spelling.toList = c :: cs ∧ c.isAlphanum = true := by
  cases h with
  | define => exact ⟨'d', ['e', 'f'], by decide, by decide⟩
  | declare => exact ⟨'e', ['x', 't', 'e', 'r', 'n'], by decide, by decide⟩
  | identifier hname =>
    obtain ⟨c, cs, hcs, hc, -⟩ := hname.begins
    exact ⟨c, cs, hcs, by simp [Char.isAlphanum, hc]⟩
  | number | mark => cases hword

theorem IsLegal.begins_number (h : kind.IsLegal) (hnumber : kind.isNumber = true) :
    ∃ c cs, kind.spelling.toList = c :: cs ∧ c.isDigit = true := by
  cases h with
  | number hne hdigits =>
    obtain ⟨c, cs, hcs⟩ := List.exists_cons_of_ne_nil hne
    exact ⟨c, cs, hcs, hdigits c (by simp [hcs])⟩
  | define | declare | identifier | mark => cases hnumber

/-- A token that touching would join to the next one goes on into it. -/
theorem not_stopsAt_of_joins (hlegal : second.IsLegal) (hjoins : first.joins second = true)
    (text : List Char) : ¬ first.StopsAt (second.spelling.toList ++ text) := by
  intro hstops
  simp only [joins, Bool.or_eq_true, Bool.and_eq_true] at hjoins
  rcases hjoins with ⟨hfirst, hword | hnumber⟩ | ⟨hfirst, hnumber⟩
  · obtain ⟨c, cs, hcs, hc⟩ := hlegal.begins_word hword
    have hstop := (hstops c (by simp [hcs])).1 hfirst
    rw [hc] at hstop
    cases hstop
  · obtain ⟨c, cs, hcs, hc⟩ := hlegal.begins_number hnumber
    have hstop := (hstops c (by simp [hcs])).1 hfirst
    simp [Char.isAlphanum, hc] at hstop
  · obtain ⟨c, cs, hcs, hc⟩ := hlegal.begins_number hnumber
    have hstop := (hstops c (by simp [hcs])).2 hfirst
    rw [hc] at hstop
    cases hstop

end Token.Kind

/-- If a written text is divided into the tokens that were written, they are
separated. -/
theorem Tiles.isSeparated {pieces : List (String × Token.Kind)} {behind file : String}
    {offset : Nat} {tokens : List Token} {last : Except LexicalError Token}
    (hlegal : ∀ piece ∈ pieces, piece.2.IsLegal)
    (hblank : ∀ piece ∈ pieces, ∀ c ∈ piece.1.toList, isBlank c = true)
    (h : Tiles file offset (written pieces behind).toList tokens last)
    (htokens : tokens.map Token.kind = pieces.map Prod.snd) : IsSeparated pieces := by
  induction pieces generalizing offset tokens with
  | nil => exact List.isChain_nil
  | cons piece pieces ih =>
    obtain ⟨hkind, hkinds⟩ := List.forall_mem_cons.mp hlegal
    obtain ⟨hfirst, hrest⟩ := List.forall_mem_cons.mp hblank
    rw [toList_written_cons] at h
    generalize hwhole : piece.1.toList ++ _ = whole at h
    cases h with
    | finish | stuck => simp at htokens
    | @token _ blanks text kind rest tokens last hblanks hmunch hdivided =>
      obtain ⟨hread, htail⟩ := List.cons.inj htokens
      obtain rfl : kind = piece.2 := hread
      -- the tokens are the same, so the text behind them is the same
      have hbegins : ∀ c ∈ (piece.2.spelling.toList ++ (written pieces behind).toList).head?,
          isBlank c = false := by
        obtain ⟨htext, hne⟩ := Token.Kind.munch?_eq_some _ _ _ hmunch
        have hhead := Token.Kind.isBlank_of_munch? hmunch
        obtain ⟨c, cs, hcs⟩ := List.exists_cons_of_ne_nil hne
        simpa [htext, hcs] using hhead
      obtain ⟨-, rfl⟩ := run_inj hfirst hblanks hbegins
        (Token.Kind.isBlank_of_munch? hmunch) hwhole
      obtain ⟨htext, -⟩ := Token.Kind.munch?_eq_some _ _ _ hmunch
      obtain rfl := List.append_cancel_left htext
      have hstops := (Token.Kind.isLegal_of_munch? hmunch).2
      have hchain := ih hkinds hrest hdivided htail
      cases pieces with
      | nil => exact List.isChain_singleton _
      | cons next pieces =>
        refine List.isChain_cons_cons.mpr ⟨fun hjoins hnone => ?_, hchain⟩
        rw [toList_written_cons, hnone] at hstops
        exact Token.Kind.not_stopsAt_of_joins (hkinds next (List.mem_cons_self ..)) hjoins _ hstops

/-- Separated tokens are laid out as the lexer needs them. -/
theorem IsSeparated.laidOut {pieces : List (String × Token.Kind)} {behind : String}
    {before : Option Token.Kind} (h : IsSeparated pieces)
    (hblank : ∀ piece ∈ pieces, ∀ c ∈ piece.1.toList, isBlank c = true)
    (hbehind : ∀ c ∈ behind.toList, isBlank c = true)
    (hapart : ∀ first ∈ before, ∀ next ∈ pieces.head?, first.joins next.2 = true → next.1 ≠ "") :
    LaidOut before (pieces.map Prod.snd) (written pieces behind).toList := by
  induction pieces generalizing before with
  | nil =>
    rw [toList_written_nil]
    exact .finish hbehind
  | cons piece pieces ih =>
    obtain ⟨hfirst, hrest⟩ := List.forall_mem_cons.mp hblank
    obtain ⟨hnext, hchain⟩ := List.isChain_cons.mp h
    rw [toList_written_cons]
    refine .token hfirst (fun first hbefore hjoins hnone => ?_) (ih hchain hrest ?_)
    · refine hapart first hbefore piece rfl hjoins (String.toList_eq_nil_iff.mp hnone)
    · rintro first ⟨⟩ next hmem
      exact hnext next hmem

/-- Writing tokens and splitting the text. Tokens that can be written, with any blanks in
front of each and behind all of them, make a text that can be split into tokens. What
it is split into is what was written, with the end of the input behind it, if and
only if blanks stand between any two neighbours of which the first is a word and the
second a word or a number, or of which both are numbers. -/
theorem tokenize_written_iff (pieces : List (String × Token.Kind)) (behind : String)
    (file : Option String) (hlegal : ∀ piece ∈ pieces, piece.2.IsLegal)
    (hblank : ∀ piece ∈ pieces, ∀ c ∈ piece.1.toList, isBlank c = true)
    (hbehind : ∀ c ∈ behind.toList, isBlank c = true) :
    ∃ tokens, tokenize (written pieces behind) file = .ok tokens ∧
      (tokens.map Token.kind = pieces.map Prod.snd ++ [.endOfInput] ↔ IsSeparated pieces) := by
  obtain ⟨tokens, final, htiles, hsplit, hfinal⟩ :=
    exists_tiles_of_isLegalChar (isLegalChar_written hlegal hblank hbehind) file
  refine ⟨tokens ++ [final], hsplit, ?_⟩
  rw [List.map_append, List.map_singleton, hfinal, List.append_left_inj]
  constructor
  · intro htokens
    exact htiles.isSeparated hlegal hblank htokens
  · intro hseparated
    have hlaid : LaidOut none (pieces.map Prod.snd) (written pieces behind).toList :=
      hseparated.laidOut hblank hbehind (by simp)
    obtain ⟨tokens', final', hsplit', hkinds⟩ :=
      hlaid.exists_tokenize (List.forall_mem_map.mpr hlegal) file
    rw [hsplit] at hsplit'
    obtain ⟨rfl, -⟩ := List.append_inj' (Except.ok.inj hsplit') rfl
    exact hkinds

/-- The case of a reserved word that touches a number: the text is one identifier and a
parenthesis. -/
theorem tokenize_written_iff_of_def1 :
    (∀ piece ∈ [("", Token.Kind.define), ("", .number "1"), (" ", .mark '(')],
      piece.2.IsLegal ∧ ∀ c ∈ piece.1.toList, isBlank c = true) ∧
    (∀ c ∈ "\n".toList, isBlank c = true) ∧
    ¬ IsSeparated [("", Token.Kind.define), ("", .number "1"), (" ", .mark '(')] ∧
    ∃ tokens, tokenize "def1 (\n" none = .ok tokens ∧
      tokens.map Token.kind ≠ [.define, .number "1", .mark '(', .endOfInput] := by
  have hpieces : ∀ piece ∈ [("", Token.Kind.define), ("", .number "1"), (" ", .mark '(')],
      piece.2.IsLegal ∧ ∀ c ∈ piece.1.toList, isBlank c = true := by
    simp only [List.forall_mem_cons, List.not_mem_nil, false_imp_iff, implies_true, and_true]
    exact ⟨⟨.define, List.all_eq_true.mp (by decide)⟩,
      ⟨.number (by decide) (List.all_eq_true.mp (by decide)), List.all_eq_true.mp (by decide)⟩,
      ⟨.mark (by decide), List.all_eq_true.mp (by decide)⟩⟩
  have hbehind : ∀ c ∈ "\n".toList, isBlank c = true := List.all_eq_true.mp (by decide)
  have hjoined : ¬ IsSeparated [("", Token.Kind.define), ("", .number "1"), (" ", .mark '(')] := by
    intro hseparated
    exact (List.isChain_cons_cons.mp hseparated).1 (by decide) rfl
  obtain ⟨tokens, hsplit, hiff⟩ := tokenize_written_iff
    [("", .define), ("", .number "1"), (" ", .mark '(')] "\n" none
    (fun piece hpiece => (hpieces piece hpiece).1) (fun piece hpiece => (hpieces piece hpiece).2)
    hbehind
  exact ⟨hpieces, hbehind, hjoined, tokens, hsplit, fun htokens => hjoined (hiff.mp htokens)⟩

end ExprLang
