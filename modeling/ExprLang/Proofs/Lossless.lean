import ExprLang.Proofs.Accounts
import ExprLang.Proofs.Alphabet
import Mathlib.Data.List.Chain

/-!
Tokens against the bytes of their source. Splitting a source loses nothing: the
bytes at the span of a token are its text, and between the spans stand blanks.
There is one list of tokens with longest words and numbers of which this is true.
-/
namespace ExprLang

structure Token.IsIn (whole : List UInt8) (file : String) (token : Token) : Prop where
  file_start : token.span.start.file = file
  file_stop : token.span.stop.file = file
  legal : token.kind.IsLegal
  nonempty : token.span.start.offset < token.span.stop.offset
  text : whole.extract token.span.start.offset.toNat token.span.stop.offset.toNat =
    bytes token.kind.spelling
  longest : token.kind.StopsAt ((whole.drop token.span.stop.offset.toNat).map Char.ofUInt8)

structure Token.IsEndOf (whole : List UInt8) (file : String) (token : Token) : Prop where
  kind_eq : token.kind = .endOfInput
  file_start : token.span.start.file = file
  file_stop : token.span.stop.file = file
  start_eq : token.span.start.offset.toNat = whole.length
  stop_eq : token.span.stop.offset.toNat = whole.length

structure Span.Precedes (whole : List UInt8) (first second : Span) : Prop where
  le : first.stop.offset ≤ second.start.offset
  blank : ∀ byte ∈ whole.extract first.stop.offset.toNat second.start.offset.toNat,
    isBlank (Char.ofUInt8 byte) = true

structure DividesFrom (whole : List UInt8) (file : String) (before : Span) (tokens : List Token)
    (final : Token) : Prop where
  isIn : ∀ token ∈ tokens, token.IsIn whole file
  isEnd : final.IsEndOf whole file
  gaps : List.IsChain (Span.Precedes whole) (before :: (tokens ++ [final]).map Token.span)

/-- A list of tokens that loses nothing of the source: ordinary tokens from its start on,
the end of the input behind them, and only blanks besides. -/
def IsLossless (source file : String) (all : List Token) : Prop :=
  ∃ tokens final, all = tokens ++ [final] ∧
    DividesFrom (bytes source) file ⟨⟨0, file⟩, ⟨0, file⟩⟩ tokens final

section Extracts

variable {α β : Type}

/-- A piece of a text is what stands between its two ends. -/
theorem extract_map_append (f : α → β) (front piece rest : List α) :
    ((front ++ (piece ++ rest)).map f).extract front.length (front.length + piece.length) =
      piece.map f := by
  rw [List.extract_eq_take_drop, ← List.map_drop, List.drop_left, ← List.map_take,
    Nat.add_sub_cancel_left, List.take_left]

/-- A text can be cut at any place behind its front. -/
theorem drop_eq_extract_append (whole : List α) {start stop : Nat} (h : start ≤ stop) :
    whole.drop start = whole.extract start stop ++ whole.drop stop := by
  conv => lhs; rw [← List.take_append_drop (stop - start) (whole.drop start)]
  rw [List.drop_drop, Nat.add_sub_cancel' h]

theorem length_extract (whole : List α) {start stop : Nat} (h : stop ≤ whole.length) :
    (whole.extract start stop).length = stop - start := by
  rw [List.extract_eq_take_drop, List.length_take, List.length_drop]
  omega

end Extracts

/-- The bytes of a token are the codes of its characters. -/
theorem Token.Kind.IsLegal.bytes_spelling {kind : Token.Kind} (h : kind.IsLegal) :
    bytes kind.spelling = kind.spelling.toList.map Char.toUInt8 :=
  bytes_of_isLegalChar h.isLegalChar_spelling

section Pieces

variable {file : String} {kind : Token.Kind}

/-- Between a span that ends in front of blanks and one that starts behind them stand
these blanks. -/
theorem precedes_of_blanks (front : List Char) {blanks : List Char} (rest : List Char)
    (hblanks : ∀ c ∈ blanks, isBlank c = true) {first second : Span}
    (hfirst : first.stop.offset.toNat = front.length)
    (hsecond : second.start.offset.toNat = front.length + blanks.length) :
    first.Precedes ((front ++ (blanks ++ rest)).map Char.toUInt8) second where
  le := by
    rw [UInt32.le_iff_toNat_le]
    omega
  blank byte hbyte := by
    rw [hfirst, hsecond, extract_map_append] at hbyte
    obtain ⟨c, hc, rfl⟩ := List.mem_map.mp hbyte
    have hlegal : isLegalChar c = true := by simp [isLegalChar, hblanks c hc]
    rw [ofUInt8_toUInt8 (toNat_lt_of_isLegalChar hlegal)]
    exact hblanks c hc

/-- A token is where it is written, unless it goes on into the text behind it. -/
theorem isIn_placed (front : List Char) {rest : List Char} (hkind : kind.IsLegal)
    (hstops : kind.StopsAt rest) (hrest : ∀ c ∈ rest, isLegalChar c = true)
    (hsize : front.length + kind.spelling.length < UInt32.size) :
    (Token.placed file front.length kind).IsIn
      ((front ++ (kind.spelling.toList ++ rest)).map Char.toUInt8) file := by
  have hstart := Token.start_placed file front.length kind (by omega)
  have hstop : (Token.placed file front.length kind).span.stop.offset.toNat =
      front.length + kind.spelling.length :=
    UInt32.toNat_ofNat_of_lt' hsize
  obtain ⟨c, cs, hspelled, -⟩ := hkind.begins
  have hpositive : 0 < kind.spelling.length := by
    rw [← String.length_toList, hspelled]
    exact Nat.succ_pos _
  refine ⟨rfl, rfl, hkind, ?_, ?_, ?_⟩
  · rw [UInt32.lt_iff_toNat_lt]
    omega
  · rw [hstart, hstop, ← String.length_toList, extract_map_append]
    exact hkind.bytes_spelling.symm
  · have hlength : front.length + kind.spelling.length =
        (front ++ kind.spelling.toList).length := by
      rw [List.length_append, String.length_toList]
    rw [hstop, hlength, ← List.append_assoc, ← List.map_drop, List.drop_left,
      map_ofUInt8_toUInt8 fun c hc => toNat_lt_of_isLegalChar (hrest c hc)]
    exact hstops

end Pieces

namespace Tiles

variable {file : String} {offset : Nat} {text : List Char} {tokens : List Token} {final : Token}

/-- A division of a text loses nothing of it. -/
theorem dividesFrom (h : Tiles file offset text tokens (.ok final)) (front : List Char)
    (before : Span) (hfront : front.length = offset) (hbefore : before.stop.offset.toNat = offset)
    (hsize : offset + text.length < UInt32.size) (hlegal : ∀ c ∈ text, isLegalChar c = true) :
    DividesFrom ((front ++ text).map Char.toUInt8) file before tokens final := by
  generalize hlast : Except.ok final = last at h
  induction h generalizing front before with
  | @finish offset blanks hblanks =>
    obtain rfl := Except.ok.inj hlast
    have hstart := Token.start_placed file (offset + blanks.length) .endOfInput hsize
    have hlength : ((front ++ blanks).map Char.toUInt8).length = offset + blanks.length := by
      rw [List.length_map, List.length_append, hfront]
    have hgap : before.Precedes ((front ++ blanks).map Char.toUInt8)
        (Token.placed file (offset + blanks.length) .endOfInput).span := by
      have hprecedes := precedes_of_blanks front [] hblanks (hbefore.trans hfront.symm)
        (hstart.trans (by rw [hfront]))
      rwa [List.append_nil] at hprecedes
    exact ⟨by simp, ⟨rfl, rfl, rfl, hstart.trans hlength.symm, hstart.trans hlength.symm⟩,
      .cons_cons hgap (.singleton _)⟩
  | stuck => cases hlast
  | @token offset blanks text kind rest tokens last hblanks hmunch hrest ih =>
    subst hfront
    obtain ⟨hkind, hstops⟩ := Token.Kind.isLegal_of_munch? hmunch
    obtain ⟨rfl, -⟩ := Token.Kind.munch?_eq_some _ _ _ hmunch
    simp only [List.length_append, String.length_toList] at hsize
    simp only [List.forall_mem_append] at hlegal
    have hstart := Token.start_placed file (front.length + blanks.length) kind (by omega)
    have hgap := precedes_of_blanks front (kind.spelling.toList ++ rest) hblanks hbefore hstart
    have hisIn : (Token.placed file (front ++ blanks).length kind).IsIn _ file :=
      isIn_placed (front ++ blanks) hkind hstops hlegal.2.2 (by rw [List.length_append]; omega)
    have hdivides := ih (front ++ blanks ++ kind.spelling.toList)
      (Token.placed file (front.length + blanks.length) kind).span
      (by rw [List.length_append, List.length_append, String.length_toList])
      (UInt32.toNat_ofNat_of_lt' (by omega)) (by omega) hlegal.2.2 hlast
    rw [List.length_append] at hisIn
    simp only [List.append_assoc] at hisIn hdivides
    exact ⟨List.forall_mem_cons.mpr ⟨hisIn, hdivides.isIn⟩, hdivides.isEnd,
      .cons_cons hgap hdivides.gaps⟩

end Tiles

/-- A token is known by its kind and its place. -/
theorem Token.eq_placed {file : String} {offset : Nat} {token : Token}
    (hstartFile : token.span.start.file = file) (hstopFile : token.span.stop.file = file)
    (hstart : token.span.start.offset.toNat = offset)
    (hstop : token.span.stop.offset.toNat = offset + token.kind.spelling.length) :
    token = .placed file offset token.kind := by
  obtain ⟨kind, ⟨start, startFile⟩, ⟨stop, stopFile⟩⟩ := token
  dsimp only at hstartFile hstopFile hstart hstop
  subst hstartFile hstopFile hstart
  simp [Token.placed, ← hstop]

namespace DividesFrom

variable {whole : List UInt8} {file : String} {before : Span} {tokens : List Token} {final : Token}

/-- Tokens that nothing is lost with are a division of what stands behind the span. -/
theorem tiles (h : DividesFrom whole file before tokens final) :
    before.stop.offset.toNat ≤ whole.length ∧
      Tiles file before.stop.offset.toNat
        ((whole.drop before.stop.offset.toNat).map Char.ofUInt8) tokens (.ok final) := by
  induction tokens generalizing before with
  | nil =>
    obtain ⟨hgap, -⟩ := List.isChain_cons_cons.mp h.gaps
    have hle := UInt32.le_iff_toNat_le.mp hgap.le
    have hcut := drop_eq_extract_append whole hle
    rw [h.isEnd.start_eq] at hle hcut
    rw [List.drop_length, List.append_nil] at hcut
    have hblanks : ∀ c ∈ (whole.drop before.stop.offset.toNat).map Char.ofUInt8,
        isBlank c = true := by
      rw [hcut, ← h.isEnd.start_eq, List.forall_mem_map]
      exact hgap.blank
    have hlength : before.stop.offset.toNat +
        ((whole.drop before.stop.offset.toNat).map Char.ofUInt8).length = whole.length := by
      rw [List.length_map, List.length_drop]
      omega
    have hfinal := Token.eq_placed h.isEnd.file_start h.isEnd.file_stop h.isEnd.start_eq
      (by rw [h.isEnd.stop_eq, h.isEnd.kind_eq]; rfl)
    rw [h.isEnd.kind_eq] at hfinal
    refine ⟨hle, ?_⟩
    rw [hfinal, ← hlength]
    exact .finish hblanks
  | cons token tokens ih =>
    obtain ⟨hgap, hgaps⟩ := List.isChain_cons_cons.mp h.gaps
    obtain ⟨htoken, htokens⟩ := List.forall_mem_cons.mp h.isIn
    obtain ⟨hstop, htiles⟩ := ih ⟨htokens, h.isEnd, hgaps⟩
    have hle := UInt32.le_iff_toNat_le.mp hgap.le
    have hlt := UInt32.lt_iff_toNat_lt.mp htoken.nonempty
    generalize hblanks : (whole.extract before.stop.offset.toNat
      token.span.start.offset.toNat).map Char.ofUInt8 = blanks
    have hblank : ∀ c ∈ blanks, isBlank c = true := by
      rw [← hblanks, List.forall_mem_map]
      exact hgap.blank
    have hspelled : (bytes token.kind.spelling).map Char.ofUInt8 = token.kind.spelling.toList := by
      rw [htoken.legal.bytes_spelling]
      exact map_ofUInt8_toUInt8 fun c hc =>
        toNat_lt_of_isLegalChar (htoken.legal.isLegalChar_spelling c hc)
    have hstart : before.stop.offset.toNat + blanks.length = token.span.start.offset.toNat := by
      rw [← hblanks, List.length_map, length_extract whole (by omega)]
      omega
    have hend : token.span.stop.offset.toNat =
        before.stop.offset.toNat + blanks.length + token.kind.spelling.length := by
      rw [← String.length_toList, ← hspelled, List.length_map, ← htoken.text,
        length_extract whole hstop]
      omega
    have hplaced := Token.eq_placed htoken.file_start htoken.file_stop hstart.symm hend
    have htile : Tiles file before.stop.offset.toNat _ _ _ :=
      .token hblank (htoken.legal.munch? htoken.longest) (by rw [← hend]; exact htiles)
    refine ⟨by omega, ?_⟩
    rw [drop_eq_extract_append whole hle, drop_eq_extract_append whole (Nat.le_of_lt hlt),
      htoken.text, List.map_append, List.map_append, hspelled, hblanks]
    rwa [← hplaced] at htile

/-- Tokens that nothing is lost with leave no byte outside the alphabet. -/
theorem isLegalByte_of_mem (h : DividesFrom whole file before tokens final)
    (hbefore : before.stop.offset = 0) : ∀ byte ∈ whole, isLegalByte byte = true := by
  obtain ⟨-, htiles⟩ := h.tiles
  have hlegal := htiles.isLegalChar_of_ok
  rw [hbefore] at hlegal
  exact List.forall_mem_map.mp hlegal

end DividesFrom

variable {source : String} {file : Option String} {all : List Token}

/-- The tokens of a source are those that nothing of it is lost with. -/
theorem tokenize_eq_ok_iff (hsize : source.utf8ByteSize < UInt32.size) :
    tokenize source file = .ok all ↔ IsLossless source (file.getD Lexer.defaultFile) all := by
  have htiles := Lexer.tiles_ofSource source file
  have hsplit := tokenize_eq source file _ _ rfl
  have hlength := length_le_utf8ByteSize source
  constructor
  · intro h
    cases hlast : (Lexer.ofSource source file).stream.last with
    | error error =>
      rw [hsplit, hlast] at h
      cases h
    | ok final =>
      rw [hsplit, hlast] at h
      rw [hlast] at htiles
      have hlegal := htiles.isLegalChar_of_ok
      have hdivides := htiles.dividesFrom [] ⟨⟨0, file.getD Lexer.defaultFile⟩,
        ⟨0, file.getD Lexer.defaultFile⟩⟩ rfl rfl (by omega) hlegal
      refine ⟨_, final, (Except.ok.inj h).symm, ?_⟩
      rw [bytes_of_isLegalChar hlegal]
      exact hdivides
  · rintro ⟨tokens, final, rfl, hdivides⟩
    have hlegal := isLegalByte_bytes_iff.mp (hdivides.isLegalByte_of_mem rfl)
    obtain ⟨-, hall⟩ := hdivides.tiles
    have hcodes : ((bytes source).drop 0).map Char.ofUInt8 = source.toList := by
      rw [List.drop_zero, bytes_of_isLegalChar hlegal]
      exact map_ofUInt8_toUInt8 fun c hc => toNat_lt_of_isLegalChar (hlegal c hc)
    obtain ⟨htokens, hlast⟩ := htiles.unique (hcodes ▸ hall)
    rw [hsplit, htokens, hlast]
    rfl

/-- Splitting a source into tokens loses nothing of it: the bytes at the span of a token
are its text, only blanks stand in front of a token and of the end of the input,
words and numbers are as long as they can be, and every span carries the name of
the source. No other list of tokens has these properties, and a source that has
such a list is split into it. -/
theorem tokenize_lossless (source : String) (file : Option String) (all : List Token)
    (hsize : source.utf8ByteSize < UInt32.size) :
    (tokenize source file = .ok all ↔ IsLossless source (file.getD Lexer.defaultFile) all) ∧
      (tokenize source file = .ok all →
        ∀ other, IsLossless source (file.getD Lexer.defaultFile) other → other = all) := by
  refine ⟨tokenize_eq_ok_iff hsize, fun htokens other hother => ?_⟩
  have hsame := (tokenize_eq_ok_iff hsize).mpr hother
  exact Except.ok.inj (hsame.symm.trans htokens)

/-- The case of a word that begins with a reserved one and of a word behind a number. -/
theorem tokenize_lossless_of_def1 : "def1 2x".utf8ByteSize < UInt32.size ∧
    tokenize "def1 2x" none = .ok [.placed "shell" 0 (.identifier "def1"),
      .placed "shell" 5 (.number "2"), .placed "shell" 6 (.identifier "x"),
      .placed "shell" 7 .endOfInput] ∧
    IsLossless "def1 2x" "shell" [.placed "shell" 0 (.identifier "def1"),
      .placed "shell" 5 (.number "2"), .placed "shell" 6 (.identifier "x"),
      .placed "shell" 7 .endOfInput] ∧
    ∀ other, IsLossless "def1 2x" "shell" other → other.length = 4 := by
  have hsize : "def1 2x".utf8ByteSize < UInt32.size := by decide +kernel
  have htokens : tokenize "def1 2x" none = .ok [.placed "shell" 0 (.identifier "def1"),
      .placed "shell" 5 (.number "2"), .placed "shell" 6 (.identifier "x"),
      .placed "shell" 7 .endOfInput] := by
    decide +kernel
  obtain ⟨hlossless, hunique⟩ := tokenize_lossless "def1 2x" none _ hsize
  refine ⟨hsize, htokens, hlossless.mp htokens, fun other hother => ?_⟩
  rw [hunique htokens other hother]
  rfl

end ExprLang
