import ExprLang.Binary64
import ExprLang.Proofs.Stream

/-!
The tokens of a source against its text. A text is divided into blanks and
tokens, each token the longest one at its place, up to the end of the text or to
a character that begins no token. What a lexer has left to read is the only such
division of the text in front of it, and positions count the characters before
them, so they increase from token to token.
-/
namespace ExprLang

def Token.placed (file : String) (offset : Nat) (kind : Token.Kind) : Token :=
  ⟨kind, ⟨offset.toUInt32, file⟩, ⟨(offset + kind.spelling.length).toUInt32, file⟩⟩

theorem Token.start_placed (file : String) (offset : Nat) (kind : Token.Kind)
    (hsize : offset < UInt32.size) : (placed file offset kind).span.start.offset.toNat = offset :=
  UInt32.toNat_ofNat_of_lt hsize

/-- The division of the text that starts at an offset. -/
inductive Tiles (file : String) :
    Nat → List Char → List Token → Except LexicalError Token → Prop
  | finish {offset blanks} (hblanks : ∀ c ∈ blanks, isBlank c = true) :
      Tiles file offset blanks [] (.ok (.placed file (offset + blanks.length) .endOfInput))
  | stuck {offset blanks c text} (hblanks : ∀ c ∈ blanks, isBlank c = true)
      (hc : isBlank c = false) (hmunch : Token.Kind.munch? (c :: text) = none) :
      Tiles file offset (blanks ++ c :: text) []
        (.error ⟨leadByte c, ⟨(offset + blanks.length).toUInt32, file⟩⟩)
  | token {offset blanks text kind rest tokens last} (hblanks : ∀ c ∈ blanks, isBlank c = true)
      (hmunch : Token.Kind.munch? text = some (kind, rest))
      (hrest : Tiles file (offset + blanks.length + kind.spelling.length) rest tokens last) :
      Tiles file offset (blanks ++ text) (.placed file (offset + blanks.length) kind :: tokens) last

section Blanks

theorem isBlank_iff (c : Char) : isBlank c = true ↔ c ∈ [' ', '\t', '\n', '\r'] := by
  simp [isBlank, or_assoc]

/-- A blank begins no token. -/
theorem Token.Kind.munch?_of_isBlank {c : Char} (hc : isBlank c = true) (text : List Char) :
    munch? (c :: text) = none := by
  have hplain : c.isAlpha = false ∧ c.isDigit = false ∧ isSymbolChar c = false := by
    simp only [isBlank_iff, List.mem_cons, List.not_mem_nil, or_false] at hc
    rcases hc with rfl | rfl | rfl | rfl <;> decide
  simp [munch?, hplain]

/-- A run of characters ends where the text behind it does not go on with it. -/
theorem dropWhile_run {p : Char → Bool} {run text : List Char} (hrun : ∀ c ∈ run, p c = true)
    (htext : ∀ c ∈ text.head?, p c = false) : (run ++ text).dropWhile p = text := by
  rw [List.dropWhile_append_of_pos hrun]
  cases text with
  | nil => rfl
  | cons c text => simp [htext c rfl]

theorem takeWhile_run {p : Char → Bool} {run text : List Char} (hrun : ∀ c ∈ run, p c = true)
    (htext : ∀ c ∈ text.head?, p c = false) : (run ++ text).takeWhile p = run := by
  rw [List.takeWhile_append_of_pos hrun]
  cases text with
  | nil => simp
  | cons c text => simp [htext c rfl]

/-- Runs of characters with the same text end at one place. -/
theorem run_inj {p : Char → Bool} {run run' text text' : List Char}
    (hrun : ∀ c ∈ run, p c = true) (hrun' : ∀ c ∈ run', p c = true)
    (htext : ∀ c ∈ text.head?, p c = false) (htext' : ∀ c ∈ text'.head?, p c = false)
    (h : run ++ text = run' ++ text') : run = run' ∧ text = text' := by
  have hfirst := takeWhile_run hrun htext
  have hsecond := dropWhile_run hrun htext
  rw [h] at hfirst hsecond
  rw [takeWhile_run hrun' htext'] at hfirst
  rw [dropWhile_run hrun' htext'] at hsecond
  exact ⟨hfirst.symm, hsecond.symm⟩

/-- A text that begins with a token begins with no blank. -/
theorem Token.Kind.isBlank_of_munch? {text rest : List Char} {kind : Token.Kind}
    (h : munch? text = some (kind, rest)) : ∀ c ∈ text.head?, isBlank c = false := by
  intro c hc
  cases text with
  | nil => simp at hc
  | cons first text =>
    obtain rfl : first = c := by simpa using hc
    cases hblank : isBlank first with
    | false => rfl
    | true =>
      rw [munch?_of_isBlank hblank] at h
      cases h

theorem Token.Kind.ne_endOfInput_of_munch? {text rest : List Char} {kind : Token.Kind}
    (h : munch? text = some (kind, rest)) : kind ≠ .endOfInput := by
  rintro rfl
  exact (munch?_eq_some text rest _ h).2 rfl

end Blanks

namespace Lexer

theorem scan_nil {lexer : Lexer} (h : lexer.rest.dropWhile isBlank = []) :
    lexer.scan.1 = .ok (.placed lexer.file
      (lexer.offset + (lexer.rest.takeWhile isBlank).length) .endOfInput) := by
  simp [scan, skipBlanks, h, Token.placed, position, Token.Kind.spelling]

theorem scan_stuck {lexer : Lexer} {c : Char} {text : List Char}
    (h : lexer.rest.dropWhile isBlank = c :: text) (hmunch : Token.Kind.munch? (c :: text) = none) :
    lexer.scan.1 = .error ⟨leadByte c,
      ⟨(lexer.offset + (lexer.rest.takeWhile isBlank).length).toUInt32, lexer.file⟩⟩ := by
  simp [scan, skipBlanks, h, hmunch, position]

theorem scan_token {lexer : Lexer} {c : Char} {text rest : List Char} {kind : Token.Kind}
    (h : lexer.rest.dropWhile isBlank = c :: text)
    (hmunch : Token.Kind.munch? (c :: text) = some (kind, rest)) :
    lexer.scan = (.ok (.placed lexer.file
      (lexer.offset + (lexer.rest.takeWhile isBlank).length) kind),
      { lexer with
        rest
        offset := lexer.offset + (lexer.rest.takeWhile isBlank).length + kind.spelling.length }) := by
  simp [scan, skipBlanks, h, hmunch, position, Token.placed]

/-- What a lexer has left divides the text in front of it. -/
theorem tiles (lexer : Lexer) (h : lexer.scanned = none) :
    Tiles lexer.file lexer.offset lexer.rest lexer.stream.tokens lexer.stream.last := by
  induction hlength : lexer.rest.length using Nat.strong_induction_on generalizing lexer with
  | h length ih =>
    have hblanks : ∀ c ∈ lexer.rest.takeWhile isBlank, isBlank c = true :=
      fun c hc => List.mem_takeWhile_imp hc
    have hrest := List.takeWhile_append_dropWhile (p := isBlank) (l := lexer.rest)
    have hnext : lexer.next = lexer.scan.1 := by simp [next, h]
    cases htext : lexer.rest.dropWhile isBlank with
    | nil =>
      rw [scan_nil htext] at hnext
      have hfinal : ∀ token, lexer.next = .ok token → token.kind = .endOfInput := by
        intro token htoken
        rw [hnext] at htoken
        rw [← Except.ok.inj htoken]
        rfl
      rw [htext, List.append_nil] at hrest
      rw [stream_of_final lexer hfinal, hnext]
      rw [hrest] at hblanks ⊢
      exact .finish hblanks
    | cons c text =>
      rw [htext] at hrest
      cases hmunch : Token.Kind.munch? (c :: text) with
      | none =>
        have hc : isBlank c = false := by
          simpa [htext] using List.head?_dropWhile_not isBlank lexer.rest
        rw [scan_stuck htext hmunch] at hnext
        have hfinal : ∀ token, lexer.next = .ok token → token.kind = .endOfInput := by
          intro token htoken
          rw [hnext] at htoken
          cases htoken
        rw [stream_of_final lexer hfinal, hnext]
        have hstuck : Tiles lexer.file lexer.offset _ _ _ := .stuck hblanks hc hmunch
        rwa [hrest] at hstuck
      | some found =>
        obtain ⟨kind, rest⟩ := found
        have hscan := scan_token htext hmunch
        rw [hscan] at hnext
        have hordinary := Token.Kind.ne_endOfInput_of_munch? hmunch
        have hpassed := passed_of_ordinary lexer _ hnext hordinary
        rw [looked, h, hscan] at hpassed
        simp only at hpassed
        have hshort : rest.length < length := by
          have hless := Token.Kind.length_lt_of_munch?_eq_some _ _ _ hmunch
          have hall := congrArg List.length hrest
          rw [List.length_append] at hall
          omega
        have htoken : Tiles lexer.file lexer.offset _ _ _ :=
          .token hblanks hmunch (ih rest.length hshort ⟨rest, _, lexer.file, none⟩ rfl rfl)
        rw [hrest] at htoken
        rw [stream_of_ordinary lexer _ hnext hordinary, hpassed]
        exact htoken

theorem tiles_ofSource (source : String) (file : Option String) :
    Tiles (file.getD defaultFile) 0 source.toList (ofSource source file).stream.tokens
      (ofSource source file).stream.last :=
  tiles (ofSource source file) rfl

theorem tiles_of_stream {source : String} {file : Option String} {tokens : List Token}
    {last : Except LexicalError Token} (h : (ofSource source file).stream = ⟨tokens, last⟩) :
    Tiles (file.getD defaultFile) 0 source.toList tokens last := by
  have htiles := tiles_ofSource source file
  rwa [h] at htiles

end Lexer

namespace Tiles

variable {file : String} {offset : Nat} {text : List Char} {tokens : List Token}
  {last : Except LexicalError Token}

/-- A text is divided in one way. -/
theorem unique {tokens' : List Token} {last' : Except LexicalError Token}
    (h : Tiles file offset text tokens last) (h' : Tiles file offset text tokens' last') :
    tokens = tokens' ∧ last = last' := by
  induction h generalizing tokens' last' with
  | @finish offset blanks hblanks =>
    generalize hwhole : blanks = whole at h'
    cases h' with
    | finish => exact ⟨rfl, rfl⟩
    | stuck _ hc =>
      rw [hblanks _ (by simp [hwhole])] at hc
      cases hc
    | token hblanks' hmunch =>
      rw [← List.append_nil blanks] at hwhole
      obtain ⟨-, rfl⟩ := run_inj hblanks hblanks' (by simp)
        (Token.Kind.isBlank_of_munch? hmunch) hwhole
      cases hmunch
  | @stuck offset blanks c text hblanks hc hmunch =>
    generalize hwhole : blanks ++ c :: text = whole at h'
    cases h' with
    | finish hblanks' =>
      rw [hblanks' c (by simp [← hwhole])] at hc
      cases hc
    | stuck hblanks' hc' =>
      obtain ⟨rfl, htext⟩ := run_inj hblanks hblanks' (by simpa using hc) (by simpa using hc')
        hwhole
      rw [(List.cons.inj htext).1]
      exact ⟨rfl, rfl⟩
    | token hblanks' hmunch' =>
      obtain ⟨-, rfl⟩ := run_inj hblanks hblanks' (by simpa using hc)
        (Token.Kind.isBlank_of_munch? hmunch') hwhole
      rw [hmunch] at hmunch'
      cases hmunch'
  | @token offset blanks text kind rest tokens last hblanks hmunch hrest ih =>
    generalize hwhole : blanks ++ text = whole at h'
    have htext := Token.Kind.isBlank_of_munch? hmunch
    cases h' with
    | finish hblanks' =>
      rw [← List.append_nil whole] at hwhole
      obtain ⟨-, rfl⟩ := run_inj hblanks hblanks' htext (by simp) hwhole
      cases hmunch
    | stuck hblanks' hc' hmunch' =>
      obtain ⟨-, rfl⟩ := run_inj hblanks hblanks' htext (by simpa using hc') hwhole
      rw [hmunch] at hmunch'
      cases hmunch'
    | token hblanks' hmunch' hrest' =>
      obtain ⟨rfl, rfl⟩ := run_inj hblanks hblanks' htext
        (Token.Kind.isBlank_of_munch? hmunch') hwhole
      obtain ⟨rfl, rfl⟩ := Prod.mk.inj (Option.some.inj (hmunch.symm.trans hmunch'))
      obtain ⟨rfl, rfl⟩ := ih hrest'
      exact ⟨rfl, rfl⟩

/-- Whatever divides the text of a source is what its first lexer has left. -/
theorem stream_eq {source : String} {file : Option String}
    (h : Tiles (file.getD Lexer.defaultFile) 0 source.toList tokens last) :
    (Lexer.ofSource source file).stream = ⟨tokens, last⟩ := by
  obtain ⟨htokens, hlast⟩ := (Lexer.tiles_ofSource source file).unique h
  rw [← htokens, ← hlast]

/-- Every token is one that a text can begin with. -/
theorem exists_munch? (h : Tiles file offset text tokens last) :
    ∀ token ∈ tokens, ∃ text rest, Token.Kind.munch? text = some (token.kind, rest) := by
  induction h with
  | finish | stuck => simp
  | token hblanks hmunch hrest ih => exact List.forall_mem_cons.mpr ⟨⟨_, _, hmunch⟩, ih⟩

/-- Tokens start later and later, as long as offsets are words, and the end of the
input behind all of them. -/
theorem increasing {final : Token} (h : Tiles file offset text tokens (.ok final))
    (hsize : offset + text.length < UInt32.size) :
    (∀ token ∈ tokens ++ [final], offset ≤ token.span.start.offset.toNat) ∧
      (tokens ++ [final]).Pairwise fun first second =>
        first.span.start.offset < second.span.start.offset := by
  generalize hlast : Except.ok final = last at h
  induction h with
  | @finish offset blanks hblanks =>
    obtain rfl := Except.ok.inj hlast
    have hstart := Token.start_placed file (offset + blanks.length) .endOfInput hsize
    refine ⟨fun token htoken => ?_, by simp⟩
    obtain rfl := List.mem_singleton.mp htoken
    omega
  | stuck => cases hlast
  | @token offset blanks text kind rest tokens last hblanks hmunch hrest ih =>
    obtain ⟨rfl, hne⟩ := Token.Kind.munch?_eq_some _ _ _ hmunch
    have hpositive := List.length_pos_iff.mpr hne
    simp only [List.length_append, String.length_toList] at hsize hpositive
    obtain ⟨hbounds, hpairs⟩ := ih (by omega) hlast
    have hstart := Token.start_placed file (offset + blanks.length) kind (by omega)
    refine ⟨fun token htoken => ?_, List.pairwise_cons.mpr ⟨fun token htoken => ?_, hpairs⟩⟩
    · rcases List.mem_cons.mp htoken with rfl | hmem
      · omega
      · have hbound := hbounds token hmem
        omega
    · have hbound := hbounds token htoken
      rw [UInt32.lt_iff_toNat_lt]
      omega

end Tiles

/-- The digits of a token stand for a number. -/
theorem Token.Kind.exists_ofDigits? {text rest : List Char} {digits : String}
    (h : munch? text = some (.number digits, rest)) :
    ∃ value, Binary64.ofDigits? digits = some value := by
  cases text with
  | nil => simp [munch?] at h
  | cons c text =>
    simp only [munch?] at h
    split at h
    · have hword := (Prod.mk.inj (Option.some.inj h)).1
      unfold ofWord reserved? at hword
      split at hword <;> cases hword
    · split at h
      · next hdigit =>
        obtain rfl := number.inj (Prod.mk.inj (Option.some.inj h)).1
        exact ⟨_, if_pos ⟨by simp, by simp [hdigit]⟩⟩
      · split at h <;> simp at h

end ExprLang
