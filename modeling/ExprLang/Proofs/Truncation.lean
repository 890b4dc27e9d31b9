import ExprLang.Proofs.Lookahead
import ExprLang.Proofs.WholeReading

/-!
A lexical error does not disturb the diagnostics before it. Where an error stands
behind the tokens, everything that is read or fails at a token does so in front of
the end of the input too. Only the construct that the error cuts short may then be
read or fail at the end. So a source that is cut at its error gives the same
diagnostics and at most one more, about the end of the input.
-/
namespace ExprLang

open Lexer (Stream)

variable {last last' : Except LexicalError Token} {error error' : LexicalError} {final : Token}
  {tokens rest tail : List Token} {follower culprit : Token} {node : Node} {failure : Failure}
  {diagnostic : Diagnostic}

/-- In front of an ordinary token it does not matter what stands behind all tokens. -/
theorem ReadsTop.congr_last (h : ReadsTop last tokens node (follower :: tail)) :
    ReadsTop last' tokens node (follower :: tail) := by
  have hsame : Stream.Closes (Stream.head ⟨follower :: tail, last'⟩)
      (Stream.head ⟨follower :: tail, last⟩) := .refl (.ok follower)
  obtain ⟨taken, rfl, h'⟩ := h.congr_rest hsame
  exact h'

theorem FailsTop.congr_last (h : FailsTop last tokens failure (culprit :: tail)) :
    FailsTop last' tokens failure (culprit :: tail) := by
  obtain ⟨taken, rfl, h'⟩ : ∃ taken, tokens = taken ++ culprit :: tail ∧
      FailsTop last' (taken ++ culprit :: tail) failure (culprit :: tail) := h.congr_rest tail
  exact h'

/-- What is read with an error behind the tokens has not met the error, so it is read
whatever stands behind them. -/
theorem ReadsTop.of_error (h : ReadsTop (.error error) tokens node rest) :
    ReadsTop last tokens node rest := by
  cases rest with
  | cons follower tail => exact h.congr_last
  | nil =>
    have hcloses : Stream.Closes (Stream.head ⟨[], last⟩) (Stream.head ⟨[], .error error⟩) :=
      fun follower hfollower => by cases hfollower
    obtain ⟨taken, rfl, h'⟩ := h.congr_rest hcloses
    exact h'

theorem FailsTop.of_error (h : FailsTop (.error error) tokens (.syntactic diagnostic) rest) :
    FailsTop last tokens (.syntactic diagnostic) rest := by
  cases rest with
  | cons culprit tail => exact h.congr_last
  | nil =>
    obtain ⟨token, hhead, -⟩ := h.isAt
    cases hhead

/-- In front of an error a construct is read, fails, or is cut short by this error. -/
theorem settles_at_error (error : LexicalError)
    (hbegins : ∃ token tail, tokens = token :: tail ∧ token.kind ≠ .endOfInput) :
    (∃ node rest, ReadsTop (.error error) tokens node rest) ∨
      (∃ diagnostic rest, FailsTop (.error error) tokens (.syntactic diagnostic) rest) ∨
      ∃ rest, FailsTop (.error error) tokens (.lexical error) rest := by
  obtain ⟨token, tail, rfl, hkind⟩ := hbegins
  have hlast : ∀ token, (.error error : Except LexicalError Token) = .ok token →
      token.kind = .endOfInput := fun token htoken => by cases htoken
  rcases settles_top hlast token tail hkind with hread | ⟨failure, rest, hfail⟩
  · exact Or.inl hread
  · cases failure with
    | syntactic diagnostic => exact Or.inr (Or.inl ⟨diagnostic, rest, hfail⟩)
    | lexical other =>
      obtain rfl := Except.error.inj (Stream.last_of_head_error hfail.isAt)
      exact Or.inr (Or.inr ⟨rest, hfail⟩)

/-- A construct that an error cuts short is cut short by any other error too. -/
theorem FailsTop.of_lexical (h : FailsTop (.error error) tokens (.lexical error) rest) :
    ∃ rest', FailsTop (.error error') tokens (.lexical error') rest' := by
  rcases settles_at_error error' h.begins with ⟨node, rest', hread⟩ |
    ⟨diagnostic, rest', hfail⟩ | hcut
  · exact absurd h hread.of_error.not_fails
  · cases (h.unique hfail.of_error).1
  · exact hcut

/-- With the end of the input in the place of the error that cut a construct short, the
construct takes all tokens, or it fails at the end. -/
theorem FailsTop.settles_at_end (hfinal : final.kind = .endOfInput)
    (h : FailsTop (.error error) tokens (.lexical error') rest) :
    (∃ node, ReadsTop (.ok final) tokens node []) ∨
      ∃ diagnostic, FailsTop (.ok final) tokens (.syntactic diagnostic) [] := by
  obtain ⟨token, tail, rfl, hkind⟩ := h.begins
  have hlast : ∀ token, (.ok final : Except LexicalError Token) = .ok token →
      token.kind = .endOfInput := fun token htoken => by rwa [← Except.ok.inj htoken]
  rcases settles_top hlast token tail hkind with ⟨node, rest', hread⟩ | ⟨failure, rest', hfail⟩
  · cases rest' with
    | nil => exact Or.inl ⟨node, hread⟩
    | cons follower behind => exact absurd h hread.congr_last.not_fails
  · cases failure with
    | lexical other => cases Stream.last_of_head_error hfail.isAt
    | syntactic diagnostic =>
      cases rest' with
      | nil => exact Or.inr ⟨diagnostic, hfail⟩
      | cons culprit behind => cases (h.unique hfail.congr_last).1

namespace ReadsAll

variable {nodes : List Node} {diagnostics : List Diagnostic}

/-- Which error stands behind the tokens does not matter. -/
theorem congr_error (h : ReadsAll (.error error) tokens nodes diagnostics) :
    ReadsAll (.error error') tokens nodes diagnostics := by
  induction h with
  | done => exact .done
  | construct hread hrest ih => exact .construct hread.of_error ih
  | recovery hfail hrest ih => exact .recovery hfail.of_error ih
  | stuck hfail =>
    obtain rfl := Except.error.inj (Stream.last_of_head_error hfail.isAt)
    obtain ⟨rest', hfail'⟩ := hfail.of_lexical
    exact .stuck hfail'

/-- With the end of the input in the place of an error there is at most one more
diagnostic, which is about the end. -/
theorem of_error (hfinal : final.kind = .endOfInput)
    (h : ReadsAll (.error error) tokens nodes diagnostics) :
    ∃ (nodes' : List Node) (more : Option Diagnostic),
      ReadsAll (.ok final) tokens nodes' (diagnostics ++ more.toList) ∧
      ∀ diagnostic ∈ more, diagnostic.position = final.span.start ∧
        diagnostic.cause.found = final.kind.describe := by
  induction h with
  | done => exact ⟨[], none, .done, by simp⟩
  | @construct _ node _ _ _ hread hrest ih =>
    obtain ⟨nodes', more, hall, hmore⟩ := ih
    exact ⟨node :: nodes', more, .construct hread.of_error hall, hmore⟩
  | recovery hfail hrest ih =>
    obtain ⟨nodes', more, hall, hmore⟩ := ih
    exact ⟨nodes', more, .recovery hfail.of_error hall, hmore⟩
  | stuck hfail =>
    rcases hfail.settles_at_end hfinal with ⟨node, hread⟩ | ⟨diagnostic, hend⟩
    · exact ⟨[node], none, .construct hread .done, by simp⟩
    · refine ⟨[], some diagnostic, .recovery hend .done, fun report hreport => ?_⟩
      obtain rfl := Option.mem_some_iff.mp hreport
      obtain ⟨token, hhead, hplace⟩ := hend.isAt
      obtain rfl := Except.ok.inj hhead
      exact hplace

end ReadsAll

/-- A token that does not go on into a text does not go on into a part of it. -/
theorem Token.Kind.StopsAt.of_append {kind : Token.Kind} {front behind : List Char}
    (h : kind.StopsAt (front ++ behind)) : kind.StopsAt front :=
  fun c hc => h c (by rw [List.head?_append, Option.mem_def.mp hc]; rfl)

/-- A text that is cut at the character the division stops at is divided up to its end. -/
theorem Tiles.cut {file : String} {offset : Nat} {text : List Char}
    (h : Tiles file offset text tokens (.error error)) :
    ∃ front c behind, text = front ++ c :: behind ∧ (∀ d ∈ front, isLegalChar d = true) ∧
      error.position = ⟨(offset + front.length).toUInt32, file⟩ ∧
      Tiles file offset front tokens (.ok (.placed file (offset + front.length) .endOfInput)) := by
  generalize hlast : Except.error error = last at h
  induction h with
  | finish => cases hlast
  | @stuck offset blanks c text hblanks hc hmunch =>
    obtain rfl := Except.error.inj hlast
    exact ⟨blanks, c, text, rfl, isLegalChar_of_blanks hblanks, rfl, .finish hblanks⟩
  | @token offset blanks text kind rest tokens last hblanks hmunch hrest ih =>
    obtain ⟨front, c, behind, rfl, hfront, hposition, htiles⟩ := ih hlast
    obtain ⟨hkind, hstops⟩ := Token.Kind.isLegal_of_munch? hmunch
    obtain ⟨rfl, -⟩ := Token.Kind.munch?_eq_some _ _ _ hmunch
    have hlength : offset + (blanks ++ (kind.spelling.toList ++ front)).length =
        offset + blanks.length + kind.spelling.length + front.length := by
      simp only [List.length_append, String.length_toList, Nat.add_assoc]
    refine ⟨blanks ++ (kind.spelling.toList ++ front), c, behind, by simp, ?_, ?_, ?_⟩
    · simp only [List.forall_mem_append]
      exact ⟨isLegalChar_of_blanks hblanks, hkind.isLegalChar_spelling, hfront⟩
    · rw [hposition, hlength]
    · rw [hlength]
      exact .token hblanks (hkind.munch? hstops.of_append) htiles

/-- A source that fails is its text up to the error, the tokens of which end there, and
the character that begins no token. -/
theorem exists_cut {source : String} {file : Option String}
    (hsize : source.utf8ByteSize < UInt32.size)
    (hparse : (parse source file).outcome = .error error) :
    ∃ (front behind : String) (tokens : List Token) (final : Token), source = front ++ behind ∧
      front.utf8ByteSize = error.position.offset.toNat ∧ final.kind = .endOfInput ∧
      final.span.start = error.position ∧
      (Lexer.ofSource source file).stream = ⟨tokens, .error error⟩ ∧
      (Lexer.ofSource front file).stream = ⟨tokens, .ok final⟩ := by
  have htiles := Lexer.tiles_ofSource source file
  obtain ⟨nodes, houtcome, -⟩ := parse_ends source file
  rw [hparse] at houtcome
  cases hstream : (Lexer.ofSource source file).stream with
  | mk tokens last =>
    rw [hstream] at htiles houtcome
    cases last with
    | ok final => cases houtcome
    | error other =>
      obtain rfl := Except.error.inj houtcome
      obtain ⟨front, c, behind, htext, hlegal, hposition, hfront⟩ := htiles.cut
      obtain ⟨front', behind', hsplit, hchars, -, hbytes⟩ := exists_front_of_toList htext hlegal
      rw [Nat.zero_add] at hposition hfront
      refine ⟨front', behind', tokens, _, hsplit, ?_, rfl, hposition.symm, rfl,
        Tiles.stream_eq (by rwa [hchars])⟩
      rw [hposition, hbytes]
      have hfits : front.length < UInt32.size := by
        have hle := length_le_utf8ByteSize source
        rw [htext, List.length_append] at hle
        omega
      exact (UInt32.toNat_ofNat_of_lt' hfits).symm

/-- A text has one front of each size. -/
theorem front_inj {front front' behind behind' : String} (h : front ++ behind = front' ++ behind')
    (hsize : front.utf8ByteSize = front'.utf8ByteSize) : front = front' := by
  have hbytes := congrArg String.toByteArray h
  rw [String.toByteArray_append, String.toByteArray_append] at hbytes
  exact String.toByteArray_inj.mp (ByteArray.append_inj_left hbytes hsize)

/-- A source that reading stops in can be cut at the error. The text in front of it is read
to its end, and gives the diagnostics of the whole source, with at most one more, which
is about the end of the input there. Whatever else stands in the place of the error
and of the text behind it, the diagnostics are the same as long as reading stops
there. -/
theorem parse_truncated (source : String) (file : Option String) (error : LexicalError)
    (hsize : source.utf8ByteSize < UInt32.size)
    (hparse : (parse source file).outcome = .error error) :
    ∃ front behind : String, source = front ++ behind ∧
      front.utf8ByteSize = error.position.offset.toNat ∧
      (∃ nodes, (parse front file).outcome = .ok nodes) ∧
      ((parse front file).parser.diagnostics = (parse source file).parser.diagnostics ∨
        ∃ diagnostic : Diagnostic, (parse front file).parser.diagnostics =
            (parse source file).parser.diagnostics.push diagnostic ∧
          diagnostic.position = error.position ∧
          diagnostic.cause.found = Token.Kind.endOfInput.describe) ∧
      ∀ (other : String) (error' : LexicalError), (front ++ other).utf8ByteSize < UInt32.size →
        (parse (front ++ other) file).outcome = .error error' →
        error'.position = error.position →
        (parse (front ++ other) file).parser.diagnostics =
          (parse source file).parser.diagnostics := by
  obtain ⟨front, behind, tokens, final, rfl, hfront, hfinal, hstart, hstream, hcut⟩ :=
    exists_cut hsize hparse
  obtain ⟨nodes, hall, -⟩ := parse_readsAll hstream
  obtain ⟨nodes', more, hall', hmore⟩ := hall.of_error hfinal
  obtain ⟨houtcome, hreports⟩ := parse_of_readsAll hcut hall'
  refine ⟨front, behind, rfl, hfront, ⟨nodes', houtcome⟩, ?_, ?_⟩
  · cases more with
    | none =>
      left
      rw [← Array.toList_inj, hreports, Option.toList_none, List.append_nil]
    | some diagnostic =>
      right
      obtain ⟨hposition, hfound⟩ := hmore diagnostic rfl
      refine ⟨diagnostic, ?_, hposition.trans hstart, by rw [hfound, hfinal]⟩
      rw [← Array.toList_inj, hreports, Array.toList_push, Option.toList_some]
  · intro other error' hsize' hparse' hposition
    obtain ⟨front', behind', tokens', final', hsplit, hfront', -, -, hstream', hcut'⟩ :=
      exists_cut hsize' hparse'
    -- Both sources have the same text in front of their errors, and so the same tokens.
    obtain rfl : front = front' := front_inj hsplit (by rw [hfront, hfront', hposition])
    obtain rfl : tokens = tokens' := (Stream.mk.inj (hcut.symm.trans hcut')).1
    obtain ⟨-, hdiagnostics'⟩ := parse_of_readsAll hstream' hall.congr_error
    rw [← Array.toList_inj, hdiagnostics']

/-- The case of a call that is cut short behind a comma. -/
theorem parse_truncated_of_comma : ") f(1, $".utf8ByteSize < UInt32.size ∧
    (parse ") f(1, $" none).outcome = .error ⟨36, ⟨7, "shell"⟩⟩ ∧
    ∃ front behind : String, ") f(1, $" = front ++ behind ∧ front.utf8ByteSize = 7 ∧
      ((parse front none).parser.diagnostics = (parse ") f(1, $" none).parser.diagnostics ∨
        ∃ diagnostic : Diagnostic, (parse front none).parser.diagnostics =
            (parse ") f(1, $" none).parser.diagnostics.push diagnostic ∧
          diagnostic.position = ⟨7, "shell"⟩ ∧ diagnostic.cause.found = "end of input") := by
  have hsize : ") f(1, $".utf8ByteSize < UInt32.size := by decide +kernel
  have htokens : tokenize ") f(1, $" none = .error ⟨36, ⟨7, "shell"⟩⟩ := by decide +kernel
  have hparse := parse_of_tokenize_error htokens
  obtain ⟨front, behind, hsplit, hfront, -, hreports, -⟩ :=
    parse_truncated ") f(1, $" none _ hsize hparse
  exact ⟨hsize, hparse, front, behind, hsplit, hfront, hreports⟩

end ExprLang
