import ExprLang.FileTree
import ExprLang.Subscriber
import ExprLang.Proofs.LineOfOffset
import ExprLang.Proofs.Reports
import ExprLang.Proofs.Verdict

/-!
Sessions that read a file. Either all of the file is read, and then all its nodes are
written whatever syntax errors there are between them, or nothing is written but the
reason why it cannot be read: the first byte outside the alphabet, or bytes that are no text.
If that byte stands so far to the right that no caret can be put below it, the session breaks
off instead of telling.
-/
namespace ExprLang

structure IsAllOrNothing (session : Session) (path : String) (content : ByteArray)
    (transcript : Transcript) : Prop where
  /-- The nodes of a text that is of the alphabet are written and counted. -/
  read : ∀ source, content = source.toByteArray →
    (∀ byte ∈ bytes source, isLegalByte byte = true) →
    ∃ nodes, (parse source (fileName? path)).outcome = .ok nodes ∧
      transcript = ⟨⟨printed session.options nodes,
        passing session.passes (parse source (fileName? path)).parser.records ++
          passing session.passes [⟨.info, "kaleidoscope", "parsed " ++ path,
            [("count", .number nodes.length)]⟩]⟩, 0⟩
  /-- Of a text that is not of the alphabet only the first byte outside it is reported, if it
  can be. -/
  stuck : ∀ source, content = source.toByteArray →
    (∃ byte ∈ bytes source, isLegalByte byte = false) →
    ∃ (byte : UInt8) (front behind : List UInt8) (line : Line),
      bytes source = front ++ byte :: behind ∧
      (∀ byte ∈ front, isLegalByte byte = true) ∧ isLegalByte byte = false ∧
      line.IsAt (bytes source) front.length.toUInt32.toNat ∧
      transcript = if line.dashes ≤ 65534 then
        ⟨⟨"", passing session.passes (parse source (fileName? path)).parser.records ++
          [.shown (lexicalReport byte ((fileName? path).getD "shell") line)] ++
          passing session.passes [⟨.error, "kaleidoscope", lexicalMessage byte, []⟩]⟩, 1⟩
      else ⟨⟨"", passing session.passes (parse source (fileName? path)).parser.records ++
        [.panicked]⟩, 101⟩
  /-- Bytes that are no text are not read at all. -/
  garbled : (∀ source : String, content ≠ source.toByteArray) →
    transcript = ⟨⟨"", passing session.passes [⟨.error, "kaleidoscope",
      "could not read " ++ path ++ ": " ++ "stream did not contain valid UTF-8", []⟩]⟩, 1⟩
  succeeds : transcript.status = 0 ↔ ∃ source tokens, content = source.toByteArray ∧
    tokenize source (fileName? path) = .ok tokens

namespace Session

variable {session : Session} {path source : String} {content : ByteArray}

theorem answerFile_of_text_none (h : String.fromUTF8? content = none) :
    session.answerFile path (.ok content) = ⟨⟨"", session.logFailure
      ("could not read " ++ path ++ ": " ++ ReadError.notText.message)⟩, 1⟩ := by
  simp only [answerFile, bind, Except.bind, h]

/-- A file that is read as a whole is answered with its nodes and their number. -/
theorem answerFile_of_ok {nodes : List Node}
    (h : (parse source (fileName? path)).outcome = .ok nodes) :
    session.answerFile path (.ok source.toByteArray) = ⟨⟨printed session.options nodes,
      passing session.passes (parse source (fileName? path)).parser.records ++
        passing session.passes [⟨.info, "kaleidoscope", "parsed " ++ path,
          [("count", .number nodes.length)]⟩]⟩, 0⟩ := by
  have htext := fromUTF8?_eq_some_iff.mpr (rfl : source.toByteArray = source.toByteArray)
  simp only [answerFile, bind, Except.bind, htext, h, answer_of_ok h, Output.mk_append_mk,
    String.append_empty]
  rfl

/-- A file with a byte outside the alphabet is answered with the report of it, or the session
breaks off. -/
theorem answerFile_of_error (session : Session) {path : String} {error : LexicalError}
    {line : Line} (h : (parse source (fileName? path)).outcome = .error error)
    (hline : Line.locate source error.position.offset.toNat = some line) :
    session.answerFile path (.ok source.toByteArray) = if line.dashes ≤ 65534 then
      ⟨⟨"", passing session.passes (parse source (fileName? path)).parser.records ++
        [.shown (lexicalReport error.byte error.position.file line)] ++
        passing session.passes [⟨.error, "kaleidoscope", lexicalMessage error.byte, []⟩]⟩, 1⟩
    else ⟨⟨"", passing session.passes (parse source (fileName? path)).parser.records ++
      [.panicked]⟩, 101⟩ := by
  have htext := fromUTF8?_eq_some_iff.mpr (rfl : source.toByteArray = source.toByteArray)
  have hreport := LexicalError.report_of_locate hline
  split at hreport
  · next hwithin =>
    simp only [answerFile, bind, Except.bind, htext, h, answer_of_report h hreport,
      Output.mk_append_mk, String.append_empty, if_pos hwithin]
    rfl
  · next hbeyond =>
    simp only [answerFile, bind, Except.bind, htext, answer_of_panic h hreport, if_neg hbeyond]

/-- A session with a file succeeds if the file can be split into tokens, and only then. -/
theorem answerFile_status_eq_zero_iff (session : Session) :
    (session.answerFile path (.ok content)).status = 0 ↔ ∃ source tokens,
      content = source.toByteArray ∧ tokenize source (fileName? path) = .ok tokens := by
  constructor
  · intro hstatus
    cases htext : String.fromUTF8? content with
    | none =>
      rw [answerFile_of_text_none htext] at hstatus
      cases hstatus
    | some source =>
      obtain rfl := fromUTF8?_eq_some_iff.mp htext
      cases verdict source (fileName? path) with
      | read _ htokens => exact ⟨source, _, rfl, htokens⟩
      | failed hbytes _ _ hposition _ houtcome =>
        obtain ⟨line, hline⟩ := Line.exists_locate (offset_le_of_position hbytes hposition)
        rw [answerFile_of_error session houtcome hline] at hstatus
        split at hstatus <;> cases hstatus
  · rintro ⟨source, tokens, rfl, htokens⟩
    cases verdict source (fileName? path) with
    | read _ _ houtcome => rw [answerFile_of_ok houtcome]
    | failed _ _ _ _ hfailed =>
      rw [hfailed] at htokens
      cases htokens

/-- A file that can be had is read as a whole or not at all. -/
theorem run_file {read : String → Except ReadError ByteArray}
    (hfile : session.options.file = some path) (hcontent : read path = .ok content)
    (input : ByteArray) : IsAllOrNothing session path content (session.run read input) := by
  have hrun : session.run read input = session.answerFile path (.ok content) := by
    simp only [run, hfile, hcontent]
  rw [hrun]
  refine ⟨?_, ?_, ?_, answerFile_status_eq_zero_iff session⟩
  · rintro source rfl hlegal
    cases verdict source (fileName? path) with
    | read _ _ houtcome => exact ⟨_, houtcome, answerFile_of_ok houtcome⟩
    | @failed front behind error hbytes _ hbyte =>
      rw [hlegal error.byte (by simp [hbytes])] at hbyte
      cases hbyte
  · rintro source rfl ⟨byte, hmem, hillegal⟩
    cases verdict source (fileName? path) with
    | read hlegal =>
      rw [hlegal byte hmem] at hillegal
      cases hillegal
    | @failed front behind error hbytes hfront hbyte hposition _ houtcome =>
      obtain ⟨line, hline⟩ := Line.exists_locate (offset_le_of_position hbytes hposition)
      have hanswer := answerFile_of_error session houtcome hline
      have hisAt := Line.isAt_of_locate hline
      rw [hposition] at hanswer hisAt
      exact ⟨error.byte, front, behind, line, hbytes, hfront, hbyte, hisAt, hanswer⟩
  · intro hnone
    refine answerFile_of_text_none (Option.eq_none_iff_forall_ne_some.mpr fun source htext => ?_)
    exact hnone source (fromUTF8?_eq_some_iff.mp htext)

end Session

/-- The case of two constructs with a syntax error between them, written as outlines, and of
one in front of a character outside the alphabet. -/
theorem Session.run_file_of_dollar :
    let session (path : String) : Session := ⟨⟨some path, true, ⟨' ', 2⟩⟩, Filter.standard.passes⟩
    let tree := FileTree.ofFiles ["home"] [("a/b.k", "1+x ) 2".toByteArray), ("c", "1 $".toByteArray)]
    ((session "a/b.k").options.file = some "a/b.k" ∧
      tree.read "a/b.k" = .ok "1+x ) 2".toByteArray ∧
      IsAllOrNothing (session "a/b.k") "a/b.k" "1+x ) 2".toByteArray
        ((session "a/b.k").run tree.read .empty) ∧
      (session "a/b.k").run tree.read .empty = ⟨⟨
        "bin op=+\n  lhs=\n    number=1\n  rhs=\n    variable=x\nnumber=2\n", [
        .logged ⟨.error, "kaleidoscope::errors::sink",
          "unknown token when expecting an expression: \")\"",
          [("offset", .number 4), ("source", .bare "b.k"), ("kind", .string "UnexpectedToken")]⟩,
        .logged ⟨.info, "kaleidoscope", "parsed a/b.k", [("count", .number 2)]⟩]⟩, 0⟩) ∧
    (tree.read "/home/c" = .ok "1 $".toByteArray ∧
      IsAllOrNothing (session "/home/c") "/home/c" "1 $".toByteArray
        ((session "/home/c").run tree.read .empty) ∧
      (session "/home/c").run tree.read .empty = ⟨⟨"", [
        .shown ("Error: UnrecognisedCharacter (could not continue lexing, unknown character " ++
          "found: '$')\n-> c\n  |\n1 | 1 $\n  | --^\n"),
        .logged ⟨.error, "kaleidoscope",
          "could not continue lexing, unknown character found: '$'", []⟩]⟩, 1⟩) := by
  refine ⟨⟨rfl, rfl, Session.run_file rfl rfl .empty, ?_⟩,
    rfl, Session.run_file rfl rfl .empty, ?_⟩
  · decide +kernel
  · decide +kernel

/-- The session breaks off over a file of which only the last byte is not of the alphabet. -/
theorem Session.panics_over_file_of_digits :
    let session : Session := ⟨⟨some "a", false, ⟨' ', 2⟩⟩, Filter.standard.passes⟩
    let source := String.ofList (List.replicate 65535 '1' ++ ['$'])
    tokenize source "a" = .error ⟨0x24, ⟨65535, "a"⟩⟩ ∧
      (session.run (fun _ => .ok source.toByteArray) .empty).status = 101 := by
  intro session source
  have htokens : tokenize source "a" = .error ⟨0x24, ⟨65535, "a"⟩⟩ := tokenize_digits 65535 "a"
  refine ⟨htokens, ?_⟩
  cases verdict source "a" with
  | read _ hread =>
    rw [htokens] at hread
    cases hread
  | failed hbytes _ _ hposition hfailed houtcome =>
    obtain rfl := Except.error.inj (htokens.symm.trans hfailed)
    have hline : Line.locate source (65535 : UInt32).toNat = some ⟨1, source.toList, 65535⟩ :=
      locate_of_not_mem (not_mem_digits 65535) (offset_le_of_position hbytes hposition)
    have hwide : ¬ Line.dashes ⟨1, source.toList, (65535 : UInt32).toNat⟩ ≤ 65534 := by
      rw [String.toList_ofList, Line.dashes_digits]
      decide
    have hanswer : session.answerFile "a" (.ok source.toByteArray) = _ :=
      answerFile_of_error session houtcome hline
    exact congrArg Transcript.status (hanswer.trans (if_neg hwide))

end ExprLang
