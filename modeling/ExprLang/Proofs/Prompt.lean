import ExprLang.Subscriber
import ExprLang.Proofs.Reports
import ExprLang.Proofs.Verdict

/-!
Sessions at the prompt. Every line is answered by itself: what is written about it is a
function of the line alone, which no line in front of it and nothing behind it changes. The
session goes on over all lines up to the word that ends it, up to the end of the input, or up
to a line that is no text. A line with an error so far to the right that no caret can be put
below it makes the session break off.
-/
namespace ExprLang

def isQuit (line : String) : Bool := decide (trim line.toList = "quit".toList)

/-- A line of bytes in front of others. Only the last one may be without its line feed. -/
def IsByteLine (line behind : List UInt8) : Prop :=
  (∃ chunk, line = chunk ++ [0x0A] ∧ 0x0A ∉ chunk) ∨ 0x0A ∉ line ∧ behind = []

def IsTooWide (line : String) : Prop :=
  ∃ error, tokenize line none = .error error ∧
    65534 < Line.dashes ⟨1, line.toList, error.position.offset.toNat⟩

namespace Session

def reply (session : Session) (line : String) : Output × Option UInt32 :=
  session.answer line (parse line none)

/-- What is written over lines that are answered one after another, each of them asked for. -/
def dialogue (session : Session) (lines : List String) : Output :=
  ⟨String.join (lines.map fun line => "ready> " ++ (session.reply line).1.out),
    lines.flatMap fun line => (session.reply line).1.err⟩

/-- What is right to write about a line by itself, behind the log of the line: all its nodes,
or the report of its lexical error on the first and only line of the source. -/
inductive Answers (session : Session) (line : String) : Output × Option UInt32 → Prop
  | read {tokens nodes} (htokens : tokenize line none = .ok tokens)
      (hnodes : (parse line none).outcome = .ok nodes) :
      Answers session line (⟨printed session.options nodes,
        passing session.passes (parse line none).parser.records⟩, none)
  | failed {error} (htokens : tokenize line none = .error error) (hnarrow : ¬ IsTooWide line) :
      Answers session line (⟨"", passing session.passes (parse line none).parser.records ++
        [.shown (lexicalReport error.byte "shell"
          ⟨1, line.toList, error.position.offset.toNat⟩)]⟩, none)
  | broken (hwide : IsTooWide line) :
      Answers session line (⟨"", passing session.passes (parse line none).parser.records ++
        [.panicked]⟩, some 101)

end Session

structure IsolatesLines (session : Session) (read : String → Except ReadError ByteArray) :
    Prop where
  answers : ∀ text, ∀ line ∈ textLines text, session.Answers line (session.reply line)
  /-- All lines of a text up to the end or to the word that ends the session are answered. -/
  answered : ∀ text, (∀ line ∈ (textLines text).takeWhile (!isQuit ·), ¬ IsTooWide line) →
    session.run read ⟨(bytes text).toArray⟩ =
      ⟨session.dialogue ((textLines text).takeWhile (!isQuit ·)) ++
        ⟨"ready> " ++ if (textLines text).any isQuit then "" else "\n", []⟩, 0⟩
  /-- Nothing behind a line that ends the session matters, whether it is a text or not. -/
  unread : ∀ text behind, IsComplete text →
    (∃ line ∈ textLines text, isQuit line = true ∨ IsTooWide line) →
    session.run read ⟨(bytes text ++ behind).toArray⟩ = session.run read ⟨(bytes text).toArray⟩
  /-- A line that is no text ends the session as a failure behind the lines in front of it. -/
  garbled : ∀ text line behind, IsComplete text → (textLines text).any isQuit = false →
    (∀ line ∈ textLines text, ¬ IsTooWide line) →
    IsByteLine line behind → String.fromUTF8? ⟨line.toArray⟩ = none →
    session.run read ⟨(bytes text ++ (line ++ behind)).toArray⟩ =
      ⟨session.dialogue (textLines text) ++ ⟨"ready> ", passing session.passes
        [⟨.error, "kaleidoscope", "stream did not contain valid UTF-8", []⟩]⟩, 1⟩
  /-- The session breaks off over a line that is too wide, whatever comes behind it. -/
  panics : ∀ text front line behind, textLines text = front ++ line :: behind →
    front.any isQuit = false → (∀ line ∈ front, ¬ IsTooWide line) →
    isQuit line = false → IsTooWide line →
    session.run read ⟨(bytes text).toArray⟩ =
      ⟨session.dialogue front ++ ⟨"ready> ",
        passing session.passes (parse line none).parser.records ++ [.panicked]⟩, 101⟩

/-- A line of bytes is cut off in front of others. -/
theorem IsByteLine.byteLines_append {line behind : List UInt8} (h : IsByteLine line behind)
    (hne : line ≠ []) : byteLines (line ++ behind) = line :: byteLines behind := by
  obtain ⟨chunk, rfl, hchunk⟩ | ⟨hline, rfl⟩ := h
  · rw [List.append_assoc, List.singleton_append, byteLines_line hchunk]
  · rw [byteLines_append_of_not_mem hne hline]
    simp [byteLines]

/-- The lines of a text that is cut are those of its bytes. -/
theorem exists_byteLines_append {text : String} {front behind : List String}
    (h : textLines text = front ++ behind) : ∃ raws raws', byteLines (bytes text) = raws ++ raws' ∧
      raws.map lineText? = front.map some ∧ raws'.map lineText? = behind.map some := by
  have htexts := map_lineText?_byteLines text
  rwa [h, List.map_append, List.map_eq_append_iff] at htexts

namespace Session

variable {session : Session} {line : String} {lines front behind : List String}
  {raw : List UInt8} {raws : List (List UInt8)} {answer : Output × Option UInt32}

/-- Lines are answered rightly. -/
theorem answers_reply (hfeed : '\n' ∉ line.toList) :
    session.Answers line (session.reply line) := by
  cases verdict line none with
  | read _ htokens houtcome =>
    rw [reply, answer_of_ok houtcome]
    exact .read htokens houtcome
  | @failed front behind error hbytes _ _ hposition htokens houtcome =>
    have hfile : error.position.file = "shell" := by rw [hposition]; rfl
    have hreport := LexicalError.report_of_locate
      (locate_of_not_mem hfeed (offset_le_of_position hbytes hposition))
    rw [hfile] at hreport
    by_cases hwide : IsTooWide line
    · have hbeyond : 65534 < Line.dashes ⟨1, line.toList, error.position.offset.toNat⟩ := by
        obtain ⟨error', htokens', hbeyond⟩ := hwide
        obtain rfl := Except.error.inj (htokens.symm.trans htokens')
        exact hbeyond
      rw [if_neg (Nat.not_le_of_lt hbeyond)] at hreport
      rw [reply, answer_of_panic houtcome hreport]
      exact .broken hwide
    · have hwithin := Nat.le_of_not_lt fun hbeyond => hwide ⟨error, htokens, hbeyond⟩
      rw [if_pos hwithin] at hreport
      rw [reply, answer_of_report houtcome hreport]
      exact .failed htokens hwide

/-- The session goes on after a line that is not too wide. -/
theorem Answers.status_eq_none (h : session.Answers line answer) (hnarrow : ¬ IsTooWide line) :
    answer.2 = none := by
  cases h with
  | read | failed => rfl
  | broken hwide => exact absurd hwide hnarrow

theorem Answers.eq_of_isTooWide (h : session.Answers line answer) (hwide : IsTooWide line) :
    answer = (⟨"", passing session.passes (parse line none).parser.records ++ [.panicked]⟩,
      some 101) := by
  cases h with
  | read htokens =>
    obtain ⟨error, hfailed, -⟩ := hwide
    rw [htokens] at hfailed
    cases hfailed
  | failed _ hnarrow => exact absurd hwide hnarrow
  | broken => rfl

/-- What is written over lines and behind them comes behind what the first of them is
answered with. -/
theorem dialogue_cons_append (line : String) (lines : List String) (rest : Output) :
    session.dialogue (line :: lines) ++ rest =
      ⟨"ready> ", []⟩ ++ (session.reply line).1 ++ (session.dialogue lines ++ rest) := by
  obtain ⟨out, err⟩ := rest
  rcases hreply : (session.reply line).1 with ⟨lineOut, lineErr⟩
  simp [dialogue, hreply, String.append_assoc]

theorem answerLine_of_text (htext : lineText? raw = some line) (hquit : isQuit line = false) :
    session.answerLine (some raw) = session.reply line := by
  have hword : ¬ trim line.toList = "quit".toList := of_decide_eq_false hquit
  simp only [answerLine, htext, hword, if_false]
  rfl

/-- The session goes on after a line that does not end it. -/
theorem answerLines_cons_of_text (htext : lineText? raw = some line) (hquit : isQuit line = false)
    (hstatus : (session.reply line).2 = none) (rest : List (List UInt8)) :
    session.answerLines (raw :: rest) =
      ⟨⟨"ready> ", []⟩ ++ (session.reply line).1 ++ (session.answerLines rest).output,
        (session.answerLines rest).status⟩ := by
  simp only [answerLines, answerLine_of_text htext hquit, hstatus]
  rfl

/-- The session ends over a line that breaks it off. -/
theorem answerLines_cons_of_status {status : UInt32} (htext : lineText? raw = some line)
    (hquit : isQuit line = false) (hstatus : (session.reply line).2 = some status)
    (rest : List (List UInt8)) : session.answerLines (raw :: rest) =
      ⟨⟨"ready> ", []⟩ ++ (session.reply line).1, status⟩ := by
  simp only [answerLines, answerLine_of_text htext hquit, hstatus]
  rfl

/-- The word that ends the session is not answered. -/
theorem answerLines_cons_of_quit (htext : lineText? raw = some line) (hquit : isQuit line = true)
    (rest : List (List UInt8)) : session.answerLines (raw :: rest) = ⟨⟨"ready> ", []⟩, 0⟩ := by
  have hword : trim line.toList = "quit".toList := of_decide_eq_true hquit
  simp only [answerLines, answerLine, htext, hword, if_true]
  rfl

/-- The failure over a line that is no text ends the session. -/
theorem answerLines_cons_of_none (htext : lineText? raw = none) (rest : List (List UInt8)) :
    session.answerLines (raw :: rest) =
      ⟨⟨"ready> ", session.logFailure ReadError.notText.message⟩, 1⟩ := by
  simp only [answerLines, answerLine, htext]
  rfl

/-- Lines are answered one after another, and then what stands behind them. -/
theorem answerLines_append (htexts : raws.map lineText? = lines.map some)
    (hquit : lines.any isQuit = false) (hstatus : ∀ line ∈ lines, (session.reply line).2 = none)
    (rest : List (List UInt8)) : session.answerLines (raws ++ rest) =
      ⟨session.dialogue lines ++ (session.answerLines rest).output,
        (session.answerLines rest).status⟩ := by
  induction lines generalizing raws with
  | nil =>
    obtain rfl := List.map_eq_nil_iff.mp htexts
    simp [dialogue]
  | cons line lines ih =>
    obtain ⟨raw, raws, rfl, htext, htexts⟩ := List.map_eq_cons_iff.mp htexts
    simp only [List.any_cons, Bool.or_eq_false_iff] at hquit
    obtain ⟨hfirst, hstatus⟩ := List.forall_mem_cons.mp hstatus
    rw [List.cons_append, answerLines_cons_of_text htext hquit.1 hfirst,
      ih htexts hquit.2 hstatus, dialogue_cons_append]

/-- Nothing is answered behind a line that ends the session. -/
theorem answerLines_append_of_end (htexts : raws.map lineText? = lines.map some)
    (hend : ∃ line ∈ lines, isQuit line = true ∨ (session.reply line).2.isSome)
    (rest : List (List UInt8)) :
    session.answerLines (raws ++ rest) = session.answerLines raws := by
  induction lines generalizing raws with
  | nil =>
    obtain ⟨line, hline, -⟩ := hend
    cases hline
  | cons line lines ih =>
    obtain ⟨raw, raws, rfl, htext, htexts⟩ := List.map_eq_cons_iff.mp htexts
    rw [List.cons_append]
    cases hline : isQuit line with
    | true => rw [answerLines_cons_of_quit htext hline, answerLines_cons_of_quit htext hline]
    | false =>
      cases hstatus : (session.reply line).2 with
      | none =>
        have hlater : ∃ line ∈ lines, isQuit line = true ∨ (session.reply line).2.isSome := by
          simpa [hline, hstatus] using hend
        rw [answerLines_cons_of_text htext hline hstatus,
          answerLines_cons_of_text htext hline hstatus, ih htexts hlater]
      | some status =>
        rw [answerLines_cons_of_status htext hline hstatus,
          answerLines_cons_of_status htext hline hstatus]

/-- The lines of a text are answered rightly. -/
theorem answers_of_mem {text : String} (hline : line ∈ textLines text) :
    session.Answers line (session.reply line) :=
  answers_reply (not_mem_of_mem_textLines hline)

/-- Lines of a text do not end the session if none of them is too wide. -/
theorem status_eq_none {text : String} (hlines : ∀ line ∈ lines, line ∈ textLines text)
    (hnarrow : ∀ line ∈ lines, ¬ IsTooWide line) :
    ∀ line ∈ lines, (session.reply line).2 = none := fun line hline =>
  (answers_of_mem (hlines line hline)).status_eq_none (hnarrow line hline)

/-- The first line that is the word that ends the session, or else the end of the input, is
met with a prompt and, in the latter case, with a line feed. -/
theorem answerLines_dropWhile
    (htexts : raws.map lineText? = (lines.dropWhile (!isQuit ·)).map some) :
    session.answerLines raws =
      ⟨⟨"ready> " ++ if lines.any isQuit then "" else "\n", []⟩, 0⟩ := by
  induction lines with
  | nil =>
    obtain rfl := List.map_eq_nil_iff.mp htexts
    rfl
  | cons line lines ih =>
    cases hline : isQuit line with
    | true =>
      rw [List.dropWhile_cons_of_neg (by simp [hline])] at htexts
      obtain ⟨raw, raws, rfl, htext, -⟩ := List.map_eq_cons_iff.mp htexts
      rw [answerLines_cons_of_quit htext hline, List.any_cons, hline]
      rfl
    | false =>
      rw [List.dropWhile_cons_of_pos (by simp [hline])] at htexts
      rw [ih htexts, List.any_cons, hline, Bool.false_or]

/-- All lines up to the word that ends the session, if none of them is too wide. -/
theorem answerLines_of_narrow (session : Session) {text : String}
    (hnarrow : ∀ line ∈ (textLines text).takeWhile (!isQuit ·), ¬ IsTooWide line) :
    session.answerLines (byteLines (bytes text)) =
      ⟨session.dialogue ((textLines text).takeWhile (!isQuit ·)) ++
        ⟨"ready> " ++ if (textLines text).any isQuit then "" else "\n", []⟩, 0⟩ := by
  obtain ⟨raws, raws', hraws, hfront, hbehind⟩ :=
    exists_byteLines_append (List.takeWhile_append_dropWhile (p := (!isQuit ·))).symm
  have hquit : ((textLines text).takeWhile (!isQuit ·)).any isQuit = false := by
    rw [List.any_eq_false]
    intro line hline
    simpa using List.mem_takeWhile_imp hline
  have hmem : ∀ line ∈ (textLines text).takeWhile (!isQuit ·), line ∈ textLines text :=
    fun line hline => List.takeWhile_subset _ hline
  rw [hraws, answerLines_append hfront hquit (status_eq_none hmem hnarrow),
    answerLines_dropWhile hbehind]

/-- A line that is too wide behind others that are not. -/
theorem answerLines_of_isTooWide (session : Session) {text : String}
    (htext : textLines text = front ++ line :: behind)
    (hfront : front.any isQuit = false) (hnarrow : ∀ line ∈ front, ¬ IsTooWide line)
    (hquit : isQuit line = false) (hwide : IsTooWide line) :
    session.answerLines (byteLines (bytes text)) = ⟨session.dialogue front ++ ⟨"ready> ",
      passing session.passes (parse line none).parser.records ++ [.panicked]⟩, 101⟩ := by
  obtain ⟨raws, raws', hraws, hfronts, hbehind⟩ := exists_byteLines_append htext
  obtain ⟨raw, raws', rfl, hline, -⟩ := List.map_eq_cons_iff.mp hbehind
  have hmem : ∀ other ∈ front, other ∈ textLines text := fun other hother => by
    simp [htext, hother]
  have hreply : session.reply line = _ :=
    (answers_of_mem (show line ∈ textLines text by simp [htext])).eq_of_isTooWide hwide
  rw [hraws, answerLines_append hfronts hfront (status_eq_none hmem hnarrow),
    answerLines_cons_of_status hline hquit (by rw [hreply]), hreply]
  rfl

/-- A line that is no text behind others that are not too wide. -/
theorem answerLines_of_garbled (session : Session) {text : String} {raw behind : List UInt8}
    (hcomplete : IsComplete text) (hquit : (textLines text).any isQuit = false)
    (hnarrow : ∀ line ∈ textLines text, ¬ IsTooWide line) (hraw : IsByteLine raw behind)
    (hnone : String.fromUTF8? ⟨raw.toArray⟩ = none) :
    session.answerLines (byteLines (bytes text ++ (raw ++ behind))) =
      ⟨session.dialogue (textLines text) ++ ⟨"ready> ", passing session.passes
        [⟨.error, "kaleidoscope", "stream did not contain valid UTF-8", []⟩]⟩, 1⟩ := by
  have hne : raw ≠ [] := by
    rintro rfl
    have hempty : String.fromUTF8? ⟨#[]⟩ = some "" := fromUTF8?_eq_some_iff.mpr rfl
    rw [hempty] at hnone
    cases hnone
  have htext : lineText? raw = none := by rw [lineText?, hnone]; rfl
  rw [ExprLang.byteLines_append hcomplete.getLast?_bytes, hraw.byteLines_append hne,
    answerLines_append (map_lineText?_byteLines text) hquit
      (status_eq_none (fun _ hline => hline) hnarrow),
    answerLines_cons_of_none htext]
  rfl

theorem run_of_file_none (hfile : session.options.file = none)
    {read : String → Except ReadError ByteArray} (input : List UInt8) :
    session.run read ⟨input.toArray⟩ = session.answerLines (byteLines input) := by
  simp only [run, hfile]

/-- A session without a file isolates the lines of its input. -/
theorem run_prompt (hfile : session.options.file = none)
    (read : String → Except ReadError ByteArray) : IsolatesLines session read where
  answers _ _ hline := answers_of_mem hline
  answered text hnarrow := by
    rw [run_of_file_none hfile]
    exact answerLines_of_narrow session hnarrow
  unread text behind hcomplete hend := by
    obtain ⟨line, hline, hends⟩ := hend
    have hstatus (hwide : IsTooWide line) : (session.reply line).2.isSome = true := by
      rw [(answers_of_mem hline).eq_of_isTooWide hwide]
      rfl
    rw [run_of_file_none hfile, run_of_file_none hfile,
      ExprLang.byteLines_append hcomplete.getLast?_bytes]
    exact answerLines_append_of_end (map_lineText?_byteLines text)
      ⟨line, hline, hends.imp_right hstatus⟩ _
  garbled text raw behind hcomplete hquit hnarrow hraw hnone := by
    rw [run_of_file_none hfile]
    exact answerLines_of_garbled session hcomplete hquit hnarrow hraw hnone
  panics text front line behind htext hfront hnarrow hquit hwide := by
    rw [run_of_file_none hfile]
    exact answerLines_of_isTooWide session htext hfront hnarrow hquit hwide

end Session

/-- The case of a lexical error between a node and the word that ends the session, with a
byte behind them that is no text. -/
theorem Session.run_prompt_of_dollar :
    let session : Session := ⟨⟨none, false, ⟨' ', 2⟩⟩, Filter.standard.passes⟩
    let read : String → Except ReadError ByteArray := fun _ => .error .notFound
    session.options.file = none ∧ IsolatesLines session read ∧
      session.run read ⟨(bytes "1 ) f(x)\n$\r\n quit\n" ++ [0xFF]).toArray⟩ =
        ⟨⟨"ready> 1\n(call f x)\nready> ready> ", [
          .logged ⟨.error, "kaleidoscope::errors::sink",
            "unknown token when expecting an expression: \")\"",
            [("offset", .number 2), ("source", .bare "shell"),
              ("kind", .string "UnexpectedToken")]⟩,
          .shown ("Error: UnrecognisedCharacter (could not continue lexing, unknown character " ++
            "found: '$')\n-> shell\n  |\n1 | $\n  | ^\n")]⟩, 0⟩ := by
  refine ⟨rfl, Session.run_prompt rfl _, ?_⟩
  decide +kernel

/-- White space is trimmed and nothing else. -/
theorem mem_trim {c : Char} {cs : List Char} (h : c ∈ cs) (hc : isWhiteSpace c = false) :
    c ∈ trim cs := by
  have hkept : ∀ l : List Char, c ∈ l → c ∈ l.dropWhile isWhiteSpace := by
    intro l hl
    rw [← List.takeWhile_append_dropWhile (p := isWhiteSpace) (l := l), List.mem_append] at hl
    refine hl.resolve_left fun hwhite => ?_
    rw [List.mem_takeWhile_imp hwhite] at hc
    cases hc
  rw [trim, trimEnd, List.mem_reverse]
  exact hkept _ (List.mem_reverse.mpr (hkept cs h))

/-- Digits in front of a dollar sign make a line too wide if they are too many. -/
theorem isTooWide_digits {n : Nat} (hn : 65534 < n) (hfits : n < UInt32.size) :
    IsTooWide (String.ofList (List.replicate n '1' ++ ['$'])) := by
  refine ⟨_, tokenize_digits n none, ?_⟩
  rw [String.toList_ofList, Line.dashes_digits, Nat.toUInt32, UInt32.toNat_ofNat_of_lt' hfits]
  exact hn

theorem isQuit_digits {n : Nat} (hn : 0 < n) :
    isQuit (String.ofList (List.replicate n '1' ++ ['$'])) = false := by
  refine decide_eq_false fun hword => ?_
  rw [String.toList_ofList] at hword
  have hdigit : '1' ∈ List.replicate n '1' ++ ['$'] := by simp [hn.ne']
  have hmem := mem_trim hdigit (by decide)
  rw [hword] at hmem
  exact absurd hmem (by decide)

theorem textLines_digits (n : Nat) : textLines (String.ofList (List.replicate n '1' ++ ['$'])) =
    [String.ofList (List.replicate n '1' ++ ['$'])] := by
  rw [textLines, String.toList_ofList, linesOf_of_not_mem (by simp) (by simp), List.map_singleton]

/-- The session breaks off over a line of which only the last character is not of the
alphabet. -/
theorem Session.panics_over_digits :
    let session : Session := ⟨⟨none, false, ⟨' ', 2⟩⟩, Filter.standard.passes⟩
    let line := String.ofList (List.replicate 65535 '1' ++ ['$'])
    tokenize line none = .error ⟨0x24, ⟨65535, "shell"⟩⟩ ∧ isQuit line = false ∧
      (session.run (fun _ => .error .notFound) ⟨(bytes line).toArray⟩).status = 101 := by
  intro session line
  have hquit : isQuit line = false := isQuit_digits (by decide)
  have hwide : IsTooWide line := isTooWide_digits (by decide) (by decide)
  have hlines : textLines line = [] ++ line :: [] := textLines_digits 65535
  have hbroken := answerLines_of_isTooWide session hlines rfl
    (List.forall_mem_nil _) hquit hwide
  refine ⟨tokenize_digits 65535 none, hquit, ?_⟩
  rw [run_of_file_none rfl, hbroken]

end ExprLang
