import ExprLang.Proofs.Accounts
import ExprLang.Proofs.LineOfOffset
import ExprLang.Proofs.Reports
import ExprLang.Proofs.Verdict

/-!
The caret below a line. Errors are reported where a token starts, at the end of the input, or
at a character outside the alphabet. In front of such a place stand only characters of one
byte each, and no blank stands at it. So the column that the caret is put in, counted in bytes
and without the indentation of the line, is the column of the reported character in the line
as it is shown.
-/
namespace ExprLang

open Lexer (Stream)

/-- What a caret behind these dashes stands under, where `right` is what is left of the line
at the offset and `below` is what comes behind the line: the character at the offset, or
nothing, to the right of what is shown. -/
inductive StandsUnder (shown right below : List Char) (dashes : Nat) : Prop
  | character (hinside : dashes < shown.length) (hsame : shown[dashes]? = right.head?)
  | endOfInput (hbeyond : shown.length ≤ dashes) (hright : right = []) (hbelow : below = [])
  | whiteSpace (hbeyond : shown.length ≤ dashes) (hright : right ≠ [])
      (hwhite : ∀ c ∈ right, isWhiteSpace c = true)

/-- A caret behind these dashes marks an offset of a source on the line that the offset is on.
The line is shown without the indentation in front and the white space at its end. There are
as many characters between its indentation and the offset as there are dashes, and as many
bytes. -/
structure Marks (source : String) (offset : Nat) (line : Line) (shown : List Char)
    (dashes : Nat) : Prop where
  isAt : line.IsAt (bytes source) offset
  shown_eq : shown = (line.text.dropWhile isIndentation).rdropWhile isWhiteSpace
  column_eq : line.column = (line.text.takeWhile isIndentation).length + dashes
  standsUnder : ∃ above left right below, source.toList = above ++ (line.text ++ below) ∧
    line.text = line.text.takeWhile isIndentation ++ (left ++ right) ∧ left.length = dashes ∧
    byteLength (above ++ (line.text.takeWhile isIndentation ++ left)) = offset ∧
    StandsUnder shown right below dashes

/-- The report of an error names it with its tip and its source, and ends with the line of
the error above a caret that marks it. There is a report if the caret is the last of at most
65535 characters. -/
def ShowsPlace (name tip : String) (position : Position) (source : String)
    (report : Option String) : Prop :=
  ∃ line shown dashes, Marks source position.offset.toNat line shown dashes ∧
    report = if dashes ≤ 65534 then
      some ("Error: " ++ name ++ " (" ++ tip ++ ")\n" ++ "-> " ++ position.file ++ "\n" ++
        marked line.number shown dashes)
    else none

def IsStop (source : String) (offset : Nat) : Prop :=
  ∃ front behind, source.toList = front ++ behind ∧ (∀ c ∈ front, isLegalChar c = true) ∧
    offset = front.length ∧ ∀ c ∈ behind.head?, isBlank c = false

section Places

variable {file : String} {offset : Nat} {text : List Char} {tokens segment rest left : List Token}
  {last : Except LexicalError Token} {call : Call} {calls : List Call}
  {segments : List (List Token)} {token : Token}

/-- A token starts behind characters of the alphabet and not with a blank. -/
theorem Tiles.exists_start (h : Tiles file offset text tokens last) (htoken : token ∈ tokens) :
    ∃ front behind, text = front ++ behind ∧ (∀ c ∈ front, isLegalChar c = true) ∧
      token.span.start = ⟨(offset + front.length).toUInt32, file⟩ ∧
      ∀ c ∈ behind.head?, isBlank c = false := by
  induction h with
  | finish | stuck => cases htoken
  | @token offset blanks text kind behind tokens last hblanks hmunch hrest ih =>
    rcases List.mem_cons.mp htoken with rfl | htoken
    · exact ⟨blanks, text, rfl, Tiles.isLegalChar_of_blanks hblanks, rfl,
        Token.Kind.isBlank_of_munch? hmunch⟩
    · obtain ⟨front, behind, rfl, hfront, hstart, hbehind⟩ := ih htoken
      have hspelling := Token.Kind.isLegalChar_of_munch? hmunch
      obtain ⟨rfl, -⟩ := Token.Kind.munch?_eq_some _ _ _ hmunch
      refine ⟨blanks ++ (kind.spelling.toList ++ front), behind, by simp, ?_, ?_, hbehind⟩
      · simp only [List.forall_mem_append]
        exact ⟨Tiles.isLegalChar_of_blanks hblanks, hspelling, hfront⟩
      · rw [hstart]
        simp only [List.length_append, String.length_toList, Nat.add_assoc]

/-- A call reports the start of a token that it takes, or the end of the input. -/
theorem Call.Takes.reports_start (h : call.Takes last segment rest) {diagnostic : Diagnostic}
    (hmem : diagnostic ∈ call.reports) :
    (∃ token ∈ segment, diagnostic.position = token.span.start) ∨
      ∃ final, last = .ok final ∧ diagnostic.position = final.span.start := by
  cases h with
  | construct hread hkept =>
    rw [reports, hkept, ← Array.length_toList, List.drop_length] at hmem
    cases hmem
  | @recovery before after reported segment culprit rest hfail hreport =>
    obtain rfl : diagnostic = reported := by simpa [reports, hreport] using hmem
    obtain ⟨token, hhead, hposition, -⟩ := hfail.isAt
    obtain rfl := Except.ok.inj hhead
    exact .inl ⟨culprit, by simp, hposition⟩
  | @recoveryAtEnd before after reported segment hfail hreport =>
    obtain rfl : diagnostic = reported := by simpa [reports, hreport] using hmem
    obtain ⟨token, hhead, hposition, -⟩ := hfail.isAt
    exact .inr ⟨token, hhead, hposition⟩

theorem Covers.reports_start (h : Covers last left calls segments) {diagnostic : Diagnostic}
    (hmem : diagnostic ∈ calls.flatMap Call.reports) :
    (∃ token ∈ segments.flatten, diagnostic.position = token.span.start) ∨
      ∃ final, last = .ok final ∧ diagnostic.position = final.span.start := by
  induction h with
  | nil => simp at hmem
  | cons hne hbefore hafter htakes hrest ih =>
    rw [List.flatMap_cons, List.mem_append] at hmem
    rcases hmem with hfirst | hlater
    · exact (htakes.reports_start hfirst).imp_left fun ⟨token, htoken, hposition⟩ =>
        ⟨token, List.mem_append_left _ htoken, hposition⟩
    · exact (ih hlater).imp_left fun ⟨token, htoken, hposition⟩ =>
        ⟨token, List.mem_append_right _ htoken, hposition⟩

end Places

section Stops

variable {source : String} {file : Option String}

theorem toNat_toUInt32_length {front behind : List Char} (hsize : source.utf8ByteSize < UInt32.size)
    (htext : source.toList = front ++ behind) : front.length.toUInt32.toNat = front.length := by
  apply UInt32.toNat_ofNat_of_lt'
  have hlength := length_le_utf8ByteSize source
  rw [htext, List.length_append] at hlength
  omega

/-- Diagnostics are about places without a blank behind characters of the alphabet. -/
theorem isStop_of_mem_diagnostics (hsize : source.utf8ByteSize < UInt32.size)
    {diagnostic : Diagnostic} (hmem : diagnostic ∈ (parse source file).parser.diagnostics) :
    IsStop source diagnostic.position.offset.toNat := by
  have htiles := Lexer.tiles_ofSource source file
  have hahead : (Parser.ofSource source file).ahead =
      ⟨(Lexer.ofSource source file).stream.tokens, (Lexer.ofSource source file).stream.last⟩ := rfl
  obtain ⟨calls, outcome, hrun, -⟩ := parse_run source file
  obtain ⟨segments, left, htokens, hcovers, -, -, hreports⟩ := hrun.covers hahead
  rw [← Array.mem_toList_iff, hreports] at hmem
  rcases hcovers.reports_start hmem with ⟨token, htoken, hposition⟩ | ⟨final, hlast, hposition⟩
  · have htoken' : token ∈ (Lexer.ofSource source file).stream.tokens := by
      rw [htokens]
      exact List.mem_append_left _ htoken
    obtain ⟨front, behind, htext, hfront, hstart, hbehind⟩ := htiles.exists_start htoken'
    refine ⟨front, behind, htext, hfront, ?_, hbehind⟩
    rw [hposition, hstart, Nat.zero_add]
    exact toNat_toUInt32_length hsize htext
  · rw [hlast] at htiles
    refine ⟨source.toList, [], by simp, htiles.isLegalChar_of_ok, ?_, by simp⟩
    rw [hposition, htiles.final_eq, Nat.zero_add]
    exact toNat_toUInt32_length hsize (List.append_nil _).symm

/-- The character that reading stops at is outside the alphabet, so it is no blank. -/
theorem isStop_of_error (hsize : source.utf8ByteSize < UInt32.size) {error : LexicalError}
    (h : (parse source file).outcome = .error error) :
    IsStop source error.position.offset.toNat := by
  obtain ⟨nodes, houtcome, -⟩ := parse_ends source file
  have htiles := Lexer.tiles_ofSource source file
  cases hlast : (Lexer.ofSource source file).stream.last with
  | ok final =>
    rw [hlast, h] at houtcome
    cases houtcome
  | error other =>
    rw [hlast, h] at houtcome
    obtain rfl := Except.error.inj houtcome
    rw [hlast] at htiles
    obtain ⟨front, c, behind, htext, hfront, hc, rfl⟩ := htiles.exists_of_error
    refine ⟨front, c :: behind, htext, hfront, ?_, ?_⟩
    · rw [Nat.zero_add]
      exact toNat_toUInt32_length hsize htext
    · rintro d hd
      obtain rfl : c = d := by simpa using hd
      simp only [isLegalChar, Bool.or_eq_false_iff] at hc
      exact hc.2

end Stops

section Columns

variable {a b l left right front : List Char} {p : Char → Bool}

theorem byteLength_of_isLegalChar (h : ∀ c ∈ front, isLegalChar c = true) :
    byteLength front = front.length := by
  have hsize : (String.ofList front).utf8ByteSize = (String.ofList front).toList.length :=
    utf8ByteSize_of_isLegalChar (by rwa [String.toList_ofList])
  rwa [← length_bytes, length_bytes_eq_byteLength, String.toList_ofList] at hsize

/-- Of two beginnings of a text the one with fewer bytes is the shorter one. -/
theorem prefix_of_byteLength_le (ha : a <+: l) (hb : b <+: l)
    (hle : byteLength a ≤ byteLength b) : a <+: b := by
  rcases List.prefix_or_prefix_of_prefix ha hb with hprefix | ⟨rest, rfl⟩
  · exact hprefix
  · rw [byteLength_append] at hle
    cases rest with
    | nil => exact ⟨[], by simp⟩
    | cons c rest =>
      have hpositive := c.utf8Size_pos
      simp only [byteLength, List.foldr_cons] at hle
      omega

/-- What is dropped from the end of a text reaches into its first part only if all of the
second part is dropped. -/
theorem rdropWhile_append (p : Char → Bool) (left right : List Char) :
    (left ++ right).rdropWhile p =
      if right.rdropWhile p = [] then left.rdropWhile p else left ++ right.rdropWhile p := by
  simp only [List.rdropWhile, List.reverse_append, List.dropWhile_append, List.isEmpty_iff,
    List.reverse_eq_nil_iff]
  split <;> simp

/-- The shown part of a line at a place in it: it goes on there as the line does, or nothing
but white space is left of the line. -/
theorem getElem?_rdropWhile (p : Char → Bool) (left right : List Char) :
    (left.length < ((left ++ right).rdropWhile p).length ∧
      ((left ++ right).rdropWhile p)[left.length]? = right.head?) ∨
    (((left ++ right).rdropWhile p).length ≤ left.length ∧ ∀ c ∈ right, p c = true) := by
  rw [rdropWhile_append]
  split
  · next hnone =>
    exact .inr ⟨(List.rdropWhile_prefix p left).length_le, List.rdropWhile_eq_nil_iff.mp hnone⟩
  · next hsome =>
    have hpositive := List.length_pos_iff.mpr hsome
    refine .inl ⟨by rw [List.length_append]; omega, ?_⟩
    obtain ⟨first, shown, hshown⟩ := List.exists_cons_of_ne_nil hsome
    obtain ⟨dropped, hright⟩ := List.rdropWhile_prefix p right
    rw [List.getElem?_append_right le_rfl, Nat.sub_self, hshown, ← hright, hshown]
    rfl

theorem isBlank_of_isIndentation {c : Char} (h : isIndentation c = true) : isBlank c = true := by
  simp only [isIndentation, Bool.or_eq_true, beq_iff_eq] at h
  rcases h with rfl | rfl <;> decide

/-- The indentation of a line ends in front of a character that is no blank. -/
theorem exists_indentation (left : List Char) (hright : ∀ c ∈ right.head?, isBlank c = false) :
    ∃ rest, left = (left ++ right).takeWhile isIndentation ++ rest ∧
      (left ++ right).dropWhile isIndentation = rest ++ right := by
  have hhead : ∀ c ∈ (left.dropWhile isIndentation ++ right).head?, isIndentation c = false := by
    intro c hc
    cases hrest : left.dropWhile isIndentation with
    | nil =>
      rw [hrest] at hc
      cases hindent : isIndentation c with
      | false => rfl
      | true => exact absurd (hright c hc) (by simp [isBlank_of_isIndentation hindent])
    | cons d rest =>
      have hfirst := List.head?_dropWhile_not isIndentation left
      rw [hrest] at hc hfirst
      obtain rfl : d = c := by simpa using hc
      simpa using hfirst
  have hrun : ∀ c ∈ left.takeWhile isIndentation, isIndentation c = true :=
    fun c hc => List.mem_takeWhile_imp hc
  have hsplit : left.takeWhile isIndentation ++ (left.dropWhile isIndentation ++ right) =
      left ++ right := by
    rw [← List.append_assoc, List.takeWhile_append_dropWhile]
  have htake := takeWhile_run hrun hhead
  have hdrop := dropWhile_run hrun hhead
  rw [hsplit] at htake hdrop
  exact ⟨left.dropWhile isIndentation, by rw [htake, List.takeWhile_append_dropWhile], hdrop⟩

end Columns

section Reports

variable {source : String} {offset : Nat}

/-- At such a place the caret is put right. -/
theorem IsStop.marks (h : IsStop source offset) :
    ∃ line dashes, Line.locate source offset = some line ∧
      Marks source offset line ((line.text.dropWhile isIndentation).rdropWhile isWhiteSpace)
        dashes := by
  obtain ⟨front, behind, htext, hlegal, rfl, hbehind⟩ := h
  have hfront := byteLength_of_isLegalChar hlegal
  have hle : front.length ≤ (bytes source).length := by
    rw [length_bytes_eq_byteLength, htext, byteLength_append]
    omega
  obtain ⟨line, hline⟩ := Line.exists_locate hle
  obtain ⟨before, after, hsplit, -, hoffset, hcolumn, hinside⟩ := Line.exists_of_locate hline
  have hlines : source.toList = before.flatten ++ (line.text ++ after.flatten) := by
    rw [← Line.flatten_split source.toList, hsplit, List.flatten_append, List.flatten_cons]
  -- What stands in front of the offset ends with the beginning of the line.
  obtain ⟨start, rfl⟩ : before.flatten <+: front :=
    prefix_of_byteLength_le ⟨_, hlines.symm⟩ ⟨_, htext.symm⟩ (by omega)
  have hrest : start ++ behind = line.text ++ after.flatten := by
    rw [hlines, List.append_assoc] at htext
    exact (List.append_cancel_left htext).symm
  have hstart : byteLength start = line.column := by
    rw [byteLength_append] at hfront
    omega
  obtain ⟨right, hright⟩ : start <+: line.text :=
    prefix_of_byteLength_le ⟨_, hrest⟩ ⟨_, rfl⟩ (by omega)
  have hlegalStart : ∀ c ∈ start, isLegalChar c = true :=
    fun c hc => hlegal c (List.mem_append_right _ hc)
  have hbehind' : behind = right ++ after.flatten := by
    rw [← hright, List.append_assoc] at hrest
    exact List.append_cancel_left hrest
  have hblank : ∀ c ∈ right.head?, isBlank c = false := by
    intro c hc
    refine hbehind c ?_
    rw [hbehind', List.head?_append, Option.mem_def.mp hc]
    rfl
  have hend : right = [] → after = [] := by
    rintro rfl
    rw [List.append_nil] at hright
    by_contra hafter
    exact absurd (hinside hafter) (by rw [← hright, hstart]; omega)
  obtain ⟨left, hindent, hdrop⟩ := exists_indentation start hblank
  rw [hright] at hindent hdrop
  have hlength : line.column = (line.text.takeWhile isIndentation).length + left.length := by
    rw [← hstart, byteLength_of_isLegalChar hlegalStart, ← List.length_append, ← hindent]
  refine ⟨line, left.length, hline, Line.isAt_of_locate hline, rfl, hlength,
    before.flatten, left, right, after.flatten, hlines, ?_, rfl, ?_, ?_⟩
  · rw [← List.append_assoc, ← hindent, hright]
  · rw [← hindent, hfront]
  · rw [hdrop]
    rcases getElem?_rdropWhile isWhiteSpace left right with ⟨hinside, hsame⟩ | ⟨hbeyond, hwhite⟩
    · exact .character hinside hsame
    · by_cases hnil : right = []
      · exact .endOfInput hbeyond hnil (by rw [hend hnil, List.flatten_nil])
      · exact .whiteSpace hbeyond hnil hwhite

/-- A report at such a place shows it. -/
theorem IsStop.showsPlace {position : Position} (h : IsStop source position.offset.toNat)
    (name tip : String) :
    ShowsPlace name tip position source (report name (some tip) position source) := by
  obtain ⟨line, dashes, hline, hmarks⟩ := h.marks
  have hdashes : line.dashes = dashes := by rw [Line.dashes, hmarks.column_eq, Nat.add_sub_cancel_left]
  refine ⟨line, line.shown, line.dashes, hdashes ▸ hmarks, ?_⟩
  rw [report_of_locate hline]

end Reports

/-- Carets mark the places of the errors. The report of every diagnostic and of the error that
stopped the reading ends with the margin, the line that the error is on, with its number, and
the caret. The caret stands below the character that the error is about. Only at the end of
the input, or at a character of the white space at the end of the line, which is not shown,
there is none above it, and it stands to the right of the line. -/
theorem parse_reports_marked (source : String) (file : Option String)
    (hsize : source.utf8ByteSize < UInt32.size) :
    (∀ diagnostic ∈ (parse source file).parser.diagnostics,
      ShowsPlace diagnostic.cause.name diagnostic.cause.tip diagnostic.position source
        (diagnostic.report source)) ∧
      ∀ error, (parse source file).outcome = .error error →
        ShowsPlace LexicalError.name error.message error.position source (error.report source) :=
  ⟨fun _ hmem => (isStop_of_mem_diagnostics hsize hmem).showsPlace _ _,
    fun _ h => (isStop_of_error hsize h).showsPlace _ _⟩

/-- The case of a stray parenthesis on an indented line that ends with a wide space. -/
theorem parse_reports_marked_of_indented : "1 +\n\t) 2\u3000".utf8ByteSize < UInt32.size ∧
    (∃ diagnostic, (parse "1 +\n\t) 2\u3000" none).parser.diagnostics = #[diagnostic] ∧
      ShowsPlace diagnostic.cause.name diagnostic.cause.tip diagnostic.position "1 +\n\t) 2\u3000"
        (diagnostic.report "1 +\n\t) 2\u3000")) ∧
    ∃ error, (parse "1 +\n\t) 2\u3000" none).outcome = .error error ∧
      ShowsPlace LexicalError.name error.message error.position "1 +\n\t) 2\u3000"
        (error.report "1 +\n\t) 2\u3000") := by
  have hsize : "1 +\n\t) 2\u3000".utf8ByteSize < UInt32.size := by decide +kernel
  have hcount : (parse "1 +\n\t) 2\u3000" none).parser.diagnostics.size = 1 := by decide +kernel
  have herror : (parse "1 +\n\t) 2\u3000" none).outcome.map (fun _ => ()) =
      .error ⟨0xE3, ⟨8, "shell"⟩⟩ := by
    decide +kernel
  obtain ⟨hdiagnostics, hstopped⟩ := parse_reports_marked "1 +\n\t) 2\u3000" none hsize
  obtain ⟨diagnostic, hdiagnostic⟩ := Array.size_eq_one_iff.mp hcount
  have houtcome : (parse "1 +\n\t) 2\u3000" none).outcome = .error ⟨0xE3, ⟨8, "shell"⟩⟩ := by
    cases hparse : (parse "1 +\n\t) 2\u3000" none).outcome with
    | ok nodes =>
      rw [hparse] at herror
      cases herror
    | error error =>
      rw [hparse] at herror
      exact congrArg _ (Except.error.inj herror)
  exact ⟨hsize, ⟨diagnostic, hdiagnostic, hdiagnostics diagnostic (by simp [hdiagnostic])⟩,
    _, houtcome, hstopped _ houtcome⟩

end ExprLang
