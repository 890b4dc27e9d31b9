import ExprLang.LexicalError
import ExprLang.Proofs.TextLines
import Mathlib.Data.List.DropRight

/-!
What a report looks like. It ends with a line of the source above a caret, and the caret is
the last of a run of characters that formatting cannot make longer than 65535: where it would
have to stand further to the right there is no report.
-/
namespace ExprLang

/-- The end of a report: the margin, a line behind its number, and a caret behind dashes. The
bar of the margin stands in the same column in all three lines. -/
def marked (number : Nat) (shown : List Char) (dashes : Nat) : String :=
  let margin := "".pushn ' ' (number.repr.length + 1) ++ "|"
  margin ++ "\n" ++ number.repr ++ " | " ++ String.ofList shown ++ "\n" ++
    margin ++ " " ++ "".pushn '-' dashes ++ "^\n"

def Line.shown (line : Line) : List Char :=
  (line.text.dropWhile isIndentation).rdropWhile isWhiteSpace

/-- How many characters stand between the indentation and the column. -/
def Line.dashes (line : Line) : Nat := line.column - (line.text.takeWhile isIndentation).length

section Formatting

variable {source : String}

theorem setRight?_caret (dashes : Nat) : setRight? '-' (dashes + 1) "^" =
    if dashes ≤ 65534 then some ("".pushn '-' dashes ++ "^") else none := by
  have hwidth : dashes + 1 ≤ widestField ↔ dashes ≤ 65534 := by
    rw [widestField]
    omega
  simp only [setRight?, hwidth]
  rfl

/-- The excerpt of a line. -/
theorem Line.excerpt_eq_marked (line : Line) : line.excerpt =
    if line.dashes ≤ 65534 then some (marked line.number line.shown line.dashes) else none := by
  rw [excerpt, ← dashes, setRight?_caret]
  split
  · simp only [Option.map_some, marked, gutter, String.append_assoc]
    rfl
  · rfl

/-- A report about a place in the text. -/
theorem report_of_locate {position : Position} {line : Line} {name tip : String}
    (hline : Line.locate source position.offset.toNat = some line) :
    report name (some tip) position source = if line.dashes ≤ 65534 then
      some ("Error: " ++ name ++ " (" ++ tip ++ ")\n" ++ "-> " ++ position.file ++ "\n" ++
        marked line.number line.shown line.dashes)
    else none := by
  unfold report
  rw [hline]
  simp only [Line.excerpt_eq_marked]
  split <;> rfl

def lexicalMessage (byte : UInt8) : String :=
  "could not continue lexing, unknown character found: '" ++ byteText byte ++ "'"

def lexicalReport (byte : UInt8) (file : String) (line : Line) : String :=
  "Error: UnrecognisedCharacter (" ++ lexicalMessage byte ++ ")\n" ++ "-> " ++ file ++ "\n" ++
    marked line.number line.shown line.dashes

theorem LexicalError.report_of_locate {error : LexicalError} {line : Line}
    (hline : Line.locate source error.position.offset.toNat = some line) :
    error.report source = if line.dashes ≤ 65534 then
      some (lexicalReport error.byte error.position.file line) else none :=
  ExprLang.report_of_locate hline

theorem split_of_not_mem {cs : List Char} (h : '\n' ∉ cs) : Line.split cs = [cs] := by
  induction cs with
  | nil => rfl
  | cons c cs ih =>
    obtain ⟨hc, hcs⟩ := List.ne_and_not_mem_of_not_mem_cons h
    rw [Line.split, if_neg (Ne.symm hc), ih hcs]

/-- Every place in a text without a line feed is on its first line. -/
theorem locate_of_not_mem {offset : Nat} (hfeed : '\n' ∉ source.toList)
    (hoffset : offset ≤ (bytes source).length) :
    Line.locate source offset = some ⟨1, source.toList, offset⟩ := by
  rw [length_bytes_eq_byteLength] at hoffset
  rw [Line.locate, split_of_not_mem hfeed, Line.locateIn, if_pos hoffset]

theorem not_mem_digits (n : Nat) :
    '\n' ∉ (String.ofList (List.replicate n '1' ++ ['$'])).toList := by
  simp

/-- A line of digits has no indentation. -/
theorem Line.dashes_digits (n : Nat) (column : Nat) :
    Line.dashes ⟨1, List.replicate n '1' ++ ['$'], column⟩ = column := by
  cases n <;> simp [dashes, List.replicate_succ, isIndentation]

end Formatting

end ExprLang
