import ExprLang.File
import ExprLang.Grammar
import ExprLang.Log
import ExprLang.Options

/-!
Sessions of the program. A session reads one file as a whole, or answers the
lines typed at a prompt one by one and each for itself. It prints the nodes it
reads; the log and the reports of lexical errors go to the error stream.
-/
namespace ExprLang

/-- What is put on the error stream: a record of the log, a text, or what is told
of a panic. How a record is written, with its time and its colours, and how a panic
is told lies outside the program. -/
inductive Notice where
  | logged (record : Record)
  | shown (text : String)
  | panicked
deriving DecidableEq

structure Output where
  out : String
  err : List Notice
deriving DecidableEq

instance : Append Output := ⟨fun first second =>
  ⟨first.out ++ second.out, first.err ++ second.err⟩⟩

structure Transcript where
  output : Output
  status : UInt32
deriving DecidableEq

/-- How a session prints, and the filter of its log. What a filter lets through is
up to the library that the records are handed to. -/
structure Session where
  options : Options
  passes : Record → Bool

def panicStatus : UInt32 := 101

/-- The lines of a stream of bytes with their line feeds. What follows the last
line feed is a line if it is not empty. -/
def byteLines : List UInt8 → List (List UInt8)
  | [] => []
  | byte :: bytes =>
    if byte = 0x0A then [byte] :: byteLines bytes
    else match byteLines bytes with
      | [] => [[byte]]
      | line :: lines => (byte :: line) :: lines

/-- Cutting a stream into lines loses nothing. -/
theorem flatten_byteLines (bytes : List UInt8) : (byteLines bytes).flatten = bytes := by
  induction bytes with
  | nil => rfl
  | cons byte bytes ih =>
    unfold byteLines
    split
    · simp [ih]
    · split
      · next h =>
        rw [h] at ih
        simpa using ih
      · next line lines h =>
        rw [h] at ih
        simpa using ih

def lineText? (line : List UInt8) : Option String :=
  (String.fromUTF8? ⟨line.toArray⟩).map fun text =>
    match text.toList.reverse with
    | '\n' :: '\r' :: cs => String.ofList cs.reverse
    | '\n' :: cs => String.ofList cs.reverse
    | _ => text

namespace Session

def target : String := "kaleidoscope"

def promptText : String := "ready> "

def log (session : Session) (records : List Record) : List Notice :=
  (records.filter session.passes).map .logged

def logFailure (session : Session) (message : String) : List Notice :=
  session.log [⟨.error, target, message, []⟩]

def print (session : Session) (node : Node) : String :=
  if session.options.outline then node.writeOutline session.options.indent 0 ""
  else node.sexpr ++ "\n"

/-- What is written about a source that was read: the nodes if there was no
lexical error, and the report of the error if there was one. The session ends
with the status that is given besides if making the report panics. -/
def answer (session : Session) (source : String) (parsed : Parsed) : Output × Option UInt32 :=
  let events := session.log parsed.parser.records
  match parsed.outcome with
  | .ok nodes => (⟨String.join (nodes.map session.print), events⟩, none)
  | .error error =>
    match error.report source with
    | some text => (⟨"", events ++ [.shown text]⟩, none)
    | none => (⟨"", events ++ [.panicked]⟩, some panicStatus)

def answerFile (session : Session) (path : String) (content : Except ReadError ByteArray) :
    Transcript :=
  let text : Except ReadError String := do
    match String.fromUTF8? (← content) with
    | some text => .ok text
    | none => .error .notText
  match text with
  | .error error =>
    ⟨⟨"", session.logFailure ("could not read " ++ path ++ ": " ++ error.message)⟩, 1⟩
  | .ok source =>
    let parsed := parse source (fileName? path)
    match session.answer source parsed, parsed.outcome with
    | (output, some status), _ => ⟨output, status⟩
    | (output, none), .ok nodes =>
      let done : Record :=
        ⟨.info, target, "parsed " ++ path, [("count", .number nodes.length)]⟩
      ⟨output ++ ⟨"", session.log [done]⟩, 0⟩
    | (output, none), .error error => ⟨output ++ ⟨"", session.logFailure error.message⟩, 1⟩

def answerLine (session : Session) : Option (List UInt8) → Output × Option UInt32
  | none => (⟨"\n", []⟩, some 0)
  | some line =>
    match lineText? line with
    | none => (⟨"", session.logFailure ReadError.notText.message⟩, some 1)
    | some text =>
      if trim text.toList = "quit".toList then (⟨"", []⟩, some 0)
      else session.answer text (parse text none)

def answerLines (session : Session) : List (List UInt8) → Transcript
  | [] => ⟨⟨promptText, []⟩ ++ (session.answerLine none).1, 0⟩
  | line :: lines =>
    let (output, status?) := session.answerLine (some line)
    let output := ⟨promptText, []⟩ ++ output
    match status? with
    | some status => ⟨output, status⟩
    | none =>
      let rest := session.answerLines lines
      ⟨output ++ rest.output, rest.status⟩

def run (session : Session) (read : String → Except ReadError ByteArray) (input : ByteArray) :
    Transcript :=
  match session.options.file with
  | some path => session.answerFile path (read path)
  | none => session.answerLines (byteLines input.data.toList)

end Session

end ExprLang
