import ExprLang.Diagnostic
import ExprLang.SExpression

/-!
The log. Reading a source is a sequence of events, and each event makes a record
with a level, the part of the program it comes from, a message and fields. Which
records are let through, and how a record is written, is decided elsewhere.
-/
namespace ExprLang

inductive Level where
  | error
  | warn
  | info
  | debug
  | trace
deriving DecidableEq

/-- The value of a field: a number, a text that is written as it is, or a string
that is written in quotation marks. -/
inductive Value where
  | number (n : Nat)
  | bare (text : String)
  | string (text : String)
deriving DecidableEq

structure Record where
  level : Level
  target : String
  message : String
  fields : List (String × Value)
deriving DecidableEq

inductive Event where
  /-- A token was scanned. The end of the input makes no event. -/
  | scanned (token : Token)
  | stuck (error : LexicalError)
  | parsed (node : Node)
  | reported (diagnostic : Diagnostic)
  | skipped (token : Token)

namespace Event

def ofScan? : Except LexicalError Token → Option Event
  | .ok token => if token.kind = .endOfInput then none else some (scanned token)
  | .error error => some (stuck error)

def record : Event → Record
  | scanned token =>
    ⟨.trace, "kaleidoscope::lexer::lexer", "token scanned", [("token", .bare token.dump)]⟩
  | stuck error =>
    ⟨.debug, "kaleidoscope::lexer::lexer", "lexer poisoned: " ++ error.message,
      [("offset", .number error.position.offset.toNat), ("file", .bare error.position.file)]⟩
  | parsed node =>
    ⟨.trace, "kaleidoscope::parser::parser", "parsed top-level construct",
      [("node", .bare node.sexpr)]⟩
  | reported diagnostic =>
    ⟨.error, "kaleidoscope::errors::sink", diagnostic.cause.message,
      [("offset", .number diagnostic.position.offset.toNat),
        ("source", .bare diagnostic.position.file), ("kind", .string diagnostic.cause.name)]⟩
  | skipped token =>
    ⟨.debug, "kaleidoscope::parser::parser", "skipping token after syntax error",
      [("token", .bare token.kind.describe), ("offset", .number token.span.start.offset.toNat)]⟩

end Event

end ExprLang
