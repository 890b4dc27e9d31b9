import ExprLang.Lexer
import ExprLang.Log

/-!
The parser's cursor. A parser reads from a lexer, one token ahead, collects the
diagnostics it recovers from, and keeps a journal of what happens. Looking at
tokens can fail only with a lexical error; reading a construct can fail with a
diagnostic as well.
-/
namespace ExprLang

structure Parser where
  lexer : Lexer
  diagnostics : Array Diagnostic
  journal : Array Event

abbrev ReadM := EStateM LexicalError Parser

abbrev ParseM := EStateM Failure Parser

instance : MonadLift ReadM ParseM := ⟨EStateM.adaptExcept Failure.lexical⟩

namespace Parser

def ofSource (source : String) (file : Option String) : Parser :=
  ⟨Lexer.ofSource source file, #[], #[]⟩

def records (parser : Parser) : List Record := parser.journal.toList.map Event.record

def note (parser : Parser) (event : Event) : Parser :=
  { parser with journal := parser.journal.push event }

def report (parser : Parser) (diagnostic : Diagnostic) : Parser :=
  { parser with diagnostics := parser.diagnostics.push diagnostic }.note (.reported diagnostic)

/-- Go on with the lexer after a look at its next token. If the look scanned
the token, the journal says so. -/
def afterPeek (parser : Parser) (lexer : Lexer) : Parser :=
  let event? := match parser.lexer.scanned, lexer.scanned with
    | none, some outcome => Event.ofScan? outcome
    | _, _ => none
  let parser := { parser with lexer }
  match event? with
  | some event => parser.note event
  | none => parser

def peek : ReadM Token := fun parser =>
  match parser.lexer.peek with
  | .ok token lexer => .ok token (parser.afterPeek lexer)
  | .error error lexer => .error error (parser.afterPeek lexer)

def advance : ReadM Token := do
  let token ← peek
  modify fun parser => { parser with lexer := parser.lexer.dropToken }
  return token

def hasTokens : ReadM Bool := do return (← peek).kind ≠ .endOfInput

def unexpected (token : Token) (wanted : String) : Failure :=
  .syntactic ⟨.unexpected token.kind.describe wanted, token.span.start⟩

def expectSymbol (c : Char) (wanted : String) : ParseM Token := do
  let token ← peek
  if token.kind.isSymbol c then advance else throw (unexpected token wanted)

def expectIdentifier (wanted : String) : ParseM (String × Token) := do
  let token ← peek
  match token.kind with
  | .identifier name => return (name, ← advance)
  | _ => throw (unexpected token wanted)

end Parser

end ExprLang
