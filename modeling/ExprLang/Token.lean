import ExprLang.Position
import ExprLang.Quoted

/-!
Tokens. Identifiers, digit runs and symbols carry the text they were written
with; the two reserved words and the end of the input carry none.
-/
namespace ExprLang

inductive Token.Kind where
  | endOfInput
  | define
  | declare
  | identifier (text : String)
  | number (text : String)
  | symbol (text : String)
deriving DecidableEq

structure Token where
  kind : Token.Kind
  span : Span
deriving DecidableEq

namespace Token.Kind

def text? : Kind → Option String
  | identifier text | number text | symbol text => some text
  | endOfInput | define | declare => none

def spelling : Kind → String
  | endOfInput => ""
  | define => "def"
  | declare => "extern"
  | identifier text | number text | symbol text => text

def describe : Kind → String
  | endOfInput => "end of input"
  | kind => kind.spelling

def isSymbol (c : Char) : Kind → Bool
  | symbol text => text.toList == [c]
  | _ => false

def reserved? : String → Option Kind
  | "def" => some define
  | "extern" => some declare
  | _ => none

def ofWord (word : String) : Kind := (reserved? word).getD (identifier word)

def dump : Kind → String
  | endOfInput => "EndOfInput"
  | define => "Def"
  | declare => "Extern"
  | identifier text => "Identifier(" ++ quoted text ++ ")"
  | number text => "Number(" ++ quoted text ++ ")"
  | symbol text => "Character(" ++ quoted text ++ ")"

end Token.Kind

def Token.dump (token : Token) : String :=
  "Token \x7b kind: " ++ token.kind.dump ++ ", span: " ++
    token.span.start.offset.toNat.repr ++ ".." ++ token.span.stop.offset.toNat.repr ++ " \x7d"

end ExprLang
