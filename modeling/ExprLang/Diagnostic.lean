import ExprLang.LexicalError

/-!
Syntax errors. A diagnostic tells what was wrong with a token and where the
token starts. Reading a construct fails either with a diagnostic, which can be
recovered from, or with the lexical error that ends the input.
-/
namespace ExprLang

/-- What was wrong. Tokens are kept by their description. -/
inductive Diagnostic.Cause where
  | noExpression (found : String)
  | unexpected (found wanted : String)
  | unclosedParenthesis (found : String)
  | malformedNumber (text : String)
deriving DecidableEq

structure Diagnostic where
  cause : Diagnostic.Cause
  position : Position
deriving DecidableEq

namespace Diagnostic

namespace Cause

def name : Cause → String
  | noExpression _ => "UnexpectedToken"
  | unexpected _ _ => "UnexpectedTokenDetailed"
  | unclosedParenthesis _ => "UnclosedParenthesis"
  | malformedNumber _ => "NumberParseError"

def found : Cause → String
  | noExpression found | unexpected found _ | unclosedParenthesis found => found
  | malformedNumber text => text

def wanted? : Cause → Option String
  | unexpected _ wanted => some wanted
  | _ => none

def message : Cause → String
  | noExpression found => "unknown token when expecting an expression: " ++ quoted found
  | unexpected found wanted => "unexpected token (" ++ wanted ++ "): " ++ quoted found
  | unclosedParenthesis found =>
    "expected ')' to close parenthesised expression, found " ++ quoted found
  | malformedNumber text => "could not convert number: " ++ quoted text

def tip : Cause → String
  | noExpression found =>
    "Unexpected token: `" ++ found ++ "`, expected a number, an identifier or `(`"
  | unexpected found wanted => "Unexpected token: `" ++ found ++ "`, " ++ wanted
  | unclosedParenthesis found =>
    "Found `" ++ found ++ "` where `)` was expected, is a parenthesis left open?"
  | malformedNumber text => "Invalid number: `" ++ text ++ "`"

end Cause

def report (diagnostic : Diagnostic) (source : String) : Option String :=
  ExprLang.report diagnostic.cause.name (some diagnostic.cause.tip) diagnostic.position source

end Diagnostic

inductive Failure where
  | lexical (error : LexicalError)
  | syntactic (diagnostic : Diagnostic)
deriving DecidableEq

def Failure.message : Failure → String
  | lexical error => error.message
  | syntactic diagnostic => diagnostic.cause.message

end ExprLang
