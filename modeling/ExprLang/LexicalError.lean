import ExprLang.Excerpt
import ExprLang.Quoted

/-!
The one way reading tokens fails: a character that begins no token.
-/
namespace ExprLang

/-- The first byte of a character that begins no token, and where it stands. -/
structure LexicalError where
  byte : UInt8
  position : Position
deriving DecidableEq

namespace LexicalError

def name : String := "UnrecognisedCharacter"

def message (error : LexicalError) : String :=
  "could not continue lexing, unknown character found: '" ++ byteText error.byte ++ "'"

def report (error : LexicalError) (source : String) : Option String :=
  ExprLang.report name (some error.message) error.position source

end LexicalError

end ExprLang
