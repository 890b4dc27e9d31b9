import ExprLang.Line
import ExprLang.Position
import ExprLang.WhiteSpace

/-!
Error reports. A report names the error, adds a tip if there is one, and shows
the line of the source where the error lies, without its indentation, above a
caret that points at the column. The caret is set at the end of a field of
hyphens, and formatting panics over a field that is too wide.
-/
namespace ExprLang

def isIndentation (c : Char) : Bool := c == ' ' || c == '\t'

def widestField : Nat := 65535

/-- Text at the right end of a field, or nothing where formatting panics. -/
def setRight? (fill : Char) (width : Nat) (text : String) : Option String :=
  if width ≤ widestField then some ("".pushn fill (width - text.length) ++ text) else none

/-- The bar that closes a margin as wide as the given line number. No number of a
line has so many digits that this field is too wide. -/
def gutter (number : String) : String := "".pushn ' ' (number.length + 1) ++ "|"

/-- A source line above a caret, or nothing where the caret stands too far right.
Columns count bytes, so the caret stands further right than the character it
points at if wider characters come first. -/
def Line.excerpt (line : Line) : Option String :=
  let number := line.number.repr
  let shown := trimEnd (line.text.dropWhile isIndentation)
  let indentation := (line.text.takeWhile isIndentation).length
  (setRight? '-' (line.column - indentation + 1) "^").map fun caret =>
    gutter number ++ "\n" ++
      number ++ " | " ++ String.ofList shown ++ "\n" ++
      gutter number ++ " " ++ caret ++ "\n"

def report (name : String) (tip : Option String) (position : Position) (source : String) :
    Option String :=
  let headline := match tip with
    | none => "Error: " ++ name ++ "\n"
    | some tip => "Error: " ++ name ++ " (" ++ tip ++ ")\n"
  let excerpt := match Line.locate source position.offset.toNat with
    | none => some ""
    | some line => line.excerpt
  excerpt.map fun excerpt => headline ++ "-> " ++ position.file ++ "\n" ++ excerpt

end ExprLang
