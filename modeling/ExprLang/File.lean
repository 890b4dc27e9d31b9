/-!
Files by their paths: the name that a path gives to a source, and the reasons why
the text of a file cannot be had.
-/
namespace ExprLang

inductive ReadError where
  | system (reason : String) (number : Nat)
  | notText
deriving DecidableEq

namespace ReadError

def notFound : ReadError := system "No such file or directory" 2

def notDirectory : ReadError := system "Not a directory" 20

def isDirectory : ReadError := system "Is a directory" 21

/-- A part of the path has more than 255 bytes, or the path too many. -/
def nameTooLong : ReadError := system "File name too long" 36

def message : ReadError → String
  | system reason number => reason ++ " (os error " ++ number.repr ++ ")"
  | notText => "stream did not contain valid UTF-8"

end ReadError

/-- The parts of a path. Between two slashes in a row stands an empty part. -/
def pathParts (path : String) : List String := (path.toList.splitOn '/').map String.ofList

def fileName? (path : String) : Option String :=
  match (pathParts path).reverse.find? fun part => part ≠ "" ∧ part ≠ "." with
  | some name => if name = ".." then none else some name
  | none => none

end ExprLang
