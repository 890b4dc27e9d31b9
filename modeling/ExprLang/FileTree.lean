import ExprLang.File

/-!
File systems in memory. A path is walked part by part, from the root or from the
working directory. Reading it fails if a part is missing or too long to be a name,
if a file stands where a directory is needed, or if the whole path is a directory.
-/
namespace ExprLang

/-- The directories and files of a system by their places. A place is the names on
the way down from the root, which has none. -/
structure FileTree where
  /-- The working directory, which is there with all directories above it. -/
  home : List String
  directories : List (List String)
  /-- The file put last at a place comes first. -/
  files : List (List String × ByteArray)

namespace FileTree

def step (place : List String) (part : String) : List String :=
  if part = "" ∨ part = "." then place
  else if part = ".." then place.dropLast
  else place ++ [part]

/-- Put a file where the parts of a path lead from a place. The directories on
the way are there from then on. -/
def addFrom (tree : FileTree) (place : List String) (content : ByteArray) : List String → FileTree
  | [] => tree
  | [part] => { tree with files := (step place part, content) :: tree.files }
  | part :: parts =>
    let next := step place part
    addFrom { tree with directories := next :: tree.directories } next content parts

def ofFiles (home : List String) (files : List (String × ByteArray)) : FileTree :=
  files.foldl (fun tree (path, content) => tree.addFrom home content (pathParts path))
    ⟨home, [], []⟩

def lookup? (tree : FileTree) (place : List String) : Option ByteArray :=
  (tree.files.find? (·.1 = place)).map (·.2)

def isDirectory (tree : FileTree) (place : List String) : Bool :=
  place.isPrefixOf tree.home || tree.directories.contains place

def missing (part : String) : ReadError := if 255 < part.utf8ByteSize then .nameTooLong else .notFound

def walk (tree : FileTree) (place : List String) : List String → Except ReadError ByteArray
  | [] => .error .isDirectory
  | part :: parts =>
    let next := step place part
    match tree.lookup? next with
    | some content => if parts = [] then .ok content else .error .notDirectory
    | none => if tree.isDirectory next then tree.walk next parts else .error (missing part)

def read (tree : FileTree) (path : String) : Except ReadError ByteArray :=
  if 4096 ≤ path.utf8ByteSize then .error .nameTooLong
  else match pathParts path with
    | [""] => .error .notFound
    | "" :: parts => tree.walk [] parts
    | parts => tree.walk tree.home parts

end FileTree

end ExprLang
