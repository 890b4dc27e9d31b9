import ExprLang.Outline

/-!
Command line arguments. Options may stand before and after the file name, and
those that take a value have it behind an equals sign or as the next argument.
Nothing may be given twice.
-/
namespace ExprLang

structure Options where
  /-- The source file, or nothing for a prompt. -/
  file : Option String
  outline : Bool
  indent : Indent
deriving DecidableEq

inductive ArgumentError where
  | helpRequested
  | unknown (option : String)
  | missingValue (option : String)
  | unwantedValue (option : String)
  | malformedValue (option value : String)
  | repeated (option : String)
  | emptyFile
  | secondFile (file : String)
deriving DecidableEq

namespace ArgumentError

def usage : String := "usage: [FILE] [--tree] [--indent-size N] [--indent-char C]"

def message : ArgumentError → String
  | helpRequested => usage
  | unknown option => "unknown option " ++ option
  | missingValue option => option ++ " needs a value"
  | unwantedValue option => option ++ " takes no value"
  | malformedValue option value => value ++ " is no value for " ++ option
  | repeated option => option ++ " is given twice"
  | emptyFile => "the file name is empty"
  | secondFile file => "one file only, not also " ++ file

def status : ArgumentError → UInt32
  | helpRequested => 0
  | _ => 2

end ArgumentError

structure Arguments where
  file : Option String
  outline : Bool
  indentSize : Option Nat
  indentChar : Option Char

namespace Arguments

def empty : Arguments := ⟨none, false, none, none⟩

def addFile (arguments : Arguments) (file : String) : Except ArgumentError Arguments :=
  if file = "" then .error .emptyFile
  else match arguments.file with
    | none => .ok { arguments with file := some file }
    | some _ => .error (.secondFile file)

def addOutline (arguments : Arguments) : Except ArgumentError Arguments :=
  if arguments.outline then .error (.repeated "--tree")
  else .ok { arguments with outline := true }

/-- A count that fits 64 bits, in decimal digits with or without a plus sign. -/
def countOf? (text : String) : Option Nat :=
  let digits := match text.toList with
    | '+' :: digits => digits
    | digits => digits
  if digits ≠ [] ∧ digits.all Char.isDigit then
    let n := Nat.ofDigitChars 10 digits 0
    if n < UInt64.size then some n else none
  else none

def addIndentSize (arguments : Arguments) (value : String) : Except ArgumentError Arguments :=
  match countOf? value, arguments.indentSize with
  | none, _ => .error (.malformedValue "--indent-size" value)
  | some _, some _ => .error (.repeated "--indent-size")
  | some size, none => .ok { arguments with indentSize := some size }

def addIndentChar (arguments : Arguments) (value : String) : Except ArgumentError Arguments :=
  match value.toList, arguments.indentChar with
  | [c], none => .ok { arguments with indentChar := some c }
  | [_], some _ => .error (.repeated "--indent-char")
  | _, _ => .error (.malformedValue "--indent-char" value)

def withValue? : String → Option (Arguments → String → Except ArgumentError Arguments)
  | "--indent-size" => some addIndentSize
  | "--indent-char" => some addIndentChar
  | _ => none

/-- An argument that starts with a hyphen is an option, except a lone hyphen. -/
def isOption (arg : String) : Bool :=
  match arg.toList with
  | '-' :: _ :: _ => true
  | _ => false

def splitValue (arg : String) : String × Option String :=
  let name := arg.toList.takeWhile (· ≠ '=')
  match arg.toList.drop name.length with
  | [] => (arg, none)
  | _ :: value => (String.ofList name, some (String.ofList value))

def read (arguments : Arguments) : List String → Except ArgumentError Arguments
  | [] => .ok arguments
  | arg :: args =>
    if arg = "--" then args.foldlM addFile arguments
    else if !isOption arg then do read (← arguments.addFile arg) args
    else
      let (name, inline?) := splitValue arg
      match withValue? name with
      | some add =>
        match inline?, args with
        | some value, args => do read (← add arguments value) args
        | none, value :: args =>
          if isOption value then .error (.missingValue name)
          else do read (← add arguments value) args
        | none, [] => .error (.missingValue name)
      | none =>
        if name = "--tree" then
          if inline?.isSome then .error (.unwantedValue name)
          else do read (← arguments.addOutline) args
        else if arg = "--help" ∨ arg = "-h" then .error .helpRequested
        else .error (.unknown arg)

end Arguments

def Options.ofArguments (args : List String) : Except ArgumentError Options := do
  let arguments ← Arguments.empty.read args
  return ⟨arguments.file, arguments.outline,
    ⟨arguments.indentChar.getD ' ', arguments.indentSize.getD 2⟩⟩

end ExprLang
