import ExprLang.Printable

/-!
Text and bytes as messages show them. Quoted text stands between quotation
marks and can be read off unambiguously: quotation marks and backslashes are
escaped, and so is every character that is not printable. A byte is shown
alone, so an apostrophe is escaped as well. Bare text for a terminal is left as
it is but for the characters that would make the terminal do something.
-/
namespace ExprLang

def hexText (n : Nat) : String := String.ofList (Nat.toDigits 16 n)

def quotedChar (c : Char) : String :=
  match c with
  | '"' => "\\\""
  | '\\' => "\\\\"
  | '\n' => "\\n"
  | '\r' => "\\r"
  | '\t' => "\\t"
  | '\x00' => "\\0"
  | c => if isPrintable c then c.toString else "\\u\x7b" ++ hexText c.toNat ++ "\x7d"

def quoted (text : String) : String :=
  "\"" ++ String.join (text.toList.map quotedChar) ++ "\""

/-- How a single byte is shown: printable ASCII as itself, and the rest by a
short escape or two digits to base sixteen. -/
def byteText (byte : UInt8) : String :=
  match byte with
  | 0x09 => "\\t"
  | 0x0A => "\\n"
  | 0x0D => "\\r"
  | 0x22 => "\\\""
  | 0x27 => "\\'"
  | 0x5C => "\\\\"
  | byte =>
    if 0x20 ≤ byte ∧ byte < 0x7F then (Char.ofNat byte.toNat).toString
    else if byte < 0x10 then "\\x0" ++ hexText byte.toNat
    else "\\x" ++ hexText byte.toNat

/-- The control characters that terminals obey beyond breaking lines and setting
tabs: bell, backspace, form feed, escape, delete, and those from 80 to 9F. -/
def isTerminalControl (c : Char) : Bool :=
  c = '\x07' || c = '\x08' || c = '\x0c' || c = '\x1b' || 0x7F ≤ c.toNat && c.toNat < 0xA0

/-- How a character stands in bare text: the escapes are those of a byte within
ASCII and those of quoted text beyond. -/
def terminalChar (c : Char) : String :=
  if !isTerminalControl c then c.toString
  else if c.toNat < 0x80 then byteText c.toUInt8
  else quotedChar c

def terminalText (text : String) : String := String.join (text.toList.map terminalChar)

def leadByte (c : Char) : UInt8 := (String.utf8EncodeChar c).headD 0

end ExprLang
