import ExprLang.LexicalError
import ExprLang.Token

/-!
Reading tokens on demand. The lexer looks at one token at a time: peeking scans
it and keeps the outcome, consuming drops it so that the next peek scans again.
A character that begins no token is never passed, so from then on every answer
is the same error. The end of the input is never passed either.
-/
namespace ExprLang

def isSymbolChar (c : Char) : Bool := "()+-*,.".toList.contains c

/-- The longest token at the head of a text, and the text after it: a word of
letters and digits that starts with a letter, a run of digits, or a symbol. -/
def Token.Kind.munch? : List Char → Option (Token.Kind × List Char)
  | [] => none
  | c :: cs =>
    if c.isAlpha then
      some (.ofWord (String.ofList (c :: cs.takeWhile Char.isAlphanum)),
        cs.dropWhile Char.isAlphanum)
    else if c.isDigit then
      some (.number (String.ofList (c :: cs.takeWhile Char.isDigit)), cs.dropWhile Char.isDigit)
    else if isSymbolChar c then some (.symbol (String.singleton c), cs)
    else none

theorem Token.Kind.spelling_ofWord (word : String) : (ofWord word).spelling = word := by
  unfold ofWord reserved?
  split <;> rfl

/-- A token is spelled as the text it was read from, which is not empty. -/
theorem Token.Kind.munch?_eq_some (cs rest : List Char) (kind : Token.Kind)
    (h : munch? cs = some (kind, rest)) :
    cs = kind.spelling.toList ++ rest ∧ kind.spelling.toList ≠ [] := by
  cases cs with
  | nil => simp [munch?] at h
  | cons c cs =>
    simp only [munch?] at h
    split at h
    · simp only [Option.some.injEq, Prod.mk.injEq] at h
      obtain ⟨rfl, rfl⟩ := h
      simp only [spelling_ofWord, String.toList_ofList]
      simp
    · split at h
      · simp only [Option.some.injEq, Prod.mk.injEq] at h
        obtain ⟨rfl, rfl⟩ := h
        simp only [spelling, String.toList_ofList]
        simp
      · split at h
        · simp only [Option.some.injEq, Prod.mk.injEq] at h
          obtain ⟨rfl, rfl⟩ := h
          simp [spelling]
        · simp at h

/-- Reading a token leaves less text. -/
theorem Token.Kind.length_lt_of_munch?_eq_some (cs rest : List Char) (kind : Token.Kind)
    (h : munch? cs = some (kind, rest)) : rest.length < cs.length := by
  obtain ⟨rfl, hne⟩ := munch?_eq_some cs rest kind h
  have := List.length_pos_iff.mpr hne
  simp only [List.length_append]
  omega

structure Lexer where
  rest : List Char
  offset : Nat
  file : String
  /-- What was scanned last, until it is consumed. -/
  scanned : Option (Except LexicalError Token)

abbrev LexM := EStateM LexicalError Lexer

namespace Lexer

def defaultFile : String := "shell"

def ofSource (source : String) (file : Option String) : Lexer :=
  ⟨source.toList, 0, file.getD defaultFile, none⟩

/-- The cursor, just past the token scanned last. -/
def position (lexer : Lexer) : Position := ⟨lexer.offset.toUInt32, lexer.file⟩

def skipBlanks (lexer : Lexer) : Lexer :=
  { lexer with
    rest := lexer.rest.dropWhile isBlank
    offset := lexer.offset + (lexer.rest.takeWhile isBlank).length }

def scan (lexer : Lexer) : Except LexicalError Token × Lexer :=
  let lexer := lexer.skipBlanks
  match lexer.rest with
  | [] => (.ok ⟨.endOfInput, lexer.position, lexer.position⟩, lexer)
  | c :: cs =>
    match Token.Kind.munch? (c :: cs) with
    | some (kind, rest) =>
      let after := { lexer with rest, offset := lexer.offset + kind.spelling.length }
      (.ok ⟨kind, lexer.position, after.position⟩, after)
    | none => (.error ⟨leadByte c, lexer.position⟩, lexer)

def peek : LexM Token := fun lexer =>
  let (outcome, lexer) := match lexer.scanned with
    | some outcome => (outcome, lexer)
    | none =>
      let (outcome, lexer) := lexer.scan
      (outcome, { lexer with scanned := some outcome })
  match outcome with
  | .ok token => .ok token lexer
  | .error error => .error error lexer

def dropToken (lexer : Lexer) : Lexer :=
  match lexer.scanned with
  | some (.ok token) =>
    if token.kind = .endOfInput then lexer else { lexer with scanned := none }
  | _ => lexer

def consume : LexM Unit := do
  let _ ← peek
  modify dropToken

/-- An upper bound on the number of tokens before the end of the input: each
takes at least one character of the text, and one may have been scanned. -/
def pending (lexer : Lexer) : Nat :=
  match lexer.scanned with
  | some (.ok token) => lexer.rest.length + if token.kind = .endOfInput then 0 else 1
  | _ => lexer.rest.length

def tokensWithin : Nat → LexM (List Token)
  | 0 => do return [← peek]
  | bound + 1 => do
    let token ← peek
    if token.kind = .endOfInput then return [token]
    consume
    return token :: (← tokensWithin bound)

end Lexer

def tokenize (source : String) (file : Option String) : Except LexicalError (List Token) :=
  let lexer := Lexer.ofSource source file
  match Lexer.tokensWithin lexer.pending lexer with
  | .ok tokens _ => .ok tokens
  | .error error _ => .error error

end ExprLang
