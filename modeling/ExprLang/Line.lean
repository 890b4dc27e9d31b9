/-!
Lines of a text. A line ends with its line feed, which belongs to it; the text
after the last line feed is a line too, also when it is empty. Every byte
offset up to the length of the text therefore falls on exactly one line.
-/
namespace ExprLang

def byteLength (cs : List Char) : Nat := cs.foldr (fun c n => c.utf8Size + n) 0

theorem byteLength_append (cs ds : List Char) :
    byteLength (cs ++ ds) = byteLength cs + byteLength ds := by
  induction cs with
  | nil => simp [byteLength]
  | cons c cs ih => simpa [byteLength, Nat.add_assoc] using ih

/-- The place of a byte in its line, counted in bytes from the line's start. -/
structure Line where
  number : Nat
  /-- The line with its line feed, if it has one. -/
  text : List Char
  column : Nat
deriving DecidableEq

namespace Line

def split : List Char → List (List Char)
  | [] => [[]]
  | c :: cs =>
    if c = '\n' then [c] :: split cs
    else match split cs with
      | [] => [[c]]
      | line :: lines => (c :: line) :: lines

theorem split_ne_nil (cs : List Char) : split cs ≠ [] := by
  induction cs with
  | nil => simp [split]
  | cons c cs ih =>
    unfold split
    split
    · simp
    · split <;> simp

/-- Cutting a text into lines loses nothing. -/
theorem flatten_split (cs : List Char) : (split cs).flatten = cs := by
  induction cs with
  | nil => rfl
  | cons c cs ih =>
    unfold split
    split
    · simp [ih]
    · split
      · next h => exact absurd h (split_ne_nil cs)
      · next line lines h =>
        rw [h] at ih
        simpa using ih

/-- Find the line of an offset, where the first of the given lines has the
given number. The end of the last line counts as a place on it. -/
def locateIn (number : Nat) : List (List Char) → Nat → Option Line
  | [], _ => none
  | [line], offset => if offset ≤ byteLength line then some ⟨number, line, offset⟩ else none
  | line :: next :: lines, offset =>
    if offset < byteLength line then some ⟨number, line, offset⟩
    else locateIn (number + 1) (next :: lines) (offset - byteLength line)

def locate (text : String) (offset : Nat) : Option Line := locateIn 1 (split text.toList) offset

end Line

end ExprLang
