/-!
Places in a source text. A position is a byte offset, an unsigned 32-bit
word, together with the name of the source it belongs to. A span is the half
open range between two positions.
-/
namespace ExprLang

structure Position where
  offset : UInt32
  file : String
deriving DecidableEq

/-- The range from `start` to just before `stop`. -/
structure Span where
  start : Position
  stop : Position
deriving DecidableEq

namespace Span

/-- From the start of one span to the end of another, in this order: nothing
is compared, so the second span has to be the later one for a cover of both. -/
def through (first last : Span) : Span := ⟨first.start, last.stop⟩

def length (span : Span) : Nat := span.stop.offset.toNat - span.start.offset.toNat

end Span

end ExprLang
