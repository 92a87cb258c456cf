namespace SplTyping

/-!
# Places in the source text

Lines and columns count from one; line zero means that the place is not known.
-/

/-- A line and a column. -/
structure Position where
  line : Nat
  column : Nat
  deriving Inhabited, Repr, DecidableEq

/-- The stretch of source text from `start` up to `stop`. -/
structure Span where
  start : Position
  stop : Position
  deriving Inhabited, Repr, DecidableEq

/-- A name together with the place where it is written. -/
structure Name where
  text : String
  span : Span
  deriving Inhabited, Repr, DecidableEq

namespace Position

/-- Positions are ordered by line, then by column. -/
def compare (first second : Position) : Ordering :=
  (Ord.compare first.line second.line).then
    (Ord.compare first.column second.column)

end Position

namespace Span

/-- The span of something that is not in the source text. -/
def unknown : Span where
  start := ⟨0, 0⟩
  stop := ⟨0, 0⟩

/-- Whether a span has no place in the source text. -/
def isUnknown (span : Span) : Bool :=
  span.start.line = 0

end Span

end SplTyping
