namespace SplTyping

/-!
# Styles of a report

A coloured report gives some of its parts a style. How a text is shown in a
style is up to the terminal, so whatever writes a part of a report is given a
painter for it.
-/

namespace Report

/-- The parts of a report that have a style of their own. -/
inductive Style where
  | errorLabel
  | warningLabel
  | frame
  | marked
  | note
  deriving Repr, DecidableEq

/-- How a terminal is told to show a text in a style. -/
abbrev Painter :=
  Style → String → String

/-- A text, in a style if the report is coloured. -/
def paintIf
    (paint : Painter)
    (color : Bool)
    (style : Style)
    (text : String) :
    String :=
  if color then paint style text else text

end Report

end SplTyping
