import SplTyping.Program.Position
import SplTyping.Report.Lines
import SplTyping.Report.Style

namespace SplTyping

/-!
# Source excerpts

An excerpt shows the lines of a span with one line before and one after, each
behind its number. The columns of the span are marked on every line that it
covers: by carets on a line of their own, or by a style if the report is
coloured.
-/

namespace Report

/--
The columns of a line of `width` characters that a span covers, counted from
zero and up to the second number. At least one column is marked, if need be the
one behind the end of the line.
-/
def columns? (span : Span) (number width : Nat) : Option (Nat × Nat) :=
  let lastLine := max span.stop.line span.start.line
  if number < span.start.line ∨ lastLine < number then
    none
  else
    let wantedFrom := if number = span.start.line then span.start.column - 1 else 0
    let wantedTo :=
      if number = lastLine ∧ span.start.line ≤ span.stop.line then
        span.stop.column - 1
      else
        width
    let first := min wantedFrom width
    some (first, max (min wantedTo width) (first + 1))

/-- The first and the last line that the excerpt of a span shows. -/
def shownLines (span : Span) (lineCount : Nat) : Nat × Nat :=
  (max (span.start.line - 1) 1,
    min (max span.stop.line span.start.line + 1) lineCount)

/-- The source lines that the excerpt of a span shows, with their numbers. -/
def shownSource (source : List String) (span : Span) : List (String × Nat) :=
  let (first, last) := shownLines span source.length
  ((source.zipIdx 1).drop (first - 1)).take (last + 1 - first)

/-- A text moved to the right end of a field. -/
def padLeft (width : Nat) (text : String) : String :=
  String.ofList (text.toList.leftpad width ' ')

/-- A text of one repeated character. -/
def repeated (char : Char) (count : Nat) : String :=
  String.ofList (List.replicate count char)

/-- What stands in front of a source line: its number, in a field, and a bar. -/
def gutter (pad number : Nat) : String :=
  padLeft pad (toString number) ++ " |"

/-- The line of carets below a source line, one for each marked column. -/
def caretLine (pad : Nat) (columns : Nat × Nat) : String :=
  padLeft pad "" ++ " | " ++ repeated ' ' columns.1 ++
    repeated '^' (columns.2 - columns.1)

/-- A text before its marked columns, the marked text, and the text behind. -/
def pieces (columns : Nat × Nat) (text : String) : String × String × String :=
  (String.ofList (text.toList.take columns.1),
    String.ofList ((text.toList.drop columns.1).take (columns.2 - columns.1)),
    String.ofList (text.toList.drop columns.2))

/-- One source line of an excerpt, with the marks below it if there are any. -/
def excerptLine
    (paint : Painter)
    (color : Bool)
    (pad : Nat)
    (span : Span)
    (number : Nat)
    (text : String) :
    List String :=
  let leading := paintIf paint color .frame (gutter pad number) ++ " "
  match columns? span number text.length with
  | none => [leading ++ text]
  | some columns =>
      if color then
        let (before, marked, behind) := pieces columns text
        [leading ++ before ++ paint .marked marked ++ behind]
      else
        [leading ++ text, caretLine pad columns]

/--
The lines of an excerpt. There is none for a span without a place in the
source.
-/
def excerpt
    (paint : Painter)
    (color : Bool)
    (source : List String)
    (span : Span) :
    List String :=
  if span.isUnknown ∨ source.length < span.start.line then
    []
  else
    let pad := (toString (shownLines span source.length).2).length
    ("  " ++ paintIf paint color .frame "-->" ++ " " ++ toString span.start.line ++
        ":" ++ toString span.start.column) ::
      (shownSource source span).flatMap fun (text, number) =>
        excerptLine paint color pad span number text

end Report

end SplTyping
