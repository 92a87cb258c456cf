import SplTyping.Report.Excerpt
import SplTyping.TypeError

namespace SplTyping

/-!
# Diagnostics

Errors and warnings are collected while a program is checked and shown together
at the end: the first few errors, a note on how many more there are, and all
warnings. Warnings alone do not fail a check.
-/

/-- A remark on a program that does not make it wrong. -/
structure Warning where
  message : String
  span : Span
  deriving Repr, DecidableEq

/-- How a report is written. -/
structure ReportConfig where
  /-- How many errors are shown. -/
  maxErrors : Nat
  /-- Whether styles are used. -/
  color : Bool
  /-- How a style is shown. -/
  paint : Report.Painter

/-- The errors and warnings found so far, each in the order of discovery. -/
structure Diagnostics where
  errors : List TypeError
  warnings : List Warning
  deriving DecidableEq

/-- A failed check. -/
structure Failure where
  errors : List TypeError
  report : String
  deriving DecidableEq

namespace ReportConfig

/-- Ten errors, in the colours of a terminal. -/
def standard (paint : Report.Painter) : ReportConfig where
  maxErrors := 10
  color := true
  paint := paint

/-- Ten errors, without colour. -/
def plain : ReportConfig where
  maxErrors := 10
  color := false
  paint := fun _ text => text

end ReportConfig

namespace Failure

/-- The number of errors. -/
def count (failure : Failure) : Nat :=
  failure.errors.length

/-- The text of a failed check. -/
def message (failure : Failure) : String :=
  "type checking failed with " ++ toString failure.count ++ " error(s)\n" ++
    failure.report

end Failure

namespace Diagnostics

/-- Nothing has been found. -/
def empty : Diagnostics where
  errors := []
  warnings := []

/-- One more error. -/
def report (diagnostics : Diagnostics) (error : TypeError) : Diagnostics where
  errors := diagnostics.errors ++ [error]
  warnings := diagnostics.warnings

/-- One more warning. -/
def warn (diagnostics : Diagnostics) (warning : Warning) : Diagnostics where
  errors := diagnostics.errors
  warnings := diagnostics.warnings ++ [warning]

/-- Whether there is an error. -/
def hasErrors (diagnostics : Diagnostics) : Bool :=
  !diagnostics.errors.isEmpty

/-- The lines of one error or warning. -/
def entry
    (paint : Report.Painter)
    (color : Bool)
    (source : List String)
    (label message : String)
    (span : Span) :
    List String :=
  (label ++ ": " ++ message) :: Report.excerpt paint color source span

/-- The line that says how many errors are not shown. -/
def omittedNote
    (paint : Report.Painter)
    (color : Bool)
    (omitted : Nat) :
    List String :=
  if omitted = 0 then
    []
  else
    [Report.paintIf paint color .note
      ("... and " ++ toString omitted ++ " more error(s) omitted")]

/-- The lines of a report. -/
def reportLines
    (diagnostics : Diagnostics)
    (source : List String)
    (config : ReportConfig) :
    List String :=
  let paint := config.paint
  let color := config.color
  let errorLabel := Report.paintIf paint color .errorLabel "error"
  let warningLabel := Report.paintIf paint color .warningLabel "warning"
  ((diagnostics.errors.take config.maxErrors).flatMap fun error =>
      entry paint color source errorLabel error.message error.span) ++
    omittedNote paint color (diagnostics.errors.length - config.maxErrors) ++
    diagnostics.warnings.flatMap fun warning =>
      entry paint color source warningLabel warning.message warning.span

/-- The report on a source text. -/
def render
    (diagnostics : Diagnostics)
    (source : String)
    (config : ReportConfig) :
    String :=
  String.join
    ((diagnostics.reportLines (Report.lines source) config).map (· ++ "\n"))

/-- The warnings of a check without errors, or its failure. -/
def finish
    (diagnostics : Diagnostics)
    (source : String)
    (config : ReportConfig) :
    Except Failure (List Warning) :=
  if diagnostics.errors.isEmpty then
    .ok diagnostics.warnings
  else
    .error
      { errors := diagnostics.errors
        report := diagnostics.render source config }

end Diagnostics

end SplTyping
