-- SUMMARY: Diagnostics shown as compiler-style text, as one line, or as JSON.
import Descent.Diagnostic.Basic
import Descent.Text.Json
import Descent.Text.Window

/-! # Showing diagnostics

The same diagnostic can be shown in three styles: several lines in the manner
of a compiler, one short line for logs, and one JSON object for tools. -/

namespace Descent

/-- The style of a shown diagnostic. -/
inductive Style
  /-- Several lines, if possible with an excerpt of the source. -/
  | compiler
  /-- One line. -/
  | simple
  /-- One JSON object. -/
  | json
  deriving DecidableEq, Repr

namespace Style

/-- All styles. -/
def all : List Style := [.compiler, .simple, .json]

/-- The name of a style. -/
def label : Style → String
  | .compiler => "rust"
  | .simple => "simple"
  | .json => "json"

/-- The style with a given name. -/
def ofLabel? (s : String) : Option Style := all.find? (·.label == s)

end Style

/-- How diagnostics are shown. -/
structure Formatter where
  style : Style := .compiler
  /-- Whether long messages and hints are cut. -/
  truncates : Bool := false
  /-- Whether the severity is coloured; this affects the compiler style only. -/
  colored : Bool := false
  /-- The length from which texts are cut. A negative length counts from the
      end of the text. -/
  maxLength : Int := 100
  deriving DecidableEq, Repr

namespace Formatter

/-- The text, cut and marked by three dots if it is too long. -/
def clean (f : Formatter) (s : String) : String :=
  if f.truncates ∧ (s.length : Int) > f.maxLength then Text.before s f.maxLength ++ "..." else s

/-- The word for the severity. -/
def severityWord (f : Formatter) (d : Diagnostic) : String :=
  let warning := d.severity == "warning"
  let word := if warning then "warning" else "error"
  if f.colored then
    (if warning then "\x1b[1;33m" else "\x1b[1;31m") ++ word ++ "\x1b[0m"
  else word

/-- A present and non-empty text. -/
def filled : Option String → Option String
  | some s => if s.isEmpty then none else some s
  | none => none

/-- The lines of the compiler style, with an excerpt below the place. -/
def compilerLines (f : Formatter) (d : Diagnostic) (excerpt : List String) : List String :=
  [f.severityWord d ++ "[" ++ d.code.name ++ "]: " ++ f.clean d.message]
  ++ (match d.span with
    | some s => ["  --> line " ++ decimalText s.line ++ ", column " ++ decimalText s.column]
    | none => [])
  ++ excerpt
  ++ (match filled d.ruleName with
    | some rule => ["  = rule: " ++ rule]
    | none => [])
  ++ (if d.expected.isEmpty then [] else ["  = expected: " ++ ", ".intercalate d.expected])
  ++ (match filled d.hint with
    | some hint => ["  = help: " ++ f.clean hint]
    | none => [])

/-- The line of the short style. -/
def simpleLine (f : Formatter) (d : Diagnostic) : String :=
  match d.span with
  | some s => d.code.name ++ " at " ++ decimalText s.line ++ ":" ++ decimalText s.column
      ++ ": " ++ f.clean d.message
  | none => d.code.name ++ ": " ++ f.clean d.message

/-- The fields of the JSON style. -/
def fields (f : Formatter) (d : Diagnostic) : Json.Object :=
  [("code", .text d.code.name), ("code_value", .number d.code.number),
   ("message", .text (f.clean d.message)), ("severity", .text d.severity)]
  ++ (match d.span with
    | some s => [("line", .number s.line), ("column", .number s.column),
        ("start", .number s.start), ("end", .number s.stop)]
    | none => [])
  ++ (match filled d.ruleName with
    | some rule => [("rule_name", .text rule)]
    | none => [])
  ++ (if d.expected.isEmpty then [] else [("expected", .texts d.expected)])
  ++ (match filled d.hint with
    | some hint => [("hint", .text (f.clean hint))]
    | none => [])

/-- A diagnostic in the style of the formatter. -/
def render (f : Formatter) (d : Diagnostic) : String :=
  match f.style with
  | .compiler => "\n".intercalate (f.compilerLines d [])
  | .simple => f.simpleLine d
  | .json => Json.render (f.fields d)

/-- Several diagnostics, with a blank line between them. -/
def renderAll (f : Formatter) (ds : List Diagnostic) : String :=
  "\n\n".intercalate (ds.map f.render)

end Formatter

/-- A diagnostic in the compiler style, uncut and uncoloured. -/
def Diagnostic.render (d : Diagnostic) : String := ({} : Formatter).render d

end Descent
