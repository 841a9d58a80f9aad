import Bindery.Diagnostic.Basic
/-!
# Diagnostics for a terminal

The pieces of a diagnostic that a terminal report shows: a location with the file's name, the message, a qualified code
and a severity.
-/
namespace Bindery

/-- How a report marks a diagnostic. -/
inductive Severity where
  | error
  | warning
  | advice
  deriving DecidableEq, Repr

def Category.severity : Category → Severity
  | .error => .error
  | .warning => .warning
  | .note => .advice

/-- A diagnostic ready to be shown. -/
structure Rendered where
  location : String
  message : String
  code : String
  severity : Severity
  related : List Rendered

/-- The name to show for a diagnostic's file: its own, or the one at its file number. -/
def Diagnostic.fileName (diagnostic : Diagnostic) (files : List String) : String :=
  (diagnostic.file <|> files[diagnostic.span.file]?).getD "<unknown>"

namespace Rendered

mutual
/-- The diagnostic and its notes, with file names taken from `files` by number. -/
def of (files : List String) : Diagnostic → Rendered
  | ⟨file, span, text, code, kind, category, related⟩ =>
    let diagnostic : Diagnostic := ⟨file, span, text, code, kind, category, related⟩
    { location := s!"{diagnostic.fileName files}:{span.start.describe}"
      message := text
      code := s!"zinc::{kind.text}::{diagnostic.codeText}"
      severity := category.severity
      related := ofList files related }

def ofList (files : List String) : List Diagnostic → List Rendered
  | [] => []
  | diagnostic :: rest => of files diagnostic :: ofList files rest
end

def describe (rendered : Rendered) : String := s!"{rendered.location}: {rendered.message}"

end Rendered

end Bindery
