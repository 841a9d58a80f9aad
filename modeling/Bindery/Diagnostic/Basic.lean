import Bindery.Text.Span
import Bindery.Diagnostic.Format
import Bindery.Diagnostic.Message
/-!
# Diagnostics

A diagnostic is a message with its arguments filled in, at a span, with notes that point elsewhere. `Diagnostic.text`
is its one-line form.
-/
namespace Bindery

/-- A realised message. `file` is the display name of the file, when the caller has one. -/
structure Diagnostic where
  file : Option String := none
  span : Span
  text : String
  code : Nat
  kind : Kind
  category : Category
  related : List Diagnostic := []

namespace Diagnostic

/-- The message at a span, with its arguments filled in. -/
def of (span : Span) (message : Message) (args : List String) : Diagnostic where
  span := span
  text := formatMessage message.template args
  code := message.code
  kind := message.kind
  category := message.category

instance : Inhabited Diagnostic := ⟨of .synthetic .internal []⟩

/-- Adds a note. -/
def withRelated (diagnostic note : Diagnostic) : Diagnostic :=
  { diagnostic with related := diagnostic.related ++ [note] }

def isError (diagnostic : Diagnostic) : Bool := diagnostic.category == .error

/-- The code with the letter in front, at least four digits long. -/
def codeText (diagnostic : Diagnostic) : String :=
  let digits := toString diagnostic.code
  "Z" ++ String.ofList (List.replicate (4 - digits.length) '0') ++ digits

/-- The line that shows the diagnostic: its place when the file's name is known, category, code, kind and message. -/
def describe (diagnostic : Diagnostic) : String :=
  let place := match diagnostic.file with
    | some file => s!"{file}:{diagnostic.span.start.describe}: "
    | none => ""
  s!"{place}{diagnostic.category.text}[{diagnostic.codeText}] {diagnostic.kind.text}: {diagnostic.text}"

end Diagnostic

end Bindery
