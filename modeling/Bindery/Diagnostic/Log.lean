import Bindery.Diagnostic.Basic
/-!
# The log of a compilation

Diagnostics in the order of their report. A cap limits how many errors are kept; all of them are counted, so that the
count still tells whether the compilation failed.
-/
namespace Bindery

/-- The diagnostics kept so far, the number of errors reported, and the largest number of errors to keep. -/
structure Log where
  entries : List Diagnostic := []
  errorCount : Nat := 0
  maxErrors : Option Nat := none

namespace Log

def withCap (maxErrors : Option Nat) : Log := { maxErrors }

/-- Whether one more error would be kept. -/
def hasRoom (log : Log) : Bool :=
  match log.maxErrors with
  | some cap => log.errorCount + 1 ≤ cap
  | none => true

/-- Reports a diagnostic: an error is counted, and kept while there is room; all else is kept. -/
def add (log : Log) (diagnostic : Diagnostic) : Log :=
  if diagnostic.isError then
    { log with
      errorCount := log.errorCount + 1
      entries := if log.hasRoom then log.entries ++ [diagnostic] else log.entries }
  else { log with entries := log.entries ++ [diagnostic] }

/-- Reports every diagnostic that another log kept. -/
def extend (log other : Log) : Log := other.entries.foldl add log

def hasErrors (log : Log) : Bool := 0 < log.errorCount

/-- How many of the kept diagnostics are of a kind. -/
def countKind (log : Log) (kind : Kind) : Nat := log.entries.countP (·.kind == kind)

def isEmpty (log : Log) : Bool := log.entries.isEmpty

def size (log : Log) : Nat := log.entries.length

/-- Whether one diagnostic stands before another, or at the same place of the same file. -/
def inOrder (a b : Diagnostic) : Bool :=
  a.span.file < b.span.file || (a.span.file == b.span.file && a.span.start ≤ b.span.start)

/-- Orders the kept diagnostics by file and place; those at one place stay in the order of their report. -/
def sort (log : Log) : Log := { log with entries := log.entries.mergeSort inOrder }

end Log

end Bindery
