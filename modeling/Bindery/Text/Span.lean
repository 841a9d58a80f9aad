/-!
# Spans

Where a piece of source stands: a file number, and a first and a last line and column, both counted from one.
Positions are ordered line first. `Span.describe` is the long text of a span, `LineCol.describe` the short text of a
place.
-/
namespace Bindery

/-- A line and a column, counted from one. -/
structure LineCol where
  line : Nat
  column : Nat
  deriving DecidableEq, Repr

namespace LineCol

/-- The first place of a file. -/
def origin : LineCol := ⟨1, 1⟩

instance : Inhabited LineCol := ⟨origin⟩

instance : LE LineCol :=
  ⟨fun a b => a.line < b.line ∨ a.line = b.line ∧ a.column ≤ b.column⟩

instance : LT LineCol :=
  ⟨fun a b => a.line < b.line ∨ a.line = b.line ∧ a.column < b.column⟩

theorem le_def (a b : LineCol) : a ≤ b ↔ a.line < b.line ∨ a.line = b.line ∧ a.column ≤ b.column := Iff.rfl

instance (a b : LineCol) : Decidable (a ≤ b) :=
  inferInstanceAs (Decidable (a.line < b.line ∨ a.line = b.line ∧ a.column ≤ b.column))

theorem lt_def (a b : LineCol) : a < b ↔ a.line < b.line ∨ a.line = b.line ∧ a.column < b.column := Iff.rfl

instance (a b : LineCol) : Decidable (a < b) :=
  inferInstanceAs (Decidable (a.line < b.line ∨ a.line = b.line ∧ a.column < b.column))

instance : Min LineCol := minOfLe

instance : Max LineCol := maxOfLe

theorem le_refl (a : LineCol) : a ≤ a := by simp [le_def]

theorem le_total (a b : LineCol) : a ≤ b ∨ b ≤ a := by simp only [le_def]; omega

theorem le_trans {a b c : LineCol} (h : a ≤ b) (k : b ≤ c) : a ≤ c := by simp only [le_def] at *; omega

theorem le_of_lt {a b : LineCol} (h : a < b) : a ≤ b := by simp only [le_def, lt_def] at *; omega

theorem not_le_of_lt {a b : LineCol} (h : b < a) : ¬ a ≤ b := by simp only [le_def, lt_def] at *; omega

theorem not_lt_of_lt {a b : LineCol} (h : b < a) : ¬ a < b := by simp only [lt_def] at *; omega

/-- The later of two places is not before the first of them. -/
theorem le_max_left (a b : LineCol) : a ≤ max a b := by
  show a ≤ if a ≤ b then b else a
  split
  · assumption
  · exact le_refl a

theorem le_max_right (a b : LineCol) : b ≤ max a b := by
  show b ≤ if a ≤ b then b else a
  split
  · exact le_refl b
  · exact (le_total a b).resolve_left (by assumption)

/-- The text `line:column`. -/
def describe (place : LineCol) : String := s!"{place.line}:{place.column}"

end LineCol

/-- A stretch of a source file. -/
structure Span where
  file : Nat
  start : LineCol
  stop : LineCol
  deriving DecidableEq, Repr

namespace Span

/-- A stretch of a single line. -/
def onLine (file line column endColumn : Nat) : Span := ⟨file, ⟨line, column⟩, ⟨line, endColumn⟩⟩

/-- The span of what no source text stands for. -/
def synthetic : Span := ⟨0, .origin, .origin⟩

instance : Inhabited Span := ⟨synthetic⟩

/-- The least stretch that covers both spans; the file is that of the first. -/
def union (a b : Span) : Span := ⟨a.file, min a.start b.start, max a.stop b.stop⟩

/-- Whether a place lies in the span, its two ends included. -/
def contains (span : Span) (place : LineCol) : Bool := span.start ≤ place && place ≤ span.stop

/-- The text `file:line:column-endLine:endColumn`. -/
def describe (span : Span) : String := s!"{span.file}:{span.start.describe}-{span.stop.describe}"

end Span

end Bindery
