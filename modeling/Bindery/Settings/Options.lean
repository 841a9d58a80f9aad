import Bindery.Binding
import Bindery.Text.Alphabetic
/-!
# Options

What a compilation may be told. Every option may be left open; laying options over others replaces those that are set.
-/
namespace Bindery

/-- The options of a compilation. -/
structure Options where
  pointerWidth : Option Nat := none
  maxNestingDepth : Option Nat := none
  entryName : Option String := none
  threads : Option Nat := none
  maxErrors : Option Nat := none
  deriving DecidableEq, Repr

/-- What is wrong with options. -/
inductive OptionFault where
  | pointerWidth (width : Nat)
  | nestingDepth
  | threads
  | entryName (name : String)
  deriving DecidableEq, Repr

def OptionFault.message : OptionFault → String
  | .pointerWidth width => s!"target.pointerWidth must be 32 or 64, found {width}"
  | .nestingDepth => "maxNestingDepth must be at least 1"
  | .threads => "threads must be at least 1"
  | .entryName name => s!"entryName `{name}` is not an identifier"

namespace Options

instance : Inhabited Options := ⟨{}⟩

/-- Lays options over others. -/
def merge (base overlay : Options) : Options where
  pointerWidth := overlay.pointerWidth <|> base.pointerWidth
  maxNestingDepth := overlay.maxNestingDepth <|> base.maxNestingDepth
  entryName := overlay.entryName <|> base.entryName
  threads := overlay.threads <|> base.threads
  maxErrors := overlay.maxErrors <|> base.maxErrors

/-- The first fault of options. -/
def fault? (options : Options) : Option OptionFault :=
  match options.pointerWidth.filter fun width => width ≠ 32 ∧ width ≠ 64 with
  | some width => some (.pointerWidth width)
  | none =>
    if options.maxNestingDepth = some 0 then some .nestingDepth
    else if options.threads = some 0 then some .threads
    else (options.entryName.filter fun name => !isIdentifier name).map .entryName

/-- What binding takes from the options, with the defaults of those that are open. -/
def bindOptions (options : Options) : BindOptions where
  pointerWidth := options.pointerWidth.getD 64
  maxNestingDepth := options.maxNestingDepth.getD 256
  entryName := options.entryName.getD "__entry"
  maxErrors := options.maxErrors

theorem merge_assoc (a b c : Options) : (a.merge b).merge c = a.merge (b.merge c) := by
  simp only [merge, Option.orElse_eq_orElse, Option.orElse_eq_or, Option.or_assoc]

end Options

end Bindery
