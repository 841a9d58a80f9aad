import Bindery.Binding.Convert
import Bindery.Binding.Declare
/-!
# Arrays and tuples

An array type belongs to an element type and a length, a tuple type to a list of types; each is made when it is first
needed and found again after that.
-/
namespace Bindery.BindM

/-- The type of the arrays of a length. -/
def arrayType (element : Ty) (length : UInt64) : BindM Ty := do
  match ← ask (·.arrays.lookup (element, length)) with
  | some symbol => return .direct symbol
  | none =>
    let name := s!"{← typeName element}[{length}]"
    useName name
    let symbol ← addSymbol { name, scope := .root, pos := .synthetic, decl := .array { element, length } }
    modifyProgram fun p => { p with arrays := ((element, length), symbol) :: p.arrays }
    return .direct symbol

/-- Declares the fields of a tuple: `_0`, `_1` and so on. -/
def declareTupleFields (owner : SymbolId) (scope : ScopeId) : Nat → List Ty → BindM Unit
  | _, [] => return
  | index, ty :: rest => do
    let name := s!"_{index}"
    useName name
    discard (declareField owner scope name .synthetic ty none)
    declareTupleFields owner scope (index + 1) rest

/-- The tuple struct whose fields have given types. -/
def tupleType (fields : List Ty) : BindM SymbolId := do
  match ← ask (·.tuples.lookup fields) with
  | some symbol => return symbol
  | none =>
    let scope ← addScope .struct .root
    let name ← freshName "tuple"
    let symbol ← addSymbol
      { name, scope := .root, ownScope := scope, pos := .synthetic, decl := .struct { kind := .tuple } }
    setOwner scope symbol
    declareTupleFields symbol scope 0 fields
    modifyProgram fun p => { p with tuples := (fields, symbol) :: p.tuples }
    return symbol

/-- Packs values into a tuple. -/
def packTuple (pos : Span) (values : List NodeId) : BindM NodeId := do
  let elements ← values.mapM fun value => do
    let value ← readThrough value
    coerce value (← ask (·.inferredType value))
  let types ← elements.mapM nodeType
  let tuple ← tupleType types
  let fields ← ask (·.fieldsOf tuple)
  addNode pos (.direct tuple) (.initializer (fields.zip elements))

end Bindery.BindM
