import Bindery.Binding.Operator
import Bindery.Program.Layout
/-!
# Expressions

The forms of expressions besides names, calls and operators.
-/
namespace Bindery

namespace Program

/-- What indexing a value of a type gives. -/
def elementType? (p : Program) (ty : Ty) : Option Ty :=
  match p.typeDecl? ty with
  | some (.array own) => some own.element
  | _ => ty.pointee?.filter (!isVoid ·)

/-- The fields of a struct that an initializer may name. -/
def ordinaryFields (p : Program) (owner : SymbolId) : List SymbolId :=
  (p.fieldsOf owner).filter fun field => (p.field? field).any (·.captured.isNone)

/-- The field that an initializer gives a value: the one of a name, or the next one. -/
def givenField? (p : Program) (fields : List SymbolId) (name : Option String) (next : Nat) : Option SymbolId :=
  match name with
  | some name => fields.find? fun field => (p.symbol field).name == name
  | none => fields[next]?

/-- The values that an initializer leaves to the defaults of fields. -/
def defaultsFor (p : Program) (fields : List SymbolId) (assigned : List (SymbolId × NodeId)) :
    List (SymbolId × NodeId) :=
  (fields.filter fun field => !(assigned.any (·.1 == field))).filterMap fun field =>
    ((p.field? field).bind (·.default)).map fun value => (field, value)

end Program

namespace BindM

def bindFloat (pos : Span) (value : Double) (single : Bool) : BindM NodeId :=
  if single then addNode pos (.float 32) (.literal (.float value.toSingle) false)
  else addNode pos .double (.literal (.float value) false)

def bindString (pos : Span) (value : String) : BindM NodeId :=
  addNode pos (.pointer (.int 8 false)) (.stringLiteral value)

def bindIndex (room : Room) (pos : Span) (base index : Part) : BindM NodeId := do
  let basePos := base.pos
  let base ← attempt (base.value room)
  let index ← attempt (index.value room)
  let some base := base | failure
  let base ← readThrough base
  let some index := index | failure
  let index ← readThrough index
  let index ← if ← ask fun p => p.isIntegral (p.node index).ty then pure index
    else coerce index (← ask (·.pointerInt true))
  let ty ← nodeType base
  match ← ask (·.elementType? ty) with
  | some element => addNode pos element (.indexName base index)
  | none => fail basePos .notIndexable [← typeName ty]

def bindTernary (room : Room) (pos : Span) (test whenTrue whenFalse : Part) : BindM NodeId := do
  let test ← attempt (test.condition room)
  let (whenTrue, whenFalse) ← bothValues room whenTrue whenFalse
  let some test := test | failure
  let whenTrue ← readThrough whenTrue
  let whenFalse ← readThrough whenFalse
  let ty ← upperBound whenTrue whenFalse pos
  let whenTrue ← coerce whenTrue ty
  let whenFalse ← coerce whenFalse ty
  fold (← addNode pos ty (.ternary test whenTrue whenFalse)) [test, whenTrue, whenFalse]

/-- A conversion that the source asks for. -/
def bindCast (room : Room) (value target : Part) (intent : Intent) : BindM NodeId := do
  let value ← attempt (value.value room)
  let ty ← target.type room
  let some value := value | failure
  convert (← if ty.isReference then pure value else readThrough value) ty intent

def bindTuple (room : Room) (pos : Span) (items : List Part) : BindM NodeId := do
  packTuple pos (← items.mapM (·.value room))

/-- The size of a type, or of the type of a value. -/
def bindSizeOf (room : Room) (pos : Span) (part : Part) : BindM NodeId := do
  let target ← match ← part.settled room with
    | .type ty => pure ty
    | operand => do pure (← nodeType (← operandNode room operand part.pos)).stripReference
  addNode pos (.int 64 false) (.sizeOf target (← ask (·.sizeOf target)))

def bindAtomic (room : Room) (pos : Span) (op : AtomicOp) (target value : Part) : BindM NodeId := do
  let targetPos := target.pos
  let target ← attempt (target.value room)
  let value ← attempt (value.value room)
  let some target := target | failure
  let target ← readThrough target
  let ty ← nodeType target
  let some pointee ← ask fun p => ty.pointee?.filter p.isIntegral | fail targetPos .atomicTarget [← typeName ty]
  let some value := value | failure
  let value ← coerce (← readThrough value) pointee
  addNode pos pointee (.atomic op target value)

def bindAwait (room : Room) (pos : Span) (part : Part) : BindM NodeId := do
  let context ← read
  let inAsync ← ask fun p => ((context.function.bind p.function?).any (·.isAsync))
  if !(context.modifiers.isAsync || inAsync) then fail pos .awaitOutsideAsync []
  let value ← readThrough (← part.value room)
  addNode pos (← nodeType value) (.await value)

/-! ## Initializers -/

/-- Binds the fields of an initializer in order; `next` counts the ones without a name. The result tells whether all of
them were bound. -/
def bindFields (room : Room) (owner : String) (fields : List SymbolId) :
    List ArgPart → Nat → List (SymbolId × NodeId) → Bool → BindM (List (SymbolId × NodeId) × Bool)
  | [], _, assigned, ok => return (assigned, ok)
  | arg :: rest, next, assigned, ok => do
    let after := if arg.name.isSome then next else next + 1
    match ← ask (·.givenField? fields arg.name next) with
    | none =>
      error arg.pos .noField [arg.name.getD (toString next), owner]
      bindFields room owner fields rest after assigned false
    | some field =>
      if assigned.any (·.1 == field) then
        error arg.pos .fieldInitializedTwice [← symbolName field]
        bindFields room owner fields rest after assigned false
      else
        let ty ← ask fun p => ((p.decl field).valueType?).getD .unknown
        match ← attempt do coerce (← readThrough (← arg.value.value room)) ty with
        | some value => bindFields room owner fields rest after (assigned ++ [(field, value)]) ok
        | none => bindFields room owner fields rest after assigned false

/-- A value of a struct. Fields that are not given take their defaults. -/
def bindInitializer (room : Room) (pos : Span) (type : Part) (args : List ArgPart) : BindM NodeId := do
  let target ← type.type room
  let some owner ← ask fun p => target.symbol?.filter fun symbol => (p.struct? symbol).isSome
    | fail pos .unimplemented ["An initializer for a non-struct type"]
  let fields ← ask (·.ordinaryFields owner)
  let (assigned, ok) ← bindFields room (← symbolName owner) fields args 0 [] true
  if !ok then failure
  let defaults ← ask (·.defaultsFor fields assigned)
  addNode pos target (.initializer (assigned ++ defaults))

/-! ## Allocation -/

/-- The method that runs when an object is made or deleted. -/
def specialMethod (room : Room) (ty : Ty) (name : String) (args : List CallArg) (pos : Span) :
    BindM (Option (SymbolId × List NodeId)) := do
  let found ← ask fun p => do
    let symbol ← ty.symbol?
    discard (p.struct? symbol)
    p.member? (← (p.symbol symbol).ownScope) name
  match found with
  | none => return none
  | some symbol =>
    let template ← selectTemplate symbol args.length true pos
    return some (← instantiateFunction room template args pos)

def bindNew (room : Room) (pos : Span) (type : Part) (count : Option Part) (args : List ArgPart) : BindM NodeId := do
  let target ← type.type room
  let count ← count.mapM fun part => do
    let value ← readThrough (← part.value room)
    coerce value (← ask (·.pointerInt false))
  let args ← bindArguments room args
  let made ← specialMethod room target "constructor" args pos
  if made.isNone && !args.isEmpty then fail pos .argumentCount ["constructor", toString args.length]
  addNode pos (.pointer target) (.new target count (made.map (·.1)) ((made.map (·.2)).getD []))

def bindDelete (room : Room) (pos : Span) (part : Part) : BindM NodeId := do
  let value ← readThrough (← part.value room)
  match ← nodeType value with
  | .pointer pointee =>
    let disposer ← specialMethod room pointee "dispose" [] pos
    addStatement pos (.delete value (disposer.map (·.1)))
  | ty => fail part.pos .deleteNeedsPointer [← typeName ty]

/-! ## Lambdas -/

/-- The parameters of a lambda, each with its declared type. -/
def bindLambdaParams (level : Level) (params : List Param) : BindM (List ValueParam) := do
  let bound ← params.mapM fun param => attempt do
    match param.type with
    | some tree =>
      if param.vararg || param.const then needsType param
      else return (⟨param.name, param.pos, ← level.type tree⟩ : ValueParam)
    | none => needsType param
  match bound.mapM id with
  | some params => return params
  | none => failure
where
  needsType (param : Param) : BindM ValueParam :=
    fail param.pos .malformedParameters ["lambda", "every parameter needs a declared type"]

/-- A lambda: a closure struct whose method `call` has the body, made on the spot from the captured variables. -/
def bindLambda (room : Room) (pos : Span) (source : FunctionDef) : BindM NodeId := do
  let scope ← currentScope
  let name ← freshName "lambda"
  let closureScope ← addScope .struct scope
  let closure ← addSymbol { name, scope, ownScope := closureScope, pos, decl := .struct { kind := .lambda } }
  setOwner closureScope closure
  let modifiers ← inheritModifiers source.modifiers
  useName "call"
  let (call, callScope) ← declareMethod "call" .lambdaCall none closure closureScope pos modifiers
  let params ← room.inScope callScope pos fun level => bindLambdaParams level source.params
  bindMethod room closure call callScope params source modifiers
  addNode pos (.direct closure) (.initializer (← capturedValues closure pos))

end BindM

end Bindery
