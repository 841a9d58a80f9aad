import Bindery.Binding.Expression
/-!
# Statements

A statement is a node of the type `Void`. Blocks and loops open scopes of their own; a jump names the label it goes to.
What follows a jump in a list of statements is unreachable, which is reported once for the list.
-/
namespace Bindery

namespace Form

/-- Whether a statement only declares names, so that it does nothing where it stands. -/
def isDeclaration : Form → Bool
  | .function .. | .struct .. | .enum .. | .aliasAs .. | .importPath .. | .exportAs .. | .module .. | .foreign .. => true
  | _ => false

/-- The keyword of a statement that control never goes past. -/
def jumpKeyword? : Form → Option String
  | .returns .. => some "return"
  | .breaks .. => some "break"
  | .continues .. => some "continue"
  | _ => none

end Form

namespace BindM

/-! ## Definitions -/

/-- The type and the value of a definition. -/
def definedValue (room : Room) (pos : Span) (name : String) (type value : Option Part) :
    BindM (Ty × Option NodeId) := do
  let declared ← type.mapM (·.type room)
  let init ← value.mapM (·.value room)
  match declared, init with
  | some ty, some init => return (ty, some (← coerce init ty))
  | some ty, none => return (ty, none)
  | none, some init =>
    let init ← readThrough init
    if (← nodeType init) = .null then fail pos .missingTypeOrInitializer [name]
    let ty ← ask (·.inferredType init)
    return (ty, some (← coerce init ty))
  | none, none => fail pos .missingTypeOrInitializer [name]

/-- Declares a constant. It leaves no node behind. -/
def defineConstant (pos : Span) (name : String) (init : Option NodeId) : BindM NodeId := do
  let scope ← currentScope
  let some init := init | fail pos .missingTypeOrInitializer [name]
  if (← ask (·.constValue? init)).isNone then fail (← nodePos init) .notConstant []
  let value ← markConstant init
  discard (declare scope { name, scope, pos, decl := .constAlias .define value })
  failure

/-- Defines a constant or a variable. The variables of a generator are assigned to fields of its state. -/
def bindDefinition (room : Room) (pos : Span) (name : String) (type value : Option Part) (own : Modifiers) :
    BindM NodeId := do
  let modifiers ← inheritModifiers own
  let (ty, init) ← definedValue room pos name type value
  if modifiers.isConst then defineConstant pos name init
  else
    let symbol ← declareVariable name ty pos modifiers
    match ← ask (·.field? symbol), init with
    | some _, some value => addStatement pos (.assignment (← reference symbol pos) value)
    | some _, none => failure
    | none, init => addStatement pos (.definition symbol init)

/-! ## Blocks, branches and loops -/

def bindBlock (room : Room) (pos : Span) (label : Option String) (body : List Syntax) : BindM NodeId := do
  let scope ← addScope .block (← currentScope)
  room.inScope scope pos fun level => do
    let label ← label.mapM fun name => declareLabel (some name) false pos
    addStatement pos (.block scope label (← level.body body))

/-- Binds the body of a branch or a loop. A single statement is a block of its own. -/
def bindBranch (room : Room) (tree : Syntax) : BindM NodeId :=
  match tree.form with
  | .block label body => bindBlock room tree.pos label body
  | _ => bindBlock room tree.pos none [tree]

/-- A statement that depends on a condition. All parts are bound before it fails. -/
def bindIf (room : Room) (pos : Span) (test : Part) (whenTrue : Syntax) (whenFalse : Option Syntax) :
    BindM NodeId := do
  let test ← attempt (test.condition room)
  let whenTrue ← attempt (bindBranch room whenTrue)
  let whenFalse ← whenFalse.mapM fun tree => attempt (bindBranch room tree)
  let (some test, some whenTrue, some whenFalse) := (test, whenTrue, whenFalse.mapM id) | failure
  addStatement pos (.branch test whenTrue whenFalse)

def bindLoop (room : Room) (pos : Span) (label : Option String) (init test step : Option Syntax) (body : Syntax) :
    BindM NodeId := do
  let scope ← addScope .block (← currentScope)
  room.inScope scope pos fun level => do
    let label ← declareLabel label true pos
    let init ← init.mapM fun tree => attempt (level.expression tree)
    let test ← test.mapM fun tree => attempt (level.condition tree)
    let step ← step.mapM fun tree => attempt (level.expression tree)
    let body ← attempt (withLoop label (level.branch body))
    let (some test, some body) := (test.mapM id, body) | failure
    addStatement pos (.loop scope label init.join test step.join body)

/-- A jump to a label, or to the innermost loop. -/
def bindJump (pos : Span) (label : Option String) (isContinue : Bool) : BindM NodeId := do
  let context ← read
  let target ← match label with
    | none =>
      match context.loopLabel with
      | some label => pure label
      | none => fail pos .jumpOutsideLoop [if isContinue then "continue" else "break"]
    | some name => do
      let found ← ask fun p => (p.lookup? context.scope name).filter fun symbol => match p.decl symbol with
        | .label own => own.function == context.function
        | _ => false
      match found with
      | some label => pure label
      | none => fail pos .cannotFindLabel [name]
  let isLoop ← ask fun p => match p.decl target with
    | .label own => own.isLoop
    | _ => false
  if isContinue && !isLoop then fail pos .continueTargetNotLoop [← symbolName target]
  addStatement pos (if isContinue then .continues target else .breaks target)

/-! ## Returning -/

/-- Returns nothing. The return type is fixed by this if it was open. -/
def returnNothing (pos : Span) (function : SymbolId) (ret : Option Ty) : BindM NodeId := do
  match ret with
  | none => setReturnType function .void
  | some ty => if ty ≠ .void then fail pos .cannotImplicitlyConvert ["Void", ← typeName ty]
  addStatement pos (.returns none)

/-- Returns a value. The return type is fixed by this if it was open. -/
def returnValue (room : Room) (pos : Span) (function : SymbolId) (ret : Option Ty) (part : Part) : BindM NodeId := do
  let value ← part.value room
  let value ← if ret.any (·.isReference) then pure value else readThrough value
  let ty ← match ret with
    | some ty => pure ty
    | none => do
      let ty ← ask (·.inferredType value)
      setReturnType function ty
      pure ty
  addStatement pos (.returns (some (← coerce value ty)))

def bindReturn (room : Room) (pos : Span) (value : Option Part) : BindM NodeId := do
  let some function := (← read).function | fail pos .returnOutsideFunction []
  let some own ← ask (·.function? function) | failure
  match own.role, value with
  | .generatorStep, some _ => fail pos .generatorReturnsValue []
  | .generatorStep, none => addStatement pos (.returns none)
  | _, none => returnNothing pos function own.ret
  | _, some part => returnValue room pos function own.ret part

/-! ## Yielding -/

/-- The state of the generator that a `yield` belongs to. -/
def requireGenerator (pos : Span) : BindM SymbolId := do
  match ← generatorState? with
  | some state => return state
  | none => fail pos .yieldOutsideGenerator []

def bindYield (room : Room) (pos : Span) (part : Part) : BindM NodeId := do
  let state ← requireGenerator pos
  let value ← readThrough (← part.value room)
  let element ← fixElement state (← ask (·.inferredType value)) pos
  addStatement pos (.yield (← coerce value element))

/-- The method that steps a generator value, and the type of what it yields. -/
def iteration (value : NodeId) (pos : Span) : BindM (SymbolId × Ty) := do
  let ty ← nodeType value
  match ty.symbol?, ← ask (·.structKind? ty) with
  | some state, some .resumable =>
    let some own ← ask (·.struct? state) | failure
    match own.method, own.element with
    | some step, some element => return (step, element)
    | _, _ => fail pos .usedBeforeInferred [← symbolName state]
  | _, _ => fail pos .notIterable [← typeName ty]

/-- Yields everything that another generator yields. -/
def bindYieldFrom (room : Room) (pos : Span) (part : Part) : BindM NodeId := do
  let state ← requireGenerator pos
  let value ← readThrough (← part.value room)
  let (step, inner) ← iteration value pos
  let element ← fixElement state inner pos
  if element ≠ inner then fail pos .cannotImplicitlyConvert [← typeName inner, ← typeName element]
  addStatement pos (.yieldFrom value step)

/-- A loop over what a generator yields. Its state is kept in a variable without a name in the source. -/
def bindForIn (room : Room) (pos : Span) (label : Option String) (name : String) (iterable body : Syntax) :
    BindM NodeId := do
  let scope ← addScope .block (← currentScope)
  room.inScope scope pos fun level => do
    let init ← readThrough (← level.value iterable)
    let (step, element) ← iteration init iterable.pos
    let stateName ← freshName "state"
    let state ← declareVariable stateName (← nodeType init) pos .none
    let label ← declareLabel label true pos
    let item ← declareVariable name element pos .none
    let body ← withLoop label (level.branch body)
    addStatement pos (.forIn scope label item state init step body)

end BindM

/-! ## Lists of statements -/

/-- A statement of a list, with the modifiers around it and the rule that binds it. -/
structure StatementPart where
  modifiers : Modifiers
  tree : Syntax
  rule : BindM NodeId

/-- How far control comes in a list of statements: everywhere so far, not past a jump, or not past a jump after which
a statement was reported. -/
inductive Reach where
  | open
  | jumped (keyword : String)
  | reported
  deriving DecidableEq, Repr

/-- What a statement leaves reachable. -/
def Reach.after (reach : Reach) (form : Form) : Reach :=
  match reach, form.jumpKeyword? with
  | .open, some keyword => .jumped keyword
  | _, _ => reach

namespace BindM

/-- Reports a statement that is not reached, unless it declares something or one has been reported. -/
def reportUnreachable (reach : Reach) (tree : Syntax) : BindM Reach := do
  match reach with
  | .jumped keyword =>
    if tree.form.isDeclaration then return reach
    error tree.pos .unreachable [keyword]
    return .reported
  | _ => return reach

/-- Binds statements in order. One that fails or leaves no node is passed over. -/
def bindStatements : List StatementPart → Reach → BindM (List NodeId)
  | [], _ => return []
  | part :: rest, reach => do
    let reach ← reportUnreachable reach part.tree
    let node ← attempt (withModifiers part.modifiers part.rule)
    return node.toList ++ (← bindStatements rest (reach.after part.tree.form))

/-- A modifier block where a single statement is expected. -/
def bindModified (pos : Span) (statements : List StatementPart) : BindM NodeId := do
  let nodes ← bindStatements statements .open
  addStatement pos (.block (← currentScope) none nodes)

def bindDefer (room : Room) (pos : Span) (part : Part) : BindM NodeId := do
  addStatement pos (.defer (← part.expression room))

end BindM

end Bindery
