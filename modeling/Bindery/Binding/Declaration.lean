import Bindery.Binding.Tree
/-!
# Declarations

What a scope declares besides templates, modules and variables: enums, foreign functions, aliases, imports and the
fields of structs.
-/
namespace Bindery.BindM

variable (room : Room)

/-! ## Enums -/

/-- The value that a member of an enum is given: a constant, bound among the members before it. -/
def memberValue (scope : ScopeId) (pos : Span) (tree : Syntax) : BindM Int := do
  let node ← attempt (room.inScope scope pos fun level => level.value tree)
  match ← ask fun p => do (← p.constValue? (← node)).asInt? with
  | some value => return value
  | none => fail tree.pos .notConstant []

/-- Declares the members of an enum. A member without a value is one more than the member before it. -/
def bindMembers (scope : ScopeId) (ty : Ty) (bits : Nat) (signed : Bool) :
    List EnumMember → Int → BindM (List (SymbolId × ConstValue))
  | [], _ => return []
  | member :: rest, next => do
    let given ← match member.value with
      | some tree => attempt (memberValue room scope member.pos tree)
      | none => pure (some next)
    match given with
    | none => bindMembers scope ty bits signed rest next
    | some given =>
      let value := wrapInt given bits signed
      let node ← addNode member.pos ty (.literal (.int value) false)
      let symbol ← attempt (declare scope
        { name := member.name, scope, pos := member.pos, decl := .constAlias .define node })
      let members ← bindMembers scope ty bits signed rest (value + 1)
      return symbol.toList.map (·, .int value) ++ members

/-- Declares an enum and its members. -/
def bindEnum (base : Option Part) (source : EnumDef) : BindM Unit := do
  let scope ← currentScope
  let base ← match base with
    | some part => part.type room
    | none => pure .int32
  let some (.int bits signed) ← ask (·.scalar? base) | fail source.pos .enumBaseNotIntegral [← typeName base]
  let own ← addScope .enum scope
  let symbol ← declare scope
    { name := source.name, scope, ownScope := own, pos := source.pos, decl := .enum { base } }
  setOwner own symbol
  let members ← bindMembers room own (.direct symbol) bits signed source.members 0
  modifyProgram (·.setDecl symbol (.enum { base, members }))

/-! ## Foreign functions -/

/-- Declares the parameters of a foreign function. One without a type is left out. -/
def bindForeignParams (level : Level) (scope : ScopeId) (function : String) :
    List Param → Nat → BindM (List SymbolId)
  | [], _ => return []
  | param :: rest, index => do
    let symbol ← attempt do
      let ty ← match param.type, param.vararg with
        | some tree, false => level.type tree
        | _, _ => fail param.pos .foreignParameterType [function]
      declare scope { name := param.name, scope, pos := param.pos, decl := .parameter ty index }
    return symbol.toList ++ (← bindForeignParams level scope function rest (index + 1))

/-- Declares a foreign function. Its parameters are typed, and it has no body. -/
def bindForeignFunction (abi : String) (source : FunctionDef) : BindM Unit := do
  let scope ← currentScope
  let name ← functionName source
  if source.body.isSome then error source.pos .foreignBody [name]
  let modifiers ← inheritModifiers source.modifiers
  let own ← addScope .function scope
  let symbol ← declare scope
    { name, scope, ownScope := own, pos := source.pos, decl := .function { role := .plain, abi, modifiers } }
  setOwner own symbol
  room.inContext own (some symbol) modifiers source.pos fun level => do
    let params ← bindForeignParams level own name source.params 0
    let ret ← match source.returnType with
      | some tree => do pure ((← attempt (level.type tree)).getD .unknown)
      | none => pure .void
    modifyProgram (·.modifyFunction symbol ({ · with params, ret := some ret }))

def bindForeign (abi : String) (tree : Syntax) : BindM Unit :=
  match tree.form with
  | .function source => bindForeignFunction room abi source
  | _ => fail tree.pos .unimplemented ["A non-function declaration in an extern block"]

/-! ## Aliases and imports -/

/-- What an alias of a value stands for: a symbol, or a constant. -/
def valueAlias (tag : AliasTag) (pos : Span) (node : NodeId) : BindM Decl := do
  match ← ask fun p => (p.node node).kind with
  | .valueName symbol [] => return .valueAlias tag symbol
  | _ =>
    if (← ask (·.constValue? node)).isSome then return .constAlias tag (← markConstant node)
    else fail pos .notConstant []

def bindAlias (pos : Span) (name : String) (target : Part) (tag : AliasTag) : BindM Unit := do
  let scope ← currentScope
  let decl ← match ← target.operand with
    | .type ty => pure (.typeAlias tag ty)
    | .module symbol | .callable symbol none => pure (.valueAlias tag symbol)
    | .value node => valueAlias tag target.pos node
    | .callable _ (some _) => fail target.pos .nameIsNotAValue [name]
  discard (declare scope { name, scope, pos, decl })

/-- Follows an import path from a symbol; `path` is the part of it that has been followed. -/
def importMember (pos : Span) : List String → SymbolId → String → BindM SymbolId
  | [], symbol, _ => return symbol
  | segment :: rest, symbol, path => do
    let some scope ← attempt (moduleScope room symbol) | fail pos .cannotFindModule [path]
    match ← ask (·.member? scope segment) with
    | some member => importMember pos rest (← ask (·.resolveAlias member)) s!"{path}.{segment}"
    | none => fail pos .cannotImport [segment, path]

/-- Imports a name. It can be used in the scope, and through it. -/
def bindImport (pos : Span) (path : List String) (rename : Option String) : BindM Unit := do
  let scope ← currentScope
  match path with
  | [] => return
  | first :: rest =>
    let some found ← ask (·.lookup? scope first) | fail pos .cannotFindModule [first]
    let symbol ← ask (·.resolveAlias found)
    if (← ask (·.enclosingModule? scope)) = some symbol then fail pos .moduleImportsItself [first]
    let target ← importMember room pos rest symbol first
    let name := rename.getD (rest.getLast?.getD first)
    discard (declareImported scope { name, scope, pos, decl := .valueAlias .imported target })

/-! ## Fields -/

/-- The value that a field starts with. -/
def fieldDefault (value : Option Part) : BindM (Option NodeId) :=
  value.mapM fun part => do readThrough (← part.value room)

/-- Declares a field. Constants and static fields belong to the struct, not to its values. -/
def bindField (owner : SymbolId) (pos : Span) (name : String) (type value : Option Part) (own : Modifiers) :
    BindM Unit := do
  let modifiers ← inheritModifiers own
  if modifiers.isConst then discard (bindDefinition room pos name type value modifiers)
  else
    let declared ← type.mapM (·.type room)
    let default ← fieldDefault room value
    let ty ← match declared, default with
      | some ty, _ => pure ty
      | none, some node => ask (·.inferredType node)
      | none, none => fail pos .fieldNeedsType [name]
    let default ← default.mapM (coerce · ty)
    let scope ← currentScope
    if modifiers.isStatic then discard (declare scope { name, scope, pos, decl := .globalVar ty })
    else discard (declareField owner scope name pos ty default)

def bindMember (owner : SymbolId) (tree : Syntax) : BindM Unit :=
  match tree.form with
  | .define name type value modifiers =>
    bindField room owner tree.pos name (optionalPart room type) (optionalPart room value) modifiers
  | form =>
    if form.isDeclaration then return else fail tree.pos .unimplemented ["A statement in a struct body"]

end Bindery.BindM
