import Bindery.Binding.Statement
/-!
# From syntax to rules

Each form of the syntax has a rule; its parts are bound by the rules of their own forms. Bodies that stand in a scope of
their own are handed to their rule as syntax, for the next level to bind.
-/
namespace Bindery.BindM

variable (room : Room)

mutual

/-- A piece of source with the rule that binds it. -/
def part : Syntax → Part
  | .mk pos form => ⟨pos, formOperand pos form⟩

/-- What a form denotes at a place. Declarations have been looked at before the statements around them, and denote
nothing where they stand. -/
def formOperand (pos : Span) : Form → BindM Operand
  | .name name => nameOperand name pos
  | .dot base member => dotOperand room pos (part base) member
  | .pointerType pointee => pointerOperand room (part pointee)
  | .referenceType pointee => referenceOperand room (part pointee)
  | .arrayType element length => arrayOperand room (part element) (part length)
  | .call callee args trailing => callOperand room pos (part callee) (argParts args ++ (trailingPart trailing).toList)
  | .int value suffix => .value <$> bindInt pos value suffix
  | .float value single => .value <$> bindFloat pos value single
  | .bool value => .value <$> addNode pos .bool (.literal (.bool value) false)
  | .null => .value <$> addNode pos .null (.literal .null false)
  | .string value => .value <$> bindString pos value
  | .index base index => .value <$> bindIndex room pos (part base) (part index)
  | .unary op operand => .value <$> bindUnary room pos op (part operand)
  | .binary op left right => .value <$> bindBinary room pos op (part left) (part right)
  | .assign op target value => .value <$> bindAssign room pos op (part target) (part value)
  | .ternary test whenTrue whenFalse => .value <$> bindTernary room pos (part test) (part whenTrue) (part whenFalse)
  | .cast value target intent => .value <$> bindCast room (part value) (part target) intent
  | .initializer type fields => .value <$> bindInitializer room pos (part type) (argParts fields)
  | .tuple items => .value <$> bindTuple room pos (parts items)
  | .sizeOf target => .value <$> bindSizeOf room pos (part target)
  | .new type count args => .value <$> bindNew room pos (part type) (optionalPart count) (argParts args)
  | .delete value => .value <$> bindDelete room pos (part value)
  | .atomic op target value => .value <$> bindAtomic room pos op (part target) (part value)
  | .lambda source => .value <$> bindLambda room pos source
  | .await value => .value <$> bindAwait room pos (part value)
  | .define name type value modifiers =>
    .value <$> bindDefinition room pos name (optionalPart type) (optionalPart value) modifiers
  | .modified modifiers body => .value <$> bindModified pos (statementParts modifiers body)
  | .block label body => .value <$> bindBlock room pos label body
  | .branch test whenTrue whenFalse => .value <$> bindIf room pos (part test) whenTrue whenFalse
  | .loop label init test step body => .value <$> bindLoop room pos label init test step body
  | .forIn label name iterable body => .value <$> bindForIn room pos label name iterable body
  | .returns value => .value <$> bindReturn room pos (optionalPart value)
  | .breaks label => .value <$> bindJump pos label false
  | .continues label => .value <$> bindJump pos label true
  | .defer value => .value <$> bindDefer room pos (part value)
  | .yield value => .value <$> bindYield room pos (part value)
  | .yieldFrom value => .value <$> bindYieldFrom room pos (part value)
  | .function _ | .struct _ | .enum _ | .aliasAs .. | .importPath .. | .exportAs .. | .module _ | .foreign .. => failure

def optionalPart : Option Syntax → Option Part
  | none => none
  | some tree => some (part tree)

/-- The last argument of a call, when it stands behind the argument list. -/
def trailingPart : Option Syntax → Option ArgPart
  | none => none
  | some (.mk pos form) => some ⟨pos, none, pos, formOperand pos form⟩

def parts : List Syntax → List Part
  | [] => []
  | tree :: rest => part tree :: parts rest

def argParts : List Argument → List ArgPart
  | [] => []
  | ⟨pos, name, value⟩ :: rest => ⟨pos, name, part value⟩ :: argParts rest

/-- The statements of a list, those in modifier blocks among them. -/
def statementParts (modifiers : Modifiers) : List Syntax → List StatementPart
  | [] => []
  | .mk _ (.modified own body) :: rest => statementParts (modifiers ∪ own) body ++ statementParts modifiers rest
  | .mk pos form :: rest =>
    ⟨modifiers, .mk pos form, Part.expression room ⟨pos, formOperand pos form⟩⟩ :: statementParts modifiers rest

end

end Bindery.BindM
