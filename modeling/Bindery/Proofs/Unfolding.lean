import Bindery.Proofs.FollowsBodies
import Mathlib.Order.Filter.AtTopBot.Basic
/-!
# Unfolding the rules

The rules of binding refer to each other: a form to the rules of its parts, and a rule that enters a scope to the rules
of the next level, which bind syntax that may stand anywhere. Here the references are left open. The rules are given as
tables, by the number of levels that are left and by the piece of syntax, and `Rules.unfold` makes the entries of a
table from those of another one, as the rules are made from each other.

Unfolding often enough settles every run, whatever the innermost table says: a run comes to its end after a number of
rules inside each other.
-/
namespace Bindery

/-- A statement of a scope after the first pass, with the module that it declares. -/
structure DeclaredStatement where
  modifiers : Modifiers
  tree : Syntax
  module : Option SymbolId

namespace BindM

/-- The statements of a list with the modifiers around them, those in modifier blocks among them. -/
def flatten (modifiers : Modifiers) : List Syntax → List (Modifiers × Syntax)
  | [] => []
  | .mk _ (.modified own body) :: rest => flatten (modifiers ∪ own) body ++ flatten modifiers rest
  | .mk pos form :: rest => (modifiers, .mk pos form) :: flatten modifiers rest

/-- The first pass: declares what statements declare. -/
def declareAll (statements : List (Modifiers × Syntax)) : BindM (List DeclaredStatement) :=
  statements.mapM fun (modifiers, tree) => do
    let declared ← attempt (withModifiers modifiers (declareStatement tree))
    return ⟨modifiers, tree, declared.join⟩

/-! ## Rules with open references

`sub` stands for the rules of the parts of what is bound. -/

section

variable (room : Room) (sub : Syntax → Part)

/-- A statement that is still to be bound. -/
def openStatement (statement : Modifiers × Syntax) : StatementPart :=
  ⟨statement.1, statement.2, (sub statement.2).expression room⟩

def openArgument (arg : Argument) : ArgPart := ⟨arg.pos, arg.name, sub arg.value⟩

/-- The last argument of a call, when it stands behind the argument list. -/
def openTrailing (tree : Syntax) : ArgPart := ⟨tree.pos, none, sub tree⟩

/-- What a form denotes at a place. -/
def openForm (pos : Span) : Form → BindM Operand
  | .name name => nameOperand name pos
  | .dot base member => dotOperand room pos (sub base) member
  | .pointerType pointee => pointerOperand room (sub pointee)
  | .referenceType pointee => referenceOperand room (sub pointee)
  | .arrayType element length => arrayOperand room (sub element) (sub length)
  | .call callee args trailing =>
    callOperand room pos (sub callee) (args.map (openArgument sub) ++ (trailing.map (openTrailing sub)).toList)
  | .int value suffix => .value <$> bindInt pos value suffix
  | .float value single => .value <$> bindFloat pos value single
  | .bool value => .value <$> addNode pos .bool (.literal (.bool value) false)
  | .null => .value <$> addNode pos .null (.literal .null false)
  | .string value => .value <$> bindString pos value
  | .index base index => .value <$> bindIndex room pos (sub base) (sub index)
  | .unary op operand => .value <$> bindUnary room pos op (sub operand)
  | .binary op left right => .value <$> bindBinary room pos op (sub left) (sub right)
  | .assign op target value => .value <$> bindAssign room pos op (sub target) (sub value)
  | .ternary test whenTrue whenFalse => .value <$> bindTernary room pos (sub test) (sub whenTrue) (sub whenFalse)
  | .cast value target intent => .value <$> bindCast room (sub value) (sub target) intent
  | .initializer type fields => .value <$> bindInitializer room pos (sub type) (fields.map (openArgument sub))
  | .tuple items => .value <$> bindTuple room pos (items.map sub)
  | .sizeOf target => .value <$> bindSizeOf room pos (sub target)
  | .new type count args => .value <$> bindNew room pos (sub type) (count.map sub) (args.map (openArgument sub))
  | .delete value => .value <$> bindDelete room pos (sub value)
  | .atomic op target value => .value <$> bindAtomic room pos op (sub target) (sub value)
  | .lambda source => .value <$> bindLambda room pos source
  | .await value => .value <$> bindAwait room pos (sub value)
  | .define name type value modifiers =>
    .value <$> bindDefinition room pos name (type.map sub) (value.map sub) modifiers
  | .modified modifiers body => .value <$> bindModified pos ((flatten modifiers body).map (openStatement room sub))
  | .block label body => .value <$> bindBlock room pos label body
  | .branch test whenTrue whenFalse => .value <$> bindIf room pos (sub test) whenTrue whenFalse
  | .loop label init test step body => .value <$> bindLoop room pos label init test step body
  | .forIn label name iterable body => .value <$> bindForIn room pos label name iterable body
  | .returns value => .value <$> bindReturn room pos (value.map sub)
  | .breaks label => .value <$> bindJump pos label false
  | .continues label => .value <$> bindJump pos label true
  | .defer value => .value <$> bindDefer room pos (sub value)
  | .yield value => .value <$> bindYield room pos (sub value)
  | .yieldFrom value => .value <$> bindYieldFrom room pos (sub value)
  | .function _ | .struct _ | .enum _ | .aliasAs .. | .importPath .. | .exportAs .. | .module _ | .foreign .. => failure

/-- The second pass over a statement. -/
def openEager (tree : Syntax) : BindM Unit :=
  match tree.form with
  | .enum source => bindEnum room (source.base.map sub) source
  | .foreign abi body =>
    (flatten .none body).forM fun statement =>
      discard (attempt (withModifiers statement.1 (bindForeign room abi statement.2)))
  | _ => return

/-- The third pass over a statement. -/
def openNaming (tree : Syntax) : BindM Unit :=
  match tree.form with
  | .aliasAs name target => bindAlias tree.pos name (sub target) .define
  | .exportAs name target => bindAlias tree.pos name (sub target) .exported
  | .importPath path rename => bindImport room tree.pos path rename
  | _ => return

/-- Applies a rule to every statement of a scope. -/
def forDeclared (statements : List DeclaredStatement) (rule : Syntax → BindM Unit) : BindM Unit :=
  statements.forM fun statement => discard (attempt (withModifiers statement.modifiers (rule statement.tree)))

/-- The passes over a list of statements before its statements are bound. -/
def openDeclarations (body : List Syntax) : BindM (List DeclaredStatement) := do
  let statements ← declareAll (flatten .none body)
  forDeclared statements (openEager room sub)
  forDeclared statements (openNaming room sub)
  return statements

/-- A statement after the passes: a module is bound in its place. -/
def openRest (statement : DeclaredStatement) : StatementPart :=
  ⟨statement.modifiers, statement.tree,
    match statement.module with
    | some module => do bindModule room module; failure
    | none => (sub statement.tree).expression room⟩

def openMember (owner : SymbolId) (tree : Syntax) : BindM Unit :=
  match tree.form with
  | .define name type value modifiers => bindField room owner tree.pos name (type.map sub) (value.map sub) modifiers
  | form => if form.isDeclaration then return else fail tree.pos .unimplemented ["A statement in a struct body"]

/-- The rules of a level. -/
def openLevel : Level where
  expression tree := (sub tree).expression room
  type tree := (sub tree).type room
  argument tree := (sub tree).argument room
  branch := bindBranch room
  body body := do
    let statements ← openDeclarations room sub body
    bindStatements (statements.map (openRest room sub)) .open
  members owner body := do
    let statements ← openDeclarations room sub body
    forDeclared statements (openMember room sub owner)

end

end BindM

/-- Tables of rules: for a number of levels that are left, what each piece of syntax denotes, and the rules of a level.
-/
structure Rules where
  operand : Nat → Syntax → BindM Operand
  level : Nat → Level

namespace Rules

open BindM

/-- A piece of syntax with its rule in a table. -/
def part (rules : Rules) (left : Nat) (tree : Syntax) : Part := ⟨tree.pos, rules.operand left tree⟩

/-- What a table has for the levels below. -/
def room (limit : Nat) (entryName : String) (rules : Rules) : Nat → Room
  | 0 => ⟨limit, entryName, fun _ => none⟩
  | left + 1 => ⟨limit, entryName, fun _ => some (rules.level left)⟩

/-- The rules that refer to those of a table. -/
def unfold (limit : Nat) (entryName : String) (rules : Rules) : Rules where
  operand left tree := openForm (rules.room limit entryName left) (rules.part left) tree.pos tree.form
  level left := openLevel (rules.room limit entryName left) (rules.part left)

/-- The rules of binding, as a table. -/
def binding (limit : Nat) (entryName : String) : Rules where
  operand left tree := (BindM.part (.ofDepth limit entryName left) tree).operand
  level left := .above (.ofDepth limit entryName left)

end Rules

namespace BindM

variable {room : Room}

/-! ## Closing the references -/

theorem optionalPart_eq (room : Room) (tree : Option Syntax) : optionalPart room tree = tree.map (part room) := by
  cases tree <;> rfl

theorem parts_eq (room : Room) (trees : List Syntax) : parts room trees = trees.map (part room) := by
  induction trees with
  | nil => rfl
  | cons tree rest ih => rw [parts, ih, List.map_cons]

theorem argParts_eq (room : Room) (args : List Argument) :
    argParts room args = args.map (openArgument (part room)) := by
  induction args with
  | nil => rfl
  | cons arg rest ih =>
    obtain ⟨pos, name, value⟩ := arg
    rw [argParts, ih, List.map_cons]
    rfl

theorem trailingPart_eq (room : Room) (tree : Option Syntax) :
    trailingPart room tree = tree.map (openTrailing (part room)) := by
  rcases tree with _ | ⟨pos, form⟩ <;> rfl

theorem statementParts_eq (room : Room) (modifiers : Modifiers) (body : List Syntax) :
    statementParts room modifiers body = (flatten modifiers body).map (openStatement room (part room)) := by
  fun_induction flatten modifiers body with
  | case1 => rfl
  | case2 modifiers pos own body rest ih ih' => rw [statementParts, ih, ih', List.map_append]
  | case3 modifiers pos form rest hform ih =>
    rw [statementParts, ih, List.map_cons]
    · rfl
    · exact hform

/-- A form denotes what its rule makes of its parts. -/
theorem openForm_part (room : Room) (pos : Span) (form : Form) :
    openForm room (part room) pos form = formOperand room pos form := by
  cases form <;> simp only [openForm, formOperand, optionalPart_eq, parts_eq, argParts_eq, trailingPart_eq,
    statementParts_eq]

/-- The first pass leaves the statements as they are, except that a module is bound in place of its declaration. -/
theorem declareStatements_eq (room : Room) (statements : List (Modifiers × Syntax)) :
    declareStatements room (statements.map (openStatement room (part room))) =
      (·.map (openRest room (part room))) <$> declareAll statements := by
  induction statements with
  | nil => rfl
  | cons statement rest ih =>
    simp only [List.map_cons, declareStatements, ih, declareAll, List.mapM_cons, ← bind_pure_comp, bind_assoc, pure_bind]
    refine congrArg _ (funext fun declared => congrArg _ (funext fun others => ?_))
    rcases declared with _ | _ | module <;> rfl

theorem eachStatement_map (room : Room) (statements : List DeclaredStatement) (rule : Syntax → BindM Unit) :
    eachStatement (statements.map (openRest room (part room))) rule = forDeclared statements rule := by
  induction statements with
  | nil => rfl
  | cons statement rest ih =>
    simp only [eachStatement, forDeclared] at ih ⊢
    rw [List.map_cons, List.forM, List.forM, ih]
    rfl

theorem openEager_part (room : Room) : openEager room (part room) = bindEager room := by
  funext tree
  unfold openEager bindEager
  cases tree.form with
  | enum source => simp only [optionalPart_eq]
  | «foreign» abi body =>
    simp only [eachStatement, statementParts_eq]
    induction flatten .none body with
    | nil => rfl
    | cons statement rest ih =>
      rw [List.map_cons, List.forM, List.forM, ih]
      rfl
  | _ => rfl

theorem openMember_part (room : Room) (owner : SymbolId) : openMember room (part room) owner = bindMember room owner := by
  funext tree
  unfold openMember bindMember
  cases tree.form <;> simp only [optionalPart_eq]

/-- The passes over the statements of a scope, with what is left to bind. -/
theorem bindDeclarations_eq (room : Room) (body : List Syntax) :
    bindDeclarations room body = (·.map (openRest room (part room))) <$> openDeclarations room (part room) body := by
  simp only [bindDeclarations, openDeclarations, statementParts_eq, declareStatements_eq, ← bind_pure_comp, bind_assoc,
    pure_bind, eachStatement_map, openEager_part]
  rfl

/-- **The rules of a level are made from those of its parts and the levels below.** -/
theorem openLevel_part (room : Room) : openLevel room (part room) = Level.above room := by
  simp only [openLevel, Level.above, Level.mk.injEq]
  refine ⟨trivial, trivial, trivial, trivial, funext fun body => ?_, funext fun owner => funext fun body => ?_⟩
  · rw [bindBody, bindDeclarations_eq, ← bind_pure_comp, bind_assoc]
    simp only [pure_bind]
  · rw [bindMembersOf, bindDeclarations_eq, ← bind_pure_comp, bind_assoc]
    simp only [pure_bind, eachStatement_map, openMember_part]

/-! ## Open rules that settle -/

section

variable {ι : Type} {l : Filter ι} {room : ι → Room} {limit : Room} {sub : ι → Syntax → Part}

theorem valueOperand_follows {x : ι → BindM NodeId} {y : BindM NodeId} (h : Follows l x y) :
    Follows l (fun i => Operand.value <$> x i) (Operand.value <$> y) := h.map _

/-- A rule that depends on nothing, as an operand. -/
theorem valueOperand_still {x : BindM NodeId} (h : x.Blind) :
    Follows l (fun _ => Operand.value <$> x) (Operand.value <$> x) := .still (h.map _)

/-- The rules of a family refer to the rules of their parts: what a form is made of settles the rule of the form. -/
def Refers (l : Filter ι) (room : ι → Room) (sub : ι → Syntax → Part) : Prop := ∀ tree y,
  Follows l (fun i => openForm (room i) (sub i) tree.pos tree.form) y → Part.Follows l (fun i => sub i tree) ⟨tree.pos, y⟩

mutual

/-- **Every piece of syntax settles when its form does**, for its parts are smaller. -/
theorem part_follows (hr : Room.Follows l room limit) (hsub : Refers l room sub) : ∀ tree, Part.Follows l (fun i => sub i tree) (part limit tree)
  | .mk pos form => hsub (.mk pos form) _ (form_follows hr hsub pos form)

theorem form_follows (hr : Room.Follows l room limit) (hsub : Refers l room sub) (pos : Span) :
    ∀ form, Follows l (fun i => openForm (room i) (sub i) pos form) (formOperand limit pos form)
  | .name _ => .still (nameOperand_blind _ _)
  | .dot base _ => dotOperand_follows hr (part_follows hr hsub base) _ _
  | .pointerType pointee => pointerOperand_follows hr (part_follows hr hsub pointee)
  | .referenceType pointee => referenceOperand_follows hr (part_follows hr hsub pointee)
  | .arrayType element length => arrayOperand_follows hr (part_follows hr hsub element) (part_follows hr hsub length)
  | .call callee args trailing => by
    have h := callOperand_follows hr (part_follows hr hsub callee) (List.rel_append (args_follow hr hsub args) (trailing_follows hr hsub trailing)) pos
    simp only [List.map_append, List.map_map, Function.comp_def] at h
    cases trailing <;> exact h
  | .int _ _ => valueOperand_still (bindInt_blind _ _ _)
  | .float _ single => by cases single <;> exact valueOperand_still (addNode_blind _ _ _)
  | .bool _ => valueOperand_still (addNode_blind _ _ _)
  | .null => valueOperand_still (addNode_blind _ _ _)
  | .string _ => valueOperand_still (addNode_blind _ _ _)
  | .index base index => valueOperand_follows (bindIndex_follows hr (part_follows hr hsub base) (part_follows hr hsub index) _)
  | .unary _ operand => valueOperand_follows (bindUnary_follows hr (part_follows hr hsub operand) _ _)
  | .binary _ left right => valueOperand_follows (bindBinary_follows hr (part_follows hr hsub left) (part_follows hr hsub right) _ _)
  | .assign _ target value => valueOperand_follows (bindAssign_follows hr (part_follows hr hsub target) (part_follows hr hsub value) _ _)
  | .ternary test whenTrue whenFalse => valueOperand_follows
      (bindTernary_follows hr (part_follows hr hsub test) (part_follows hr hsub whenTrue) (part_follows hr hsub whenFalse) _)
  | .cast value target _ => valueOperand_follows (bindCast_follows hr (part_follows hr hsub value) (part_follows hr hsub target) _)
  | .initializer type fields => by
    have h := bindInitializer_follows hr (part_follows hr hsub type) (args_follow hr hsub fields) pos
    exact valueOperand_follows (by simpa only [List.map_map, Function.comp_def] using h)
  | .tuple items => by
    have h := bindTuple_follows hr (parts_follow hr hsub items) pos
    exact valueOperand_follows (by simpa only [List.map_map, Function.comp_def] using h)
  | .sizeOf target => valueOperand_follows (bindSizeOf_follows hr (part_follows hr hsub target) _)
  | .new type count args => by
    have h := bindNew_follows hr (part_follows hr hsub type) (optional_follows hr hsub count) (args_follow hr hsub args) pos
    exact valueOperand_follows (by simpa only [List.map_map, Option.map_map, Function.comp_def] using h)
  | .delete value => valueOperand_follows (bindDelete_follows hr (part_follows hr hsub value) _)
  | .atomic _ target value => valueOperand_follows (bindAtomic_follows hr (part_follows hr hsub target) (part_follows hr hsub value) _ _)
  | .lambda _ => valueOperand_follows (bindLambda_follows hr _ _)
  | .await value => valueOperand_follows (bindAwait_follows hr (part_follows hr hsub value) _)
  | .define name type value modifiers => by
    have h := bindDefinition_follows hr (optional_follows hr hsub type) (optional_follows hr hsub value) pos name modifiers
    exact valueOperand_follows (by simpa only [Option.map_map, Function.comp_def] using h)
  | .modified modifiers body => by
    have h := bindModified_follows (statements_follow hr hsub modifiers body) pos
    exact valueOperand_follows (by simpa only [List.map_map, Function.comp_def] using h)
  | .block _ _ => valueOperand_follows (bindBlock_follows hr _ _ _)
  | .branch test _ _ => valueOperand_follows (bindIf_follows hr (part_follows hr hsub test) _ _ _)
  | .loop .. => valueOperand_follows (bindLoop_follows hr _ _ _ _ _ _)
  | .forIn .. => valueOperand_follows (bindForIn_follows hr _ _ _ _ _)
  | .returns value => by
    have h := bindReturn_follows hr (optional_follows hr hsub value) pos
    exact valueOperand_follows (by simpa only [Option.map_map, Function.comp_def] using h)
  | .breaks _ => valueOperand_still (bindJump_blind _ _ _)
  | .continues _ => valueOperand_still (bindJump_blind _ _ _)
  | .defer value => valueOperand_follows (bindDefer_follows hr (part_follows hr hsub value) _)
  | .yield value => valueOperand_follows (bindYield_follows hr (part_follows hr hsub value) _)
  | .yieldFrom value => valueOperand_follows (bindYieldFrom_follows hr (part_follows hr hsub value) _)
  | .function _ | .struct _ | .enum _ | .aliasAs .. | .importPath .. | .exportAs .. | .module _ | .foreign .. => .failure

theorem optional_follows (hr : Room.Follows l room limit) (hsub : Refers l room sub) : ∀ tree : Option Syntax,
    Option.Rel (Part.Follows l) (tree.map fun tree i => sub i tree) (optionalPart limit tree)
  | none => .none
  | some tree => .some (part_follows hr hsub tree)

theorem trailing_follows (hr : Room.Follows l room limit) (hsub : Refers l room sub) : ∀ tree : Option Syntax, List.Forall₂ (ArgPart.Follows l)
    (tree.map fun tree i => openTrailing (sub i) tree).toList (trailingPart limit tree).toList
  | none => .nil
  | some (.mk pos form) => .cons (.mk _ _ (hsub (.mk pos form) _ (form_follows hr hsub pos form))) .nil

theorem parts_follow (hr : Room.Follows l room limit) (hsub : Refers l room sub) : ∀ trees : List Syntax,
    List.Forall₂ (Part.Follows l) (trees.map fun tree i => sub i tree) (parts limit trees)
  | [] => .nil
  | tree :: rest => .cons (part_follows hr hsub tree) (parts_follow hr hsub rest)

theorem args_follow (hr : Room.Follows l room limit) (hsub : Refers l room sub) : ∀ args : List Argument,
    List.Forall₂ (ArgPart.Follows l) (args.map fun arg i => openArgument (sub i) arg) (argParts limit args)
  | [] => .nil
  | ⟨_, _, value⟩ :: rest => .cons (.mk _ _ (part_follows hr hsub value)) (args_follow hr hsub rest)

theorem statements_follow (hr : Room.Follows l room limit) (hsub : Refers l room sub) (modifiers : Modifiers) : ∀ body : List Syntax, List.Forall₂ (StatementPart.Follows l)
    ((flatten modifiers body).map fun statement i => openStatement (room i) (sub i) statement)
    (statementParts limit modifiers body)
  | [] => by
    rw [flatten]
    exact .nil
  | .mk pos form :: rest => by
    have hrest := statements_follow hr hsub modifiers rest
    have hform := hsub (.mk pos form) _ (form_follows hr hsub pos form)
    cases form with
    | modified own body =>
      rw [flatten, statementParts, List.map_append]
      exact List.rel_append (statements_follow hr hsub (modifiers ∪ own) body) hrest
    | _ =>
      rw [flatten]
      · exact .cons (.mk _ _ (hform.expression hr)) hrest
      · rintro _ _ ⟨⟩

end

theorem declareAll_blind (statements : List (Modifiers × Syntax)) : Blind (declareAll statements) :=
  .mapM (fun _ => ((declareStatement_blind _).withReader _).attempt.bind fun _ => .pure _) _

theorem forDeclared_follows {rule : ι → Syntax → BindM Unit} {rule' : Syntax → BindM Unit}
    (h : ∀ tree, Follows l (fun i => rule i tree) (rule' tree)) (statements : List DeclaredStatement) :
    Follows l (fun i => forDeclared statements (rule i)) (forDeclared statements rule') :=
  .forM (fun statement : DeclaredStatement => ((h statement.tree).withReader _).attempt.discard) statements

section level

variable (hr : Room.Follows l room limit) (hp : ∀ tree, Part.Follows l (fun i => sub i tree) (part limit tree))

include hp

theorem optionalPart_follows (tree : Option Syntax) :
    Option.Rel (Part.Follows l) (tree.map fun tree i => sub i tree) (tree.map (part limit)) := by
  cases tree with
  | none => exact .none
  | some tree => exact .some (hp tree)

include hr

theorem openEager_follows (tree : Syntax) :
    Follows l (fun i => openEager (room i) (sub i) tree) (openEager limit (part limit) tree) := by
  unfold openEager
  cases tree.form with
  | enum source =>
    have h := bindEnum_follows hr (optionalPart_follows hp source.base) source
    simpa only [Option.map_map, Function.comp_def] using h
  | «foreign» abi body => exact .forM (fun _ => ((bindForeign_follows hr _ _).withReader _).attempt.discard) _
  | _ => exact .pure _

theorem openNaming_follows (tree : Syntax) :
    Follows l (fun i => openNaming (room i) (sub i) tree) (openNaming limit (part limit) tree) := by
  unfold openNaming
  cases tree.form with
  | aliasAs name target | exportAs name target => exact bindAlias_follows (hp target) _ _ _
  | importPath => exact bindImport_follows hr _ _ _
  | _ => exact .pure _

theorem openDeclarations_follows (body : List Syntax) :
    Follows l (fun i => openDeclarations (room i) (sub i) body) (openDeclarations limit (part limit) body) :=
  .after (declareAll_blind _) fun _ => (forDeclared_follows (openEager_follows hr hp) _).bind fun _ =>
    (forDeclared_follows (openNaming_follows hr hp) _).bind fun _ => .pure _

theorem openRest_follows (statement : DeclaredStatement) :
    StatementPart.Follows l (fun i => openRest (room i) (sub i) statement) (openRest limit (part limit) statement) := by
  obtain ⟨modifiers, tree, _ | module⟩ := statement
  · exact .mk _ _ ((hp tree).expression hr)
  · exact .mk _ _ ((bindModule_follows hr module).bind fun _ => .failure)

theorem openMember_follows (owner : SymbolId) (tree : Syntax) :
    Follows l (fun i => openMember (room i) (sub i) owner tree) (openMember limit (part limit) owner tree) := by
  unfold openMember
  cases tree.form with
  | define name type value modifiers =>
    have h := bindField_follows hr (optionalPart_follows hp type) (optionalPart_follows hp value) owner tree.pos name
      modifiers
    simpa only [Option.map_map, Function.comp_def] using h
  | _ => exact .ite (.pure _) (.fail _ _ _)

/-- **A level settles when its parts and the levels below do.** -/
theorem openLevel_follows : Level.Follows l (fun i => openLevel (room i) (sub i)) (Level.above limit) := by
  rw [← openLevel_part]
  refine ⟨fun tree => (hp tree).expression hr, fun tree => (hp tree).type hr, fun tree => (hp tree).argument hr,
    bindBranch_follows hr, fun body => ?_, fun owner body => ?_⟩
  · refine (openDeclarations_follows hr hp body).bind fun statements => ?_
    have hrest : List.Forall₂ (StatementPart.Follows l) (statements.map fun st i => openRest (room i) (sub i) st)
        (statements.map (openRest limit (part limit))) := by
      rw [List.forall₂_map_left_iff, List.forall₂_map_right_iff, List.forall₂_same]
      exact fun statement _ => openRest_follows hr hp statement
    simpa only [List.map_map, Function.comp_def] using bindStatements_follows hrest .open
  · exact (openDeclarations_follows hr hp body).bind fun _ => forDeclared_follows (openMember_follows hr hp owner) _

end level

end

end BindM

/-! ## Unfolding -/

namespace Rules

open BindM

variable {limit : Nat} {entryName : String}

/-- The rules of binding refer to themselves. -/
theorem room_binding (limit : Nat) (entryName : String) (left : Nat) :
    (binding limit entryName).room limit entryName left = .ofDepth limit entryName left := by cases left <;> rfl

theorem part_binding (limit : Nat) (entryName : String) (left : Nat) :
    (binding limit entryName).part left = BindM.part (.ofDepth limit entryName left) := by
  funext ⟨pos, form⟩
  rfl

/-- **The rules of binding are what the references between them say.** -/
theorem unfold_binding (limit : Nat) (entryName : String) :
    (binding limit entryName).unfold limit entryName = binding limit entryName := by
  simp only [unfold, room_binding, part_binding, openLevel_part, openForm_part]
  rw [binding, Rules.mk.injEq]
  exact ⟨funext fun left => funext fun ⟨pos, form⟩ => rfl, rfl⟩

/-- Almost all of the tables that are made by unfolding some table: those that are unfolded often enough. -/
def deep : Filter (Nat × Rules) := Filter.atTop.comap Prod.fst

/-- The table that is made by unfolding a table a number of times. -/
def unfolded (limit : Nat) (entryName : String) (i : Nat × Rules) : Rules := (unfold limit entryName)^[i.1] i.2

theorem eventually_deep {P : Nat × Rules → Prop} : (∀ᶠ i in deep, P i) ↔ ∃ n, ∀ m ≥ n, ∀ rules, P (m, rules) := by
  rw [deep, Filter.eventually_comap, Filter.eventually_atTop]
  constructor
  · rintro ⟨n, h⟩
    exact ⟨n, fun m hm rules => h m hm (m, rules) rfl⟩
  · rintro ⟨n, h⟩
    refine ⟨n, ?_⟩
    rintro _ hm ⟨m, rules⟩ rfl
    exact h m hm rules

/-- What settles once it is unfolded settles. -/
theorem follows_of_unfold {α : Type} (rule : Rules → BindM α) {y : BindM α}
    (h : Follows deep (fun i => rule ((unfolded limit entryName i).unfold limit entryName)) y) :
    Follows deep (fun i => rule (unfolded limit entryName i)) y where
  blind := h.blind
  settles c s := by
    obtain ⟨n, hn⟩ := eventually_deep.1 (h.settles c s)
    refine eventually_deep.2 ⟨n + 1, fun m hm rules => ?_⟩
    obtain ⟨m, rfl⟩ : ∃ m', m = m' + 1 := ⟨m - 1, by omega⟩
    have h := hn m (by omega) rules
    rwa [unfolded, ← Function.iterate_succ_apply' (unfold limit entryName)] at h

theorem part_follows_of_room {left : Nat}
    (hr : Room.Follows deep (fun i => (unfolded limit entryName i).room limit entryName left)
      (.ofDepth limit entryName left)) (tree : Syntax) :
    Part.Follows deep (fun i => (unfolded limit entryName i).part left tree)
      (BindM.part (.ofDepth limit entryName left) tree) :=
  part_follows hr (fun tree _ h => .mk _ (follows_of_unfold (·.operand left tree) h)) tree

/-- **The levels below settle**, by induction on the number of levels that are left. -/
theorem room_follows (limit : Nat) (entryName : String) : ∀ left,
    Room.Follows deep (fun i => (unfolded limit entryName i).room limit entryName left) (.ofDepth limit entryName left)
  | 0 => .ground _ _
  | left + 1 => by
    have hr := room_follows limit entryName left
    have h := openLevel_follows hr (part_follows_of_room hr)
    exact .above _ _
      { expression := fun tree => follows_of_unfold (fun rules => (rules.level left).expression tree) (h.expression tree)
        type := fun tree => follows_of_unfold (fun rules => (rules.level left).type tree) (h.type tree)
        argument := fun tree => follows_of_unfold (fun rules => (rules.level left).argument tree) (h.argument tree)
        branch := fun tree => follows_of_unfold (fun rules => (rules.level left).branch tree) (h.branch tree)
        body := fun body => follows_of_unfold (fun rules => (rules.level left).body body) (h.body body)
        members := fun owner body => follows_of_unfold (fun rules => (rules.level left).members owner body) (h.members owner body) }

end Rules

theorem BindM.bindModules_follows {ι : Type} {l : Filter ι} {room : ι → Room} {limit : Room}
    (hr : Room.Follows l room limit) (modules : List ModuleDef) :
    Follows l (fun i => bindModules (room i) modules) (bindModules limit modules) :=
  .after (.mapM (fun _ => (declareModule_blind _ _).attempt) _) fun _ => .after (modifyProgram_blind _) fun _ =>
    .forM (fun _ => bindModule_follows hr _) _

end Bindery
