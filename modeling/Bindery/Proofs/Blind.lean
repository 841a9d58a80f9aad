import Bindery.Binding
import Bindery.Proofs.Run
/-!
# Rules do not see the cap

A log under a cap holds the first errors of what was reported, and all else. Two states are alike when they differ in
the cap of their logs only: the same has been reported in both. Rules ask the log for nothing but the number of errors,
so a rule does the same from states that are alike. This module has the operations that rules are made of, and the
rules that enter no scope and bind no syntax.
-/
namespace Bindery

/-! ## What a log holds -/

/-- The diagnostics without the errors after a number of them. -/
def firstErrors : Nat → List Diagnostic → List Diagnostic
  | _, [] => []
  | n, diagnostic :: rest =>
    if diagnostic.isError then
      match n with
      | 0 => firstErrors 0 rest
      | n + 1 => diagnostic :: firstErrors n rest
    else diagnostic :: firstErrors n rest

/-- How many of some diagnostics are errors. -/
def errorsIn (reports : List Diagnostic) : Nat := reports.countP (·.isError)

/-- The reports that are kept under a cap. -/
def keptUnder : Option Nat → List Diagnostic → List Diagnostic
  | none, reports => reports
  | some cap, reports => firstErrors cap reports

theorem firstErrors_append_of_not {diagnostic : Diagnostic} (h : ¬diagnostic.isError) : ∀ (reports : List Diagnostic)
    (n : Nat), firstErrors n (reports ++ [diagnostic]) = firstErrors n reports ++ [diagnostic]
  | [], n => by simp [firstErrors, h]
  | first :: rest, n => by
    have ih := firstErrors_append_of_not h rest
    by_cases hf : first.isError
    · cases n <;> simp [firstErrors, hf, ih]
    · simp [firstErrors, hf, ih]

theorem firstErrors_append_of_error {diagnostic : Diagnostic} (h : diagnostic.isError) : ∀ (reports : List Diagnostic)
    (n : Nat), firstErrors n (reports ++ [diagnostic]) =
      if errorsIn reports + 1 ≤ n then firstErrors n reports ++ [diagnostic] else firstErrors n reports
  | [], 0 | [], n + 1 => by simp [firstErrors, errorsIn, h]
  | first :: rest, n => by
    have ih := firstErrors_append_of_error h rest
    by_cases hf : first.isError
    · have hcount : errorsIn (first :: rest) = errorsIn rest + 1 := by simp [errorsIn, hf]
      cases n with
      | zero => simp [firstErrors, hf, ih]
      | succ n => by_cases hn : errorsIn rest + 1 ≤ n <;> simp [firstErrors, hf, ih, hcount, hn]
    · have hcount : errorsIn (first :: rest) = errorsIn rest := by simp [errorsIn, hf]
      by_cases hn : errorsIn rest + 1 ≤ n <;> simp [firstErrors, hf, ih, hcount, hn]

namespace Log

/-- The log of some reports under a cap. -/
def holding (cap : Option Nat) (reports : List Diagnostic) : Log where
  entries := keptUnder cap reports
  errorCount := errorsIn reports
  maxErrors := cap

theorem holding_nil (cap : Option Nat) : holding cap [] = withCap cap := by cases cap <;> rfl

/-- **A report is added behind the reports that a log holds.** -/
theorem add_holding (cap : Option Nat) (reports : List Diagnostic) (diagnostic : Diagnostic) :
    (holding cap reports).add diagnostic = holding cap (reports ++ [diagnostic]) := by
  by_cases h : diagnostic.isError
  · have hcount : errorsIn (reports ++ [diagnostic]) = errorsIn reports + 1 := by simp [errorsIn, h]
    rw [add, if_pos h]
    cases cap with
    | none => simp [holding, hasRoom, keptUnder, hcount]
    | some cap =>
      by_cases hroom : errorsIn reports + 1 ≤ cap <;>
        simp [holding, hasRoom, keptUnder, hcount, firstErrors_append_of_error h, hroom]
  · have hcount : errorsIn (reports ++ [diagnostic]) = errorsIn reports := by simp [errorsIn, h]
    rw [add, if_neg h]
    cases cap with
    | none => simp [holding, keptUnder, hcount]
    | some cap => simp [holding, keptUnder, hcount, firstErrors_append_of_not h]

end Log

/-! ## States that differ in the cap -/

/-- Two states differ in the caps of their logs only. -/
structure BindState.Alike (a b : Option Nat) (s t : BindState) : Prop where
  program : s.program = t.program
  names : s.names = t.names
  log : ∃ reports, s.log = .holding a reports ∧ t.log = .holding b reports

namespace BindState.Alike

variable {a b : Option Nat} {s t : BindState}

theorem errorCount (h : Alike a b s t) : s.log.errorCount = t.log.errorCount := by
  obtain ⟨reports, hs, ht⟩ := h.log
  rw [hs, ht]
  rfl

theorem report (h : Alike a b s t) (diagnostic : Diagnostic) :
    Alike a b { s with log := s.log.add diagnostic } { t with log := t.log.add diagnostic } := by
  obtain ⟨reports, hs, ht⟩ := h.log
  refine ⟨h.program, h.names, reports ++ [diagnostic], ?_, ?_⟩
  · rw [hs, Log.add_holding]
  · rw [ht, Log.add_holding]

end BindState.Alike

namespace BindM

variable {α β : Type}

/-- A rule does the same from states that are alike. -/
def Blind (rule : BindM α) : Prop := ∀ (a b : Option Nat) (c : Context) (s t : BindState), BindState.Alike a b s t →
  (rule.runAt c s).1 = (rule.runAt c t).1 ∧ BindState.Alike a b (rule.runAt c s).2 (rule.runAt c t).2

/-! ## Operations -/

namespace Blind

theorem pure (a : α) : Blind (Pure.pure a) := fun _ _ _ _ _ h => ⟨rfl, h⟩

theorem failure : Blind (Alternative.failure : BindM α) := fun _ _ _ _ _ h => ⟨rfl, h⟩

theorem bind {x : BindM α} {f : α → BindM β} (hx : x.Blind) (hf : ∀ a, (f a).Blind) : Blind (x >>= f) := by
  intro a b c s t h
  obtain ⟨hval, hstate⟩ := hx a b c s t h
  rw [runAt_bind, runAt_bind]
  rcases hs : x.runAt c s with ⟨value, s'⟩
  rcases ht : x.runAt c t with ⟨value', t'⟩
  rw [hs, ht] at hval hstate
  cases hval
  cases value with
  | none => exact ⟨rfl, hstate⟩
  | some value => exact hf value a b c s' t' hstate

theorem map {x : BindM α} (h : x.Blind) (f : α → β) : Blind (f <$> x) := by
  rw [← bind_pure_comp]
  exact h.bind fun _ => .pure _

theorem discard {x : BindM α} (h : x.Blind) : Blind (Functor.discard x) := h.map _

theorem attempt {x : BindM α} (h : x.Blind) : Blind (BindM.attempt x) := fun a b c s t hst =>
  ⟨congrArg some (h a b c s t hst).1, (h a b c s t hst).2⟩

theorem withReader {x : BindM α} (h : x.Blind) (f : Context → Context) : Blind (MonadWithReader.withReader f x) :=
  fun a b c s t hst => h a b (f c) s t hst

theorem read : Blind (MonadReader.read : BindM Context) := fun _ _ _ _ _ h => ⟨rfl, h⟩

theorem ask (question : Program → α) : Blind (BindM.ask question) := fun _ _ _ _ _ h =>
  ⟨congrArg (fun p => some (question p)) h.program, h⟩

/-- A question before the rest. -/
theorem ask_bind {question : Program → α} {f : α → BindM β} (hf : ∀ a, (f a).Blind) :
    Blind (BindM.ask question >>= f) := (ask question).bind hf

theorem read_bind {f : Context → BindM β} (hf : ∀ c, (f c).Blind) : Blind (MonadReader.read >>= f) := read.bind hf

theorem ite {p : Prop} [Decidable p] {x y : BindM α} (hx : x.Blind) (hy : y.Blind) : Blind (if p then x else y) := by
  split
  · exact hx
  · exact hy

/-- A change of the program that gives a value. -/
theorem grow (value : Program → α) (change : Program → Program) :
    Blind (modifyGet fun state => (value state.program, { state with program := change state.program })) :=
  fun _ _ _ _ _ h => ⟨congrArg (fun p => some (value p)) h.program, congrArg change h.program, h.names, h.log⟩

theorem mapM {rule : α → BindM β} (h : ∀ a, (rule a).Blind) : ∀ items : List α, Blind (items.mapM rule)
  | [] => by
    rw [List.mapM_nil]
    exact .pure _
  | item :: items => by
    rw [List.mapM_cons]
    exact (h item).bind fun _ => (mapM h items).bind fun _ => .pure _

theorem forM {rule : α → BindM PUnit} (h : ∀ a, (rule a).Blind) : ∀ items : List α, Blind (items.forM rule)
  | [] => .pure _
  | item :: items => (h item).bind fun _ => forM h items

theorem mapOption {rule : α → BindM β} (h : ∀ a, (rule a).Blind) : ∀ item : Option α, Blind (item.mapM rule)
  | none => .pure _
  | some a => (h a).map _

end Blind

theorem modifyProgram_blind (change : Program → Program) : Blind (modifyProgram change) := .grow (fun _ => ()) change

theorem useName_blind (name : String) : Blind (useName name) := fun _ _ _ _ _ h =>
  ⟨rfl, h.program, congrArg (·.insert name) h.names, h.log⟩

theorem freshName_blind (hint : String) : Blind (freshName hint) := fun _ _ _ _ _ h =>
  ⟨congrArg (fun names : NameTable => some (names.generate hint).1) h.names, h.program,
    congrArg (fun names : NameTable => (names.generate hint).2) h.names, h.log⟩

theorem report_blind (diagnostic : Diagnostic) : Blind (report diagnostic) := fun _ _ _ _ _ h => ⟨rfl, h.report diagnostic⟩

theorem fail_blind (pos : Span) (message : Message) (args : List String) :
    Blind (fail pos message args : BindM α) := (report_blind _).bind fun _ => .failure

/-- **The number of errors does not depend on the cap.** -/
theorem errorCount_blind : Blind errorCount := fun _ _ _ _ _ h => ⟨congrArg some h.errorCount, h⟩

theorem addNode_blind (pos : Span) (ty : Ty) (kind : NodeKind) : Blind (addNode pos ty kind) :=
  .grow (·.nextNode) (·.addNode ⟨pos, ty, kind⟩)

theorem addSymbol_blind (symbol : Symbol) : Blind (addSymbol symbol) := .grow (·.nextSymbol) (·.addSymbol symbol)

theorem addScope_blind (kind : ScopeKind) (parent : ScopeId) : Blind (addScope kind parent) :=
  .grow (·.nextScope) (·.addScope { kind, parent, owner := none })

theorem setOwner_blind (scope : ScopeId) (owner : SymbolId) : Blind (setOwner scope owner) := modifyProgram_blind _

theorem setReturnType_blind (function : SymbolId) (ty : Ty) : Blind (setReturnType function ty) :=
  modifyProgram_blind _

theorem setStatus_blind (module : SymbolId) (status : BindStatus) : Blind (setStatus module status) :=
  modifyProgram_blind _

theorem currentScope_bind {f : ScopeId → BindM β} (hf : ∀ scope, (f scope).Blind) : Blind (currentScope >>= f) :=
  (Blind.read_bind fun _ => .pure _).bind hf

theorem inheritModifiers_bind {own : Modifiers} {f : Modifiers → BindM β} (hf : ∀ modifiers, (f modifiers).Blind) :
    Blind (inheritModifiers own >>= f) := (Blind.read_bind fun _ => .pure _).bind hf

/-! ## Declaring names -/

theorem reportDuplicate_blind (name : String) (pos : Span) (existing : SymbolId) :
    Blind (reportDuplicate name pos existing) := .ask_bind fun _ => report_blind _

/-- A declaration asks the program whether there is room for it. -/
theorem declareBy_eq (place : Program → ScopeId → Symbol → Except SymbolId (SymbolId × Program)) (scope : ScopeId)
    (symbol : Symbol) : declareBy place scope symbol = (do
      match ← ask (place · scope symbol) with
      | .ok (id, program) => modifyProgram fun _ => program; return id
      | .error existing => reportDuplicate symbol.name symbol.pos existing; failure) := rfl

theorem declareBy_blind (place : Program → ScopeId → Symbol → Except SymbolId (SymbolId × Program)) (scope : ScopeId)
    (symbol : Symbol) : Blind (declareBy place scope symbol) := by
  rw [declareBy_eq]
  refine .ask_bind fun placed => ?_
  cases placed with
  | ok made => exact (modifyProgram_blind _).bind fun _ => .pure _
  | error existing => exact (reportDuplicate_blind _ _ _).bind fun _ => .failure

theorem declare_blind (scope : ScopeId) (symbol : Symbol) : Blind (declare scope symbol) := declareBy_blind _ _ _

theorem declareImported_blind (scope : ScopeId) (symbol : Symbol) : Blind (declareImported scope symbol) :=
  declareBy_blind _ _ _

theorem declareField_blind (owner : SymbolId) (scope : ScopeId) (name : String) (pos : Span) (ty : Ty)
    (default : Option NodeId) : Blind (declareField owner scope name pos ty default) :=
  .ask_bind fun _ => (declare_blind _ _).bind fun _ => (modifyProgram_blind _).bind fun _ => .pure _

theorem addHiddenField_blind (owner : SymbolId) (name : String) (pos : Span) (ty : Ty)
    (captured : Option CaptureSource) : Blind (addHiddenField owner name pos ty captured) :=
  .ask_bind fun _ => .ask_bind fun _ => (addSymbol_blind _).bind fun _ => (modifyProgram_blind _).bind fun _ => .pure _

theorem generatorState?_blind : Blind generatorState? := .read_bind fun c => by
  cases c.function with
  | none => exact .pure _
  | some function => exact .ask _

theorem declareVariable_blind (name : String) (ty : Ty) (pos : Span) (modifiers : Modifiers) :
    Blind (declareVariable name ty pos modifiers) :=
  currentScope_bind fun _ => .ask_bind fun _ => .ite (declare_blind _ _) <| generatorState?_blind.bind fun state => by
    cases state with
    | none => exact declare_blind _ _
    | some state => exact declareField_blind _ _ _ _ _ _

theorem declareLabel_blind (name : Option String) (isLoop : Bool) (pos : Span) :
    Blind (declareLabel name isLoop pos) := by
  cases name with
  | none => exact (freshName_blind _).bind fun _ => .read_bind fun _ => declare_blind _ _
  | some name => exact .bind (.pure _) fun _ => .read_bind fun _ => declare_blind _ _

theorem declareValueParams_blind (scope : ScopeId) : ∀ (params : List ValueParam) (declared : List SymbolId),
    Blind (declareValueParams scope declared params)
  | [], _ => .pure _
  | _ :: rest, _ => (declare_blind _ _).attempt.bind fun symbol => by
    cases symbol <;> exact declareValueParams_blind scope rest _

theorem declareParameters_blind (function : SymbolId) (scope : ScopeId) (receiver : Option Ty)
    (params : List ValueParam) : Blind (declareParameters function scope receiver params) := by
  have hrest : ∀ this : Option SymbolId, Blind (do
      let params ← declareValueParams scope this.toList params
      modifyProgram (·.modifyFunction function fun own => { own with params, receiver := this })) := fun _ =>
    (declareValueParams_blind _ _ _).bind fun _ => modifyProgram_blind _
  cases receiver with
  | none => exact .bind (.pure _) hrest
  | some ty => exact .ask_bind fun _ => (declare_blind _ _).attempt.bind hrest

/-! ## Converting values -/

theorem markConstant_blind (node : NodeId) : Blind (markConstant node) :=
  .ask_bind fun _ => .ite (.pure _) (.ask_bind fun _ => .ask_bind fun _ => addNode_blind _ _ _)

theorem readThrough_blind (node : NodeId) : Blind (readThrough node) := .ask_bind fun ty => by
  cases ty with
  | reference => exact .ask_bind fun _ => addNode_blind _ _ _
  | _ => exact .pure _

theorem applySteps_blind (pos : Span) : ∀ (steps : List CastStep) (constant : Bool) (value : NodeId),
    Blind (applySteps pos steps constant value)
  | [], _, _ => .pure _
  | _ :: rest, _, _ => (addNode_blind _ _ _).bind fun _ =>
    .ite ((addNode_blind _ _ _).bind fun _ => applySteps_blind pos rest _ _) (applySteps_blind pos rest _ _)

theorem convert_blind (value : NodeId) (target : Ty) (intent : Intent) : Blind (convert value target intent) := by
  refine .ask_bind fun _ => .ask_bind fun _ => .ite .failure (.ask_bind fun plan => ?_)
  cases plan with
  | ok steps => exact .ask_bind fun _ => applySteps_blind _ _ _ _
  | error => exact .ask_bind fun _ => .ask_bind fun _ => (report_blind _).bind fun _ => .failure

theorem coerce_blind (value : NodeId) (target : Ty) : Blind (coerce value target) := convert_blind _ _ _

theorem fold_blind (node : NodeId) (operands : List NodeId) : Blind (fold node operands) := by
  refine .ask_bind fun _ => .ite (.pure _) (.ask_bind fun value => ?_)
  rcases value with (_ | _) | _
  · exact .pure _
  · exact .ask_bind fun _ => fail_blind _ _ _
  · exact markConstant_blind _

theorem adaptLiteral_blind (node : NodeId) (target : Ty) : Blind (adaptLiteral node target) := modifyProgram_blind _

theorem upperBound_blind (left right : NodeId) (pos : Span) : Blind (upperBound left right pos) := by
  refine .ask_bind fun _ => (adaptLiteral_blind _ _).bind fun _ => .ask_bind fun _ =>
    (adaptLiteral_blind _ _).bind fun _ => .ask_bind fun _ => .ask_bind fun _ => .ask_bind fun meeting => ?_
  cases meeting with
  | none => exact .ask_bind fun _ => .ask_bind fun _ => fail_blind _ _ _
  | some ty => exact .pure _

theorem requireValue_blind (node : NodeId) (pos : Span) : Blind (requireValue node pos) :=
  .ask_bind fun _ => .ite (fail_blind _ _ _) (.pure _)

theorem asCondition_blind (node : NodeId) : Blind (asCondition node) :=
  (readThrough_blind _).bind fun _ => coerce_blind _ _

theorem requireArgument_blind (arg : CallArg) : Blind arg.requireValue := by
  unfold CallArg.requireValue
  cases arg.value with
  | value node => exact .pure _
  | type ty => exact .ask_bind fun _ => fail_blind _ _ _

/-! ## Arrays, tuples and references -/

theorem arrayType_blind (element : Ty) (length : UInt64) : Blind (arrayType element length) := .ask_bind fun known => by
  cases known with
  | none => exact .ask_bind fun _ => (useName_blind _).bind fun _ => (addSymbol_blind _).bind fun _ =>
      (modifyProgram_blind _).bind fun _ => .pure _
  | some symbol => exact .pure _

theorem declareTupleFields_blind (owner : SymbolId) (scope : ScopeId) : ∀ (types : List Ty) (index : Nat),
    Blind (declareTupleFields owner scope index types)
  | [], _ => .pure _
  | _ :: rest, index => (useName_blind _).bind fun _ => (declareField_blind _ _ _ _ _ _).discard.bind fun _ =>
    declareTupleFields_blind owner scope rest (index + 1)

theorem tupleType_blind (fields : List Ty) : Blind (tupleType fields) := .ask_bind fun known => by
  cases known with
  | none => exact (addScope_blind _ _).bind fun _ => (freshName_blind _).bind fun _ => (addSymbol_blind _).bind fun _ =>
      (setOwner_blind _ _).bind fun _ => (declareTupleFields_blind _ _ _ _).bind fun _ =>
        (modifyProgram_blind _).bind fun _ => .pure _
  | some symbol => exact .pure _

theorem packTuple_blind (pos : Span) (values : List NodeId) : Blind (packTuple pos values) := by
  have hitem : ∀ value, Blind (do
      let value ← readThrough value
      coerce value (← ask (·.inferredType value))) := fun value =>
    (readThrough_blind value).bind fun _ => .ask_bind fun _ => coerce_blind _ _
  exact (Blind.mapM hitem values).bind fun _ => (Blind.mapM (fun _ => .ask _) _).bind fun _ =>
    (tupleType_blind _).bind fun _ => .ask_bind fun _ => addNode_blind _ _ _

theorem captureField_blind (owner origin source : SymbolId) (ty : Ty) (pos : Span) :
    Blind (captureField owner origin source ty pos) := .ask_bind fun known => by
  cases known with
  | none => exact .ask_bind fun _ => addHiddenField_blind _ _ _ _ _
  | some field => exact .pure _

theorem captureThrough_blind (origin : SymbolId) (ty : Ty) (pos : Span) :
    ∀ (functions : List SymbolId) (source : SymbolId) (hops : List CaptureHop),
      Blind (captureThrough origin ty pos functions source hops)
  | [], _, _ => .pure _
  | function :: rest, source, hops => .ask_bind fun own => by
    cases own.bind (·.owner) with
    | none => exact .failure
    | some owner =>
      refine (captureField_blind _ _ _ _ _).bind fun field => .ask_bind fun scope => ?_
      cases scope with
      | none => exact .failure
      | some scope => exact captureThrough_blind origin ty pos rest _ _

theorem variableReference_blind (symbol : SymbolId) (pos : Span) : Blind (variableReference symbol pos) := by
  refine .ask_bind fun ty => ?_
  cases ty with
  | none => exact .failure
  | some ty =>
    refine currentScope_bind fun _ => .ask_bind fun _ => .ask_bind fun blocker => ?_
    cases blocker with
    | none => exact (captureThrough_blind _ _ _ _ _ _).bind fun _ => addNode_blind _ _ _
    | some blocker => exact .ask_bind fun _ => .ask_bind fun _ => fail_blind _ _ _

theorem reference_blind (symbol : SymbolId) (pos : Span) : Blind (reference symbol pos) := .ask_bind fun field => by
  cases field with
  | none => exact variableReference_blind _ _
  | some field =>
    refine currentScope_bind fun _ => .ask_bind fun this => ?_
    cases this with
    | none => exact .ask_bind fun _ => fail_blind _ _ _
    | some this => exact (variableReference_blind _ _).bind fun _ => (addNode_blind _ _ _).bind fun _ =>
        addNode_blind _ _ _

theorem capturedValues_blind (owner : SymbolId) (pos : Span) : Blind (capturedValues owner pos) :=
  .ask_bind fun _ => .mapM (fun _ => currentScope_bind fun _ => .ask_bind fun _ =>
    .ite ((reference_blind _ _).bind fun _ => .pure _) (.ask_bind fun _ => .ask_bind fun _ => fail_blind _ _ _)) _

/-! ## Templates and instances -/

theorem functionName_blind (source : FunctionDef) : Blind (functionName source) := by
  unfold functionName
  cases source.name with
  | some name => exact .pure _
  | none =>
    cases source.operator with
    | none => exact freshName_blind _
    | some operator => exact (useName_blind _).bind fun _ => .pure _

theorem arityOf_blind (name : String) (params : List Param) (receiver : Bool) : Blind (arityOf name params receiver) := by
  unfold arityOf
  cases Arity.ofParams params receiver with
  | ok arity => exact .pure _
  | error fault => exact fail_blind _ _ _

theorem addOverload_blind (name : String) (pos : Span) (template : TemplateDecl) (existing : SymbolId) (symbol : Symbol) :
    Blind (do
      match ← ask (·.templateOfArity? existing template.arity) with
      | some clash =>
        let previous ← ask fun p => (p.symbol clash).pos
        report ((Diagnostic.of pos .duplicateArity [name]).withRelated (.of previous .previousDeclaration [name]))
        failure
      | none =>
        let added ← addSymbol symbol
        modifyProgram (·.addOverload existing added)
        return added) := .ask_bind fun clash => by
  cases clash with
  | none => exact (addSymbol_blind _).bind fun _ => (modifyProgram_blind _).bind fun _ => .pure _
  | some clash => exact .ask_bind fun _ => (report_blind _).bind fun _ => .failure

theorem declareTemplate_blind (name : String) (pos : Span) (template : TemplateDecl) :
    Blind (declareTemplate name pos template) := by
  refine currentScope_bind fun scope => .ask_bind fun known => ?_
  cases known with
  | none => exact declare_blind _ _
  | some existing =>
    refine .ask_bind fun decl => ?_
    cases decl with
    | template | overloadSet => exact addOverload_blind _ _ _ existing _
    | _ => exact (reportDuplicate_blind _ _ _).bind fun _ => .failure

theorem declareFunction_blind (source : FunctionDef) : Blind (declareFunction source) :=
  currentScope_bind fun _ => .ask_bind fun _ => (functionName_blind _).bind fun _ => inheritModifiers_bind fun _ =>
    (arityOf_blind _ _ _).bind fun _ => declareTemplate_blind _ _ _

theorem declareStruct_blind (source : StructDef) : Blind (declareStruct source) := by
  refine currentScope_bind fun scope => ?_
  have hrest : ∀ name, Blind (do
      let arity ← arityOf name source.params false
      let modifiers ← inheritModifiers source.modifiers
      declareTemplate name source.pos
        { source := .struct source, arity, scope, role := .plain, functionKind := .plain, modifiers, owner := none }) :=
    fun name => (arityOf_blind _ _ _).bind fun _ => inheritModifiers_bind fun _ => declareTemplate_blind _ _ _
  cases source.name with
  | none => exact (freshName_blind _).bind hrest
  | some name => exact .bind (.pure _) hrest

theorem selectTemplate_blind (symbol : SymbolId) (count : Nat) (bound : Bool) (pos : Span) :
    Blind (selectTemplate symbol count bound pos) := .ask_bind fun template => by
  cases template with
  | none => exact .ask_bind fun _ => fail_blind _ _ _
  | some template => exact .pure _

theorem declareModule_blind (scope : ScopeId) (source : ModuleDef) : Blind (declareModule scope source) :=
  (addScope_blind _ _).bind fun _ => (declare_blind _ _).bind fun _ => (setOwner_blind _ _).bind fun _ => .pure _

theorem declareStatement_blind (tree : Syntax) : Blind (declareStatement tree) := by
  unfold declareStatement
  cases tree.form with
  | function source => exact (declareFunction_blind _).discard.bind fun _ => .pure _
  | struct source => exact (declareStruct_blind _).discard.bind fun _ => .pure _
  | module source => exact currentScope_bind fun _ => (declareModule_blind _ _).bind fun _ => .pure _
  | _ => exact .pure _

theorem addInstance_blind (template : SymbolId) (bound : BoundParams) (scope : ScopeId) (pos : Span) (decl : Decl) :
    Blind (addInstance template bound scope pos decl) :=
  .ask_bind fun _ => (addSymbol_blind _).bind fun _ => (setOwner_blind _ _).bind fun _ => .pure _

theorem recordInstance_blind (template : SymbolId) (bound : BoundParams) (made : SymbolId) :
    Blind (recordInstance template bound made) := modifyProgram_blind _

theorem declareMethod_blind (name : String) (role : Role) (template : Option SymbolId) (owner : SymbolId)
    (scope : ScopeId) (pos : Span) (modifiers : Modifiers) :
    Blind (declareMethod name role template owner scope pos modifiers) :=
  (addScope_blind _ _).bind fun _ => (declare_blind _ _).bind fun _ => (setOwner_blind _ _).bind fun _ =>
    (modifyProgram_blind _).bind fun _ => .pure _

theorem fixElement_blind (state : SymbolId) (ty : Ty) (pos : Span) : Blind (fixElement state ty pos) :=
  .ask_bind fun own => by
    cases own.bind (·.element) with
    | none => exact (addHiddenField_blind _ _ _ _ _).bind fun _ => (modifyProgram_blind _).bind fun _ => .pure _
    | some element => exact .pure _

/-! ## Parameters -/

theorem reportArguments_blind (name : String) (count : Nat) (pos : Span) (fault : ArgumentFault) :
    Blind (reportArguments name count pos fault : BindM α) := by
  cases fault <;> exact fail_blind _ _ _

theorem bindVararg_blind (param : Param) (args : List CallArg) : Blind (bindVararg param args) :=
  (Blind.mapM requireArgument_blind args).bind fun _ => (packTuple_blind _ _).bind fun _ => .ask_bind fun _ => .pure _

theorem declareConstant_blind (scope : ScopeId) (param : Param) (arg : CallArg) (node : NodeId) : Blind (do
    let some value ← ask (·.constValue? node) | fail arg.pos .constParameter [param.name]
    let node ← markConstant node
    discard (declare scope { name := param.name, scope, pos := param.pos, decl := .constAlias .define node })
    return { entry := .const (← nodeType node) value } : BindM BoundParam) := .ask_bind fun value => by
  cases value with
  | none => exact fail_blind _ _ _
  | some value =>
    exact (markConstant_blind _).bind fun _ => (declare_blind _ _).discard.bind fun _ => .ask_bind fun _ => .pure _

theorem bindConstant_blind (scope : ScopeId) (param : Param) (arg : CallArg) (declared : Option Ty) :
    Blind (bindConstant scope param arg declared) := by
  refine (requireArgument_blind _).bind fun node => ?_
  cases declared with
  | none => exact (readThrough_blind _).bind (declareConstant_blind scope param arg)
  | some ty => exact (coerce_blind _ _).bind (declareConstant_blind scope param arg)

theorem bindInferred_blind (param : Param) (arg : CallArg) (node : NodeId) : Blind (bindInferred param arg node) :=
  (readThrough_blind _).bind fun _ => .ask_bind fun _ => .ite (fail_blind _ _ _) <| .ask_bind fun _ =>
    (coerce_blind _ _).bind fun _ => .pure _

/-! ## What names denote -/

theorem resolve_blind (symbol : SymbolId) (pos : Span) : Blind (resolve symbol pos) := by
  refine .ask_bind fun symbol => .ask_bind fun decl => ?_
  cases decl with
  | builtin | struct | union | array | enum | typeAlias | module | template | overloadSet | function => exact .pure _
  | constAlias tag value =>
    refine .ask_bind fun constant => ?_
    cases constant with
    | none => exact .failure
    | some constant => exact .ask_bind fun _ => .ask_bind fun _ => (addNode_blind _ _ _).bind fun _ => .pure _
  | parameter | localVar | globalVar | field => exact (reference_blind _ _).bind fun _ => .pure _
  | label | valueAlias => exact .ask_bind fun _ => fail_blind _ _ _

theorem nameOperand_blind (name : String) (pos : Span) : Blind (nameOperand name pos) :=
  currentScope_bind fun _ => .ask_bind fun found => by
    cases found with
    | none => exact fail_blind _ _ _
    | some symbol => exact resolve_blind _ _

theorem operandType_blind (operand : Operand) (pos : Span) : Blind (operandType operand pos) := by
  cases operand with
  | value node => exact fail_blind _ _ _
  | type ty => exact .pure _
  | module | callable => exact .ask_bind fun _ => fail_blind _ _ _

theorem object_blind (value : NodeId) : Blind (object value) := (readThrough_blind _).bind fun _ => .ask_bind fun ty => by
  cases ty.pointee? with
  | none => exact .pure _
  | some pointee => exact .ask_bind fun _ => addNode_blind _ _ _

theorem memberOperand_blind (pos : Span) (value : NodeId) (symbol : SymbolId) :
    Blind (memberOperand pos value symbol) := .ask_bind fun symbol => .ask_bind fun decl => by
  cases decl with
  | field own => exact (object_blind _).bind fun _ => (addNode_blind _ _ _).bind fun _ => .pure _
  | template | overloadSet | function => exact .pure _
  | _ => exact resolve_blind _ _

theorem dotValue_blind (pos : Span) (value : NodeId) (member : String) : Blind (dotValue pos value member) := by
  refine .ask_bind fun ty => currentScope_bind fun scope => .ask_bind fun found => ?_
  cases found with
  | some symbol => exact memberOperand_blind _ _ _
  | none =>
    refine .ask_bind fun symbol => ?_
    cases symbol with
    | none => exact .ask_bind fun _ => fail_blind _ _ _
    | some symbol => exact .pure _

theorem dotType_blind (pos : Span) (ty : Ty) (member : String) : Blind (dotType pos ty member) :=
  .ask_bind fun _ => .ask_bind fun shared => by
    cases shared with
    | none => exact .ask_bind fun _ => fail_blind _ _ _
    | some symbol => exact resolve_blind _ _

/-! ## Calls of functions -/

theorem receiverPointer_blind (value : NodeId) (owner : SymbolId) : Blind (receiverPointer value owner) :=
  (readThrough_blind _).bind fun _ => .ask_bind fun _ =>
    .ite (.ask_bind fun _ => addNode_blind _ _ _) (coerce_blind _ _)

theorem implicitReceiver_blind (owner : SymbolId) (pos : Span) : Blind (implicitReceiver owner pos) :=
  currentScope_bind fun _ => .ask_bind fun this => by
    cases this with
    | none => exact .ask_bind fun _ => fail_blind _ _ _
    | some this => exact reference_blind _ _

theorem splitReceiver_blind (method : Option SymbolId) (receiver : Option NodeId) (args : List CallArg) (pos : Span) :
    Blind (splitReceiver method receiver args pos) := by
  cases method <;> cases receiver
  · exact .pure _
  · exact .ask_bind fun _ => .pure _
  · exact (implicitReceiver_blind _ _).bind fun _ => .pure _
  · exact (receiverPointer_blind _ _).bind fun _ => .pure _

theorem callNode_blind (function : SymbolId) (args : List NodeId) (pos : Span) : Blind (callNode function args pos) := by
  refine .ask_bind fun own => ?_
  cases own with
  | none => exact .failure
  | some own =>
    dsimp only
    cases own.ret with
    | none => exact .ask_bind fun _ => fail_blind _ _ _
    | some ret => exact .ite .failure (addNode_blind _ _ _)

theorem passArguments_blind (params : List SymbolId) (args : List CallArg) : Blind (passArguments params args) :=
  .mapM (fun _ => .ask_bind fun ty => by
    cases ty with
    | none => exact .failure
    | some ty => exact (requireArgument_blind _).bind fun _ => coerce_blind _ _) _

theorem callFunction_blind (function : SymbolId) (receiver : Option NodeId) (args : List CallArg) (pos : Span) :
    Blind (callFunction function receiver args pos) := by
  refine .ask_bind fun own => ?_
  cases own with
  | none => exact .failure
  | some own =>
    refine (splitReceiver_blind _ _ _ _).bind fun split => .ask_bind fun name => ?_
    dsimp only
    cases split.2.findSome? (·.name) with
    | none => exact .ite (fail_blind _ _ _) ((passArguments_blind _ _).bind fun _ => callNode_blind _ _ _)
    | some named => exact fail_blind _ _ _

theorem callIndirect_blind (callee : NodeId) (function : SymbolId) (args : List CallArg) (pos : Span) :
    Blind (callIndirect callee function args pos) := by
  refine .ask_bind fun own => ?_
  cases own with
  | none => exact .failure
  | some own =>
    dsimp only
    cases own.ret with
    | none => exact .ask_bind fun _ => fail_blind _ _ _
    | some ret =>
      exact .ite .failure (.ite (.ask_bind fun _ => fail_blind _ _ _)
        ((passArguments_blind _ _).bind fun _ => addNode_blind _ _ _))

theorem callValue_blind (callee : NodeId) (args : List CallArg) (pos : Span) : Blind (callValue callee args pos) := by
  refine (readThrough_blind _).bind fun _ => .ask_bind fun ty => .ask_bind fun _ => .ite (.ask_bind fun method => ?_) ?_
  · cases method with
    | none => exact .failure
    | some method => exact callFunction_blind _ _ _ _
  · refine .ask_bind fun isFunction => ?_
    split
    · exact callIndirect_blind _ _ _ _
    · exact .ask_bind fun _ => fail_blind _ _ _

/-! ## Operators -/

theorem operatorError_blind (pos : Span) (op : BinaryOp) (left right : NodeId) :
    Blind (operatorError pos op left right : BindM α) :=
  .ask_bind fun _ => .ask_bind fun _ => .ask_bind fun _ => .ask_bind fun _ => fail_blind _ _ _

theorem bindArithmetic_blind (pos : Span) (op : BinaryOp) (left right : NodeId) :
    Blind (bindArithmetic pos op left right) :=
  .ask_bind fun _ => .ask_bind fun _ => .ask_bind fun _ => .ite (operatorError_blind _ _ _ _) <|
    (upperBound_blind _ _ _).bind fun _ => .ask_bind fun _ => (coerce_blind _ _).bind fun _ =>
      (coerce_blind _ _).bind fun _ => (addNode_blind _ _ _).bind fun _ => fold_blind _ _

theorem bindRelational_blind (pos : Span) (op : BinaryOp) (left right : NodeId) :
    Blind (bindRelational pos op left right) :=
  .ask_bind fun _ => .ask_bind fun _ => .ask_bind fun _ => .ite (operatorError_blind _ _ _ _) <|
    (upperBound_blind _ _ _).bind fun _ => (coerce_blind _ _).bind fun _ => (coerce_blind _ _).bind fun _ =>
      (addNode_blind _ _ _).bind fun _ => fold_blind _ _

theorem bindLogical_blind (pos : Span) (op : BinaryOp) (left right : NodeId) : Blind (bindLogical pos op left right) := by
  refine (coerce_blind _ _).attempt.bind fun left => (coerce_blind _ _).attempt.bind fun right => ?_
  cases left <;> cases right
  case some.some => exact (addNode_blind _ _ _).bind fun _ => fold_blind _ _
  all_goals exact .failure

theorem bindCoalesce_blind (pos : Span) (left right : NodeId) : Blind (bindCoalesce pos left right) :=
  .ask_bind fun _ => .ite (.ask_bind fun _ => fail_blind _ _ _) ((coerce_blind _ _).bind fun _ => addNode_blind _ _ _)

theorem bindShift_blind (pos : Span) (op : BinaryOp) (left right : NodeId) : Blind (bindShift pos op left right) :=
  .ask_bind fun _ => .ask_bind fun _ => .ask_bind fun _ => .ite (operatorError_blind _ _ _ _) <| .ask_bind fun _ =>
    (coerce_blind _ _).bind fun _ => (addNode_blind _ _ _).bind fun _ => fold_blind _ _

theorem bindPointerArithmetic_blind (pos : Span) (op : BinaryOp) (pointer offset : NodeId) :
    Blind (bindPointerArithmetic pos op pointer offset) :=
  .ask_bind fun _ => .ask_bind fun _ => .ite (operatorError_blind _ _ _ _) <| .ask_bind fun _ =>
    (coerce_blind _ _).bind fun _ => addNode_blind _ _ _

theorem bindPointerDifference_blind (pos : Span) (left right : NodeId) : Blind (bindPointerDifference pos left right) :=
  .ask_bind fun _ => .ask_bind fun _ => .ite (.ask_bind fun _ => .ask_bind fun _ => fail_blind _ _ _) <|
    .ask_bind fun _ => addNode_blind _ _ _

theorem bindAdditive_blind (pos : Span) (op : BinaryOp) (left right : NodeId) :
    Blind (bindAdditive pos op left right) := by
  refine .ask_bind fun _ => .ask_bind fun _ => ?_
  split
  · exact bindPointerDifference_blind _ _ _
  · exact bindPointerArithmetic_blind _ _ _ _
  · exact bindPointerArithmetic_blind _ _ _ _
  · exact bindArithmetic_blind _ _ _ _
  · exact operatorError_blind _ _ _ _

theorem bindInt_blind (pos : Span) (value : Nat) (suffix : Option IntSuffix) : Blind (bindInt pos value suffix) := by
  cases suffix <;> exact addNode_blind _ _ _

theorem unaryError_blind (pos : Span) (op : UnaryOp) (ty : Ty) : Blind (unaryError pos op ty : BindM α) :=
  .ask_bind fun _ => fail_blind _ _ _

theorem applyUnary_blind (pos : Span) (op : UnaryOp) (value : NodeId) (ty : Ty) : Blind (applyUnary pos op value ty) :=
  (coerce_blind _ _).bind fun _ => (addNode_blind _ _ _).bind fun _ => fold_blind _ _

theorem bindDereference_blind (pos : Span) (value : NodeId) : Blind (bindDereference pos value) := by
  refine .ask_bind fun ty => ?_
  split
  · exact addNode_blind _ _ _
  · exact .ask_bind fun _ => fail_blind _ _ _

theorem bindNegation_blind (pos : Span) (value : NodeId) : Blind (bindNegation pos value) := .ask_bind fun literal => by
  cases literal with
  | some literal => exact addNode_blind _ _ _
  | none => exact .ask_bind fun _ => .ask_bind fun _ => .ite (unaryError_blind _ _ _) <| .ask_bind fun _ =>
      applyUnary_blind _ _ _ _

theorem bindComplement_blind (pos : Span) (value : NodeId) : Blind (bindComplement pos value) :=
  .ask_bind fun _ => .ask_bind fun _ => .ite (unaryError_blind _ _ _) <| .ask_bind fun _ => applyUnary_blind _ _ _ _

theorem bindAddress_blind (pos operandPos : Span) (value : NodeId) : Blind (bindAddress pos operandPos value) :=
  .ask_bind fun _ => .ite (fail_blind _ _ _) (.ask_bind fun _ => addNode_blind _ _ _)

theorem compoundValue_blind (pos : Span) (op : BinaryOp) (target value : NodeId) :
    Blind (compoundValue pos op target value) := by
  refine .ask_bind fun ty => .ask_bind fun given => .ite (.ask_bind fun _ => ?_) (.ite (.ask_bind fun _ => ?_) ?_)
  · exact .ite (operatorError_blind _ _ _ _) (.ask_bind fun _ => (coerce_blind _ _).bind fun _ => .pure _)
  · exact .ite (operatorError_blind _ _ _ _) (.pure _)
  · exact .ask_bind fun _ => .ite ((adaptLiteral_blind _ _).bind fun _ => (coerce_blind _ _).bind fun _ => .pure _)
      (operatorError_blind _ _ _ _)

/-! ## Statements -/

theorem defineConstant_blind (pos : Span) (name : String) (init : Option NodeId) :
    Blind (defineConstant pos name init) := by
  refine currentScope_bind fun scope => ?_
  cases init with
  | none => exact fail_blind _ _ _
  | some init =>
    exact .ask_bind fun _ => .ite (.ask_bind fun _ => fail_blind _ _ _) <| (markConstant_blind _).bind fun _ =>
      (declare_blind _ _).discard.bind fun _ => .failure

theorem jumpTo_blind (pos : Span) (isContinue : Bool) (target : SymbolId) : Blind (do
    let isLoop ← ask fun p => match p.decl target with
      | .label own => own.isLoop
      | _ => false
    if isContinue && !isLoop then fail pos .continueTargetNotLoop [← symbolName target]
    addStatement pos (if isContinue then .continues target else .breaks target)) :=
  .ask_bind fun _ => .ite (.ask_bind fun _ => fail_blind _ _ _) (addNode_blind _ _ _)

theorem bindJump_blind (pos : Span) (label : Option String) (isContinue : Bool) :
    Blind (bindJump pos label isContinue) := by
  refine .read_bind fun c => ?_
  cases label with
  | none =>
    dsimp only
    cases c.loopLabel with
    | none => exact fail_blind _ _ _
    | some label => exact .bind (.pure _) (jumpTo_blind pos isContinue)
  | some name =>
    refine .ask_bind fun found => ?_
    cases found with
    | none => exact fail_blind _ _ _
    | some label => exact .bind (.pure _) (jumpTo_blind pos isContinue)

theorem returnNothing_blind (pos : Span) (function : SymbolId) (ret : Option Ty) :
    Blind (returnNothing pos function ret) := by
  cases ret with
  | none => exact (setReturnType_blind _ _).bind fun _ => addNode_blind _ _ _
  | some ty => exact .ite (.ask_bind fun _ => fail_blind _ _ _) (addNode_blind _ _ _)

theorem requireGenerator_blind (pos : Span) : Blind (requireGenerator pos) := generatorState?_blind.bind fun state => by
  cases state with
  | none => exact fail_blind _ _ _
  | some state => exact .pure _

theorem iteration_blind (value : NodeId) (pos : Span) : Blind (iteration value pos) := by
  refine .ask_bind fun ty => .ask_bind fun kind => ?_
  split
  · refine .ask_bind fun own => ?_
    cases own with
    | none => exact .failure
    | some own =>
      dsimp only
      split
      · exact .pure _
      · exact .ask_bind fun _ => fail_blind _ _ _
  · exact .ask_bind fun _ => fail_blind _ _ _

theorem reportUnreachable_blind (reach : Reach) (tree : Syntax) : Blind (reportUnreachable reach tree) := by
  cases reach with
  | jumped keyword => exact .ite (.pure _) ((report_blind _).bind fun _ => .pure _)
  | _ => exact .pure _

theorem valueAlias_blind (tag : AliasTag) (pos : Span) (node : NodeId) : Blind (valueAlias tag pos node) := by
  refine .ask_bind fun kind => ?_
  split
  · exact .pure _
  · exact .ask_bind fun _ => .ite ((markConstant_blind _).bind fun _ => .pure _) (fail_blind _ _ _)

end BindM

end Bindery
