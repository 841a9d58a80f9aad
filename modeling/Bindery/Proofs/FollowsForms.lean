import Bindery.Proofs.Follows
import Mathlib.Data.List.Forall2
/-!
# Forms that settle

The rules of the forms of the syntax: what is bound of parts that follow, follows.
-/
namespace Bindery

variable {ι : Type} {l : Filter ι} {room : ι → Room} {limit : Room} {pos : Span}

/-! ## Operands -/

namespace BindM

theorem settle_follows (hr : Room.Follows l room limit) (operand : Operand) (pos : Span) :
    Follows l (fun i => settle (room i) operand pos) (settle limit operand pos) := by
  cases operand with
  | value | type | module => exact .pure _
  | callable symbol receiver =>
    cases receiver with
    | some node => exact .pure _
    | none =>
      refine .ask_bind fun _ => .ite (.after (selectTemplate_blind _ _ _ _) fun template => ?_) (.pure _)
      exact (instantiateStruct_follows hr _ _ _).bind fun _ => .pure _

theorem functionValue_follows (hr : Room.Follows l room limit) (symbol : SymbolId) (receiver : Option NodeId)
    (pos : Span) :
    Follows l (fun i => functionValue (room i) symbol receiver pos) (functionValue limit symbol receiver pos) := by
  have hnode : ∀ function, Follows l (fun _ => addNode pos (.direct function) (.valueName function []))
      (addNode pos (.direct function) (.valueName function [])) := fun _ => .still (addNode_blind _ _ _)
  refine .ask_bind fun decl => ?_
  cases receiver with
  | some node => exact .ask_bind fun _ => .bind (.fail _ _ _) hnode
  | none =>
    cases decl with
    | function own => exact .bind (.pure _) hnode
    | template own =>
      exact .ite (((instantiateFunction_follows hr _ _ _).map _).bind hnode)
        (.ask_bind fun _ => .bind (.fail _ _ _) hnode)
    | _ => exact .ask_bind fun _ => .bind (.fail _ _ _) hnode

theorem operandNode_follows (hr : Room.Follows l room limit) (operand : Operand) (pos : Span) :
    Follows l (fun i => operandNode (room i) operand pos) (operandNode limit operand pos) := by
  cases operand with
  | value node => exact .pure _
  | type | module => exact .ask_bind fun _ => .fail _ _ _
  | callable symbol receiver => exact functionValue_follows hr _ _ _

end BindM

namespace Part.Follows

variable {part : ι → Part} {part' : Part}

theorem operand (hp : Part.Follows l part part') : BindM.Follows l (fun i => (part i).operand) part'.operand := by
  cases hp with
  | mk _ h => exact h

theorem settled (hp : Part.Follows l part part') (hr : Room.Follows l room limit) :
    BindM.Follows l (fun i => (part i).settled (room i)) (part'.settled limit) := by
  cases hp with
  | mk _ h => exact h.bind fun _ => BindM.settle_follows hr _ _

theorem expression (hp : Part.Follows l part part') (hr : Room.Follows l room limit) :
    BindM.Follows l (fun i => (part i).expression (room i)) (part'.expression limit) := by
  have h := hp.settled hr
  cases hp with
  | mk _ _ => exact h.bind fun _ => BindM.operandNode_follows hr _ _

theorem value (hp : Part.Follows l part part') (hr : Room.Follows l room limit) :
    BindM.Follows l (fun i => (part i).value (room i)) (part'.value limit) := by
  have h := hp.expression hr
  cases hp with
  | mk _ _ => exact h.bind fun _ => .still (BindM.requireValue_blind _ _)

theorem condition (hp : Part.Follows l part part') (hr : Room.Follows l room limit) :
    BindM.Follows l (fun i => (part i).condition (room i)) (part'.condition limit) :=
  (hp.value hr).bind fun _ => .still (BindM.asCondition_blind _)

theorem type (hp : Part.Follows l part part') (hr : Room.Follows l room limit) :
    BindM.Follows l (fun i => (part i).type (room i)) (part'.type limit) := by
  have h := hp.settled hr
  cases hp with
  | mk _ _ => exact h.bind fun _ => .still (BindM.operandType_blind _ _)

theorem argument (hp : Part.Follows l part part') (hr : Room.Follows l room limit) :
    BindM.Follows l (fun i => (part i).argument (room i)) (part'.argument limit) := by
  have h := hp.settled hr
  cases hp with
  | mk _ _ =>
    refine h.bind fun operand => ?_
    cases operand with
    | type ty => exact .pure _
    | _ => exact (BindM.operandNode_follows hr _ _).bind fun _ => .after (BindM.requireValue_blind _ _) fun _ => .pure _

end Part.Follows

namespace BindM

/-- Parts that follow one by one are bound one by one. -/
theorem Follows.mapM_parts {α β σ : Type} {P : (ι → α) → σ → Prop} {rule : ι → α → BindM β} {rule' : σ → BindM β}
    (h : ∀ x y, P x y → Follows l (fun i => rule i (x i)) (rule' y)) {xs : List (ι → α)} {ys : List σ}
    (hxs : List.Forall₂ P xs ys) : Follows l (fun i => (xs.map (· i)).mapM (rule i)) (ys.mapM rule') := by
  induction hxs with
  | nil => exact .pure _
  | cons hx _ ih =>
    simp only [List.map_cons, List.mapM_cons]
    exact (h _ _ hx).bind fun _ => ih.bind fun _ => .pure _

theorem Follows.mapOption_part {α β σ : Type} {P : (ι → α) → σ → Prop} {rule : ι → α → BindM β} {rule' : σ → BindM β}
    (h : ∀ x y, P x y → Follows l (fun i => rule i (x i)) (rule' y)) {x : Option (ι → α)} {y : Option σ}
    (hx : Option.Rel P x y) : Follows l (fun i => (x.map (· i)).mapM (rule i)) (y.mapM rule') := by
  cases hx with
  | none => exact .pure _
  | some hx => exact (h _ _ hx).map _

theorem bindArguments_follows (hr : Room.Follows l room limit) {args : List (ι → ArgPart)} {args' : List ArgPart}
    (ha : List.Forall₂ (ArgPart.Follows l) args args') :
    Follows l (fun i => bindArguments (room i) (args.map (· i))) (bindArguments limit args') := by
  refine .bind (.mapM_parts (fun _ _ h => ?_) ha) fun bound => ?_
  · cases h with
    | mk _ _ h =>
      dsimp only
      exact ((h.argument hr).bind fun _ => .pure _).attempt
  · cases bound.mapM id with
    | none => exact .failure
    | some args => exact .pure _

theorem dotModule_follows (hr : Room.Follows l room limit) (pos : Span) (module : SymbolId) (member : String) :
    Follows l (fun i => dotModule (room i) pos module member) (dotModule limit pos module member) := by
  refine (moduleScope_follows hr module).bind fun scope => .ask_bind fun found => ?_
  cases found with
  | none => exact .ask_bind fun _ => .fail _ _ _
  | some symbol => exact .still (resolve_blind _ _)

theorem dotOperand_follows (hr : Room.Follows l room limit) {base : ι → Part} {base' : Part}
    (hb : Part.Follows l base base') (pos : Span) (member : String) :
    Follows l (fun i => dotOperand (room i) pos (base i) member) (dotOperand limit pos base' member) := by
  have h := hb.settled hr
  cases hb with
  | mk _ _ =>
    refine h.bind fun operand => ?_
    cases operand with
    | module symbol => exact dotModule_follows hr _ _ _
    | type ty => exact .still (dotType_blind _ _ _)
    | callable => exact .ask_bind fun _ => .fail _ _ _
    | value node => exact .still (dotValue_blind _ _ _)

theorem arrayLength_follows (hr : Room.Follows l room limit) {part : ι → Part} {part' : Part}
    (hp : Part.Follows l part part') : Follows l (fun i => arrayLength (room i) (part i)) (arrayLength limit part') := by
  have h := hp.value hr
  cases hp with
  | mk _ _ =>
    refine h.bind fun node => .ask_bind fun value => ?_
    dsimp only
    cases value.bind (·.asInt?) with
    | none => exact .fail _ _ _
    | some length => exact .ask_bind fun _ => .ite (.ite (.pure _) .failure) (.fail _ _ _)

theorem pointerOperand_follows (hr : Room.Follows l room limit) {part : ι → Part} {part' : Part}
    (hp : Part.Follows l part part') :
    Follows l (fun i => pointerOperand (room i) (part i)) (pointerOperand limit part') :=
  (hp.type hr).bind fun _ => .pure _

theorem referenceOperand_follows (hr : Room.Follows l room limit) {part : ι → Part} {part' : Part}
    (hp : Part.Follows l part part') :
    Follows l (fun i => referenceOperand (room i) (part i)) (referenceOperand limit part') :=
  (hp.type hr).bind fun _ => .pure _

theorem arrayOperand_follows (hr : Room.Follows l room limit) {element length : ι → Part} {element' length' : Part}
    (he : Part.Follows l element element') (hl : Part.Follows l length length') :
    Follows l (fun i => arrayOperand (room i) (element i) (length i)) (arrayOperand limit element' length') :=
  (he.type hr).bind fun _ => (arrayLength_follows hr hl).bind fun _ => .after (arrayType_blind _ _) fun _ => .pure _

/-! ## Calls and operators -/

theorem callSymbol_follows (hr : Room.Follows l room limit) (symbol : SymbolId) (receiver : Option NodeId)
    (args : List CallArg) (pos : Span) :
    Follows l (fun i => callSymbol (room i) symbol receiver args pos) (callSymbol limit symbol receiver args pos) := by
  refine .ask_bind fun function => ?_
  cases function with
  | some own => exact .after (callFunction_blind _ _ _ _) fun _ => .pure _
  | none =>
    refine .after (selectTemplate_blind _ _ _ _) fun template => .ask_bind fun own => ?_
    cases own with
    | none => exact .failure
    | some own =>
      refine .ite ((instantiateStruct_follows hr _ _ _).bind fun _ => .pure _) ?_
      refine .after (splitReceiver_blind _ _ _ _) fun _ => .ite (.ite (.fail _ _ _) ?_) ?_
      · exact (callGenerator_follows hr _ _ _).bind fun _ => .pure _
      · exact (instantiateFunction_follows hr _ _ _).bind fun _ => .after (callNode_blind _ _ _) fun _ => .pure _

theorem callOperand_follows (hr : Room.Follows l room limit) {callee : ι → Part} {callee' : Part}
    (hc : Part.Follows l callee callee') {args : List (ι → ArgPart)} {args' : List ArgPart}
    (ha : List.Forall₂ (ArgPart.Follows l) args args') (pos : Span) :
    Follows l (fun i => callOperand (room i) pos (callee i) (args.map (· i))) (callOperand limit pos callee' args') := by
  refine hc.operand.bind fun callee => (bindArguments_follows hr ha).bind fun args => ?_
  cases callee with
  | callable symbol receiver => exact callSymbol_follows hr _ _ _ _
  | type ty => exact .ite (.pure _) (.fail _ _ _)
  | module symbol => exact .ask_bind fun _ => .fail _ _ _
  | value node => exact .after (callValue_blind _ _ _) fun _ => .pure _

theorem callOperator_follows (hr : Room.Follows l room limit) (pos : Span) (operator : SymbolId)
    (operands : List NodeId) :
    Follows l (fun i => callOperator (room i) pos operator operands) (callOperator limit pos operator operands) := by
  refine .after (.mapM (fun _ => .ask_bind fun _ => .pure _) _) fun args => (callSymbol_follows hr _ _ _ _).bind fun made => ?_
  cases made with
  | value node => exact .pure _
  | _ => exact .failure

theorem withOperator_follows (hr : Room.Follows l room limit) (pos : Span) (name : OperatorName)
    (operands : List NodeId) {builtin : BindM NodeId} (hb : builtin.Blind) :
    Follows l (fun i => withOperator (room i) pos name operands builtin)
      (withOperator limit pos name operands builtin) := by
  refine .scope_bind fun scope => .ask_bind fun operator => ?_
  cases operator with
  | none => exact .still hb
  | some operator => exact callOperator_follows hr _ _ _

theorem bothValues_follows (hr : Room.Follows l room limit) {left right : ι → Part} {left' right' : Part}
    (hl : Part.Follows l left left') (hg : Part.Follows l right right') :
    Follows l (fun i => bothValues (room i) (left i) (right i)) (bothValues limit left' right') := by
  refine (hl.value hr).attempt.bind fun left => (hg.value hr).attempt.bind fun right => ?_
  cases left <;> cases right
  case some.some => exact .pure _
  all_goals exact .failure

theorem bindBinary_follows (hr : Room.Follows l room limit) {left right : ι → Part} {left' right' : Part}
    (hl : Part.Follows l left left') (hg : Part.Follows l right right') (pos : Span) (op : BinaryOp) :
    Follows l (fun i => bindBinary (room i) pos op (left i) (right i)) (bindBinary limit pos op left' right') := by
  refine (bothValues_follows hr hl hg).bind fun _ => .after (readThrough_blind _) fun _ =>
    .after (readThrough_blind _) fun _ => withOperator_follows hr _ _ _ ?_
  cases op.family with
  | relational => exact bindRelational_blind _ _ _ _
  | logical => exact bindLogical_blind _ _ _ _
  | coalesce => exact bindCoalesce_blind _ _ _
  | shift => exact bindShift_blind _ _ _ _
  | additive => exact bindAdditive_blind _ _ _ _
  | multiplicative | bitwise => exact bindArithmetic_blind _ _ _ _

theorem bindUnary_follows (hr : Room.Follows l room limit) {operand : ι → Part} {operand' : Part}
    (ho : Part.Follows l operand operand') (pos : Span) (op : UnaryOp) :
    Follows l (fun i => bindUnary (room i) pos op (operand i)) (bindUnary limit pos op operand') := by
  have h := ho.value hr
  cases ho with
  | mk _ _ =>
    refine h.bind fun _ => .after (readThrough_blind _) fun value => ?_
    cases op with
    | addressOf => exact .still (bindAddress_blind _ _ _)
    | deref => exact withOperator_follows hr _ _ _ (bindDereference_blind _ _)
    | neg => exact withOperator_follows hr _ _ _ (bindNegation_blind _ _)
    | bitNot => exact withOperator_follows hr _ _ _ (bindComplement_blind _ _)
    | not => exact withOperator_follows hr _ _ _ (applyUnary_blind _ _ _ _)

theorem bindAssign_follows (hr : Room.Follows l room limit) {target value : ι → Part} {target' value' : Part}
    (ht : Part.Follows l target target') (hv : Part.Follows l value value') (pos : Span) (op : Option BinaryOp) :
    Follows l (fun i => bindAssign (room i) pos op (target i) (value i)) (bindAssign limit pos op target' value') := by
  have h := bothValues_follows hr ht hv
  cases ht with
  | mk _ _ =>
    refine h.bind fun _ => .ask_bind fun _ => .ite (.fail _ _ _) ?_
    refine .after (readThrough_blind _) fun _ => .after (readThrough_blind _) fun _ => ?_
    cases op with
    | none => exact .ask_bind fun _ => .after (coerce_blind _ _) fun _ => .still (addNode_blind _ _ _)
    | some op => exact .after (compoundValue_blind _ _ _ _) fun _ => .still (addNode_blind _ _ _)

/-! ## Expressions -/

theorem indexNode_blind (pos : Span) (base index : NodeId) (basePos : Span) : Blind (do
    let ty ← nodeType base
    match ← ask (·.elementType? ty) with
    | some element => addNode pos element (.indexName base index)
    | none => fail basePos .notIndexable [← typeName ty]) := by
  refine .ask_bind fun ty => .ask_bind fun element => ?_
  cases element with
  | none => exact .ask_bind fun _ => fail_blind _ _ _
  | some element => exact addNode_blind _ _ _

theorem bindIndex_follows (hr : Room.Follows l room limit) {base index : ι → Part} {base' index' : Part}
    (hb : Part.Follows l base base') (hi : Part.Follows l index index') (pos : Span) :
    Follows l (fun i => bindIndex (room i) pos (base i) (index i)) (bindIndex limit pos base' index') := by
  have h := hb.value hr
  cases hb with
  | mk _ _ =>
    refine h.attempt.bind fun base => (hi.value hr).attempt.bind fun index => ?_
    cases base with
    | none => exact .failure
    | some base =>
      refine .after (readThrough_blind _) fun base => ?_
      cases index with
      | none => exact .failure
      | some index =>
        refine .after (readThrough_blind _) fun index => .ask_bind fun _ => .ite (.bind (.pure _) fun index => ?_) ?_
        · exact .still (indexNode_blind _ _ index _)
        · exact .ask_bind fun _ => .after (coerce_blind _ _) fun index => .still (indexNode_blind _ _ index _)

theorem bindTernary_follows (hr : Room.Follows l room limit) {test whenTrue whenFalse : ι → Part}
    {test' whenTrue' whenFalse' : Part} (hp : Part.Follows l test test') (ht : Part.Follows l whenTrue whenTrue')
    (hf : Part.Follows l whenFalse whenFalse') (pos : Span) :
    Follows l (fun i => bindTernary (room i) pos (test i) (whenTrue i) (whenFalse i))
      (bindTernary limit pos test' whenTrue' whenFalse') := by
  refine (hp.condition hr).attempt.bind fun test => (bothValues_follows hr ht hf).bind fun _ => ?_
  cases test with
  | none => exact .failure
  | some test =>
    exact .after (readThrough_blind _) fun _ => .after (readThrough_blind _) fun _ =>
      .after (upperBound_blind _ _ _) fun _ => .after (coerce_blind _ _) fun _ => .after (coerce_blind _ _) fun _ =>
        .after (addNode_blind _ _ _) fun _ => .still (fold_blind _ _)

theorem bindCast_follows (hr : Room.Follows l room limit) {value target : ι → Part} {value' target' : Part}
    (hv : Part.Follows l value value') (ht : Part.Follows l target target') (intent : Intent) :
    Follows l (fun i => bindCast (room i) (value i) (target i) intent) (bindCast limit value' target' intent) := by
  refine (hv.value hr).attempt.bind fun value => (ht.type hr).bind fun ty => ?_
  cases value with
  | none => exact .failure
  | some value =>
    exact .ite (.bind (.pure _) fun _ => .still (convert_blind _ _ _))
      (.after (readThrough_blind _) fun _ => .still (convert_blind _ _ _))

theorem bindTuple_follows (hr : Room.Follows l room limit) {items : List (ι → Part)} {items' : List Part}
    (hi : List.Forall₂ (Part.Follows l) items items') (pos : Span) :
    Follows l (fun i => bindTuple (room i) pos (items.map (· i))) (bindTuple limit pos items') :=
  (Follows.mapM_parts (fun _ _ h => h.value hr) hi).bind fun _ => .still (packTuple_blind _ _)

theorem bindSizeOf_follows (hr : Room.Follows l room limit) {part : ι → Part} {part' : Part}
    (hp : Part.Follows l part part') (pos : Span) :
    Follows l (fun i => bindSizeOf (room i) pos (part i)) (bindSizeOf limit pos part') := by
  have hnode : ∀ target, Follows l
      (fun _ => do addNode pos (.int 64 false) (.sizeOf target (← ask (·.sizeOf target))))
      (do addNode pos (.int 64 false) (.sizeOf target (← ask (·.sizeOf target)))) := fun _ =>
    .ask_bind fun _ => .still (addNode_blind _ _ _)
  have h := hp.settled hr
  cases hp with
  | mk _ _ =>
    refine h.bind fun operand => ?_
    cases operand with
    | type ty => exact .bind (.pure _) hnode
    | _ => exact (operandNode_follows hr _ _).bind fun _ => .ask_bind fun _ => .bind (.pure _) hnode

theorem bindAtomic_follows (hr : Room.Follows l room limit) {target value : ι → Part} {target' value' : Part}
    (ht : Part.Follows l target target') (hv : Part.Follows l value value') (pos : Span) (op : AtomicOp) :
    Follows l (fun i => bindAtomic (room i) pos op (target i) (value i)) (bindAtomic limit pos op target' value') := by
  have h := ht.value hr
  cases ht with
  | mk _ _ =>
    refine h.attempt.bind fun target => (hv.value hr).attempt.bind fun value => ?_
    cases target with
    | none => exact .failure
    | some target =>
      refine .after (readThrough_blind _) fun target => .ask_bind fun ty => .ask_bind fun pointee => ?_
      cases pointee with
      | none => exact .ask_bind fun _ => .fail _ _ _
      | some pointee =>
        cases value with
        | none => exact .failure
        | some value =>
          exact .after (readThrough_blind _) fun _ => .after (coerce_blind _ _) fun _ => .still (addNode_blind _ _ _)

theorem bindAwait_follows (hr : Room.Follows l room limit) {part : ι → Part} {part' : Part}
    (hp : Part.Follows l part part') (pos : Span) :
    Follows l (fun i => bindAwait (room i) pos (part i)) (bindAwait limit pos part') :=
  .read_bind fun _ => .ask_bind fun _ => .ite (.fail _ _ _) <| (hp.value hr).bind fun _ =>
    .after (readThrough_blind _) fun _ => .ask_bind fun _ => .still (addNode_blind _ _ _)

theorem bindFields_follows (hr : Room.Follows l room limit) (owner : String) (fields : List SymbolId)
    {args : List (ι → ArgPart)} {args' : List ArgPart} (ha : List.Forall₂ (ArgPart.Follows l) args args') :
    ∀ (next : Nat) (assigned : List (SymbolId × NodeId)) (ok : Bool),
      Follows l (fun i => bindFields (room i) owner fields (args.map (· i)) next assigned ok)
        (bindFields limit owner fields args' next assigned ok) := by
  induction ha with
  | nil => exact fun _ _ _ => .pure _
  | cons h _ ih =>
    intro next assigned ok
    obtain ⟨pos, name, hv⟩ := h
    have ih := ih (if name.isSome then next else next + 1)
    simp +instances only [List.map_cons, bindFields]
    refine .ask_bind fun given => ?_
    cases given with
    | none => exact .after (report_blind _) fun _ => ih _ _
    | some field =>
      refine .ite (.ask_bind fun _ => .after (report_blind _) fun _ => ih _ _) (.ask_bind fun ty => ?_)
      refine .bind (.attempt ?_) fun value => ?_
      · exact (hv.value hr).bind fun _ => .after (readThrough_blind _) fun _ => .still (coerce_blind _ _)
      · cases value <;> exact ih _ _

theorem bindInitializer_follows (hr : Room.Follows l room limit) {type : ι → Part} {type' : Part}
    (ht : Part.Follows l type type') {args : List (ι → ArgPart)} {args' : List ArgPart}
    (ha : List.Forall₂ (ArgPart.Follows l) args args') (pos : Span) :
    Follows l (fun i => bindInitializer (room i) pos (type i) (args.map (· i)))
      (bindInitializer limit pos type' args') := by
  refine (ht.type hr).bind fun target => .ask_bind fun owner => ?_
  cases owner with
  | none => exact .fail _ _ _
  | some owner =>
    refine .ask_bind fun fields => .ask_bind fun name => (bindFields_follows hr _ _ ha _ _ _).bind fun _ => ?_
    exact .ite .failure (.ask_bind fun _ => .still (addNode_blind _ _ _))

theorem specialMethod_follows (hr : Room.Follows l room limit) (ty : Ty) (name : String) (args : List CallArg)
    (pos : Span) :
    Follows l (fun i => specialMethod (room i) ty name args pos) (specialMethod limit ty name args pos) := by
  refine .ask_bind fun found => ?_
  cases found with
  | none => exact .pure _
  | some symbol =>
    exact .after (selectTemplate_blind _ _ _ _) fun _ => (instantiateFunction_follows hr _ _ _).bind fun _ => .pure _

theorem bindNew_follows (hr : Room.Follows l room limit) {type : ι → Part} {type' : Part}
    (ht : Part.Follows l type type') {count : Option (ι → Part)} {count' : Option Part}
    (hc : Option.Rel (Part.Follows l) count count') {args : List (ι → ArgPart)} {args' : List ArgPart}
    (ha : List.Forall₂ (ArgPart.Follows l) args args') (pos : Span) :
    Follows l (fun i => bindNew (room i) pos (type i) (count.map (· i)) (args.map (· i)))
      (bindNew limit pos type' count' args') := by
  refine (ht.type hr).bind fun target => .bind (.mapOption_part (fun _ _ h => ?_) hc) fun _ =>
    (bindArguments_follows hr ha).bind fun _ => (specialMethod_follows hr _ _ _ _).bind fun _ =>
      .ite (.fail _ _ _) (.still (addNode_blind _ _ _))
  exact (h.value hr).bind fun _ => .after (readThrough_blind _) fun _ => .ask_bind fun _ => .still (coerce_blind _ _)

theorem bindDelete_follows (hr : Room.Follows l room limit) {part : ι → Part} {part' : Part}
    (hp : Part.Follows l part part') (pos : Span) :
    Follows l (fun i => bindDelete (room i) pos (part i)) (bindDelete limit pos part') := by
  have h := hp.value hr
  cases hp with
  | mk _ _ =>
    refine h.bind fun _ => .after (readThrough_blind _) fun _ => .ask_bind fun ty => ?_
    cases ty with
    | pointer pointee => exact (specialMethod_follows hr _ _ _ _).bind fun _ => .still (addNode_blind _ _ _)
    | _ => exact .ask_bind fun _ => .fail _ _ _

theorem bindLambdaParams_follows {level : ι → Level} {level' : Level} (hl : Level.Follows l level level')
    (params : List Param) : Follows l (fun i => bindLambdaParams (level i) params) (bindLambdaParams level' params) := by
  refine .bind (.mapM (fun param => .attempt ?_) params) fun bound => ?_
  · cases param.type with
    | none => exact .fail _ _ _
    | some tree => exact .ite (.fail _ _ _) ((hl.type tree).bind fun _ => .pure _)
  · cases bound.mapM id with
    | none => exact .failure
    | some params => exact .pure _

theorem bindLambda_follows (hr : Room.Follows l room limit) (pos : Span) (source : FunctionDef) :
    Follows l (fun i => bindLambda (room i) pos source) (bindLambda limit pos source) := by
  refine .scope_bind fun scope => .after (freshName_blind _) fun _ => .after (addScope_blind _ _) fun _ =>
    .after (addSymbol_blind _) fun _ => .after (setOwner_blind _ _) fun _ => .modifiers_bind fun _ =>
      .after (useName_blind _) fun _ => .after (declareMethod_blind _ _ _ _ _ _ _) fun _ => ?_
  exact (hr.inScope fun _ _ hl => bindLambdaParams_follows hl _).bind fun _ =>
    (bindMethod_follows hr _ _ _ _ _ _).bind fun _ => .after (capturedValues_blind _ _) fun _ =>
      .still (addNode_blind _ _ _)

/-! ## Statements -/

theorem definedValue_follows (hr : Room.Follows l room limit) {type value : Option (ι → Part)}
    {type' value' : Option Part} (ht : Option.Rel (Part.Follows l) type type')
    (hv : Option.Rel (Part.Follows l) value value') (pos : Span) (name : String) :
    Follows l (fun i => definedValue (room i) pos name (type.map (· i)) (value.map (· i)))
      (definedValue limit pos name type' value') := by
  refine .bind (.mapOption_part (fun _ _ h => h.type hr) ht) fun declared =>
    .bind (.mapOption_part (fun _ _ h => h.value hr) hv) fun init => ?_
  cases declared <;> cases init
  · exact .fail _ _ _
  · exact .after (readThrough_blind _) fun _ => .ask_bind fun _ => .ite (.fail _ _ _) <| .ask_bind fun _ =>
      .after (coerce_blind _ _) fun _ => .pure _
  · exact .pure _
  · exact .after (coerce_blind _ _) fun _ => .pure _

theorem bindDefinition_follows (hr : Room.Follows l room limit) {type value : Option (ι → Part)}
    {type' value' : Option Part} (ht : Option.Rel (Part.Follows l) type type')
    (hv : Option.Rel (Part.Follows l) value value') (pos : Span) (name : String) (own : Modifiers) :
    Follows l (fun i => bindDefinition (room i) pos name (type.map (· i)) (value.map (· i)) own)
      (bindDefinition limit pos name type' value' own) := by
  refine .modifiers_bind fun modifiers => (definedValue_follows hr ht hv _ _).bind fun defined =>
    .ite (.still (defineConstant_blind _ _ _)) (.after (declareVariable_blind _ _ _ _) fun _ => .ask_bind fun field => ?_)
  obtain ⟨ty, init⟩ := defined
  cases field with
  | none => exact .still (addNode_blind _ _ _)
  | some field =>
    cases init with
    | none => exact .failure
    | some init => exact .after (reference_blind _ _) fun _ => .still (addNode_blind _ _ _)

theorem bindBlock_follows (hr : Room.Follows l room limit) (pos : Span) (label : Option String) (body : List Syntax) :
    Follows l (fun i => bindBlock (room i) pos label body) (bindBlock limit pos label body) :=
  .scope_bind fun _ => .after (addScope_blind _ _) fun _ => hr.inScope fun _ _ h =>
    .after (.mapOption (fun _ => declareLabel_blind _ _ _) _) fun _ => (h.body body).bind fun _ =>
      .still (addNode_blind _ _ _)

theorem bindBranch_follows (hr : Room.Follows l room limit) (tree : Syntax) :
    Follows l (fun i => bindBranch (room i) tree) (bindBranch limit tree) := by
  unfold bindBranch
  cases tree.form <;> exact bindBlock_follows hr _ _ _

theorem bindIf_follows (hr : Room.Follows l room limit) {test : ι → Part} {test' : Part}
    (hp : Part.Follows l test test') (pos : Span) (whenTrue : Syntax) (whenFalse : Option Syntax) :
    Follows l (fun i => bindIf (room i) pos (test i) whenTrue whenFalse) (bindIf limit pos test' whenTrue whenFalse) := by
  refine (hp.condition hr).attempt.bind fun test => (bindBranch_follows hr _).attempt.bind fun whenTrue =>
    (Follows.mapOption (fun _ => (bindBranch_follows hr _).attempt) _).bind fun whenFalse => ?_
  cases test <;> cases whenTrue <;> cases whenFalse.mapM id
  case some.some.some => exact .still (addNode_blind _ _ _)
  all_goals exact .failure

theorem bindLoop_follows (hr : Room.Follows l room limit) (pos : Span) (label : Option String)
    (init test step : Option Syntax) (body : Syntax) :
    Follows l (fun i => bindLoop (room i) pos label init test step body)
      (bindLoop limit pos label init test step body) := by
  refine .scope_bind fun _ => .after (addScope_blind _ _) fun _ => hr.inScope fun _ _ h =>
    .after (declareLabel_blind _ _ _) fun label => ?_
  refine (Follows.mapOption (fun tree => (h.expression tree).attempt) _).bind fun init =>
    (Follows.mapOption (fun tree => (h.condition tree).attempt) _).bind fun test =>
      (Follows.mapOption (fun tree => (h.expression tree).attempt) _).bind fun step =>
        ((h.branch body).withReader _).attempt.bind fun body => ?_
  cases test.mapM id <;> cases body
  case some.some => exact .still (addNode_blind _ _ _)
  all_goals exact .failure

theorem returnOf_blind (pos : Span) (function : SymbolId) (ret : Option Ty) (value : NodeId) : Blind (do
    let ty ← match ret with
      | some ty => pure ty
      | none => do
        let ty ← ask (·.inferredType value)
        setReturnType function ty
        pure ty
    addStatement pos (.returns (some (← coerce value ty)))) := by
  cases ret with
  | none => exact .ask_bind fun _ => (setReturnType_blind _ _).bind fun _ => .bind (.pure _) fun _ =>
      (coerce_blind _ _).bind fun _ => addNode_blind _ _ _
  | some ty => exact .bind (.pure _) fun _ => (coerce_blind _ _).bind fun _ => addNode_blind _ _ _

theorem returnValue_follows (hr : Room.Follows l room limit) {part : ι → Part} {part' : Part}
    (hp : Part.Follows l part part') (pos : Span) (function : SymbolId) (ret : Option Ty) :
    Follows l (fun i => returnValue (room i) pos function ret (part i)) (returnValue limit pos function ret part') := by
  have hrest := returnOf_blind pos function ret
  exact (hp.value hr).bind fun _ =>
    .ite (.bind (.pure _) fun _ => .still (hrest _)) (.after (readThrough_blind _) fun _ => .still (hrest _))

theorem bindReturn_follows (hr : Room.Follows l room limit) {value : Option (ι → Part)} {value' : Option Part}
    (hv : Option.Rel (Part.Follows l) value value') (pos : Span) :
    Follows l (fun i => bindReturn (room i) pos (value.map (· i))) (bindReturn limit pos value') := by
  refine .read_bind fun c => ?_
  cases c.function with
  | none => exact .fail _ _ _
  | some function =>
    refine .ask_bind fun own => ?_
    cases own with
    | none => exact .failure
    | some own =>
      dsimp only
      cases hv with
      | none => cases own.role <;> first | exact .still (addNode_blind _ _ _) | exact .still (returnNothing_blind _ _ _)
      | some hp => cases own.role <;> first | exact .fail _ _ _ | exact returnValue_follows hr hp _ _ _

theorem bindYield_follows (hr : Room.Follows l room limit) {part : ι → Part} {part' : Part}
    (hp : Part.Follows l part part') (pos : Span) :
    Follows l (fun i => bindYield (room i) pos (part i)) (bindYield limit pos part') :=
  .after (requireGenerator_blind _) fun _ => (hp.value hr).bind fun _ => .after (readThrough_blind _) fun _ =>
    .ask_bind fun _ => .after (fixElement_blind _ _ _) fun _ => .after (coerce_blind _ _) fun _ =>
      .still (addNode_blind _ _ _)

theorem bindYieldFrom_follows (hr : Room.Follows l room limit) {part : ι → Part} {part' : Part}
    (hp : Part.Follows l part part') (pos : Span) :
    Follows l (fun i => bindYieldFrom (room i) pos (part i)) (bindYieldFrom limit pos part') :=
  .after (requireGenerator_blind _) fun _ => (hp.value hr).bind fun _ => .after (readThrough_blind _) fun _ =>
    .after (iteration_blind _ _) fun _ => .after (fixElement_blind _ _ _) fun _ =>
      .ite (.ask_bind fun _ => .ask_bind fun _ => .fail _ _ _) (.still (addNode_blind _ _ _))

theorem bindForIn_follows (hr : Room.Follows l room limit) (pos : Span) (label : Option String) (name : String)
    (iterable body : Syntax) :
    Follows l (fun i => bindForIn (room i) pos label name iterable body)
      (bindForIn limit pos label name iterable body) :=
  .scope_bind fun _ => .after (addScope_blind _ _) fun _ => hr.inScope fun _ _ h => (h.value iterable).bind fun _ =>
    .after (readThrough_blind _) fun _ => .after (iteration_blind _ _) fun _ => .after (freshName_blind _) fun _ =>
      .ask_bind fun _ => .after (declareVariable_blind _ _ _ _) fun _ => .after (declareLabel_blind _ _ _) fun _ =>
        .after (declareVariable_blind _ _ _ _) fun _ => ((h.branch body).withReader _).bind fun _ =>
          .still (addNode_blind _ _ _)

theorem bindStatements_follows {statements : List (ι → StatementPart)} {statements' : List StatementPart}
    (hs : List.Forall₂ (StatementPart.Follows l) statements statements') : ∀ reach : Reach,
    Follows l (fun i => bindStatements (statements.map (· i)) reach) (bindStatements statements' reach) := by
  induction hs with
  | nil => exact fun _ => .pure _
  | cons h _ ih =>
    intro reach
    obtain ⟨modifiers, tree, h⟩ := h
    simp only [List.map_cons, bindStatements]
    exact .after (reportUnreachable_blind _ _) fun _ => (h.withReader _).attempt.bind fun _ => (ih _).bind fun _ =>
      .pure _

theorem bindModified_follows {statements : List (ι → StatementPart)} {statements' : List StatementPart}
    (hs : List.Forall₂ (StatementPart.Follows l) statements statements') (pos : Span) :
    Follows l (fun i => bindModified pos (statements.map (· i))) (bindModified pos statements') :=
  (bindStatements_follows hs _).bind fun _ => .scope_bind fun _ => .still (addNode_blind _ _ _)

theorem bindDefer_follows (hr : Room.Follows l room limit) {part : ι → Part} {part' : Part}
    (hp : Part.Follows l part part') (pos : Span) :
    Follows l (fun i => bindDefer (room i) pos (part i)) (bindDefer limit pos part') :=
  (hp.expression hr).bind fun _ => .still (addNode_blind _ _ _)

end BindM

end Bindery
