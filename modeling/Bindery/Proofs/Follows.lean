import Bindery.Proofs.Blind
import Mathlib.Order.Filter.Basic
/-!
# Rules that settle

A family of rules follows a rule when from every state almost all of its members run as the rule does, and the rule does
not see the cap of the log. What is made of parts that follow, follows: this is proved once for each rule that binds
syntax or enters a scope.
-/
namespace Bindery

variable {ι α β : Type} {l : Filter ι}

namespace BindM

/-- From every state almost all rules of a family run as a rule does. -/
structure Follows (l : Filter ι) (x : ι → BindM α) (y : BindM α) : Prop where
  blind : y.Blind
  settles : ∀ c s, ∀ᶠ i in l, (x i).runAt c s = y.runAt c s

namespace Follows

/-- A rule that depends on nothing follows itself. -/
theorem still {x : BindM α} (h : x.Blind) : Follows l (fun _ => x) x := ⟨h, fun _ _ => .of_forall fun _ => rfl⟩

theorem bind {x : ι → BindM α} {y : BindM α} {f : ι → α → BindM β} {g : α → BindM β} (hx : Follows l x y)
    (hf : ∀ a, Follows l (fun i => f i a) (g a)) : Follows l (fun i => x i >>= f i) (y >>= g) where
  blind := hx.blind.bind fun a => (hf a).blind
  settles c s := by
    rcases hy : y.runAt c s with ⟨_ | a, t⟩
    · filter_upwards [hx.settles c s] with i hi
      rw [runAt_bind, runAt_bind, hi, hy]
    · filter_upwards [hx.settles c s, (hf a).settles c t] with i hi hfi
      rw [runAt_bind, runAt_bind, hi, hy]
      exact hfi

/-- A rule that depends on nothing, before the rest. -/
theorem after {x : BindM α} {f : ι → α → BindM β} {g : α → BindM β} (hx : x.Blind)
    (hf : ∀ a, Follows l (fun i => f i a) (g a)) : Follows l (fun i => x >>= f i) (x >>= g) := (still hx).bind hf

theorem ask_bind {question : Program → α} {f : ι → α → BindM β} {g : α → BindM β}
    (hf : ∀ a, Follows l (fun i => f i a) (g a)) : Follows l (fun i => ask question >>= f i) (ask question >>= g) :=
  .after (.ask _) hf

theorem read_bind {f : ι → Context → BindM β} {g : Context → BindM β} (hf : ∀ c, Follows l (fun i => f i c) (g c)) :
    Follows l (fun i => read >>= f i) (read >>= g) := .after .read hf

theorem scope_bind {f : ι → ScopeId → BindM β} {g : ScopeId → BindM β} (hf : ∀ c, Follows l (fun i => f i c) (g c)) :
    Follows l (fun i => currentScope >>= f i) (currentScope >>= g) := .after (.read_bind fun _ => .pure _) hf

theorem modifiers_bind {own : Modifiers} {f : ι → Modifiers → BindM β} {g : Modifiers → BindM β}
    (hf : ∀ c, Follows l (fun i => f i c) (g c)) :
    Follows l (fun i => inheritModifiers own >>= f i) (inheritModifiers own >>= g) :=
  .after (.read_bind fun _ => .pure _) hf

theorem pure (a : α) : Follows l (fun _ => Pure.pure a) (Pure.pure a) := still (.pure a)

theorem failure : Follows l (fun _ => Alternative.failure) (Alternative.failure : BindM α) := still .failure

theorem fail (pos : Span) (message : Message) (args : List String) :
    Follows l (fun _ => BindM.fail pos message args) (BindM.fail pos message args : BindM α) :=
  still (fail_blind _ _ _)

theorem map {x : ι → BindM α} {y : BindM α} (h : Follows l x y) (f : α → β) :
    Follows l (fun i => f <$> x i) (f <$> y) := by
  simp only [← bind_pure_comp]
  exact h.bind fun _ => .pure _

theorem discard {x : ι → BindM α} {y : BindM α} (h : Follows l x y) :
    Follows l (fun i => Functor.discard (x i)) (Functor.discard y) := h.map _

theorem attempt {x : ι → BindM α} {y : BindM α} (h : Follows l x y) :
    Follows l (fun i => BindM.attempt (x i)) (BindM.attempt y) where
  blind := h.blind.attempt
  settles c s := (h.settles c s).mono fun i hi => by rw [runAt_attempt, runAt_attempt, hi]

theorem withReader {x : ι → BindM α} {y : BindM α} (h : Follows l x y) (f : Context → Context) :
    Follows l (fun i => MonadWithReader.withReader f (x i)) (MonadWithReader.withReader f y) where
  blind := h.blind.withReader f
  settles c s := h.settles (f c) s

theorem ite {p : Prop} [Decidable p] {x x' : ι → BindM α} {y y' : BindM α} (h : Follows l x y) (h' : Follows l x' y') :
    Follows l (fun i => if p then x i else x' i) (if p then y else y') := by
  split
  · exact h
  · exact h'

theorem mapM {rule : ι → α → BindM β} {limit : α → BindM β} (h : ∀ a, Follows l (fun i => rule i a) (limit a)) :
    ∀ items : List α, Follows l (fun i => items.mapM (rule i)) (items.mapM limit)
  | [] => by
    simp only [List.mapM_nil]
    exact .pure _
  | item :: items => by
    simp only [List.mapM_cons]
    exact (h item).bind fun _ => (mapM h items).bind fun _ => .pure _

theorem forM {rule : ι → α → BindM PUnit} {limit : α → BindM PUnit}
    (h : ∀ a, Follows l (fun i => rule i a) (limit a)) :
    ∀ items : List α, Follows l (fun i => items.forM (rule i)) (items.forM limit)
  | [] => .pure _
  | item :: items => (h item).bind fun _ => forM h items

theorem mapOption {rule : ι → α → BindM β} {limit : α → BindM β} (h : ∀ a, Follows l (fun i => rule i a) (limit a)) :
    ∀ item : Option α, Follows l (fun i => item.mapM (rule i)) (item.mapM limit)
  | none => .pure _
  | some a => (h a).map _

end Follows

end BindM

open BindM (Follows)

/-! ## Parts, levels and rooms -/

/-- A family of levels follows a level rule by rule. -/
structure Level.Follows (l : Filter ι) (x : ι → Level) (y : Level) : Prop where
  expression : ∀ tree, BindM.Follows l (fun i => (x i).expression tree) (y.expression tree)
  type : ∀ tree, BindM.Follows l (fun i => (x i).type tree) (y.type tree)
  argument : ∀ tree, BindM.Follows l (fun i => (x i).argument tree) (y.argument tree)
  branch : ∀ tree, BindM.Follows l (fun i => (x i).branch tree) (y.branch tree)
  body : ∀ body, BindM.Follows l (fun i => (x i).body body) (y.body body)
  members : ∀ owner body, BindM.Follows l (fun i => (x i).members owner body) (y.members owner body)

/-- The rooms of a family end at the same depth, with levels that follow. -/
inductive Room.Follows (l : Filter ι) : (ι → Room) → Room → Prop
  | ground (limit : Nat) (entryName : String) :
    Follows l (fun _ => ⟨limit, entryName, fun _ => none⟩) ⟨limit, entryName, fun _ => none⟩
  | above (limit : Nat) (entryName : String) {x : ι → Level} {y : Level} (h : Level.Follows l x y) :
    Follows l (fun i => ⟨limit, entryName, fun _ => some (x i)⟩) ⟨limit, entryName, fun _ => some y⟩

inductive Part.Follows (l : Filter ι) : (ι → Part) → Part → Prop
  | mk (pos : Span) {x : ι → BindM Operand} {y : BindM Operand} (h : BindM.Follows l x y) :
    Follows l (fun i => ⟨pos, x i⟩) ⟨pos, y⟩

inductive ArgPart.Follows (l : Filter ι) : (ι → ArgPart) → ArgPart → Prop
  | mk (pos : Span) (name : Option String) {x : ι → Part} {y : Part} (h : Part.Follows l x y) :
    Follows l (fun i => ⟨pos, name, x i⟩) ⟨pos, name, y⟩

inductive StatementPart.Follows (l : Filter ι) : (ι → StatementPart) → StatementPart → Prop
  | mk (modifiers : Modifiers) (tree : Syntax) {x : ι → BindM NodeId} {y : BindM NodeId} (h : BindM.Follows l x y) :
    Follows l (fun i => ⟨modifiers, tree, x i⟩) ⟨modifiers, tree, y⟩

namespace Room.Follows

variable {room : ι → Room} {limit : Room}

theorem enter (hr : Room.Follows l room limit) {context : Context} {pos : Span} {rule : ι → Level → BindM α}
    {rule' : Level → BindM α}
    (h : ∀ (x : ι → Level) (y : Level), Level.Follows l x y → BindM.Follows l (fun i => rule i (x i)) (rule' y)) :
    BindM.Follows l (fun i => (room i).enter context pos (rule i)) (limit.enter context pos rule') := by
  cases hr with
  | ground => exact .fail _ _ _
  | above _ _ hl => exact (h _ _ hl).withReader _

theorem inScope (hr : Room.Follows l room limit) {scope : ScopeId} {pos : Span} {rule : ι → Level → BindM α}
    {rule' : Level → BindM α}
    (h : ∀ (x : ι → Level) (y : Level), Level.Follows l x y → BindM.Follows l (fun i => rule i (x i)) (rule' y)) :
    BindM.Follows l (fun i => (room i).inScope scope pos (rule i)) (limit.inScope scope pos rule') :=
  .read_bind fun _ => hr.enter h

theorem inContext (hr : Room.Follows l room limit) {scope : ScopeId} {function : Option SymbolId}
    {modifiers : Modifiers} {pos : Span} {rule : ι → Level → BindM α} {rule' : Level → BindM α}
    (h : ∀ (x : ι → Level) (y : Level), Level.Follows l x y → BindM.Follows l (fun i => rule i (x i)) (rule' y)) :
    BindM.Follows l (fun i => (room i).inContext scope function modifiers pos (rule i))
      (limit.inContext scope function modifiers pos rule') := hr.enter h

end Room.Follows

namespace Level.Follows

variable {level : ι → Level} {limit : Level}

theorem value (h : Level.Follows l level limit) (tree : Syntax) :
    BindM.Follows l (fun i => (level i).value tree) (limit.value tree) :=
  (h.expression tree).bind fun _ => .still (BindM.requireValue_blind _ _)

theorem condition (h : Level.Follows l level limit) (tree : Syntax) :
    BindM.Follows l (fun i => (level i).condition tree) (limit.condition tree) :=
  (h.value tree).bind fun _ => .still (BindM.asCondition_blind _)

end Level.Follows

namespace BindM

variable {room : ι → Room} {limit : Room} {level : ι → Level} {level' : Level}

/-! ## Modules -/

theorem bindModuleBody_follows (hr : Room.Follows l room limit) (module : SymbolId) (source : ModuleDef)
    (scope : ScopeId) :
    Follows l (fun i => bindModuleBody (room i) module source scope) (bindModuleBody limit module source scope) := by
  have hname : ∀ i, (room i).entryName = limit.entryName := by cases hr <;> exact fun _ => rfl
  unfold bindModuleBody
  simp only [hname]
  refine .after (setStatus_blind _ _) fun _ => .after (addSymbol_blind _) fun _ => .after (modifyProgram_blind _) fun _ => ?_
  exact (hr.inContext fun _ _ h => h.body _).attempt.bind fun _ => .after (modifyProgram_blind _) fun _ =>
    .still (setStatus_blind _ _)

theorem bindModule_follows (hr : Room.Follows l room limit) (module : SymbolId) :
    Follows l (fun i => bindModule (room i) module) (bindModule limit module) := by
  refine .ask_bind fun own => .ask_bind fun scope => ?_
  cases own <;> cases scope
  case some.some => exact .ite (bindModuleBody_follows hr _ _ _) (.pure _)
  all_goals exact .pure _

theorem moduleScope_follows (hr : Room.Follows l room limit) (module : SymbolId) :
    Follows l (fun i => moduleScope (room i) module) (moduleScope limit module) := by
  refine .ask_bind fun own => ?_
  cases own with
  | none => exact .failure
  | some own =>
    refine (bindModule_follows hr module).bind fun _ => .ask_bind fun scope => ?_
    cases scope with
    | none => exact .failure
    | some scope => exact .pure _

/-! ## Instances -/

theorem bindSingle_follows (hl : Level.Follows l level level') (scope : ScopeId) (isStruct : Bool) (param : Param)
    (slot : List CallArg) :
    Follows l (fun i => bindSingle (level i) scope isStruct param slot) (bindSingle level' scope isStruct param slot) := by
  unfold bindSingle
  -- the argument is given, or it is the default; what is made of it is the same
  rcases slot with _ | ⟨arg, rest⟩
  on_goal 1 => rcases param.default with _ | tree
  on_goal 1 => refine .bind .failure fun arg => ?_
  on_goal 2 => refine (hl.argument tree).bind fun _ => .bind (.pure _) fun arg => ?_
  on_goal 3 => refine .bind (.pure _) fun arg => ?_
  all_goals
    refine (Follows.mapOption hl.type _).bind fun declared => ?_
    cases arg.value <;> cases declared
    · exact .ite (.still (bindConstant_blind _ _ _ _)) (.still (bindInferred_blind _ _ _))
    · exact .ite (.still (bindConstant_blind _ _ _ _)) (.after (coerce_blind _ _) fun _ => .pure _)
    · exact .ite (.still (bindConstant_blind _ _ _ _)) (.after (declare_blind _ _).discard fun _ => .pure _)
    · exact .after (requireArgument_blind _).discard fun _ => .failure

theorem bindParam_follows (hl : Level.Follows l level level') (scope : ScopeId) (isStruct : Bool) (param : Param)
    (slot : List CallArg) :
    Follows l (fun i => bindParam (level i) scope isStruct param slot) (bindParam level' scope isStruct param slot) :=
  .ite (.still (bindVararg_blind _ _)) (bindSingle_follows hl _ _ _ _)

theorem bindParams_follows (hr : Room.Follows l room limit) (template : SymbolId) (args : List CallArg) (pos : Span)
    (kind : ScopeKind) :
    Follows l (fun i => bindParams (room i) template args pos kind) (bindParams limit template args pos kind) := by
  refine .ask_bind fun own => ?_
  cases own with
  | none => exact .failure
  | some own =>
    dsimp only
    rcases Param.assign own.source.params args with fault | slots
    on_goal 1 => refine .ask_bind fun _ => .after (reportArguments_blind _ _ _ _) fun slots => ?_
    on_goal 2 => refine .bind (.pure _) fun slots => ?_
    all_goals
      refine .after (addScope_blind _ _) fun scope => .ask_bind fun _ => hr.inContext fun _ _ hl => ?_
      refine (Follows.mapM (fun _ => (bindParam_follows hl _ _ _ _).attempt) _).bind fun bound => ?_
      cases bound.mapM id with
      | none => exact .failure
      | some params => exact .pure _

theorem functionStatements_follows {x : ι → Level} {y : Level} (hl : Level.Follows l x y) (function : SymbolId)
    (source : FunctionDef) :
    Follows l
      (fun i => match source.body with
        | some body => (x i).body body
        | none => do
          error source.pos .bodyRequired [← symbolName function]
          return [])
      (match source.body with
        | some body => y.body body
        | none => do
          error source.pos .bodyRequired [← symbolName function]
          return []) := by
  cases source.body with
  | none => exact .ask_bind fun _ => .after (report_blind _) fun _ => .pure _
  | some body => exact hl.body body

theorem bindFunctionBody_follows (hr : Room.Follows l room limit) (function : SymbolId) (source : FunctionDef)
    (scope : ScopeId) (modifiers : Modifiers) :
    Follows l (fun i => bindFunctionBody (room i) function source scope modifiers)
      (bindFunctionBody limit function source scope modifiers) := by
  refine .after errorCount_blind fun _ => .bind (.attempt (hr.inContext fun x y hl => ?_)) fun _ =>
    .after errorCount_blind fun _ => .still (modifyProgram_blind _)
  have hbody := functionStatements_follows hl function source
  cases source.returnType with
  | none => exact hbody
  | some tree => exact (hl.type tree).attempt.bind fun _ => .after (setReturnType_blind _ _) fun _ => hbody

theorem functionInstance_follows (hr : Room.Follows l room limit) (template : SymbolId) (bound : BoundParams) :
    Follows l (fun i => functionInstance (room i) template bound) (functionInstance limit template bound) := by
  refine .ask_bind fun known => ?_
  cases known with
  | some made => exact .pure _
  | none =>
    refine .ask_bind fun own => ?_
    cases own with
    | none => exact .failure
    | some own =>
      dsimp only
      cases own.source with
      | struct => exact .failure
      | function source =>
        exact .after (addInstance_blind _ _ _ _ _) fun _ => .after (declareParameters_blind _ _ _ _) fun _ =>
          .after (recordInstance_blind _ _ _) fun _ => (bindFunctionBody_follows hr _ _ _ _).bind fun _ => .pure _

theorem instantiateFunction_follows (hr : Room.Follows l room limit) (template : SymbolId) (args : List CallArg)
    (pos : Span) :
    Follows l (fun i => instantiateFunction (room i) template args pos) (instantiateFunction limit template args pos) :=
  (bindParams_follows hr _ _ _ _).bind fun _ => (functionInstance_follows hr _ _).bind fun _ => .pure _

theorem instantiateStruct_follows (hr : Room.Follows l room limit) (template : SymbolId) (args : List CallArg)
    (pos : Span) :
    Follows l (fun i => instantiateStruct (room i) template args pos) (instantiateStruct limit template args pos) := by
  refine (bindParams_follows hr _ _ _ _).bind fun bound => .ask_bind fun known => ?_
  cases known with
  | some made => exact .pure _
  | none =>
    refine .ask_bind fun own => ?_
    cases own with
    | none => exact .failure
    | some own =>
      dsimp only
      cases own.source with
      | function => exact .failure
      | struct source =>
        refine .after (addInstance_blind _ _ _ _ _) fun _ => .after (recordInstance_blind _ _ _) fun _ => ?_
        exact (hr.inContext fun _ _ h => h.members _ _).attempt.discard.bind fun _ => .pure _

theorem bindMethod_follows (hr : Room.Follows l room limit) (owner method : SymbolId) (scope : ScopeId)
    (params : List ValueParam) (source : FunctionDef) (modifiers : Modifiers) :
    Follows l (fun i => bindMethod (room i) owner method scope params source modifiers)
      (bindMethod limit owner method scope params source modifiers) :=
  .after (declareParameters_blind _ _ _ _) fun _ => bindFunctionBody_follows hr _ _ _ _

theorem bindElement_follows (hr : Room.Follows l room limit) (state step : SymbolId) (scope : ScopeId)
    (source : FunctionDef) (modifiers : Modifiers) :
    Follows l (fun i => bindElement (room i) state step scope source modifiers)
      (bindElement limit state step scope source modifiers) := by
  unfold bindElement
  cases source.returnType with
  | none => exact .pure _
  | some tree =>
    refine (hr.inContext fun _ _ h => h.type tree).attempt.bind fun element => ?_
    cases element with
    | none => exact .pure _
    | some element => exact .still (fixElement_blind _ _ _).discard

theorem instantiateGenerator_follows (hr : Room.Follows l room limit) (template : SymbolId) (bound : BoundParams) :
    Follows l (fun i => instantiateGenerator (room i) template bound) (instantiateGenerator limit template bound) := by
  refine .ask_bind fun own => ?_
  cases own with
  | none => exact .failure
  | some own =>
    dsimp only
    cases own.source with
    | struct => exact .failure
    | function source =>
      refine .after (addInstance_blind _ _ _ _ _) fun _ => .after (recordInstance_blind _ _ _) fun _ => ?_
      refine .after (.forM (fun _ => (declareField_blind _ _ _ _ _ _).attempt.discard) _) fun _ => ?_
      exact .after (declareMethod_blind _ _ _ _ _ _ _) fun _ => (bindElement_follows hr _ _ _ _ _).bind fun _ =>
        (bindMethod_follows hr _ _ _ _ _ _).bind fun _ => .after (setReturnType_blind _ _) fun _ => .pure _

theorem generatorInstance_follows (hr : Room.Follows l room limit) (template : SymbolId) (bound : BoundParams) :
    Follows l (fun i => generatorInstance (room i) template bound) (generatorInstance limit template bound) := by
  refine .ask_bind fun known => ?_
  cases known with
  | none => exact instantiateGenerator_follows hr _ _
  | some state => exact .pure _

theorem callGenerator_follows (hr : Room.Follows l room limit) (template : SymbolId) (args : List CallArg)
    (pos : Span) : Follows l (fun i => callGenerator (room i) template args pos) (callGenerator limit template args pos) := by
  refine (bindParams_follows hr _ _ _ _).bind fun _ => (generatorInstance_follows hr _ _).bind fun _ =>
    .ask_bind fun own => ?_
  cases own with
  | none => exact .failure
  | some own => exact .after (capturedValues_blind _ _) fun _ => .still (addNode_blind _ _ _)

end BindM

end Bindery
