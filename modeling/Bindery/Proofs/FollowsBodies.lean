import Bindery.Proofs.FollowsForms
/-!
# Declarations that settle

The rules of declarations, and the passes over the statements of a scope.
-/
namespace Bindery.BindM

variable {ι : Type} {l : Filter ι} {room : ι → Room} {limit : Room}

/-! ## Enums and foreign functions -/

theorem memberValue_follows (hr : Room.Follows l room limit) (scope : ScopeId) (pos : Span) (tree : Syntax) :
    Follows l (fun i => memberValue (room i) scope pos tree) (memberValue limit scope pos tree) := by
  refine (hr.inScope fun _ _ h => h.value tree).attempt.bind fun node => .ask_bind fun value => ?_
  cases value with
  | none => exact .fail _ _ _
  | some value => exact .pure _

theorem bindMembers_follows (hr : Room.Follows l room limit) (scope : ScopeId) (ty : Ty) (bits : Nat) (signed : Bool) :
    ∀ (members : List EnumMember) (next : Int),
      Follows l (fun i => bindMembers (room i) scope ty bits signed members next)
        (bindMembers limit scope ty bits signed members next)
  | [], _ => .pure _
  | member :: rest, next => by
    have ih := bindMembers_follows hr scope ty bits signed rest
    simp only [bindMembers]
    -- the value is given, or it is the next one
    rcases member.value with _ | tree
    on_goal 1 => refine .bind (.pure _) fun given => ?_
    on_goal 2 => refine (memberValue_follows hr _ _ _).attempt.bind fun given => ?_
    all_goals
      cases given with
      | none => exact ih _
      | some given =>
        exact .after (addNode_blind _ _ _) fun _ => .after (declare_blind _ _).attempt fun _ => (ih _).bind fun _ => .pure _

theorem bindEnum_follows (hr : Room.Follows l room limit) {base : Option (ι → Part)} {base' : Option Part}
    (hb : Option.Rel (Part.Follows l) base base') (source : EnumDef) :
    Follows l (fun i => bindEnum (room i) (base.map (· i)) source) (bindEnum limit base' source) := by
  refine .scope_bind fun scope => ?_
  rcases hb with h | _
  on_goal 1 => refine (h.type hr).bind fun base => ?_
  on_goal 2 => refine .bind (.pure _) fun base => ?_
  all_goals
    refine .ask_bind fun scalar => ?_
    split
    · exact .after (addScope_blind _ _) fun _ => .after (declare_blind _ _) fun _ => .after (setOwner_blind _ _) fun _ =>
        (bindMembers_follows hr _ _ _ _ _ _).bind fun _ => .still (modifyProgram_blind _)
    · exact .ask_bind fun _ => .fail _ _ _

theorem bindForeignParams_follows {level : ι → Level} {level' : Level} (hl : Level.Follows l level level')
    (scope : ScopeId) (function : String) : ∀ (params : List Param) (index : Nat),
    Follows l (fun i => bindForeignParams (level i) scope function params index)
      (bindForeignParams level' scope function params index)
  | [], _ => .pure _
  | param :: rest, index => by
    refine .bind (.attempt ?_) fun _ => (bindForeignParams_follows hl scope function rest _).bind fun _ => .pure _
    split
    · exact (hl.type _).bind fun _ => .still (declare_blind _ _)
    · exact .bind (.fail _ _ _) fun _ => .still (declare_blind _ _)

theorem bindForeignFunction_follows (hr : Room.Follows l room limit) (abi : String) (source : FunctionDef) :
    Follows l (fun i => bindForeignFunction (room i) abi source) (bindForeignFunction limit abi source) := by
  refine .scope_bind fun scope => .after (functionName_blind _) fun name => ?_
  refine .ite (.after (report_blind _) fun _ => ?_) ?_
  all_goals
    refine .modifiers_bind fun modifiers => .after (addScope_blind _ _) fun own => .after (declare_blind _ _) fun symbol =>
      .after (setOwner_blind _ _) fun _ => hr.inContext fun _ _ hl => (bindForeignParams_follows hl _ _ _ _).bind fun _ => ?_
    cases source.returnType with
    | none => exact .bind (.pure _) fun _ => .still (modifyProgram_blind _)
    | some tree => exact (hl.type tree).attempt.bind fun _ => .bind (.pure _) fun _ => .still (modifyProgram_blind _)

theorem bindForeign_follows (hr : Room.Follows l room limit) (abi : String) (tree : Syntax) :
    Follows l (fun i => bindForeign (room i) abi tree) (bindForeign limit abi tree) := by
  unfold bindForeign
  cases tree.form with
  | function source => exact bindForeignFunction_follows hr _ _
  | _ => exact .fail _ _ _

/-! ## Aliases, imports and fields -/

theorem bindAlias_follows {target : ι → Part} {target' : Part} (ht : Part.Follows l target target') (pos : Span)
    (name : String) (tag : AliasTag) :
    Follows l (fun i => bindAlias pos name (target i) tag) (bindAlias pos name target' tag) := by
  have hdeclare : ∀ (scope : ScopeId) (decl : Decl),
      Blind (discard (declare scope { name, scope, pos, decl })) := fun _ _ => (declare_blind _ _).discard
  have h := ht.operand
  cases ht with
  | mk _ _ =>
    refine .scope_bind fun scope => h.bind fun operand => ?_
    rcases operand with node | ty | symbol | ⟨symbol, _ | receiver⟩
    · exact .after (valueAlias_blind _ _ _) fun _ => .still (hdeclare _ _)
    · exact .bind (.pure _) fun _ => .still (hdeclare _ _)
    · exact .bind (.pure _) fun _ => .still (hdeclare _ _)
    · exact .bind (.pure _) fun _ => .still (hdeclare _ _)
    · exact .bind (.fail _ _ _) fun _ => .still (hdeclare _ _)

theorem importMember_follows (hr : Room.Follows l room limit) (pos : Span) :
    ∀ (segments : List String) (symbol : SymbolId) (path : String),
      Follows l (fun i => importMember (room i) pos segments symbol path) (importMember limit pos segments symbol path)
  | [], _, _ => .pure _
  | segment :: rest, symbol, path => by
    refine (moduleScope_follows hr symbol).attempt.bind fun scope => ?_
    cases scope with
    | none => exact .fail _ _ _
    | some scope =>
      refine .ask_bind fun member => ?_
      cases member with
      | none => exact .fail _ _ _
      | some member => exact .ask_bind fun _ => importMember_follows hr pos rest _ _

theorem bindImport_follows (hr : Room.Follows l room limit) (pos : Span) (path : List String) (rename : Option String) :
    Follows l (fun i => bindImport (room i) pos path rename) (bindImport limit pos path rename) := by
  refine .scope_bind fun scope => ?_
  cases path with
  | nil => exact .pure _
  | cons first rest =>
    refine .ask_bind fun found => ?_
    cases found with
    | none => exact .fail _ _ _
    | some found =>
      exact .ask_bind fun _ => .ask_bind fun _ => .ite (.fail _ _ _) <| (importMember_follows hr _ _ _ _).bind fun _ =>
        .still (declareImported_blind _ _).discard

theorem bindField_follows (hr : Room.Follows l room limit) {type value : Option (ι → Part)} {type' value' : Option Part}
    (ht : Option.Rel (Part.Follows l) type type') (hv : Option.Rel (Part.Follows l) value value') (owner : SymbolId)
    (pos : Span) (name : String) (own : Modifiers) :
    Follows l (fun i => bindField (room i) owner pos name (type.map (· i)) (value.map (· i)) own)
      (bindField limit owner pos name type' value' own) := by
  refine .modifiers_bind fun modifiers => .ite (bindDefinition_follows hr ht hv _ _ _).discard ?_
  refine .bind (.mapOption_part (fun _ _ h => h.type hr) ht) fun declared =>
    .bind (.mapOption_part (fun _ _ h => ?_) hv) fun default => ?_
  · exact (h.value hr).bind fun _ => .still (readThrough_blind _)
  -- the type is declared, or it is that of the value
  · rcases declared with _ | ty <;> rcases default with _ | node
    on_goal 1 => refine .bind (.fail _ _ _) fun ty => ?_
    on_goal 2 => refine .ask_bind fun ty => ?_
    on_goal 3 => refine .bind (.pure _) fun ty => ?_
    on_goal 4 => refine .bind (.pure _) fun ty => ?_
    all_goals
      exact .after (.mapOption (fun _ => coerce_blind _ _) _) fun _ => .scope_bind fun _ =>
        .ite (.still (declare_blind _ _).discard) (.still (declareField_blind _ _ _ _ _ _).discard)

end Bindery.BindM
