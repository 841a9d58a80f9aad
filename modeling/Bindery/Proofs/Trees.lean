import Bindery.Proofs.Statements
/-!
# Rules of the syntax

What any piece of syntax denotes may be used where it stands. The proof goes down the syntax as the rules do: each form
has its rule, and the parts of the form are smaller. Bodies with a scope of their own are left to the level below.
-/
namespace Bindery.BindM

variable {k : Nat} {c : Context} {s : BindState} {room : Room} {pos : Span}

theorem addFixed_ends {ty : Ty} {value : ConstValue} (hc : Ready k c s) (hv : s.program.Inhabits ty value) :
    Ends (addNode pos ty (.literal value false)) c s (At k s) fun n t =>
      Result k c t n ∧ (t.program.constValue? n).isSome := by
  refine .mono (addFresh_ends (w := True) hc rfl (by rintro _ _ ⟨⟩) rfl (by rintro ⟨⟩) (by rintro _ ⟨⟩) trivial
    (by rintro _ ⟨⟩) (by rintro _ ⟨⟩) (.inl hv) (.of_isSettled rfl)) ?_
  rintro n t - ⟨hmade, hprogram, rfl⟩
  refine ⟨hmade.result, ?_⟩
  rw [Program.constValue?_of_literal (by rw [hprogram, Program.node_addNode_next])]
  rfl

/-- A rule that gives a node, as an operand. -/
theorem valueOperand_closed {rule : BindM NodeId} (h : rule.Closed Result) :
    (Operand.value <$> rule).Closed Operand.Ok := fun c s hc => .map (h c s hc) fun _ _ _ hn => hn

mutual

theorem part_good (hr : room.Good) : ∀ tree, (part room tree).Good
  | .mk pos form => formOperand_closed hr pos form

/-- **What a form denotes may be used where it stands.** -/
theorem formOperand_closed (hr : room.Good) (pos : Span) : ∀ form, (formOperand room pos form).Closed Operand.Ok
  | .name _ => fun _ _ hc => nameOperand_ends hc
  | .dot base _ => dotOperand_closed hr (part_good hr base)
  | .pointerType pointee => pointerOperand_closed hr (part_good hr pointee)
  | .referenceType pointee => referenceOperand_closed hr (part_good hr pointee)
  | .arrayType element length => arrayOperand_closed hr (part_good hr element) (part_good hr length)
  | .call callee args trailing => callOperand_closed hr (part_good hr callee) fun arg ha => by
    rcases List.mem_append.1 ha with ha | ha
    · exact argParts_good hr args arg ha
    · exact trailingPart_good hr trailing arg (by simpa using ha)
  | .int _ _ => valueOperand_closed fun _ _ => bindInt_ends
  | .float _ _ => valueOperand_closed fun _ _ => bindFloat_ends
  | .bool _ => valueOperand_closed fun _ _ hc =>
      .mono (addFixed_ends hc hc.sound.program.standard.constScalar?_bool) fun _ _ _ h => h.1
  | .null => valueOperand_closed fun _ _ hc => .mono (addFixed_ends hc (.inl rfl)) fun _ _ _ h => h.1
  | .string _ => valueOperand_closed fun _ _ => bindString_ends
  | .index base index => valueOperand_closed (bindIndex_closed hr (part_good hr base) (part_good hr index))
  | .unary _ operand => valueOperand_closed (bindUnary_closed hr (part_good hr operand))
  | .binary _ left right => valueOperand_closed (bindBinary_closed hr (part_good hr left) (part_good hr right))
  | .assign _ target value => valueOperand_closed (bindAssign_closed hr (part_good hr target) (part_good hr value))
  | .ternary test whenTrue whenFalse => valueOperand_closed
      (bindTernary_closed hr (part_good hr test) (part_good hr whenTrue) (part_good hr whenFalse))
  | .cast value target _ => valueOperand_closed (bindCast_closed hr (part_good hr value) (part_good hr target))
  | .initializer type fields => valueOperand_closed
      (bindInitializer_closed hr (part_good hr type) (argParts_good hr fields))
  | .tuple items => valueOperand_closed (bindTuple_closed hr (parts_good hr items))
  | .sizeOf target => valueOperand_closed (bindSizeOf_closed hr (part_good hr target))
  | .new type count args => valueOperand_closed
      (bindNew_closed hr (part_good hr type) (optionalPart_good hr count) (argParts_good hr args))
  | .delete value => valueOperand_closed (bindDelete_closed hr (part_good hr value))
  | .atomic _ target value => valueOperand_closed (bindAtomic_closed hr (part_good hr target) (part_good hr value))
  | .lambda _ => valueOperand_closed fun _ _ hc => (bindLambda_ends hr hc).mono fun _ _ _ h => h.1
  | .await value => valueOperand_closed (bindAwait_closed hr (part_good hr value))
  | .define _ type value _ => valueOperand_closed
      (bindDefinition_closed hr (optionalPart_good hr type) (optionalPart_good hr value))
  | .modified modifiers body => valueOperand_closed (bindModified_closed (statementParts_good hr modifiers body))
  | .block _ _ => valueOperand_closed (bindBlock_closed hr)
  | .branch test _ _ => valueOperand_closed (bindIf_closed hr (part_good hr test))
  | .loop .. => valueOperand_closed (bindLoop_closed hr)
  | .forIn .. => valueOperand_closed (bindForIn_closed hr)
  | .returns value => valueOperand_closed (bindReturn_closed hr (optionalPart_good hr value))
  | .breaks _ => valueOperand_closed bindJump_closed
  | .continues _ => valueOperand_closed bindJump_closed
  | .defer value => valueOperand_closed (bindDefer_closed hr (part_good hr value))
  | .yield value => valueOperand_closed (bindYield_closed hr (part_good hr value))
  | .yieldFrom value => valueOperand_closed (bindYieldFrom_closed hr (part_good hr value))
  | .function _ | .struct _ | .enum _ | .aliasAs .. | .importPath .. | .exportAs .. | .module _ | .foreign .. =>
    fun _ _ hc => .failure (.start hc)

theorem optionalPart_good (hr : room.Good) : ∀ tree part, optionalPart room tree = some part → part.Good
  | none, _, h => by cases h
  | some tree, _, h => by cases h; exact part_good hr tree

theorem trailingPart_good (hr : room.Good) : ∀ tree arg, trailingPart room tree = some arg → arg.value.Good
  | none, _, h => by cases h
  | some (.mk pos form), _, h => by cases h; exact formOperand_closed hr pos form

theorem parts_good (hr : room.Good) : ∀ trees, ∀ part ∈ parts room trees, part.Good
  | [], _, h => by cases h
  | tree :: rest, part, h => by
    rcases List.mem_cons.1 h with rfl | h
    · exact part_good hr tree
    · exact parts_good hr rest part h

theorem argParts_good (hr : room.Good) : ∀ args, ∀ arg ∈ argParts room args, arg.value.Good
  | [], _, h => by cases h
  | ⟨_, _, value⟩ :: rest, arg, h => by
    rcases List.mem_cons.1 h with rfl | h
    · exact part_good hr value
    · exact argParts_good hr rest arg h

theorem statementParts_good (hr : room.Good) (modifiers : Modifiers) :
    ∀ body, ∀ part ∈ statementParts room modifiers body, part.rule.Closed Result
  | [], _, h => by cases h
  | .mk pos form :: rest, part, h => by
    have hrest := statementParts_good hr modifiers rest part
    have hform := formOperand_closed hr pos form
    cases form with
    | modified own body =>
      rcases List.mem_append.1 h with h | h
      · exact statementParts_good hr _ body part h
      · exact hrest h
    | _ =>
      rcases List.mem_cons.1 h with rfl | h
      · exact Part.Good.expression hr hform
      · exact hrest h

end

end Bindery.BindM
