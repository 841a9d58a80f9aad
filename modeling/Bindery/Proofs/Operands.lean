import Bindery.Proofs.Evaluation
import Bindery.Proofs.Instances
/-!
# What names and members denote

A name leads to what is in sight of it, and a member to what its struct, enum or module offers; so what they denote may
be used where they stand. A part of the source is *good* when the rule that finds what it denotes gives such a thing.
-/
namespace Bindery

theorem Program.constValue?_of_literal {p : Program} {n : NodeId} {value : ConstValue} {adaptable : Bool}
    (h : (p.node n).kind = .literal value adaptable) : p.constValue? n = some value := by
  simp only [constValue?, isConstant, eval, evalUpTo, h]
  rfl

theorem Ty.symbol?_eq_some {ty : Ty} {x : SymbolId} : ty.symbol? = some x ↔ ty = .direct x := by
  cases ty <;> simp [symbol?]

namespace BindM

variable {k : Nat} {c g : Context} {s : BindState} {room : Room} {pos : Span}

/-- The name of a function. -/
theorem addFunctionName_ends {x : SymbolId} {ty : Ty} (hg : Ready k g s) (hx : (s.program.decl x).isInstance) :
    Ends (addNode pos ty (.valueName x [])) c s (At k s) fun n t => Result k g t n := by
  have hv : (s.program.decl x).isVariable = false := by
    rcases hd : s.program.decl x <;> rw [hd] at hx <;> first | rfl | cases hx
  have hf : s.program.Fits ⟨pos, ty, .valueName x []⟩ :=
    { children := by rintro _ ⟨⟩
      typed := trivial
      void := by rintro ⟨⟩
      literal := by rintro _ ⟨⟩
      named := by
        rintro _ _ ⟨⟩
        refine ⟨Program.lt_of_isInstance hx, fun tag t hd => ?_, trivial⟩
        rw [hd] at hx
        cases hx
      called := by rintro _ _ ⟨⟩
      symbols := by simpa [NodeKind.symbols] using .of_isInstance hx
      folds := trivial }
  refine .mono (addNode_ends (w := True) hg hf (by rintro _ ⟨⟩) ?_ (by rintro _ ⟨⟩) (by rintro _ _ _ ⟨⟩)
    (.of_isSettled rfl)) fun n t ht ha => ?_
  · rintro _ ⟨⟩ h
    rw [hv] at h
    cases h
  have hfixed : ¬ t.program.Adaptable n := by
    rintro ⟨value, hk⟩
    rw [ha.node] at hk
    cases hk
  refine ⟨ha.held, fun h => absurd h hfixed, fun _ => .of_not_adaptable hfixed, ?_⟩
  · intro y hk h
    rw [ha.node] at hk
    cases hk
    rw [ht.later.isVariable (Program.lt_of_isInstance hx), hv] at h
    cases h

/-- A constant is a literal of its value. It may be retyped only if it is an integer. -/
theorem constLiteral_ends {x : SymbolId} {tag : AliasTag} {value : NodeId} {constant : ConstValue} (hg : Ready k g s)
    (hd : s.program.decl x = .constAlias tag value) (hv : s.program.constValue? value = some constant) :
    Ends (addNode pos (s.program.node value).ty (.literal constant (match (s.program.node value).kind with
      | .literal _ adaptable => adaptable
      | _ => false))) c s (At k s) fun n t => Result k g t n := by
  have hcarries := hg.sound.program.carries_constValue? (hg.sound.program.inOrder_of_decl hd (by simp)) hv
  split
  · rename_i own adaptable hk
    cases adaptable with
    | false => exact .mono (addPlain_ends hg rfl rfl trivial (by rintro _ ⟨⟩) hcarries) fun n t _ hn => hn.result
    | true =>
      have hadapt : s.program.Adaptable value := ⟨own, hk⟩
      obtain ⟨⟨i, rfl⟩, hi⟩ := (hg.sound.program.fits value (Program.lt_of_adaptable hadapt)).literal own hk
      rw [Program.constValue?_of_literal hk] at hv
      cases hv
      refine addLiteral_ends hg hi hcarries fun hnat v hv => ?_
      cases hv
      exact hnat x tag value hd i hk
  · exact .mono (addPlain_ends hg rfl rfl trivial (by rintro _ ⟨⟩) hcarries) fun n t _ hn => hn.result

/-- **What a symbol in sight denotes may be used.** -/
theorem resolve_ends {x : SymbolId} (hc : Ready k c s) (hx : s.program.InSight c.scope (s.program.resolveAlias x)) :
    Ends (resolve x pos) c s (At k s) fun o t => o.Ok k c t := by
  refine .ask_bind (.ask_bind ?_)
  cases hd : s.program.decl (s.program.resolveAlias x) with
  | builtin | struct | union | array | enum | typeAlias => exact .pure (.start hc) trivial
  | constAlias tag value =>
    refine .ask_bind ?_
    cases hv : s.program.constValue? value with
    | none => exact .failure (.start hc)
    | some constant =>
      refine .ask_bind (.ask_bind ?_)
      exact .bind (constLiteral_ends hc hd hv) fun n t ht hn => .pure ht hn
  | module own =>
    refine .pure (.start hc) ?_
    show (s.program.module? _).isSome
    rw [Program.module?_eq_some.2 hd]
    rfl
  | template | overloadSet | function =>
    refine .pure (.start hc) ⟨?_, by rintro _ ⟨⟩⟩
    rw [Program.isCallable, hd]
  | parameter | localVar | globalVar | field =>
    exact .bind (reference_ends hc hx) fun n t ht hn => .pure ht hn.result
  | label | valueAlias => exact .ask_bind (fail_ends (.start hc) _ _ _ _)

theorem nameOperand_ends {name : String} (hc : Ready k c s) :
    Ends (nameOperand name pos) c s (At k s) fun o t => o.Ok k c t := by
  refine .read_bind (.ask_bind ?_)
  split
  · rename_i symbol hl
    exact resolve_ends hc (hc.sound.program.inSight_of_lookup hl).2
  · exact fail_ends (.start hc) _ _ _ _

/-- A struct template that stands alone denotes its instance. -/
theorem settle_ends {o : Operand} (hr : room.Good) (hc : Ready k c s) (ho : o.Ok k c s) :
    Ends (settle room o pos) c s (At k s) fun o t => o.Ok k c t := by
  unfold settle
  split
  · refine .ask_bind (.ite (fun _ => ?_) fun _ => .pure (.start hc) ho)
    refine .bind (selectTemplate_ends hc _ _ _ _) ?_
    rintro template _ ht rfl
    exact .bind (instantiateStruct_ends hr hc (by simp)) fun _ u hu _ => .pure hu trivial
  · exact .pure (.start hc) ho

theorem functionValue_ends {x : SymbolId} {receiver : Option NodeId} (hr : room.Good) (hc : Ready k c s) :
    Ends (functionValue room x receiver pos) c s (At k s) fun n t => Result k c t n := by
  have hname : ∀ f t, At k s t → (t.program.decl f).isInstance →
      Ends (addNode pos (.direct f) (.valueName f [])) c t (At k s) fun n t => Result k c t n := fun f t ht hf =>
    .last ht (Nat.le_refl k) (addFunctionName_ends (ht.ready hc) hf) fun _ _ _ _ h => h
  refine .ask_bind ?_
  dsimp only
  split
  · rename_i own hd
    exact .pure_bind (hname x s (.start hc) (by rw [hd]; rfl))
  · have hmade : Ends (Prod.fst <$> instantiateFunction room x [] pos) c s (At k s) fun f t =>
        (t.program.decl f).isInstance := .map (instantiateFunction_ends hr hc (by simp)) fun r t _ h => h.1
    exact .ite (fun _ => .bind hmade hname) fun _ => .ask_bind (fail_bind_ends (.start hc) _ _ _ _)
  · exact .ask_bind (fail_bind_ends (.start hc) _ _ _ _)

theorem operandNode_ends {o : Operand} (hr : room.Good) (hc : Ready k c s) (ho : o.Ok k c s) :
    Ends (operandNode room o pos) c s (At k s) fun n t => Result k c t n := by
  cases o with
  | value node => exact .pure (.start hc) ho
  | type ty => exact .ask_bind (fail_ends (.start hc) _ _ _ _)
  | module x => exact .ask_bind (fail_ends (.start hc) _ _ _ _)
  | callable x receiver => exact functionValue_ends hr hc

theorem operandType_ends {o : Operand} (hc : Ready k c s) :
    Ends (operandType o pos) c s (At k s) fun _ _ => True := by
  cases o with
  | value node => exact fail_ends (.start hc) _ _ _ _
  | type ty => exact .pure (.start hc) trivial
  | module x => exact .ask_bind (fail_ends (.start hc) _ _ _ _)
  | callable x receiver => exact .ask_bind (fail_ends (.start hc) _ _ _ _)

end BindM

/-! ## Parts -/

/-- What a part denotes may be used where the part stands. -/
def Part.Good (part : Part) : Prop := part.operand.Closed Operand.Ok

namespace Part.Good

open BindM

variable {room : Room} {part : Part}

theorem settled (hr : room.Good) (hp : part.Good) : (part.settled room).Closed Operand.Ok := by
  intro c s hc
  refine .next (.start hc) (Nat.le_refl _) (hp c s hc) fun o t ht _ ho => ?_
  exact .last ht (Nat.le_refl _) (settle_ends hr (ht.ready hc) ho) fun _ _ _ _ h => h

theorem expression (hr : room.Good) (hp : part.Good) : (part.expression room).Closed Result := by
  intro c s hc
  refine .next (.start hc) (Nat.le_refl _) (hp.settled hr c s hc) fun o t ht _ ho => ?_
  exact .last ht (Nat.le_refl _) (operandNode_ends hr (ht.ready hc) ho) fun _ _ _ _ h => h

theorem value (hr : room.Good) (hp : part.Good) :
    (part.value room).Closed fun k c t n => Result k c t n ∧ (t.program.node n).ty ≠ .void := by
  intro c s hc
  refine .next (.start hc) (Nat.le_refl _) (hp.expression hr c s hc) fun n t ht _ hn => ?_
  refine .last ht (Nat.le_refl _) (requireValue_ends (ht.ready hc)) ?_
  rintro _ _ - - ⟨rfl, rfl, hv⟩
  exact ⟨hn, hv⟩

theorem condition (hr : room.Good) (hp : part.Good) :
    (part.condition room).Closed fun k c t n => Result k c t n ∧ (t.program.node n).ty = .bool := by
  intro c s hc
  refine .next (.start hc) (Nat.le_refl _) (hp.value hr c s hc) fun n t ht _ hn => ?_
  exact .last ht (Nat.le_refl _) (asCondition_ends (ht.ready hc) hn.1.held) fun m u _ _ hm => ⟨hm.1.result hn.1, hm.2⟩

theorem type (hr : room.Good) (hp : part.Good) : (part.type room).Closed fun _ _ _ _ => True := by
  intro c s hc
  refine .next (.start hc) (Nat.le_refl _) (hp.settled hr c s hc) fun o t ht _ _ => ?_
  exact .last ht (Nat.le_refl _) (operandType_ends (ht.ready hc)) fun _ _ _ _ h => h

theorem argument (hr : room.Good) (hp : part.Good) :
    (part.argument room).Closed fun k c t arg => arg.Ok k c t True ∧ arg.HasValue t := by
  intro c s hc
  refine .next (.start hc) (Nat.le_refl _) (hp.settled hr c s hc) fun o t ht _ ho => ?_
  have hvalue : Ends (do return .value (← requireValue (← operandNode room o part.pos) part.pos)) c t
      (At s.program.nodes.size s) fun arg t => ArgValue.Ok s.program.nodes.size c t arg True ∧ arg.HasValue t := by
    refine .next ht (Nat.le_refl _) (operandNode_ends hr (ht.ready hc) ho) fun n u hu _ hn => ?_
    refine .next hu (Nat.le_refl _) (requireValue_ends (hu.ready hc)) ?_
    rintro _ _ hv - ⟨rfl, rfl, hne⟩
    exact .pure hv ⟨hn.passed, hne⟩
  cases o with
  | type ty => exact .pure ht ⟨trivial, trivial⟩
  | value => exact hvalue
  | module => exact hvalue
  | callable => exact hvalue

end Part.Good

namespace BindM

variable {k : Nat} {c : Context} {s : BindState} {room : Room} {pos : Span}

theorem bindArguments_closed {args : List ArgPart} (hr : room.Good) (ha : ∀ arg ∈ args, arg.value.Good) :
    (bindArguments room args).Closed fun k c t bound => ∀ arg ∈ bound, arg.value.Ok k c t True := by
  intro c s hc
  have hbind : Ends (args.mapM fun arg => attempt do
      return { pos := arg.pos, name := arg.name, value := ← arg.value.argument room : CallArg }) c s
      (At s.program.nodes.size s) fun bound t => ∀ r ∈ bound, ∀ arg, r = some arg →
        arg.value.Ok s.program.nodes.size c t True := by
    refine mapM_ends hc (fun r t u ht htu h arg hr => (h arg hr).mono (ht.ready hc) htu) fun arg hm t ht => ?_
    refine .attempt (.next (.start (ht.ready hc)) ht.later.nodes (((ha arg hm).argument hr).ends (ht.ready hc)) ?_)
    exact fun value u hu _ hv => .pure hu (hv.1.lower ht.later.nodes)
  refine .next (.start hc) (Nat.le_refl _) hbind fun bound t ht _ hbound => ?_
  split
  · rename_i args hargs
    exact .pure ht fun arg hm => hbound _ (mem_of_mapM_id hargs arg hm) arg rfl
  · exact .failure ht

/-! ## Members -/

/-- A value itself, or what it points to. -/
theorem dereferenced_ends {n : NodeId} (hc : Ready k c s) (hn : Kept k c s n) :
    Ends (do
      match (← nodeType n).pointee? with
      | some pointee => addNode (← nodePos n) pointee (.dereference n)
      | none => return n) c s (At k s) fun m t => Kept k c t m ∧
        (t.program.node m).ty = (s.program.node n).ty.pointee?.getD (s.program.node n).ty := by
  refine .ask_bind ?_
  split
  · rename_i pointee hp
    have htyped : (s.program.node n).ty = .pointer pointee ∨ (s.program.node n).ty = .reference pointee := by
      rcases hty : (s.program.node n).ty <;> rw [hty] at hp <;> cases hp
      · exact .inl rfl
      · exact .inr rfl
    have hkids : ∀ o ∈ (NodeKind.dereference n).children, Kept k c s o := by simpa [NodeKind.children] using hn
    refine .ask_bind (.mono (addPlain_ends hc rfl rfl htyped hkids trivial) fun m t _ hm => ?_)
    exact ⟨hm.held, by rw [hm.type, hp]; rfl⟩
  · rename_i hp
    exact .pure (.start hc) ⟨hn, by rw [hp]; rfl⟩

/-- The object that a value is or leads to. -/
theorem object_ends {n : NodeId} (hc : Ready k c s) (hn : Kept k c s n) :
    Ends (object n) c s (At k s) fun m t => Kept k c t m ∧ ∀ x,
      (s.program.node n).ty.pointee?.getD (s.program.node n).ty = .direct x → (t.program.node m).ty = .direct x := by
  refine .next (.start hc) (Nat.le_refl k) (readThrough_typed hc hn) fun m t ht _ hm => ?_
  refine .last ht (Nat.le_refl k) (dereferenced_ends (ht.ready hc) hm.1.held) fun o u _ _ ho => ⟨ho.1, fun x hx => ?_⟩
  rw [ho.2, hm.2.1]
  rcases hty : (s.program.node n).ty with _ | _ | _ | pointee
  all_goals
    rw [hty] at hx
    first | exact hx | skip
  have hx : pointee = .direct x := hx
  rw [hx]
  rfl

/-- **A member that is reached from a value may be used.** -/
theorem memberOperand_ends {n : NodeId} {owner found : SymbolId} {sc : ScopeId} {name : String} (hc : Ready k c s)
    (hn : Passed k c s n) (howner : s.program.memberStruct? (s.program.node n).ty = some owner)
    (hsc : (s.program.symbol owner).ownScope = some sc) (hm : s.program.member? sc name = some found) :
    Ends (memberOperand pos n found) c s (At k s) fun o t => o.Ok k c t := by
  have hp := hc.sound.program
  obtain ⟨x, hx, hd⟩ := Option.bind_eq_some_iff.1 howner
  have hxo : x = owner ∧ ∀ own, s.program.decl owner ≠ .function own := by
    rcases h : s.program.decl x <;> rw [h] at hd <;> cases hd <;> exact ⟨rfl, by simp [h]⟩
  obtain ⟨rfl, hnf⟩ := hxo
  obtain ⟨-, hblock, hfun⟩ := (hp.admits x (Program.lt_of_ownScope hsc)).own sc hsc
  have hnotfun : (s.program.scope sc).kind ≠ .function := fun h => by
    obtain ⟨own, ho⟩ := hfun.1 h
    exact hnf own ho
  obtain ⟨hlt, hsight⟩ := hp.inSight_of_member c.scope hblock hm fun _ => hnotfun
  have hnalias := (hp.resolveAlias_spec hlt).2
  have hself : s.program.resolveAlias (s.program.resolveAlias found) = s.program.resolveAlias found := by
    rcases hp.resolveAlias_cases (s.program.resolveAlias found) with ⟨tag, h⟩ | ⟨-, h⟩
    · exact absurd h (hnalias tag _)
    · exact h
  have hoffers : s.program.Offers x (s.program.resolveAlias found) := by
    refine ⟨sc, name, found, hsc, hm, ?_⟩
    rcases hp.resolveAlias_cases found with ⟨tag, h⟩ | ⟨-, h⟩
    · exact .inr ⟨tag, h⟩
    · exact .inl h.symm
  refine .ask_bind (.ask_bind ?_)
  split
  · rename_i own hd
    refine .next (.start hc) (Nat.le_refl k) (object_ends hc hn.toKept) fun m t ht _ hobj => ?_
    have hty : (t.program.node m).ty = .direct x := hobj.2 x (Ty.symbol?_eq_some.1 hx)
    have hfield := ht.later.field (Program.field?_eq_some.2 hd)
    exact .next ht (Nat.le_refl k) (addMade_ends (ht.ready hc) rfl (by rintro ⟨⟩) (by rintro _ ⟨⟩)
      ⟨own, hfield, rfl, .inr ⟨x, hty, ht.later.offers hoffers⟩⟩ (by simpa [NodeKind.children] using hobj.1)
      (by simpa [NodeKind.symbols] using .of_field hfield) trivial) fun o u hu _ ho => .pure hu ho.result
  · rename_i hd
    exact .pure (.start hc) ⟨by rw [Program.isCallable, hd], by rintro _ ⟨⟩; exact hn⟩
  · rename_i hd
    exact .pure (.start hc) ⟨by rw [Program.isCallable, hd], by rintro _ ⟨⟩; exact hn⟩
  · rename_i hd
    exact .pure (.start hc) ⟨by rw [Program.isCallable, hd], by rintro _ ⟨⟩; exact hn⟩
  · exact resolve_ends hc (by rwa [hself])

theorem dotValue_ends {n : NodeId} {member : String} (hc : Ready k c s) (hn : Passed k c s n) :
    Ends (dotValue pos n member) c s (At k s) fun o t => o.Ok k c t := by
  refine .ask_bind (.read_bind (.ask_bind ?_))
  split
  · rename_i found hfound
    obtain ⟨owner, howner, hfound⟩ := Option.bind_eq_some_iff.1 hfound
    obtain ⟨sc, hsc, hm⟩ := Option.bind_eq_some_iff.1 hfound
    exact memberOperand_ends hc hn howner hsc hm
  · refine .ask_bind ?_
    split
    · rename_i symbol hs
      exact .pure (.start hc) ⟨(Option.filter_eq_some_iff.1 hs).2, by rintro _ ⟨⟩; exact hn⟩
    · exact .ask_bind (fail_ends (.start hc) _ _ _ _)

/-- A member of a type is no variable of its own, but may be an alias of one. -/
theorem dotType_ends {ty : Ty} {member : String} (hc : Ready k c s) :
    Ends (dotType pos ty member) c s (At k s) fun o t => o.Ok k c t := by
  refine .ask_bind (.ask_bind ?_)
  split
  · rename_i x hshared
    obtain ⟨hfound, hkind⟩ := Option.filter_eq_some_iff.1 hshared
    obtain ⟨owner, -, hfound⟩ := Option.bind_eq_some_iff.1 hfound
    obtain ⟨sc, hsc, hm⟩ := Option.bind_eq_some_iff.1 hfound
    have hp := hc.sound.program
    obtain ⟨-, hblock, -⟩ := (hp.admits owner (Program.lt_of_ownScope hsc)).own sc hsc
    refine resolve_ends hc (hp.inSight_of_member _ hblock hm fun hv => ?_).2
    cases hd : s.program.decl x with
    | parameter | localVar =>
      rw [hd] at hkind
      cases hkind
    | _ =>
      rw [hd] at hv
      cases hv
  · exact .ask_bind (fail_ends (.start hc) _ _ _ _)

theorem dotModule_ends {module : SymbolId} {member : String} (hr : room.Good) (hc : Ready k c s) :
    Ends (dotModule room pos module member) c s (At k s) fun o t => o.Ok k c t := by
  refine .next (.start hc) (Nat.le_refl k) (moduleScope_ends hr hc) fun sc t ht _ hk => .ask_bind ?_
  split
  · rename_i x hm
    have hsight := ht.sound.program.inSight_of_member c.scope (by rw [hk]; simp) hm fun _ => by rw [hk]; simp
    exact .last ht (Nat.le_refl k) (resolve_ends (ht.ready hc) hsight.2) fun _ _ _ _ h => h
  · exact .ask_bind (fail_ends ht _ _ _ _)

theorem dotOperand_closed {base : Part} {member : String} (hr : room.Good) (hb : base.Good) :
    (dotOperand room pos base member).Closed Operand.Ok := by
  intro c s hc
  refine .next (.start hc) (Nat.le_refl _) (hb.settled hr c s hc) fun o t ht _ ho => ?_
  cases o with
  | module x => exact .last ht (Nat.le_refl _) (dotModule_ends hr (ht.ready hc)) fun _ _ _ _ h => h
  | type ty => exact .last ht (Nat.le_refl _) (dotType_ends (ht.ready hc)) fun _ _ _ _ h => h
  | callable x receiver => exact .ask_bind (fail_ends ht _ _ _ _)
  | value n => exact .last ht (Nat.le_refl _) (dotValue_ends (ht.ready hc) ho.passed) fun _ _ _ _ h => h

/-! ## Types -/

theorem arrayLength_closed {part : Part} (hr : room.Good) (hp : part.Good) :
    (arrayLength room part).Closed fun _ _ _ _ => True := by
  intro c s hc
  refine .next (.start hc) (Nat.le_refl _) (hp.value hr c s hc) fun n t ht _ _ => .ask_bind ?_
  split
  · refine .ask_bind (.ite (fun _ => ?_) fun _ => fail_ends ht _ _ _ _)
    exact .ite (fun _ => .pure ht trivial) fun _ => .failure ht
  · exact fail_ends ht _ _ _ _

theorem pointerOperand_closed {part : Part} (hr : room.Good) (hp : part.Good) :
    (pointerOperand room part).Closed Operand.Ok := fun c s hc =>
  .next (.start hc) (Nat.le_refl _) (hp.type hr c s hc) fun _ _ ht _ _ => .pure ht trivial

theorem referenceOperand_closed {part : Part} (hr : room.Good) (hp : part.Good) :
    (referenceOperand room part).Closed Operand.Ok := fun c s hc =>
  .next (.start hc) (Nat.le_refl _) (hp.type hr c s hc) fun _ _ ht _ _ => .pure ht trivial

theorem arrayOperand_closed {element length : Part} (hr : room.Good) (he : element.Good) (hl : length.Good) :
    (arrayOperand room element length).Closed Operand.Ok := by
  intro c s hc
  refine .next (.start hc) (Nat.le_refl _) (he.type hr c s hc) fun ty t ht _ _ => ?_
  refine .next ht ht.later.nodes ((arrayLength_closed hr hl).ends (ht.ready hc)) fun count u hu _ _ => ?_
  exact .next hu (Nat.le_refl _) (arrayType_ends (hu.ready hc) ty count) fun _ v hv _ _ => .pure hv trivial

end BindM

end Bindery
