import Bindery.Proofs.Calls
/-!
# Operators

The two sides of an operator meet in one type: literals take the type of the other side first, then both are converted.
A literal is retyped only here, while it is the result of its part and no operand yet.
-/
namespace Bindery

/-- A held node of a type. -/
structure HeldAs (k : Nat) (c : Context) (s : BindState) (ty : Ty) (n : NodeId) : Prop where
  held : Kept k c s n
  type : (s.program.node n).ty = ty

theorem HeldAs.mono {k k' : Nat} {c : Context} {s t : BindState} {ty : Ty} {n : NodeId} (h : HeldAs k c s ty n)
    (hc : Ready k c s) (ht : At k' s t) : HeldAs k c t ty n where
  held := h.held.mono hc ht
  type := by rw [ht.frame.nodes n h.held.range h.held.range, h.type]

theorem Kept.as {k : Nat} {c : Context} {s : BindState} {n : NodeId} (h : Kept k c s n) :
    HeldAs k c s (s.program.node n).ty n := ⟨h, rfl⟩

theorem held_single {k : Nat} {c : Context} {s : BindState} {a : NodeId} (ha : Kept k c s a) : ∀ m ∈ [a], Kept k c s m := by
  simpa using ha

theorem held_pair {k : Nat} {c : Context} {s : BindState} {a b : NodeId} (ha : Kept k c s a) (hb : Kept k c s b) :
    ∀ m ∈ [a, b], Kept k c s m := by
  simpa using ⟨ha, hb⟩

namespace BindM

variable {k : Nat} {c : Context} {s₀ s : BindState} {room : Room} {pos : Span} {op : BinaryOp} {left right : NodeId}

/-! ## Binary operators -/

/-- Both operands are converted to one type. -/
theorem coerceBoth_ends {α : Type} {ty : Ty} {rest : NodeId → NodeId → BindM α} {post : α → BindState → Prop}
    (hc : Ready k c s₀) (hs : At k s₀ s) (hl : Kept k c s left) (hr : Kept k c s right)
    (hrest : ∀ a b t, At k s₀ t → At k s t → HeldAs k c t ty a → HeldAs k c t ty b →
      Ends (rest a b) c t (At k s₀) post) :
    Ends (do
      let left ← coerce left ty
      let right ← coerce right ty
      rest left right) c s (At k s₀) post := by
  refine .next hs (Nat.le_refl k) (coerce_ends (hs.ready hc) hl) fun a t ht hst ha => ?_
  refine .next ht (Nat.le_refl k) (coerce_ends (ht.ready hc) (hr.mono (hs.ready hc) hst)) fun b u hu htu hb => ?_
  exact hrest a b u hu (hst.trans htu (Nat.le_refl k)) (HeldAs.mono ⟨ha.1.held, ha.2⟩ (ht.ready hc) htu) ⟨hb.1.held, hb.2⟩

/-- An operation is added and folded. -/
theorem addFolded_ends {ty : Ty} {kind : NodeKind} {operands : List NodeId} (hc : Ready k c s₀) (hs : At k s₀ s)
    (hp : kind.isBare) (hv : kind.holdsReturn = false)
    (ht : ∀ pos, s.program.Typed s.program.ReachesField ⟨pos, ty, kind⟩) (hk : ∀ m ∈ kind.children, Kept k c s m)
    (hf : s.program.Folds ⟨pos, ty, kind⟩) :
    Ends (do fold (← addNode pos ty kind) operands) c s (At k s₀) fun n t => Result k c t n := by
  refine .next hs (Nat.le_refl k) (addPlain_ends (hs.ready hc) hp hv (ht pos) hk hf) fun n t ht' _ hn => ?_
  exact .last ht' (Nat.le_refl k) (fold_ends (ht'.ready hc) hn.held) fun m u _ _ hm => hm.1.result hn.result

theorem operatorError_ends {α : Type} {post : α → BindState → Prop} (hs : At k s₀ s) :
    Ends (operatorError pos op left right) c s (At k s₀) post :=
  .ask_bind (.ask_bind (.ask_bind (.ask_bind (fail_ends hs _ _ _ _))))

theorem operatorError_bind_ends {α β : Type} {f : α → BindM β} {post : β → BindState → Prop} (hs : At k s₀ s) :
    Ends (operatorError pos op left right >>= f) c s (At k s₀) post :=
  .bind (operatorError_ends hs) fun _ _ _ (h : False) => h.elim

section

variable (hc : Ready k c s₀) (hs : At k s₀ s)
include hc hs

theorem bindArithmetic_ends (hk : s₀.program.nodes.size ≤ k) (hl : Result k c s left) (hr : Result k c s right) :
    Ends (bindArithmetic pos op left right) c s (At k s₀) fun n t => Result k c t n := by
  refine .ask_bind (.ask_bind (.ask_bind (.ite (fun _ => operatorError_bind_ends hs) fun _ => ?_)))
  refine .bind (upperBound_ends hs hk hc hl hr) fun meeting t ht ha => .ask_bind ?_
  have hleft := ha.held (hs.ready hc) hl.held
  have hright := ha.held (hs.ready hc) hr.held
  refine coerceBoth_ends hc ht hleft hright fun a b u hu _ ha hb => ?_
  exact addFolded_ends hc hu rfl rfl (fun _ => ⟨ha.type, hb.type⟩) (held_pair ha.held hb.held) trivial

theorem bindRelational_ends (hk : s₀.program.nodes.size ≤ k) (hl : Result k c s left) (hr : Result k c s right) :
    Ends (bindRelational pos op left right) c s (At k s₀) fun n t => Result k c t n := by
  refine .ask_bind (.ask_bind (.ask_bind (.ite (fun _ => operatorError_bind_ends hs) fun _ => ?_)))
  refine .bind (upperBound_ends hs hk hc hl hr) fun meeting t ht ha => ?_
  have hleft := ha.held (hs.ready hc) hl.held
  have hright := ha.held (hs.ready hc) hr.held
  refine coerceBoth_ends hc ht hleft hright fun a b u hu _ ha hb => ?_
  exact addFolded_ends hc hu rfl rfl (fun _ => ⟨ha.type.trans hb.type.symm, rfl⟩) (held_pair ha.held hb.held) trivial

theorem bindLogical_ends (hl : Kept k c s left) (hr : Kept k c s right) :
    Ends (bindLogical pos op left right) c s (At k s₀) fun n t => Result k c t n := by
  refine .next hs (Nat.le_refl k) (.attempt (coerce_ends (hs.ready hc) hl)) fun a t ht hst ha => ?_
  refine .next ht (Nat.le_refl k) (.attempt (coerce_ends (ht.ready hc) (hr.mono (hs.ready hc) hst))) fun b u hu htu hb => ?_
  split
  · rename_i left' right' heq
    cases heq
    have ha : HeldAs k c u .bool left' := HeldAs.mono ⟨(ha _ rfl).1.held, (ha _ rfl).2⟩ (ht.ready hc) htu
    have hb := hb _ rfl
    exact addFolded_ends hc hu rfl rfl (fun _ => ⟨ha.type.trans hb.2.symm, rfl⟩) (held_pair ha.held hb.1.held) trivial
  · exact .failure hu

theorem bindCoalesce_ends (hl : Kept k c s left) (hr : Kept k c s right) :
    Ends (bindCoalesce pos left right) c s (At k s₀) fun n t => Result k c t n := by
  refine .ask_bind (.ite (fun _ => .ask_bind (fail_bind_ends hs _ _ _ _)) fun _ => ?_)
  refine .next hs (Nat.le_refl k) (coerce_ends (hs.ready hc) hr) fun b t ht hst hb => ?_
  have ha := hl.as.mono (hs.ready hc) hst
  exact .last ht (Nat.le_refl k) (addPlain_ends (ht.ready hc) rfl rfl ⟨ha.type, hb.2⟩ (held_pair ha.held hb.1.held) trivial)
    fun _ _ _ _ h => h.result

theorem bindShift_ends (hl : Kept k c s left) (hr : Kept k c s right) :
    Ends (bindShift pos op left right) c s (At k s₀) fun n t => Result k c t n := by
  refine .ask_bind (.ask_bind (.ask_bind (.ite (fun _ => operatorError_bind_ends hs) fun hi => .ask_bind ?_)))
  have hi : s.program.isIntegral (s.program.node right).ty := by simp at hi; exact hi.2
  refine .next hs (Nat.le_refl k) (coerce_ends (hs.ready hc) hl) fun a t ht hst ha => ?_
  have hb := hr.as.mono (hs.ready hc) hst
  refine addFolded_ends hc ht rfl rfl (fun _ => ⟨ha.2, ?_⟩) (held_pair ha.1.held hb.held) trivial
  rw [hb.type]
  exact hst.later.isIntegral hi

theorem bindPointerArithmetic_ends (hl : Kept k c s left) (hr : Kept k c s right) :
    Ends (bindPointerArithmetic pos op left right) c s (At k s₀) fun n t => Result k c t n := by
  refine .ask_bind (.ask_bind (.ite (fun _ => operatorError_bind_ends hs) fun _ => .ask_bind ?_))
  refine .next hs (Nat.le_refl k) (coerce_ends (hs.ready hc) hr) fun b t ht hst hb => ?_
  exact .last ht (Nat.le_refl k) (addPlain_ends (ht.ready hc) rfl rfl trivial
    (held_pair (hl.mono (hs.ready hc) hst) hb.1.held) trivial) fun _ _ _ _ h => h.result

theorem bindPointerDifference_ends (hl : Kept k c s left) (hr : Kept k c s right) :
    Ends (bindPointerDifference pos left right) c s (At k s₀) fun n t => Result k c t n := by
  refine .ask_bind (.ask_bind (.ite (fun _ => .ask_bind (.ask_bind (fail_bind_ends hs _ _ _ _))) fun _ => .ask_bind ?_))
  exact .last hs (Nat.le_refl k) (addPlain_ends (hs.ready hc) rfl rfl trivial (held_pair hl hr) trivial) fun _ _ _ _ h => h.result

theorem bindAdditive_ends (hk : s₀.program.nodes.size ≤ k) (hl : Result k c s left) (hr : Result k c s right) :
    Ends (bindAdditive pos op left right) c s (At k s₀) fun n t => Result k c t n := by
  refine .ask_bind (.ask_bind ?_)
  split
  · exact bindPointerDifference_ends hc hs hl.held hr.held
  · exact bindPointerArithmetic_ends hc hs hl.held hr.held
  · exact bindPointerArithmetic_ends hc hs hr.held hl.held
  · exact bindArithmetic_ends hc hs hk hl hr
  · exact operatorError_ends hs

end

/-- Both operands are the results of their parts: what one part makes, the other one does not know. -/
theorem bothValues_closed {left right : Part} (hroom : room.Good) (hl : left.Good) (hr : right.Good) :
    (bothValues room left right).Closed fun k c t r => Result k c t r.1 ∧ Result k c t r.2 := by
  intro c s hc
  refine .next (.start hc) (Nat.le_refl _) (.attempt (hl.value hroom c s hc)) fun a t ht _ ha => ?_
  refine .next ht ht.later.nodes (.attempt ((hr.value hroom).ends (ht.ready hc))) fun b u hu htu hb => ?_
  split
  · rename_i a' b' heq
    cases heq
    have ha := (ha _ rfl).1
    have hb := (hb _ rfl).1
    exact .pure hu ⟨ha.mono (ht.ready hc) htu fun _ => ha.held.range, hb.lower ht.later.nodes⟩
  · exact .failure hu

theorem callOperator_ends {operator : SymbolId} {operands : List NodeId} (hr : room.Good) (hc : Ready k c s)
    (hn : ∀ n ∈ operands, Passed k c s n) :
    Ends (callOperator room pos operator operands) c s (At k s) fun n t => Result k c t n := by
  have hargs : Ends (operands.mapM fun node =>
      return ({ pos := ← nodePos node, name := none, value := .value node } : CallArg)) c s (At k s)
      fun args t => ∀ arg ∈ args, arg.value.Ok k c t True :=
    mapM_ends hc (fun _ t u ht htu h => h.mono (ht.ready hc) htu) fun n hm t ht =>
      .ask_bind (.pure (.start (ht.ready hc)) ((hn n hm).mono hc ht))
  refine .next (.start hc) (Nat.le_refl k) hargs fun args t ht _ ha => ?_
  refine .next ht (Nat.le_refl k) (callSymbol_ends hr (ht.ready hc) (by rintro _ ⟨⟩) ha) fun o u hu _ ho => ?_
  cases o with
  | value n => exact .pure hu ho
  | type => exact .failure hu
  | module => exact .failure hu
  | callable => exact .failure hu

theorem withOperator_ends {name : OperatorName} {operands : List NodeId} {builtin : BindM NodeId} (hr : room.Good)
    (hc : Ready k c s₀) (hs : At k s₀ s) (hn : ∀ n ∈ operands, Passed k c s n)
    (hb : Ends builtin c s (At k s₀) fun n t => Result k c t n) :
    Ends (withOperator room pos name operands builtin) c s (At k s₀) fun n t => Result k c t n := by
  refine .read_bind (.ask_bind ?_)
  split
  · exact .last hs (Nat.le_refl k) (callOperator_ends hr (hs.ready hc) hn) fun _ _ _ _ h => h
  · exact hb

/-- **A binary operation is well typed.** -/
theorem bindBinary_closed {left right : Part} (hroom : room.Good) (hl : left.Good) (hr : right.Good) :
    (bindBinary room pos op left right).Closed Result := by
  intro c s hc
  refine .next (.start hc) (Nat.le_refl _) (bothValues_closed hroom hl hr c s hc) ?_
  rintro ⟨a, b⟩ t ht - ⟨ha, hb⟩
  refine .next ht (Nat.le_refl _) (readThrough_typed (ht.ready hc) ha.held) fun a' u hu _ ha' => ?_
  have hb := ha'.2.2 b hb
  refine .next hu (Nat.le_refl _) (readThrough_typed (hu.ready hc) hb.held) fun b' v hv _ hb' => ?_
  have ha := hb'.2.2 a' (ha'.1.result ha)
  have hb := hb'.1.result hb
  refine withOperator_ends hroom hc hv (by simpa using ⟨ha.passed, hb.passed⟩) ?_
  split
  · exact bindRelational_ends hc hv (Nat.le_refl _) ha hb
  · exact bindLogical_ends hc hv ha.held hb.held
  · exact bindCoalesce_ends hc hv ha.held hb.held
  · exact bindShift_ends hc hv ha.held hb.held
  · exact bindAdditive_ends hc hv (Nat.le_refl _) ha hb
  · exact bindArithmetic_ends hc hv (Nat.le_refl _) ha hb
  · exact bindArithmetic_ends hc hv (Nat.le_refl _) ha hb

/-! ## Literals -/

theorem adaptableLiteral_ends {value : Int} (hc : Ready k c s) (hv : -2 ^ 64 < value ∧ value < 2 ^ 64) :
    Ends (adaptableLiteral pos value) c s (At k s) fun n t => Result k c t n := by
  refine addLiteral_ends hc (hc.sound.program.isIntegral_int (Program.literalShape_mem value))
    (hc.sound.program.standard.carries_literalShape hv) ?_
  rintro - _ ⟨⟩
  rfl

theorem bindInt_ends {value : Nat} {suffix : Option IntSuffix} (hc : Ready k c s) :
    Ends (bindInt pos value suffix) c s (At k s) fun n t => Result k c t n := by
  cases suffix with
  | none => exact adaptableLiteral_ends hc ((wrapInt_inRange (by decide) (by decide) _ _).bound (Nat.le_refl 64))
  | some suffix =>
    refine .mono (addPlain_ends hc rfl rfl trivial (by rintro _ ⟨⟩) ?_) fun _ _ _ h => h.result
    exact hc.sound.program.standard.carries_suffix suffix value

/-! ## Unary operators -/

section

variable {n : NodeId} (hc : Ready k c s) (hn : Kept k c s n)
include hc

theorem unaryError_bind_ends {α β : Type} {f : α → BindM β} {post : β → BindState → Prop} {op : UnaryOp} {ty : Ty} :
    Ends (unaryError pos op ty >>= f) c s (At k s) post :=
  .bind (.ask_bind (fail_ends (.start hc) _ _ _ _)) fun _ _ _ (h : False) => h.elim

include hn

theorem applyUnary_ends {op : UnaryOp} {ty : Ty} (hop : op = .not → ty = .bool) :
    Ends (applyUnary pos op n ty) c s (At k s) fun m t => Result k c t m := by
  refine .bind (coerce_ends hc hn) fun m t ht hm => ?_
  refine addFolded_ends hc ht rfl rfl (fun _ => hm.2) (held_single hm.1.held) ?_
  cases op with
  | not => exact hop rfl
  | _ => trivial

theorem bindDereference_ends : Ends (bindDereference pos n) c s (At k s) fun m t => Result k c t m := by
  refine .ask_bind ?_
  split
  · rename_i pointee hp
    have hp := (Option.filter_eq_some_iff.1 hp).1
    refine .mono (addPlain_ends hc rfl rfl ?_ (held_single hn) trivial) fun _ _ _ h => h.result
    rcases hty : (s.program.node n).ty <;> rw [hty] at hp <;> cases hp
    · exact .inl hty
    · exact .inr hty
  · exact .ask_bind (fail_ends (.start hc) _ _ _ _)

theorem bindNegation_ends : Ends (bindNegation pos n) c s (At k s) fun m t => Result k c t m := by
  refine .ask_bind ?_
  split
  · rename_i literal hl
    have := hc.sound.program.bound_of_adaptableInt hl
    exact adaptableLiteral_ends hc (by omega)
  · refine .ask_bind (.ask_bind (.ite (fun _ => unaryError_bind_ends hc) fun _ => .ask_bind ?_))
    exact applyUnary_ends hc hn (by rintro ⟨⟩)

theorem bindComplement_ends : Ends (bindComplement pos n) c s (At k s) fun m t => Result k c t m :=
  .ask_bind (.ask_bind (.ite (fun _ => unaryError_bind_ends hc) fun _ => .ask_bind (applyUnary_ends hc hn (by rintro ⟨⟩))))

theorem bindAddress_ends {operandPos : Span} : Ends (bindAddress pos operandPos n) c s (At k s) fun m t => Result k c t m := by
  refine .ask_bind (.ite (fun _ => fail_bind_ends (.start hc) _ _ _ _) fun _ => .ask_bind ?_)
  exact .mono (addPlain_ends hc rfl rfl trivial (held_single hn) trivial) fun _ _ _ h => h.result

end

theorem bindUnary_closed {op : UnaryOp} {operand : Part} (hr : room.Good) (hp : operand.Good) :
    (bindUnary room pos op operand).Closed Result := by
  intro c s hc
  refine .next (.start hc) (Nat.le_refl _) (hp.value hr c s hc) fun n t ht _ hn => ?_
  refine .next ht (Nat.le_refl _) (readThrough_ends (ht.ready hc) hn.1.held) fun m u hu _ hm => ?_
  have hop : ∀ name (builtin : BindM NodeId), Ends builtin c u (At s.program.nodes.size u) (fun n t => Result s.program.nodes.size c t n) →
      Ends (withOperator room pos name [m] builtin) c u (At s.program.nodes.size s) fun n t =>
        Result s.program.nodes.size c t n := fun name builtin hb =>
    withOperator_ends hr hc hu (List.forall_mem_singleton.2 (hm.passed hn.1.passed)) (.last hu (Nat.le_refl _) hb fun _ _ _ _ h => h)
  cases op with
  | addressOf => exact .last hu (Nat.le_refl _) (bindAddress_ends (hu.ready hc) hm.held) fun _ _ _ _ h => h
  | deref => exact hop _ _ (bindDereference_ends (hu.ready hc) hm.held)
  | neg => exact hop _ _ (bindNegation_ends (hu.ready hc) hm.held)
  | bitNot => exact hop _ _ (bindComplement_ends (hu.ready hc) hm.held)
  | not => exact hop _ _ (applyUnary_ends (hu.ready hc) hm.held fun _ => rfl)

/-! ## Assignments -/

/-- What is assigned to is no literal. -/
theorem not_adaptable_of_isPlace {p : Program} (hp : p.Sound) {n : NodeId} (h : p.isPlace n) : ¬ p.Adaptable n := by
  intro ha
  obtain ⟨value, hk⟩ := id ha
  have hi := hp.isIntegral_of_adaptable ha
  unfold Program.isPlace at h
  rw [hk] at h
  cases hty : (p.node n).ty with
  | reference pointee =>
    rw [hty] at hi
    cases hi
  | unknown | direct | pointer =>
    rw [hty] at h
    cases h

theorem compoundValue_ends {target value : NodeId} (hc : Ready k c s₀) (hs : At k s₀ s) (hk : s₀.program.nodes.size ≤ k)
    (ht : Kept k c s target) (hna : ¬ s.program.Adaptable target) (hv : Result k c s value) :
    Ends (compoundValue pos op target value) c s (At k s₀) fun r t => Kept k c t r.2 ∧ Kept k c t target ∧
      (r.1 = .arithmetic → (t.program.node r.2).ty = (t.program.node target).ty) := by
  refine .ask_bind (.ask_bind (.ite (fun _ => .ask_bind ?_) fun _ => .ite (fun _ => .ask_bind ?_) fun _ => .ask_bind ?_))
  · refine .ite (fun _ => operatorError_bind_ends hs) fun _ => .ask_bind ?_
    refine .next hs (Nat.le_refl k) (coerce_ends (hs.ready hc) hv.held) fun m t ht' hst hm => .pure ht' ?_
    exact ⟨hm.1.held, ht.mono (hs.ready hc) hst, by rintro ⟨⟩⟩
  · exact .ite (fun _ => operatorError_bind_ends hs) fun _ => .pure hs ⟨hv.held, ht, by rintro ⟨⟩⟩
  · refine .ite (fun _ => ?_) fun _ => operatorError_ends hs
    refine .bind (adaptLiteral_ends hs hk hv.held hv.spare) fun _ t ht' ha => ?_
    have htarget : HeldAs k c t (s.program.node target).ty target :=
      ⟨ht.keep (hs.ready hc) (hs.ready hc).scope ha.keeps, ha.keeps.later.type target ht.range hna⟩
    have hvalue := ha.held (hs.ready hc) hv.held
    refine .next ht' (Nat.le_refl k) (coerce_ends (ht'.ready hc) hvalue) fun m u hu htu hm => .pure hu ?_
    have htarget := htarget.mono (ht'.ready hc) htu
    exact ⟨hm.1.held, htarget.held, fun _ => hm.2.trans htarget.type.symm⟩

/-- **An assignment is well typed.** -/
theorem bindAssign_closed {op : Option BinaryOp} {target value : Part} (hr : room.Good) (ht : target.Good)
    (hv : value.Good) : (bindAssign room pos op target value).Closed Result := by
  intro c s hc
  refine .next (.start hc) (Nat.le_refl _) (bothValues_closed hr ht hv c s hc) ?_
  rintro ⟨a, b⟩ t ht - ⟨ha, hb⟩
  refine .ask_bind (.ite (fun _ => fail_bind_ends ht _ _ _ _) fun hplace => ?_)
  have hna : ¬ t.program.Adaptable a := not_adaptable_of_isPlace ht.sound.program (by simpa using hplace)
  refine .next ht (Nat.le_refl _) (readThrough_typed (ht.ready hc) ha.held) fun a' u hu _ ha' => ?_
  have hb := ha'.2.2 b hb
  have hna : ¬ u.program.Adaptable a' := by
    rcases ha'.1.same with ⟨rfl, rfl⟩ | hp
    · exact hna
    · exact not_adaptable_of_isPlain hp
  refine .next hu (Nat.le_refl _) (readThrough_typed (hu.ready hc) hb.held) fun b' v hv huv hb' => ?_
  have ha := ha'.1.held.mono (hu.ready hc) huv
  have hb := hb'.1.result hb
  have hna : ¬ v.program.Adaptable a' := fun h => hna ((huv.later.adaptable ha'.1.held.range).1 h)
  cases op with
  | none =>
    refine .ask_bind (.next hv (Nat.le_refl _) (coerce_ends (hv.ready hc) hb.held) fun m w hw hvw hm => ?_)
    have ha := ha.as.mono (hv.ready hc) hvw
    exact .last hw (Nat.le_refl _) (addStatement_ends (hw.ready hc) rfl (by rintro _ ⟨⟩) (hm.2.trans ha.type.symm)
      (held_pair ha.held hm.1.held) trivial) fun _ _ _ _ h => h.result
  | some op =>
    refine .bind (compoundValue_ends hc hv (Nat.le_refl _) ha hna hb) ?_
    rintro ⟨kind, m⟩ w hw ⟨hm, ha, hty⟩
    refine .last hw (Nat.le_refl _) (addStatement_ends (hw.ready hc) rfl (by rintro _ ⟨⟩) ?_ (held_pair ha hm) trivial)
      fun _ _ _ _ h => h.result
    cases kind with
    | arithmetic => exact hty rfl
    | shift => trivial
    | pointer => trivial

end BindM

end Bindery
