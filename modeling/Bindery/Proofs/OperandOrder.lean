import Bindery.Proofs.OperandRuns
/-!
# The order of operands

Truth values, numbers and enums meet in one type, whichever comes first, so that an arithmetic, bitwise or relational
operator gives the same type in both orders or is refused in both. There is one exception, and it is about values: a
quotient or remainder of constants is refused when the second one is zero.
-/
namespace Bindery

namespace ConstValue

variable {op : BinaryOp} {l r : ConstValue}

theorem of_intArithmetic_divisionByZero {l r : Int} (h : intArithmetic op l r = .error .divisionByZero) :
    (op = .div ∨ op = .rem) ∧ r = 0 := by
  cases op <;> simp [intArithmetic] at h ⊢ <;> exact h

/-- Only a quotient and a remainder of integers divide, and by zero only if the second one is. -/
theorem of_arithmetic_divisionByZero (h : arithmetic op l r = .error .divisionByZero) :
    (op = .div ∨ op = .rem) ∧ r = .int 0 := by
  have hmap : ∀ {α : Type} {f : α → ConstValue} {x : Except ConstError α},
      x.map f = .error .divisionByZero → x = .error .divisionByZero := by
    intro α f x hx
    cases x <;> cases hx
    rfl
  unfold arithmetic at h
  split at h
  · obtain ⟨hop, rfl⟩ := of_intArithmetic_divisionByZero (hmap h)
    exact ⟨hop, rfl⟩
  · have hfloat := hmap h
    cases op <;> cases hfloat
  · have hbool := hmap h
    cases op <;> cases hbool
  · cases h

theorem condition_ne_divisionByZero : condition op l r ≠ .error .divisionByZero := by
  unfold condition
  split
  · rintro ⟨⟩
  · rintro ⟨⟩
  · split
    · rintro ⟨⟩
    · rintro ⟨⟩
    · unfold relationHolds
      split <;> rintro ⟨⟩

end ConstValue

theorem BinaryOp.mem_children_nodeKind (op : BinaryOp) (left right : NodeId) :
    left ∈ (op.nodeKind left right).children ∧ right ∈ (op.nodeKind left right).children := by
  unfold nodeKind
  split <;> simp [NodeKind.children]

namespace Program

variable {p : Program} {n left right : NodeId} {op : BinaryOp} {ty : Ty}

/-! ## Division by zero -/

theorem ok_of_bind_error {ε α β : Type} {x : Except ε α} {f : α → Except ε β} {e : ε} (h : x >>= f = .error e)
    (hx : x ≠ .error e) : ∃ v, x = .ok v ∧ f v = .error e := by
  cases x with
  | error e' =>
    cases h
    exact absurd rfl hx
  | ok v => exact ⟨v, rfl, h⟩

/-- **An operation on values that divides by zero** is a quotient or a remainder, and its second operand is zero. -/
theorem Ordered.divisor_eq_zero (hp : p.Ordered) (hk : (p.node n).kind = op.nodeKind left right)
    (hl : p.eval left ≠ .error .divisionByZero) (hr : p.eval right ≠ .error .divisionByZero)
    (h : p.eval n = .error .divisionByZero) : (op = .div ∨ op = .rem) ∧ p.eval right = .ok (.int 0) := by
  have hchildren := op.mem_children_nodeKind left right
  rw [← hk] at hchildren
  unfold BinaryOp.nodeKind at hk
  have hleft := hp.evalUpTo_child hchildren.1
  have hright := hp.evalUpTo_child hchildren.2
  rw [eval, evalUpTo] at h
  split at hk <;> rw [hk] at h <;> dsimp only at h <;> rw [hleft, hright] at h <;>
    obtain ⟨l, -, h⟩ := ok_of_bind_error h hl <;> obtain ⟨r, hrv, h⟩ := ok_of_bind_error h hr
  · obtain ⟨v, -, h⟩ := ok_of_bind_error h ConstValue.condition_ne_divisionByZero
    cases h
  · by_cases hdivides : ConstValue.arithmetic op l r = .error .divisionByZero
    · obtain ⟨hop, rfl⟩ := ConstValue.of_arithmetic_divisionByZero hdivides
      exact ⟨hop, hrv⟩
    · obtain ⟨v, -, h⟩ := ok_of_bind_error h hdivides
      cases h

/-! ## The type of an operation -/

/-- **The type in which operands meet does not depend on their order.** -/
theorem Standard.meeting?_comm (hp : p.Standard) (hl : (p.node left).IsNatural) (hr : (p.node right).IsNatural)
    (ha : p.isElementary (p.node left).ty) (hb : p.isElementary (p.node right).ty) :
    p.meeting? left right = p.meeting? right left := by
  have helementary : ∀ n ∈ [left, right], p.isElementary ((p.adapted left right).node n).ty := by
    intro n hn
    rcases p.adapted_types left right n hn with hty | hty <;> rwa [hty]
  rw [meeting?, meeting?, ← hp.adapted_comm hl hr]
  exact hp.upperBound?_comm (helementary left List.mem_cons_self)
    (helementary right (List.mem_cons_of_mem _ List.mem_cons_self))

/-- **The type of an operation does not depend on the order of its operands.** -/
theorem Standard.operationType?_comm (hp : p.Standard) (hl : (p.node left).IsNatural) (hr : (p.node right).IsNatural)
    (ha : p.isElementary (p.node left).ty) (hb : p.isElementary (p.node right).ty) :
    p.operationType? op left right = p.operationType? op right left := by
  rw [operationType?, operationType?, hp.meeting?_comm hl hr ha hb, Bool.and_comm]

theorem exists_symbol_of_isElementary (h : p.isElementary ty) : ∃ id, ty = .direct id ∧ p.isAggregate ty = false := by
  rcases isElementary_iff.1 h with hs | he
  · obtain ⟨x, hx⟩ := Option.isSome_iff_exists.1 hs
    obtain ⟨id, rfl, hd⟩ := builtin?_eq_some_iff.1 (scalar?_eq_some.1 hx)
    exact ⟨id, rfl, by simp only [isAggregate, typeDecl?, Ty.symbol?, Option.map_some, hd]⟩
  · obtain ⟨id, own, rfl, hd⟩ := isEnum_iff.1 he
    exact ⟨id, rfl, by simp only [isAggregate, typeDecl?, Ty.symbol?, Option.map_some, hd]⟩

end Program

namespace BindM

open BindState Sample

variable {options : BindOptions} {names : NameTable} {k : Nat} {c : Context} {s₀ s t : BindState} {room : Room}
  {left right : NodeId} {pos : Span} {op : BinaryOp} {ty : Ty}

theorem upperBound_fst : ((upperBound left right pos).runAt c s).1 = s.program.meeting? left right := by
  cases h : s.program.meeting? left right with
  | none => exact (upperBound_refuses h).1
  | some ty => rw [upperBound_run h]

/-! ## Operations -/

theorem applyBinary_ends (hroom : room.Good) (hc : Ready k c s₀) (hs : At k s₀ s) (hk : s₀.program.nodes.size ≤ k)
    (hl : Result k c s left) (hr : Result k c s right) :
    Ends (applyBinary room pos op left right) c s (At k s₀) fun n t => Result k c t n := by
  refine withOperator_ends hroom hc hs (by simpa using ⟨hl.passed, hr.passed⟩) ?_
  split
  · exact bindRelational_ends hc hs hk hl hr
  · exact bindLogical_ends hc hs hl.held hr.held
  · exact bindCoalesce_ends hc hs hl.held hr.held
  · exact bindShift_ends hc hs hl.held hr.held
  · exact bindAdditive_ends hc hs hk hl hr
  · exact bindArithmetic_ends hc hs hk hl hr
  · exact bindArithmetic_ends hc hs hk hl hr

/-- A quotient or a remainder of constants, whose second one is zero in the type of the operation. That is reported, and
nothing else. -/
structure ZeroDivision (pos : Span) (op : BinaryOp) (left right : NodeId) (ty : Ty) (s t : BindState) : Prop where
  divides : op = .div ∨ op = .rem
  constants : s.program.isConstant left ∧ s.program.isConstant right
  log : t.log = s.log.add (.of pos .divisionByZero [])
  divisor : ∃ n l r, n.index + 1 = t.program.nodes.size ∧ (t.program.node n).kind = .arithmetic op l r ∧
    (t.program.node r).ty = ty ∧ t.program.eval r = .ok (.int 0)

/-- An operator gives a value of a type and reports nothing, or is a division by zero in that type. -/
def Operates (room : Room) (pos : Span) (op : BinaryOp) (left right : NodeId) (c : Context) (s : BindState) (ty : Ty) :
    Prop :=
  (∃ n t, (applyBinary room pos op left right).runAt c s = (some n, t) ∧ (t.program.node n).ty = ty ∧ t.log = s.log) ∨
  ∃ t, (applyBinary room pos op left right).runAt c s = (none, t) ∧ ZeroDivision pos op left right ty s t

/-- In a state that binding comes to, it is the divisor that is zero where an operation divides by zero. -/
theorem Divided.zeroDivision {target : Ty} (ht : Reached options names t)
    (h : Divided pos op.nodeKind target left right s t) : ZeroDivision pos op left right (op.resultType target) s t := by
  have hp := ht.sound.program
  obtain ⟨n, l, r, hn, hk, ⟨hl, hr⟩, hty, heval⟩ := h.made
  have hchildren := op.mem_children_nodeKind l r
  rw [← hk] at hchildren
  have hlt : l.index < t.program.nodes.size ∧ r.index < t.program.nodes.size := by
    have hl := hp.ordered n l hchildren.1
    have hr := hp.ordered n r hchildren.2
    omega
  obtain ⟨hop, hzero⟩ := hp.ordered.divisor_eq_zero hk (ht.constants.1 l hlt.1 hl) (ht.constants.1 r hlt.2 hr) heval
  have hfamily : op.family ≠ .relational := by
    rcases hop with rfl | rfl <;> decide
  rw [BinaryOp.nodeKind, if_neg hfamily] at hk
  rw [BinaryOp.resultType, if_neg hfamily]
  exact ⟨hop, h.constants, h.log, n, l, r, hn, hk, hty, hzero⟩

/-- **What an operator does with truth values, numbers and enums**: it is refused if it has no type for them, and gives a
value of that type otherwise, unless it divides by zero. -/
theorem applyBinary_operates (pos : Span) (h : Reached options names s₀) (hroom : room.Good) (hc : Ready k c s₀)
    (hs : At k s₀ s) (hk : s₀.program.nodes.size ≤ k) (hop : op.Combines) (hl : Result k c s left) (hr : Result k c s right)
    (ha : s.program.isElementary (s.program.node left).ty) (hb : s.program.isElementary (s.program.node right).ty) :
    (s.program.operationType? op left right = none → Refuses (applyBinary room pos op left right) c s) ∧
    ∀ ty, s.program.operationType? op left right = some ty → Operates room pos op left right c s ty := by
  obtain ⟨x, hx, hxplain⟩ := Program.exists_symbol_of_isElementary ha
  obtain ⟨y, hy, hyplain⟩ := Program.exists_symbol_of_isElementary hb
  have hbuiltin : ∀ n ∈ [left, right], s.program.isBuiltinOperand n := by
    simp only [List.mem_cons, List.not_mem_nil, or_false, Program.isBuiltinOperand]
    rintro n (rfl | rfl)
    · rw [hx] at hxplain ⊢
      exact congrArg not hxplain
    · rw [hy] at hyplain ⊢
      exact congrArg not hyplain
  have hrun : (applyBinary room pos op left right).runAt c s = (combine pos op left right).runAt c s :=
    applyBinary_eq_combine hop hbuiltin (by rw [hx, hy]; exact ⟨rfl, rfl⟩)
  refine ⟨fun hnone => ?_, fun ty hty => ?_⟩
  · rw [Refuses, hrun]
    exact combine_refuses hnone
  · unfold Operates
    rw [hrun]
    rcases combine_run c pos hs.sound.program.standard hl.held.range hr.held.range hty with
      hmade | ⟨t, target, hnone, rfl, hdivided⟩
    · exact .inl hmade
    · have hends : Ends (applyBinary room pos op left right) c s (At k s₀) fun n t => Result k c t n :=
        applyBinary_ends hroom hc hs hk hl hr
      have hat := hends.reach
      rw [hrun, hnone] at hat
      exact .inr ⟨t, hnone, hdivided.zeroDivision (h.trans (h.steps hat.steps id))⟩

/-- **The order of operands does not matter, but for a division by zero.** Take the operands that any two trees are bound
to, of types that are truth values, numbers or enums. They meet in one type in either order, or in none. An arithmetic,
bitwise or relational operator is refused in both orders, or has one type in both. It gives a value of that type, unless it
is a quotient or a remainder of constants of which the second one is zero. -/
theorem operand_order (options : BindOptions) (names : NameTable) :
    (∀ batches, Reached options names (bindAll options names batches)) ∧
    ∀ s, Reached options names s → ∀ k c, Ready k c s → ∀ limit entry depth left right a b t,
      let room := Room.ofDepth limit entry depth
      (operands room (part room left) (part room right)).runAt c s = (some (a, b), t) →
      t.program.isElementary (t.program.node a).ty → t.program.isElementary (t.program.node b).ty →
      (∀ pos, ((upperBound a b pos).runAt c t).1 = ((upperBound b a pos).runAt c t).1) ∧
      ∀ op, op.Combines → ∀ pos,
        (Refuses (applyBinary room pos op a b) c t ∧ Refuses (applyBinary room pos op b a) c t) ∨
        ∃ ty, Operates room pos op a b c t ty ∧ Operates room pos op b a c t ty := by
  refine ⟨fun batches => (bindAll_reached options names batches).1, ?_⟩
  intro s hs k c hc limit entry depth left right a b t room hrun ha hb
  have hroom : room.Good := Room.ofDepth_good limit entry depth
  obtain ⟨hat, hra, hrb⟩ := ((operands_closed hroom (part_good hroom left) (part_good hroom right)).ends hc).ended hrun
  have hstandard := hat.sound.program.standard
  have hnatural := (hat.coherent hs.coherent).natural
  have hna := hra.natural hnatural
  have hnb := hrb.natural hnatural
  refine ⟨fun pos => ?_, fun op hop pos => ?_⟩
  · rw [upperBound_fst, upperBound_fst, hstandard.meeting?_comm hna hnb ha hb]
  · obtain ⟨hrefuses, hoperates⟩ := applyBinary_operates pos hs hroom hc.top hat (Nat.le_refl _) hop hra hrb ha hb
    obtain ⟨hrefuses', hoperates'⟩ := applyBinary_operates pos hs hroom hc.top hat (Nat.le_refl _) hop hrb hra hb ha
    rw [← hstandard.operationType?_comm hna hnb ha hb] at hrefuses' hoperates'
    cases hty : t.program.operationType? op a b with
    | none => exact .inl ⟨hrefuses hty, hrefuses' hty⟩
    | some ty => exact .inr ⟨ty, hoperates ty hty, hoperates' ty hty⟩

/-- Zero divided by one. -/
def zeroByOne : Pairing := ⟨.div, node (.int 0 none), node (.int 1 none)⟩

/-- A number times a literal, a comparison of literals, and a quotient of constants. -/
def orderedPairings : List Pairing :=
  [⟨.mul, name "i", node (.int 1 none)⟩, ⟨.lt, node (.int 200 none), node (.int 70000 none)⟩, zeroByOne]

/-- The operands of a pairing are bound to nodes of types that are truth values, numbers or enums. -/
def Pairing.IsElementary (x : Pairing) (s : BindState) : Prop :=
  (x.bound s).1.isSome ∧ ∀ r ∈ (x.bound s).1, ∀ n ∈ [r.1, r.2],
    (x.bound s).2.program.isElementary ((x.bound s).2.program.node n).ty

instance (x : Pairing) (s : BindState) : Decidable (x.IsElementary s) := inferInstanceAs (Decidable (_ ∧ _))

/-- A variable of an integer type. -/
def orderedModule : Sample fun s => 2 < s.program.scopes.size ∧ (∀ x ∈ orderedPairings, x.IsElementary s) ∧
    ∃ r ∈ (zeroByOne.bound s).1,
      Accepts (applyBinary Pairing.room .synthetic .div r.1 r.2) Pairing.context (zeroByOne.bound s).2 ∧
      Refuses (applyBinary Pairing.room .synthetic .div r.2 r.1) Pairing.context (zeroByOne.bound s).2 where
  body := [field "i" (name "Int64")]
  shown := by decide +kernel

/-- The operands of every one of these operations meet in one type, and the operation has one type in both orders. -/
theorem orderedPairings_meet : orderedPairings.length = 3 ∧ ∀ x ∈ orderedPairings,
    ∃ a b t, x.bound orderedModule.state = (some (a, b), t) ∧
    ((upperBound a b .synthetic).runAt Pairing.context t).1 = ((upperBound b a .synthetic).runAt Pairing.context t).1 ∧
    ((Refuses (applyBinary Pairing.room .synthetic x.op a b) Pairing.context t ∧
        Refuses (applyBinary Pairing.room .synthetic x.op b a) Pairing.context t) ∨
      ∃ ty, Operates Pairing.room .synthetic x.op a b Pairing.context t ty ∧
        Operates Pairing.room .synthetic x.op b a Pairing.context t ty) := by
  refine ⟨rfl, fun x hx => ?_⟩
  have hop : x.op.Combines := by
    revert x
    decide
  obtain ⟨hscope, helementary, -⟩ := orderedModule.holds
  obtain ⟨batches, hbound⟩ := orderedModule.eq_bindAll
  obtain ⟨hreached, hall⟩ := operand_order {} {}
  have hs := hreached batches
  rw [← hbound] at hs
  obtain ⟨hsome, htypes⟩ := helementary x hx
  obtain ⟨⟨a, b⟩, hr⟩ := Option.isSome_iff_exists.1 hsome
  have hab := htypes (a, b) hr
  have hrun : x.bound orderedModule.state = (some (a, b), (x.bound orderedModule.state).2) := Prod.ext hr rfl
  obtain ⟨hmeet, horder⟩ := hall _ hs 0 _ (Pairing.ready orderedModule.sound hscope) 8 "main" 8 x.left x.right a b _ hrun
    (hab a (by simp)) (hab b (by simp))
  exact ⟨a, b, _, hrun, hmeet .synthetic, horder x.op hop .synthetic⟩

/-- **`0 / 1` has a value, and `1 / 0` is refused.** -/
theorem zeroByOne_ordered : ∃ a b t, zeroByOne.bound orderedModule.state = (some (a, b), t) ∧
    Accepts (applyBinary Pairing.room .synthetic .div a b) Pairing.context t ∧
    Refuses (applyBinary Pairing.room .synthetic .div b a) Pairing.context t := by
  obtain ⟨-, -, ⟨a, b⟩, hr, haccepts, hrefuses⟩ := orderedModule.holds
  exact ⟨a, b, _, Prod.ext hr rfl, haccepts, hrefuses⟩

end BindM

end Bindery
