import Bindery.Proofs.Binding
import Bindery.Proofs.ExactArithmetic
/-!
# Constants stay as they are

A node is marked as a constant when it was evaluated, or when a constant was converted to it. So a division by zero is
never marked: it is found when its operator is folded, and a conversion divides nothing. What is marked keeps its value as
the program grows, whether or not it has one.
-/
namespace Bindery

namespace Program

variable {p : Program} {n : NodeId}

/-- A conversion divides nothing. -/
theorem convert_ne_divisionByZero (value : ConstValue) (step : CastStep) :
    p.convert value step ≠ .error .divisionByZero := by
  have hraw : p.convertRaw value step ≠ .error .divisionByZero := by
    unfold convertRaw
    split <;> (try split) <;> (try split) <;> simp
  unfold convert
  cases h : p.convertRaw value step with
  | ok r => simp [Except.map]
  | error e =>
    rintro ⟨⟩
    exact hraw h

theorem Ordered.eval_cast (hp : p.Ordered) {inner : NodeId} {step : CastStep} (hk : (p.node n).kind = .cast inner step) :
    p.eval n = p.eval inner >>= (p.convert · step) := by
  rw [eval, evalUpTo, hk, ← hp.evalUpTo_child (n := n) (m := inner) (by simp [hk, NodeKind.children])]

/-- What is converted divides by zero only if the value does. -/
theorem Ordered.divides_of_cast (hp : p.Ordered) {inner : NodeId} {step : CastStep}
    (hk : (p.node n).kind = .cast inner step) (h : p.eval n = .error .divisionByZero) :
    p.eval inner = .error .divisionByZero := by
  rw [hp.eval_cast hk] at h
  cases hi : p.eval inner with
  | ok v =>
    rw [hi] at h
    exact absurd h (convert_ne_divisionByZero v step)
  | error e =>
    rw [hi] at h
    exact h

/-- No constant divides by zero. -/
def Undivided (p : Program) : Prop :=
  ∀ n : NodeId, n.index < p.nodes.size → p.isConstant n → p.eval n ≠ .error .divisionByZero

/-- Every constant that is defined has a value. -/
def Valued (p : Program) : Prop := ∀ x tag n, p.decl x = .constAlias tag n → (p.constValue? n).isSome

/-- What may be marked does not divide by zero if no constant does. -/
theorem Undivided.of_marks (h : p.Undivided) (hp : p.Ordered) (hn : n.index < p.nodes.size) (hm : p.Marks n) :
    p.eval n ≠ .error .divisionByZero := by
  intro hzero
  rcases hm with ⟨value, hv⟩ | ⟨m, step, hk, hc⟩
  · cases hv.symm.trans hzero
  · have hlt : m.index < n.index := hp n m (by simp [hk, NodeKind.children])
    exact h m (Nat.lt_trans hlt hn) hc (hp.divides_of_cast hk hzero)

theorem Edit.valued {q : Program} {floor : Floor} (hp : p.Sound) (h : p.Edit floor q) (hv : p.Valued) : q.Valued := by
  intro x tag n hx
  have hl := h.later hp
  by_cases hlt : x.index < p.symbols.size
  · have hold := hl.constAlias_of_later hlt hx
    rw [hl.constValue?_eq hp (hp.inOrder_of_decl hold (by simp))]
    exact hv x tag n hold
  · obtain ⟨new, hs, hnew, rfl, -⟩ := h.added hlt (lt_of_decl (by rw [hx]; simp))
    rw [Program.decl, (symbol_of_pushed hs).1] at hx
    have hin : n.index < p.nodes.size := by
      have := hnew.admits.inOrder
      rwa [InOrder, hx] at this
    rw [hl.constValue?_eq hp hin]
    exact (hnew.constant tag n hx).2.2

end Program

namespace BindState

variable {options : BindOptions} {names : NameTable} {floor : Floor} {s t : BindState} {n : NodeId}

/-- A constant that is added was evaluated, or stands for a converted constant. -/
theorem Step.undivided (hs : s.Sound) (h : Step floor s t) (hu : s.program.Undivided) : t.program.Undivided := by
  intro n hn hc
  have hl := h.later hs
  by_cases hlt : n.index < s.program.nodes.size
  · rw [hl.eval_eq hs.program hlt]
    exact hu n hlt (hl.isConstant_eq hlt ▸ hc)
  unfold Program.isConstant at hc
  cases hk : (t.program.node n).kind with
  | literal => simp [Program.eval, Program.evalUpTo, hk]
  | sizeOf => simp [Program.eval, Program.evalUpTo, hk]
  | constExpr inner =>
    have hord := (h.sound hs).program.ordered
    have hnew := Program.node_of_le (Nat.le_of_not_lt hlt)
    rcases h.node_cases n with heq | ⟨ty, -, -, heq⟩ | ⟨rfl, hfresh⟩
    · rw [heq, hnew] at hk
      cases hk
    · rw [heq, hnew] at hk
      cases hk
    · have hin : inner.index < s.program.nodes.size :=
        hord s.program.nextNode inner (by rw [hk]; exact List.mem_cons_self)
      rw [hord.eval_constExpr hk, hl.eval_eq hs.program hin]
      exact hu.of_marks hs.program.ordered hin (hfresh.marks inner hk)
  | _ =>
    rw [hk] at hc
    cases hc

theorem Step.valued (hs : s.Sound) (h : Step floor s t) (hv : s.program.Valued) : t.program.Valued := by
  have hl := h.later hs
  cases h with
  | edit program he => exact he.valued hs.program hv
  | quiet => exact hv
  | record template fingerprint made _ _ he =>
    intro x tag n hx
    obtain ⟨own, ht⟩ := Option.isSome_iff_exists.1 he.declared
    have hlt : x.index < s.program.symbols.size := by
      have := Program.lt_of_decl (show Program.decl _ x ≠ .builtin .void by rw [hx]; simp)
      rw [Program.registerInstance_eq ht] at this
      simpa using this
    have hold := hl.constAlias_of_later hlt hx
    rw [hl.constValue?_eq hs.program (hs.program.inOrder_of_decl hold (by simp))]
    exact hv x tag n hold

/-- **In every state that binding comes to, no constant divides by zero**, and those that are defined have values. -/
theorem Reached.constants (h : Reached options names s) : s.program.Undivided ∧ s.program.Valued := by
  induction h with
  | refl =>
    refine ⟨fun n hn => absurd hn (Nat.not_lt_zero _), fun x tag n hx => ?_⟩
    obtain ⟨own, hd⟩ := Program.decl_initial options.pointerWidth x
    cases hd.symm.trans hx
  | tail hs hstep ih =>
    have hsound := Reached.sound hs
    exact ⟨hstep.undivided hsound ih.1, hstep.valued hsound ih.2⟩

/-- **A division by zero is reported when its operator is folded**, and nothing else changes. -/
theorem fold_of_divisionByZero {c : Context} {operands : List NodeId} (hc : operands.all s.program.isConstant)
    (hz : s.program.eval n = .error .divisionByZero) : (BindM.fold n operands).runAt c s =
      (none, { s with log := s.log.add (.of (s.program.node n).pos .divisionByZero []) }) := by
  rw [BindM.fold, BindM.runAt_bind_some (BindM.runAt_ask _), if_neg (by simpa using hc),
    BindM.runAt_bind_some (BindM.runAt_ask _), hz]
  rfl

/-- **Constants are stable and never divide by zero.** In every state that binding comes to, a constant is no division by
zero, and in every later state it is a constant with the same value, or still without one. A constant that is defined has
a value, and what stands in the fingerprint of an instance is the value of a constant. An operator on constants that
divides by zero is reported when it is folded, and nothing else is changed; it does so when it takes the quotient or the
remainder of an integer by zero. -/
theorem constants_stable (options : BindOptions) (names : NameTable) :
    (∀ batches modules, Reached options names (bindAll options names batches) ∧
      Steps { coherent := True } (bindAll options names batches) (bindAll options names (batches ++ [modules]))) ∧
    ∀ s, Reached options names s →
      (∀ n : NodeId, n.index < s.program.nodes.size → s.program.isConstant n →
        s.program.eval n ≠ .error .divisionByZero ∧
        ∀ t, Steps { coherent := True } s t → t.program.isConstant n ∧ t.program.eval n = s.program.eval n) ∧
      (∀ x tag n, s.program.decl x = .constAlias tag n →
        n.index < s.program.nodes.size ∧ ∃ value, s.program.constValue? n = some value) ∧
      (∀ e ∈ s.program.memo, ∀ ty value, .const ty value ∈ e.1.2 →
        ∃ n : NodeId, n.index < s.program.nodes.size ∧ s.program.constValue? n = some value) ∧
      (∀ c n operands, operands.all s.program.isConstant → s.program.eval n = .error .divisionByZero →
        (BindM.fold n operands).runAt c s =
          (none, { s with log := s.log.add (.of (s.program.node n).pos .divisionByZero []) })) ∧
      ∀ n op left right a, (s.program.node n).kind = .arithmetic op left right → op = .div ∨ op = .rem →
        s.program.eval left = .ok (.int a) → s.program.eval right = .ok (.int 0) →
        s.program.eval n = .error .divisionByZero := by
  refine ⟨fun batches modules => ?_, fun s hs => ⟨fun n hn hc => ⟨hs.constants.1 n hn hc, fun t ht => ?_⟩,
    fun x tag n hx => ?_, fun e he => (hs.sound.memo e he).constants, fun c n operands => fold_of_divisionByZero, ?_⟩⟩
  · obtain ⟨hreached, hentered⟩ := bindAll_reached options names batches
    refine ⟨hreached, ?_⟩
    simpa only [bindAll, List.foldl_append, List.foldl_cons, List.foldl_nil] using (hreached.bindModules hentered modules).1
  · obtain ⟨-, hl, -⟩ := Steps.keep hs.sound ht
    exact ⟨by rw [hl.isConstant_eq hn, hc], hl.eval_eq hs.sound.program hn⟩
  · exact ⟨hs.sound.program.inOrder_of_decl hx (by simp), Option.isSome_iff_exists.1 (hs.constants.2 x tag n hx)⟩
  · rintro n op left right a hk (rfl | rfl) hl hr <;> rw [hs.sound.program.ordered.eval_arithmetic hk hl hr] <;> rfl

open Sample

/-- A quotient of constants that is converted and defined, handed to a function, and divided by zero. -/
def halved : Sample fun s => s.log.errorCount = 1 ∧ s.program.isConstant ⟨9⟩ ∧ 17 < s.program.nodes.size ∧
    (s.program.eval ⟨9⟩).toOption = some (.int 5) ∧ [⟨15⟩, ⟨16⟩].all s.program.isConstant ∧
    (s.program.node ⟨15⟩).kind = .literal (.int 5) false ∧ (s.program.node ⟨16⟩).kind = .literal (.int 0) true ∧
    (s.program.node ⟨17⟩).kind = .arithmetic .rem ⟨15⟩ ⟨16⟩ ∧
    s.program.memo.map (·.1.2) = [[.const (.int 64 true) (.int 5)]] where
  body :=
    [node (.define "c" none (some (node (.cast (node (.binary .div (node (.int 10 none)) (node (.int 2 none))))
        (name "Int64") .explicit))) { isConst := true }),
      function "f" [⟨.synthetic, "k", none, none, false, true⟩] [returns (name "k")],
      define "x" (call (name "f") [name "c"]), define "y" (node (.binary .rem (name "c") (node (.int 0 none))))]
  shown := by decide +kernel

/-- The quotient is `5` whatever is bound on top of it, and it is the value that the function was made for. Folding the
remainder again is an error again. -/
theorem halved_stable : (∀ modules, ((halved.state.bindModules {} modules).program.eval ⟨9⟩).toOption = some (.int 5)) ∧
    (∃ n : NodeId, halved.state.program.constValue? n = some (.int 5)) ∧
    ∀ c, ((BindM.fold ⟨17⟩ [⟨15⟩, ⟨16⟩]).runAt c halved.state).2.log.errorCount = 2 := by
  obtain ⟨herrors, hc, hlt, hvalue, hops, hl, hr, hk, hmemo⟩ := halved.holds
  obtain ⟨batches, hbound⟩ := halved.eq_bindAll
  obtain ⟨hrun, hall⟩ := constants_stable {} {}
  have hs := (hrun batches []).1
  have hsteps : ∀ modules, Steps { coherent := True } halved.state (halved.state.bindModules {} modules) := fun modules => by
    have hmore := (hrun batches modules).2
    rw [bindAll, bindAll, List.foldl_append] at hmore
    rwa [hbound]
  rw [← hbound] at hs
  obtain ⟨hstable, -, hfingerprints, hfold, hzero⟩ := hall _ hs
  generalize halved.state = s at *
  refine ⟨fun modules => ?_, ?_, fun c => ?_⟩
  · rw [((hstable ⟨9⟩ (Nat.lt_trans (by decide) hlt) hc).2 _ (hsteps modules)).2, hvalue]
  · have hm : [.const (.int 64 true) (.int 5)] ∈ s.program.memo.map (·.1.2) := by
      rw [hmemo]
      exact List.mem_cons_self
    obtain ⟨e, he, heq⟩ := List.mem_map.1 hm
    obtain ⟨n, -, hn⟩ := hfingerprints e he _ _ (heq ▸ List.mem_cons_self)
    exact ⟨n, hn⟩
  · have hleft : s.program.eval ⟨15⟩ = .ok (.int 5) := by simp [Program.eval, Program.evalUpTo, hl]
    have hright : s.program.eval ⟨16⟩ = .ok (.int 0) := by simp [Program.eval, Program.evalUpTo, hr]
    rw [hfold c ⟨17⟩ _ hops (hzero _ _ _ _ _ hk (.inr rfl) hleft hright)]
    show s.log.errorCount + 1 = 2
    rw [herrors]

end BindState

end Bindery
