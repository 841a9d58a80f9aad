import Bindery.Proofs.Binding
/-!
# Failures and reports

A rule that fails should have reported why. A name fails only with a report: what it denotes may be read, or the reason
why not is given. So does a conversion between types that are known.

A declaration that stands where a value or a type is expected fails without a report. Such a definition is dropped, and
the program binds without an error.
-/
namespace Bindery

theorem Ty.isUnknown_iff {ty : Ty} : ty.isUnknown ↔ ty = .unknown := by cases ty <;> simp [isUnknown]

namespace BindM

open BindState Sample

set_option maxRecDepth 10000

variable {α β : Type} {k : Nat} {c g : Context} {s t : BindState}

/-- A rule that fails has reported an error. -/
def Reports (rule : BindM α) (c : Context) (s : BindState) : Prop :=
  (rule.runAt c s).1 = none → s.log.errorCount < (rule.runAt c s).2.log.errorCount

namespace Reports

theorem of_run {x : BindM α} {a : α} (h : x.runAt c s = (some a, t)) : Reports x c s := by
  rw [Reports, h]
  rintro ⟨⟩

theorem pure (a : α) : Reports (Pure.pure a) c s := of_run (runAt_pure a)

theorem report_failure {diagnostic : Diagnostic} (h : diagnostic.isError) :
    Reports (do report diagnostic; failure : BindM α) c s := fun _ => by
  show s.log.errorCount < (s.log.add diagnostic).errorCount
  rw [Log.add, if_pos h]
  exact Nat.lt_succ_self _

theorem fail (pos : Span) {message : Message} (args : List String) (h : message.category = .error) :
    Reports (BindM.fail pos message args : BindM α) c s :=
  report_failure (show (message.category == .error) = true by rw [h]; rfl)

/-- A sequence reports when its rules do: no report is taken back. -/
theorem bind {x : BindM α} {f : α → BindM β} {P : α → BindState → Prop} (hends : Ends x c s (At k s) P)
    (hx : Reports x c s) (hf : ∀ a t, At k s t → P a t → Reports (f a) c t) : Reports (x >>= f) c s := by
  have hle := hends.reach.frame.errors
  have hpost := hends.post
  have hreach := hends.reach
  unfold Reports at hx ⊢
  rcases hrun : x.runAt c s with ⟨_ | a, t⟩ <;> rw [hrun] at hx hle hpost hreach <;> rw [runAt_bind, hrun]
  · exact fun _ => hx rfl
  · exact fun h => Nat.lt_of_le_of_lt hle (hf a t hreach (hpost a rfl) h)

theorem ask_bind {question : Program → α} {f : α → BindM β} (h : Reports (f (question s.program)) c s) :
    Reports (ask question >>= f) c s := h

theorem read_bind {f : Context → BindM β} (h : Reports (f c) c s) : Reports (read >>= f) c s := h

theorem ite {p : Prop} [Decidable p] {x y : BindM α} (hx : p → Reports x c s) (hy : ¬p → Reports y c s) :
    Reports (if p then x else y) c s := by
  split
  · exact hx ‹_›
  · exact hy ‹_›

end Reports

/-! ## Names -/

/-- The way through closures that capture is always found. -/
theorem captureThrough_reports {x : SymbolId} {ty : Ty} {pos : Span} {place : ScopeId} :
    ∀ {rest done : List SymbolId} {hops : List CaptureHop} {s : BindState}, Ready k g s →
      (s.program.decl x).valueType? = some ty → Crossed s.program x place done rest hops →
      Reports (captureThrough x ty pos rest (sourceAfter x hops) hops) c s
  | [], _, _, _, _, _, _ => .pure _
  | f :: rest, done, hops, s, hg, hty, h => by
    obtain ⟨own, closure, outer, hf, hown, hscope, -, hcap, hinside, hkeep⟩ := h.next hg.sound.program hty
    have hfield : Reports (captureField closure x (sourceAfter x hops) ty pos) c s := by
      refine .ask_bind ?_
      split
      · exact .pure _
      · exact .of_run rfl
    refine .ask_bind ?_
    rw [hf, Option.bind_some, hown]
    refine .bind (captureField_ends hg hkeep hscope hcap) hfield fun field t ht hfield => .ask_bind ?_
    obtain ⟨hown', hnext⟩ := h.advance hg ht hty hf hown hscope (hkeep 0 none).closure hinside hfield
    rw [hown']
    have hsource : sourceAfter x (hops ++ [⟨outer, field⟩]) = field := by simp [sourceAfter]
    nth_rewrite 1 [← hsource]
    exact captureThrough_reports (ht.ready hg) (ht.later.valueType hty) hnext

/-- A variable is read, or it is reported that a function on the way does not capture. -/
theorem variableReference_reports {x : SymbolId} {pos : Span} {ty : Ty} (hc : Ready k c s)
    (hty : (s.program.decl x).valueType? = some ty) : Reports (variableReference x pos) c s := by
  refine .ask_bind ?_
  rw [hty]
  refine .read_bind (.ask_bind (.ask_bind ?_))
  split
  · exact .ask_bind (.ask_bind (.fail _ _ rfl))
  · rename_i hnone
    have hall : ∀ f ∈ s.program.crossedFunctions c.scope x, s.program.mayCapture f := by simpa using hnone
    refine .bind (captureAll_ends hc hty hall) ?_ fun way t _ _ => .of_run rfl
    by_cases hv : (s.program.decl x).isVariable
    · rw [crossedFunctions_eq, if_pos hv] at hall ⊢
      exact captureThrough_reports hc hty (.start hall)
    · rw [crossedFunctions_eq, if_neg hv]
      exact .pure _

/-- What a symbol stands for is read, or the reason why not is reported. -/
theorem reference_reports {x : SymbolId} {pos : Span} {ty : Ty} (hc : Ready k c s)
    (hty : (s.program.decl x).valueType? = some ty) : Reports (reference x pos) c s := by
  refine .ask_bind ?_
  split
  · refine .read_bind (.ask_bind ?_)
    split
    · rename_i this hthis
      obtain ⟨hsight, hptr⟩ := receiver?_spec hc.sound.program hthis
      exact .bind (variableReference_ends hc hsight) (variableReference_reports hc hptr) fun _ _ _ _ =>
        .of_run rfl
    · exact .ask_bind (.fail _ _ rfl)
  · exact variableReference_reports hc hty

/-- **A name denotes something, or it is reported why not**, unless it is the name of a constant without a value. -/
theorem nameOperand_reports {name : String} {pos : Span} (hc : Ready k c s)
    (hv : ∀ x tag value, s.program.lookup? c.scope name = some x →
      s.program.decl (s.program.resolveAlias x) = .constAlias tag value → (s.program.constValue? value).isSome) :
    Reports (nameOperand name pos) c s := by
  refine .read_bind (.ask_bind ?_)
  split
  · rename_i symbol hl
    have hsight := (hc.sound.program.inSight_of_lookup hl).2
    refine .ask_bind (.ask_bind ?_)
    cases hd : s.program.decl (s.program.resolveAlias symbol) with
    | builtin | struct | union | array | enum | typeAlias | module | template | overloadSet | function => exact .pure _
    | constAlias tag value =>
      obtain ⟨constant, hconst⟩ := Option.isSome_iff_exists.1 (hv symbol tag value hl hd)
      refine .ask_bind ?_
      rw [hconst]
      exact .of_run rfl
    | parameter | localVar | globalVar | field =>
      exact .bind (reference_ends hc hsight) (reference_reports hc (by rw [hd]; rfl)) fun _ _ _ _ => .pure _
    | label | valueAlias => exact .ask_bind (.fail _ _ rfl)
  · exact .fail _ _ rfl

/-! ## Conversions -/

theorem isError_diagnostic (cause : CastFailure) (intent : Intent) (pos : Span) (source target : String) :
    (cause.diagnostic intent pos source target).isError := by
  cases cause <;> cases intent <;> rfl

/-- The steps of a plan are all made. -/
theorem applySteps_run {pos : Span} : ∀ (steps : List CastStep) (constant : Bool) (n : NodeId) (s : BindState),
    ∃ m t, (applySteps pos steps constant n).runAt c s = (some m, t)
  | [], _, n, s => ⟨n, s, rfl⟩
  | step :: rest, constant, n, s => by
    unfold applySteps
    rw [runAt_bind_some rfl]
    split
    · exact applySteps_run rest true _ _
    · exact applySteps_run rest false _ _

/-- **A conversion between known types is made, or it is reported why not.** -/
theorem convert_reports {n : NodeId} {target : Ty} {intent : Intent} (hs : (s.program.node n).ty ≠ .unknown)
    (ht : target ≠ .unknown) : Reports (convert n target intent) c s := by
  refine .ask_bind (.ask_bind (.ite (fun h => ?_) fun _ => .ask_bind ?_))
  · rcases Bool.or_eq_true_iff.1 h with h | h
    · exact absurd (Ty.isUnknown_iff.1 h) hs
    · exact absurd (Ty.isUnknown_iff.1 h) ht
  · split
    · obtain ⟨m, t, hrun⟩ := applySteps_run _ _ n s
      exact .ask_bind (.of_run hrun)
    · exact .ask_bind (.ask_bind (.report_failure (isError_diagnostic _ _ _ _ _)))

/-! ## Declarations -/

theorem formOperand_declaration {room : Room} {pos : Span} {form : Form} (h : form.isDeclaration) :
    formOperand room pos form = failure := by
  cases form <;> first | (cases h; done) | simp only [formOperand]

/-- A declaration denotes nothing, and does nothing, where it stands. -/
theorem settled_declaration {room : Room} {tree : Syntax} (h : tree.form.isDeclaration) :
    ((part room tree).settled room).runAt c s = (none, s) := by
  obtain ⟨pos, form⟩ := tree
  refine runAt_bind_none ?_
  have hform : formOperand room pos form = failure := formOperand_declaration h
  show (formOperand room pos form).runAt c s = _
  rw [hform, runAt_failure]

/-- A module without statements, and so without the name `y`. -/
def emptyModule : Sample fun s => 2 < s.program.scopes.size ∧ s.program.lookup? ⟨2⟩ "y" = none ∧
    ((nameOperand "y" .synthetic).runAt { scope := ⟨2⟩ } s).1.isNone where
  body := []
  shown := by decide +kernel

/-- A definition of a variable by a function. -/
def definedFunction : Sample fun s => s.log.errorCount = 0 ∧ s.program.nodes.size = 0 ∧
    (s.program.symbol ⟨17⟩).name = "m" ∧ (s.program.symbol ⟨17⟩).ownScope = some ⟨2⟩ ∧
    s.program.member? ⟨2⟩ "x" = none where
  body := [define "x" (function "f" [] [])]
  shown := by decide +kernel

end BindM

end Bindery
