import Bindery.Proofs.Entities
import Bindery.Proofs.References
/-!
# What the rules of a level give

The rules of a level are good when each of them, from any state where it may start, comes to a state that steps lead to
and gives what may be used at its place. A rule that enters a scope relies on the level below, so that all rules are good
by induction on the number of levels left.
-/
namespace Bindery

/-- What an expression denotes may be used at its place. -/
def Operand.Ok (k : Nat) (c : Context) (s : BindState) : Operand → Prop
  | .value n => Result k c s n
  | .type _ => True
  | .module x => (s.program.module? x).isSome
  | .callable x receiver => s.program.isCallable x ∧ ∀ n, receiver = some n → Passed k c s n

/-- An argument may be passed at a place. Its jumps and its type are looked at only if that is asked for. -/
def ArgValue.Ok (k : Nat) (c : Context) (s : BindState) (arg : ArgValue) (w : Prop := False) : Prop :=
  match arg with
  | .value n => Passed k c s n w
  | .type _ => True

/-- A value that is passed is one. -/
def ArgValue.HasValue (s : BindState) : ArgValue → Prop
  | .value n => (s.program.node n).ty ≠ .void
  | .type _ => True

/-- Every rule of a level gives what may be used at its place. -/
structure Level.Good (level : Level) : Prop where
  expression : ∀ tree, (level.expression tree).Closed Result
  type : ∀ tree, (level.type tree).Closed fun _ _ _ _ => True
  argument : ∀ tree, (level.argument tree).Closed fun k c t arg => arg.Ok k c t True ∧ arg.HasValue t
  branch : ∀ tree, (level.branch tree).Closed Result
  body : ∀ body c s b coherent, Ready s.program.nodes.size c s → Opens coherent b c.scope s →
    BindM.Ends (level.body body) c s (AtBody s.program.nodes.size b coherent s) fun nodes t =>
      ∀ n ∈ nodes, Kept s.program.nodes.size c t n
  members : ∀ owner body c s b coherent, Ready s.program.nodes.size c s → Opens coherent b c.scope s →
    (s.program.scope c.scope).kind = .struct → c.loopLabel = none → s.program.Members owner c.scope body →
    BindM.Ends (level.members owner body) c s (AtBody s.program.nodes.size b coherent s) fun _ _ => True

/-- The level below is good, if there is one. -/
def Room.Good (room : Room) : Prop := ∀ level, room.below () = some level → level.Good

section mono

variable {k k' : Nat} {c : Context} {s t : BindState} {w : Prop}

theorem Ready.top (h : Ready k c s) : Ready s.program.nodes.size c s := { h with le := Nat.le_refl _ }

theorem ArgValue.Ok.keep {arg : ArgValue} {floor : Floor} (h : arg.Ok k c s w) (hc : Ready k c s) (ht : Via floor s t)
    (hn : floor.nodes = s.program.nodes.size) (hsc : c.scope.index < floor.scopes) : arg.Ok k c t w := by
  cases arg with
  | value n => exact Passed.keep h hc ht hn hsc
  | type ty => trivial

theorem ArgValue.Ok.mono {arg : ArgValue} (h : arg.Ok k c s w) (hc : Ready k c s) (ht : At k' s t) : arg.Ok k c t w :=
  h.keep hc ht rfl hc.scope

theorem ArgValue.Ok.lower {arg : ArgValue} (h : arg.Ok k c s w) (hk : k' ≤ k) : arg.Ok k' c s w := by
  cases arg with
  | value n => exact Passed.lower h hk
  | type ty => trivial

/-- No jump to a label that stands in a scope leaves the tree of a node. -/
def Program.Catches (p : Program) (sc : ScopeId) (n : NodeId) : Prop :=
  ∀ (again : Bool) l own, p.decl l = .label own → (p.symbol l).scope = sc → (again → own.isLoop) → ¬ p.Leaves n again l

/-- A node catches the jumps to the label of its scope, and there is no other label. -/
theorem Program.Catches.of_labelled {p : Program} {sc : ScopeId} {n : NodeId} {label : Option SymbolId}
    (hl : p.Labelled sc label) (hj : (p.node n).kind.jump? = none) (hc : ∀ (again : Bool) l own, label = some l →
      p.decl l = .label own → (again → own.isLoop) → (p.node n).kind.catches again l) : p.Catches sc n := by
  intro again l own hd hs hloop hleave
  rcases Program.leaves_iff.1 hleave with h | ⟨h, -⟩
  · rw [hj] at h
    cases h
  · rw [hc again l own (hl l own hd hs) hd hloop] at h
    cases h

/-- A node of a block may stand around the block, if it catches the jumps to the label of the block. -/
theorem Kept.of_block {n : NodeId} {sc : ScopeId} (h : Kept k { c with scope := sc } s n w) (hs : s.Sound)
    (hk : (s.program.scope sc).kind = .block) (hp : (s.program.scope sc).parent = some c.scope)
    (hcatch : s.program.Catches sc n) : Kept k c s n w where
  range := h.range
  floor := h.floor
  names x hx hv := (Program.Seen.of_block hs.program.nested hk hp).1 (h.names x hx hv)
  returns := h.returns
  jumps hw again l hl := by
    refine (h.jumps hw again l hl).imp_right (.imp_right ?_)
    rintro ⟨own, hd, hf, hloop, ha⟩
    rw [Program.ancestors_of_some hs.program.nested hp, List.mem_cons] at ha
    rcases ha with ha | ha
    · exact absurd hl (hcatch again l own hd ha hloop)
    · exact ⟨own, hd, hf, hloop, ha⟩

end mono

namespace BindM

variable {α : Type} {floor : Floor} {k : Nat} {c : Context} {s₀ s : BindState} {room : Room} {post : α → BindState → Prop}

theorem Closed.ends {rule : BindM α} {P : Nat → Context → BindState → α → Prop} (h : rule.Closed P) (hc : Ready k c s) :
    Ends rule c s (At s.program.nodes.size s) fun a t => P s.program.nodes.size c t a := h c s hc.top

/-- A scope is entered with the rules of the level below, or an error is reported. -/
theorem enter_ends {reach : BindState → Prop} (hr : room.Good)
    (hs : ∀ log : Log, s.log.errorCount ≤ log.errorCount → reach { s with log }) {context : Context} {pos : Span}
    {rule : Level → BindM α} (h : ∀ level, level.Good → Ends (rule level) context s reach post) :
    Ends (room.enter context pos rule) c s reach post := by
  unfold Room.enter
  split
  · rename_i level hl
    exact .withReader (h level (hr level hl))
  · exact .run_bind rfl (.failure (hs _ (Nat.le_succ _)))

theorem inScope_ends (hr : room.Good) (hs : Via floor s₀ s) {scope : ScopeId} {pos : Span} {rule : Level → BindM α}
    (h : ∀ level, level.Good → Ends (rule level) { c with scope } s (Via floor s₀) post) :
    Ends (room.inScope scope pos rule) c s (Via floor s₀) post :=
  .read_bind (enter_ends hr (fun _ hl => hs.quiet hl) h)

theorem inContext_ends (hr : room.Good) (hs : Via floor s₀ s) {scope : ScopeId} {function : Option SymbolId}
    {modifiers : Modifiers} {pos : Span} {rule : Level → BindM α}
    (h : ∀ level, level.Good →
      Ends (rule level) { scope, function, modifiers := modifiers.inherited } s (Via floor s₀) post) :
    Ends (room.inContext scope function modifiers pos rule) c s (Via floor s₀) post :=
  enter_ends hr (fun _ hl => hs.quiet hl) h

end BindM

end Bindery
