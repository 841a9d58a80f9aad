import Bindery.Proofs.Binding
/-!
# Jumps

A `break` or a `continue` stands below what it goes to. A label is known inside its block and to the function around the
block only, and the label of a loop is forgotten where another function, a struct or a module begins. So a jump in the body
of a function has a block or a loop with its label above it, in the same body. Defaults are an exception: the default of a
parameter or a field is bound for the place where it stands, and used where a call or an initializer leaves it out. A jump
in it goes to a label around the default, and may get into the body of another function.
-/
namespace Bindery

/-- A template with a default argument, or a field with a default value. -/
def Decl.hasDefault : Decl → Bool
  | .template own => own.source.params.any (·.default.isSome)
  | .field own => own.default.isSome
  | _ => false

namespace Program

variable {p : Program} {n m : NodeId} {again : Bool} {l : SymbolId}

/-- A node in the tree of another one and above a jump has the label of the jump, and is a loop if the jump is to go on
with the next round. -/
def Caught (p : Program) (n m : NodeId) (again : Bool) (l : SymbolId) : Prop :=
  ∃ a, p.Within NodeKind.children n a ∧ p.Within NodeKind.children a m ∧ (p.node a).kind.catches again l

/-- A jump that is not caught in a tree leaves it. -/
theorem caught_or_leaves (hw : p.Within NodeKind.children n m) (hj : (p.node m).kind.jump? = some (again, l)) :
    p.Caught n m again l ∨ p.Leaves n again l := by
  induction hw with
  | self n => exact .inr (leaves_iff.2 (.inl hj))
  | @step n k m hk hw ih =>
    rcases ih hj with ⟨a, hka, ham, ha⟩ | hl
    · exact .inl ⟨a, .step hk hka, ham, ha⟩
    · cases hc : (p.node n).kind.catches again l with
      | true => exact .inl ⟨n, .self n, .step hk hw, hc⟩
      | false => exact .inr (leaves_iff.2 (.inr ⟨hc, k, hk, hl⟩))

theorem HoldsDefault.exists_hasDefault {sc : ScopeId} (h : p.HoldsDefault sc) :
    ∃ x : SymbolId, x.index < p.symbols.size ∧ (p.decl x).hasDefault := by
  cases h with
  | parameter t own ht hd _ => exact ⟨t, lt_of_template ht, by rwa [template?_eq_some.1 ht]⟩
  | field g own hg hd _ => exact ⟨g, lt_of_field hg, by rwa [field?_eq_some.1 hg]⟩

end Program

namespace BindState

/-- **Jumps stay inside their targets.** After any lists of modules were bound, each jump in the body of a function has
what it goes to above it in the same body, unless a default stands inside the block of its label. -/
theorem bindAll_jumps (options : BindOptions) (names : NameTable) (batches : List (List ModuleDef)) (f : SymbolId)
    (own : FunctionDecl) (n m : NodeId) (again : Bool) (l : SymbolId)
    (hf : (bindAll options names batches).program.function? f = some own) (hn : n ∈ own.body)
    (hw : (bindAll options names batches).program.Within NodeKind.children n m)
    (hj : ((bindAll options names batches).program.node m).kind.jump? = some (again, l)) :
    let p := (bindAll options names batches).program
    p.Caught n m again l ∨ p.HoldsDefault (p.symbol l).scope := by
  intro p
  have hp : p.Sound := (bindAll_reached options names batches).1.sound.program
  exact (Program.caught_or_leaves hw hj).imp_right (((hp.function hf).2.1 n hn).jumps again l)

/-- A loop in a loop goes on with the next round of the outer one. -/
def nextRound : Sample fun s => s.log.errorCount = 0 ∧ (s.program.function? ⟨20⟩).map (·.body) = some [⟨4⟩] ∧
    (s.program.node ⟨4⟩).kind = .loop ⟨4⟩ ⟨21⟩ none none none ⟨3⟩ ∧ (s.program.node ⟨3⟩).kind = .block ⟨5⟩ none [⟨2⟩] ∧
    (s.program.node ⟨2⟩).kind = .loop ⟨6⟩ ⟨22⟩ none none none ⟨1⟩ ∧ (s.program.node ⟨1⟩).kind = .block ⟨7⟩ none [⟨0⟩] ∧
    (s.program.node ⟨0⟩).kind = .continues ⟨21⟩ ∧
    ∀ i < s.program.symbols.size, (s.program.decl ⟨i⟩).hasDefault = false where
  body := [Sample.function "g" [] [Sample.node (.loop (some "L") none none none
      (Sample.node (.loop none none none none (Sample.node (.continues (some "L"))))))], Sample.call (Sample.name "g") []]
  shown := by decide +kernel

/-- The jump out of the inner loop stays in the outer one. -/
theorem nextRound_caught :
    let p := nextRound.state.program
    ∃ own, p.function? ⟨20⟩ = some own ∧ ⟨4⟩ ∈ own.body ∧ p.Within NodeKind.children ⟨4⟩ ⟨0⟩ ∧
      (p.node ⟨0⟩).kind = .continues ⟨21⟩ ∧ p.Caught ⟨4⟩ ⟨0⟩ true ⟨21⟩ := by
  have hshown := nextRound.holds
  obtain ⟨batches, hbound⟩ := nextRound.eq_bindAll
  rw [hbound] at hshown ⊢
  intro p
  obtain ⟨-, hf, h4, h3, h2, h1, h0, hnone⟩ := hshown
  obtain ⟨own, hf, hb⟩ := Option.map_eq_some_iff.1 hf
  have hn : ⟨4⟩ ∈ own.body := by rw [hb]; simp
  have hw : p.Within NodeKind.children ⟨4⟩ ⟨0⟩ := by
    refine .step (m := ⟨3⟩) ?_ (.step (m := ⟨2⟩) ?_ (.step (m := ⟨1⟩) ?_ (.step (m := ⟨0⟩) ?_ (.self _))))
    · rw [h4]; simp [NodeKind.children]
    · rw [h3]; simp [NodeKind.children]
    · rw [h2]; simp [NodeKind.children]
    · rw [h1]; simp [NodeKind.children]
  refine ⟨own, hf, hn, hw, h0, ?_⟩
  rcases bindAll_jumps {} {} batches ⟨20⟩ own ⟨4⟩ ⟨0⟩ true ⟨21⟩ hf hn hw (by rw [h0]; rfl) with h | h
  · exact h
  · obtain ⟨x, hx, hd⟩ := h.exists_hasDefault
    rw [hnone x.index hx] at hd
    cases hd

/-- A function in a labelled block has a default that breaks out of the block, and a lambda there leaves it out. -/
def strayJump : Sample fun s => s.log.errorCount = 0 ∧ (s.program.function? ⟨25⟩).map (·.body) = some [⟨4⟩] ∧
    (s.program.node ⟨4⟩).kind = .call ⟨29⟩ [⟨3⟩] ∧ (s.program.node ⟨3⟩).kind = .call ⟨27⟩ [⟨0⟩] ∧
    (s.program.node ⟨0⟩).kind = .breaks ⟨21⟩ ∧ ∀ i ≤ 4, (s.program.node ⟨i⟩).kind.catches false ⟨21⟩ = false where
  body := [Sample.function "g" [] [Sample.node (.block (some "L")
      [Sample.function "h" [Sample.param "y" none none] [Sample.returns (Sample.node (.bool true))],
       Sample.function "f" [Sample.param "x" none
        (some (Sample.call (Sample.node (.dot (Sample.node (.breaks (some "L"))) "h")) []))] [],
       Sample.define "l" (Sample.node (.lambda
        (Sample.functionDef none .plain [] none [Sample.call (Sample.name "f") []])))])],
    Sample.call (Sample.name "g") []]
  shown := by decide +kernel

/-- No error is reported, and in the lambda nothing stands above the jump that has its label. -/
theorem strayJump_not_caught :
    let s := strayJump.state
    s.log.errorCount = 0 ∧ ∃ f own n m l, s.program.function? f = some own ∧ n ∈ own.body ∧
      s.program.Within NodeKind.children n m ∧ (s.program.node m).kind = .breaks l ∧ ¬ s.program.Caught n m false l := by
  obtain ⟨hnone, hf, h4, h3, h0, hcatch⟩ := strayJump.holds
  obtain ⟨own, hf, hb⟩ := Option.map_eq_some_iff.1 hf
  refine ⟨hnone, ⟨25⟩, own, ⟨4⟩, ⟨0⟩, ⟨21⟩, hf, by rw [hb]; simp, ?_, h0, ?_⟩
  · refine .step (m := ⟨3⟩) ?_ (.step (m := ⟨0⟩) ?_ (.self _))
    · rw [h4]; simp [NodeKind.children]
    · rw [h3]; simp [NodeKind.children]
  · rintro ⟨a, ha, -, hc⟩
    rw [hcatch a.index (strayJump.sound.program.ordered.index_le_of_within ha)] at hc
    cases hc

end BindState

end Bindery
