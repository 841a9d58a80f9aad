import Bindery.Proofs.Binding
/-!
# Variables of other functions

A body reads its own variables as they are, and the variables of the functions around it through closures. The way to a
captured variable goes from closure to closure, outside in: every field on it keeps that variable and is filled from the
field before it.

A variable may be read as it is outside its home where it is exposed. A default argument is bound in the scope of its
template and used where the template is called; a lambda that calls a template of the function around it reads the
variables of that function, without capturing them, when the default argument names them.
-/
namespace Bindery

open BindState Sample

set_option maxRecDepth 10000

/-- A lambda calls a function whose default argument names a variable outside the lambda. -/
def defaultArgument : Sample fun s => s.log.errorCount = 0 ∧
    (s.program.function? ⟨24⟩).map (fun own => (own.role, own.body)) = some (.lambdaCall, [⟨3⟩]) ∧
    (s.program.node ⟨3⟩).kind = .call ⟨26⟩ [⟨2⟩] ∧ (s.program.node ⟨2⟩).kind = .valueName ⟨22⟩ [] ∧
    (s.program.decl ⟨22⟩).isVariable ∧ (s.program.symbol ⟨22⟩).scope = ⟨3⟩ ∧
    (s.program.scope ⟨3⟩).kind = .function ∧ (s.program.symbol ⟨24⟩).ownScope = some ⟨5⟩ where
  body :=
    [function "g" []
      [define "y" (node (.bool true)), function "f" [param "x" none (some (name "y"))] [],
        define "l" (node (.lambda (functionDef none .lambda [] none [call (name "f") []])))],
      call (name "g") []]
  shown := by decide +kernel

theorem defaultArgument_body : ∃ own, defaultArgument.state.program.function? ⟨24⟩ = some own ∧
    own.role = .lambdaCall ∧ ⟨3⟩ ∈ own.body ∧ defaultArgument.state.program.Names ⟨3⟩ ⟨22⟩ := by
  obtain ⟨-, hf, h3, h2, -⟩ := defaultArgument.holds
  obtain ⟨own, hf, heq⟩ := Option.map_eq_some_iff.1 hf
  obtain ⟨hrole, hbody⟩ := Prod.mk.inj heq
  refine ⟨own, hf, hrole, by rw [hbody]; simp, ⟨2⟩, .step (m := ⟨2⟩) ?_ (.self _), h2⟩
  rw [h3]
  simp [NodeKind.children]

/-- **The way to a captured variable is well formed**: its fields keep the variable and are filled one from another, from
the variable on, and its closures lie one inside another. No closure keeps a variable twice. -/
theorem captures_bindAll (options : BindOptions) (names : NameTable) (batches : List (List ModuleDef)) :
    let p := (bindAll options names batches).program
    (∀ n x hops, (p.node n).kind = .valueName x hops → p.Way x x hops) ∧
      ∀ closure own, p.decl closure = .struct own → own.kind = .lambda ∨ own.kind = .resumable →
        own.fields.Pairwise p.Apart := by
  intro p
  have hp : p.Sound := bindAll_sound options names batches
  refine ⟨fun n x hops hk => ?_, fun closure own hd _ => (hp.hasFields hd).apart⟩
  by_cases hn : n.index < p.nodes.size
  · exact ((hp.fits n hn).named x hops hk).2.2
  · rw [Program.node_of_le (Nat.le_of_not_lt hn)] at hk
    cases hk

/-- A lambda inside another one that uses a variable outside both. -/
def nestedLambda : Sample fun s =>
    (s.program.node ⟨2⟩).kind = .valueName ⟨21⟩ [⟨⟨4⟩, ⟨28⟩⟩, ⟨⟨6⟩, ⟨29⟩⟩] ∧
    (match s.program.decl ⟨22⟩ with
      | .struct own => some (own.kind, own.fields)
      | _ => none) = some (.lambda, [⟨28⟩]) where
  body :=
    [function "g" []
      [define "y" (node (.bool true)),
        define "l" (node (.lambda (functionDef none .lambda [] none
          [node (.lambda (functionDef none .lambda [] none [returns (name "y")]))])))],
      call (name "g") []]
  shown := by decide +kernel

/-- The inner lambda reaches the variable through both closures, each of which keeps it once. -/
theorem nestedLambda_captures :
    let p := nestedLambda.state.program
    (p.node ⟨2⟩).kind = .valueName ⟨21⟩ [⟨⟨4⟩, ⟨28⟩⟩, ⟨⟨6⟩, ⟨29⟩⟩] ∧
      p.Way ⟨21⟩ ⟨21⟩ [⟨⟨4⟩, ⟨28⟩⟩, ⟨⟨6⟩, ⟨29⟩⟩] ∧ [⟨28⟩].Pairwise p.Apart := by
  obtain ⟨hk, hs⟩ := nestedLambda.holds
  obtain ⟨batches, hstate⟩ := nestedLambda.eq_bindAll
  rw [hstate] at hk hs ⊢
  obtain ⟨hway, hfields⟩ := captures_bindAll {} {} batches
  refine ⟨hk, hway ⟨2⟩ _ _ hk, ?_⟩
  split at hs
  · rename_i own hd
    obtain ⟨hkind, hlist⟩ := Prod.mk.inj (Option.some.inj hs)
    rw [← hlist]
    exact hfields ⟨22⟩ own hd (.inl hkind)
  · cases hs

end Bindery
