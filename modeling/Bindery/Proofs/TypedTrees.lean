import Bindery.Proofs.Binding
/-!
# Bound trees are typed

Every node that binding makes keeps the typing rule of its kind, whether or not there were errors, and what a body
returns as a statement has the return type of the function.

Two things are less than one might expect. A field may be reached through a struct that only imports it, so that the
value before the dot need not be of the struct that the field belongs to. And a `return` may stand inside the value that
another one returns; the return type is then fixed twice, so that only the `return`s in statement positions have it.
-/
namespace Bindery

open BindState Sample

set_option maxRecDepth 10000

/-- **Bound trees are typed**: every node keeps the typing rule of its kind, and every `return` in a statement position
of a body has the return type of its function. -/
theorem typed_bindAll (options : BindOptions) (names : NameTable) (batches : List (List ModuleDef)) :
    let p := (bindAll options names batches).program
    (∀ n : NodeId, n.index < p.nodes.size → p.Typed p.ReachesField (p.node n)) ∧
      ∀ f own, p.function? f = some own → own.role ≠ .generatorStep → ∀ n ∈ own.body, ∀ ty, p.Returns n ty →
        own.ret = some ty := by
  intro p
  have hp : p.Sound := bindAll_sound options names batches
  refine ⟨fun n hn => (hp.fits n hn).typed, fun f own hf hrole n hn ty hr => ?_⟩
  obtain ⟨-, hbody, -⟩ := hp.function hf
  exact (hbody n hn).returns hrole ty hr

/-- A struct that imports a field of the struct around it. -/
def importedField : Sample fun s => s.log.errorCount = 0 ∧ 2 < s.program.nodes.size ∧
    (s.program.node ⟨2⟩).kind = .fieldName ⟨1⟩ ⟨22⟩ ∧ (s.program.field? ⟨22⟩).map (·.owner) = some ⟨20⟩ ∧
    (s.program.node ⟨1⟩).ty = .direct ⟨23⟩ where
  body :=
    [struct "S" [field "x" (name "Int32"), struct "T" [node (.importPath ["x"] (some "y"))]],
      field "v" (node (.dot (name "S") "T")), define "w" (node (.dot (name "v") "y"))]
  shown := by decide +kernel

/-- A `return` inside the value that another one returns. -/
def nestedReturn : Sample fun s => s.log.errorCount = 0 ∧
    (s.program.function? ⟨21⟩).map (fun own => (own.role, own.body, own.ret)) =
      some (.plain, [⟨5⟩], some (.int 64 false)) ∧
    (s.program.node ⟨5⟩).kind = .returns (some ⟨4⟩) ∧ (s.program.node ⟨4⟩).ty = .int 64 false ∧
    (s.program.node ⟨4⟩).kind = .call ⟨22⟩ [⟨1⟩] ∧ (s.program.node ⟨1⟩).kind = .returns (some ⟨0⟩) ∧
    (s.program.node ⟨0⟩).ty = .bool where
  body :=
    [function "f" [param "x" none none] [returns (node (.int 2 (IntSuffix.ofSpelling? "u64")))],
      function "g" [] [returns (call (node (.dot (returns (node (.bool true))) "f")) [])], call (name "g") []]
  shown := by decide +kernel

/-- The field has its type where it is read, and what stands in the body is of the return type. -/
theorem importedField_nestedReturn_typed :
    (let p := importedField.state.program
     (p.node ⟨2⟩).kind = .fieldName ⟨1⟩ ⟨22⟩ ∧ p.Typed p.ReachesField (p.node ⟨2⟩)) ∧
    (let p := nestedReturn.state.program
     p.Returns ⟨5⟩ (.int 64 false) ∧ ∃ own, p.function? ⟨21⟩ = some own ∧ ⟨5⟩ ∈ own.body ∧
        own.ret = some (.int 64 false)) := by
  refine ⟨?_, ?_⟩
  · obtain ⟨-, hsize, hk, -⟩ := importedField.holds
    obtain ⟨batches, hstate⟩ := importedField.eq_bindAll
    rw [hstate] at hsize hk ⊢
    exact ⟨hk, (typed_bindAll {} {} batches).1 ⟨2⟩ hsize⟩
  · obtain ⟨-, hf, hk, hty, -⟩ := nestedReturn.holds
    obtain ⟨own, hf, heq⟩ := Option.map_eq_some_iff.1 hf
    obtain ⟨hrole, hrest⟩ := Prod.mk.inj heq
    obtain ⟨hbody, -⟩ := Prod.mk.inj hrest
    have hmem : ⟨5⟩ ∈ own.body := by rw [hbody]; simp
    have hret : nestedReturn.state.program.Returns ⟨5⟩ (.int 64 false) := ⟨⟨5⟩, ⟨4⟩, .self _, hk, hty⟩
    obtain ⟨batches, hstate⟩ := nestedReturn.eq_bindAll
    rw [hstate] at hf hret ⊢
    exact ⟨hret, own, hf, hmem,
      (typed_bindAll {} {} batches).2 ⟨21⟩ own hf (by rw [hrole]; simp) ⟨5⟩ hmem _ hret⟩

/-- A field is read from a value of another struct than the one it belongs to, and a function returns values of two
types. -/
theorem importedField_nestedReturn :
    (let s := importedField.state
     s.log.errorCount = 0 ∧ ∃ n base f own, (s.program.node n).kind = .fieldName base f ∧
        s.program.field? f = some own ∧ (s.program.node base).ty ≠ .direct own.owner) ∧
    (let s := nestedReturn.state
     s.log.errorCount = 0 ∧ ∃ f own n m v, s.program.function? f = some own ∧ n ∈ own.body ∧
        s.program.Within NodeKind.children n m ∧ (s.program.node m).kind = .returns (some v) ∧
        own.ret ≠ some (s.program.node v).ty) := by
  refine ⟨?_, ?_⟩
  · obtain ⟨h0, -, hk, hf, ht⟩ := importedField.holds
    obtain ⟨own, hf, ho⟩ := Option.map_eq_some_iff.1 hf
    exact ⟨h0, _, _, _, own, hk, hf, by rw [ht, ho]; simp⟩
  · obtain ⟨h0, hf, h5, -, h4, h1, ht⟩ := nestedReturn.holds
    obtain ⟨own, hf, ho⟩ := Option.map_eq_some_iff.1 hf
    obtain ⟨-, hrest⟩ := Prod.mk.inj ho
    obtain ⟨hb, hr⟩ := Prod.mk.inj hrest
    refine ⟨h0, _, own, ⟨5⟩, ⟨1⟩, ⟨0⟩, hf, by rw [hb]; simp, .step (m := ⟨4⟩) ?_ (.step (m := ⟨1⟩) ?_ (.self _)), h1, ?_⟩
    · rw [h5]
      simp [NodeKind.children]
    · rw [h4]
      simp [NodeKind.children]
    · rw [hr, ht]
      decide

end Bindery
