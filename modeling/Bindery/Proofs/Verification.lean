import Bindery.Compilation
import Bindery.Proofs.Binding
/-!
# What is handed on

Every module that is bound may be handed on. It has an entry, and no node refers to a template or to an alias: a name is
followed through its aliases, and a template is instantiated, before a node is made with the symbol. So the check of the
modules finds nothing, whatever the walk from an entry visits, and a compilation without errors has its summaries.
-/
namespace Bindery

namespace Program

variable {p : Program}

theorem unfinished?_eq_none {x : SymbolId} (h : (p.decl x).isFinished) : p.unfinished? x = none := by
  unfold unfinished?
  generalize p.decl x = d at h
  cases d <;> first | rfl | cases h

/-- What a node refers to is finished. -/
theorem Sound.isFinished_of_mem_symbols (hp : p.Sound) {n : NodeId} {x : SymbolId}
    (hx : x ∈ (p.node n).kind.symbols) : (p.decl x).isFinished := by
  by_cases hn : n.index < p.nodes.size
  · exact ((hp.fits n hn).symbols x hx).finished
  · rw [node_of_le (Nat.le_of_not_lt hn)] at hx
    cases hx

/-- A module with an entry is summarised, whatever nodes its entry reaches. -/
theorem Sound.summarize_ok (hp : p.Sound) {m e : SymbolId} {own : ModuleDecl} (hm : p.module? m = some own)
    (he : own.entry = some e) : ∃ summary, p.summarize m = .ok summary := by
  have hnone : ∀ body, ((p.walk body).map p.node).findSome? (fun node => node.kind.symbols.findSome? p.unfinished?) =
      none := by
    intro body
    refine List.findSome?_eq_none_iff.2 fun node hnode => List.findSome?_eq_none_iff.2 fun x hx => ?_
    obtain ⟨n, -, rfl⟩ := List.mem_map.1 hnode
    exact unfinished?_eq_none (hp.isFinished_of_mem_symbols hx)
  simp only [summarize, hm, he, hnone]
  exact ⟨_, rfl⟩

/-- **A sound program whose modules have entries is verified.** -/
theorem Sound.verify_ok (hp : p.Sound) (he : p.Entered) : ∃ summaries, p.verify = .ok summaries := by
  have hall : ∀ modules : List SymbolId, (∀ m ∈ modules, m ∈ p.modules) →
      ∃ summaries, modules.mapM p.summarize = .ok summaries := by
    intro modules
    induction modules with
    | nil => exact fun _ => ⟨[], rfl⟩
    | cons m rest ih =>
      intro hmem
      obtain ⟨own, hm, hentry⟩ := he m (hmem m (by simp))
      obtain ⟨e, hentry⟩ := Option.isSome_iff_exists.1 hentry
      obtain ⟨summary, hsummary⟩ := hp.summarize_ok hm hentry
      obtain ⟨summaries, hrest⟩ := ih fun m' hm' => hmem m' (by simp [hm'])
      refine ⟨summary :: summaries, ?_⟩
      rw [List.mapM_cons, hsummary, hrest]
      rfl
  exact hall p.modules fun _ h => h

end Program

/-- Loading fails with the error of a module. -/
theorem Source.loadAll_ne_verify (error : VerifyError) : ∀ (sources : List Source) (names : NameTable),
    loadAll sources names ≠ .error (.verify error)
  | [], _ => by simp [loadAll]
  | source :: rest, names => by
    rw [loadAll]
    split
    · simp
    · rename_i module names' _
      have ih := loadAll_ne_verify error rest names'
      rcases hrest : loadAll rest names' with fault | loaded
      · rw [hrest] at ih
        simpa [bind, Except.bind] using ih
      · simp [bind, Except.bind, pure, Except.pure]

namespace Compilation

/-- When no error was reported, the summaries of the modules are there. -/
theorem ofModules_ok (options : Options) (names : NameTable) (modules : List ModuleDef) :
    ∃ result, ofModules options names modules = .ok result := by
  obtain ⟨hreached, hentered⟩ := BindState.bindAll_reached options.bindOptions names [modules]
  obtain ⟨summaries, hv⟩ := hreached.sound.program.verify_ok hentered
  have hv : ((BindState.initial options.bindOptions names).bindModules options.bindOptions modules).program.verify =
      .ok summaries := hv
  simp only [ofModules, hv]
  split
  · exact ⟨_, rfl⟩
  · exact ⟨_, rfl⟩

theorem ofSources_ne_verify (options : Options) (sources : List Source) (error : VerifyError) :
    ofSources options sources ≠ .error (.verify error) := by
  unfold ofSources
  split
  · simp [throw, throwThe, MonadExceptOf.throw, bind, Except.bind]
  · have hload := Source.loadAll_ne_verify error sources {}
    rcases hl : Source.loadAll sources {} with fault | ⟨modules, names⟩
    · rw [hl] at hload
      simpa [bind, Except.bind] using hload
    · obtain ⟨result, hr⟩ := ofModules_ok options names modules
      simp [bind, Except.bind, hr]

/-- **What is bound is always verified.** In every program that modules are bound to, with errors or without, every
module has a function for its entry, and no node that the walk from its body visits refers to a template, an overload
set or an alias. So every check of the modules succeeds, and no compilation ends with an error of the check. -/
theorem verifies (options : Options) :
    (∀ names batches, let p := (BindState.bindAll options.bindOptions names batches).program
      (∀ m ∈ p.modules, ∃ own e f, p.module? m = some own ∧ own.entry = some e ∧ p.function? e = some f ∧
        ∀ n ∈ p.walk f.body, ∀ x ∈ (p.node n).kind.symbols, (p.decl x).isFinished) ∧
      ∃ summaries, p.verify = .ok summaries) ∧
    (∀ names modules, ∃ result, ofModules options names modules = .ok result) ∧
    ∀ sources error, ofSources options sources ≠ .error (.verify error) := by
  refine ⟨fun names batches => ?_, ofModules_ok options, ofSources_ne_verify options⟩
  obtain ⟨hreached, hentered⟩ := BindState.bindAll_reached options.bindOptions names batches
  have hp := hreached.sound.program
  refine ⟨fun m hm => ?_, hp.verify_ok hentered⟩
  obtain ⟨own, hown, hentry⟩ := hentered m hm
  obtain ⟨e, he⟩ := Option.isSome_iff_exists.1 hentry
  obtain ⟨f, hf⟩ := Option.isSome_iff_exists.1 ((hp.module hown).2.2 e he)
  exact ⟨own, e, f, hown, he, hf, fun n _ x hx => hp.isFinished_of_mem_symbols hx⟩

open Sample

set_option maxRecDepth 10000

/-- An alias of two functions of one name, one of which calls the other. -/
def aliasedOverloads : Sample fun s => s.log.errorCount = 0 ∧ s.program.modules = [⟨17⟩] ∧
    (∀ own, s.program.module? ⟨17⟩ = some own → ∀ e, own.entry = some e → ∀ f, s.program.function? e = some f →
      ⟨5⟩ ∈ s.program.walk f.body) ∧
    (s.program.node ⟨5⟩).kind.symbols = [⟨26⟩] ∧ (s.program.decl ⟨19⟩).isFinished = false ∧
    (s.program.decl ⟨22⟩).isFinished = false where
  body :=
    [function "f" [param "x" none none] [returns (name "x")],
      function "f" [param "x" none none, param "y" none none] [returns (call (name "f") [name "x"])],
      node (.aliasAs "g" (name "f")),
      call (name "g") [node (.bool true), node (.bool false)]]
  shown := by decide +kernel

/-- The walk from the entry visits the inner call, which refers to an instance. -/
theorem aliasedOverloads_verifies :
    let p := aliasedOverloads.state.program
    ∃ own e f, p.module? ⟨17⟩ = some own ∧ own.entry = some e ∧ p.function? e = some f ∧ ⟨5⟩ ∈ p.walk f.body ∧
      (p.node ⟨5⟩).kind.symbols = [⟨26⟩] ∧ (p.decl ⟨26⟩).isFinished ∧ ∃ summaries, p.verify = .ok summaries := by
  have hshown := aliasedOverloads.holds
  obtain ⟨batches, hbound⟩ := aliasedOverloads.eq_bindAll
  have hverifies := (verifies {}).1 {} batches
  rw [show ({} : Options).bindOptions = {} from rfl, ← hbound] at hverifies
  generalize aliasedOverloads.state = s at hshown hverifies ⊢
  obtain ⟨-, hmodules, hwalk, hsymbols, -⟩ := hshown
  obtain ⟨own, e, f, hm, he, hf, hfinished⟩ := hverifies.1 ⟨17⟩ (by simp [hmodules])
  have hmem := hwalk own hm e he f hf
  exact ⟨own, e, f, hm, he, hf, hmem, hsymbols, hfinished ⟨5⟩ hmem ⟨26⟩ (by simp [hsymbols]), hverifies.2⟩

end Compilation

end Bindery
