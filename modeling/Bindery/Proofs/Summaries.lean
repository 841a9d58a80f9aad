import Bindery.Proofs.Verification
import Bindery.Proofs.Walks
import Mathlib.Data.Set.Card
/-!
# What summaries count

The summary of a module counts the nodes that can be reached from its entry, each once. Of the functions it counts the
entry and those that are called by a node that can be reached. A walk enters more functions than these: one that is used
as a value, runs as a constructor or a disposer, steps a generator, or is the method of the struct that a type is about.
So the number of functions is that of all functions that can be reached only where each of them is called as well.
-/
namespace Bindery

theorem ncard_eq_length {α : Type} {P : α → Prop} {items : List α} (hnodup : items.Nodup) (h : ∀ a, a ∈ items ↔ P a) :
    {a | P a}.ncard = items.length := by
  classical
  have hset : {a | P a} = (items.toFinset : Set α) := by
    ext a
    simp [h]
  rw [hset, Set.ncard_coe_finset, List.toFinset_card_of_nodup hnodup]

/-- A part of a finite set has as many members only if it is the whole. -/
theorem ncard_eq_iff {α : Type} {part whole : Set α} (h : part ⊆ whole) (hfinite : whole.Finite) :
    part.ncard = whole.ncard ↔ whole ⊆ part := by
  constructor
  · intro heq
    exact (Set.eq_of_subset_of_ncard_le h (Nat.le_of_eq heq.symm) hfinite).symm.subset
  · intro h'
    rw [Set.Subset.antisymm h h']

/-- What a rule that may fail gives for the items of a list, one by one. -/
theorem forall₂_of_mapM_ok {ε α β : Type} {rule : α → Except ε β} : ∀ {items : List α} {results : List β},
    items.mapM rule = .ok results → List.Forall₂ (fun a b => rule a = .ok b) items results
  | [], results, h => by
    rw [List.mapM_nil] at h
    cases h
    exact .nil
  | a :: items, results, h => by
    rw [List.mapM_cons] at h
    cases ha : rule a with
    | error e =>
      rw [ha] at h
      cases h
    | ok b =>
      cases hrest : items.mapM rule with
      | error e =>
        rw [ha, hrest] at h
        cases h
      | ok rest =>
        rw [ha, hrest] at h
        cases h
        exact .cons ha (forall₂_of_mapM_ok hrest)

namespace Program

variable {p : Program} {roots : List NodeId} {f : SymbolId}

/-! ## The nodes of a walk -/

theorem walk_covers (p : Program) (roots : List NodeId) : let last := Walk.run p (p.walkBound roots) { pending := roots }
    Walk.Covers p roots [] [] last ∧ last.pending = [] := by
  refine ⟨?_, Walk.pending_run (Nat.le_of_eq (Walk.remaining_start p roots))⟩
  rw [Walk.run_eq_iterate]
  exact (Walk.Covers.start p roots).iterate _

theorem nodup_walk (p : Program) (roots : List NodeId) : (p.walk roots).Nodup :=
  List.nodup_reverse.2 (p.walk_covers roots).1.once

theorem mem_walk (p : Program) (roots : List NodeId) {n : NodeId} : n ∈ p.walk roots ↔ p.Reachable roots n := by
  obtain ⟨hcovers, hend⟩ := p.walk_covers roots
  rw [walk, List.mem_reverse]
  exact hcovers.mem_visited_iff hend

/-! ## Functions -/

/-- **A function that some nodes reach**: a node that can be reached from them refers to it, or has a type that is about a
struct or a union of which it is the method. -/
structure ReachesFunction (p : Program) (roots : List NodeId) (f : SymbolId) : Prop where
  function : (p.function? f).isSome
  place : ∃ n, p.Reachable roots n ∧ (f ∈ (p.node n).kind.symbols ∨ ∃ x struct, (p.node n).ty.base? = some x ∧
    p.struct? x = some struct ∧ struct.method = some f)

/-- A function that a node calls which can be reached from some nodes. -/
def CallsFunction (p : Program) (roots : List NodeId) (f : SymbolId) : Prop :=
  ∃ n args, p.Reachable roots n ∧ (p.node n).kind = .call f args

/-- What is called is a function. -/
theorem CallsFunction.reaches (hp : p.Sound) (h : p.CallsFunction roots f) : p.ReachesFunction roots f := by
  obtain ⟨n, args, hn, hk⟩ := h
  have hlt : n.index < p.nodes.size := by
    by_contra hge
    rw [node_of_le (Nat.le_of_not_lt hge)] at hk
    cases hk
  obtain ⟨-, own, hf, -⟩ := (hp.fits n hlt).called f args hk
  exact ⟨by rw [hf]; rfl, n, hn, .inl (by rw [hk]; exact List.mem_singleton_self f)⟩

theorem finite_reachesFunction (p : Program) (roots : List NodeId) (e : SymbolId) :
    {f | f = e ∨ p.ReachesFunction roots f}.Finite := by
  have htable : {f : SymbolId | f.index < p.symbols.size}.Finite :=
    (Set.finite_lt_nat p.symbols.size).preimage fun _ _ _ _ => SymbolId.ext
  refine (htable.insert e).subset ?_
  rintro f (rfl | hf)
  · exact .inl rfl
  · obtain ⟨own, hown⟩ := Option.isSome_iff_exists.1 hf.function
    exact .inr (lt_of_function hown)

theorem nodup_addCalled {functions : List SymbolId} (h : functions.Nodup) (node : Node) :
    (addCalled functions node).Nodup := by
  unfold addCalled
  split
  · split
    · exact h
    · rename_i hnew
      exact List.nodup_append.2 ⟨h, List.nodup_singleton _, fun a ha b hb => by
        rintro rfl
        exact hnew (List.mem_singleton.1 hb ▸ ha)⟩
  · exact h

theorem mem_addCalled {functions : List SymbolId} {node : Node} :
    f ∈ addCalled functions node ↔ f ∈ functions ∨ ∃ args, node.kind = .call f args := by
  unfold addCalled
  split
  · rename_i g args hk
    rw [hk]
    split
    · rename_i hold
      refine ⟨.inl, ?_⟩
      rintro (hf | ⟨_, ⟨⟩⟩)
      · exact hf
      · exact hold
    · simp [eq_comm]
  · rename_i hother
    refine ⟨.inl, ?_⟩
    rintro (hf | ⟨args, hk⟩)
    · exact hf
    · exact absurd hk (hother f args)

theorem nodup_foldl_addCalled : ∀ (nodes : List Node) {functions : List SymbolId}, functions.Nodup →
    (nodes.foldl addCalled functions).Nodup
  | [], _, h => h
  | node :: rest, _, h => nodup_foldl_addCalled rest (nodup_addCalled h node)

theorem mem_foldl_addCalled : ∀ (nodes : List Node) {functions : List SymbolId},
    f ∈ nodes.foldl addCalled functions ↔ f ∈ functions ∨ ∃ node ∈ nodes, ∃ args, node.kind = .call f args
  | [], _ => by simp
  | node :: rest, functions => by
    rw [List.foldl_cons, mem_foldl_addCalled rest, mem_addCalled, or_assoc]
    simp

/-- The functions that are counted, each once: the entry and those that a node of the walk calls. -/
theorem mem_called (e : SymbolId) :
    f ∈ ((p.walk roots).map p.node).foldl addCalled [e] ↔ f = e ∨ p.CallsFunction roots f := by
  rw [mem_foldl_addCalled, List.mem_singleton]
  refine or_congr_right ⟨?_, ?_⟩
  · rintro ⟨_, hnode, args, hk⟩
    obtain ⟨n, hn, rfl⟩ := List.mem_map.1 hnode
    exact ⟨n, args, (p.mem_walk roots).1 hn, hk⟩
  · rintro ⟨n, args, hn, hk⟩
    exact ⟨p.node n, List.mem_map_of_mem ((p.mem_walk roots).2 hn), args, hk⟩

/-! ## Summaries -/

/-- **What the summary of a module says.** The functions are counted that are called; they are all that can be reached
if each of these but the entry is called. -/
structure Summarizes (p : Program) (m : SymbolId) (summary : ModuleSummary) (own : FunctionDecl) : Prop where
  module : ∃ module, p.module? m = some module ∧ module.entry = some summary.entry
  entry : p.function? summary.entry = some own
  name : summary.name = (p.symbol m).name
  statements : summary.statements = own.body.length
  nodes : summary.nodes = {n | p.Reachable own.body n}.ncard
  called : summary.functions = {f | f = summary.entry ∨ p.CallsFunction own.body f}.ncard
  reached : summary.functions ≤ {f | f = summary.entry ∨ p.ReachesFunction own.body f}.ncard
  all : summary.functions = {f | f = summary.entry ∨ p.ReachesFunction own.body f}.ncard ↔
    ∀ f, p.ReachesFunction own.body f → f = summary.entry ∨ p.CallsFunction own.body f

theorem Sound.summarizes (hp : p.Sound) {m : SymbolId} {summary : ModuleSummary} (h : p.summarize m = .ok summary) :
    ∃ own, p.Summarizes m summary own := by
  unfold summarize at h
  split at h
  · cases h
  rename_i module hm
  dsimp only at h
  split at h
  · cases h
  rename_i e he
  obtain ⟨own, hown⟩ := Option.isSome_iff_exists.1 ((hp.module hm).2.2 e he)
  rw [hown] at h
  dsimp only [Option.map_some, Option.getD_some] at h
  split at h
  · cases h
  cases h
  have hcalled := ncard_eq_length (nodup_foldl_addCalled _ (List.nodup_singleton e))
    fun f => @mem_called p own.body f e
  have hsubset : {f | f = e ∨ p.CallsFunction own.body f} ⊆ {f | f = e ∨ p.ReachesFunction own.body f} := by
    rintro f (rfl | hf)
    · exact .inl rfl
    · exact .inr (hf.reaches hp)
  have hfinite := p.finite_reachesFunction own.body e
  refine ⟨own, ⟨module, hm, he⟩, hown, rfl, rfl, ?_, hcalled.symm, ?_, ?_⟩
  · rw [List.length_map, ncard_eq_length (p.nodup_walk own.body) fun n => p.mem_walk own.body]
  · rw [← hcalled]
    exact Set.ncard_le_ncard hsubset hfinite
  · rw [← hcalled, ncard_eq_iff hsubset hfinite]
    refine ⟨fun hall f hf => hall (.inr hf), ?_⟩
    rintro hall f (rfl | hf)
    · exact .inl rfl
    · exact hall f hf

end Program

namespace Compilation

/-- What a compilation is made of: the program that its modules are bound to, and the summaries of that program if no
error was reported. -/
theorem of_ofModules {options : Options} {names : NameTable} {modules : List ModuleDef} {result : Compilation}
    (h : ofModules options names modules = .ok result) :
    let bound := BindState.bindAll options.bindOptions names [modules]
    result.program = bound.program ∧ result.succeeded = !bound.log.hasErrors ∧
      (result.succeeded → bound.program.verify = .ok result.summaries) := by
  unfold ofModules at h
  dsimp only at h
  split at h
  · rename_i herrors
    cases h
    refine ⟨rfl, rfl, fun hsucceeded => ?_⟩
    rw [succeeded, herrors] at hsucceeded
    cases hsucceeded
  · split at h
    · rename_i summaries hverified
      cases h
      exact ⟨rfl, rfl, fun _ => hverified⟩
    · cases h

/-- **Summaries count what can be reached, of the functions only what is called.** Modules that are compiled without an
error have a summary each. Its number of nodes is that of the nodes that can be reached from the entry. Its number of
functions is that of the entry and the functions that are called by such a node: as many as can be reached if and only if
each of those is called. -/
theorem summaries_count (options : Options) (names : NameTable) (modules : List ModuleDef) :
    ∃ result, ofModules options names modules = .ok result ∧ (result.succeeded → List.Forall₂
      (fun m summary => ∃ own, result.program.Summarizes m summary own) result.program.modules result.summaries) := by
  obtain ⟨result, hresult⟩ := ofModules_ok options names modules
  obtain ⟨hprogram, -, hverified⟩ := of_ofModules hresult
  have hp := (BindState.bindAll_reached options.bindOptions names [modules]).1.sound.program
  rw [← hprogram] at hp hverified
  exact ⟨result, hresult, fun h => (forall₂_of_mapM_ok (hverified h)).imp fun m summary => hp.summarizes⟩

open Sample

set_option maxRecDepth 10000

/-- A function that is called by the entry and by another function. -/
def sharedCallee : Sample fun s => s.log.hasErrors = false ∧ s.program.modules = [⟨17⟩] ∧
    s.program.verify.toOption = some [⟨"m", ⟨18⟩, 2, 3, 10⟩] where
  body := [function "f" [] [returns (node (.int 1 none))], function "g" [] [returns (call (name "f") [])],
    define "x" (call (name "f") []), define "y" (call (name "g") [])]
  shown := by decide +kernel

/-- The entry and the two functions are counted. -/
theorem sharedCallee_counted : ∃ result, ofModules {} {} [⟨.synthetic, "m", sharedCallee.body⟩] = .ok result ∧
    result.summaries = [⟨"m", ⟨18⟩, 2, 3, 10⟩] ∧ ∃ own, result.program.Summarizes ⟨17⟩ ⟨"m", ⟨18⟩, 2, 3, 10⟩ own := by
  obtain ⟨result, hresult, hall⟩ := summaries_count {} {} [⟨.synthetic, "m", sharedCallee.body⟩]
  have hbound : BindState.bindAll {} {} [[⟨.synthetic, "m", sharedCallee.body⟩]] = sharedCallee.state := rfl
  have hof := of_ofModules hresult
  dsimp only at hof
  rw [show ({} : Options).bindOptions = {} from rfl, hbound] at hof
  have hshown := sharedCallee.holds
  generalize sharedCallee.state = s at hof hshown
  obtain ⟨hprogram, hsucceeded, hverified⟩ := hof
  obtain ⟨hquiet, hmodules, hsummaries⟩ := hshown
  have hsucceeded : result.succeeded := by rw [hsucceeded, hquiet]; rfl
  have hall := hall hsucceeded
  rw [hverified hsucceeded] at hsummaries
  have heq : result.summaries = [⟨"m", ⟨18⟩, 2, 3, 10⟩] := Option.some.inj hsummaries
  rw [heq, hprogram, hmodules] at hall
  obtain _ | ⟨hcounted, -⟩ := hall
  exact ⟨result, hresult, heq, hprogram ▸ hcounted⟩

/-- A function that is used as a value. -/
def functionValue : Sample fun s => s.log.hasErrors = false ∧ s.program.modules = [⟨17⟩] ∧
    s.program.verify.toOption = some [⟨"m", ⟨18⟩, 1, 1, 6⟩] ∧ (s.program.function? ⟨20⟩).isSome ∧
    ∃ own ∈ s.program.function? ⟨18⟩, ∃ d ∈ own.body, ∃ n ∈ (s.program.node d).kind.children,
      ⟨20⟩ ∈ (s.program.node n).kind.symbols where
  body := [function "f" [] [returns (node (.int 1 none))], define "g" (name "f")]
  shown := by decide +kernel

/-- **A function that is used as a value can be reached and is not counted.** -/
theorem functionValue_uncounted : let p := functionValue.state.program
    functionValue.state.log.hasErrors = false ∧ p.verify.toOption = some [⟨"m", ⟨18⟩, 1, 1, 6⟩] ∧
    ∃ own, p.function? ⟨18⟩ = some own ∧ 1 < {f | f = ⟨18⟩ ∨ p.ReachesFunction own.body f}.ncard := by
  have hshown := functionValue.holds
  generalize functionValue.state = s at hshown ⊢
  obtain ⟨hquiet, -, hsummaries, hfunction, own, hown, d, hd, n, hn, hf⟩ := hshown
  refine ⟨hquiet, hsummaries, own, Option.mem_def.1 hown, ?_⟩
  have hreached : s.program.ReachesFunction own.body ⟨20⟩ := ⟨hfunction, n, .child (.root hd) hn, .inl hf⟩
  have hsubset : {⟨18⟩, ⟨20⟩} ⊆ {f | f = ⟨18⟩ ∨ s.program.ReachesFunction own.body f} := by
    rintro f (rfl | rfl)
    · exact .inl rfl
    · exact .inr hreached
  calc 1 < ({⟨18⟩, ⟨20⟩} : Set SymbolId).ncard := by rw [Set.ncard_pair (by decide)]; decide
    _ ≤ _ := Set.ncard_le_ncard hsubset (s.program.finite_reachesFunction own.body ⟨18⟩)

end Compilation

end Bindery
