import Bindery.Program.Walk
import Bindery.Proofs.Tables
import Mathlib.Algebra.BigOperators.Group.Finset.Basic
/-!
# What a walk visits

A walk visits the nodes that can be reached from its roots, each of them once, and no other node. Nodes are marked when
they are taken and functions when their bodies are put on the list, so that between the two a node may be known and not
yet visited, and a function entered whose body is still to come. `Covers` says what holds at every moment of a walk:
what is known can be reached, and whatever a visited node or an entered function leads to is known or *due*.

A walk ends because every child is put on the list by one visit and every body by one function. What may still be
taken (`remaining`) gets less by one with each node that is taken.
-/
namespace Bindery

namespace Program

variable {p : Program}

/-- The nodes that can be reached from some nodes: the least set that has them in it and has, with a node, its children,
the bodies of the functions that it refers to, and the body of the method of the struct or union that its type is
about. -/
inductive Reachable (p : Program) (roots : List NodeId) : NodeId → Prop
  | root {n : NodeId} : n ∈ roots → Reachable p roots n
  | child {n m : NodeId} : Reachable p roots n → m ∈ (p.node n).kind.children → Reachable p roots m
  | body {n m : NodeId} {f : SymbolId} {own : FunctionDecl} : Reachable p roots n → f ∈ (p.node n).kind.symbols →
      p.function? f = some own → m ∈ own.body → Reachable p roots m
  | method {n m : NodeId} {x f : SymbolId} {struct : StructDecl} {own : FunctionDecl} : Reachable p roots n →
      (p.node n).ty.base? = some x → p.struct? x = some struct → struct.method = some f →
      p.function? f = some own → m ∈ own.body → Reachable p roots m

theorem mem_calls {node : Node} {f : SymbolId} : f ∈ Walk.calls p node ↔
    f ∈ node.kind.symbols ∨ ∃ x struct, node.ty.base? = some x ∧ p.struct? x = some struct ∧ struct.method = some f := by
  simp only [Walk.calls, List.mem_append, Option.mem_toList, Option.bind_eq_some_iff]
  refine or_congr_right ⟨?_, ?_⟩
  · rintro ⟨struct, ⟨x, hx, hstruct⟩, hf⟩
    exact ⟨x, struct, hx, hstruct, hf⟩
  · rintro ⟨x, struct, hx, hstruct, hf⟩
    exact ⟨struct, ⟨x, hx, hstruct⟩, hf⟩

/-- What a function that may be entered at a node leads to. -/
theorem Reachable.call {roots : List NodeId} {n m : NodeId} {f : SymbolId} {own : FunctionDecl}
    (hn : p.Reachable roots n) (hf : f ∈ Walk.calls p (p.node n)) (hown : p.function? f = some own)
    (hm : m ∈ own.body) : p.Reachable roots m := by
  rcases mem_calls.1 hf with hf | ⟨x, struct, hx, hstruct, hf⟩
  · exact hn.body hf hown hm
  · exact hn.method hx hstruct hf hown hm

end Program

namespace Walk

variable {p : Program} {roots due : List NodeId} {owed : List SymbolId} {walk : Walk}

/-! ## What is visited can be reached, and the other way round -/

/-- What holds at every moment of a walk. The functions that are owed are those that are still to be entered for the
node that is being visited, and the nodes that are due are its children. -/
structure Covers (p : Program) (roots : List NodeId) (owed : List SymbolId) (due : List NodeId) (walk : Walk) :
    Prop where
  once : walk.visited.Nodup
  visited : ∀ n ∈ walk.visited, p.Reachable roots n
  pending : ∀ n ∈ walk.pending ++ due, p.Reachable roots n
  callees : ∀ f ∈ owed, ∀ own, p.function? f = some own → ∀ m ∈ own.body, p.Reachable roots m
  rooted : ∀ n ∈ roots, n ∈ walk.visited ∨ n ∈ walk.pending
  children : ∀ n ∈ walk.visited, ∀ m ∈ (p.node n).kind.children, m ∈ walk.visited ∨ m ∈ walk.pending ++ due
  calls : ∀ n ∈ walk.visited, ∀ f ∈ calls p (p.node n), (p.function? f).isSome → f ∈ walk.entered ∨ f ∈ owed
  bodies : ∀ f ∈ walk.entered, ∀ own, p.function? f = some own → ∀ m ∈ own.body,
    m ∈ walk.visited ∨ m ∈ walk.pending

theorem Covers.start (p : Program) (roots : List NodeId) : Covers p roots [] [] { pending := roots } where
  once := .nil
  visited := by simp
  pending n hn := .root (by simpa using hn)
  callees := by simp
  rooted n hn := .inr hn
  children := by simp
  calls := by simp
  bodies := by simp

/-- What is no function, and what has been entered, is owed no more. -/
theorem Covers.settle {f : SymbolId} (h : Covers p roots (f :: owed) due walk)
    (hf : (p.function? f).isSome → f ∈ walk.entered) : Covers p roots owed due walk := by
  refine { h with callees := fun g hg => h.callees g (by simp [hg]), calls := fun n hn g hg hsome => ?_ }
  rcases h.calls n hn g hg hsome with hg | hg
  · exact .inl hg
  · rcases List.mem_cons.1 hg with rfl | hg
    · exact .inl (hf hsome)
    · exact .inr hg

/-- The body of a function that is taken up is put in front of the list. -/
theorem Covers.takeUp {f : SymbolId} {own : FunctionDecl} (h : Covers p roots (f :: owed) due walk)
    (hown : p.function? f = some own) :
    Covers p roots (f :: owed) due { walk with entered := f :: walk.entered, pending := own.body ++ walk.pending } := by
  constructor
  case once => exact h.once
  case visited => exact h.visited
  case pending =>
    intro n hn
    rw [List.append_assoc] at hn
    rcases List.mem_append.1 hn with hn | hn
    · exact h.callees f (by simp) own hown n hn
    · exact h.pending n hn
  case callees => exact h.callees
  case rooted => exact fun n hn => (h.rooted n hn).imp_right (List.mem_append_right _)
  case children =>
    intro n hn m hm
    rw [List.append_assoc]
    exact (h.children n hn m hm).imp_right (List.mem_append_right _)
  case calls => exact fun n hn g hg hsome => (h.calls n hn g hg hsome).imp_left (List.mem_cons_of_mem _)
  case bodies =>
    intro g hg own' hown' m hm
    rcases List.mem_cons.1 hg with rfl | hg
    · cases hown.symm.trans hown'
      exact .inr (List.mem_append_left _ hm)
    · exact (h.bodies g hg own' hown' m hm).imp_right (List.mem_append_right _)

/-- **A function that is entered is owed no more.** -/
theorem Covers.enter {f : SymbolId} (h : Covers p roots (f :: owed) due walk) :
    Covers p roots owed due (enter p walk f) := by
  unfold Walk.enter
  split
  · rename_i hnone
    exact h.settle (by simp [hnone])
  · rename_i own hown
    split
    · rename_i hentered
      exact h.settle fun _ => hentered
    · exact (h.takeUp hown).settle fun _ => List.mem_cons_self

theorem Covers.enterAll : ∀ {owed : List SymbolId} {walk : Walk}, Covers p roots owed due walk →
    Covers p roots [] due (owed.foldl (Walk.enter p) walk)
  | [], _, h => h
  | _ :: _, _, h => h.enter.enterAll

/-- A node that is taken for the first time owes the functions that may be entered at it, and its children are due. -/
theorem Covers.take {id : NodeId} {rest : List NodeId} (h : Covers p roots [] [] walk) (hpending : walk.pending = id :: rest)
    (hnew : id ∉ walk.visited) :
    Covers p roots (Walk.calls p (p.node id)) (p.node id).kind.children
      { walk with pending := rest, visited := id :: walk.visited } := by
  have hid : p.Reachable roots id := h.pending id (by simp [hpending])
  -- what was on the list is still there, or it is the node itself
  have hknown : ∀ {m}, m ∈ walk.visited ∨ m ∈ walk.pending → m ∈ id :: walk.visited ∨ m ∈ rest := by
    rintro m (hm | hm)
    · exact .inl (by simp [hm])
    · rw [hpending] at hm
      exact (List.mem_cons.1 hm).imp_left (by rintro rfl; simp)
  constructor
  case once => exact List.nodup_cons.2 ⟨hnew, h.once⟩
  case visited => exact List.forall_mem_cons.2 ⟨hid, h.visited⟩
  case pending =>
    intro n hn
    rcases List.mem_append.1 hn with hn | hn
    · exact h.pending n (by simp [hpending, hn])
    · exact hid.child hn
  case callees => exact fun f hf own hown m hm => hid.call hf hown hm
  case rooted => exact fun n hn => hknown (h.rooted n hn)
  case children =>
    intro n hn m hm
    rcases List.mem_cons.1 hn with rfl | hn
    · exact .inr (List.mem_append_right _ hm)
    · refine (hknown ?_).imp_right (List.mem_append_left _)
      simpa using h.children n hn m hm
  case calls =>
    intro n hn f hf hsome
    rcases List.mem_cons.1 hn with rfl | hn
    · exact .inr hf
    · exact .inl ((h.calls n hn f hf hsome).resolve_right (by simp))
  case bodies => exact fun f hf own hown m hm => hknown (h.bodies f hf own hown m hm)

/-- The children that are due are put in front of the list. -/
theorem Covers.push (h : Covers p roots [] due walk) :
    Covers p roots [] [] { walk with pending := due ++ walk.pending } where
  once := h.once
  visited := h.visited
  pending n hn := h.pending n (by simpa [or_comm] using hn)
  callees := by simp
  rooted n hn := (h.rooted n hn).imp_right (List.mem_append_right _)
  children n hn m hm := by simpa [or_comm] using h.children n hn m hm
  calls := h.calls
  bodies f hf own hown m hm := (h.bodies f hf own hown m hm).imp_right (List.mem_append_right _)

/-- A node that was visited before is dropped. -/
theorem Covers.drop {id : NodeId} {rest : List NodeId} (h : Covers p roots [] [] walk) (hpending : walk.pending = id :: rest)
    (hold : id ∈ walk.visited) : Covers p roots [] [] { walk with pending := rest } := by
  have hknown : ∀ {m}, m ∈ walk.visited ∨ m ∈ walk.pending → m ∈ walk.visited ∨ m ∈ rest := by
    rintro m (hm | hm)
    · exact .inl hm
    · rw [hpending] at hm
      exact (List.mem_cons.1 hm).imp_left (by rintro rfl; exact hold)
  constructor
  case once => exact h.once
  case visited => exact h.visited
  case pending => exact fun n hn => h.pending n (by simp at hn; simp [hpending, hn])
  case callees => simp
  case rooted => exact fun n hn => hknown (h.rooted n hn)
  case children => exact fun n hn m hm => by simpa using hknown (by simpa using h.children n hn m hm)
  case calls => exact h.calls
  case bodies => exact fun f hf own hown m hm => hknown (h.bodies f hf own hown m hm)

/-- **Taking a node keeps the cover.** -/
theorem Covers.step (h : Covers p roots [] [] walk) : Covers p roots [] [] (step p walk) := by
  unfold Walk.step
  split
  · exact h
  · rename_i id rest hpending
    split
    · exact h.drop hpending ‹_›
    · exact (h.take hpending ‹_›).enterAll.push

theorem Covers.iterate (h : Covers p roots [] [] walk) (n : Nat) : Covers p roots [] [] ((Walk.step p)^[n] walk) := by
  induction n generalizing walk with
  | zero => exact h
  | succ n ih => exact ih h.step

/-- **When nothing is left to take, the nodes that were visited are those that can be reached.** -/
theorem Covers.mem_visited_iff (h : Covers p roots [] [] walk) (hend : walk.pending = []) {n : NodeId} :
    n ∈ walk.visited ↔ p.Reachable roots n := by
  have hbody : ∀ {n m : NodeId} {f : SymbolId} {own : FunctionDecl}, n ∈ walk.visited → f ∈ Walk.calls p (p.node n) →
      p.function? f = some own → m ∈ own.body → m ∈ walk.visited := by
    intro n m f own hn hf hown hm
    have hentered := (h.calls n hn f hf (by simp [hown])).resolve_right (by simp)
    simpa [hend] using h.bodies f hentered own hown m hm
  refine ⟨h.visited n, fun hn => ?_⟩
  induction hn with
  | root hn => simpa [hend] using h.rooted _ hn
  | child _ hm ih => simpa [hend] using h.children _ ih _ hm
  | body _ hf hown hm ih => exact hbody ih (Program.mem_calls.2 (.inl hf)) hown hm
  | method _ hx hstruct hf hown hm ih => exact hbody ih (Program.mem_calls.2 (.inr ⟨_, _, hx, hstruct, hf⟩)) hown hm

/-! ## The end of a walk -/

/-- The weight of the entries of a table that have not been seen. -/
def unseen (size : Nat) (weight : Nat → Nat) (seen : List Nat) : Nat := ∑ i ∈ Finset.range size with i ∉ seen, weight i

theorem unseen_cons {size i : Nat} (weight : Nat → Nat) {seen : List Nat} (hnew : i ∉ seen)
    (hout : size ≤ i → weight i = 0) : unseen size weight (i :: seen) + weight i = unseen size weight seen := by
  have herase : (Finset.range size).filter (· ∉ i :: seen) = ((Finset.range size).filter (· ∉ seen)).erase i := by
    ext j
    simp only [Finset.mem_filter, Finset.mem_erase, List.mem_cons, not_or]
    tauto
  unfold unseen
  rw [herase]
  by_cases hi : i < size
  · exact Finset.sum_erase_add _ _ (by simp [hi, hnew])
  · rw [Finset.erase_eq_of_notMem (by simp [hi]), hout (Nat.le_of_not_lt hi), Nat.add_zero]

/-- The weight of a whole table, where an entry weighs as much as it has items. -/
theorem unseen_nil {α β : Type} (table : Array α) (default : α) (items : α → List β) :
    unseen table.size (fun i => (items (table.getD i default)).length) [] = (table.toList.flatMap items).length := by
  have hlist : (List.range table.size).map (fun i => (items (table.getD i default)).length) =
      table.toList.map (items · |>.length) :=
    List.ext_getElem (by simp) fun i h _ => by
      have hi : i < table.size := by simpa using h
      simp [Array.getD, hi]
  rw [List.length_flatMap, ← hlist]
  simp only [unseen, List.not_mem_nil, not_false_eq_true, Finset.filter_true]
  rfl

/-- The length of the body of a function. -/
def bodyLength (p : Program) (f : SymbolId) : Nat := (p.function? f).elim 0 (·.body.length)

theorem bodyLength_mk (p : Program) (i : Nat) : bodyLength p ⟨i⟩ = (match (p.symbols.getD i default).decl with
    | .function function => function.body
    | _ => []).length := by
  unfold bodyLength Program.function? Program.decl Program.symbol
  split <;> simp_all

/-- The number of children of the nodes that were not visited. -/
def unvisited (p : Program) (visited : List NodeId) : Nat :=
  unseen p.nodes.size (fun i => (p.node ⟨i⟩).kind.children.length) (visited.map (·.index))

/-- The number of nodes in the bodies of the functions that were not entered. -/
def unentered (p : Program) (entered : List SymbolId) : Nat :=
  unseen p.symbols.size (fun i => bodyLength p ⟨i⟩) (entered.map (·.index))

theorem unvisited_cons {id : NodeId} {visited : List NodeId} (hnew : id ∉ visited) :
    unvisited p (id :: visited) + (p.node id).kind.children.length = unvisited p visited := by
  refine unseen_cons (fun i => (p.node ⟨i⟩).kind.children.length) ?_ fun hout => ?_
  · exact fun h => hnew ((List.mem_map_of_injective fun _ _ => NodeId.ext).1 h)
  · rw [Program.node_of_le hout]
    rfl

theorem unentered_cons {f : SymbolId} {entered : List SymbolId} (hnew : f ∉ entered) :
    unentered p (f :: entered) + bodyLength p f = unentered p entered := by
  refine unseen_cons (fun i => bodyLength p ⟨i⟩) ?_ fun hout => ?_
  · exact fun h => hnew ((List.mem_map_of_injective fun _ _ => SymbolId.ext).1 h)
  · cases hf : p.function? f with
    | none => simp [bodyLength, hf]
    | some own => exact absurd (Program.lt_of_function hf) (Nat.not_lt.2 hout)

/-- The number of nodes that may still be taken: those on the list, the children of the nodes that were not visited, and
the bodies of the functions that were not entered. -/
def remaining (p : Program) (walk : Walk) : Nat :=
  walk.pending.length + unvisited p walk.visited + unentered p walk.entered

theorem remaining_start (p : Program) (roots : List NodeId) : remaining p { pending := roots } = p.walkBound roots := by
  simp only [remaining, unvisited, unentered, Program.walkBound, List.map_nil, bodyLength_mk]
  rw [← unseen_nil p.nodes default, ← unseen_nil p.symbols default]
  rfl

/-- A body moves from the functions that were not entered to the list. -/
theorem remaining_enter (p : Program) (walk : Walk) (f : SymbolId) : remaining p (enter p walk f) = remaining p walk := by
  unfold enter
  split
  · rfl
  · rename_i own hown
    split
    · rfl
    · rename_i hnew
      have hlength : bodyLength p f = own.body.length := by simp [bodyLength, hown]
      have hbody := unentered_cons (p := p) hnew
      simp only [remaining, List.length_append]
      omega

theorem remaining_enterAll (p : Program) (fs : List SymbolId) (walk : Walk) :
    remaining p (fs.foldl (enter p) walk) = remaining p walk := by
  induction fs generalizing walk with
  | nil => rfl
  | cons f fs ih => rw [List.foldl_cons, ih, remaining_enter]

/-- **With each node that is taken, one less may be taken.** -/
theorem remaining_step (h : walk.pending ≠ []) : remaining p (step p walk) + 1 = remaining p walk := by
  unfold step
  split
  · contradiction
  · rename_i id rest hpending
    split
    · simp only [remaining, hpending, List.length_cons]
      omega
    · rename_i hnew
      -- the children move to the list as well, and only the node itself is gone from it
      have hchildren := unvisited_cons (p := p) hnew
      have henter := remaining_enterAll p (calls p (p.node id)) { walk with pending := rest, visited := id :: walk.visited }
      simp only [visit]
      simp only [remaining, List.length_append, hpending, List.length_cons] at henter ⊢
      omega

theorem run_eq_iterate (p : Program) : ∀ (n : Nat) (walk : Walk), run p n walk = (step p)^[n] walk
  | 0, _ => rfl
  | n + 1, walk => by
    rw [run, Function.iterate_succ_apply, ← run_eq_iterate p n]
    split
    · rename_i hend
      have hstep : step p walk = walk := by simp [step, List.isEmpty_iff.1 hend]
      rw [hstep]
      cases n <;> simp [run, hend]
    · rfl

/-- **A walk has come to its end when it has taken as many nodes as it may take.** -/
theorem pending_run : ∀ {n : Nat} {walk : Walk}, remaining p walk ≤ n → (run p n walk).pending = []
  | 0, walk, h => by
    have hlength : walk.pending.length = 0 := by simp only [remaining] at h; omega
    exact List.length_eq_zero_iff.1 hlength
  | n + 1, walk, h => by
    rw [run]
    split
    · exact List.isEmpty_iff.1 ‹_›
    · rename_i hne
      have hstep : remaining p (step p walk) + 1 = remaining p walk := remaining_step (by simpa using hne)
      exact pending_run (by omega)

end Walk

namespace Program

/-- **A walk visits what can be reached.** Whatever the program and the roots are, taking one node after another comes to
an end, and then the nodes that were visited, in their order, are those of the walk. No node is among them twice, and
they are the nodes that can be reached from the roots. -/
theorem walk_visits (p : Program) (roots : List NodeId) :
    (∃ n, let last := (Walk.step p)^[n] { pending := roots }
      last.pending = [] ∧ p.walk roots = last.visited.reverse) ∧
    (p.walk roots).Nodup ∧ ∀ id, id ∈ p.walk roots ↔ p.Reachable roots id := by
  have hcovers := (Walk.Covers.start p roots).iterate (p.walkBound roots)
  have hend := Walk.pending_run (p := p) (Nat.le_of_eq (Walk.remaining_start p roots))
  have hwalk : p.walk roots = ((Walk.step p)^[p.walkBound roots] { pending := roots }).visited.reverse := by
    rw [walk, Walk.run_eq_iterate]
  rw [Walk.run_eq_iterate] at hend
  refine ⟨⟨p.walkBound roots, hend, hwalk⟩, ?_, fun id => ?_⟩
  · rw [hwalk]
    exact List.nodup_reverse.2 hcovers.once
  · rw [hwalk, List.mem_reverse]
    exact hcovers.mem_visited_iff hend

end Program

end Bindery
