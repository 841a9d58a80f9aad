import Bindery.Program.Basic
/-!
# Walking a program

Visits every node that can be reached from some nodes: the children of a node, the bodies of the functions that it
refers to, and the body of the method of the struct that its type is about. Each node is visited once, a node before its
children and the children in order.
-/
namespace Bindery

/-- The state of a walk: the nodes to visit, the next one first; the nodes visited, the last one first; and the
functions whose bodies have been taken up. -/
structure Walk where
  pending : List NodeId
  visited : List NodeId := []
  entered : List SymbolId := []

namespace Walk

/-- Takes up the body of a function, unless that has been done. -/
def enter (p : Program) (walk : Walk) (symbol : SymbolId) : Walk :=
  match p.function? symbol with
  | none => walk
  | some function =>
    if symbol ∈ walk.entered then walk
    else { walk with entered := symbol :: walk.entered, pending := function.body ++ walk.pending }

/-- The functions that may be entered at a node: those it refers to, and the method of the struct that its type is
about. -/
def calls (p : Program) (node : Node) : List SymbolId :=
  node.kind.symbols ++ ((node.ty.base?.bind p.struct?).bind (·.method)).toList

/-- Visits a node. -/
def visit (p : Program) (walk : Walk) (id : NodeId) : Walk :=
  let node := p.node id
  let walk := (calls p node).foldl (enter p) { walk with visited := id :: walk.visited }
  { walk with pending := node.kind.children ++ walk.pending }

/-- Takes the next node, and visits it if it is new. -/
def step (p : Program) (walk : Walk) : Walk :=
  match walk.pending with
  | [] => walk
  | id :: rest => if id ∈ walk.visited then { walk with pending := rest } else visit p { walk with pending := rest } id

/-- Takes a number of nodes. -/
def run (p : Program) : Nat → Walk → Walk
  | 0, walk => walk
  | n + 1, walk => if walk.pending.isEmpty then walk else run p n (step p walk)

end Walk

namespace Program

/-- How often a walk can take a node: every root, every child of a node and every node of a body once. -/
def walkBound (p : Program) (roots : List NodeId) : Nat :=
  roots.length + (p.nodes.toList.flatMap (·.kind.children)).length +
    (p.symbols.toList.flatMap fun symbol => match symbol.decl with
      | .function function => function.body
      | _ => []).length

/-- The nodes that can be reached from some nodes, in the order in which they are visited. -/
def walk (p : Program) (roots : List NodeId) : List NodeId :=
  (Walk.run p (p.walkBound roots) { pending := roots }).visited.reverse

end Program

end Bindery
