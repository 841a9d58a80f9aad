import Bindery.Binding.Convert
import Bindery.Proofs.Tables
/-!
# Typed nodes

What the type of a node has to do with the types of its *operands*, which are those of its children that its typing rule
speaks of. A literal whose type may still change is retyped only while it is no operand and defines no constant.

A tree is what is reached from a node by its children. The *statement positions* of a tree are those in which a value is
not used: the statements of blocks, the arms of branches, the bodies of loops, and what is deferred. A jump *leaves* a tree
when nothing in the tree catches it on the way up.
-/
namespace Bindery

namespace NodeKind

/-- The children whose types the typing rule of a node speaks of. -/
def operands : NodeKind → List NodeId
  | .fieldName base _ => [base]
  | .dereference value => [value]
  | .unary _ operand => [operand]
  | .arithmetic _ left right | .shift _ left right | .condition _ left right | .coalesce left right => [left, right]
  | .ternary test whenTrue whenFalse => [test, whenTrue, whenFalse]
  | .definition _ value => value.toList
  | .assignment target value | .compoundAssignment _ _ target value => [target, value]
  | .branch test .. => [test]
  | .loop _ _ _ test .. => test.toList
  | .returns value => value.toList
  | _ => []

/-- The children of a node that stand as statements. -/
def statements : NodeKind → List NodeId
  | .block _ _ body => body
  | .branch _ whenTrue whenFalse => whenTrue :: whenFalse.toList
  | .loop _ _ init _ step body => init.toList ++ step.toList ++ [body]
  | .forIn _ _ _ _ _ _ body => [body]
  | .defer value => [value]
  | _ => []

/-- Nodes that may hold a `return`, or are one. They have no value. -/
def holdsReturn : NodeKind → Bool
  | .block .. | .branch .. | .loop .. | .forIn .. | .defer _ | .returns _ => true
  | _ => false

/-- The label that a node jumps to, and whether it goes on there with the next round of a loop. -/
def jump? : NodeKind → Option (Bool × SymbolId)
  | .breaks label => some (false, label)
  | .continues label => some (true, label)
  | _ => none

/-- A jump to the label stays in the node. Only a loop can be continued. -/
def catches (again : Bool) (l : SymbolId) : NodeKind → Bool
  | .block _ label _ => !again && label == some l
  | .loop _ label .. | .forIn _ label .. => label == l
  | _ => false

/-- The children from which a jump to the label goes on. -/
def passing (again : Bool) (l : SymbolId) (kind : NodeKind) : List NodeId :=
  if kind.catches again l then [] else kind.children

theorem operands_subset (kind : NodeKind) : kind.operands ⊆ kind.children := by
  cases kind <;> simp only [operands, children] <;> intro m hm <;> simp_all

theorem statements_subset (kind : NodeKind) : kind.statements ⊆ kind.children := by
  cases kind <;> simp only [statements, children] <;> intro m hm <;> simp_all
  rcases hm with hm | hm | hm <;> simp [hm]

theorem passing_subset (again : Bool) (l : SymbolId) (kind : NodeKind) : kind.passing again l ⊆ kind.children := by
  unfold passing
  split
  · exact List.nil_subset _
  · exact List.Subset.refl _

theorem mem_symbols_of_jump? {kind : NodeKind} {again : Bool} {l : SymbolId} (h : kind.jump? = some (again, l)) :
    l ∈ kind.symbols := by
  cases kind <;> simp_all [jump?, symbols]

theorem holdsReturn_of_mem {kind : NodeKind} {m : NodeId} (h : m ∈ kind.statements) : kind.holdsReturn := by
  cases kind <;> simp_all [statements, holdsReturn]

end NodeKind

namespace Program

/-! ## Typing rules -/

/-- The typing rule of a node. `offers` says which type a field may be reached through. -/
def Typed (p : Program) (offers : Ty → SymbolId → FieldDecl → Prop) (node : Node) : Prop :=
  match node.kind with
  | .arithmetic _ left right | .coalesce left right => (p.node left).ty = node.ty ∧ (p.node right).ty = node.ty
  | .unary _ operand => (p.node operand).ty = node.ty
  | .shift _ left right => (p.node left).ty = node.ty ∧ p.isIntegral (p.node right).ty
  | .condition _ left right => (p.node left).ty = (p.node right).ty ∧ node.ty = .bool
  | .ternary test whenTrue whenFalse =>
    (p.node test).ty = .bool ∧ (p.node whenTrue).ty = node.ty ∧ (p.node whenFalse).ty = node.ty
  | .branch test .. => (p.node test).ty = .bool
  | .loop _ _ _ (some test) .. => (p.node test).ty = .bool
  | .assignment target value | .compoundAssignment _ .arithmetic target value =>
    (p.node value).ty = (p.node target).ty
  | .definition symbol (some value) => (p.decl symbol).valueType? = some (p.node value).ty
  | .cast _ step => node.ty = step.target
  | .dereference value => (p.node value).ty = .pointer node.ty ∨ (p.node value).ty = .reference node.ty
  | .fieldName base field => ∃ own, p.field? field = some own ∧ node.ty = own.ty ∧ offers (p.node base).ty field own
  | _ => True

/-- The struct of a value is the one that the field belongs to. -/
def OwnsField (ty : Ty) (_ : SymbolId) (own : FieldDecl) : Prop := ty = .direct own.owner

/-- A field is named in the scope of a struct, itself or by an alias. -/
def Offers (p : Program) (struct field : SymbolId) : Prop :=
  ∃ sc name found, (p.symbol struct).ownScope = some sc ∧ p.member? sc name = some found ∧
    (found = field ∨ ∃ tag, p.decl found = .valueAlias tag field)

/-- The field belongs to the struct of a value or is named in its scope. -/
def ReachesField (p : Program) (ty : Ty) (field : SymbolId) (own : FieldDecl) : Prop :=
  ty = .direct own.owner ∨ ∃ struct, ty = .direct struct ∧ p.Offers struct field

/-- A literal whose type may still change. -/
def Adaptable (p : Program) (n : NodeId) : Prop := ∃ value, (p.node n).kind = .literal value true

/-- No node has the node as an operand, and no constant is defined by it. -/
structure Loose (p : Program) (n : NodeId) : Prop where
  operand : ∀ m : NodeId, n ∉ (p.node m).kind.operands
  constant : ∀ x tag, p.decl x ≠ .constAlias tag n

/-! ## Trees -/

/-- What is reached from a node by a choice of its children, the node itself among it. -/
inductive Within (p : Program) (next : NodeKind → List NodeId) : NodeId → NodeId → Prop
  | self (n : NodeId) : Within p next n n
  | step {n m k : NodeId} : m ∈ next (p.node n).kind → Within p next m k → Within p next n k

/-- The children of a node stand before it. -/
def Ordered (p : Program) : Prop := ∀ n m : NodeId, m ∈ (p.node n).kind.children → m.index < n.index

/-- The tree of a node names a symbol without going through a closure. -/
def Names (p : Program) (n : NodeId) (x : SymbolId) : Prop :=
  ∃ m, p.Within NodeKind.children n m ∧ (p.node m).kind = .valueName x []

/-- A statement of the tree of a node returns a value of a type. -/
def Returns (p : Program) (n : NodeId) (ty : Ty) : Prop :=
  ∃ m value, p.Within NodeKind.statements n m ∧ (p.node m).kind = .returns (some value) ∧ (p.node value).ty = ty

/-- A jump to a label leaves the tree of a node: nothing on the way from the jump to the node catches it. -/
def Leaves (p : Program) (n : NodeId) (again : Bool) (l : SymbolId) : Prop :=
  ∃ m, p.Within (NodeKind.passing again l) n m ∧ (p.node m).kind.jump? = some (again, l)

variable {p : Program} {n : NodeId}

theorem names_iff {x : SymbolId} :
    p.Names n x ↔ (p.node n).kind = .valueName x [] ∨ ∃ m ∈ (p.node n).kind.children, p.Names m x := by
  constructor
  · rintro ⟨m, hw, hm⟩
    cases hw with
    | self => exact .inl hm
    | step hc hw => exact .inr ⟨_, hc, _, hw, hm⟩
  · rintro (h | ⟨m, hc, k, hw, hk⟩)
    · exact ⟨n, .self n, h⟩
    · exact ⟨k, .step hc hw, hk⟩

theorem returns_iff {ty : Ty} :
    p.Returns n ty ↔ (∃ value, (p.node n).kind = .returns (some value) ∧ (p.node value).ty = ty) ∨
      ∃ m ∈ (p.node n).kind.statements, p.Returns m ty := by
  constructor
  · rintro ⟨m, v, hw, hm⟩
    cases hw with
    | self => exact .inl ⟨v, hm⟩
    | step hc hw => exact .inr ⟨_, hc, _, _, hw, hm⟩
  · rintro (⟨v, h⟩ | ⟨m, hc, k, v, hw, hk⟩)
    · exact ⟨n, v, .self n, h⟩
    · exact ⟨k, v, .step hc hw, hk⟩

theorem leaves_iff {again : Bool} {l : SymbolId} :
    p.Leaves n again l ↔ (p.node n).kind.jump? = some (again, l) ∨
      (p.node n).kind.catches again l = false ∧ ∃ m ∈ (p.node n).kind.children, p.Leaves m again l := by
  constructor
  · rintro ⟨m, hw, hm⟩
    cases hw with
    | self => exact .inl hm
    | step hc hw =>
      unfold NodeKind.passing at hc
      split at hc
      · cases hc
      · rename_i hcatch
        exact .inr ⟨Bool.eq_false_iff.2 hcatch, _, hc, _, hw, hm⟩
  · rintro (h | ⟨hcatch, m, hc, k, hw, hk⟩)
    · exact ⟨n, .self n, h⟩
    · exact ⟨k, .step (by simpa [NodeKind.passing, hcatch] using hc) hw, hk⟩

/-- A place outside the table holds no child. -/
theorem lt_of_mem_children {m : NodeId} (h : m ∈ (p.node n).kind.children) : n.index < p.nodes.size := by
  by_cases hn : n.index < p.nodes.size
  · exact hn
  · rw [node_of_le (Nat.le_of_not_lt hn)] at h
    cases h

end Program

end Bindery
