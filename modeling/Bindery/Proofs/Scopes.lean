import Bindery.Binding.Reference
import Bindery.Proofs.Tables
import Mathlib.Data.List.Find
import Mathlib.Tactic.ByContra
/-!
# Scopes around a place

Scopes nest: the parent of a scope stands before it in the table, so the ancestors of a place are found one parent at a
time. The *region* of a place is the innermost scope around it that is not a block: the place where the statements
around it were written. A variable that is read without crossing a function belongs to the region of the place, or lies
around a region that no function owns.
-/
namespace Bindery

namespace Scope

theorem find?_insert {scope : Scope} {name : String} (h : scope.find? name = none) (id : SymbolId) (name' : String) :
    (scope.insert name id).find? name' = if name' = name then some id else scope.find? name' := by
  simp only [find?, get?, getOther?, insert, List.lookup_append, List.lookup_cons, List.lookup_nil] at h ⊢
  generalize hs : scope.symbols.lookup name' = a at h
  generalize ho : scope.others.lookup name' = b at h
  by_cases hn : name' = name
  · subst hn
    rw [hs, ho] at h
    rcases a with _ | x <;> rcases b with _ | y <;> simp at h ⊢
  · have hb : (name' == name) = false := by simpa using hn
    rcases a with _ | x <;> simp [hn, hb]

theorem find?_insertOther {scope : Scope} {name : String} (h : scope.find? name = none) (id : SymbolId)
    (name' : String) : (scope.insertOther name id).find? name' = if name' = name then some id else scope.find? name' := by
  simp only [find?, get?, getOther?, insertOther, List.lookup_append, List.lookup_cons, List.lookup_nil] at h ⊢
  generalize hs : scope.symbols.lookup name' = a at h
  generalize ho : scope.others.lookup name' = b at h
  by_cases hn : name' = name
  · subst hn
    rw [hs, ho] at h
    rcases a with _ | x <;> rcases b with _ | y <;> simp at h ⊢
  · have hb : (name' == name) = false := by simpa using hn
    rcases a with _ | x <;> rcases b with _ | y <;> simp [hn, hb]
end Scope

namespace Program

variable {p q : Program} {sc t : ScopeId}

/-- Every parent stands before its scopes. -/
def Nested (p : Program) : Prop := ∀ sc parent, (p.scope sc).parent = some parent → parent.index < sc.index

/-! ## Ancestors -/

theorem ancestorsUpTo_eq (h : p.Nested) : ∀ (n m : Nat) (sc : ScopeId), sc.index ≤ n → sc.index ≤ m →
    p.ancestorsUpTo n sc = p.ancestorsUpTo m sc
  | 0, 0, _, _, _ => rfl
  | 0, m + 1, sc, hn, _ => by
    rcases hp : (p.scope sc).parent with _ | parent
    · simp only [ancestorsUpTo, hp]
    · have := h sc parent hp
      omega
  | n + 1, 0, sc, _, hm => by
    rcases hp : (p.scope sc).parent with _ | parent
    · simp only [ancestorsUpTo, hp]
    · have := h sc parent hp
      omega
  | n + 1, m + 1, sc, hn, hm => by
    rcases hp : (p.scope sc).parent with _ | parent
    · simp only [ancestorsUpTo, hp]
    · have := h sc parent hp
      simp only [ancestorsUpTo, hp]
      rw [ancestorsUpTo_eq h n m parent (by omega) (by omega)]

/-- **The ancestors of a scope are the scope and the ancestors of its parent.** -/
theorem ancestors_eq (h : p.Nested) (hs : sc.index < p.scopes.size) :
    p.ancestors sc = sc :: ((p.scope sc).parent.map p.ancestors).getD [] := by
  obtain ⟨n, hn⟩ : ∃ n, p.scopes.size = n + 1 := ⟨p.scopes.size - 1, by omega⟩
  rcases hp : (p.scope sc).parent with _ | parent
  · simp [ancestors, hn, ancestorsUpTo, hp]
  · have := h sc parent hp
    have hup : p.ancestors parent = p.ancestorsUpTo n parent := ancestorsUpTo_eq h _ _ parent (by omega) (by omega)
    rw [Option.map_some, Option.getD_some, hup, ancestors, hn, ancestorsUpTo, hp]

theorem ancestors_eq_singleton (hs : p.scopes.size ≤ sc.index) : p.ancestors sc = [sc] := by
  unfold ancestors
  rcases p.scopes.size with _ | n
  · rfl
  · simp [ancestorsUpTo, scope_of_le hs, default]

theorem self_mem_ancestors (p : Program) (sc : ScopeId) : sc ∈ p.ancestors sc := by
  unfold ancestors
  rcases p.scopes.size with _ | n
  · simp [ancestorsUpTo]
  · unfold ancestorsUpTo
    split <;> simp

theorem ancestors_of_none (h : p.Nested) (hp : (p.scope sc).parent = none) : p.ancestors sc = [sc] := by
  by_cases hs : sc.index < p.scopes.size
  · rw [ancestors_eq h hs, hp]; rfl
  · exact ancestors_eq_singleton (Nat.le_of_not_lt hs)

theorem ancestors_of_some (h : p.Nested) {parent : ScopeId} (hp : (p.scope sc).parent = some parent) :
    p.ancestors sc = sc :: p.ancestors parent := by
  have hs : sc.index < p.scopes.size := by
    by_contra hn
    rw [scope_of_le (Nat.le_of_not_lt hn)] at hp
    cases hp
  rw [ancestors_eq h hs, hp]
  rfl

/-- Induction outward: a property of a scope follows from that of its parent. -/
theorem Nested.induction (h : p.Nested) {P : ScopeId → Prop} (outer : ∀ sc, (p.scope sc).parent = none → P sc)
    (inner : ∀ sc parent, (p.scope sc).parent = some parent → P parent → P sc) (sc : ScopeId) : P sc := by
  obtain ⟨i⟩ := sc
  induction i using Nat.strongRecOn with
  | _ i ih =>
    rcases hp : (p.scope ⟨i⟩).parent with _ | parent
    · exact outer _ hp
    · exact inner _ parent hp (ih parent.index (h _ _ hp))

theorem ancestors_trans (h : p.Nested) {a b : ScopeId} : b ∈ p.ancestors sc → a ∈ p.ancestors b → a ∈ p.ancestors sc := by
  refine h.induction (P := fun sc => b ∈ p.ancestors sc → a ∈ p.ancestors b → a ∈ p.ancestors sc) ?_ ?_ sc
  · intro sc hp hb ha
    rw [ancestors_of_none h hp] at hb ⊢
    rw [List.mem_singleton] at hb
    subst hb
    rwa [ancestors_of_none h hp] at ha
  · intro sc parent hp ih hb ha
    rw [ancestors_of_some h hp] at hb
    rcases List.mem_cons.1 hb with rfl | hb
    · exact ha
    · rw [ancestors_of_some h hp]
      exact List.mem_cons_of_mem _ (ih hb ha)

theorem index_le_of_mem_ancestors (h : p.Nested) {a : ScopeId} : a ∈ p.ancestors sc → a.index ≤ sc.index := by
  refine h.induction (P := fun sc => a ∈ p.ancestors sc → a.index ≤ sc.index) ?_ ?_ sc
  · intro sc hp ha
    rw [ancestors_of_none h hp, List.mem_singleton] at ha
    exact Nat.le_of_eq (congrArg _ ha)
  · intro sc parent hp ih ha
    rw [ancestors_of_some h hp] at ha
    rcases List.mem_cons.1 ha with rfl | ha
    · exact Nat.le_refl _
    · exact Nat.le_trans (ih ha) (Nat.le_of_lt (h _ _ hp))

/-! ## Regions -/

/-- The innermost scope around a place that is not a block. -/
def region? (p : Program) (sc : ScopeId) : Option ScopeId :=
  (p.ancestors sc).find? fun id => (p.scope id).kind != .block

theorem region?_of_ne_block (p : Program) (h : (p.scope sc).kind ≠ .block) : p.region? sc = some sc := by
  have hm : ∃ l, p.ancestors sc = sc :: l := by
    unfold ancestors
    rcases p.scopes.size with _ | n
    · exact ⟨[], rfl⟩
    · unfold ancestorsUpTo
      split <;> exact ⟨_, rfl⟩
  obtain ⟨l, hl⟩ := hm
  simp [region?, hl, h]

theorem region?_of_block (h : p.Nested) (hk : (p.scope sc).kind = .block) {parent : ScopeId}
    (hp : (p.scope sc).parent = some parent) : p.region? sc = p.region? parent := by
  simp [region?, ancestors_of_some h hp, hk]

theorem mem_ancestors_of_region? {R : ScopeId} (h : p.region? sc = some R) : R ∈ p.ancestors sc :=
  List.mem_of_find?_eq_some h

/-- Whether what is read in a region may lie around it: no function owns the region. -/
def Open (p : Program) (R : ScopeId) : Prop := (p.scope R).kind = .function → (p.scope R).owner = none

/-- **What is reached without crossing a function** has the region of the place, or lies around an open region. -/
theorem region_of_uncrossed (h : p.Nested) : t ∈ p.ancestors sc → p.functionsUpTo sc t = [] →
    p.region? t = p.region? sc ∨ ∃ R, p.region? sc = some R ∧ p.Open R ∧ t ∈ p.ancestors R := by
  refine h.induction (P := fun sc => t ∈ p.ancestors sc → p.functionsUpTo sc t = [] →
    p.region? t = p.region? sc ∨ ∃ R, p.region? sc = some R ∧ p.Open R ∧ t ∈ p.ancestors R) ?_ ?_ sc
  · intro sc hp ht _
    rw [ancestors_of_none h hp, List.mem_singleton] at ht
    exact Or.inl (by rw [ht])
  · intro sc parent hp ih ht hf
    by_cases hst : sc = t
    · exact Or.inl (by rw [hst])
    have ht' : t ∈ p.ancestors parent := by
      rw [ancestors_of_some h hp] at ht
      exact (List.mem_cons.1 ht).resolve_left (Ne.symm hst)
    by_cases hk : (p.scope sc).kind = .block
    · rw [region?_of_block h hk hp]
      refine ih ht' ?_
      simpa [functionsUpTo, ancestors_of_some h hp, hst, hk] using hf
    · refine Or.inr ⟨sc, region?_of_ne_block p hk, fun hfun => ?_, ht⟩
      simp only [functionsUpTo, ancestors_of_some h hp, ne_eq, hst, not_false_eq_true, decide_true,
        List.takeWhile_cons_of_pos, List.filterMap_eq_nil_iff] at hf
      simpa [hfun] using hf sc (List.mem_cons_self ..)

/-! ## Growing tables -/

/-- Scopes keep their kinds and parents. -/
structure KeepsScopes (p q : Program) : Prop where
  size : p.scopes.size ≤ q.scopes.size
  kind : ∀ sc : ScopeId, sc.index < p.scopes.size → (q.scope sc).kind = (p.scope sc).kind
  parent : ∀ sc : ScopeId, sc.index < p.scopes.size → (q.scope sc).parent = (p.scope sc).parent

namespace KeepsScopes

theorem ancestors (k : KeepsScopes p q) (h : p.Nested) (hq : q.Nested) :
    sc.index < p.scopes.size → q.ancestors sc = p.ancestors sc := by
  refine h.induction (P := fun sc => sc.index < p.scopes.size → q.ancestors sc = p.ancestors sc) ?_ ?_ sc
  · intro sc hp hs
    rw [ancestors_of_none h hp, ancestors_of_none hq (by rw [k.parent sc hs, hp])]
  · intro sc parent hp ih hs
    rw [ancestors_of_some h hp, ancestors_of_some hq (by rw [k.parent sc hs, hp])]
    rw [ih (Nat.lt_trans (h _ _ hp) hs)]

theorem region? (k : KeepsScopes p q) (h : p.Nested) (hq : q.Nested) (hs : sc.index < p.scopes.size) :
    q.region? sc = p.region? sc := by
  unfold Program.region?
  rw [k.ancestors h hq hs]
  refine List.find?_congr fun id hid => ?_
  rw [k.kind id (Nat.lt_of_le_of_lt (index_le_of_mem_ancestors h hid) hs)]

end KeepsScopes

end Program

end Bindery
