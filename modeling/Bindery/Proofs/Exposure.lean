import Bindery.Proofs.Later
/-!
# Exposed variables

The *home* of a scope is the function whose statements stand in it. A variable is read at its home, or captured, unless
it is *exposed*: something leads to it from a place that its home does not reach.

* An alias of it is a member of a struct, an enum, a module or a function. A function has members as a type has: where
  it shares its name with a struct, the name may denote the type of an instance of it.
* A template with a default argument, a field with a default value or a module stands inside its scope. Defaults are
  bound where they are written and used where the template is called or the struct is made; a module has an entry of its
  own.
* It was declared before the function that its scope belongs to, by an argument list or a member list.
-/
namespace Bindery.Program

variable {p q : Program} {x : SymbolId} {sc : ScopeId}

/-- The function whose statements stand in a scope: the scope is of its body, or of the module whose entry it is. -/
def Home (p : Program) (sc : ScopeId) (f : SymbolId) : Prop :=
  (p.function? f).isSome ∧ ∃ R, p.region? sc = some R ∧
    ((p.symbol f).ownScope = some R ∨
      ∃ m own, p.module? m = some own ∧ own.entry = some f ∧ (p.symbol m).ownScope = some R)

/-- What may lead to a variable from a place that its home does not reach. -/
inductive Exposed (p : Program) (x : SymbolId) : Prop
  | aliased (a : SymbolId) (tag : AliasTag) : p.decl a = .valueAlias tag x →
      (p.scope (p.symbol a).scope).kind ≠ .block → Exposed p x
  | parameter (template : SymbolId) (own : TemplateDecl) : p.template? template = some own →
      own.source.params.any (·.default.isSome) → (p.symbol x).scope ∈ p.ancestors own.scope → Exposed p x
  | field (field : SymbolId) (own : FieldDecl) : p.field? field = some own → own.default.isSome →
      (p.symbol x).scope ∈ p.ancestors (p.symbol field).scope → Exposed p x
  | module (sc : ScopeId) : (p.scope sc).kind = .module → (p.symbol x).scope ∈ p.ancestors sc → Exposed p x
  | early : (∀ f, p.Home (p.symbol x).scope f → x.index ≤ f.index) → Exposed p x

/-- A default stands inside a scope: a template there has a default argument, or a field a default value. -/
inductive HoldsDefault (p : Program) (sc : ScopeId) : Prop
  | parameter (template : SymbolId) (own : TemplateDecl) : p.template? template = some own →
      own.source.params.any (·.default.isSome) → sc ∈ p.ancestors own.scope → HoldsDefault p sc
  | field (field : SymbolId) (own : FieldDecl) : p.field? field = some own → own.default.isSome →
      sc ∈ p.ancestors (p.symbol field).scope → HoldsDefault p sc

/-- A default exposes what lies around it. -/
theorem HoldsDefault.exposed (h : p.HoldsDefault (p.symbol x).scope) : p.Exposed x := by
  cases h with
  | parameter t own ht hd ha => exact .parameter t own ht hd ha
  | field g own hg hd ha => exact .field g own hg hd ha

/-- A variable that a name may denote at a place: it is exposed, it belongs to the same region, or it lies around the
region of the place and no function owns that region. -/
def Seen (p : Program) (sc : ScopeId) (x : SymbolId) : Prop :=
  p.Exposed x ∨ p.region? (p.symbol x).scope = p.region? sc ∨
    ∃ R, p.region? sc = some R ∧ p.Open R ∧ (p.symbol x).scope ∈ p.ancestors R

/-- A name may denote a variable only if the scope of the variable is around the place or the variable is exposed. -/
def InSight (p : Program) (sc : ScopeId) (x : SymbolId) : Prop :=
  (p.decl x).isVariable → (p.symbol x).scope ∈ p.ancestors sc ∨ p.Exposed x

/-- A scope inside one of the table is in the table. -/
theorem lt_of_mem_ancestors {a : ScopeId} (ha : a.index < p.scopes.size) (hm : a ∈ p.ancestors sc) :
    sc.index < p.scopes.size := by
  by_contra hn
  rw [ancestors_eq_singleton (Nat.le_of_not_lt hn), List.mem_singleton] at hm
  exact hn (hm ▸ ha)

theorem lt_of_kind_ne (h : (p.scope sc).kind ≠ .block) : sc.index < p.scopes.size := by
  by_contra hn
  rw [scope_of_le (Nat.le_of_not_lt hn)] at h
  exact h rfl

namespace Later

variable (h : p.Later q)
include h

theorem home {f : SymbolId} (hs : sc.index < p.scopes.size) (hh : p.Home sc f) : q.Home sc f := by
  obtain ⟨hf, R, hR, hown⟩ := hh
  obtain ⟨own, hf⟩ := Option.isSome_iff_exists.1 hf
  obtain ⟨own', hf', -⟩ := h.function hf
  refine ⟨by rw [hf']; rfl, R, by rw [h.region hs, hR], ?_⟩
  rcases hown with ho | ⟨m, own, hm, he, ho⟩
  · exact .inl (by rw [h.ownScope _ (lt_of_ownScope ho), ho])
  · obtain ⟨own', hm', -, he'⟩ := h.module hm
    exact .inr ⟨m, own', hm', he' f he, by rw [h.ownScope _ (lt_of_ownScope ho), ho]⟩

/-- A home that is new was made later than all symbols there were. -/
theorem home_of_later {f : SymbolId} (hs : sc.index < p.scopes.size) (hh : q.Home sc f) :
    p.Home sc f ∨ p.symbols.size ≤ f.index + 1 := by
  by_cases hlt : f.index < p.symbols.size
  · obtain ⟨hf, R, hR, hown⟩ := hh
    obtain ⟨own, hf⟩ := Option.isSome_iff_exists.1 hf
    obtain ⟨own', hf', -⟩ := h.function_of_later hlt hf
    rw [h.region hs] at hR
    rcases hown with ho | ⟨m, own, hm, he, ho⟩
    · exact .inl ⟨by rw [hf']; rfl, R, hR, .inl (by rw [← h.ownScope f hlt, ho])⟩
    · obtain hle | ⟨own', hm', he'⟩ := h.entry m own f hm he
      · exact .inr hle
      · have hmlt := lt_of_module hm'
        exact .inl ⟨by rw [hf']; rfl, R, hR, .inr ⟨m, own', hm', he', by rw [← h.ownScope m hmlt, ho]⟩⟩
  · exact .inr (by omega)

theorem holdsDefault (hs : sc.index < p.scopes.size) (hd : p.HoldsDefault sc) : q.HoldsDefault sc := by
  cases hd with
  | parameter t own ht hd ha =>
    obtain ⟨t', own', ht', hsrc, hsc⟩ := h.template t own ht
    refine .parameter t' own' ht' (by rwa [hsrc]) ?_
    rwa [hsc, h.ancestors (lt_of_mem_ancestors hs ha)]
  | field g own hg hd ha =>
    refine .field g own (h.field hg) hd ?_
    rwa [h.scope g (lt_of_field hg), h.ancestors (lt_of_mem_ancestors hs ha)]

theorem exposed (hx : x.index < p.symbols.size) (hs : (p.symbol x).scope.index < p.scopes.size) (he : p.Exposed x) :
    q.Exposed x := by
  have hsx := h.scope x hx
  cases he with
  | aliased a tag ha hb =>
    have hlt : a.index < p.symbols.size := lt_of_decl (by rw [ha]; simp)
    exact .aliased a tag (h.valueAlias ha) (by rwa [h.scope a hlt, h.scopes.kind _ (lt_of_kind_ne hb)])
  | parameter t own ht hd ha =>
    exact HoldsDefault.exposed (hsx ▸ h.holdsDefault hs (.parameter t own ht hd ha))
  | field g own hg hd ha => exact HoldsDefault.exposed (hsx ▸ h.holdsDefault hs (.field g own hg hd ha))
  | module sc hk ha =>
    refine .module sc ?_ ?_
    · rwa [h.scopes.kind _ (lt_of_mem_ancestors hs ha)]
    · rwa [hsx, h.ancestors (lt_of_mem_ancestors hs ha)]
  | early he =>
    refine .early fun f hf => ?_
    rw [hsx] at hf
    obtain hp | hle := h.home_of_later hs hf
    · exact he f hp
    · omega

theorem seen (hx : x.index < p.symbols.size) (hs : (p.symbol x).scope.index < p.scopes.size)
    (hsc : sc.index < p.scopes.size) (hopen : ∀ R, p.region? sc = some R → p.Open R → q.Open R) (hv : p.Seen sc x) :
    q.Seen sc x := by
  unfold Seen
  rw [h.scope x hx, h.region hs, h.region hsc]
  obtain he | hr | ⟨R, hR, ho, ha⟩ := hv
  · exact .inl (h.exposed hx hs he)
  · exact .inr (.inl hr)
  · exact .inr (.inr ⟨R, hR, hopen R hR ho, by rwa [h.ancestors (lt_of_mem_ancestors hs ha)]⟩)

theorem inSight (hx : x.index < p.symbols.size) (hs : (p.symbol x).scope.index < p.scopes.size)
    (hsc : sc.index < p.scopes.size) (hv : p.InSight sc x) : q.InSight sc x := by
  unfold InSight
  rw [h.isVariable hx, h.scope x hx, h.ancestors hsc]
  exact fun hi => (hv hi).imp_right (h.exposed hx hs)

end Later

/-- What is seen in a block is what is seen around it. -/
theorem Seen.of_block (h : p.Nested) (hk : (p.scope sc).kind = .block) {parent : ScopeId}
    (hp : (p.scope sc).parent = some parent) : p.Seen sc x ↔ p.Seen parent x := by
  unfold Seen
  rw [region?_of_block h hk hp]

end Bindery.Program
