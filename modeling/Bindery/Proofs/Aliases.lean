import Bindery.Proofs.Termination
/-!
# Aliases

An alias stands for a symbol that was there before it and that is no alias itself: what an alias, an import or an export
names is followed to its end before the alias is declared. Nothing that was declared becomes an alias later. So aliases
lead back to older symbols, and following one takes a single step, however modules import from each other.
-/
namespace Bindery

theorem Decl.Later.of_valueAlias {d : Decl} {tag : AliasTag} {t : SymbolId} (h : d.Later (.valueAlias tag t)) :
    d = .valueAlias tag t := by
  cases h
  rfl

namespace Program

variable {p q : Program} {floor : Floor} {x : SymbolId}

/-- Aliases stand for older symbols. -/
def LeadsBack (p : Program) : Prop := ∀ x tag t, p.decl x = .valueAlias tag t → t.index < x.index

/-- An alias that may be added stands for a symbol of the table. -/
theorem Addable.alias_lt {new : Symbol} {tag : AliasTag} {t : SymbolId} (h : p.Addable floor new)
    (hd : new.decl = .valueAlias tag t) : t.index < p.nextSymbol.index := by
  have horder := h.admits.inOrder
  unfold InOrder at horder
  rw [hd] at horder
  exact horder.1

/-- What follows the table is no alias. -/
theorem LeadsBack.extend (h : p.LeadsBack) (hl : p.Later q) (hsize : q.symbols.size = p.symbols.size) : q.LeadsBack := by
  intro x tag t hx
  have hlt : x.index < p.symbols.size := hsize ▸ lt_of_decl (by rw [hx]; simp)
  have hlater := hl.decl x hlt
  rw [hx] at hlater
  exact h x tag t hlater.of_valueAlias

/-- **A change keeps the direction of aliases.** -/
theorem Edit.leadsBack (h : p.Edit floor q) (hp : p.Sound) (hb : p.LeadsBack) : q.LeadsBack := by
  intro x tag t hx
  by_cases hlt : x.index < p.symbols.size
  · have hlater := (h.later hp).decl x hlt
    rw [hx] at hlater
    exact hb x tag t hlater.of_valueAlias
  · obtain ⟨new, hs, hnew, rfl, -⟩ := h.added hlt (lt_of_decl (by rw [hx]; simp))
    rw [Program.decl, (symbol_of_pushed hs).1] at hx
    exact hnew.alias_lt hx

theorem initial_leadsBack (w : Nat) : (initial w).LeadsBack := by
  intro x tag t hx
  obtain ⟨own, hd⟩ := decl_initial w x
  cases hd.symm.trans hx

end Program

namespace BindState

open Program

variable {options : BindOptions} {names : NameTable} {floor : Floor} {s t : BindState}

/-- **A step keeps the direction of aliases.** -/
theorem Step.leadsBack (h : Step floor s t) (hs : s.Sound) (hb : s.program.LeadsBack) : t.program.LeadsBack := by
  cases h with
  | edit program he => exact he.leadsBack hs.program hb
  | quiet => exact hb
  | record template fingerprint made _ _ he =>
    obtain ⟨own, ht⟩ := Option.isSome_iff_exists.1 he.declared
    exact hb.extend (registerInstance_later hs.program ht) (by rw [registerInstance_eq ht]; simp)

theorem Reached.leadsBack (h : Reached options names s) : s.program.LeadsBack := by
  induction h with
  | refl => exact initial_leadsBack _
  | tail hsteps hstep ih => exact hstep.leadsBack (Steps.keep (initial_sound options names) hsteps).1 ih

/-- **Aliases are followed in one step.** In every state that binding comes to, an alias stands for an older symbol that
is no alias. So what following gives is never an alias and is not followed any further, and it is given after at most one
step: no bound on the number of steps is ever met. -/
theorem aliases_direct (options : BindOptions) (names : NameTable) :
    (∀ batches, Reached options names (bindAll options names batches)) ∧
    ∀ s, Reached options names s →
      (∀ x tag t, s.program.decl x = .valueAlias tag t →
        t.index < x.index ∧ ∀ tag' u, s.program.decl t ≠ .valueAlias tag' u) ∧
      ∀ x, (∀ tag t, s.program.decl (s.program.resolveAlias x) ≠ .valueAlias tag t) ∧
        s.program.resolveAlias (s.program.resolveAlias x) = s.program.resolveAlias x ∧
        ∀ n > 0, s.program.resolveAliasUpTo n x = s.program.resolveAlias x := by
  refine ⟨fun batches => (bindAll_reached options names batches).1, fun s hs => ?_⟩
  have hp := hs.sound.program
  refine ⟨fun x tag t hx => ⟨hs.leadsBack x tag t hx, (hp.alias hx).2.1⟩, fun x => ?_⟩
  have hend : ∀ tag t, s.program.decl (s.program.resolveAlias x) ≠ .valueAlias tag t := by
    rcases hp.resolveAlias_cases x with ⟨tag, hd⟩ | ⟨hne, hself⟩
    · exact (hp.alias hd).2.1
    · rwa [hself]
  refine ⟨hend, ?_, fun n hn => hp.resolveAliasUpTo_eq x hn⟩
  rcases hp.resolveAlias_cases (s.program.resolveAlias x) with ⟨tag, hd⟩ | ⟨-, hself⟩
  · exact absurd hd (hend tag _)
  · exact hself

open Sample

set_option maxRecDepth 10000

/-- Two modules that import from each other: a function, an alias of the import, an export of the alias, and an alias of
what is imported back. -/
def importCycle : Sample fun s => s.log.errorCount = 0 ∧ (s.program.decl ⟨22⟩).kindName = "template" ∧
    ∀ x ∈ [24, 25, 26, 27, 28], (s.program.decl ⟨x⟩).kindName = "alias" ∧ s.program.resolveAlias ⟨x⟩ = ⟨22⟩ where
  body :=
    [node (.module ⟨.synthetic, "a", [function "f" [] [], node (.importPath ["b", "e"] none),
        node (.aliasAs "x" (name "e"))]⟩),
      node (.module ⟨.synthetic, "b", [node (.importPath ["a", "f"] (some "u")), node (.aliasAs "t" (name "u")),
        node (.exportAs "e" (name "t"))]⟩)]
  shown := by decide +kernel

/-- Each of the five aliases stands for the function itself. -/
theorem importCycle_direct : let p := importCycle.state.program
    ∀ x ∈ [24, 25, 26, 27, 28], (∃ tag, p.decl ⟨x⟩ = .valueAlias tag ⟨22⟩) ∧ 22 < x ∧
      p.resolveAliasUpTo 1 ⟨x⟩ = p.resolveAlias ⟨x⟩ ∧ p.resolveAlias (p.resolveAlias ⟨x⟩) = p.resolveAlias ⟨x⟩ := by
  intro p x hx
  obtain ⟨-, -, hshown⟩ := importCycle.holds
  obtain ⟨hkind, hresolved⟩ := hshown x hx
  obtain ⟨batches, hbound⟩ := importCycle.eq_bindAll
  obtain ⟨hreached, hall⟩ := aliases_direct {} {}
  have hs := hreached batches
  rw [← hbound] at hs
  obtain ⟨hdirect, hresolve⟩ := hall _ hs
  obtain ⟨-, hidem, hone⟩ := hresolve ⟨x⟩
  obtain ⟨tag, t, hd⟩ : ∃ tag t, p.decl ⟨x⟩ = .valueAlias tag t := by
    generalize p.decl ⟨x⟩ = d at hkind
    cases d <;> simp [Decl.kindName] at hkind ⊢
  have ht : t = ⟨22⟩ := by
    rw [← hresolved, ← hone 1 Nat.one_pos, resolveAliasUpTo, hd]
    rfl
  subst ht
  exact ⟨⟨tag, hd⟩, (hdirect ⟨x⟩ tag _ hd).1, hone 1 Nat.one_pos, hidem⟩

end BindState

end Bindery
