import Bindery.Proofs.Sound
/-!
# What rules settle

A rule may start while others have not finished what they began: a module that is being bound is busy until the last of
its statements is, and one that was declared waits for the pass that binds it. Whatever a rule begins itself it brings to an
end. A scope that is made for a symbol gets the symbol for its owner, a function without a scope of its own becomes the
entry of a module, a tuple is recorded under the types of its fields, and a module that is declared or begun is done at the
end. Only a module among the members of a struct is declared and left, for there is no pass that would bind it.
-/
namespace Bindery.Program

theorem lt_of_isTuple {p : Program} {x : SymbolId} (h : (p.decl x).IsTuple) : x.index < p.symbols.size := by
  obtain ⟨own, hd, -⟩ := h
  exact lt_of_decl (by rw [hd]; simp)

/-- Every scope that a symbol has for its own has an owner. -/
def Owned (p : Program) : Prop := ∀ x sc, (p.symbol x).ownScope = some sc → (p.scope sc).owner.isSome

/-- A function without a scope of its own is the entry of a module, and stands in the scope of the module. -/
def Seated (p : Program) : Prop := ∀ e own, p.function? e = some own → (p.symbol e).ownScope = none →
  ∃ m own', p.module? m = some own' ∧ own'.entry = some e ∧ (p.symbol m).ownScope = some (p.symbol e).scope

/-- A module among the members of a struct that has not been begun. -/
def Dormant (p : Program) (m : SymbolId) (own : ModuleDecl) : Prop :=
  own.status = .idle ∧ (p.scope (p.symbol m).scope).kind = .struct

/-- The types that a tuple is found by. -/
def Recorded (p : Program) (x : SymbolId) : Prop := ∃ types, (types, x) ∈ p.tuples

/-- From one program to another, what was begun is brought to an end, apart from the modules that are pending and the
tuples that are being made. -/
structure Settles (pending : SymbolId → BindStatus → Prop) (p q : Program) : Prop where
  owned : p.Owned → q.Owned
  seated : p.Seated → q.Seated
  tuples : ∀ x, (q.decl x).IsTuple → q.Recorded x ∨ pending x .busy ∨ (x.index < p.symbols.size ∧ ¬ p.Recorded x)
  modules : ∀ m own, q.module? m = some own → own.status = .done ∨ pending m own.status ∨
    (∃ own', p.module? m = some own' ∧ own'.status = own.status) ∨ q.Dormant m own

namespace Settles

variable {pending pending' : SymbolId → BindStatus → Prop} {p q r : Program}

theorem refl (p : Program) : Settles pending p p where
  owned := id
  seated := id
  tuples x hx := by
    by_cases hr : p.Recorded x
    · exact .inl hr
    · exact .inr (.inr ⟨(lt_of_isTuple hx), hr⟩)
  modules _ own hm := .inr (.inr (.inl ⟨own, hm, rfl⟩))

theorem mono (h : Settles pending p q) (hle : ∀ m status, pending m status → pending' m status) : Settles pending' p q where
  owned := h.owned
  seated := h.seated
  tuples x hx := (h.tuples x hx).imp_right (.imp_left (hle x _))
  modules m own hm := (h.modules m own hm).imp_right (.imp_left (hle m _))

/-- Modules that are done or dormant need not be pending, and neither need tuples that are recorded. -/
theorem discharge (h : Settles pending p q)
    (hd : ∀ m own, q.module? m = some own → pending m own.status →
      own.status = .done ∨ pending' m own.status ∨ q.Dormant m own)
    (ht : ∀ x, (q.decl x).IsTuple → pending x .busy → q.Recorded x ∨ pending' x .busy) : Settles pending' p q where
  owned := h.owned
  seated := h.seated
  tuples x hx := by
    rcases h.tuples x hx with hr | hpending | hold
    · exact .inl hr
    · exact (ht x hx hpending).imp_right .inl
    · exact .inr (.inr hold)
  modules m own hm := by
    rcases h.modules m own hm with hdone | hpending | hrest
    · exact .inl hdone
    · exact (hd m own hm hpending).imp_right (.imp_right .inr)
    · exact .inr (.inr hrest)

theorem trans (h : Settles pending p q) (h' : Settles pending q r) (hsound : q.Sound) (hl : q.Later r) :
    Settles pending p r where
  owned hp := h'.owned (h.owned hp)
  seated hp := h'.seated (h.seated hp)
  tuples x hx := by
    rcases h'.tuples x hx with hr | hpending | ⟨hlt, hq⟩
    · exact .inl hr
    · exact .inr (.inl hpending)
    · exact (h.tuples x ((hl.decl x hlt).isTuple_iff.1 hx)).imp_left fun hr => absurd hr hq
  modules m own hm := by
    rcases h'.modules m own hm with hdone | hpending | ⟨own', hm', hs⟩ | hdormant
    · exact .inl hdone
    · exact .inr (.inl hpending)
    · rcases h.modules m own' hm' with hdone | hpending | ⟨own'', hm'', hs'⟩ | ⟨hidle, hk⟩
      · exact .inl (hs ▸ hdone)
      · exact .inr (.inl (hs ▸ hpending))
      · exact .inr (.inr (.inl ⟨own'', hm'', hs'.trans hs⟩))
      · have hlt := lt_of_module hm'
        refine .inr (.inr (.inr ⟨hs ▸ hidle, ?_⟩))
        rw [hl.scope m hlt, hl.scopes.kind _ (hsound.admits m hlt).scope, hk]
    · exact .inr (.inr (.inr hdormant))

/-- The entry of a module stays where it is. -/
theorem seat_of_later (hl : p.Later q) {e : SymbolId} (he : e.index < p.symbols.size)
    (h : ∃ m own, p.module? m = some own ∧ own.entry = some e ∧ (p.symbol m).ownScope = some (p.symbol e).scope) :
    ∃ m own, q.module? m = some own ∧ own.entry = some e ∧ (q.symbol m).ownScope = some (q.symbol e).scope := by
  obtain ⟨m, own, hm, hentry, hs⟩ := h
  obtain ⟨own', hm', -, hentry'⟩ := hl.module hm
  exact ⟨m, own', hm', hentry' e hentry, by rw [hl.ownScope m (lt_of_module hm), hs, hl.scope e he]⟩

/-- What was recorded is recorded. -/
theorem recorded_of_later (hl : p.Later q) {x : SymbolId} (h : p.Recorded x) : q.Recorded x :=
  h.imp fun _ he => hl.tuples he

/-- A tuple that was there is recorded if it was. -/
theorem tuples_of_lt (hl : p.Later q) {x : SymbolId} (hx : x.index < p.symbols.size) :
    q.Recorded x ∨ pending x .busy ∨ (x.index < p.symbols.size ∧ ¬ p.Recorded x) := by
  by_cases hr : p.Recorded x
  · exact .inl (recorded_of_later hl hr)
  · exact .inr (.inr ⟨hx, hr⟩)

/-- **No symbol was added, and no module was begun.** -/
theorem of_size (hl : p.Later q) (hsize : q.symbols.size = p.symbols.size)
    (hm : ∀ m own, q.module? m = some own → own.status = .done ∨ pending m own.status ∨
      ∃ own', p.module? m = some own' ∧ own'.status = own.status) : Settles pending p q where
  owned hp x sc hsc := by
    have hx := hsize ▸ lt_of_ownScope hsc
    rw [hl.ownScope x hx] at hsc
    obtain ⟨f, hf⟩ := Option.isSome_iff_exists.1 (hp x sc hsc)
    rw [hl.owner sc f hf]
    rfl
  seated hp e own he hown := by
    have hlt := hsize ▸ lt_of_function he
    obtain ⟨own', he', -⟩ := hl.function_of_later hlt he
    exact seat_of_later hl hlt (hp e own' he' (by rw [← hl.ownScope e hlt, hown]))
  tuples x hx := tuples_of_lt hl (hsize ▸ (lt_of_isTuple hx))
  modules m own h := (hm m own h).imp_right (.imp_right .inl)

/-- The symbols are the same. -/
theorem of_symbols (hl : p.Later q) (hs : q.symbols = p.symbols) : Settles pending p q := by
  refine of_size hl (by rw [hs]) fun m own hm => .inr (.inr ⟨own, ?_, rfl⟩)
  rw [← hm]
  unfold module? decl symbol
  rw [hs]

/-- **One symbol was added.** If it has a scope of its own, the scope has its owner. -/
theorem of_push (hl : p.Later q) {x : Symbol} (hs : q.symbols = p.symbols.push x)
    (ho : ∀ sc, x.ownScope = some sc → (q.scope sc).owner.isSome)
    (hf : ∀ own, x.decl = .function own → x.ownScope.isSome) (ht : x.decl.IsTuple → pending p.nextSymbol .busy)
    (hm : ∀ own, x.decl = .module own → pending p.nextSymbol own.status ∨ q.Dormant p.nextSymbol own) : Settles pending p q := by
  have hsym : ∀ y, q.symbol y = (p.addSymbol x).symbol y := fun y => by
    unfold symbol
    rw [hs]
    rfl
  have hold : ∀ y : SymbolId, y ≠ p.nextSymbol → q.symbol y = p.symbol y := fun y hy => by
    rw [hsym, symbol_addSymbol, if_neg hy]
  have hnew : q.symbol p.nextSymbol = x := by rw [hsym, symbol_addSymbol_next]
  refine ⟨fun hp y sc hsc => ?_, fun hp e own he hown => ?_, fun y hy => ?_, fun m own hown => ?_⟩
  · by_cases hy : y = p.nextSymbol
    · exact ho sc (by rw [← hnew, ← hy, hsc])
    · rw [hold y hy] at hsc
      obtain ⟨f, hf⟩ := Option.isSome_iff_exists.1 (hp y sc hsc)
      rw [hl.owner sc f hf]
      rfl
  · rw [function?_eq_some, decl] at he
    by_cases hy : e = p.nextSymbol
    · rw [hy, hnew] at he hown
      have := hf own he
      rw [hown] at this
      cases this
    · rw [hold e hy] at he hown
      have he : p.function? e = some own := function?_eq_some.2 he
      exact seat_of_later hl (lt_of_function he) (hp e own he hown)
  · by_cases heq : y = p.nextSymbol
    · subst heq
      rw [decl, hnew] at hy
      exact .inr (.inl (ht hy))
    · rw [decl, hold y heq] at hy
      exact tuples_of_lt hl (lt_of_isTuple hy)
  · rw [module?_eq_some, decl] at hown
    by_cases hy : m = p.nextSymbol
    · rw [hy, hnew] at hown
      rw [hy]
      exact .inr ((hm own hown).imp_right .inr)
    · rw [hold m hy] at hown
      exact .inr (.inr (.inl ⟨own, module?_eq_some.2 hown, rfl⟩))

/-- A symbol was added that nothing has to follow. -/
theorem of_simple (hl : p.Later q) {x : Symbol} (hs : q.symbols = p.symbols.push x) (ho : x.ownScope = none)
    (hd : x.decl.isSimple) : Settles pending p q := by
  refine of_push hl hs (by simp [ho]) (fun own hf => ?_) ?_ fun own hm => ?_
  · rw [hf] at hd
    cases hd
  · rintro ⟨own, ht, -⟩
    rw [ht] at hd
    cases hd
  · rw [hm] at hd
    cases hd

/-- **A module was begun**: its entry was added, and stands in the scope of the module. -/
theorem of_begun (hl : p.Later q) {m : SymbolId} {own : ModuleDecl} (hp : pending m own.status) (hm : q.module? m = some own)
    (he : own.entry = some p.nextSymbol) (hsize : q.symbols.size = p.symbols.size + 1)
    (ho : (q.symbol p.nextSymbol).ownScope = none) (ht : ¬ (q.decl p.nextSymbol).IsTuple)
    (hs : (q.symbol m).ownScope = some (q.symbol p.nextSymbol).scope)
    (hne : ∀ m' own', m' ≠ m → q.module? m' = some own' → p.module? m' = some own') : Settles pending p q := by
  have hold : ∀ y : SymbolId, y ≠ p.nextSymbol → y.index < q.symbols.size → y.index < p.symbols.size := fun y hy hlt => by
    have : y.index ≠ p.symbols.size := fun h => hy (SymbolId.ext h)
    omega
  refine ⟨fun hp y sc hsc => ?_, fun hp e function hf hnone => ?_, fun x hx => ?_, fun m' own' hm' => ?_⟩
  · have hlt := hold y (by rintro rfl; rw [ho] at hsc; cases hsc) (lt_of_ownScope hsc)
    rw [hl.ownScope y hlt] at hsc
    obtain ⟨f, hf⟩ := Option.isSome_iff_exists.1 (hp y sc hsc)
    rw [hl.owner sc f hf]
    rfl
  · by_cases hy : e = p.nextSymbol
    · exact ⟨m, own, hm, by rw [he, hy], by rw [hs, hy]⟩
    · have hlt := hold e hy (lt_of_function hf)
      obtain ⟨function', hf', -⟩ := hl.function_of_later hlt hf
      exact seat_of_later hl hlt (hp e function' hf' (by rw [← hl.ownScope e hlt, hnone]))
  · exact tuples_of_lt hl (hold x (by rintro rfl; exact ht hx) (lt_of_isTuple hx))
  · by_cases hy : m' = m
    · subst hy
      rw [hm] at hm'
      cases hm'
      exact .inr (.inl hp)
    · exact .inr (.inr (.inl ⟨own', hne m' own' hy hm', rfl⟩))

end Settles

end Bindery.Program
