import Bindery.Proofs.Binding
import Bindery.Proofs.Unfolding
import Mathlib.Data.Finset.Card
/-!
# Termination

Binding comes to its end for two reasons. The rules come to the end of every run: a rule inside another one binds a
smaller piece of syntax, or stands on a level with fewer levels left, so that unfolding the rules a number of times says
all of a run. And the functions that follow the tables of a program, which stop after a number of steps, have come to
their end by then: parents, children and aliases lead to entries where they stop, and a type that does not contain
itself leads through every symbol at most once.
-/
namespace Bindery

/-- **What follows a relation without a cycle needs no more steps than there are symbols.** A function of a number of
steps and a symbol has settled on every symbol if each step goes on with symbols that the relation leads to. -/
theorem eq_of_acyclic {τ : Type} {next : SymbolId → SymbolId → Prop} {size : Nat} (run : Nat → SymbolId → τ)
    (hsize : ∀ x y, next x y → x.index < size) (hacyclic : ∀ x, ¬ Relation.TransGen next x x)
    (hstep : ∀ m n x, (∀ y, next x y → run m y = run n y) → run (m + 1) x = run (n + 1) x) (n m : Nat) (x : SymbolId)
    (hn : size < n) (hm : size < m) : run n x = run m x := by
  -- the symbols on the way to `x` are different ones, and they are what is missing from the number of steps
  have main : ∀ (n m : Nat) (x : SymbolId) (seen : Finset Nat),
      (∀ i ∈ seen, i < size ∧ Relation.TransGen next ⟨i⟩ x) → size < n + seen.card → size < m + seen.card →
      run n x = run m x := by
    intro n
    induction n with
    | zero =>
      intro m x seen hseen hn _
      have hle := Finset.card_le_card fun i hi => Finset.mem_range.2 (hseen i hi).1
      rw [Finset.card_range] at hle
      omega
    | succ n ih =>
      intro m x seen hseen hn hm
      have hle := Finset.card_le_card fun i hi => Finset.mem_range.2 (hseen i hi).1
      rw [Finset.card_range] at hle
      obtain ⟨m, rfl⟩ : ∃ m', m = m' + 1 := ⟨m - 1, by omega⟩
      refine hstep n m x fun y hy => ih m y (insert x.index seen) ?_ ?_ ?_
      · intro i hi
        rcases Finset.mem_insert.1 hi with rfl | hi
        · exact ⟨hsize x y hy, .single hy⟩
        · exact ⟨(hseen i hi).1, (hseen i hi).2.tail hy⟩
      all_goals
        rw [Finset.card_insert_of_notMem fun hi => hacyclic x (hseen _ hi).2]
        omega
  exact main n m x ∅ (by simp) (by simpa using hn) (by simpa using hm)

/-- A relation that leads to older symbols has no cycle. -/
theorem not_transGen_of_lt {next : SymbolId → SymbolId → Prop} (h : ∀ x y, next x y → y.index < x.index)
    (x : SymbolId) : ¬ Relation.TransGen next x x := by
  have hlt : ∀ x y, Relation.TransGen next x y → y.index < x.index := by
    intro x y hxy
    induction hxy with
    | single hy => exact h _ _ hy
    | tail _ hz ih => exact Nat.lt_trans (h _ _ hz) ih
  exact fun hx => Nat.lt_irrefl _ (hlt x x hx)

namespace Program

variable {p : Program}

/-! ## Types inside types -/

/-- The types of the values that a value of a type consists of. -/
def heldTypes (p : Program) (x : SymbolId) : List Ty :=
  match p.decl x with
  | .struct own | .union own => own.fields.filterMap fun field => (p.field? field).map (·.ty)
  | .array own => [own.element]
  | .enum own => [own.base]
  | _ => []

/-- A value of a type has a value of another one in it. -/
def Holds (p : Program) (x y : SymbolId) : Prop := .direct y ∈ p.heldTypes x

/-- The types whose names are in the name of a type. -/
def spelledTypes (p : Program) (x : SymbolId) : List Ty :=
  match p.decl x with
  | .array own => [own.element]
  | .struct own => if own.kind = .tuple then own.fields.filterMap fun field => (p.decl field).valueType? else []
  | _ => []

/-- The name of a type has the name of another one in it. -/
def Spells (p : Program) (x y : SymbolId) : Prop := ∃ ty ∈ p.spelledTypes x, ty.base? = some y

theorem Holds.lt {x y : SymbolId} (h : p.Holds x y) : x.index < p.symbols.size :=
  lt_of_decl fun hd => by simp [Holds, heldTypes, hd] at h

theorem Spells.lt {x y : SymbolId} (h : p.Spells x y) : x.index < p.symbols.size :=
  lt_of_decl fun hd => by simp [Spells, spelledTypes, hd] at h

/-- The layout of a type is made of those of the values in it. -/
theorem layoutUpTo_congr {m n : Nat} {x : SymbolId}
    (h : ∀ y, p.Holds x y → p.layoutUpTo m (.direct y) = p.layoutUpTo n (.direct y)) :
    p.layoutUpTo (m + 1) (.direct x) = p.layoutUpTo (n + 1) (.direct x) := by
  have hty : ∀ ty ∈ p.heldTypes x, p.layoutUpTo m ty = p.layoutUpTo n ty := by
    intro ty hm
    cases ty with
    | direct y => exact h y hm
    | _ => simp only [layoutUpTo]
  unfold heldTypes at hty
  simp only [layoutUpTo]
  cases hd : p.decl x <;> simp only [hd] at hty ⊢
  case builtin own => cases own <;> rfl
  case array own => rw [hty own.element (by simp)]
  case enum own => exact hty own.base (by simp)
  case struct own | union own =>
    rw [List.map_congr_left fun field hf => ?_]
    cases hfield : p.decl field <;> simp only
    exact hty _ (List.mem_filterMap.2 ⟨field, hf, by simp [field?, hfield]⟩)

theorem layoutUpTo_eq (h : ∀ x, ¬ Relation.TransGen p.Holds x x) (ty : Ty) {n : Nat} (hn : p.symbols.size < n) :
    p.layoutUpTo n ty = p.layout ty := by
  cases ty with
  | direct x =>
    exact eq_of_acyclic (fun n x => p.layoutUpTo n (.direct x)) (fun _ _ => Holds.lt) h
      (fun _ _ _ => layoutUpTo_congr) n _ x hn (Nat.lt_succ_self _)
  | _ => simp only [layout, layoutUpTo]

/-- The name of a type is made of those of the types in it. -/
theorem symbolTypeName_congr {m n : Nat} {x : SymbolId}
    (h : ∀ y, p.Spells x y → p.symbolTypeName m y = p.symbolTypeName n y) :
    p.symbolTypeName (m + 1) x = p.symbolTypeName (n + 1) x := by
  have hty : ∀ ty ∈ p.spelledTypes x, ∀ y, ty.base? = some y → p.symbolTypeName m y = p.symbolTypeName n y :=
    fun ty hm y hy => h y ⟨ty, hm, hy⟩
  unfold spelledTypes at hty
  simp only [symbolTypeName]
  cases hd : p.decl x <;> simp only [hd] at hty ⊢
  case array own =>
    cases hb : own.element.base? with
    | none => rfl
    | some y => simp only [hty own.element (by simp) y hb]
  case struct own =>
    split
    · rename_i hk
      rw [if_pos hk] at hty
      congr 3
      refine List.filterMap_congr fun field hf => ?_
      cases ht : (p.decl field).valueType? with
      | none => rfl
      | some ty =>
        cases hb : ty.base? with
        | none => simp only [Option.map_some, hb]
        | some y => simp only [Option.map_some, hb, hty ty (List.mem_filterMap.2 ⟨field, hf, ht⟩) y hb]
    · rfl

theorem symbolTypeName_eq (h : ∀ x, ¬ Relation.TransGen p.Spells x x) (x : SymbolId) {n : Nat}
    (hn : p.symbols.size < n) : p.symbolTypeName n x = p.symbolTypeName (p.symbols.size + 1) x :=
  eq_of_acyclic p.symbolTypeName (fun _ _ => Spells.lt) h (fun _ _ _ => symbolTypeName_congr) n _ x hn
    (Nat.lt_succ_self _)

/-! ## The tables of a sound program -/

theorem evalUpTo_eq (hp : p.Ordered) : ∀ (n m : Nat) (id : NodeId), id.index < n → id.index < m →
    p.evalUpTo n id = p.evalUpTo m id
  | n + 1, m + 1, id, hn, hm => by
    have hc : ∀ c ∈ (p.node id).kind.children, p.evalUpTo n c = p.evalUpTo m c := fun c hc =>
      have := hp id c hc
      evalUpTo_eq hp n m c (by omega) (by omega)
    simp only [evalUpTo]
    cases hk : (p.node id).kind <;> simp only [hk, NodeKind.children, List.mem_cons, List.not_mem_nil, or_false,
      forall_eq_or_imp, forall_eq] at hc ⊢
    all_goals first | rw [hc] | rw [hc.1, hc.2] | rw [hc.1, hc.2.1, hc.2.2]

theorem Sound.resolveAliasUpTo_eq (hp : p.Sound) (x : SymbolId) {n : Nat} (hn : 0 < n) :
    p.resolveAliasUpTo n x = p.resolveAlias x := by
  obtain ⟨n, rfl⟩ : ∃ n', n = n' + 1 := ⟨n - 1, by omega⟩
  rw [resolveAlias, resolveAliasUpTo, resolveAliasUpTo]
  split
  · rename_i tag t hd
    have hstop : ∀ n, p.resolveAliasUpTo n t = t := by
      intro n
      cases n with
      | zero => rfl
      | succ n =>
        rw [resolveAliasUpTo]
        split
        · rename_i tag' u hu
          exact absurd hu ((hp.alias hd).2.1 tag' u)
        · rfl
    rw [hstop, hstop]
  · rfl

/-- The functions that follow the tables of a program have come to their end where they stop. -/
structure Settled (p : Program) : Prop where
  ancestors : ∀ sc : ScopeId, ∀ n, sc.index ≤ n → p.ancestorsUpTo n sc = p.ancestors sc
  aliases : ∀ x, ∀ n > 0, p.resolveAliasUpTo n x = p.resolveAlias x
  values : ∀ id : NodeId, ∀ n > id.index, p.evalUpTo n id = p.eval id
  layouts : (∀ x, ¬ Relation.TransGen p.Holds x x) → ∀ ty, ∀ n > p.symbols.size, p.layoutUpTo n ty = p.layout ty
  typeNames : (∀ x, ¬ Relation.TransGen p.Spells x x) → ∀ x, ∀ n > p.symbols.size,
    p.symbolTypeName n x = p.symbolTypeName (p.symbols.size + 1) x

theorem Sound.settled (hp : p.Sound) : p.Settled where
  ancestors sc n hn := by
    by_cases hs : sc.index < p.scopes.size
    · exact ancestorsUpTo_eq hp.nested n _ sc hn (Nat.le_of_lt hs)
    · have hparent : (p.scope sc).parent = none := by rw [scope_of_le (Nat.le_of_not_lt hs)]; rfl
      rw [ancestors_of_none hp.nested hparent]
      cases n with
      | zero => rfl
      | succ n => rw [ancestorsUpTo, hparent]
  aliases x _ hn := hp.resolveAliasUpTo_eq x hn
  values id n hn := evalUpTo_eq hp.ordered n _ id hn (Nat.lt_succ_self _)
  layouts h ty _ hn := layoutUpTo_eq h ty hn
  typeNames h x _ hn := symbolTypeName_eq h x hn

end Program

/-! ## Binding -/

namespace BindState

/-- A struct that points to itself, and an array of such structs: what is held by value is older. -/
def selfPointer : Sample fun s =>
    (∀ i ∈ List.range s.program.symbols.size, (s.program.heldTypes ⟨i⟩).all fun
      | .direct y => y.index < i
      | _ => true) ∧ s.program.layout (.direct ⟨23⟩) = ⟨48, 8⟩ where
  body := [Sample.struct "Link" [Sample.field "next" (Sample.node (.pointerType (Sample.name "Link"))),
      Sample.field "size" (Sample.name "Int32")],
    Sample.field "links" (Sample.node (.arrayType (Sample.name "Link") (Sample.node (.int 3 none))))]
  shown := by decide +kernel

end BindState

end Bindery
