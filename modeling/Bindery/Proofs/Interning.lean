import Bindery.Proofs.Step
import Mathlib.Data.List.Nodup
/-!
# Arrays and tuples are found again

An array is recorded under its element and its length, a tuple under the types of its fields, each under a key that had
nothing before. So there is one array for an element and a length, and one recorded tuple for a list of types. A tuple is
recorded when it has its fields, and gets no others afterwards.
-/
namespace Bindery.Program

variable {p q : Program} {x y : SymbolId} {types types' : List Ty}

/-! ## Tables -/

section

variable {α β : Type} [BEq α] [LawfulBEq α] {table : List (α × β)} {key : α}

theorem mem_of_lookup {value : β} (h : table.lookup key = some value) : (key, value) ∈ table := by
  obtain ⟨before, after, rfl, -⟩ := List.lookup_eq_some_iff.1 h
  simp

/-- A key under which nothing is found is a new one. -/
theorem nodup_keys_cons (value : β) (h : (table.map (·.1)).Nodup) (hkey : table.lookup key = none) :
    (((key, value) :: table).map (·.1)).Nodup := by
  rw [List.map_cons, List.nodup_cons]
  refine ⟨fun hm => ?_, h⟩
  obtain ⟨e, he, rfl⟩ := List.mem_map.1 hm
  simpa using List.lookup_eq_none_iff.1 hkey e he

end

/-! ## Arrays and tuples -/

theorem TupleOf.isTuple (h : p.TupleOf x types) : (p.decl x).IsTuple := by
  obtain ⟨own, hd, hk, ht, -⟩ := h
  exact ⟨own, hd, hk, ht⟩

/-- The types of the fields of a tuple are one list. -/
theorem TupleOf.types_eq (h : p.TupleOf x types) (h' : p.TupleOf x types') : types = types' := by
  obtain ⟨own, hd, -, -, hf⟩ := h
  obtain ⟨own', hd', -, -, hf'⟩ := h'
  rw [hd] at hd'
  cases hd'
  refine List.right_unique_forall₂' (fun field a b ha hb => ?_) hf hf'
  obtain ⟨d, hd, rfl⟩ := ha
  obtain ⟨d', hd', rfl⟩ := hb
  rw [hd] at hd'
  cases hd'
  rfl

/-- A tuple that gets no fields keeps the types of those it has. -/
theorem TupleOf.later (h : p.TupleOf x types) (hl : p.Later q)
    (hf : ∀ a b, p.decl x = .struct a → q.decl x = .struct b → b.fields = a.fields) : q.TupleOf x types := by
  obtain ⟨own, hd, hk, ht, hfields⟩ := h
  have hlater := hl.decl x (lt_of_decl (by rw [hd]; simp))
  obtain ⟨own', hd', hk', ht'⟩ := hlater.isTuple_iff.2 ⟨own, hd, hk, ht⟩
  refine ⟨own', hd', hk', ht', ?_⟩
  rw [hf own own' hd hd']
  exact hfields.imp fun _ _ ⟨d, hd, hty⟩ => ⟨d, hl.field hd, hty⟩

/-- The arrays and the tuples that are recorded are what they are recorded as, each under a key of its own, and every array
is recorded. -/
structure Interned (p : Program) : Prop where
  recorded : ∀ e ∈ p.arrays, p.decl e.2 = .array ⟨e.1.1, e.1.2⟩
  array : ∀ x own, p.decl x = .array own → ((own.element, own.length), x) ∈ p.arrays
  arrays : (p.arrays.map (·.1)).Nodup
  tuple : ∀ e ∈ p.tuples, p.TupleOf e.2 e.1
  tuples : (p.tuples.map (·.1)).Nodup

namespace Interned

/-- **There is one array for an element and a length.** -/
theorem array_eq (h : p.Interned) {own : ArrayDecl} (hx : p.decl x = .array own) (hy : p.decl y = .array own) : x = y := by
  have heq := List.inj_on_of_nodup_map h.arrays (h.array x own hx) (h.array y own hy) rfl
  exact congrArg Prod.snd heq

/-- **There is one recorded tuple for a list of types.** -/
theorem tuple_eq (h : p.Interned) (hx : (types, x) ∈ p.tuples) (hy : (types', y) ∈ p.tuples)
    (ht : p.TupleOf y types) : x = y := by
  obtain rfl := ht.types_eq (h.tuple _ hy)
  exact congrArg Prod.snd (List.inj_on_of_nodup_map h.tuples hx hy rfl)

/-- Nothing is recorded, and what is recorded is left alone. -/
theorem of_later (h : p.Interned) (hl : p.Later q) (ha : q.arrays = p.arrays) (ht : q.tuples = p.tuples)
    (harray : ∀ x own, q.decl x = .array own → p.decl x = .array own)
    (hfields : ∀ types x a b, (types, x) ∈ p.tuples → p.decl x = .struct a → q.decl x = .struct b →
      b.fields = a.fields) : q.Interned where
  recorded e he := by
    rw [ha] at he
    have hd := h.recorded e he
    rw [hl.decl_eq (by rw [hd]; rfl) (by rw [hd]; simp), hd]
  array x own hx := by
    rw [ha]
    exact h.array x own (harray x own hx)
  arrays := by rw [ha]; exact h.arrays
  tuple e he := by
    rw [ht] at he
    exact (h.tuple e he).later hl (hfields e.1 e.2 · · he)
  tuples := by rw [ht]; exact h.tuples

/-- The symbols are the same. -/
theorem of_symbols (h : p.Interned) (hl : p.Later q) (ha : q.arrays = p.arrays) (ht : q.tuples = p.tuples)
    (hs : q.symbols = p.symbols) : q.Interned := by
  have hdecl : q.decl = p.decl := by
    funext x
    simp only [decl, symbol, hs]
  refine h.of_later hl ha ht (fun x own hx => by rwa [hdecl] at hx) fun types x a b _ hpx hqx => ?_
  rw [hdecl, hpx] at hqx
  cases hqx
  rfl

/-- **An array that is not found is added and recorded.** -/
theorem addArray {new : Symbol} {own : ArrayDecl} (h : p.Interned)
    (hl : p.Later { p.addSymbol new with arrays := ((own.element, own.length), p.nextSymbol) :: p.arrays })
    (hd : new.decl = .array own) (hkey : p.arrays.lookup (own.element, own.length) = none) :
    Interned { p.addSymbol new with arrays := ((own.element, own.length), p.nextSymbol) :: p.arrays } where
  recorded e he := by
    show (p.addSymbol new).decl e.2 = _
    rcases List.mem_cons.1 he with rfl | he
    · rw [decl_addSymbol_next, hd]
    · have hold := h.recorded e he
      rw [decl_addSymbol_of_lt p new (lt_of_decl (by rw [hold]; simp)), hold]
  array x own' hx := by
    have hx : (p.addSymbol new).decl x = _ := hx
    rw [decl_addSymbol] at hx
    split at hx
    · rename_i heq
      rw [hd] at hx
      cases hx
      rw [heq]
      exact List.mem_cons_self
    · exact List.mem_cons_of_mem _ (h.array x own' hx)
  arrays := nodup_keys_cons _ h.arrays hkey
  tuple e he := by
    refine (h.tuple e he).later hl fun a b ha hb => ?_
    have hb : (p.addSymbol new).decl e.2 = _ := hb
    rw [decl_addSymbol_of_lt p new (lt_of_decl (by rw [ha]; simp)), ha] at hb
    cases hb
    rfl
  tuples := h.tuples

/-- **A tuple is recorded under the types of its fields.** -/
theorem addTuple (h : p.Interned) (hkey : p.tuples.lookup types = none) (ht : p.TupleOf x types) :
    Interned { p with tuples := (types, x) :: p.tuples } where
  recorded := h.recorded
  array := h.array
  arrays := h.arrays
  tuple e he := by
    rcases List.mem_cons.1 he with rfl | he
    · exact ht
    · exact h.tuple e he
  tuples := nodup_keys_cons _ h.tuples hkey

end Interned

end Bindery.Program
