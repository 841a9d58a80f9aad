import Bindery.Proofs.Binding
/-!
# Types are identified by their structure

A table gives a type one number for good, after the number of what the type leads to. A type is its pointers and
references, in order, over a symbol or over nothing known, so numbers are equal exactly if these are. What stands at the
bottom is shared too: binding makes one array for an element and a length, and one tuple for the types of its fields.
-/
namespace Bindery

/-- What a type adds to the one that it leads to. -/
inductive Indirection where
  | pointer
  | reference
  deriving DecidableEq, Repr

namespace Ty

/-- The indirections of a type, outermost first. -/
def indirections : Ty → List Indirection
  | .unknown | .direct _ => []
  | .pointer pointee => .pointer :: indirections pointee
  | .reference pointee => .reference :: indirections pointee

/-- **A type is its indirections over a symbol**, or over nothing known. -/
theorem eq_iff_indirections {a b : Ty} : a = b ↔ a.indirections = b.indirections ∧ a.base? = b.base? := by
  induction a generalizing b with
  | unknown | direct => cases b <;> simp [indirections, base?]
  | pointer _ ih | reference _ ih => cases b <;> simp [indirections, base?, ih]

end Ty

/-! ## The table of types -/

namespace TypeTable

variable {table : TypeTable} {ty inner : Ty} {n : Nat}

/-- Each type is in the table once, after the type that it leads to. -/
structure Ordered (table : TypeTable) : Prop where
  nodup : table.types.Nodup
  pointee : ∀ n < table.types.length, ∀ inner ∈ table.types[n]?.bind (·.pointee?), ∃ m < n, table.types[m]? = some inner

theorem initial_ordered : initial.Ordered := by
  constructor <;> decide +kernel

theorem types_prefix_add (table : TypeTable) (ty : Ty) : table.types <+: (table.add ty).types := by
  rw [add]
  split
  · exact List.prefix_rfl
  · exact List.prefix_append _ _

theorem mem_types_add (table : TypeTable) (ty : Ty) : ty ∈ (table.add ty).types := by
  rw [add]
  split
  · assumption
  · simp

/-- A type may be added when the table has what it leads to. -/
theorem Ordered.add (h : table.Ordered) (hty : ∀ inner ∈ ty.pointee?, inner ∈ table.types) : (table.add ty).Ordered := by
  rw [TypeTable.add]
  split
  · exact h
  rename_i hnew
  refine ⟨List.nodup_append.2 ⟨h.nodup, by simp, by rintro a ha _ hb rfl; simp_all⟩, fun n hn inner hinner => ?_⟩
  rcases Nat.lt_or_ge n table.types.length with hlt | hge
  · rw [List.getElem?_append_left hlt] at hinner
    obtain ⟨m, hm, hat⟩ := h.pointee n hlt inner hinner
    exact ⟨m, hm, by rwa [List.getElem?_append_left (hm.trans hlt)]⟩
  · -- the type that was added comes last
    obtain rfl : n = table.types.length := by
      rw [List.length_append, List.length_singleton] at hn
      omega
    rw [List.getElem?_concat_length, Option.bind_some] at hinner
    obtain ⟨m, hm, hat⟩ := List.getElem_of_mem (hty inner hinner)
    exact ⟨m, hm, by rw [List.getElem?_append_left hm, List.getElem?_eq_getElem hm, hat]⟩

theorem insert_of_pointee (h : ty.pointee? = some inner) : table.insert ty = (table.insert inner).add ty := by
  cases ty with
  | unknown | direct => cases h
  | pointer | reference =>
    cases h
    simp [insert, Ty.unfold]

theorem insert_of_not_indirect (h : ty.pointee? = none) : table.insert ty = table.add ty := by
  cases ty with
  | unknown | direct => rfl
  | pointer | reference => cases h

theorem mem_types_insert (table : TypeTable) (ty : Ty) : ty ∈ (table.insert ty).types := by
  cases h : ty.pointee? with
  | none => rw [insert_of_not_indirect h]; exact mem_types_add _ _
  | some inner => rw [insert_of_pointee h]; exact mem_types_add _ _

/-- **A number that was given is kept.** -/
theorem types_prefix_insert (table : TypeTable) (ty : Ty) : table.types <+: (table.insert ty).types := by
  induction ty with
  | unknown | direct => exact types_prefix_add _ _
  | pointer inner ih | reference inner ih =>
    rw [insert_of_pointee rfl]
    exact ih.trans (types_prefix_add _ _)

/-- **A type comes after what it leads to.** -/
theorem Ordered.insert (h : table.Ordered) (ty : Ty) : (table.insert ty).Ordered := by
  induction ty with
  | unknown | direct => exact h.add (by rintro _ ⟨⟩)
  | pointer inner ih | reference inner ih =>
    rw [insert_of_pointee rfl]
    exact ih.add (by rintro _ ⟨⟩; exact mem_types_insert table inner)

/-- The table after types have come up, one after another. -/
def ofTypes (tys : List Ty) : TypeTable := tys.foldl insert initial

/-- Whatever types come up, the table is ordered. -/
theorem ofTypes_ordered (tys : List Ty) : (ofTypes tys).Ordered := by
  have hall : ∀ (tys : List Ty) (table : TypeTable), table.Ordered → (tys.foldl insert table).Ordered := by
    intro tys
    induction tys with
    | nil => exact fun _ h => h
    | cons ty rest ih => exact fun _ h => ih _ (h.insert ty)
  exact hall tys _ initial_ordered

/-- The number of a type is where it stands. -/
theorem Ordered.number?_eq_some (h : table.Ordered) : table.number? ty = some n ↔ table.types[n]? = some ty := by
  rw [number?, List.idxOf?_eq_some_iff, List.getElem?_eq_some_iff]
  refine ⟨fun ⟨hn, hat, _⟩ => ⟨hn, hat⟩, fun ⟨hn, hat⟩ => ⟨hn, hat, fun j hj hat' => ?_⟩⟩
  have := h.nodup.getElem_inj_iff.1 (hat'.trans hat.symm)
  omega

/-- **Numbers are equal exactly if the types have the same indirections over the same symbol.** -/
theorem Ordered.eq_iff_indirections (h : table.Ordered) {i j : Nat} {a b : Ty} (ha : table.types[i]? = some a)
    (hb : table.types[j]? = some b) : i = j ↔ a.indirections = b.indirections ∧ a.base? = b.base? := by
  rw [← Ty.eq_iff_indirections, ← List.getElem?_inj (List.getElem?_eq_some_iff.1 ha).1 h.nodup, ha, hb, Option.some_inj]

end TypeTable

/-! ## Arrays and tuples -/

namespace BindState

variable {options : BindOptions} {names : NameTable} {s t : BindState} {x y : SymbolId} {types : List Ty}

/-- **In what was bound, there is one tuple for a list of types.** -/
theorem tuple_unique (batches : List (List ModuleDef)) (hx : (bindAll options names batches).program.TupleOf x types)
    (hy : (bindAll options names batches).program.TupleOf y types) : x = y := by
  have hi := (bindAll_sound options names batches).interned
  have hrecorded : ∀ z, (bindAll options names batches).program.TupleOf z types →
      (types, z) ∈ (bindAll options names batches).program.tuples := fun z hz => by
    rcases (bindAll_settles options names batches).tuples z hz.isTuple with ⟨types', he⟩ | hfalse | ⟨hlt, -⟩
    · rwa [hz.types_eq (hi.tuple _ he)]
    · exact hfalse.elim
    · -- a symbol that was there at the start is builtin
      have hlater := (bindAll_keeps options names batches).2
      obtain ⟨own, hd, -⟩ := (hlater.decl z hlt).isTuple_iff.1 hz.isTuple
      obtain ⟨own', hd'⟩ := Program.decl_initial options.pointerWidth z
      cases hd.symm.trans hd'
  exact hi.tuple_eq (hrecorded x hx) (hrecorded y hy) hy

open Sample

set_option maxRecDepth 10000

/-- Two tuples of the same types, and two arrays of one element and length. -/
def sharedTypes : Sample fun s => s.log.errorCount = 0 ∧ ([.bool, .bool], ⟨19⟩) ∈ s.program.tuples ∧
    ((.bool, 4), ⟨24⟩) ∈ s.program.arrays where
  body :=
    [define "x" (node (.tuple [node (.bool true), node (.bool false)])),
      define "y" (node (.tuple [node (.bool false), node (.bool true)])),
      field "a" (node (.arrayType (name "Bool") (node (.int 4 none)))),
      field "b" (node (.arrayType (name "Bool") (node (.int 4 none))))]
  shown := by decide +kernel

end BindState

end Bindery
