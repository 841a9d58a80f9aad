import Bindery.Proofs.RecordedSizes
import Mathlib.Algebra.Group.Nat.Defs
import Mathlib.Data.Fintype.EquivFin
/-!
# Layouts as numbers

What a layout has to be is said with numbers that have no bound. A type measures a size and an alignment: each field of a
struct stands at the first multiple of its alignment that is not below the end of the field before it, the members of a
union share one place, and the whole is the first multiple of the largest alignment. Layouts are computed in words of 64
bits. Alignments are small and always exact; a size is exact if it is below `2 ^ 64`, and only then.
-/
namespace Bindery

/-! ## Multiples -/

/-- The first multiple of `a` that is not below `n`. -/
structure FirstMultiple (a n m : Nat) : Prop where
  dvd : a ∣ m
  le : n ≤ m
  lt : m < n + a

namespace FirstMultiple

variable {a n m k : Nat}

instance : Decidable (FirstMultiple a n m) :=
  decidable_of_iff (a ∣ m ∧ n ≤ m ∧ m < n + a) ⟨fun h => ⟨h.1, h.2.1, h.2.2⟩, fun h => ⟨h.dvd, h.le, h.lt⟩⟩

theorem of_div (ha : 0 < a) : FirstMultiple a n ((n / a + if n % a = 0 then 0 else 1) * a) := by
  have hdiv := Nat.div_add_mod' n a
  have hlt := Nat.mod_lt n ha
  refine ⟨Nat.dvd_mul_left _ _, ?_, ?_⟩ <;> rw [Nat.add_mul] <;> split <;> omega

theorem le_of_dvd (h : FirstMultiple a n m) (hk : a ∣ k) (hn : n ≤ k) : m ≤ k := by
  obtain ⟨i, rfl⟩ := h.dvd
  obtain ⟨j, rfl⟩ := hk
  have hij : a * i < a * (j + 1) := by
    have := h.lt
    rw [Nat.mul_add]
    omega
  exact Nat.mul_le_mul_left a (Nat.lt_succ_iff.1 (Nat.lt_of_mul_lt_mul_left hij))

theorem unique (h : FirstMultiple a n m) (h' : FirstMultiple a n k) : m = k :=
  Nat.le_antisymm (h.le_of_dvd h'.dvd h'.le) (h'.le_of_dvd h.dvd h.le)

end FirstMultiple

namespace Layout

/-- Rounding gives the first multiple, if that fits in a word. -/
theorem toNat_roundUp {size align : UInt64} {m : Nat} (ha : 0 < align.toNat)
    (h : FirstMultiple align.toNat size.toNat m) (hm : m < 2 ^ 64) : (roundUp size align).toNat = m := by
  have heq := FirstMultiple.unique (.of_div ha) h
  have hle : size.toNat / align.toNat + (if size.toNat % align.toNat = 0 then 0 else 1) ≤ m :=
    heq ▸ Nat.le_mul_of_pos_right _ ha
  have hif : (if size % align = 0 then (0 : UInt64) else 1).toNat = if size.toNat % align.toNat = 0 then 0 else 1 := by
    simp only [← UInt64.toNat_inj, UInt64.toNat_mod, UInt64.toNat_zero]
    split <;> rfl
  rw [roundUp, UInt64.toNat_mul, UInt64.toNat_add, UInt64.toNat_div, hif,
    Nat.mod_eq_of_lt (Nat.lt_of_le_of_lt hle hm), heq, Nat.mod_eq_of_lt hm]

theorem toNat_max (a b : UInt64) : (max a b).toNat = max a.toNat b.toNat := by
  show (if a ≤ b then b else a).toNat = _
  split <;> rename_i h <;> rw [UInt64.le_iff_toNat_le] at h <;> omega

/-- What is made of parts by taking the larger one is the largest of them. -/
theorem toNat_foldl {step : Layout → Layout → Layout} {part : Layout → UInt64}
    (hstep : ∀ a b, part (step a b) = max (part a) (part b)) (ls : List Layout) (whole : Layout) :
    (part (ls.foldl step whole)).toNat = (ls.map fun l => (part l).toNat).foldl max (part whole).toNat := by
  induction ls generalizing whole with
  | nil => rfl
  | cons l ls ih => rw [List.foldl_cons, ih, hstep, toNat_max]; rfl

end Layout

/-! ## Extents -/

/-- A size and an alignment as numbers without a bound. -/
structure Extent where
  size : Nat
  align : Nat
  deriving DecidableEq

namespace Extent

/-- Extents that stand one after the other, from a place to the end of the last one. -/
inductive Follow : Nat → List Extent → Nat → Prop
  | nil (place : Nat) : Follow place [] place
  | cons {place start stop : Nat} {e : Extent} {es : List Extent} : FirstMultiple e.align place start →
      Follow (start + e.size) es stop → Follow place (e :: es) stop

/-- The end of the extents of the fields of a struct, or of the members of a union. -/
def Ends : Decl → List Extent → Nat → Prop
  | .struct _, es, stop => Follow 0 es stop
  | .union _, es, stop => (0 :: es.map (·.size)).max? = some stop
  | _, _, _ => False

/-- The largest alignment. -/
def Aligns (es : List Extent) (align : Nat) : Prop := (1 :: es.map (·.align)).max? = some align

namespace Follow

variable {place stop stop' : Nat} {e : Extent} {es before after : List Extent}

theorem le (h : Follow place es stop) : place ≤ stop := by
  induction h with
  | nil => exact Nat.le_refl _
  | cons hfirst _ ih => exact Nat.le_trans hfirst.le (Nat.le_trans (Nat.le_add_right ..) ih)

theorem unique (h : Follow place es stop) (h' : Follow place es stop') : stop = stop' := by
  induction h with
  | nil => cases h'; rfl
  | cons hfirst _ ih =>
    cases h' with
    | cons hfirst' hrest =>
      cases hfirst.unique hfirst'
      exact ih hrest

/-- Every extent stands at the first multiple of its alignment after those before it. -/
theorem split (h : Follow place (before ++ e :: after) stop) : ∃ mid start, Follow place before mid ∧
    FirstMultiple e.align mid start ∧ Follow (start + e.size) after stop := by
  induction before generalizing place with
  | nil =>
    cases h with
    | cons hfirst hrest => exact ⟨_, _, .nil _, hfirst, hrest⟩
  | cons b before ih =>
    cases h with
    | cons hfirst hrest =>
      obtain ⟨mid, start, hbefore, hstart, hafter⟩ := ih hrest
      exact ⟨mid, start, .cons hfirst hbefore, hstart, hafter⟩

theorem exists_of_pos (h : ∀ e ∈ es, 0 < e.align) (place : Nat) : ∃ stop, Follow place es stop := by
  induction es generalizing place with
  | nil => exact ⟨_, .nil _⟩
  | cons e es ih =>
    obtain ⟨stop, hrest⟩ := ih (fun e he => h e (List.mem_cons_of_mem _ he)) _
    exact ⟨stop, .cons (.of_div (h e (List.mem_cons_self ..))) hrest⟩

theorem size_le (h : Follow place es stop) (he : e ∈ es) : e.size ≤ stop := by
  obtain ⟨before, after, rfl⟩ := List.append_of_mem he
  obtain ⟨_, start, -, -, hafter⟩ := h.split
  exact Nat.le_trans (Nat.le_add_left ..) hafter.le

end Follow

/-- The alignments that occur. -/
def alignments : List Nat := [1, 2, 4, 8, 16]

theorem two_pow_of_mem {align : Nat} (h : align ∈ alignments) : ∃ k ≤ 4, align = 2 ^ k :=
  (by decide : ∀ align ∈ alignments, ∃ k ≤ 4, align = 2 ^ k) align h

theorem pos_of_mem {align : Nat} (h : align ∈ alignments) : 0 < align := by
  obtain ⟨k, -, rfl⟩ := two_pow_of_mem h
  exact Nat.two_pow_pos k

/-- A size that is a multiple of an alignment that occurs. -/
structure Regular (e : Extent) : Prop where
  align : e.align ∈ alignments
  dvd : e.align ∣ e.size

theorem Ends.unique {d : Decl} {es : List Extent} {stop stop' : Nat} (h : Ends d es stop) (h' : Ends d es stop') :
    stop = stop' := by
  unfold Ends at h h'
  split at h
  · exact Follow.unique h h'
  · exact Option.some.inj (h.symm.trans h')
  · exact h.elim

theorem Ends.size_le {d : Decl} {e : Extent} {es : List Extent} {stop : Nat} (h : Ends d es stop) (he : e ∈ es) :
    e.size ≤ stop := by
  unfold Ends at h
  split at h
  · exact Follow.size_le h he
  · exact (List.max?_eq_some_iff.1 h).2 _ (List.mem_cons_of_mem _ (List.mem_map_of_mem he))
  · exact h.elim

/-- The largest alignment occurs, as that of a byte does. -/
theorem Aligns.mem {es : List Extent} {align : Nat} (h : Aligns es align) (hes : ∀ e ∈ es, e.Regular) :
    align ∈ alignments := by
  rcases List.mem_cons.1 (List.max?_eq_some_iff.1 h).1 with rfl | hm
  · decide
  · obtain ⟨e, he, rfl⟩ := List.mem_map.1 hm
    exact (hes e he).align

/-- The extents of what holds no values of other types: a scalar or a packed value is aligned to its size, a function
is a pointer, and what has no values takes no room. -/
def ofDecl? (width : Nat) : Decl → Option Extent
  | .builtin (.scalar own) => some ⟨own.bits / 8, own.bits / 8⟩
  | .builtin (.packed element lanes) => some ⟨element.bits / 8 * lanes, element.bits / 8 * lanes⟩
  | .function _ => some ⟨width / 8, width / 8⟩
  | .struct _ | .union _ | .array _ | .enum _ => none
  | _ => some ⟨0, 1⟩

theorem Ends.ofDecl?_eq_none {d : Decl} {es : List Extent} {stop : Nat} (h : Ends d es stop) (width : Nat) :
    ofDecl? width d = none := by
  cases d <;> first | rfl | exact h.elim

end Extent

namespace Program

open Extent

/-- **What a type measures.** -/
inductive Measures (p : Program) : Ty → Extent → Prop
  | unknown : Measures p .unknown ⟨0, 1⟩
  | pointer (inner : Ty) : Measures p (.pointer inner) ⟨p.pointerWidth / 8, p.pointerWidth / 8⟩
  | reference (inner : Ty) : Measures p (.reference inner) ⟨p.pointerWidth / 8, p.pointerWidth / 8⟩
  | atom {x : SymbolId} {e : Extent} : ofDecl? p.pointerWidth (p.decl x) = some e → Measures p (.direct x) e
  | array {x : SymbolId} {own : ArrayDecl} {e : Extent} : p.decl x = .array own → Measures p own.element e →
      Measures p (.direct x) ⟨own.length.toNat * e.size, e.align⟩
  | enum {x : SymbolId} {own : EnumDecl} {e : Extent} : p.decl x = .enum own → Measures p own.base e →
      Measures p (.direct x) e
  | fields {x : SymbolId} {stop size align : Nat} (extent : SymbolId → Extent) :
      (∀ f ∈ (p.decl x).fields, ∀ own, p.field? f = some own → Measures p own.ty (extent f)) →
      Ends (p.decl x) ((p.decl x).fields.map extent) stop → Aligns ((p.decl x).fields.map extent) align →
      FirstMultiple align stop size → Measures p (.direct x) ⟨size, align⟩

/-- The array that a symbol stands for. -/
def array? (p : Program) (x : SymbolId) : Option ArrayDecl :=
  match p.decl x with
  | .array own => some own
  | _ => none

theorem array?_eq_some {p : Program} {x : SymbolId} {own : ArrayDecl} : p.array? x = some own ↔ p.decl x = .array own := by
  unfold array?
  cases p.decl x <;> simp

/-- Neither a type nor a type inside it contains itself by value. -/
def Founded (p : Program) (ty : Ty) : Prop :=
  ∀ x y, ty = .direct x → Relation.ReflTransGen p.Holds x y → ¬ Relation.TransGen p.Holds y y

variable {p : Program} {x : SymbolId} {ty : Ty} {e e' : Extent}

/-! ## Types that do not contain themselves -/

theorem Founded.held (h : p.Founded (.direct x)) (hm : ty ∈ p.heldTypes x) : p.Founded ty := by
  rintro y z rfl hz
  exact h x z rfl (.head hm hz)

/-- A type that is founded comes to an end in every direction, since there are no more types than symbols. -/
theorem Founded.acc (h : p.Founded (.direct x)) : Acc (fun b a => p.Holds a b) x := by
  let below (i j : Fin p.symbols.size) : Prop :=
    Relation.ReflTransGen p.Holds x ⟨i.1⟩ ∧ Relation.ReflTransGen p.Holds x ⟨j.1⟩ ∧ Relation.TransGen p.Holds ⟨j.1⟩ ⟨i.1⟩
  have htrans : IsTrans _ below := ⟨fun i j k hij hjk => ⟨hij.1, hjk.2.1, hjk.2.2.trans hij.2.2⟩⟩
  have hirrefl : Std.Irrefl below := ⟨fun i hi => h x _ rfl hi.1 hi.2.2⟩
  have hwf := Finite.wellFounded_of_trans_of_irrefl below
  have main : ∀ i : Fin p.symbols.size, Relation.ReflTransGen p.Holds x ⟨i.1⟩ → Acc (fun b a => p.Holds a b) ⟨i.1⟩ := by
    intro i
    induction i using hwf.induction with
    | _ i ih =>
      intro hi
      refine ⟨_, fun y hy => ?_⟩
      by_cases hlt : y.index < p.symbols.size
      · exact ih ⟨y.index, hlt⟩ ⟨hi.tail hy, hi, .single hy⟩ (hi.tail hy)
      · exact ⟨_, fun z hz => absurd hz.lt hlt⟩
  by_cases hlt : x.index < p.symbols.size
  · exact main ⟨x.index, hlt⟩ .refl
  · exact ⟨_, fun z hz => absurd hz.lt hlt⟩

/-- The layout of a founded type is known after as many steps as there are symbols. -/
theorem Founded.layoutUpTo_eq (h : p.Founded ty) {n : Nat} (hn : p.symbols.size < n) :
    p.layoutUpTo n ty = p.layout ty := by
  classical
  cases ty with
  | direct x =>
    -- other types may contain themselves, so that only those inside this one are looked at
    have heq := @eq_of_acyclic Layout (fun a b => Relation.ReflTransGen p.Holds x a ∧ p.Holds a b) p.symbols.size
      (fun n a => if Relation.ReflTransGen p.Holds x a then p.layoutUpTo n (.direct a) else .empty)
      (fun _ _ hab => hab.2.lt) ?_ ?_ n (p.symbols.size + 1) x hn (Nat.lt_succ_self _)
    · simpa only [layout, Relation.ReflTransGen.refl, if_true] using heq
    · intro a ha
      obtain ⟨b, hb, -⟩ := Relation.TransGen.head'_iff.1 ha
      exact h x a rfl hb.1 (Relation.TransGen.mono (fun _ _ hab => hab.2) _ _ ha)
    · intro m n a hstep
      by_cases ha : Relation.ReflTransGen p.Holds x a
      · simp only [if_pos ha]
        refine layoutUpTo_congr fun b hb => ?_
        simpa only [if_pos (ha.tail hb)] using hstep b ⟨ha, hb⟩
      · simp only [if_neg ha]
  | _ => simp only [layout, layoutUpTo]

/-- The layout of a field. -/
def fieldLayout (p : Program) (field : SymbolId) : Layout := ((p.field? field).map fun own => p.layout own.ty).getD .empty

/-- The layout of fields one after the other, not rounded yet: its size is the end of the last one. -/
def laidOut (p : Program) (fields : List SymbolId) : Layout := (fields.map p.fieldLayout).foldl Layout.append .empty

/-- The layout of members in one place, not rounded yet. -/
def overlaid (p : Program) (fields : List SymbolId) : Layout := (fields.map p.fieldLayout).foldl Layout.overlay .empty

theorem laidOut_concat (p : Program) (fields : List SymbolId) (f : SymbolId) :
    p.laidOut (fields ++ [f]) = (p.laidOut fields).append (p.fieldLayout f) := by
  simp [laidOut, List.foldl_append]

/-- The layout of a founded type is made of those of the values in it. -/
theorem Founded.layout_direct (h : p.Founded (.direct x)) : p.layout (.direct x) =
    match p.decl x with
    | .struct own => (p.laidOut own.fields).close
    | .union own => (p.overlaid own.fields).close
    | .array own => ⟨p.sizeOf own.element * own.length, p.alignOf own.element⟩
    | .enum own => p.layout own.base
    | _ => p.layout (.direct x) := by
  have hheld : ∀ ty ∈ p.heldTypes x, p.layoutUpTo (p.symbols.size + 1) ty = p.layout ty :=
    fun ty hm => (h.held hm).layoutUpTo_eq (Nat.lt_succ_self _)
  have hlayout := h.layoutUpTo_eq (Nat.lt_add_of_pos_right Nat.two_pos)
  unfold heldTypes at hheld
  rw [layoutUpTo] at hlayout
  cases hd : p.decl x <;> simp only [hd] at hheld hlayout ⊢
  case array own => rw [← hlayout, hheld own.element (by simp)]; rfl
  case enum own => rw [← hlayout, hheld own.base (by simp)]
  case struct own | union own =>
    rw [← hlayout, List.map_congr_left fun field hf => ?_]
    · rfl
    · cases hfield : p.decl field <;> simp only [fieldLayout, field?, hfield, Option.map_some, Option.map_none,
        Option.getD_some, Option.getD_none]
      exact hheld _ (List.mem_filterMap.2 ⟨field, hf, by simp [field?, hfield]⟩)

/-! ## Every type measures something -/

theorem HasPointerInt.regular (hw : p.HasPointerInt) : Regular ⟨p.pointerWidth / 8, p.pointerWidth / 8⟩ := by
  refine ⟨?_, Nat.dvd_refl _⟩
  rcases hw with hw | hw <;> simp [hw, alignments]

theorem regular_of_builtin {own : Builtin} {width : Nat} (h : ∃ name, (name, own) ∈ Builtin.all)
    (he : ofDecl? width (.builtin own) = some e) : e.Regular := by
  obtain ⟨name, hm⟩ := h
  simp only [Builtin.all, List.mem_cons, Prod.mk.injEq, List.not_mem_nil, or_false] at hm
  rcases hm with h | h | h | h | h | h | h | h | h | h | h | h | h | h | h | h | h <;> obtain ⟨-, rfl⟩ := h <;>
    cases he <;> exact ⟨by decide, by decide⟩

theorem Standard.regular_of_atom (hp : p.Standard) (hw : p.HasPointerInt) (h : ofDecl? p.pointerWidth (p.decl x) = some e) :
    e.Regular := by
  cases hd : p.decl x with
  | builtin own =>
    rw [hd] at h
    rcases hp.place x own hd with rfl | ⟨name, hname⟩
    · cases h
      exact ⟨by decide, Nat.one_dvd _⟩
    · exact regular_of_builtin ⟨name, List.mem_of_getElem? hname⟩ h
  | function own =>
    rw [hd] at h
    cases h
    exact hw.regular
  | struct | union | array | enum => rw [hd] at h; cases h
  | _ =>
    rw [hd] at h
    cases h
    exact ⟨by decide, Nat.one_dvd _⟩

/-- **What a type measures is a multiple of its alignment**, which is a power of two. -/
theorem Measures.regular (hp : p.Sound) (hw : p.HasPointerInt) (h : p.Measures ty e) : e.Regular := by
  induction h with
  | unknown => exact ⟨by decide, Nat.one_dvd _⟩
  | pointer | reference => exact hw.regular
  | atom he => exact hp.standard.regular_of_atom hw he
  | array _ _ ih => exact ⟨ih.align, Nat.dvd_mul_left_of_dvd ih.dvd _⟩
  | enum _ _ ih => exact ih
  | fields extent _ _ halign hsize ih =>
    refine ⟨halign.mem fun e he => ?_, hsize.dvd⟩
    obtain ⟨f, hf, rfl⟩ := List.mem_map.1 he
    obtain ⟨own, hown⟩ := hp.field_of_mem_fields hf
    exact ih f hf own hown

/-- What a type measures follows from what the values in it measure. -/
theorem exists_measures (hp : p.Sound) (hw : p.HasPointerInt) (h : ∀ ty ∈ p.heldTypes x, ∃ e, p.Measures ty e) :
    ∃ e, p.Measures (.direct x) e := by
  have hfield : ∀ f, ∃ e, ∀ own, f ∈ (p.decl x).fields → p.field? f = some own → p.Measures own.ty e := by
    intro f
    by_cases hf : f ∈ (p.decl x).fields
    · obtain ⟨own, hown⟩ := hp.field_of_mem_fields hf
      obtain ⟨e, he⟩ := h own.ty (mem_heldTypes.2 (.inl ⟨f, hf, own, hown, rfl⟩))
      refine ⟨e, fun own' _ hown' => ?_⟩
      cases hown.symm.trans hown'
      exact he
    · exact ⟨⟨0, 1⟩, fun _ hf' _ => absurd hf' hf⟩
  choose extent hextent using hfield
  have hregular : ∀ e ∈ (p.decl x).fields.map extent, e.Regular := by
    intro e he
    obtain ⟨f, hf, rfl⟩ := List.mem_map.1 he
    obtain ⟨own, hown⟩ := hp.field_of_mem_fields hf
    exact (hextent f own hf hown).regular hp hw
  have hfields : ∀ stop, Ends (p.decl x) ((p.decl x).fields.map extent) stop → ∃ e, p.Measures (.direct x) e := by
    intro stop hstop
    have halign : Aligns ((p.decl x).fields.map extent) _ := List.max?_cons'
    exact ⟨_, .fields extent (fun f hf own hown => hextent f own hf hown) hstop halign
      (.of_div (pos_of_mem (halign.mem hregular)))⟩
  cases hd : p.decl x with
  | struct own =>
    obtain ⟨stop, hstop⟩ := Follow.exists_of_pos (fun e he => pos_of_mem (hregular e he).align) 0
    exact hfields stop (by rw [hd] at hstop ⊢; exact hstop)
  | union own => exact hfields _ (by rw [hd]; exact List.max?_cons')
  | array own =>
    obtain ⟨e, he⟩ := h own.element (mem_heldTypes.2 (.inr (.inl ⟨own, hd, rfl⟩)))
    exact ⟨_, .array hd he⟩
  | enum own =>
    obtain ⟨e, he⟩ := h own.base (mem_heldTypes.2 (.inr (.inr ⟨own, hd, rfl⟩)))
    exact ⟨e, .enum hd he⟩
  | builtin own => cases own <;> exact ⟨_, .atom (by rw [hd]; rfl)⟩
  | _ => exact ⟨_, .atom (by rw [hd]; rfl)⟩

/-- **A founded type measures something.** -/
theorem Founded.measures (hp : p.Sound) (hw : p.HasPointerInt) (h : p.Founded ty) : ∃ e, p.Measures ty e := by
  cases ty with
  | unknown => exact ⟨_, .unknown⟩
  | pointer inner => exact ⟨_, .pointer inner⟩
  | reference inner => exact ⟨_, .reference inner⟩
  | direct x =>
    have hacc := h.acc
    clear h
    induction hacc with
    | intro x _ ih =>
      refine exists_measures hp hw fun ty hm => ?_
      cases ty with
      | unknown => exact ⟨_, .unknown⟩
      | pointer inner => exact ⟨_, .pointer inner⟩
      | reference inner => exact ⟨_, .reference inner⟩
      | direct y => exact ih y hm

/-- **A type measures one thing.** -/
theorem Measures.unique (hp : p.Sound) (h : p.Measures ty e) (h' : p.Measures ty e') : e = e' := by
  induction h generalizing e' with
  | unknown => cases h'; rfl
  | pointer | reference => cases h'; rfl
  | atom he =>
    cases h' with
    | atom he' => exact Option.some.inj (he.symm.trans he')
    | array hd => rw [hd] at he; cases he
    | enum hd => rw [hd] at he; cases he
    | fields _ _ hends => rw [hends.ofDecl?_eq_none] at he; cases he
  | array hd _ ih =>
    cases h' with
    | atom he' => rw [hd] at he'; cases he'
    | array hd' h' =>
      cases hd.symm.trans hd'
      rw [ih h']
    | enum hd' => cases hd.symm.trans hd'
    | fields _ _ hends => rw [hd] at hends; exact hends.elim
  | enum hd _ ih =>
    cases h' with
    | atom he' => rw [hd] at he'; cases he'
    | array hd' => cases hd.symm.trans hd'
    | enum hd' h' =>
      cases hd.symm.trans hd'
      exact ih h'
    | fields _ _ hends => rw [hd] at hends; exact hends.elim
  | fields extent _ hends halign hsize ih =>
    cases h' with
    | atom he' => rw [hends.ofDecl?_eq_none] at he'; cases he'
    | array hd => rw [hd] at hends; exact hends.elim
    | enum hd => rw [hd] at hends; exact hends.elim
    | fields extent' hfields hends' halign' hsize' =>
      have heq := List.map_congr_left fun f hf =>
        have ⟨own, hown⟩ := hp.field_of_mem_fields hf
        ih f hf own hown (hfields f hf own hown)
      rw [heq] at hends halign
      cases hends.unique hends'
      cases Option.some.inj (halign.symm.trans halign')
      rw [hsize.unique hsize']

/-! ## Layouts are exact -/

/-- A layout agrees with an extent: the alignment is the same, and so is the size if it fits in a word. -/
structure Agrees (l : Layout) (e : Extent) : Prop where
  align : l.align.toNat = e.align
  size : e.size < 2 ^ 64 → l.size.toNat = e.size

theorem Agrees.ofNat (h : e.align ∈ alignments) : Agrees ⟨.ofNat e.size, .ofNat e.align⟩ e := by
  refine ⟨?_, fun hlt => ?_⟩
  · obtain ⟨k, hk, heq⟩ := two_pow_of_mem h
    have hlt : 2 ^ k < 2 ^ 64 := Nat.pow_lt_pow_right Nat.one_lt_two (by omega)
    rw [UInt64.toNat_ofNat', Nat.mod_eq_of_lt (heq ▸ hlt)]
  · rw [UInt64.toNat_ofNat', Nat.mod_eq_of_lt hlt]

theorem Agrees.close {whole : Layout} {stop size align : Nat} (halign : whole.align.toNat = align) (hpos : 0 < align)
    (hsize : FirstMultiple align stop size) (hstop : size < 2 ^ 64 → whole.size.toNat = stop) :
    Agrees whole.close ⟨size, align⟩ := by
  refine ⟨halign, fun hlt => Layout.toNat_roundUp (by omega) ?_ hlt⟩
  rw [halign, hstop hlt]
  exact hsize

theorem Agrees.array {l : Layout} (h : Agrees l e) (length : UInt64) :
    Agrees ⟨l.size * length, l.align⟩ ⟨length.toNat * e.size, e.align⟩ := by
  refine ⟨h.align, fun hlt => ?_⟩
  rw [UInt64.toNat_mul, Nat.mul_comm]
  rcases Nat.eq_zero_or_pos length.toNat with h0 | hpos
  · rw [h0, Nat.zero_mul, Nat.zero_mul, Nat.zero_mod]
  · rw [h.size (Nat.lt_of_le_of_lt (Nat.le_mul_of_pos_left _ hpos) hlt), Nat.mod_eq_of_lt hlt]

theorem layout_of_atom (h : ofDecl? p.pointerWidth (p.decl x) = some e) :
    p.layout (.direct x) = ⟨.ofNat e.size, .ofNat e.align⟩ := by
  rw [layout, layoutUpTo]
  generalize p.decl x = d at h
  cases d with
  | builtin own => cases own <;> cases h <;> rfl
  | _ => cases h <;> rfl

/-- The largest number of fields in words is the largest one in numbers. -/
theorem toNat_of_max {fields : List SymbolId} {extent : SymbolId → Extent} {part : Layout → UInt64}
    {measure : Extent → Nat} {step : Layout → Layout → Layout} {n : Nat}
    (hstep : ∀ a b, part (step a b) = max (part a) (part b))
    (hfields : ∀ f ∈ fields, (part (p.fieldLayout f)).toNat = measure (extent f))
    (h : ((part .empty).toNat :: (fields.map extent).map measure).max? = some n) :
    (part ((fields.map p.fieldLayout).foldl step .empty)).toNat = n := by
  have heq : (fields.map p.fieldLayout).map (fun l => (part l).toNat) = (fields.map extent).map measure := by
    rw [List.map_map, List.map_map]
    exact List.map_congr_left hfields
  rw [Layout.toNat_foldl hstep, heq]
  rw [List.max?_cons'] at h
  exact Option.some.inj h

/-- A field stands in words where it stands in numbers. -/
theorem Agrees.append {field whole : Layout} {place start : Nat} (h : Agrees field e) (he : e.Regular)
    (hplace : whole.size.toNat = place) (hfirst : FirstMultiple e.align place start) (hlt : start + e.size < 2 ^ 64) :
    (Layout.roundUp whole.size field.align).toNat = start ∧ (whole.append field).size.toNat = start + e.size := by
  have hpos := pos_of_mem he.align
  have hstart : (Layout.roundUp whole.size field.align).toNat = start :=
    Layout.toNat_roundUp (by rwa [h.align]) (by rwa [h.align, hplace]) (by omega)
  refine ⟨hstart, ?_⟩
  rw [Layout.append, UInt64.toNat_add, hstart, h.size (by omega), Nat.mod_eq_of_lt hlt]

/-- Fields end in words where they end in numbers. -/
theorem toNat_size_of_follow {fields : List SymbolId} {extent : SymbolId → Extent} {place stop : Nat} {whole : Layout}
    (h : Follow place (fields.map extent) stop)
    (hfields : ∀ f ∈ fields, Agrees (p.fieldLayout f) (extent f) ∧ (extent f).Regular) (hstop : stop < 2 ^ 64)
    (hplace : whole.size.toNat = place) :
    ((fields.map p.fieldLayout).foldl Layout.append whole).size.toNat = stop := by
  induction fields generalizing place whole with
  | nil =>
    cases h
    exact hplace
  | cons f fields ih =>
    cases h with
    | cons hfirst hrest =>
      obtain ⟨hagrees, hregular⟩ := hfields f (List.mem_cons_self ..)
      exact ih hrest (fun g hg => hfields g (List.mem_cons_of_mem _ hg))
        (hagrees.append hregular hplace hfirst (Nat.lt_of_le_of_lt hrest.le hstop)).2

/-- **The layout of a founded type is what the type measures**, as far as that fits in a word. -/
theorem Measures.agrees (hp : p.Sound) (hw : p.HasPointerInt) (h : p.Measures ty e) (hfounded : p.Founded ty) :
    Agrees (p.layout ty) e := by
  induction h with
  | unknown => exact ⟨rfl, fun _ => rfl⟩
  | pointer | reference => exact .ofNat hw.regular.align
  | atom he => exact layout_of_atom he ▸ .ofNat (hp.standard.regular_of_atom hw he).align
  | @array x own e hd _ ih =>
    rw [hfounded.layout_direct, hd]
    exact (ih (hfounded.held (mem_heldTypes.2 (.inr (.inl ⟨own, hd, rfl⟩))))).array own.length
  | @enum x own e hd _ ih =>
    rw [hfounded.layout_direct, hd]
    exact ih (hfounded.held (mem_heldTypes.2 (.inr (.inr ⟨own, hd, rfl⟩))))
  | @fields x stop size align extent hmeasured hends halign hsize ih =>
    have hfields : ∀ f ∈ (p.decl x).fields, Agrees (p.fieldLayout f) (extent f) ∧ (extent f).Regular := by
      intro f hf
      obtain ⟨own, hown⟩ := hp.field_of_mem_fields hf
      rw [fieldLayout, hown]
      exact ⟨ih f hf own hown (hfounded.held (mem_heldTypes.2 (.inl ⟨f, hf, own, hown, rfl⟩))),
        (hmeasured f hf own hown).regular hp hw⟩
    have hpos : 0 < align := pos_of_mem ((Measures.fields extent hmeasured hends halign hsize).regular hp hw).align
    have hle := hsize.le
    rw [hfounded.layout_direct]
    cases hd : p.decl x <;> rw [hd] at hends halign hfields <;> try exact hends.elim
    case struct own =>
      refine .close (toNat_of_max (fun _ _ => rfl) (fun f hf => (hfields f hf).1.align) halign) hpos hsize fun hlt => ?_
      exact toNat_size_of_follow hends hfields (by omega) rfl
    case union own =>
      refine .close (toNat_of_max (fun _ _ => rfl) (fun f hf => (hfields f hf).1.align) halign) hpos hsize fun hlt => ?_
      refine toNat_of_max (fun _ _ => rfl) (fun f hf => (hfields f hf).1.size ?_) hends
      have := hends.size_le (List.mem_map_of_mem hf)
      omega

/-! ## Fields -/

/-- Where a field stands behind others. -/
def startOf (p : Program) (before : List SymbolId) (f : SymbolId) : UInt64 :=
  Layout.roundUp (p.laidOut before).size (p.fieldLayout f).align

/-- The fields of a struct stand one after the other: each at the first multiple of its alignment that is not below the
end of the one before it. -/
structure InSequence (p : Program) (x : SymbolId) (fields : List SymbolId) : Prop where
  layout : p.layout (.direct x) = (p.laidOut fields).close
  place : ∀ before f after, fields = before ++ f :: after →
    FirstMultiple (p.fieldLayout f).align.toNat (p.laidOut before).size.toNat (p.startOf before f).toNat ∧
    (p.laidOut (before ++ [f])).size.toNat = (p.startOf before f).toNat + (p.fieldLayout f).size.toNat
  size : FirstMultiple (p.alignOf (.direct x)).toNat (p.laidOut fields).size.toNat (p.sizeOf (.direct x)).toNat
  align : (1 :: fields.map fun f => (p.fieldLayout f).align.toNat).max? = some (p.alignOf (.direct x)).toNat

/-- The members of a union stand in one place, which has the least size that there can be. -/
structure InOnePlace (p : Program) (x : SymbolId) (fields : List SymbolId) : Prop where
  room : ∀ f ∈ fields, (p.fieldLayout f).size.toNat ≤ (p.sizeOf (.direct x)).toNat
  least : ∀ m, (p.alignOf (.direct x)).toNat ∣ m → (∀ f ∈ fields, (p.fieldLayout f).size.toNat ≤ m) →
    (p.sizeOf (.direct x)).toNat ≤ m
  align : (1 :: fields.map fun f => (p.fieldLayout f).align.toNat).max? = some (p.alignOf (.direct x)).toNat

/-- What a struct or a union measures is known by what its fields measure. -/
theorem Measures.of_fields (hp : p.Sound) (hw : p.HasPointerInt) (h : p.Measures (.direct x) e) (hfounded : p.Founded (.direct x))
    (hd : (p.struct? x).isSome) {fields : List SymbolId} (hfields : (p.decl x).fields = fields) : ∃ extent stop,
      (∀ f ∈ fields, Agrees (p.fieldLayout f) (extent f) ∧ (extent f).Regular) ∧
      Ends (p.decl x) (fields.map extent) stop ∧ Aligns (fields.map extent) e.align ∧
      FirstMultiple e.align stop e.size := by
  subst hfields
  obtain ⟨own, hd⟩ := Option.isSome_iff_exists.1 hd
  rw [struct?_eq_some] at hd
  cases h with
  | atom he => rcases hd with hd | hd <;> rw [hd] at he <;> cases he
  | array hd' => rcases hd with hd | hd <;> cases hd.symm.trans hd'
  | enum hd' => rcases hd with hd | hd <;> cases hd.symm.trans hd'
  | fields extent hmeasured hends halign hsize =>
    refine ⟨extent, _, fun f hf => ?_, hends, halign, hsize⟩
    obtain ⟨own, hown⟩ := hp.field_of_mem_fields hf
    have hfield := hmeasured f hf own hown
    rw [fieldLayout, hown]
    exact ⟨hfield.agrees hp hw (hfounded.held (mem_heldTypes.2 (.inl ⟨f, hf, own, hown, rfl⟩))), hfield.regular hp hw⟩

theorem max?_fieldLayouts {fields : List SymbolId} {extent : SymbolId → Extent} {align : Nat}
    (h : Aligns (fields.map extent) align) (hfields : ∀ f ∈ fields, Agrees (p.fieldLayout f) (extent f)) :
    (1 :: fields.map fun f => (p.fieldLayout f).align.toNat).max? = some align := by
  rw [Aligns, List.map_map] at h
  rw [List.map_congr_left fun f hf => (hfields f hf).align]
  exact h

theorem Measures.inSequence (hp : p.Sound) (hw : p.HasPointerInt) (h : p.Measures (.direct x) e)
    (hfounded : p.Founded (.direct x)) (hlt : e.size < 2 ^ 64) {own : StructDecl} (hd : p.decl x = .struct own) :
    p.InSequence x own.fields := by
  have hown : (p.decl x).fields = own.fields := by rw [hd]; rfl
  obtain ⟨extent, stop, hfields, hends, haligns, hsize⟩ := h.of_fields hp hw hfounded (by simp [struct?, hd]) hown
  rw [hd] at hends
  obtain ⟨halign, hexact⟩ := h.agrees hp hw hfounded
  have hstop : stop < 2 ^ 64 := Nat.lt_of_le_of_lt hsize.le hlt
  refine ⟨by rw [hfounded.layout_direct, hd], ?_, ?_, ?_⟩
  · intro before f after heq
    have hends : Follow 0 (before.map extent ++ extent f :: after.map extent) stop := by
      rw [← List.map_cons, ← List.map_append, ← heq]
      exact hends
    obtain ⟨mid, start, hbefore, hfirst, hafter⟩ := hends.split
    have hle := Nat.lt_of_le_of_lt hafter.le hstop
    have hmid : (p.laidOut before).size.toNat = mid :=
      toNat_size_of_follow hbefore (fun g hg => hfields g (by rw [heq]; exact List.mem_append_left _ hg))
        (Nat.lt_of_le_of_lt (Nat.le_trans hfirst.le (Nat.le_add_right ..)) hle) rfl
    obtain ⟨hagrees, hregular⟩ := hfields f (by rw [heq]; simp)
    obtain ⟨hstart, hend⟩ := hagrees.append hregular hmid hfirst hle
    rw [startOf, hstart, hmid, hagrees.align, laidOut_concat, hend, hagrees.size (by omega)]
    exact ⟨hfirst, rfl⟩
  · have hend : (p.laidOut own.fields).size.toNat = stop := toNat_size_of_follow hends hfields hstop rfl
    rw [alignOf, sizeOf, halign, hexact hlt, hend]
    exact hsize
  · rw [alignOf, halign]
    exact max?_fieldLayouts haligns fun f hf => (hfields f hf).1

theorem Measures.inOnePlace (hp : p.Sound) (hw : p.HasPointerInt) (h : p.Measures (.direct x) e)
    (hfounded : p.Founded (.direct x)) (hlt : e.size < 2 ^ 64) {own : StructDecl} (hd : p.decl x = .union own) :
    p.InOnePlace x own.fields := by
  have hown : (p.decl x).fields = own.fields := by rw [hd]; rfl
  obtain ⟨extent, stop, hfields, hends, haligns, hsize⟩ := h.of_fields hp hw hfounded (by simp [struct?, hd]) hown
  rw [hd] at hends
  obtain ⟨halign, hexact⟩ := h.agrees hp hw hfounded
  have hle : ∀ f ∈ own.fields, (extent f).size ≤ stop := fun f hf => hends.size_le (List.mem_map_of_mem hf)
  have hfield : ∀ f ∈ own.fields, (p.fieldLayout f).size.toNat = (extent f).size := fun f hf =>
    (hfields f hf).1.size (Nat.lt_of_le_of_lt (Nat.le_trans (hle f hf) hsize.le) hlt)
  refine ⟨fun f hf => ?_, fun m hm hroom => ?_, ?_⟩
  · rw [hfield f hf, sizeOf, hexact hlt]
    exact Nat.le_trans (hle f hf) hsize.le
  · rw [sizeOf, hexact hlt]
    rw [alignOf, halign] at hm
    refine hsize.le_of_dvd hm ?_
    -- the end of the members is that of one of them, unless there are none
    rcases List.mem_cons.1 (List.max?_eq_some_iff.1 hends).1 with rfl | hmem
    · exact Nat.zero_le _
    · obtain ⟨_, he, rfl⟩ := List.mem_map.1 hmem
      obtain ⟨f, hf, rfl⟩ := List.mem_map.1 he
      exact hfield f hf ▸ hroom f hf
  · rw [alignOf, halign]
    exact max?_fieldLayouts haligns fun f hf => (hfields f hf).1

/-- An array has room for its elements and for nothing else. -/
theorem Measures.array_size (hp : p.Sound) (hw : p.HasPointerInt) (h : p.Measures (.direct x) e)
    (hfounded : p.Founded (.direct x)) (hlt : e.size < 2 ^ 64) {own : ArrayDecl} (hd : p.decl x = .array own) :
    (p.sizeOf (.direct x)).toNat = own.length.toNat * (p.sizeOf own.element).toNat := by
  rw [sizeOf, (h.agrees hp hw hfounded).size hlt]
  cases h with
  | atom he => rw [hd] at he; cases he
  | enum hd' => cases hd.symm.trans hd'
  | fields _ _ hends => rw [hd] at hends; exact hends.elim
  | array hd' h =>
    cases hd.symm.trans hd'
    rcases Nat.eq_zero_or_pos own.length.toNat with h0 | hpos
    · rw [h0, Nat.zero_mul, Nat.zero_mul]
    · have hagrees := h.agrees hp hw (hfounded.held (mem_heldTypes.2 (.inr (.inl ⟨own, hd, rfl⟩))))
      rw [sizeOf, hagrees.size (Nat.lt_of_le_of_lt (Nat.le_mul_of_pos_left _ hpos) hlt)]

/-- A type is founded if every type holds older ones only. -/
theorem founded_of_lt (h : ∀ x y, p.Holds x y → y.index < x.index) (ty : Ty) : p.Founded ty :=
  fun _ y _ _ => not_transGen_of_lt h y

end Program

namespace BindState

open Program Sample

variable {options : BindOptions} {names : NameTable} {s : BindState}

theorem Reached.hasPointerInt (h : Reached options names s) (hw : options.pointerWidth = 32 ∨ options.pointerWidth = 64) :
    s.program.HasPointerInt := by
  rw [HasPointerInt, (Steps.keep (initial_sound options names) h).2.1.width]
  exact hw

/-- **Layouts are valid and tight.** In every state that binding comes to, with pointers of 32 or 64 bits, for every
type that does not contain itself by value, nor holds one that does, and that measures less than `2 ^ 64` bytes: the
alignment is a power of two, and the size is a multiple of it. The fields of a struct stand one after the other, those
of a union in one place, and those of an array take the length times the size of the element. -/
theorem layouts_tight (options : BindOptions) (names : NameTable)
    (hw : options.pointerWidth = 32 ∨ options.pointerWidth = 64) :
    (∀ batches, Reached options names (bindAll options names batches)) ∧
    ∀ s, Reached options names s → ∀ ty, s.program.Founded ty → (∀ e, s.program.Measures ty e → e.size < 2 ^ 64) →
      (∃ k, (s.program.alignOf ty).toNat = 2 ^ k) ∧ (s.program.alignOf ty).toNat ∣ (s.program.sizeOf ty).toNat ∧
      ∀ x, ty = .direct x →
        (∀ own, s.program.decl x = .struct own → s.program.InSequence x own.fields) ∧
        (∀ own, s.program.decl x = .union own → s.program.InOnePlace x own.fields) ∧
        ∀ own, s.program.decl x = .array own →
          (s.program.sizeOf ty).toNat = own.length.toNat * (s.program.sizeOf own.element).toNat := by
  refine ⟨fun batches => (bindAll_reached options names batches).1, fun s hs ty hfounded hfits => ?_⟩
  have hp := hs.sound.program
  have hwidth := hs.hasPointerInt hw
  obtain ⟨e, he⟩ := hfounded.measures hp hwidth
  have hlt := hfits e he
  have hregular := he.regular hp hwidth
  obtain ⟨halign, hsize⟩ := he.agrees hp hwidth hfounded
  obtain ⟨k, -, hk⟩ := Extent.two_pow_of_mem hregular.align
  refine ⟨⟨k, halign.trans hk⟩, ?_, ?_⟩
  · rw [Program.alignOf, Program.sizeOf, halign, hsize hlt]
    exact hregular.dvd
  · rintro x rfl
    exact ⟨fun own hd => he.inSequence hp hwidth hfounded hlt hd, fun own hd => he.inOnePlace hp hwidth hfounded hlt hd,
      fun own hd => he.array_size hp hwidth hfounded hlt hd⟩

set_option maxRecDepth 10000

/-- What the fields of a struct measure, if it has fields of 1, 8 and 2 bytes. -/
def paddedField (f : SymbolId) : Extent := if f.index = 21 then ⟨1, 1⟩ else if f.index = 22 then ⟨8, 8⟩ else ⟨2, 2⟩

/-- An array of structs with room between their fields. -/
def paddedStruct : Sample fun s => s.log.errorCount = 0 ∧
    (∀ i ∈ List.range s.program.symbols.size, ∀ ty ∈ s.program.heldTypes ⟨i⟩, ∀ z ∈ ty.symbol?, z.index < i) ∧
    (s.program.decl ⟨20⟩).kindName = "struct" ∧ (s.program.decl ⟨20⟩).fields = [⟨21⟩, ⟨22⟩, ⟨23⟩] ∧
    (∀ f ∈ (s.program.decl ⟨20⟩).fields, ∀ own ∈ s.program.field? f, ∃ x ∈ own.ty.symbol?,
      Extent.ofDecl? s.program.pointerWidth (s.program.decl x) = some (paddedField f)) ∧
    s.program.array? ⟨24⟩ = some ⟨.direct ⟨20⟩, 3⟩ where
  body := [struct "S" [field "a" (name "Int8"), field "b" (name "Int64"), field "c" (name "Int16")],
    field "v" (node (.arrayType (name "S") (node (.int 3 none))))]
  shown := by decide +kernel

theorem paddedStruct_measures : (∀ ty, paddedStruct.state.program.Founded ty) ∧
    (∃ own, paddedStruct.state.program.decl ⟨20⟩ = .struct own ∧ own.fields = [⟨21⟩, ⟨22⟩, ⟨23⟩]) ∧
    paddedStruct.state.program.Measures (.direct ⟨20⟩) ⟨24, 8⟩ ∧
    paddedStruct.state.program.decl ⟨24⟩ = .array ⟨.direct ⟨20⟩, 3⟩ ∧
    paddedStruct.state.program.Measures (.direct ⟨24⟩) ⟨72, 8⟩ := by
  have hshown := paddedStruct.holds
  generalize paddedStruct.state.program = p at hshown ⊢
  obtain ⟨-, hold, hkind, hfields, hatoms, harray⟩ := hshown
  have harray := array?_eq_some.1 harray
  obtain ⟨own, hd⟩ : ∃ own, p.decl ⟨20⟩ = .struct own := by
    cases hd : p.decl ⟨20⟩ <;> simp [hd, Decl.kindName] at hkind ⊢
  have hown : own.fields = [⟨21⟩, ⟨22⟩, ⟨23⟩] := by rw [hd] at hfields; exact hfields
  have hends : Extent.Ends (p.decl ⟨20⟩) ((p.decl ⟨20⟩).fields.map paddedField) 18 := by
    rw [hfields, hd]
    exact .cons (show FirstMultiple 1 0 0 by decide) (.cons (show FirstMultiple 8 1 8 by decide)
      (.cons (show FirstMultiple 2 16 16 by decide) (.nil 18)))
  have hmeasured : p.Measures (.direct ⟨20⟩) ⟨24, 8⟩ := by
    refine .fields paddedField (fun f hf own hown => ?_) hends (by rw [hfields]; rfl) (by decide)
    obtain ⟨x, hx, hatom⟩ := hatoms f hf own hown
    rw [Ty.symbol?_eq_some.1 hx]
    exact .atom hatom
  exact ⟨founded_of_lt fun x y hy => hold x.index (List.mem_range.2 hy.lt) _ hy y rfl, ⟨own, hd, hown⟩, hmeasured, harray,
    .array harray hmeasured⟩

/-- The second field of the struct stands at 8, after a byte and 7 bytes of room; the struct takes 24 bytes, and three
of them take 72. -/
theorem paddedStruct_tight :
    let p := paddedStruct.state.program
    p.Measures (.direct ⟨24⟩) ⟨72, 8⟩ ∧ p.InSequence ⟨20⟩ [⟨21⟩, ⟨22⟩, ⟨23⟩] ∧
      (p.sizeOf (.direct ⟨24⟩)).toNat = 3 * (p.sizeOf (.direct ⟨20⟩)).toNat := by
  obtain ⟨hfounded, ⟨own, hd, hfields⟩, hstruct, harray, hmeasured⟩ := paddedStruct_measures
  obtain ⟨batches, hbound⟩ := paddedStruct.eq_bindAll
  have hsound := paddedStruct.sound.program
  obtain ⟨hreached, hall⟩ := layouts_tight {} {} (.inr rfl)
  have hs := hreached batches
  rw [← hbound] at hs
  generalize paddedStruct.state = s at *
  have hat := (hall s hs _ (hfounded (.direct ⟨20⟩)) fun e he => by rw [he.unique hsound hstruct]; decide).2.2 _ rfl
  have hat' := (hall s hs _ (hfounded (.direct ⟨24⟩)) fun e he => by rw [he.unique hsound hmeasured]; decide).2.2 _ rfl
  exact ⟨hmeasured, hfields ▸ hat.1 own hd, hat'.2.2 _ harray⟩

/-- Four arrays of `2 ^ 63` bytes. -/
def hugeArray : Sample fun s => s.log.errorCount = 0 ∧
    (∀ i ∈ List.range s.program.symbols.size, ∀ ty ∈ s.program.heldTypes ⟨i⟩, ∀ z ∈ ty.symbol?, z.index < i) ∧
    Extent.ofDecl? s.program.pointerWidth (s.program.decl ⟨3⟩) = some ⟨1, 1⟩ ∧
    s.program.array? ⟨19⟩ = some ⟨.direct ⟨3⟩, 9223372036854775808⟩ ∧
    s.program.array? ⟨20⟩ = some ⟨.direct ⟨19⟩, 4⟩ ∧ s.program.sizeOf (.direct ⟨20⟩) = 0 where
  body := [field "v" (node (.arrayType (node (.arrayType (name "Int8") (node (.int 9223372036854775808 none))))
      (node (.int 4 none)))), define "x" (node (.sizeOf (name "v")))]
  shown := by decide +kernel

end BindState

end Bindery
