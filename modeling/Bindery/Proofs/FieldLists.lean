import Bindery.Proofs.Binding
/-!
# Lists of fields

Fields come to a struct in many ways: from the statements of its body, as the parameters and the variables of a generator,
for the element that a generator yields, for a variable that a closure keeps, and as the parts of a tuple. Each of them is
put behind the others when it is declared and knows its place from then on. So the list of a struct has no gaps and no
repetitions, however the bodies that add to it are nested.

The type of what a generator yields is fixed by the first type that comes up, together with the field that takes it.
-/
namespace Bindery

namespace Program

variable {p q : Program} {x : SymbolId}

/-- The field at a place belongs to the struct and knows the place. -/
theorem HasFields.get {fields : List SymbolId} (h : p.HasFields x fields) {i : Nat} {f : SymbolId}
    (hf : fields[i]? = some f) : ∃ own, p.field? f = some own ∧ own.owner = x ∧ own.index = i := by
  obtain ⟨own, hfield, howner⟩ := h.own f (List.mem_of_getElem? hf)
  exact ⟨own, hfield, howner, h.placed i f own hf hfield⟩

/-- Fields that know their places are different. -/
theorem HasFields.nodup {fields : List SymbolId} (h : p.HasFields x fields) : fields.Nodup := by
  rw [List.nodup_iff_getElem?_ne_getElem?]
  intro i j hij hj heq
  obtain ⟨own, hown, -, hi⟩ := h.get (heq.trans (List.getElem?_eq_getElem hj))
  exact absurd (hi.symm.trans (h.placed j _ own (List.getElem?_eq_getElem hj) hown)) (Nat.ne_of_lt hij)

/-- A struct keeps its fields at their places, and the type of its elements. -/
theorem Later.struct? {own : StructDecl} (h : p.Later q) (hx : p.struct? x = some own) :
    ∃ own', q.struct? x = some own' ∧ own.fields <+: own'.fields ∧
      ∀ ty, own.element = some ty → own'.element = some ty := by
  have hd := struct?_eq_some.1 hx
  have hl := h.decl x (lt_of_decl (by rcases hd with hd | hd <;> rw [hd] <;> simp))
  simp only [struct?_eq_some]
  rcases hd with hd | hd <;> rw [hd] at hl <;> generalize q.decl x = d at hl ⊢
  · cases hl with
    | refl => exact ⟨own, .inl rfl, List.prefix_refl _, fun _ => id⟩
    | struct _ _ hf he => exact ⟨_, .inl rfl, hf, he⟩
  · cases hl with
    | refl => exact ⟨own, .inr rfl, List.prefix_refl _, fun _ => id⟩
    | union _ _ hf he => exact ⟨_, .inr rfl, hf, he⟩

end Program

namespace BindState

/-- **Lists of fields are dense.** In every state that binding comes to, the fields of a struct or a union are different,
and the one at each place is a field of that struct with that place. A field that takes the elements of a generator is one
of the fields and has the type of the elements. From then on the fields stay at their places, and a type of elements that
was fixed stays the same. -/
theorem fields_dense (options : BindOptions) (names : NameTable) :
    (∀ batches modules, Reached options names (bindAll options names batches) ∧
      Steps { coherent := True } (bindAll options names batches) (bindAll options names (batches ++ [modules]))) ∧
    ∀ s, Reached options names s → ∀ x own, s.program.struct? x = some own →
      own.fields.Nodup ∧
      (∀ (i : Nat) f, own.fields[i]? = some f →
        ∃ field, s.program.field? f = some field ∧ field.owner = x ∧ field.index = i) ∧
      (∀ f, own.elementField = some f →
        f ∈ own.fields ∧ ∃ field, s.program.field? f = some field ∧ own.element = some field.ty) ∧
      ∀ t, Steps { coherent := True } s t → ∃ own', t.program.struct? x = some own' ∧ own.fields <+: own'.fields ∧
        ∀ ty, own.element = some ty → own'.element = some ty := by
  refine ⟨fun batches modules => ?_, fun s hs x own hx => ?_⟩
  · obtain ⟨hreached, hentered⟩ := bindAll_reached options names batches
    refine ⟨hreached, ?_⟩
    simpa only [bindAll, List.foldl_append, List.foldl_cons, List.foldl_nil] using (hreached.bindModules hentered modules).1
  have hshaped := hs.sound.program.shaped hx
  exact ⟨hshaped.fields.nodup, fun i f => hshaped.fields.get, hshaped.element,
    fun t ht => (Steps.keep hs.sound ht).2.1.struct? hx⟩

open Sample

set_option maxRecDepth 10000

/-- A generator with a parameter and two variables, between which it yields for the first time and captures a variable of
the function around it. -/
def interleaved : Sample fun s => s.log.errorCount = 0 ∧ s.program.struct? ⟨23⟩ = some
    { kind := .resumable, fields := [⟨24⟩, ⟨27⟩, ⟨28⟩, ⟨29⟩, ⟨30⟩], template := some ⟨22⟩, method := some ⟨25⟩
      element := some (.direct ⟨5⟩), elementField := some ⟨28⟩ } where
  body :=
    [function "outer" [param "n" none none]
      [node (.function (functionDef "gen" .generator [param "a" none none] none
        [define "b" (node (.int 1 none)), node (.yield (name "a")), node (.yield (name "n")), define "c" (name "b")])),
        call (name "gen") [node (.int 3 none)]],
      call (name "outer") [node (.int 5 none)]]
  shown := by decide +kernel

/-- The captured variable is the fourth field, the element is the third one, and its type stays whatever is bound later. -/
theorem interleaved_dense : let p := interleaved.state.program
    (∃ field, p.field? ⟨29⟩ = some field ∧ field.owner = ⟨23⟩ ∧ field.index = 3) ∧
    (∃ field, p.field? ⟨28⟩ = some field ∧ field.ty = .direct ⟨5⟩) ∧
    ∃ batches, interleaved.state = bindAll {} {} batches ∧ ∀ modules, ∃ own,
      (bindAll {} {} (batches ++ [modules])).program.struct? ⟨23⟩ = some own ∧ own.element = some (.direct ⟨5⟩) := by
  obtain ⟨-, hx⟩ := interleaved.holds
  obtain ⟨batches, hbound⟩ := interleaved.eq_bindAll
  obtain ⟨hreached, hall⟩ := fields_dense {} {}
  have hs := (hreached batches []).1
  rw [← hbound] at hs
  obtain ⟨-, hplaces, helement, hlater⟩ := hall _ hs ⟨23⟩ _ hx
  refine ⟨hplaces 3 ⟨29⟩ rfl, ?_, batches, hbound, fun modules => ?_⟩
  · obtain ⟨-, field, hfield, hty⟩ := helement ⟨28⟩ rfl
    exact ⟨field, hfield, (Option.some.inj hty).symm⟩
  · have hsteps := (hreached batches modules).2
    rw [← hbound] at hsteps
    obtain ⟨own, hown, -, hkept⟩ := hlater _ hsteps
    exact ⟨own, hown, hkept _ rfl⟩

end BindState

end Bindery
