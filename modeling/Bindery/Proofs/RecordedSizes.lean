import Bindery.Proofs.Termination
/-!
# Sizes that are taken while types are bound

The size of a type is computed when it is asked for, and kept. It is final if nothing is added to the type afterwards,
nor to a type that it holds by value. A tuple that is found by its types has all its fields. A struct gets them one by
one, in the order in which its body defines them, and is complete when all names that the body defines are declared. A
size that is taken before that, inside the body, is that of the fields so far.
-/
namespace Bindery

namespace Program

variable {p q : Program} {floor : Floor} {x : SymbolId} {ty : Ty}

/-! ## Complete types -/

/-- An instance has what the body of its template defines: every name is declared, and what is a field is one of the
instance. -/
structure Filled (p : Program) (x : SymbolId) : Prop where
  recorded : ∃ e ∈ p.memo, e.2 = x
  defined : ∃ names, p.Defines x names ∧ ∀ name ∈ names, ∃ sc y, (p.symbol x).ownScope = some sc ∧
    (p.scope sc).find? name = some y ∧ ∀ own, p.decl y = .field own → y ∈ (p.decl x).fields

/-- A type that gets no other fields. -/
structure Whole (p : Program) (x : SymbolId) : Prop where
  range : x.index < p.symbols.size
  fields : (p.struct? x).isSome → p.Recorded x ∨ p.Filled x

/-- No type that a type consists of gets other fields. -/
def Complete (p : Program) (ty : Ty) : Prop := ∀ x y, ty = .direct x → Relation.ReflTransGen p.Holds x y → p.Whole y

/-- A type is complete if it is among whole types that hold only each other. -/
theorem complete_of_closed {types : List SymbolId} (hx : x ∈ types)
    (h : ∀ y ∈ types, p.Whole y ∧ ∀ ty ∈ p.heldTypes y, ∀ z ∈ ty.symbol?, z ∈ types) : p.Complete (.direct x) := by
  rintro _ y ⟨⟩ hy
  have hm : y ∈ types := by
    induction hy with
    | refl => exact hx
    | tail _ hheld ih => exact (h _ ih).2 _ hheld _ rfl
  exact (h y hm).1

/-- The names that the body of the template of an instance defines. -/
def bodyNames? (p : Program) (x : SymbolId) : Option (List String) :=
  ((p.decl x).origin?.bind p.template?).bind fun own =>
    match own.source with
    | .struct source => some (definedNames source.body)
    | .function _ => none

theorem defines_iff {names : List String} : p.Defines x names ↔ ¬ p.IsClosure x ∧ p.bodyNames? x = some names := by
  refine and_congr_right fun _ => ⟨?_, fun h => ?_⟩
  · rintro ⟨t, own, source, horigin, ht, hsource, rfl⟩
    simp [bodyNames?, horigin, ht, hsource]
  · obtain ⟨own, hown, h⟩ := Option.bind_eq_some_iff.1 h
    obtain ⟨t, horigin, ht⟩ := Option.bind_eq_some_iff.1 hown
    split at h
    · rename_i source hsource
      exact ⟨t, own, source, horigin, ht, hsource, Option.some.inj h⟩
    · cases h

instance (p : Program) (x : SymbolId) : Decidable (p.IsClosure x) :=
  decidable_of_iff ((match p.decl x with
    | .struct own => decide (own.kind = .lambda ∨ own.kind = .resumable)
    | _ => false) = true) (by unfold IsClosure; cases p.decl x <;> simp)

instance (p : Program) (x : SymbolId) : Decidable (p.Filled x) :=
  decidable_of_iff ((∃ e ∈ p.memo, e.2 = x) ∧ ¬ p.IsClosure x ∧ ∃ names ∈ p.bodyNames? x, ∀ name ∈ names,
      ∃ sc ∈ (p.symbol x).ownScope, ∃ y ∈ (p.scope sc).find? name, (p.field? y).isSome → y ∈ (p.decl x).fields) (by
    constructor
    · rintro ⟨he, hc, names, hnames, hall⟩
      refine ⟨he, names, defines_iff.2 ⟨hc, hnames⟩, fun name hname => ?_⟩
      obtain ⟨sc, hsc, y, hy, hfield⟩ := hall name hname
      exact ⟨sc, y, hsc, hy, fun own hd => hfield (by rw [field?_eq_some.2 hd]; rfl)⟩
    · rintro ⟨he, names, hnames, hall⟩
      obtain ⟨hc, hnames⟩ := defines_iff.1 hnames
      refine ⟨he, hc, names, hnames, fun name hname => ?_⟩
      obtain ⟨sc, y, hsc, hy, hfield⟩ := hall name hname
      refine ⟨sc, hsc, y, hy, fun hf => ?_⟩
      obtain ⟨own, hown⟩ := Option.isSome_iff_exists.1 hf
      exact hfield own (field?_eq_some.1 hown))

instance (p : Program) (x : SymbolId) : Decidable (p.Whole x) :=
  decidable_of_iff (x.index < p.symbols.size ∧ ((p.struct? x).isSome → (∃ e ∈ p.tuples, e.2 = x) ∨ p.Filled x)) (by
    have hr : (∃ e ∈ p.tuples, e.2 = x) ↔ p.Recorded x :=
      ⟨fun ⟨e, he, hx⟩ => ⟨e.1, hx ▸ he⟩, fun ⟨types, he⟩ => ⟨_, he, rfl⟩⟩
    rw [hr]
    exact ⟨fun h => ⟨h.1, h.2⟩, fun h => ⟨h.range, h.fields⟩⟩)

/-- What is completed to a struct with fields was a struct, and they are fields already. -/
theorem Completes.field {d : Decl} {field : SymbolId} (h : p.Completes x d) (hf : field ∈ d.fields) :
    (p.struct? x).isSome ∧ ∃ own, p.decl field = .field own := by
  have hin := h.admits.inOrder
  have hl := h.later
  generalize hd : p.decl x = a at hl
  cases d with
  | struct own | union own =>
    obtain ⟨own', hfield, -⟩ := hin.fields.own field hf
    refine ⟨?_, own', field?_eq_some.1 hfield⟩
    cases hl <;> simp [struct?, hd]
  | _ => cases hf

/-- **A type that is whole gets no fields.** -/
theorem Completes.fields_eq {d : Decl} (h : p.Completes x d) (hw : p.Whole x) : d.fields = (p.decl x).fields := by
  obtain ⟨rest, hrest⟩ := h.later.fields_grow
  rcases rest with _ | ⟨field, rest⟩
  · rw [← hrest, List.append_nil]
  have hm : field ∈ d.fields.drop (p.decl x).fields.length := by rw [← hrest]; simp
  have hgains := h.fields field hm
  obtain ⟨hstruct, own, hfield⟩ := h.field (List.mem_of_mem_drop hm)
  rcases hw.fields hstruct with ⟨types, he⟩ | ⟨-, names, hnames, hall⟩
  · exact absurd he (hgains.tuple types)
  · -- the name leads to the field, which the struct has by then
    obtain ⟨hname, hnew, sc, hsc, hfind⟩ := hgains.defined names hnames
    obtain ⟨sc', y, hsc', hfind', hold⟩ := hall _ hname
    cases hsc.symm.trans hsc'
    cases hfind.symm.trans hfind'
    exact absurd (hold own hfield) hnew

end Program

namespace BindState

variable {options : BindOptions} {names : NameTable} {floor : Floor} {s t : BindState} {x : SymbolId}

/-- A step leaves a declaration as it is or completes it. -/
theorem Step.decl_cases (hs : s.Sound) (h : Step floor s t) (hx : x.index < s.program.symbols.size) :
    t.program.decl x = s.program.decl x ∨ s.program.Completes x (t.program.decl x) := by
  cases h with
  | edit program he => exact (he.decl_cases hx).imp_right (·.toCompletes)
  | quiet => exact .inl rfl
  | record template fingerprint made _ _ he =>
    obtain ⟨own, ht⟩ := Option.isSome_iff_exists.1 he.declared
    rw [Program.registerInstance_eq ht]
    show (s.program.setDecl template _).decl x = _ ∨ s.program.Completes x ((s.program.setDecl template _).decl x)
    by_cases hid : template = x
    · subst hid
      rw [Program.decl_setDecl_self _ _ hx]
      exact .inr (hs.program.completes_template ht _)
    · exact .inl (Program.decl_setDecl_of_ne _ _ hid)

theorem Step.fields_eq (hs : s.Sound) (h : Step floor s t) (hw : s.program.Whole x) :
    (t.program.decl x).fields = (s.program.decl x).fields := by
  rcases h.decl_cases hs hw.range with heq | hc
  · rw [heq]
  · exact hc.fields_eq hw

/-- A template that has an instance keeps its source. -/
theorem Step.source_eq (h : Step floor s t) (hf : floor.coherent) {template : SymbolId} {own : TemplateDecl}
    (ht : s.program.template? template = some own) (hi : own.instances ≠ []) :
    ∃ own', t.program.template? template = some own' ∧ own'.source = own.source := by
  cases h with
  | edit program he => exact ⟨own, he.template_eq hf ht hi, rfl⟩
  | quiet => exact ⟨own, ht, rfl⟩
  | record _ _ _ _ _ he =>
    obtain ⟨own', ht'⟩ := Option.isSome_iff_exists.1 he.declared
    rw [Program.template?_registerInstance ht']
    split
    · rename_i heq
      subst heq
      cases ht.symm.trans ht'
      exact ⟨_, rfl, rfl⟩
    · exact ⟨own, ht, rfl⟩

/-- **An instance that has all its fields has them for good.** -/
theorem Step.filled (hs : s.Sound) (hc : s.program.Coherent) (h : Step floor s t) (hf : floor.coherent)
    (hw : s.program.Whole x) (hx : s.program.Filled x) : t.program.Filled x := by
  obtain ⟨⟨e, he, rfl⟩, names, ⟨hclosure, template, own, source, horigin, ht, hsource, hbody⟩, hall⟩ := hx
  have hl := h.later hs
  obtain ⟨own', ht', hlisted, horigin'⟩ := hc.memoized.recorded e he
  cases horigin.symm.trans horigin'
  cases ht.symm.trans ht'
  obtain ⟨own'', ht'', hsource'⟩ := h.source_eq hf ht (List.ne_nil_of_mem hlisted)
  refine ⟨⟨e, (h.instances hs he).1, rfl⟩, names, ⟨fun hcl => hclosure (hl.isClosure_of_later hw.range hcl), _, own'',
    source, (hl.decl _ hw.range).origin?_eq.trans horigin, ht'', hsource'.trans hsource, hbody⟩, fun name hname => ?_⟩
  obtain ⟨sc, y, hsc, hfind, hfield⟩ := hall name hname
  refine ⟨sc, y, (hl.ownScope _ hw.range).trans hsc, hl.find sc name y hfind, fun own hy => ?_⟩
  rw [h.fields_eq hs hw]
  -- what is a field now was one before
  have hold := hl.decl y (hs.program.names sc name y hfind).1
  rw [hy] at hold
  refine hfield own ?_
  generalize s.program.decl y = d at hold
  cases hold
  rfl

theorem Step.whole (hs : s.Sound) (hc : s.program.Coherent) (h : Step floor s t) (hf : floor.coherent)
    (hw : s.program.Whole x) : t.program.Whole x := by
  have hl := h.later hs
  refine ⟨Nat.lt_of_lt_of_le hw.range hl.symbols, fun hstruct => ?_⟩
  have hold : (s.program.struct? x).isSome := by
    have hlater := hl.decl x hw.range
    obtain ⟨own, hown⟩ := Option.isSome_iff_exists.1 hstruct
    rw [Program.struct?_eq_some] at hown
    generalize hd : s.program.decl x = d at hlater
    rcases hown with hown | hown <;> rw [hown] at hlater <;> cases hlater <;> simp [Program.struct?, hd]
  exact (hw.fields hold).imp (.imp fun _ he => hl.tuples he) (h.filled hs hc hf hw)

/-- **What is whole stays as it is.** -/
theorem Steps.whole (hs : s.Sound) (hc : s.program.Coherent) (h : Steps floor s t) (hf : floor.coherent)
    (hw : s.program.Whole x) : t.program.Whole x ∧ (t.program.decl x).fields = (s.program.decl x).fields := by
  induction h with
  | refl => exact ⟨hw, rfl⟩
  | tail hsteps hstep ih =>
    have hs' := (Steps.keep hs hsteps).1
    exact ⟨hstep.whole hs' (Steps.coherent hs hsteps hf hc) hf ih.1, (hstep.fields_eq hs' ih.1).trans ih.2⟩

end BindState

/-! ## Layouts of complete types -/

namespace Program

variable {p q : Program} {x y : SymbolId} {ty : Ty}

theorem mem_heldTypes : ty ∈ p.heldTypes x ↔
    (∃ field ∈ (p.decl x).fields, ∃ own, p.field? field = some own ∧ own.ty = ty) ∨
    (∃ own, p.decl x = .array own ∧ own.element = ty) ∨ ∃ own, p.decl x = .enum own ∧ own.base = ty := by
  unfold heldTypes
  cases p.decl x <;> simp [Decl.fields, eq_comm]

/-- A value goes on to hold what it holds. -/
theorem Later.heldTypes (h : p.Later q) (hx : x.index < p.symbols.size) (hm : ty ∈ p.heldTypes x) : ty ∈ q.heldTypes x := by
  rw [mem_heldTypes] at hm ⊢
  rcases hm with ⟨field, hf, own, hown, hty⟩ | ⟨own, hd, hty⟩ | ⟨own, hd, hty⟩
  · exact .inl ⟨field, (h.decl x hx).fields_grow.subset hf, own, h.field hown, hty⟩
  · exact .inr (.inl ⟨own, by rw [h.decl_eq (by rw [hd]; rfl) (by rw [hd]; simp), hd], hty⟩)
  · obtain ⟨own', hd', hbase⟩ := h.enum hd
    exact .inr (.inr ⟨own', hd', hbase.trans hty⟩)

theorem Later.acyclic (h : p.Later q) (hq : ∀ x, ¬ Relation.TransGen q.Holds x x) (x : SymbolId) :
    ¬ Relation.TransGen p.Holds x x := fun hx =>
  hq x (Relation.TransGen.mono (fun _ _ (hh : p.Holds _ _) => h.heldTypes hh.lt hh) _ _ hx)

/-- A field is laid out as before if its type is. -/
theorem Later.fieldLayout_eq (h : p.Later q) (hp : p.Sound) {field : SymbolId} (hm : field ∈ (p.decl x).fields) {n : Nat}
    (hty : ∀ ty ∈ p.heldTypes x, q.layoutUpTo n ty = p.layoutUpTo n ty) :
    (match q.decl field with
      | .field own => q.layoutUpTo n own.ty
      | _ => .empty) = match p.decl field with
      | .field own => p.layoutUpTo n own.ty
      | _ => .empty := by
  obtain ⟨own, hown⟩ := hp.field_of_mem_fields hm
  rw [field?_eq_some.1 hown, field?_eq_some.1 (h.field hown)]
  exact hty own.ty (mem_heldTypes.2 (.inl ⟨field, hm, own, hown, rfl⟩))

/-- A type that got no fields is laid out as before, if the types that it holds are. -/
theorem Later.layoutUpTo_eq (h : p.Later q) (hp : p.Sound) (hx : x.index < p.symbols.size)
    (hf : (q.decl x).fields = (p.decl x).fields) {n : Nat}
    (hty : ∀ ty ∈ p.heldTypes x, q.layoutUpTo n ty = p.layoutUpTo n ty) :
    q.layoutUpTo (n + 1) (.direct x) = p.layoutUpTo (n + 1) (.direct x) := by
  have hheld : ∀ ty, (∃ own, p.decl x = .array own ∧ own.element = ty) ∨ (∃ own, p.decl x = .enum own ∧ own.base = ty) →
      q.layoutUpTo n ty = p.layoutUpTo n ty := fun ty hm => hty ty (mem_heldTypes.2 (.inr hm))
  have hmap := (congrArg (List.map _) hf).trans (List.map_congr_left fun field hm => h.fieldLayout_eq hp hm hty)
  have hl := h.decl x hx
  simp only [layoutUpTo, h.width]
  generalize p.decl x = a at hl hmap hheld
  generalize q.decl x = b at hl hmap
  cases hl with
  | refl =>
    cases a with
    | builtin own => cases own <;> rfl
    | struct => exact congrArg (fun fields => (fields.foldl Layout.append .empty).close) hmap
    | union => exact congrArg (fun fields => (fields.foldl Layout.overlay .empty).close) hmap
    | array own =>
      exact congrArg (fun element : Layout => (⟨element.size * own.length, element.align⟩ : Layout))
        (hheld own.element (.inl ⟨own, rfl, rfl⟩))
    | enum own => exact hheld own.base (.inr ⟨own, rfl, rfl⟩)
    | _ => rfl
  | struct => exact congrArg (fun fields => (fields.foldl Layout.append .empty).close) hmap
  | union => exact congrArg (fun fields => (fields.foldl Layout.overlay .empty).close) hmap
  | @enum a b hb =>
    show q.layoutUpTo n b.base = p.layoutUpTo n a.base
    rw [hb]
    exact hheld a.base (.inr ⟨a, rfl, rfl⟩)
  | module | template | overload | overloadSet | function => rfl

/-- **What a complete type is laid out like stays the same**, for any number of symbols that the layout goes through. -/
theorem Later.layoutUpTo_complete (h : p.Later q) (hp : p.Sound) (hf : ∀ y, Relation.ReflTransGen p.Holds x y →
    y.index < p.symbols.size ∧ (q.decl y).fields = (p.decl y).fields) (n : Nat) :
    q.layoutUpTo n (.direct x) = p.layoutUpTo n (.direct x) := by
  induction n generalizing x with
  | zero => rfl
  | succ n ih =>
    obtain ⟨hx, hfields⟩ := hf x .refl
    refine h.layoutUpTo_eq hp hx hfields fun ty hm => ?_
    cases ty with
    | direct y => exact ih fun z hz => hf z (.head hm hz)
    | _ => simp only [layoutUpTo, h.width]

end Program

namespace BindState

variable {options : BindOptions} {names : NameTable} {s t : BindState} {n : NodeId} {target : Ty} {size : UInt64}

/-- **The size of a complete type is final.** -/
theorem Steps.sizeOf_eq (hs : s.Sound) (hc : s.program.Coherent) (h : Steps { coherent := True } s t)
    (hacyclic : ∀ x, ¬ Relation.TransGen t.program.Holds x x) (hcomplete : s.program.Complete target) :
    t.program.sizeOf target = s.program.sizeOf target := by
  have hl := (Steps.keep hs h).2.1
  cases target with
  | direct x =>
    have hlayout := hl.layoutUpTo_complete hs.program (fun y hy =>
      have hw := hcomplete x y rfl hy
      ⟨hw.range, (Steps.whole hs hc h trivial hw).2⟩) (t.program.symbols.size + 1)
    rw [Program.sizeOf, Program.layout, hlayout,
      Program.layoutUpTo_eq (hl.acyclic hacyclic) _ (Nat.lt_succ_of_le hl.symbols), Program.sizeOf]
  | _ => simp only [Program.sizeOf, Program.layout, Program.layoutUpTo, hl.width]

/-- A size is there before a step, or it is taken by the step. -/
theorem Step.sizeOf_cases {floor : Floor} (h : Step floor s t) (hk : (t.program.node n).kind = .sizeOf target size) :
    (s.program.node n).kind = .sizeOf target size ∨ (n = s.program.nextNode ∧ size = s.program.sizeOf target) := by
  rcases h.node_cases n with heq | ⟨ty, -, -, heq⟩ | ⟨hn, hfresh⟩
  · exact .inl (by rw [← heq, hk])
  · exact .inl (by rw [← hk, heq])
  · exact .inr ⟨hn, hfresh.sized target size hk⟩

/-- **A size is the one that its type has when it is taken.** -/
theorem Reached.size_taken (h : Reached options names s) (hk : (s.program.node n).kind = .sizeOf target size) :
    ∃ t, Reached options names t ∧ Steps { coherent := True } t s ∧ n = t.program.nextNode ∧
      size = t.program.sizeOf target := by
  induction h with
  | refl => cases hk
  | @tail s t hs hstep ih =>
    rcases hstep.sizeOf_cases hk with hold | ⟨hn, hsize⟩
    · obtain ⟨u, hu, hsteps, htaken⟩ := ih hold
      exact ⟨u, hu, hsteps.tail hstep, htaken⟩
    · exact ⟨s, hs, .single hstep, hn, hsize⟩

/-- **The size that is taken of a complete type is the size it has.** -/
theorem Steps.size_complete (hs : s.Sound) (hc : s.program.Coherent) (h : Steps { coherent := True } s t)
    (hacyclic : ∀ x, ¬ Relation.TransGen t.program.Holds x x) (hcomplete : s.program.Complete target)
    (hn : s.program.nodes.size ≤ n.index) (hk : (t.program.node n).kind = .sizeOf target size) :
    size = s.program.sizeOf target := by
  induction h with
  | refl =>
    rw [Program.node_of_le hn] at hk
    cases hk
  | tail hsteps hstep ih =>
    have hacyclic := (hstep.later (Steps.keep hs hsteps).1).acyclic hacyclic
    rcases hstep.sizeOf_cases hk with hold | ⟨-, hsize⟩
    · exact ih hacyclic hold
    · exact hsize.trans (Steps.sizeOf_eq hs hc hsteps hacyclic hcomplete)

/-- **Sizes that are taken of complete types are final.** In every state that binding comes to, a size is the one that
its type had in the state in which it was taken. If no type contains itself by value, and the size was taken when its
type had all its fields, and so had all types that it consists of, then it is the size that the type has. -/
theorem sizes_final (options : BindOptions) (names : NameTable) :
    (∀ batches, Reached options names (bindAll options names batches)) ∧
    ∀ s, Reached options names s → ∀ n target size, (s.program.node n).kind = .sizeOf target size →
      (∃ t, Reached options names t ∧ Steps { coherent := True } t s ∧ n = t.program.nextNode ∧
        size = t.program.sizeOf target) ∧
      ((∀ x, ¬ Relation.TransGen s.program.Holds x x) → ∀ t, Reached options names t →
        Steps { coherent := True } t s → t.program.nodes.size ≤ n.index → t.program.Complete target →
        size = s.program.sizeOf target) := by
  refine ⟨fun batches => (bindAll_reached options names batches).1, fun s hs n target size hk => ⟨hs.size_taken hk, ?_⟩⟩
  intro hacyclic t ht hsteps hn hcomplete
  rw [Steps.size_complete ht.sound ht.coherent hsteps hacyclic hcomplete hn hk]
  exact (Steps.sizeOf_eq ht.sound ht.coherent hsteps hacyclic hcomplete).symm

open Sample

set_option maxRecDepth 10000

/-- The size of a struct that another module has. -/
def importedSize : ModuleDef :=
  ⟨.synthetic, "n", [define "x" (node (.sizeOf (node (.dot (name "m") "S"))))]⟩

/-- A struct with its fields, whose size is taken later. -/
def boundStruct : Sample fun s =>
    (∀ y ∈ [⟨20⟩, ⟨5⟩, ⟨6⟩], s.program.Whole y ∧
      ∀ ty ∈ s.program.heldTypes y, ∀ z ∈ ty.symbol?, z ∈ ([⟨20⟩, ⟨5⟩, ⟨6⟩] : List SymbolId)) ∧
    s.program.nodes.size = 1 ∧
    let t := s.bindModules {} [importedSize]
    t.log.errorCount = 0 ∧ (t.program.node ⟨1⟩).kind = .sizeOf (.direct ⟨20⟩) 16 ∧
    ∀ i ∈ List.range t.program.symbols.size, ∀ ty ∈ t.program.heldTypes ⟨i⟩, ∀ z ∈ ty.symbol?, z.index < i where
  body := [struct "S" [field "a" (name "Int32"), field "b" (name "Int64")], field "v" (name "S")]
  shown := by decide +kernel

/-- The size that is taken is that of the struct. -/
theorem boundStruct_size :
    let s := boundStruct.state.bindModules {} [importedSize]
    (s.program.node ⟨1⟩).kind = .sizeOf (.direct ⟨20⟩) 16 ∧ s.program.sizeOf (.direct ⟨20⟩) = 16 := by
  have hshown := boundStruct.holds
  obtain ⟨batches, hbound⟩ := boundStruct.eq_bindAll
  obtain ⟨hreached, hall⟩ := sizes_final {} {}
  have hs := hreached batches
  have hsteps := (hs.bindModules (bindAll_reached {} {} batches).2 [importedSize]).1
  rw [← hbound] at hs hsteps
  generalize boundStruct.state = s at hshown hs hsteps ⊢
  generalize s.bindModules {} [importedSize] = t at hshown hsteps ⊢
  obtain ⟨hclosed, hnodes, -, hk, hold⟩ := hshown
  have hacyclic : ∀ x, ¬ Relation.TransGen t.program.Holds x x :=
    not_transGen_of_lt fun x y hy => hold x.index (List.mem_range.2 hy.lt) _ hy y rfl
  have hfinal := (hall t (hs.trans hsteps) ⟨1⟩ _ _ hk).2 hacyclic s hs hsteps (by rw [hnodes])
    (Program.complete_of_closed (by simp) hclosed)
  exact ⟨hk, hfinal.symm⟩

/-- The size of a struct, between its fields. -/
def sizeInside : Sample fun s => s.log.errorCount = 0 ∧
    (∀ i ∈ List.range s.program.symbols.size, ∀ ty ∈ s.program.heldTypes ⟨i⟩, ∀ z ∈ ty.symbol?, z.index < i) ∧
    (s.program.node ⟨0⟩).kind = .sizeOf (.direct ⟨20⟩) 4 ∧ s.program.sizeOf (.direct ⟨20⟩) = 8 where
  body :=
    [struct "S" [field "a" (name "Int32"),
      node (.define "n" none (some (node (.sizeOf (name "S")))) { isConst := true }), field "b" (name "Int32")],
      field "v" (name "S")]
  shown := by decide +kernel

/-- The size is that of the first field alone. -/
theorem sizeInside_early :
    let s := sizeInside.state
    s.log.errorCount = 0 ∧ (∀ x, ¬ Relation.TransGen s.program.Holds x x) ∧
      ∃ n target size, (s.program.node n).kind = .sizeOf target size ∧ size ≠ s.program.sizeOf target := by
  have hshown := sizeInside.holds
  generalize sizeInside.state = s at hshown ⊢
  obtain ⟨herrors, hold, hk, hsize⟩ := hshown
  refine ⟨herrors, not_transGen_of_lt fun x y hy => hold x.index (List.mem_range.2 hy.lt) _ hy y rfl, _, _, _, hk, ?_⟩
  rw [hsize]
  decide

end BindState

end Bindery
