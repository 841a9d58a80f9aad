import Bindery.Proofs.Held
/-!
# Rules that declare

A scope and a symbol are added to the end of their tables, so that what is known of the others stays known. A symbol may
be given a scope of its own only when that scope is new, and a declaration is completed only in ways that a later
program allows. A label is declared in a block that was just opened, so that a block has one label at most.
-/
namespace Bindery

namespace Program

variable {p : Program} {floor : Floor} {id : SymbolId}

/-- What may be completed without regard to other entries. -/
theorem Sound.amends (hp : p.Sound) {d : Decl} (hv : p.decl id ≠ .builtin .void) (hl : (p.decl id).Later d)
    (ho : p.InOrder id { p.symbol id with decl := d }) (hm : ∀ own, d ≠ .module own) (hf : ∀ own, d ≠ .function own)
    (ht : ∀ own, p.decl id ≠ .template own) (hs : ∀ templates, d ≠ .overloadSet templates)
    (hg : ∀ field ∈ d.fields.drop (p.decl id).fields.length, p.Gains id field) : p.Amends floor id d where
  range := lt_of_decl hv
  later := hl
  admits := hp.admits_decl (lt_of_decl hv) hl ho
  entry own _ h := absurd h (hm own)
  overloads templates h := absurd h (hs templates)
  fields := hg
  template own h := absurd h (ht own)
  memo _ _ _ _ b _ h := absurd h (hf b)
  body _ _ b _ h := absurd h (hf b)

theorem Sound.amends_struct (hp : p.Sound) {a b : StructDecl} (hd : p.decl id = .struct a) (hk : b.kind = a.kind)
    (ht : b.template = a.template) (hf : a.fields <+: b.fields) (he : ∀ ty, a.element = some ty → b.element = some ty)
    (hg : ∀ field ∈ b.fields.drop a.fields.length, p.Gains id field) (ho : p.Shaped id b) :
    p.Amends floor id (.struct b) :=
  hp.amends (by rw [hd]; simp) (by rw [hd]; exact .struct hk ht hf he) ho (by simp) (by simp) (by simp [hd])
    (by simp) (by rwa [hd])

theorem Sound.amends_union (hp : p.Sound) {a b : StructDecl} (hd : p.decl id = .union a) (hk : b.kind = a.kind)
    (ht : b.template = a.template) (hf : a.fields <+: b.fields) (he : ∀ ty, a.element = some ty → b.element = some ty)
    (hg : ∀ field ∈ b.fields.drop a.fields.length, p.Gains id field) (ho : p.Shaped id b) :
    p.Amends floor id (.union b) :=
  hp.amends (by rw [hd]; simp) (by rw [hd]; exact .union hk ht hf he) ho (by simp) (by simp) (by simp [hd])
    (by simp) (by rwa [hd])

theorem Sound.amends_enum (hp : p.Sound) {a b : EnumDecl} (hd : p.decl id = .enum a) (hb : b.base = a.base) :
    p.Amends floor id (.enum b) := by
  refine hp.amends (by rw [hd]; simp) (by rw [hd]; exact .enum hb) ?_ (by simp) (by simp) (by simp [hd])
    (by simp) (by simp [Decl.fields])
  simpa only [InOrder, hb] using hp.inOrder_of_decl hd (by simp)

/-- A template that becomes an overload set has moved to another symbol, and had no instances. -/
theorem Sound.amends_overloadSet (hp : p.Sound) {templates : List SymbolId} (hg : p.Gathers id templates)
    (hi : ∀ own, p.decl id = .template own → floor.coherent → own.instances = []) :
    p.Amends floor id (.overloadSet templates) := by
  have hl : (p.decl id).Later (.overloadSet templates) := by
    cases hg with
    | first hd => rw [hd]; exact .overload
    | next hd => rw [hd]; exact .overloadSet
  have hid : id.index < p.symbols.size := lt_of_decl fun hd => by rw [hd] at hl; cases hl
  have hin : ∀ t ∈ templates, t.index < p.symbols.size := by
    cases hg with
    | first _ hmoved _ hadded =>
      have := hmoved.last
      simp only [List.forall_mem_cons, List.not_mem_nil, false_implies, implies_true, and_true]
      omega
    | next hd _ hadded =>
      simp only [List.forall_mem_append, List.forall_mem_singleton]
      exact ⟨hp.inOrder_of_decl hd (by simp), by omega⟩
  exact ⟨⟨hid, hl, hp.admits_decl hid hl hin, by rintro _ _ ⟨⟩, by rintro _ ⟨⟩; exact hg, by simp [Decl.fields]⟩,
    fun own ho => ⟨hi own ho, by simp⟩, by rintro _ _ _ _ _ _ ⟨⟩, by rintro _ _ _ _ ⟨⟩⟩

/-- The templates under a symbol are in the table. -/
theorem Sound.lt_of_mem_candidates (hp : p.Sound) {t : SymbolId} (h : t ∈ p.candidates id) :
    t.index < p.symbols.size := by
  unfold candidates at h
  split at h
  · rename_i hd
    rw [List.mem_singleton.1 h]
    exact lt_of_decl (by rw [hd]; simp)
  · rename_i templates hd
    have hin : ∀ t ∈ templates, t.index < p.symbols.size := hp.inOrder_of_decl hd (by simp)
    exact hin t h
  · cases h

/-- A module gets its entry once, right after the entry was added. -/
theorem Sound.amends_module (hp : p.Sound) {a b : ModuleDecl} (hd : p.decl id = .module a) (hs : b.source = a.source)
    (he : ∀ e, a.entry = some e → b.entry = some e) (hi : b.status = .idle ↔ b.entry = none)
    (hn : ∀ e, b.entry = some e → a.entry = some e ∨
      (p.symbols.size = e.index + 1 ∧ (p.function? e).isSome ∧ p.Opening (p.symbol id).ownScope e)) :
    p.Amends floor id (.module b) := by
  have hid : id.index < p.symbols.size := lt_of_decl (by rw [hd]; simp)
  have hl : (p.decl id).Later (.module b) := by rw [hd]; exact .module hs he
  obtain ⟨-, hsc, hf⟩ := hp.module (module?_eq_some.2 hd)
  have hin : p.InOrder id { p.symbol id with decl := .module b } :=
    ⟨hi, hsc, fun e hb => (hn e hb).elim (fun h => ⟨hf e h, hp.opening (module?_eq_some.2 hd) h⟩) (·.2),
      hp.moduleScope (module?_eq_some.2 hd)⟩
  refine ⟨⟨hid, hl, hp.admits_decl hid hl hin, ?_, by rintro _ ⟨⟩, by simp [Decl.fields]⟩, by simp [hd],
    by rintro _ _ _ _ _ _ ⟨⟩, by rintro _ _ _ _ ⟨⟩⟩
  rintro _ e ⟨⟩ hb
  exact (hn e hb).imp (fun h => ⟨a, module?_eq_some.2 hd, h⟩) (·.1)

theorem Sound.amends_function (hp : p.Sound) {a b : FunctionDecl} (hd : p.decl id = .function a) (hr : b.role = a.role)
    (ho : b.owner = a.owner) (ht : b.template = a.template) (hs : a.ret.isSome → b.ret.isSome)
    (hrec : p.Receives (p.symbol id).ownScope b) (hbody : ∀ n ∈ b.body, p.InBody id b n)
    (hret : b.ret = none → b.body = []) (memo : ∀ e ∈ p.memo, e.2 = id → b.params = a.params ∧ b.receiver = a.receiver)
    (body : id.index < floor.symbols → b.body = a.body) : p.Amends floor id (.function b) where
  range := lt_of_decl (by rw [hd]; simp)
  later := by rw [hd]; exact .function hr ho ht hs
  admits := by
    have hclose : p.Closes (p.symbol id).ownScope a := (hp.inOrder_of_decl hd (by simp)).1
    refine hp.admits_decl (lt_of_decl (by rw [hd]; simp)) (by rw [hd]; exact .function hr ho ht hs)
      ⟨?_, hrec, hbody, hret⟩
    unfold Closes at hclose ⊢
    rwa [hr, ho]
  entry := by rintro _ _ ⟨⟩
  overloads := by rintro _ ⟨⟩
  fields := by simp [Decl.fields]
  template := by simp [hd]
  memo e he hid a' b' ha hb := by
    rw [hd] at ha
    cases ha
    cases hb
    exact memo e he hid
  body hlt a' b' ha hb := by
    rw [hd] at ha
    cases ha
    cases hb
    exact body hlt

/-- What may be added without regard to other entries. -/
theorem Addable.of_plain {x : Symbol} (ha : p.Admits p.nextSymbol x) (hd : x.decl.isPlain)
    (ho : ∀ sc, x.ownScope = some sc → floor.scopes ≤ sc.index ∧ ∀ y, (p.symbol y).ownScope ≠ some sc) :
    p.Addable floor x where
  admits := ha
  builtin own h := by rw [h] at hd; cases hd
  own := ho
  module own h := by rw [h] at hd; cases hd
  template own h := by rw [h] at hd; cases hd
  label own h := by rw [h] at hd; cases hd
  constant tag n h := by rw [h] at hd; cases hd
  overloads templates h := by rw [h] at hd; cases hd

/-- What has a scope of its own is no array. -/
theorem Addable.ne_array {x : Symbol} (hx : p.Addable floor x) {sc : ScopeId} (ho : x.ownScope = some sc)
    (own : ArrayDecl) : x.decl ≠ .array own := by
  intro hd
  have hin := hx.admits.inOrder
  rw [InOrder, hd, ho] at hin
  cases hin

/-- What is in order about a field. -/
theorem Sound.field (hp : p.Sound) {own : FieldDecl} (hf : p.field? id = some own) :
    (∀ n, own.default = some n → p.Default (p.symbol id).scope n) ∧
      ∀ captured, own.captured = some captured → p.Keeping own captured :=
  hp.inOrder_of_decl (field?_eq_some.1 hf) (by simp)

/-- What is in order about a template. -/
theorem Sound.template (hp : p.Sound) {own : TemplateDecl} (ht : p.template? id = some own) :
    own.scope.index < p.scopes.size ∧ (p.symbol id).ownScope = none ∧ own.role.captures = false :=
  hp.inOrder_of_decl (template?_eq_some.1 ht) (by simp)

/-- What is in order about a function. -/
theorem Sound.function (hp : p.Sound) {own : FunctionDecl} (hf : p.function? id = some own) :
    p.Receives (p.symbol id).ownScope own ∧ (∀ n ∈ own.body, p.InBody id own n) ∧ (own.ret = none → own.body = []) :=
  (hp.inOrder_of_decl (function?_eq_some.1 hf) (by simp)).2

/-- What is in order about a label. -/
theorem Sound.label (hp : p.Sound) {own : LabelDecl} (hd : p.decl id = .label own) :
    (p.scope (p.symbol id).scope).kind = .block ∧ ∀ f, own.function = some f → p.Precedes f (p.symbol id).scope :=
  hp.inOrder_of_decl hd (by simp)

theorem Sound.closes (hp : p.Sound) {own : FunctionDecl} (hf : p.function? id = some own) :
    p.Closes (p.symbol id).ownScope own := (hp.inOrder_of_decl (function?_eq_some.1 hf) (by simp)).1

theorem Sound.field_of_mem_fields (hp : p.Sound) {field : SymbolId} (h : field ∈ (p.decl id).fields) :
    ∃ own, p.field? field = some own := by
  obtain ⟨own, hd, hm⟩ : ∃ own, p.struct? id = some own ∧ field ∈ own.fields := by
    rw [struct?]
    rcases hd : p.decl id <;> rw [hd] at h <;> first | exact ⟨_, rfl, h⟩ | cases h
  exact ((hp.shaped hd).fields.own field hm).imp fun _ hf => hf.1

theorem Sound.lt_of_mem_fields (hp : p.Sound) {field : SymbolId} (h : field ∈ (p.decl id).fields) :
    field.index < p.symbols.size := by
  obtain ⟨own, hf⟩ := hp.field_of_mem_fields h
  exact lt_of_field hf

/-- What is no tuple is not found by types. -/
theorem Sound.not_recorded (hp : p.Sound) (h : ¬ (p.decl id).IsTuple) : ¬ p.Recorded id :=
  fun ⟨_, he⟩ => h (hp.interned.tuple _ he).isTuple

theorem IsClosure.not_isTuple (h : p.IsClosure id) : ¬ (p.decl id).IsTuple := by
  rintro ⟨own, hd, hk, -⟩
  obtain ⟨own', hd', hk'⟩ := h
  rw [hd] at hd'
  cases hd'
  rw [hk] at hk'
  rcases hk' with hk' | hk' <;> cases hk'

/-- A field of a name may be declared in a scope for a struct or a union. -/
structure Awaits (p : Program) (owner : SymbolId) (sc : ScopeId) (name : String) : Prop where
  tuple : ¬ p.Recorded owner
  defined : ∀ names, p.Defines owner names → name ∈ names ∧ (p.symbol owner).ownScope = some sc

/-- The statements of a body are the members of an instance. -/
structure Members (p : Program) (owner : SymbolId) (sc : ScopeId) (body : List Syntax) : Prop where
  own : (p.symbol owner).ownScope = some sc
  defines : p.Defines owner (definedNames body)

/-- The source of a template stays what it is, as long as the template stays one. -/
theorem Members.awaits {q : Program} {sc : ScopeId} {body : List Syntax} {name : String} (h : p.Members id sc body)
    (hl : p.Later q) (hq : q.Sound) (hn : name ∈ definedNames body) : q.Awaits id sc name := by
  obtain ⟨-, t, own, source, horigin, htmpl, hsource, hnames⟩ := h.defines
  have hlt := lt_of_origin horigin
  have hd := hl.decl id hlt
  refine ⟨hq.not_recorded fun ht => ?_, ?_⟩
  · obtain ⟨struct, hs, -, hnone⟩ := hd.isTuple_iff.1 ht
    rw [hs, Decl.origin?, hnone] at horigin
    cases horigin
  · rintro names ⟨-, t', own', source', horigin', htmpl', hsource', rfl⟩
    rw [hd.origin?_eq, horigin] at horigin'
    cases horigin'
    have hlater := hl.decl t (lt_of_template htmpl)
    rw [template?_eq_some.1 htmpl, template?_eq_some.1 htmpl'] at hlater
    have hsame : own'.source = own.source := by cases hlater <;> first | rfl | assumption
    rw [hsource', hsource] at hsame
    cases hsame
    exact ⟨hnames ▸ hn, by rw [hl.ownScope id hlt, h.own]⟩

/-- A closure gets any field. -/
theorem Sound.gains_of_isClosure (hp : p.Sound) (h : p.IsClosure id) (field : SymbolId) : p.Gains id field :=
  ⟨fun types he => hp.not_recorded h.not_isTuple ⟨types, he⟩, fun _ hn => absurd h hn.1⟩

theorem Sound.awaits_of_isClosure (hp : p.Sound) (h : p.IsClosure id) (sc : ScopeId) (name : String) :
    p.Awaits id sc name := ⟨hp.not_recorded h.not_isTuple, fun _ hn => absurd h hn.1⟩

/-- The state of a generator is a closure. -/
theorem Sound.isClosure_of_generatorState? (hp : p.Sound) {f : SymbolId} (h : p.generatorState? f = some id) :
    p.IsClosure id := by
  obtain ⟨own, hf, ho⟩ := Option.bind_eq_some_iff.1 h
  split at ho
  · rename_i hr
    obtain ⟨closure, -, -, hown, hcl, -⟩ := hp.closes hf (by rw [hr]; rfl)
    rw [show own.owner = some id from ho] at hown
    cases hown
    exact hcl
  · cases ho

/-- **A function around a place that captures belongs to a closure around the place**, and the functions after it are those
around the closure. -/
theorem Sound.closure_of_crossed (hp : p.Sound) {sc t : ScopeId} {f : SymbolId} {pre post : List SymbolId}
    (hs : p.functionsUpTo sc t = pre ++ f :: post) (hc : p.mayCapture f) :
    ∃ own closure outer, p.function? f = some own ∧ own.owner = some closure ∧ p.IsClosure closure ∧
      (p.symbol closure).ownScope = some outer ∧ p.functionsUpTo outer t = post ∧ p.Inside sc outer := by
  obtain ⟨sf, hsf, -, hown, hpost⟩ := functionsUpTo_split hp.nested hs
  unfold mayCapture at hc
  split at hc
  · rename_i own hf
    obtain ⟨closure, sc', outer, ho, hcl, hsc, hpar, hout⟩ := hp.closes hf hc
    rw [hp.owner sf f hown] at hsc
    cases hsc
    have hle := index_le_of_mem_ancestors hp.nested hsf
    have hlt := hp.nested sf outer hpar
    refine ⟨own, closure, outer, hf, ho, hcl, hout, hpost outer hpar, ancestors_trans hp.nested hsf ?_, ?_⟩
    · rw [ancestors_of_some hp.nested hpar]
      exact List.mem_cons_of_mem _ (p.self_mem_ancestors outer)
    · rintro rfl
      omega
  · cases hc

/-- What a body does depends on the role and the return type of its function only. -/
theorem InBody.of_eq {a b : FunctionDecl} {n : NodeId} (h : p.InBody id a n) (hr : b.role = a.role)
    (ht : b.ret = a.ret) : p.InBody id b n := ⟨h.range, h.names, by rw [hr, ht]; exact h.returns, h.jumps⟩

/-- A function gets its return type while it has no body, unless what its body returns does not matter. -/
theorem Sound.amends_returnType (hp : p.Sound) {own : FunctionDecl} {ty : Ty} (hf : p.function? id = some own)
    (hb : own.body = [] ∨ own.role = .generatorStep) : p.Amends floor id (.function { own with ret := some ty }) := by
  obtain ⟨hrec, hbody, -⟩ := hp.function hf
  refine hp.amends_function (function?_eq_some.1 hf) rfl rfl rfl (fun _ => rfl) hrec (fun n hn => ?_) (by rintro ⟨⟩)
    (fun _ _ _ => ⟨rfl, rfl⟩) fun _ => rfl
  rcases hb with hb | hrole
  · rw [show own.body = [] from hb] at hn
    cases hn
  · exact ⟨(hbody n hn).range, (hbody n hn).names, fun h => absurd hrole h, (hbody n hn).jumps⟩

end Program

/-- A declaration is completed. The functions that there were keep their return types. -/
theorem Trail.amend {floor : Floor} {s₀ s : BindState} (hs : Trail floor s₀ s) {id : SymbolId} {d : Decl}
    (ha : s.program.Amends floor id d)
    (hr : ∀ a b ty, s₀.program.function? id = some a → a.ret = some ty → d = .function b → b.ret = some ty) :
    Trail floor s₀ { s with program := s.program.setDecl id d } where
  base := hs.base
  le := hs.le
  steps := hs.steps.tail (.edit _ (.decl id d ha))
  rets f a b ty hfa hty hfb := by
    rw [Program.function?_eq_some] at hfb
    by_cases hid : id = f
    · subst hid
      rw [Program.decl_setDecl_self _ _ ha.range] at hfb
      exact hr a b ty hfa hty hfb
    · rw [Program.decl_setDecl_of_ne _ _ hid, ← Program.function?_eq_some] at hfb
      exact hs.rets f a b ty hfa hty hfb
  calls := hs.calls_of_step (.edit _ (.decl id d ha))

namespace Via

variable {floor : Floor} {k : Nat} {c : Context} {s₀ s : BindState}

/-- A declaration is completed. The functions that there were keep their return types, and a module its status, unless it
is done or may be left half bound. -/
theorem amend (hs : Via floor s₀ s) {id : SymbolId} {d : Decl} (ha : s.program.Amends floor id d)
    (hr : ∀ a b ty, s₀.program.function? id = some a → a.ret = some ty → d = .function b → b.ret = some ty)
    (hm : ∀ own, d = .module own → own.status = .done ∨ floor.pending id own.status) :
    Via floor s₀ { s with program := s.program.setDecl id d } := by
  have hl := Program.Edit.later hs.sound.program (.decl id d ha)
  refine hs.extend (hs.toTrail.amend ha hr) hl (.of_size hl (Program.size_symbols_setDecl _ _ _) fun m own hown => ?_)
  rw [Program.module?_eq_some] at hown
  by_cases hid : id = m
  · subst hid
    rw [Program.decl_setDecl_self _ _ ha.range] at hown
    exact (hm own hown).imp_right .inl
  · rw [Program.decl_setDecl_of_ne _ _ hid] at hown
    exact .inr (.inr ⟨own, Program.module?_eq_some.2 hown, rfl⟩)

theorem amend_of_ne (hs : Via floor s₀ s) {id : SymbolId} {d : Decl} (ha : s.program.Amends floor id d)
    (hf : ∀ own, d ≠ .function own) (hm : ∀ own, d ≠ .module own) :
    Via floor s₀ { s with program := s.program.setDecl id d } :=
  hs.amend ha (fun _ b _ _ _ h => absurd h (hf b)) fun own h => absurd h (hm own)

/-- A struct keeps its kind, its template, its fields and the type of its elements, and gets only fields of its own and
functions for its method. -/
theorem modifyStruct (hs : Via floor s₀ s) (id : SymbolId) {f : StructDecl → StructDecl}
    (hk : ∀ own, (f own).kind = own.kind ∧ (f own).template = own.template) (hp : ∀ own, own.fields <+: (f own).fields)
    (hg : ∀ own, ∀ field ∈ (f own).fields.drop own.fields.length, s.program.Gains id field)
    (ho : ∀ own, s.program.struct? id = some own →
      (∀ ty, own.element = some ty → (f own).element = some ty) ∧ s.program.Shaped id (f own)) :
    Via floor s₀ { s with program := s.program.modifyStruct id f } := by
  unfold Program.modifyStruct
  split
  · rename_i own hd
    obtain ⟨he, hshaped⟩ := ho own (Program.struct?_eq_some.2 (.inl hd))
    exact hs.amend_of_ne (hs.sound.program.amends_struct hd (hk own).1 (hk own).2 (hp own) he (hg own) hshaped)
      (by simp) (by simp)
  · rename_i own hd
    obtain ⟨he, hshaped⟩ := ho own (Program.struct?_eq_some.2 (.inr hd))
    exact hs.amend_of_ne (hs.sound.program.amends_union hd (hk own).1 (hk own).2 (hp own) he (hg own) hshaped)
      (by simp) (by simp)
  · exact hs

end Via

namespace BindM

variable {floor : Floor} {k : Nat} {c g : Context} {s₀ s : BindState}

/-- A change of a struct that leaves its kind and its fields alone. -/
theorem modifyStruct_ends (hs : Via floor s₀ s) (id : SymbolId) {f : StructDecl → StructDecl}
    (hk : ∀ own, (f own).kind = own.kind ∧ (f own).template = own.template) (hf : ∀ own, (f own).fields = own.fields)
    (ho : ∀ own, s.program.struct? id = some own →
      (∀ ty, own.element = some ty → (f own).element = some ty) ∧ s.program.Shaped id (f own)) :
    Ends (modifyProgram (·.modifyStruct id f)) c s (Via floor s₀) fun _ t =>
      t = { s with program := s.program.modifyStruct id f } := by
  refine .of_run rfl (hs.modifyStruct id hk (fun own => ?_) (fun own => by simp [hf own]) ho) rfl
  exact (hf own).symm ▸ List.prefix_refl own.fields

/-- A field is put behind the others of its struct. -/
theorem appendField_ends (hs : Via floor s₀ s) {owner field : SymbolId} {own : FieldDecl}
    (hf : s.program.field? field = some own) (ho : own.owner = owner)
    (hi : own.index = (s.program.fieldsOf owner).length) (hg : s.program.Gains owner field)
    (ha : ∀ struct, s.program.struct? owner = some struct → ∀ g ∈ struct.fields, s.program.Apart g field) :
    Ends (modifyProgram (·.appendField owner field)) c s (Via floor s₀) fun _ t =>
      t = { s with program := s.program.appendField owner field } := by
  refine .of_run rfl (hs.modifyStruct owner (fun _ => ⟨rfl, rfl⟩) (fun own => List.prefix_append _ _)
    (fun own => by simpa using hg) fun struct hd => ⟨fun _ h => h, ?_⟩) rfl
  have hshaped := hs.sound.program.shaped hd
  have hplace : own.index = struct.fields.length := by rw [hi, Program.fieldsOf, hd]; rfl
  refine ⟨hshaped.fields.concat hf ho hplace (ha struct hd), hshaped.method, fun g hg => ?_⟩
  obtain ⟨hmem, hty⟩ := hshaped.element g hg
  exact ⟨List.mem_append_left _ hmem, hty⟩

/-- A field that keeps no variable is apart from all others. -/
theorem appendPlainField_ends (hs : Via floor s₀ s) {owner field : SymbolId} {own : FieldDecl}
    (hf : s.program.field? field = some own) (ho : own.owner = owner)
    (hi : own.index = (s.program.fieldsOf owner).length) (hc : own.captured = none) (hg : s.program.Gains owner field) :
    Ends (modifyProgram (·.appendField owner field)) c s (Via floor s₀) fun _ t =>
      t = { s with program := s.program.appendField owner field } := by
  refine appendField_ends hs hf ho hi hg fun _ _ _ _ a b _ hb => ?_
  obtain ⟨own', hf', hcap⟩ := Program.captureSource?_eq_some.1 hb
  rw [hf] at hf'
  cases hf'
  rw [hc] at hcap
  cases hcap

theorem modifyFunction_ends (hs : Via floor s₀ s) {f : SymbolId} {own : FunctionDecl} {update : FunctionDecl → FunctionDecl}
    (hf : s.program.function? f = some own) (ha : s.program.Amends floor f (.function (update own)))
    (hr : ∀ a ty, s₀.program.function? f = some a → a.ret = some ty → (update own).ret = some ty) :
    Ends (modifyProgram (·.modifyFunction f update)) c s (Via floor s₀) fun _ t =>
      t = { s with program := s.program.setDecl f (.function (update own)) } := by
  have hrun : (modifyProgram (·.modifyFunction f update)).runAt c s =
      (some (), { s with program := s.program.modifyFunction f update }) := rfl
  rw [Program.modifyFunction, Program.function?_eq_some.1 hf] at hrun
  refine .of_run hrun (hs.amend ha (fun a b ty hfa hty hb => ?_) (by rintro _ ⟨⟩)) rfl
  cases hb
  exact hr a ty hfa hty

theorem modifyModule_ends (hs : Via floor s₀ s) {id : SymbolId} {own : ModuleDecl} {update : ModuleDecl → ModuleDecl}
    (hm : s.program.module? id = some own) (ha : s.program.Amends floor id (.module (update own)))
    (hd : (update own).status = .done ∨ floor.pending id (update own).status) :
    Ends (modifyProgram (·.modifyModule id update)) c s (Via floor s₀) fun _ t =>
      t = { s with program := s.program.setDecl id (.module (update own)) } := by
  have hrun : (modifyProgram (·.modifyModule id update)).runAt c s =
      (some (), { s with program := s.program.modifyModule id update }) := rfl
  rw [Program.modifyModule, Program.module?_eq_some.1 hm] at hrun
  exact .of_run hrun (hs.amend ha (by rintro _ _ _ _ _ ⟨⟩) (by rintro _ ⟨⟩; exact hd)) rfl

/-! ## Scopes -/

theorem addScope_ends (hg : Ready k g s) (kind : ScopeKind) {parent : ScopeId}
    (hp : parent.index < s.program.scopes.size) :
    Ends (addScope kind parent) c s (At k s) fun sc t => sc = s.program.nextScope ∧
      t = { s with program := s.program.addScope { kind, parent, owner := none } } :=
  .of_run rfl ((Via.start hg).edit (.scope kind parent hp) rfl) ⟨rfl, rfl⟩

/-! ## Symbols -/

theorem addSymbol_ends (hs : Via floor s₀ s) {x : Symbol} (hx : s.program.Addable floor x) (ho : x.ownScope = none)
    (hd : x.decl.isSimple) :
    Ends (addSymbol x) c s (Via floor s₀) fun id t => id = s.program.nextSymbol ∧
      t = { s with program := s.program.addSymbol x } := .of_run rfl (hs.symbol hx ho hd) ⟨rfl, rfl⟩

theorem reportDuplicate_run (name : String) (pos : Span) (existing : SymbolId) : ∃ log : Log,
    (reportDuplicate name pos existing).runAt c s = (some (), { s with log }) ∧
      log.errorCount = s.log.errorCount + 1 := ⟨_, rfl, rfl⟩

theorem reportDuplicate_ends (hs : Via floor s₀ s) (name : String) (pos : Span) (existing : SymbolId) :
    Ends (reportDuplicate name pos existing) c s (Via floor s₀) fun _ t => t.program = s.program := by
  obtain ⟨log, hrun, hlog⟩ := reportDuplicate_run (c := c) (s := s) name pos existing
  exact .of_run hrun (hs.quiet (by omega)) rfl

/-- A name that is not taken is declared. -/
theorem declareBy_new (c : Context) (place : Program → ScopeId → Symbol → Except SymbolId (SymbolId × Program))
    {scope : ScopeId} {x : Symbol} {p : Program} (hplace : place s.program scope x = .ok (s.program.nextSymbol, p)) :
    (declareBy place scope x).runAt c s = (some s.program.nextSymbol, { s with program := p }) := by
  rw [declareBy, runAt_bind_some runAt_get, hplace]
  rfl

/-- A declaration either adds its symbol, named in its scope, or is an error that adds nothing. -/
theorem declareBy_run (c : Context) (place : Program → ScopeId → Symbol → Except SymbolId (SymbolId × Program))
    (insert : Scope → String → SymbolId → Scope) {scope : ScopeId} {x : Symbol}
    (hplace : place s.program scope x = match (s.program.scope scope).find? x.name with
      | some existing => .error existing
      | none => .ok (s.program.nextSymbol,
          (s.program.addSymbol x).modifyScope scope (insert · x.name s.program.nextSymbol))) :
    ((s.program.scope scope).find? x.name = none ∧ (declareBy place scope x).runAt c s = (some s.program.nextSymbol,
      { s with program := (s.program.addSymbol x).modifyScope scope (insert · x.name s.program.nextSymbol) })) ∨
    ∃ log : Log, (declareBy place scope x).runAt c s = (none, { s with log }) ∧
      log.errorCount = s.log.errorCount + 1 := by
  cases hf : (s.program.scope scope).find? x.name with
  | none =>
    rw [hf] at hplace
    exact .inl ⟨rfl, declareBy_new c place hplace⟩
  | some existing =>
    rw [hf] at hplace
    obtain ⟨log, hrun, hlog⟩ := reportDuplicate_run (c := c) (s := s) x.name x.pos existing
    refine .inr ⟨log, ?_, hlog⟩
    rw [declareBy, runAt_bind_some runAt_get, hplace]
    exact runAt_bind_some hrun

/-- A symbol was declared: it stands behind all others, and only names were added besides. -/
structure Declared (s t : BindState) (x : Symbol) (id : SymbolId) : Prop where
  id : id = s.program.nextSymbol
  symbols : t.program.symbols = s.program.symbols.push x
  nodes : t.program.nodes = s.program.nodes
  owner : ∀ sc, (t.program.scope sc).owner = (s.program.scope sc).owner
  kind : ∀ sc, (t.program.scope sc).kind = (s.program.scope sc).kind
  size : t.program.scopes.size = s.program.scopes.size
  memo : t.program.memo = s.program.memo
  tuples : t.program.tuples = s.program.tuples
  found : (t.program.scope x.scope).find? x.name = some s.program.nextSymbol

namespace Declared

variable {t : BindState} {x : Symbol} {id : SymbolId}

theorem symbol (h : Declared s t x id) : t.program.symbol id = x := by
  rw [Program.symbol, h.symbols, h.id]
  exact s.program.symbol_addSymbol_next x

theorem decl (h : Declared s t x id) : t.program.decl id = x.decl := by rw [Program.decl, h.symbol]

theorem symbol_of_lt (h : Declared s t x id) {y : SymbolId} (hy : y.index < s.program.symbols.size) :
    t.program.symbol y = s.program.symbol y := by
  rw [Program.symbol, h.symbols]
  exact s.program.symbol_addSymbol_of_lt x hy

theorem decl_of_lt (h : Declared s t x id) {y : SymbolId} (hy : y.index < s.program.symbols.size) :
    t.program.decl y = s.program.decl y := by rw [Program.decl, h.symbol_of_lt hy, Program.decl]

theorem symbol_of_ne (h : Declared s t x id) {y : SymbolId} (hy : y ≠ id) :
    t.program.symbol y = s.program.symbol y := by
  by_cases hlt : y.index < s.program.symbols.size
  · exact h.symbol_of_lt hlt
  · have hne : y.index ≠ s.program.symbols.size := fun heq => hy (h.id ▸ SymbolId.ext heq)
    rw [Program.symbol_of_le (by rw [h.symbols, Array.size_push]; omega), Program.symbol_of_le (by omega)]

/-- What is no struct leaves the fields of all structs as they are. -/
theorem fieldsOf_eq (h : Declared s t x id) (hx : ∀ own, x.decl ≠ .struct own ∧ x.decl ≠ .union own) (y : SymbolId) :
    t.program.fieldsOf y = s.program.fieldsOf y := by
  by_cases hy : y = id
  · have hnone : t.program.struct? y = none := by
      rw [Option.eq_none_iff_forall_ne_some]
      intro own hown
      rw [Program.struct?_eq_some, hy, h.decl] at hown
      exact hown.elim (hx own).1 (hx own).2
    have hfresh : s.program.decl y = .builtin .void := by
      rw [Program.decl, Program.symbol_of_le (by rw [hy, h.id]; exact Nat.le_refl _)]
      rfl
    rw [Program.fieldsOf, hnone, Program.fieldsOf, Program.struct?, hfresh]
  · rw [Program.fieldsOf, Program.fieldsOf, Program.struct?, Program.struct?, Program.decl, h.symbol_of_ne hy,
      ← Program.decl]

/-- What is declared as something else leaves the templates where they are. -/
theorem template_of_declared (h : Declared s t x id) (hx : ∀ own, x.decl ≠ .template own) {y : SymbolId}
    {own : TemplateDecl} (hy : t.program.template? y = some own) :
    ∃ own', s.program.template? y = some own' ∧ (t.program.symbol y).scope = (s.program.symbol y).scope := by
  have hne : y ≠ id := by
    rintro rfl
    rw [Program.template?_eq_some, h.decl] at hy
    exact hx own hy
  have hlt : y.index < s.program.symbols.size := by
    have hsize := Program.lt_of_template hy
    have hne' : y.index ≠ s.program.symbols.size := fun heq => hne (h.id ▸ SymbolId.ext heq)
    rw [h.symbols, Array.size_push] at hsize
    omega
  refine ⟨own, ?_, by rw [h.symbol_of_lt hlt]⟩
  rw [Program.template?_eq_some, ← h.decl_of_lt hlt, ← Program.template?_eq_some, hy]

/-- A field that was declared for a struct may be added to it. -/
theorem gains (h : Declared s t x id) (hs : s.Sound) {owner : SymbolId} (hw : s.program.Awaits owner x.scope x.name)
    (ho : x.decl.origin? = none) (hx : ∀ own, x.decl ≠ .template own) : t.program.Gains owner id where
  tuple types he := hw.tuple ⟨types, by rwa [h.tuples] at he⟩
  defined names := by
    rintro ⟨hclosure, tmpl, own, source, horigin, htmpl, hsource⟩
    have howner : t.program.symbol owner = s.program.symbol owner := by
      refine h.symbol_of_ne ?_
      rintro rfl
      rw [h.decl, ho] at horigin
      cases horigin
    have htmpl' : s.program.template? tmpl = some own := by
      rwa [Program.template?_eq_some, Program.decl, ← h.symbol_of_ne, ← Program.decl, ← Program.template?_eq_some]
      rintro rfl
      exact hx own (by rw [← h.decl, Program.template?_eq_some.1 htmpl])
    have hdecl : t.program.decl owner = s.program.decl owner := by rw [Program.decl, howner, Program.decl]
    rw [Program.IsClosure, hdecl] at hclosure
    rw [hdecl] at horigin
    obtain ⟨hname, hown⟩ := hw.defined names ⟨hclosure, tmpl, own, source, horigin, htmpl', hsource⟩
    refine ⟨by rwa [h.symbol], fun hm => ?_, x.scope, by rw [howner, hown], by rw [h.symbol, h.found, h.id]⟩
    -- the fields that the struct had are older than the new one
    rw [hdecl] at hm
    have hlt := hs.program.lt_of_mem_fields hm
    rw [h.id] at hlt
    exact absurd hlt (Nat.lt_irrefl _)

end Declared

/-- What a symbol has to be to own a scope. A module that is declared may be left as it is only where nothing binds it, and
a tuple is left only where it will be recorded. -/
structure Owning (floor : Floor) (s : BindState) (x : Symbol) (sc : ScopeId) : Prop where
  own : x.ownScope = some sc
  new : floor.scopes ≤ sc.index
  range : sc.index < s.program.scopes.size
  ownerless : (s.program.scope sc).owner = none
  module : ∀ own, x.decl = .module own → floor.pending s.program.nextSymbol own.status ∨
    (own.status = .idle ∧ x.scope.index < s.program.scopes.size ∧ (s.program.scope x.scope).kind = .struct)
  tuple : x.decl.IsTuple → floor.pending s.program.nextSymbol .busy

/-- **A symbol that was added gets its scope.** -/
theorem Owning.via {t : BindState} {x : Symbol} {sc : ScopeId} (h : Owning floor s x sc) (hs : Via floor s₀ s)
    (ht : Trail floor s t) (hx : t.program.symbols = s.program.symbols.push x)
    (ho : (t.program.scope sc).owner = (s.program.scope sc).owner)
    (hc : (t.program.scope sc).kind = .function →
      t.program.mayCapture s.program.nextSymbol = false ∨ t.program.scopes.size = sc.index + 1) :
    Via floor s₀
      { t with program := t.program.modifyScope sc ({ · with owner := some s.program.nextSymbol }) } := by
  have hsym : t.program.symbol s.program.nextSymbol = x := by
    rw [Program.symbol, hx]
    exact s.program.symbol_addSymbol_next x
  have hu := ht.edit (.owner sc _ h.new (ho.trans h.ownerless) (by rw [hsym, h.own]) hc) fun _ _ => rfl
  refine hs.extend (hs.toTrail.comp hu) hu.later (.of_push hu.later hx ?_ (fun _ _ => by rw [h.own]; rfl) h.tuple
    fun own hm => ?_)
  · intro sc' hsc
    rw [h.own] at hsc
    cases hsc
    rw [Program.scope_modifyScope, if_pos ⟨rfl, Nat.lt_of_lt_of_le h.range ht.later.scopes.size⟩]
    rfl
  · refine (h.module own hm).imp_right fun hidle => ⟨hidle.1, ?_⟩
    show (Program.scope _ (t.program.symbol s.program.nextSymbol).scope).kind = _
    rw [hsym, hu.later.scopes.kind _ hidle.2.1, hidle.2.2]

/-- A symbol is added and owns its scope. -/
theorem addOwner_bind {α : Type} {f : SymbolId → BindM α} {Q : α → BindState → Prop} {x : Symbol} {sc : ScopeId}
    (hs : Via floor s₀ s) (hx : s.program.Addable floor x) (h : Owning floor s x sc)
    (hc : (s.program.scope sc).kind = .function → (s.program.addSymbol x).mayCapture s.program.nextSymbol = false)
    (hrest : ∀ t, Via floor s₀ t → t.program =
      (s.program.addSymbol x).modifyScope sc ({ · with owner := some s.program.nextSymbol }) →
      Ends (f s.program.nextSymbol) c t (Via floor s₀) Q) :
    Ends (do
      let id ← addSymbol x
      setOwner sc id
      f id) c s (Via floor s₀) Q := by
  have ht := hs.restart.toTrail.edit (.symbol x hx (hx.ne_array h.own)) fun _ hf =>
    Program.decl_addSymbol_of_lt _ x hf
  exact .run_bind rfl (.run_bind rfl (hrest _ (h.via hs ht rfl rfl fun hk => .inl (hc hk)) rfl))

/-- What a symbol has to be to be declared in a scope, with nothing left to do for it. -/
structure Declarable (floor : Floor) (s : BindState) (scope : ScopeId) (x : Symbol) : Prop where
  scope : x.scope = scope
  addable : s.program.Addable floor x
  own : x.ownScope = none
  simple : x.decl.isSimple

/-- A symbol that may be added to a scope gets its name there. -/
theorem declared_at {scope : ScopeId} {x : Symbol} (hs : Via floor s₀ s) (hsc : x.scope = scope)
    (hx : s.program.Addable floor x) (hd : ∀ own, x.decl ≠ .array own)
    (hn : (s.program.scope scope).find? x.name = none) {f : Scope → Scope}
    (hf : ∀ sc : Scope, (f sc).owner = sc.owner ∧ (f sc).kind = sc.kind ∧
      (sc.find? x.name = none → (f sc).find? x.name = some s.program.nextSymbol))
    (he : ∀ (floor : Floor) (p : Program), (p.scope scope).find? x.name = none → s.program.nextSymbol.index < p.symbols.size →
      (p.symbol s.program.nextSymbol).scope = scope → (p.symbol s.program.nextSymbol).name = x.name →
      p.Edit floor (p.modifyScope scope f)) :
    Trail floor s { s with program := (s.program.addSymbol x).modifyScope scope f } ∧
      Declared s { s with program := (s.program.addSymbol x).modifyScope scope f } x s.program.nextSymbol := by
  have hadd : Trail floor s { s with program := s.program.addSymbol x } :=
    hs.restart.toTrail.edit (.symbol x hx hd) fun _ hf => Program.decl_addSymbol_of_lt _ x hf
  refine ⟨hadd.edit (he _ _ hn (by simp [Program.nextSymbol]) ?_ (by simp)) fun _ _ => rfl, rfl, rfl, rfl, fun sc => ?_,
    fun sc => ?_, ?_, rfl, rfl, ?_⟩
  · simp [hsc]
  · simp only [Program.scope_modifyScope]
    split
    · rw [(hf _).1]
      rfl
    · rfl
  · simp only [Program.scope_modifyScope]
    split
    · rw [(hf _).2.1]
      rfl
    · rfl
  · simp
  · subst hsc
    rw [Program.scope_modifyScope, if_pos ⟨rfl, hx.admits.scope⟩, Program.scope_addSymbol]
    exact (hf _).2.2 hn

/-- **A declaration adds its symbol or reports an error.** -/
theorem declare_run {scope : ScopeId} {x : Symbol} (hs : Via floor s₀ s) (hsc : x.scope = scope)
    (hx : s.program.Addable floor x) (hd : ∀ own, x.decl ≠ .array own) :
    (∃ t, (declare scope x).runAt c s = (some s.program.nextSymbol, t) ∧ Trail floor s t ∧
      Declared s t x s.program.nextSymbol) ∨
    ∃ log : Log, (declare scope x).runAt c s = (none, { s with log }) ∧ log.errorCount = s.log.errorCount + 1 := by
  refine (declareBy_run (s := s) c Program.declare Scope.insert (x := x) rfl).imp_left fun ⟨hn, hrun⟩ => ?_
  exact ⟨_, hrun, declared_at hs hsc hx hd hn (f := (·.insert x.name s.program.nextSymbol))
    (fun _ => ⟨rfl, rfl, fun hn => by rw [Scope.find?_insert hn, if_pos rfl]⟩)
    fun _ _ h hlt hsc hname => .name scope x.name _ h hlt hsc hname⟩

theorem Declarable.ne_array {scope : ScopeId} {x : Symbol} (h : Declarable floor s scope x) (own : ArrayDecl) :
    x.decl ≠ .array own := fun hd => by
  have := h.simple
  rw [hd] at this
  cases this

/-- Nothing is left to do for a symbol without a scope of its own, unless it is a function, a module or a struct. -/
theorem Declared.via {scope : ScopeId} {t : BindState} {x : Symbol} {id : SymbolId} (h : Declared s t x id)
    (hs : Via floor s₀ s) (ht : Trail floor s t) (hx : Declarable floor s scope x) : Via floor s₀ t :=
  hs.extend (hs.toTrail.comp ht) ht.later (.of_simple ht.later h.symbols hx.own hx.simple)

/-- **A name that is not taken is declared.** -/
theorem declare_new {scope : ScopeId} {x : Symbol} (hs : Via floor s₀ s) (hx : Declarable floor s scope x)
    (hn : (s.program.scope scope).find? x.name = none) : ∃ t, (declare scope x).runAt c s = (some s.program.nextSymbol, t) ∧
      t.program = (s.program.addSymbol x).modifyScope scope (·.insert x.name s.program.nextSymbol) ∧ Via floor s₀ t ∧
      Declared s t x s.program.nextSymbol := by
  obtain ⟨ht, hd⟩ := declared_at hs hx.scope hx.addable hx.ne_array hn (f := (·.insert x.name s.program.nextSymbol))
    (fun _ => ⟨rfl, rfl, fun hn => by rw [Scope.find?_insert hn, if_pos rfl]⟩)
    fun _ _ h hlt hsc hname => .name scope x.name _ h hlt hsc hname
  exact ⟨_, declareBy_new c Program.declare (by rw [Program.declare, hn]; rfl), rfl, hd.via hs ht hx, hd⟩

theorem declare_cases {scope : ScopeId} {x : Symbol} (hs : Via floor s₀ s) (hx : Declarable floor s scope x) :
    ∃ r t, (declare scope x).runAt c s = (r, t) ∧ Via floor s₀ t ∧ ((∃ id, r = some id ∧ Declared s t x id) ∨
      (r = none ∧ t.program = s.program ∧ t.log.errorCount = s.log.errorCount + 1)) := by
  rcases declare_run (c := c) hs hx.scope hx.addable hx.ne_array with ⟨t, hrun, ht, hd⟩ | ⟨log, hrun, hlog⟩
  · exact ⟨_, _, hrun, hd.via hs ht hx, .inl ⟨_, rfl, hd⟩⟩
  · exact ⟨_, _, hrun, hs.quiet (by omega), .inr ⟨rfl, rfl, hlog⟩⟩

theorem declare_ends {scope : ScopeId} {x : Symbol} (hs : Via floor s₀ s) (hx : Declarable floor s scope x) :
    Ends (declare scope x) c s (Via floor s₀) fun id t => Declared s t x id := by
  obtain ⟨r, t, hrun, hat, hr⟩ := declare_cases (c := c) hs hx
  refine ⟨by rw [hrun]; exact hat, fun a ha => ?_⟩
  rw [hrun] at ha ⊢
  obtain ⟨id, rfl, hd⟩ | ⟨rfl, -⟩ := hr
  · cases ha
    exact hd
  · cases ha

theorem attempt_declare_ends {scope : ScopeId} {x : Symbol} (hs : Via floor s₀ s) (hx : Declarable floor s scope x) :
    Ends (attempt (declare scope x)) c s (Via floor s₀) fun r t => (∃ id, r = some id ∧ Declared s t x id) ∨
      (r = none ∧ t.program = s.program ∧ t.log.errorCount = s.log.errorCount + 1) := by
  obtain ⟨r, t, hrun, hat, hr⟩ := declare_cases (c := c) hs hx
  exact .of_run (by rw [runAt_attempt, hrun]) hat hr

theorem declareImported_ends {scope : ScopeId} {x : Symbol} (hs : Via floor s₀ s) (hx : Declarable floor s scope x) :
    Ends (declareImported scope x) c s (Via floor s₀) fun id t => Declared s t x id := by
  rcases declareBy_run (s := s) c Program.declareOther Scope.insertOther (x := x) rfl
    with ⟨hn, hrun⟩ | ⟨log, hrun, hlog⟩
  · obtain ⟨ht, hd⟩ := declared_at hs hx.scope hx.addable hx.ne_array hn (f := (·.insertOther x.name s.program.nextSymbol))
      (fun _ => ⟨rfl, rfl, fun hn => by rw [Scope.find?_insertOther hn, if_pos rfl]⟩)
      fun _ _ h hlt hsc hname => .other scope x.name _ h hlt hsc hname
    exact .of_run hrun (hd.via hs ht hx) hd
  · refine ⟨?_, fun a ha => ?_⟩
    · rw [declareImported, hrun]
      exact hs.quiet (by omega)
    · rw [declareImported, hrun] at ha
      cases ha

/-- A symbol that opens no scope. -/
theorem Declarable.of_inOrder {name : String} {scope : ScopeId} {pos : Span} {d : Decl}
    (hsc : scope.index < s.program.scopes.size)
    (ho : s.program.InOrder s.program.nextSymbol { name, scope, pos, decl := d }) (hd : d.isPlain && d.isSimple) :
    Declarable floor s scope { name, scope, pos, decl := d } := by
  rw [Bool.and_eq_true] at hd
  exact ⟨rfl, .of_plain ⟨hsc, by rintro _ ⟨⟩, ho⟩ hd.1 (by rintro _ ⟨⟩), rfl, hd.2⟩

/-- A constant may be defined by a literal that is not older than the floor and was not retyped, or by any other node. -/
theorem Declarable.constant {name : String} {scope : ScopeId} {pos : Span} {tag : AliasTag} {n : NodeId}
    (hsc : scope.index < s.program.scopes.size) (hn : n.index < s.program.nodes.size)
    (hf : s.program.Adaptable n → floor.operands ≤ n.index) (ht : floor.coherent → (s.program.node n).IsNatural)
    (hm : (s.program.constValue? n).isSome) : Declarable floor s scope { name, scope, pos, decl := .constAlias tag n } where
  scope := rfl
  addable :=
    { admits := ⟨hsc, by rintro _ ⟨⟩, hn⟩
      builtin := by rintro _ ⟨⟩
      own := by rintro _ ⟨⟩
      module := by rintro _ ⟨⟩
      template := by rintro _ ⟨⟩
      label := by rintro _ ⟨⟩
      constant := by rintro _ _ ⟨⟩; exact ⟨hf, ht, hm⟩
      overloads := by rintro _ ⟨⟩ }
  own := rfl
  simple := rfl

/-! ## Fields and variables -/

theorem declareField_ends (hg : Ready k g s) {owner : SymbolId} {scope : ScopeId} {name : String} {pos : Span} {ty : Ty}
    {default : Option NodeId} (hsc : scope.index < s.program.scopes.size) (hw : s.program.Awaits owner scope name)
    (hd : ∀ n, default = some n → s.program.Default scope n) :
    Ends (declareField owner scope name pos ty default) c s (At k s) fun id t =>
      ∃ own, t.program.field? id = some own ∧ own.ty = ty := by
  have hx : ∀ index, Declarable (s.floor k) s scope { name, scope, pos, decl := .field { ty, owner, index, default } } :=
    fun index => .of_inOrder hsc ⟨hd, by rintro _ ⟨⟩⟩ rfl
  refine .ask_bind ((declare_ends (.start hg) (hx _)).bind fun id t ht hid => ?_)
  have hfield := Program.field?_eq_some.2 hid.decl
  have hplace := congrArg List.length (hid.fieldsOf_eq (by simp) owner).symm
  have happend := appendPlainField_ends (c := c) (.start (ht.ready hg)) hfield rfl hplace rfl
    (hid.gains hg.sound hw rfl (by simp))
  exact .next ht (Nat.le_refl k) happend fun _ u hu htu _ => .pure hu ⟨_, htu.later.field hfield, rfl⟩

/-- A field that no name leads to. It keeps a variable only if its struct has no field for the variable. -/
theorem addHiddenField_ends (hg : Ready k g s) {owner : SymbolId} {name : String} {pos : Span} {ty : Ty}
    {captured : Option CaptureSource} (hc : ∀ source index, captured = some source →
      s.program.Keeping { ty, owner, index, captured } source)
    (ha : ∀ source, captured = some source → s.program.captureOf? owner source.origin = none)
    (hr : s.program.IsClosure owner) :
    Ends (addHiddenField owner name pos ty captured) c s (At k s) fun id t => ∃ own, t.program.field? id = some own ∧
      own.owner = owner ∧ own.ty = ty ∧ own.captured = captured ∧ t.program.scopes = s.program.scopes ∧
      (∀ source, captured = some source → t.program.captureOf? owner source.origin = some id) ∧
      ∃ struct, s.program.decl owner = .struct struct ∧
        t.program.decl owner = .struct { struct with fields := struct.fields ++ [id] } := by
  have ⟨struct, hd, _⟩ := hr
  refine .ask_bind (.ask_bind ?_)
  have hsc : ((s.program.symbol owner).ownScope.getD .root).index < s.program.scopes.size := by
    rcases ho : (s.program.symbol owner).ownScope with _ | sc
    · exact hg.sound.program.scopes
    · exact ((hg.sound.program.admits owner (Program.lt_of_ownScope ho)).own sc ho).1
  refine .bind (addSymbol_ends (.start hg)
    (.of_plain ⟨hsc, by rintro _ ⟨⟩, by rintro _ ⟨⟩, fun source => hc source _⟩ rfl (by rintro _ ⟨⟩)) rfl rfl) ?_
  rintro id t ht ⟨rfl, rfl⟩
  generalize hx : ({ name, scope := _, pos, decl := _ } : Symbol) = x at ht ⊢
  have hfield : (s.program.addSymbol x).field? s.program.nextSymbol =
      some { ty, owner, index := (s.program.fieldsOf owner).length, captured } := by
    rw [Program.field?_eq_some, Program.decl_addSymbol_next, ← hx]
  have hd' : (s.program.addSymbol x).decl owner = .struct struct := by
    rw [Program.decl_addSymbol_of_lt _ _ (Program.lt_of_decl (by rw [hd]; simp)), hd]
  have hplace : (s.program.fieldsOf owner).length = ((s.program.addSymbol x).fieldsOf owner).length := by
    rw [Program.fieldsOf_of_struct hd, Program.fieldsOf_of_struct hd']
  have hcap : ∀ source, captured = some source → (s.program.addSymbol x).captureOf? owner source.origin = none := by
    refine fun source hs => (Program.captureOf?_eq_none hd').2 fun f hm a => ?_
    obtain ⟨own, hf, -⟩ := (hg.sound.program.hasFields hd).own f hm
    rw [ht.later.captureSource? (by rw [hf]; rfl)]
    exact (Program.captureOf?_eq_none hd).1 (ha source hs) f hm a
  have happend := appendField_ends (c := c) (.start (ht.ready hg)) hfield rfl hplace
    (ht.sound.program.gains_of_isClosure (ht.later.isClosure hr) _) fun _ hstruct g hgm a b ha hb => by
    obtain ⟨own, hf, hcap'⟩ := Program.captureSource?_eq_some.1 hb
    rw [hfield] at hf
    cases hf
    rw [Program.struct?_eq_some.2 (.inl hd')] at hstruct
    cases hstruct
    exact (Program.captureOf?_eq_none hd').1 (hcap b hcap') g hgm a ha
  refine .next ht (Nat.le_refl k) happend fun _ u hu htu hprog => .pure hu ?_
  subst hprog
  refine ⟨_, by rw [Program.field?_appendField, hfield], rfl, rfl, rfl, Program.scopes_appendField _ _ _,
    fun source hs => ?_, struct, hd, Program.decl_appendField hd'⟩
  exact Program.captureOf?_appendField hd' (hcap source hs) (Program.captureSource?_eq_some.2 ⟨_, hfield, hs⟩)

/-- The state of the generator around a place is a closure. -/
theorem generatorState?_run (hs : s.Sound) :
    ∃ r, (generatorState?).runAt c s = (some r, s) ∧ ∀ state, r = some state → s.program.IsClosure state := by
  unfold BindM.generatorState?
  rcases hf : c.function with _ | f
  · exact ⟨none, by rw [runAt_bind_some runAt_read, hf]; rfl, by rintro _ ⟨⟩⟩
  · exact ⟨_, by rw [runAt_bind_some runAt_read, hf]; rfl, fun _ h => hs.program.isClosure_of_generatorState? h⟩

/-- **A variable has the type it is declared with**, wherever it is kept. -/
theorem declareVariable_ends (hc : Ready k c s) {name : String} {ty : Ty} {pos : Span} {modifiers : Modifiers} :
    Ends (declareVariable name ty pos modifiers) c s (At k s) fun id t =>
      (t.program.decl id).valueType? = some ty := by
  refine .read_bind (.ask_bind (.ite (fun _ => ?_) fun hm => ?_))
  · refine .mono (declare_ends (.start hc) (.of_inOrder hc.scope trivial rfl)) fun id t _ hid => ?_
    rw [hid.decl]
    rfl
  · obtain ⟨state, hrun, hstate⟩ := generatorState?_run (c := c) hc.sound
    refine .run_bind hrun ?_
    cases state with
    | some state =>
      have hawaits := hc.sound.program.awaits_of_isClosure (hstate state rfl) c.scope name
      refine .mono (declareField_ends hc hc.scope hawaits (by rintro _ ⟨⟩)) ?_
      rintro id t - ⟨own, hf, rfl⟩
      rw [Program.field?_eq_some.1 hf]
      rfl
    | none =>
      have hk : (s.program.scope c.scope).kind ≠ .module := fun h => hm (by simp [h])
      refine .mono (declare_ends (.start hc) (.of_inOrder hc.scope hk rfl)) fun id t _ hid => ?_
      rw [hid.decl]
      rfl

/-! ## Labels -/

/-- The scope of a context is a block that is not older than the floor and has no label yet. What the function around it
stands in and has is older than the block. -/
structure OpenBlock (floor : Floor) (c : Context) (s : BindState) : Prop where
  new : floor.scopes ≤ c.scope.index
  range : c.scope.index < s.program.scopes.size
  kind : (s.program.scope c.scope).kind = .block
  function : ∀ f, c.function = some f → s.program.Precedes f c.scope
  unlabelled : s.program.Labelled c.scope none

/-- The label of a block or a loop that the scope of a context belongs to. -/
structure LabelOf (c : Context) (isLoop : Bool) (s : BindState) (l : SymbolId) : Prop where
  decl : s.program.decl l = .label { isLoop, function := c.function }
  scope : (s.program.symbol l).scope = c.scope
  only : s.program.Labelled c.scope (some l)

theorem OpenBlock.mono {t : BindState} (h : OpenBlock floor c s) (ht : At k s t) : OpenBlock floor c t where
  new := h.new
  range := Nat.lt_of_lt_of_le h.range ht.later.scopes.size
  kind := by rw [ht.later.scopes.kind _ h.range, h.kind]
  function f hf := ht.later.precedes (h.function f hf)
  unlabelled := ht.labelled h.unlabelled h.range

namespace LabelOf

variable {isLoop : Bool} {l : SymbolId}

theorem finished (h : LabelOf c isLoop s l) : s.program.Finished l := .of_decl h.decl (by simp) rfl

/-- A block that has its label gets no other one. -/
theorem keep {t : BindState} (h : LabelOf c isLoop s l) (ht : Trail floor s t) (hc : c.scope.index < floor.scopes) :
    LabelOf c isLoop t l where
  decl := ht.later.label h.decl
  scope := by rw [ht.later.scope l h.finished.range, h.scope]
  only := ht.labelled h.only hc

theorem targets (h : LabelOf c isLoop s l) {again : Bool} (ha : again → isLoop) : s.program.Targets c again l :=
  ⟨_, h.decl, rfl, ha, by rw [h.scope]; exact s.program.self_mem_ancestors _⟩

end LabelOf

/-- A label was declared for a block, and no owner of a scope and no template with it. -/
structure Labels (c : Context) (isLoop : Bool) (s t : BindState) (l : SymbolId) : Prop extends LabelOf c isLoop t l where
  owner : ∀ sc, (t.program.scope sc).owner = (s.program.scope sc).owner
  bare : ∀ sc, s.program.Bare sc → t.program.Bare sc

/-- **A block gets its label**, which belongs to the function around the block. -/
theorem declareLabel_ends (hs : Via floor s₀ s) (ho : OpenBlock floor c s) {name : Option String} {isLoop : Bool}
    {pos : Span} :
    Ends (declareLabel name isLoop pos) c s (Via floor s₀) fun l t => Labels c isLoop s t l := by
  have hdecl : ∀ (name : String) t, Via floor s₀ t → t.program = s.program → Ends (declare c.scope
      { name, scope := c.scope, pos, decl := .label { isLoop, function := c.function } }) c t (Via floor s₀)
      fun l u => Labels c isLoop s u l := by
    intro name t ht hprog
    have hadd : t.program.Addable floor
        { name, scope := c.scope, pos, decl := .label { isLoop, function := c.function } } :=
      { admits := by rw [hprog]; exact ⟨ho.range, by rintro _ ⟨⟩, ho.kind, ho.function⟩
        builtin := by rintro _ ⟨⟩
        own := by rintro _ ⟨⟩
        module := by rintro _ ⟨⟩
        template := by rintro _ ⟨⟩
        label := fun _ _ => ho.new
        constant := by rintro _ _ ⟨⟩
        overloads := by rintro _ ⟨⟩ }
    refine .mono (declare_ends ht ⟨rfl, hadd, rfl, rfl⟩) fun l u _ hl =>
      { decl := hl.decl
        scope := by rw [hl.symbol]
        only := fun l' own hd hsc => ?_
        owner := fun sc => by rw [hl.owner, hprog]
        bare := fun sc hb => (hprog ▸ hb).of_template fun _ _ hx _ => hl.template_of_declared (by simp) hx }
    -- every other label was there before, and stood elsewhere
    by_contra hne
    have hlt : l'.index < t.program.symbols.size := by
      have hsize : l'.index < u.program.symbols.size := Program.lt_of_decl (by rw [hd]; simp)
      have hne' : l'.index ≠ t.program.symbols.size := fun heq => hne (by
        rw [hl.id]
        exact congrArg some (SymbolId.ext heq.symm))
      rw [hl.symbols, Array.size_push] at hsize
      omega
    rw [hl.decl_of_lt hlt, hprog] at hd
    rw [hl.symbol_of_lt hlt, hprog] at hsc
    cases ho.unlabelled l' own hd hsc
  cases name with
  | some name => exact .pure_bind (.read_bind (hdecl name s hs rfl))
  | none => exact (freshName_ends hs _).bind fun name t ht htp => .read_bind (hdecl name t ht htp)

/-! ## Parameters -/

/-- Symbols were added; the declarations that there were and the instances are the same. -/
structure Appends (s t : BindState) : Prop where
  memo : t.program.memo = s.program.memo
  decl : ∀ x : SymbolId, x.index < s.program.symbols.size → t.program.decl x = s.program.decl x

theorem Appends.of_eq {t : BindState} (h : t.program = s.program) : Appends s t := ⟨by rw [h], fun _ _ => by rw [h]⟩

theorem Declared.appends {t : BindState} {x : Symbol} {id : SymbolId} (h : Declared s t x id) : Appends s t :=
  ⟨h.memo, fun _ hy => h.decl_of_lt hy⟩

theorem Appends.trans {t u : BindState} (h : Appends s t) (h' : Appends t u)
    (hle : s.program.symbols.size ≤ t.program.symbols.size) : Appends s u :=
  ⟨h'.memo.trans h.memo, fun x hx => (h'.decl x (Nat.lt_of_lt_of_le hx hle)).trans (h.decl x hx)⟩

/-- No instance was recorded, and every template is what it was. -/
structure Spares (s t : BindState) : Prop where
  memo : t.program.memo = s.program.memo
  template : ∀ x own, s.program.template? x = some own → t.program.template? x = some own

theorem Appends.spares {t : BindState} (h : Appends s t) : Spares s t where
  memo := h.memo
  template x own hx := by
    have hlt := Program.lt_of_template hx
    rw [Program.template?_eq_some, h.decl x hlt, ← Program.template?_eq_some, hx]

theorem Spares.trans {t u : BindState} (h : Spares s t) (h' : Spares t u) : Spares s u :=
  ⟨h'.memo.trans h.memo, fun x own hx => h'.template x own (h.template x own hx)⟩

theorem Spares.setDecl {f : SymbolId} {own : FunctionDecl} (hf : s.program.function? f = some own) (d : Decl) :
    Spares s { s with program := s.program.setDecl f d } where
  memo := rfl
  template x own' hx := by
    have hne : f ≠ x := by
      rintro rfl
      rw [Program.template?, Program.function?_eq_some.1 hf] at hx
      cases hx
    rw [Program.template?_eq_some, Program.decl_setDecl_of_ne _ _ hne, ← Program.template?_eq_some, hx]

/-- Parameters are declared with given types, in order. -/
def TakesParams (p : Program) (params : List ValueParam) (ids : List SymbolId) : Prop :=
  List.Forall₂ (fun param id => (p.decl id).valueType? = some param.ty) params ids

theorem TakesParams.later {p q : Program} (h : p.Later q) {params : List ValueParam} {ids : List SymbolId}
    (ht : TakesParams p params ids) : TakesParams q params ids :=
  List.Forall₂.imp (fun _ _ hv => h.valueType hv) ht

/-- **Every parameter is declared**, unless an error is reported for it. -/
theorem declareValueParams_ends {scope : ScopeId} : ∀ {params : List ValueParam} {declared : List SymbolId}
    {s : BindState}, Ready k g s → scope.index < s.program.scopes.size → (s.program.scope scope).kind ≠ .module →
    Ends (declareValueParams scope declared params) c s (At k s) fun ids t => ∃ new, ids = declared ++ new ∧
      Appends s t ∧ (t.log.errorCount = 0 → TakesParams t.program params new)
  | [], declared, s, hg, _, _ =>
    .pure (.start hg) ⟨[], (List.append_nil _).symm, .of_eq rfl, fun _ => .nil⟩
  | param :: rest, declared, s, hg, hsc, hk => by
    refine .bind (attempt_declare_ends (.start hg) (.of_inOrder hsc hk rfl)) ?_
    rintro r t ht (⟨id, rfl, hid⟩ | ⟨rfl, hp, hlog⟩)
    all_goals
      have hsc' : scope.index < t.program.scopes.size := Nat.lt_of_lt_of_le hsc ht.later.scopes.size
      have hk' : (t.program.scope scope).kind ≠ .module := by rwa [ht.later.scopes.kind scope hsc]
    · refine .last ht (Nat.le_refl k) (declareValueParams_ends (ht.ready hg) hsc' hk') ?_
      rintro ids u - htu ⟨new, rfl, ha, hnew⟩
      refine ⟨id :: new, by simp, hid.appends.trans ha ht.later.symbols, fun h0 => .cons ?_ (hnew h0)⟩
      exact htu.later.valueType (by rw [hid.decl]; rfl)
    · refine .last ht (Nat.le_refl k) (declareValueParams_ends (ht.ready hg) hsc' hk') ?_
      rintro ids u - htu ⟨new, rfl, ha, hnew⟩
      refine ⟨new, rfl, (Appends.of_eq hp).trans ha ht.later.symbols, fun h0 => ?_⟩
      have := htu.frame.errors
      omega

/-- A function gets its receiver and its parameters. -/
theorem declareParameters_ends {f : SymbolId} {own : FunctionDecl} {scope : ScopeId} {receiver : Option Ty}
    {params : List ValueParam} (hg : Ready k g s) (hf : s.program.function? f = some own)
    (hown : (s.program.symbol f).ownScope = some scope)
    (hrec : ∀ ty, receiver = some ty → ∃ owner, own.owner = some owner ∧ ty = .pointer (.direct owner))
    (hm : ∀ e ∈ s.program.memo, e.2 ≠ f) :
    Ends (declareParameters f scope receiver params) c s (At k s) fun _ t => Spares s t ∧
      ∃ own', t.program.function? f = some own' ∧ own'.ret = own.ret ∧ own'.body = own.body ∧
        (t.log.errorCount = 0 → TakesParams t.program params own'.valueParams) := by
  have hflt : f.index < s.program.symbols.size := Program.lt_of_ownScope hown
  obtain ⟨hsc, -, hkind⟩ := (hg.sound.program.admits f hflt).own scope hown
  have hk : (s.program.scope scope).kind = .function := hkind.2 ⟨own, Program.function?_eq_some.1 hf⟩
  -- what is left to do once the receiver is declared, or is found to be none
  have hrest : ∀ (this : Option SymbolId) (t : BindState), At k s t → Appends s t →
      (∀ r, this = some r → ∃ owner, own.owner = some owner ∧ ∃ index,
        t.program.decl r = .parameter (.pointer (.direct owner)) index ∧ (t.program.symbol r).scope = scope) →
      Ends (do
        let params ← declareValueParams scope this.toList params
        modifyProgram (·.modifyFunction f fun own => { own with params, receiver := this })) c t (At k s) fun _ t =>
      Spares s t ∧ ∃ own', t.program.function? f = some own' ∧ own'.ret = own.ret ∧ own'.body = own.body ∧
        (t.log.errorCount = 0 → TakesParams t.program params own'.valueParams) := by
    intro this t ht ha hthis
    have hsc' : scope.index < t.program.scopes.size := Nat.lt_of_lt_of_le hsc ht.later.scopes.size
    have hk' : (t.program.scope scope).kind ≠ .module := by rw [ht.later.scopes.kind scope hsc, hk]; simp
    refine .next ht (Nat.le_refl k) (declareValueParams_ends (ht.ready hg) hsc' hk') ?_
    rintro ids u hu htu ⟨new, rfl, happ, hnew⟩
    have hsu := ha.trans happ ht.later.symbols
    have hfu : u.program.function? f = some own := by
      rw [Program.function?_eq_some, hsu.decl f hflt, ← Program.function?_eq_some, hf]
    have hsym : (u.program.symbol f).ownScope = some scope := by rw [hu.later.ownScope f hflt, hown]
    obtain ⟨-, hbody, hret⟩ := hu.sound.program.function hfu
    have hamend : u.program.Amends (u.floor k) f
        (.function { own with params := this.toList ++ new, receiver := this }) := by
      refine hu.sound.program.amends_function (Program.function?_eq_some.1 hfu) rfl rfl rfl id (fun r hr => ?_)
        (fun n hn => (hbody n hn).of_eq rfl rfl) hret (fun e he hid => ?_) fun _ => rfl
      · obtain ⟨owner, ho, index, hd, hs⟩ := hthis r hr
        have hrlt : r.index < t.program.symbols.size := Program.lt_of_decl (by rw [hd]; simp)
        exact ⟨owner, index, ho, by rw [happ.decl r hrlt, hd], by rw [hsym, htu.later.scope r hrlt, hs]⟩
      · exact absurd hid (hm e (by rwa [hsu.memo] at he))
    refine .last hu (Nat.le_refl k) (modifyFunction_ends (.start (hu.ready hg)) hfu hamend fun a ty ha hty => ?_) ?_
    · rw [hfu] at ha
      cases ha
      exact hty
    · rintro _ v - huv rfl
      refine ⟨hsu.spares.trans (.setDecl hfu _), _,
        Program.function?_eq_some.2 (Program.decl_setDecl_self _ _ hamend.range), rfl, rfl, fun h0 => ?_⟩
      have hdrop : FunctionDecl.valueParams { own with params := this.toList ++ new, receiver := this } = new := by
        simp [FunctionDecl.valueParams]
      rw [hdrop]
      exact (hnew h0).later huv.later
  unfold declareParameters
  cases receiver with
  | none => exact .pure_bind (hrest none s (.start hg) (.of_eq rfl) (by rintro _ ⟨⟩))
  | some ty =>
    obtain ⟨owner, ho, rfl⟩ := hrec ty rfl
    refine .ask_bind (.bind (attempt_declare_ends (.start hg) (.of_inOrder hsc ?_ rfl)) ?_)
    · show (s.program.scope scope).kind ≠ .module
      rw [hk]
      simp
    · rintro r t ht (⟨id, rfl, hid⟩ | ⟨rfl, hp, -⟩)
      · refine hrest _ t ht hid.appends ?_
        rintro _ ⟨⟩
        exact ⟨owner, ho, 0, hid.decl, by rw [hid.symbol]⟩
      · exact hrest none t ht (.of_eq hp) (by rintro _ ⟨⟩)

theorem setReturnType_via (hs : Via floor s₀ s) {f : SymbolId} {own : FunctionDecl} {ty : Ty}
    (hf : s.program.function? f = some own) (hb : own.body = [] ∨ own.role = .generatorStep)
    (hr : ∀ a ty', s₀.program.function? f = some a → a.ret = some ty' → ty = ty') :
    Via floor s₀ { s with program := s.program.setDecl f (.function { own with ret := some ty }) } := by
  refine hs.amend (hs.sound.program.amends_returnType hf hb) (fun a b ty' ha hty hb => ?_) (by rintro _ ⟨⟩)
  cases hb
  rw [hr a ty' ha hty]

theorem setReturnType_run {f : SymbolId} {own : FunctionDecl} {ty : Ty} (hf : s.program.function? f = some own) :
    (setReturnType f ty).runAt c s =
      (some (), { s with program := s.program.setDecl f (.function { own with ret := some ty }) }) := by
  have hrun : (setReturnType f ty).runAt c s =
      (some (), { s with program := s.program.modifyFunction f fun own => { own with ret := some ty } }) := rfl
  rwa [Program.modifyFunction, Program.function?_eq_some.1 hf] at hrun

end BindM

end Bindery
