import Bindery.Proofs.Sound
/-!
# Templates and their instances

What a template was instantiated to stands in two places: in the list of the template, and in the memo, which finds an
instance by its template and fingerprint. Both say the same. An instance is recorded at most once, and only while its
template has none with the fingerprint; a template that moves to make room for an overload has no instances yet, since
the statements of a scope are declared before any of them is bound. So no template is declared in the scope of a module
before the module is bound.
-/
namespace Bindery

namespace Program

variable {p q : Program} {floor : Floor}

theorem Edit.memo (h : p.Edit floor q) : q.memo = p.memo := by cases h <;> rfl

/-- A symbol of the table keeps its declaration unless that is what is changed. -/
theorem Edit.decl_cases (h : p.Edit floor q) {x : SymbolId} (hx : x.index < p.symbols.size) :
    q.decl x = p.decl x ∨ p.Amends floor x (q.decl x) := by
  cases h with
  | symbol y | array y => exact .inl (decl_addSymbol_of_lt p y hx)
  | decl id d ha =>
    by_cases hid : id = x
    · subst hid
      exact .inr (by rwa [decl_setDecl_self p d hx])
    · exact .inl (decl_setDecl_of_ne p d hid)
  | _ => exact .inl rfl

/-- The symbol that a change adds. -/
theorem Edit.added (h : p.Edit floor q) {x : SymbolId} (hx : ¬ x.index < p.symbols.size) (hq : x.index < q.symbols.size) :
    ∃ new, q.symbols = p.symbols.push new ∧ p.Addable floor new ∧ x = p.nextSymbol ∧ q.nodes = p.nodes := by
  have hnext : ∀ new, x.index < (p.addSymbol new).symbols.size → x = p.nextSymbol := fun new hlt => by
    rw [size_symbols_addSymbol] at hlt
    exact SymbolId.ext (show x.index = p.symbols.size by omega)
  cases h with
  | symbol new hnew => exact ⟨new, rfl, hnew, hnext new hq, rfl⟩
  | array new own hnew => exact ⟨new, rfl, hnew, hnext new hq, rfl⟩
  | decl id d => exact absurd hq (by simpa using hx)
  | _ => exact absurd hq hx

/-- The symbol that was added, and those that were there. -/
theorem symbol_of_pushed {new : Symbol} (hs : q.symbols = p.symbols.push new) :
    q.symbol p.nextSymbol = new ∧ ∀ y : SymbolId, y.index < p.symbols.size → q.symbol y = p.symbol y := by
  rw [symbol_of_push hs]
  exact ⟨symbol_addSymbol_next p new, fun y hy => symbol_addSymbol_of_lt p new hy⟩

/-- A change leaves every template alone that there was and that is one still. Another one is new, without instances,
and may be declared where it is. -/
theorem Edit.template_cases (hp : p.Sound) (h : p.Edit floor q) {t : SymbolId} {own : TemplateDecl}
    (ht : q.template? t = some own) : p.template? t = some own ∨
      (p.symbols.size ≤ t.index ∧ (floor.coherent → own.instances = []) ∧ p.Declares floor (q.symbol t).scope) := by
  have hq := template?_eq_some.1 ht
  by_cases hlt : t.index < p.symbols.size
  · rcases h.decl_cases hlt with hd | hd
    · exact .inl (template?_eq_some.2 (by rw [← hd, hq]))
    · obtain ⟨own', ht'⟩ := (h.later hp).template_of_later hlt ht
      exact absurd hq ((hd.template own' (template?_eq_some.1 ht')).2 own)
  · refine .inr ⟨Nat.le_of_not_lt hlt, ?_⟩
    obtain ⟨new, hs, hnew, rfl, -⟩ := h.added hlt (lt_of_template ht)
    rw [Program.decl, (symbol_of_pushed hs).1] at hq
    rw [(symbol_of_pushed hs).1]
    exact hnew.template own hq

/-- A template that has an instance stays what it is. -/
theorem Edit.template_eq (h : p.Edit floor q) (hf : floor.coherent) {t : SymbolId} {own : TemplateDecl} (ht : p.template? t = some own)
    (hi : own.instances ≠ []) : q.template? t = some own := by
  have hd := template?_eq_some.1 ht
  rcases h.decl_cases (lt_of_template ht) with hq | hq
  · exact template?_eq_some.2 (hq.trans hd)
  · exact absurd ((hq.template own hd).1 hf) hi

/-! ## The memo -/

/-- The memo and the lists of the templates have the same instances, each of them once. -/
structure Memoized (p : Program) : Prop where
  recorded : ∀ e ∈ p.memo, ∃ own, p.template? e.1.1 = some own ∧ e.2 ∈ own.instances ∧
    (p.decl e.2).origin? = some e.1.1
  listed : ∀ t own, p.template? t = some own → own.instances.Nodup ∧
    ∀ x ∈ own.instances, ∃ fingerprint, ((t, fingerprint), x) ∈ p.memo
  keys : (p.memo.map (·.1)).Nodup
  values : (p.memo.map (·.2)).Nodup

theorem lt_of_origin {x t : SymbolId} (h : (p.decl x).origin? = some t) : x.index < p.symbols.size :=
  lt_of_decl fun hd => by rw [hd] at h; cases h

theorem Edit.memoized (hp : p.Sound) (h : p.Edit floor q) (hf : floor.coherent) (hm : p.Memoized) : q.Memoized where
  recorded e he := by
    rw [h.memo] at he
    obtain ⟨own, ht, hx, ho⟩ := hm.recorded e he
    refine ⟨own, h.template_eq hf ht (List.ne_nil_of_mem hx), hx, ?_⟩
    rw [((h.later hp).decl _ (lt_of_origin ho)).origin?_eq, ho]
  listed t own ht := by
    rw [h.memo]
    rcases h.template_cases hp ht with ht | ⟨-, hnil, -⟩
    · exact hm.listed t own ht
    · simp [hnil hf]
  keys := by rw [h.memo]; exact hm.keys
  values := by rw [h.memo]; exact hm.values

/-- An entry of the memo is what is found by its key. -/
theorem Memoized.known_iff (hm : p.Memoized) {t x : SymbolId} {fingerprint : Fingerprint} :
    p.knownInstance? t fingerprint = some x ↔ ((t, fingerprint), x) ∈ p.memo := by
  rw [knownInstance?, List.lookup_eq_some_iff]
  constructor
  · rintro ⟨before, after, heq, -⟩
    simp [heq]
  · intro he
    obtain ⟨before, after, heq⟩ := List.append_of_mem he
    refine ⟨before, after, heq, fun e hb => ?_⟩
    have hkeys := hm.keys
    rw [heq, List.map_append, List.map_cons, List.nodup_append] at hkeys
    have hne := hkeys.2.2 e.1 (List.mem_map_of_mem hb) _ List.mem_cons_self
    simpa using hne.symm

/-! ## Recording an instance -/

section record

variable {t made : SymbolId} {own : TemplateDecl} {fingerprint : Fingerprint}

theorem registerInstance_eq (ht : p.template? t = some own) : p.registerInstance t fingerprint made =
    { p.setDecl t (.template { own with instances := own.instances ++ [made] }) with
      memo := ((t, fingerprint), made) :: p.memo } := by
  have hd := template?_eq_some.1 ht
  simp only [registerInstance, modifyTemplate, decl, symbol] at hd ⊢
  rw [hd]
  rfl

theorem function?_setDecl_template {b : TemplateDecl} (hd : p.decl t = .template own) (f : SymbolId) :
    (p.setDecl t (.template b)).function? f = p.function? f := by
  by_cases hf : t = f
  · subst hf
    rw [function?, function?, hd, decl_setDecl_self _ _ (lt_of_decl (by rw [hd]; simp))]
  · rw [function?, decl_setDecl_of_ne _ _ hf, function?]

/-- Another instance is added to a template. -/
theorem Sound.completes_template (hp : p.Sound) (ht : p.template? t = some own) (instances : List SymbolId) :
    p.Completes t (.template { own with instances }) := by
  have hd := template?_eq_some.1 ht
  have hlt := lt_of_template ht
  have hl : (p.decl t).Later (.template { own with instances }) := by rw [hd]; exact .template rfl rfl rfl
  have hin := hp.inOrder_of_decl hd (by simp)
  exact ⟨hlt, hl, hp.admits_decl hlt hl hin, by rintro _ _ ⟨⟩, by rintro _ ⟨⟩, by simp [Decl.fields]⟩

theorem Later.setMemo (hp : p.Nested) (memo : List ((SymbolId × Fingerprint) × SymbolId)) :
    p.Later { p with memo } :=
  .of_nodes hp rfl (List.Subset.refl _) rfl rfl (Nat.le_refl _) (fun _ _ => rfl) (fun _ _ _ => rfl) (fun _ _ _ => rfl)
    fun _ _ _ _ => rfl

theorem registerInstance_later (hp : p.Sound) (ht : p.template? t = some own) :
    p.Later (p.registerInstance t fingerprint made) := by
  have hl := (hp.completes_template ht (own.instances ++ [made])).setDecl_later hp.nested
  rw [registerInstance_eq ht]
  exact hl.trans (.setMemo hl.nested' _)

theorem registerInstance_sound (hp : p.Sound) (ht : p.template? t = some own) :
    (p.registerInstance t fingerprint made).Sound := by
  have hs := (hp.completes_template ht (own.instances ++ [made])).setDecl_sound hp
  have hl := Later.setMemo hs.nested (((t, fingerprint), made) :: p.memo)
  rw [registerInstance_eq ht]
  exact hs.of_later hl (fun n hn => .inl ⟨hn, rfl⟩) (fun x hx => .inl ⟨hx, rfl⟩) (fun _ _ _ h => .inl h)
    (fun _ _ h => .inl h) (hs.interned.of_symbols hl rfl rfl rfl)

theorem memo_registerInstance (ht : p.template? t = some own) :
    (p.registerInstance t fingerprint made).memo = ((t, fingerprint), made) :: p.memo := by
  rw [registerInstance_eq ht]

theorem decl_registerInstance (ht : p.template? t = some own) (x : SymbolId) :
    (p.registerInstance t fingerprint made).decl x =
      if t = x then .template { own with instances := own.instances ++ [made] } else p.decl x := by
  rw [registerInstance_eq ht]
  show (p.setDecl t _).decl x = _
  split
  · rename_i h
    subst h
    exact decl_setDecl_self p _ (lt_of_template ht)
  · rename_i h
    exact decl_setDecl_of_ne p _ h

theorem template?_registerInstance (ht : p.template? t = some own) (x : SymbolId) :
    (p.registerInstance t fingerprint made).template? x =
      if t = x then some { own with instances := own.instances ++ [made] } else p.template? x := by
  rw [template?, decl_registerInstance ht]
  split_ifs <;> rfl

theorem function?_registerInstance (ht : p.template? t = some own) (f : SymbolId) :
    (p.registerInstance t fingerprint made).function? f = p.function? f := by
  rw [registerInstance_eq ht]
  exact function?_setDecl_template (template?_eq_some.1 ht) f

theorem module_of_registerInstance (ht : p.template? t = some own) {m : SymbolId} {module : ModuleDecl}
    (hm : (p.registerInstance t fingerprint made).module? m = some module) : p.module? m = some module := by
  rw [module?_eq_some, decl_registerInstance ht] at hm
  split_ifs at hm
  exact module?_eq_some.2 hm

/-- **Recording an instance keeps the memo and the lists together.** -/
theorem Enters.memoized (hm : p.Memoized) (h : p.Enters t fingerprint made) :
    (p.registerInstance t fingerprint made).Memoized := by
  obtain ⟨own, ht⟩ := Option.isSome_iff_exists.1 h.declared
  have horigin : ∀ {x y}, (p.decl x).origin? = some y →
      ((p.registerInstance t fingerprint made).decl x).origin? = some y := by
    intro x y hx
    rw [registerInstance_eq ht]
    refine (congrArg Decl.origin? (decl_setDecl_of_ne p _ ?_)).trans hx
    rintro rfl
    rw [template?_eq_some.1 ht] at hx
    cases hx
  constructor
  · intro e he
    rw [memo_registerInstance ht] at he
    simp only [template?_registerInstance ht]
    rcases List.mem_cons.1 he with rfl | he
    · exact ⟨_, if_pos rfl, by simp, horigin h.origin⟩
    · obtain ⟨own', ht', hx, ho⟩ := hm.recorded e he
      by_cases heq : t = e.1.1
      · rw [← heq, ht] at ht'
        cases ht'
        exact ⟨_, if_pos heq, by simp [hx], horigin ho⟩
      · exact ⟨own', by rw [if_neg heq, ht'], hx, horigin ho⟩
  · intro x own' hx
    rw [template?_registerInstance ht] at hx
    rw [memo_registerInstance ht]
    split at hx
    · rename_i heq
      subst heq
      cases hx
      obtain ⟨hnodup, hlist⟩ := hm.listed t own ht
      refine ⟨List.nodup_append.2 ⟨hnodup, by simp, fun y hy z hz heq => ?_⟩, fun y hy => ?_⟩
      · obtain ⟨fp, he⟩ := hlist y hy
        exact h.unrecorded _ he (heq.trans (List.mem_singleton.1 hz))
      · rcases List.mem_append.1 hy with hy | hy
        · obtain ⟨fp, he⟩ := hlist y hy
          exact ⟨fp, List.mem_cons_of_mem _ he⟩
        · rw [List.mem_singleton.1 hy]
          exact ⟨fingerprint, List.mem_cons_self⟩
    · obtain ⟨hnodup, hlist⟩ := hm.listed x own' hx
      exact ⟨hnodup, fun y hy => (hlist y hy).imp fun _ he => List.mem_cons_of_mem _ he⟩
  · rw [memo_registerInstance ht]
    exact nodup_keys_cons _ hm.keys h.unknown
  · rw [memo_registerInstance ht, List.map_cons, List.nodup_cons]
    refine ⟨fun hk => ?_, hm.values⟩
    obtain ⟨e, he, heq⟩ := List.mem_map.1 hk
    exact h.unrecorded e he heq

end record

/-! ## Scopes without templates -/

/-- A scope belongs to one symbol, and no template is declared in a module that is not being bound. -/
structure Reserved (p : Program) : Prop where
  own : ∀ x y sc, (p.symbol x).ownScope = some sc → (p.symbol y).ownScope = some sc → x = y
  idle : ∀ m own sc, p.module? m = some own → own.status = .idle → (p.symbol m).ownScope = some sc → p.Bare sc

/-- A scope stays without templates while those there were stay where they are. -/
theorem Bare.of_template {sc : ScopeId} (h : p.Bare sc) (hq : ∀ x own, q.template? x = some own →
    (q.symbol x).scope = sc → ∃ own', p.template? x = some own' ∧ (q.symbol x).scope = (p.symbol x).scope) :
    q.Bare sc := by
  intro x own hx hs
  obtain ⟨own', hx', hs'⟩ := hq x own hx hs
  exact h x own' hx' (hs'.symm.trans hs)

/-- What is completed to something else than a template leaves the templates where they are. -/
theorem Bare.setDecl {sc : ScopeId} (h : p.Bare sc) (id : SymbolId) {d : Decl} (hd : ∀ own, d ≠ .template own) :
    (p.setDecl id d).Bare sc := by
  refine h.of_template fun x own hx _ => ?_
  have hx := template?_eq_some.1 hx
  rw [decl_setDecl] at hx
  split at hx
  · exact absurd hx (hd own)
  · exact ⟨own, template?_eq_some.2 hx, by rw [symbol_setDecl, if_neg ‹_›]⟩

theorem Bare.addSymbol {sc : ScopeId} (h : p.Bare sc) {new : Symbol} (hd : ∀ own, new.decl ≠ .template own) :
    (p.addSymbol new).Bare sc := by
  refine h.of_template fun x own hx _ => ?_
  have hx := template?_eq_some.1 hx
  rw [decl_addSymbol] at hx
  split at hx
  · exact absurd hx (hd own)
  · exact ⟨own, template?_eq_some.2 hx, by rw [symbol_addSymbol, if_neg ‹_›]⟩

/-- The next scope belongs to no symbol. -/
theorem Sound.ownScope_ne_next (hp : p.Sound) (x : SymbolId) : (p.symbol x).ownScope ≠ some p.nextScope := fun hx =>
  Nat.lt_irrefl _ ((hp.admits x (lt_of_ownScope hx)).own _ hx).1

theorem Bare.of_addScope (hp : p.Sound) (x : Scope) : (p.addScope x).Bare p.nextScope := by
  intro y own hy hs
  have hlt := (hp.admits y (lt_of_template hy)).scope
  rw [show (p.symbol y).scope = p.nextScope from hs] at hlt
  exact Nat.lt_irrefl _ hlt

/-- The statements of a scope may be declared: nothing of it has been yet. -/
structure Clear (p : Program) (sc : ScopeId) : Prop where
  bare : p.Bare sc
  begun : ∀ m own, p.module? m = some own → (p.symbol m).ownScope = some sc → own.status ≠ .idle

theorem Clear.of_kind (hp : p.Sound) {sc : ScopeId} (hk : (p.scope sc).kind ≠ .module) (h : p.Bare sc) : p.Clear sc :=
  ⟨h, fun _ _ hm hsc => absurd ((hp.module hm).2.1 sc hsc) hk⟩

/-- A module that is not being bound was not before. -/
theorem Later.idle (h : p.Later q) (hp : p.Sound) (hq : q.Sound) {m : SymbolId} {own : ModuleDecl}
    (hlt : m.index < p.symbols.size) (hm : q.module? m = some own) (hi : own.status = .idle) :
    ∃ own', p.module? m = some own' ∧ own'.status = .idle := by
  obtain ⟨own', hm', he⟩ := h.module_of_later hlt hm
  refine ⟨own', hm', (hp.module hm').1.2 ?_⟩
  rcases hentry : own'.entry with _ | e
  · rfl
  · have hnone := (hq.module hm).1.1 hi
    rw [he e hentry] at hnone
    cases hnone

theorem Edit.reserved (hp : p.Sound) (h : p.Edit floor q) (hf : floor.coherent) (hr : p.Reserved) : q.Reserved := by
  have hl := h.later hp
  -- a scope that is given to a symbol is not given to another one
  have hown : ∀ {x y sc}, (q.symbol x).ownScope = some sc → (q.symbol y).ownScope = some sc →
      y.index < p.symbols.size → x.index < p.symbols.size := by
    intro x y sc hx hy hlt
    by_contra hge
    obtain ⟨new, hs, hnew, rfl, -⟩ := h.added hge (lt_of_ownScope hx)
    rw [(symbol_of_pushed hs).1] at hx
    rw [(symbol_of_pushed hs).2 y hlt] at hy
    exact (hnew.own sc hx).2 y hy
  refine ⟨fun x y sc hx hy => ?_, fun m own sc hm hidle hsc => ?_⟩
  · by_cases hlt : x.index < p.symbols.size
    · have hlt' := hown hy hx hlt
      rw [hl.ownScope x hlt] at hx
      rw [hl.ownScope y hlt'] at hy
      exact hr.own x y sc hx hy
    · have hge : ¬ y.index < p.symbols.size := fun hlt' => hlt (hown hx hy hlt')
      obtain ⟨_, -, -, rfl, -⟩ := h.added hlt (lt_of_ownScope hx)
      obtain ⟨_, -, -, rfl, -⟩ := h.added hge (lt_of_ownScope hy)
      rfl
  · by_cases hlt : m.index < p.symbols.size
    · obtain ⟨own', hm', hidle'⟩ := hl.idle hp (h.sound hp) hlt hm hidle
      rw [hl.ownScope m hlt] at hsc
      refine (hr.idle m own' sc hm' hidle' hsc).of_template fun x ownx hx hs => ?_
      rcases h.template_cases hp hx with hx | ⟨-, -, hx⟩
      · exact ⟨ownx, hx, hl.scope x (lt_of_template hx)⟩
      · exact absurd hidle' (hx.begun hf m own' hm' (hs ▸ hsc))
    · obtain ⟨new, hs, hnew, rfl, -⟩ := h.added hlt (lt_of_module hm)
      have hd := module?_eq_some.1 hm
      rw [Program.decl, (symbol_of_pushed hs).1] at hd
      rw [(symbol_of_pushed hs).1] at hsc
      refine ((hnew.module own hd).2 sc hsc).of_template fun y owny hy _ => ?_
      rcases h.template_cases hp hy with hy | ⟨hge, -, -⟩
      · exact ⟨owny, hy, hl.scope y (lt_of_template hy)⟩
      · obtain ⟨_, -, -, rfl, -⟩ := h.added (Nat.not_lt.2 hge) (lt_of_template hy)
        rw [template?_eq_some, Program.decl, (symbol_of_pushed hs).1, hd] at hy
        cases hy

/-- The templates stay where they are when an instance is recorded. -/
theorem template_of_registerInstance {t made : SymbolId} {own : TemplateDecl} {fingerprint : Fingerprint} (hp : p.Sound)
    (ht : p.template? t = some own) {x : SymbolId} {ownx : TemplateDecl}
    (hx : (p.registerInstance t fingerprint made).template? x = some ownx) : ∃ own', p.template? x = some own' ∧
      ((p.registerInstance t fingerprint made).symbol x).scope = (p.symbol x).scope := by
  have hx' : ∃ own', p.template? x = some own' := by
    rw [template?_registerInstance ht] at hx
    split at hx
    · rename_i heq
      exact ⟨own, heq ▸ ht⟩
    · exact ⟨ownx, hx⟩
  obtain ⟨own', hx'⟩ := hx'
  exact ⟨own', hx', (registerInstance_later hp ht).scope x (lt_of_template hx')⟩

theorem registerInstance_reserved {t made : SymbolId} {own : TemplateDecl} {fingerprint : Fingerprint} (hp : p.Sound)
    (ht : p.template? t = some own) (hr : p.Reserved) : (p.registerInstance t fingerprint made).Reserved := by
  have hl : p.Later (p.registerInstance t fingerprint made) := registerInstance_later hp ht
  have hsize : (p.registerInstance t fingerprint made).symbols.size = p.symbols.size := by
    rw [registerInstance_eq ht]
    exact size_symbols_setDecl p _ _
  refine ⟨fun x y sc hx hy => ?_, fun m own' sc hm hidle hsc => ?_⟩
  · rw [hl.ownScope x (hsize ▸ lt_of_ownScope hx)] at hx
    rw [hl.ownScope y (hsize ▸ lt_of_ownScope hy)] at hy
    exact hr.own x y sc hx hy
  · have hlt : m.index < p.symbols.size := hsize ▸ lt_of_module hm
    obtain ⟨own'', hm', hidle'⟩ := hl.idle hp (registerInstance_sound hp ht) hlt hm hidle
    rw [hl.ownScope m hlt] at hsc
    exact (hr.idle m own'' sc hm' hidle' hsc).of_template fun x ownx hx _ => template_of_registerInstance hp ht hx

/-- Every constant that is defined by a literal that may be retyped has the smallest type that holds it. -/
def Natural (p : Program) : Prop := ∀ x tag n, p.decl x = .constAlias tag n → (p.node n).IsNatural

/-- What defines a constant is not retyped. -/
theorem Later.isNatural (h : p.Later q) (hp : p.Sound) {x : SymbolId} {tag : AliasTag} {n : NodeId}
    (hx : p.decl x = .constAlias tag n) (hn : (p.node n).IsNatural) : (q.node n).IsNatural := by
  unfold Node.IsNatural
  rw [h.kind n (hp.inOrder_of_decl hx (by simp)), h.constant x tag n hx]
  exact hn

/-- The constants that there were are among those that there are. -/
theorem Later.natural_of_later (h : p.Later q) (hp : p.Sound) (hn : q.Natural) : p.Natural := by
  intro x tag n hx
  have hlt := lt_of_decl (show p.decl x ≠ .builtin .void by rw [hx]; simp)
  have hnat := hn x tag n (by rw [h.decl_eq (by rw [hx]; rfl) (by rw [hx]; simp), hx])
  unfold Node.IsNatural at hnat ⊢
  rwa [h.kind n (hp.inOrder_of_decl hx (by simp)), h.constant x tag n hx] at hnat

theorem Edit.natural (hp : p.Sound) (h : p.Edit floor q) (hf : floor.coherent) (hn : p.Natural) : q.Natural := by
  intro x tag n hx
  by_cases hlt : x.index < p.symbols.size
  · have hold := (h.later hp).constAlias_of_later hlt hx
    exact (h.later hp).isNatural hp hold (hn x tag n hold)
  · obtain ⟨new, hs, hnew, rfl, hnodes⟩ := h.added hlt (lt_of_decl (by rw [hx]; simp))
    rw [Program.decl, (symbol_of_pushed hs).1] at hx
    rw [Program.node, hnodes]
    exact (hnew.constant tag n hx).2.1 hf

/-- The memo and the templates agree, modules that are not being bound have no templates, and constants have the types
that their literals came with. -/
structure Coherent (p : Program) : Prop where
  memoized : p.Memoized
  reserved : p.Reserved
  natural : p.Natural

theorem Edit.coherent (hp : p.Sound) (h : p.Edit floor q) (hf : floor.coherent) (hc : p.Coherent) : q.Coherent :=
  ⟨h.memoized hp hf hc.memoized, h.reserved hp hf hc.reserved, h.natural hp hf hc.natural⟩

theorem Enters.coherent {t made : SymbolId} {fingerprint : Fingerprint} (hp : p.Sound)
    (h : p.Enters t fingerprint made) (hc : p.Coherent) : (p.registerInstance t fingerprint made).Coherent := by
  obtain ⟨own, ht⟩ := Option.isSome_iff_exists.1 h.declared
  have hl : p.Later (p.registerInstance t fingerprint made) := registerInstance_later hp ht
  refine ⟨h.memoized hc.memoized, registerInstance_reserved hp ht hc.reserved, fun x tag n hx => ?_⟩
  have hlt : x.index < p.symbols.size := by
    have := lt_of_decl (show _ ≠ Decl.builtin .void by rw [hx]; simp)
    rwa [registerInstance_eq ht, size_symbols_setDecl] at this
  have hold := hl.constAlias_of_later hlt hx
  exact hl.isNatural hp hold (hc.natural x tag n hold)

end Program

end Bindery
