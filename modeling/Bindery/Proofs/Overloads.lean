import Bindery.Proofs.ScopeGraph
/-!
# Overload sets

The templates of one name in one scope stand side by side in an overload set. The name leads to the set and to no template
in it; so a template is in one set at most, and never becomes a set itself. A template that joins others is put behind
them, and what is listed stays in its order.
-/
namespace Bindery

namespace Program

variable {p q : Program} {floor : Floor} {x t : SymbolId} {templates : List SymbolId}

/-! ## What sets list -/

/-- The arity of a template. -/
def arity? (p : Program) (t : SymbolId) : Option Arity := (p.template? t).map (·.arity)

/-- What an overload set lists: two or more templates with its name and place, of different arities. The set has the
place of the first one; those behind it are newer than the set and stand in the order in which they were added. -/
structure Listing (p : Program) (x : SymbolId) (templates : List SymbolId) : Prop where
  several : 2 ≤ templates.length
  template : ∀ t ∈ templates, (p.template? t).isSome
  ne : ∀ t ∈ templates, t ≠ x
  name : ∀ t ∈ templates, (p.symbol t).name = (p.symbol x).name
  scope : ∀ t ∈ templates, (p.symbol t).scope = (p.symbol x).scope
  arities : (templates.map p.arity?).Nodup
  order : (x :: templates.tail).Pairwise (·.index < ·.index)
  named : (p.scope (p.symbol x).scope).find? (p.symbol x).name = some x

/-- Every overload set lists templates. -/
def Overloaded (p : Program) : Prop := ∀ x templates, p.decl x = .overloadSet templates → p.Listing x templates

theorem Listing.nodup (h : p.Listing x templates) : templates.Nodup := .of_map _ h.arities

/-- A template is in one set at most. -/
theorem Listing.unique {y : SymbolId} {others : List SymbolId} (h : p.Listing x templates) (h' : p.Listing y others)
    (ht : t ∈ templates) (ht' : t ∈ others) : x = y := by
  have hx := h.named
  rw [← h.name t ht, ← h.scope t ht, h'.name t ht', h'.scope t ht', h'.named] at hx
  exact (Option.some.inj hx).symm

/-- A name leads to a symbol of that name and place. -/
theorem Charted.found (h : p.Charted) {sc : ScopeId} {name : String} (hf : (p.scope sc).find? name = some x) :
    x.index < p.symbols.size ∧ (p.symbol x).name = name ∧ (p.symbol x).scope = sc := by
  refine h.entries sc (name, x) (List.mem_append.2 ?_)
  unfold Scope.find? Scope.get? Scope.getOther? at hf
  rcases hs : (p.scope sc).symbols.lookup name with _ | y <;> rw [hs] at hf
  · exact .inr (mem_of_lookup hf)
  · cases hf
    exact .inl (mem_of_lookup hs)

/-- A template that is listed stays listed while the templates keep their arities. -/
theorem Listing.later (h : p.Listing x templates) (hl : p.Later q) (hx : x.index < p.symbols.size)
    (ha : ∀ t ∈ templates, (q.template? t).isSome ∧ q.arity? t = p.arity? t) : q.Listing x templates where
  several := h.several
  template t ht := (ha t ht).1
  ne := h.ne
  name t ht := by
    obtain ⟨own, ho⟩ := Option.isSome_iff_exists.1 (h.template t ht)
    rw [hl.name t (lt_of_template ho), hl.name x hx, h.name t ht]
  scope t ht := by
    obtain ⟨own, ho⟩ := Option.isSome_iff_exists.1 (h.template t ht)
    rw [hl.scope t (lt_of_template ho), hl.scope x hx, h.scope t ht]
  arities := by
    rw [List.map_congr_left fun t ht => (ha t ht).2]
    exact h.arities
  order := h.order
  named := by
    rw [hl.name x hx, hl.scope x hx]
    exact hl.find _ _ _ h.named

/-- A template that its name does not lead to stays what it is. -/
theorem Edit.template_of_named (h : p.Edit floor q) (hc : p.Charted) {own : TemplateDecl} (ht : p.template? t = some own)
    (hn : (p.scope (p.symbol t).scope).find? (p.symbol t).name = some x) (hne : t ≠ x) : q.template? t = some own := by
  have hd := template?_eq_some.1 ht
  rcases h.decl_cases (lt_of_template ht) with hq | hq
  · rw [template?_eq_some, hq, hd]
  -- a template is completed to a set only, and its name leads to it then
  have hl := hq.later
  rw [hd] at hl
  generalize hd' : q.decl t = d at hl
  cases hl with
  | refl => exact template?_eq_some.2 hd'
  | template => exact absurd hd' ((hq.template own hd).2 _)
  | overload =>
    cases hq.overloads _ hd' with
    | first _ _ hj =>
      obtain ⟨-, hname, hsc⟩ := hc.found hj.named
      rw [hname, hsc, hj.named] at hn
      exact absurd (Option.some.inj hn) hne
    | next hset => cases hset.symm.trans hd

theorem Listing.edit (h : p.Listing x templates) (he : p.Edit floor q) (hp : p.Sound) (hc : p.Charted)
    (hx : x.index < p.symbols.size) : q.Listing x templates := by
  refine h.later (he.later hp) hx fun t ht => ?_
  obtain ⟨own, ho⟩ := Option.isSome_iff_exists.1 (h.template t ht)
  have hq := he.template_of_named hc ho (by rw [h.name t ht, h.scope t ht, h.named]) (h.ne t ht)
  simp [arity?, ho, hq]

theorem Joins.isSome {listed : List SymbolId} (h : p.Joins x listed t) : (p.template? t).isSome := by
  obtain ⟨own, ho, -⟩ := h.arity
  rw [ho]
  rfl

/-- A template that joins others differs from them in its arity. -/
theorem Joins.arity?_ne {listed : List SymbolId} (h : p.Joins x listed t) {u : SymbolId} (hu : u ∈ listed)
    (ht : (p.template? u).isSome) : p.arity? u ≠ p.arity? t := by
  obtain ⟨own, ho, hne⟩ := h.arity
  obtain ⟨own', ho'⟩ := Option.isSome_iff_exists.1 ht
  simpa [arity?, ho, ho'] using hne u hu own' ho'

/-- The first two templates of a name: one that moved, and one that joins it. -/
theorem Copied.listing {moved added : SymbolId} (hm : p.Copied x moved) (hc : p.Charted) (hx : (p.template? x).isSome)
    (hlt : x.index < p.symbols.size) (hj : p.Joins x [moved] added) (hlast : added.index + 2 = p.symbols.size) :
    p.Listing x [moved, added] := by
  obtain ⟨-, hname, hsc⟩ := hc.found hj.named
  have hmoved : (p.template? moved).isSome := by rwa [hm.template]
  have harity := hj.arity?_ne List.mem_cons_self hmoved
  have hadded : added ≠ x := by
    rintro rfl
    rw [arity?, arity?, hm.template] at harity
    exact harity rfl
  refine ⟨Nat.le_refl 2, ?_, ?_, ?_, ?_, ?_, ?_, by rw [hname, hsc, hj.named]⟩
  · simp [hmoved, hj.isSome]
  · simp [hm.ne, hadded]
  · simp [hm.name, hname]
  · simp [hm.scope, hsc]
  · simpa using harity
  · have h1 : x.index ≠ moved.index := fun h => hm.ne (SymbolId.ext h).symm
    have h2 : x.index ≠ added.index := fun h => hadded (SymbolId.ext h).symm
    have := hm.last
    simp only [List.tail_cons, List.pairwise_cons, List.mem_singleton, forall_eq, List.not_mem_nil, false_implies,
      implies_true, List.Pairwise.nil, and_true]
    omega

/-- A template that joins a set comes to stand behind the others, as the newest symbol. -/
theorem Listing.append {added : SymbolId} (h : p.Listing x templates) (hc : p.Charted) (hx : x.index < p.symbols.size)
    (hadded : added ≠ x) (hj : p.Joins x templates added) (hlast : added.index + 1 = p.symbols.size) :
    p.Listing x (templates ++ [added]) := by
  obtain ⟨-, hname, hsc⟩ := hc.found hj.named
  have hne : ∀ t ∈ templates, t ≠ added := by
    rintro t ht rfl
    exact hj.arity?_ne ht hj.isSome rfl
  refine ⟨?_, ?_, ?_, ?_, ?_, ?_, ?_, h.named⟩
  · have := h.several
    simp only [List.length_append, List.length_singleton]
    omega
  · exact List.forall_mem_append.2 ⟨h.template, by simpa using hj.isSome⟩
  · exact List.forall_mem_append.2 ⟨h.ne, by simpa using hadded⟩
  · exact List.forall_mem_append.2 ⟨h.name, by simp [hname]⟩
  · exact List.forall_mem_append.2 ⟨h.scope, by simp [hsc]⟩
  · rw [List.map_append, List.nodup_append]
    refine ⟨h.arities, by simp, ?_⟩
    simp only [List.mem_map, List.map_cons, List.map_nil, List.mem_singleton, forall_eq, forall_exists_index, and_imp,
      forall_apply_eq_imp_iff₂]
    exact fun u hu => hj.arity?_ne hu (h.template u hu)
  · have hnil : templates ≠ [] := List.ne_nil_of_length_pos (Nat.lt_of_lt_of_le (by decide) h.several)
    have hlt : ∀ t : SymbolId, t.index < p.symbols.size → t ≠ added → t.index < added.index := fun t ht hne => by
      have : t.index ≠ added.index := fun h => hne (SymbolId.ext h)
      omega
    rw [List.tail_append_of_ne_nil hnil, ← List.cons_append, List.pairwise_append]
    refine ⟨h.order, by simp, ?_⟩
    simp only [List.mem_singleton, forall_eq, List.forall_mem_cons]
    refine ⟨hlt x hx hadded.symm, fun t ht => ?_⟩
    have hmem := List.mem_of_mem_tail ht
    obtain ⟨own, htemplate⟩ := Option.isSome_iff_exists.1 (h.template t hmem)
    exact hlt t (lt_of_template htemplate) (hne t hmem)

/-- **What a set comes to list are templates of different arities**, in the order in which they were added. -/
theorem Gathers.listing (h : p.Gathers x templates) (hc : p.Charted) (ho : p.Overloaded)
    (hx : x.index < p.symbols.size) : p.Listing x templates := by
  cases h with
  | first hd hm hj hlast => exact hm.listing hc (by rw [template?_eq_some.2 hd]; rfl) hx hj hlast
  | next hd hj hlast =>
    refine (ho x _ hd).append hc hx ?_ hj hlast
    rintro rfl
    have := hj.isSome
    rw [template?, hd] at this
    cases this

/-- **A change keeps the overload sets.** -/
theorem Edit.overloaded (h : p.Edit floor q) (hp : p.Sound) (hc : p.Charted) (ho : p.Overloaded) : q.Overloaded := by
  intro x templates hx
  by_cases hlt : x.index < p.symbols.size
  · rcases h.decl_cases hlt with hd | hd
    · exact (ho x templates (hd ▸ hx)).edit h hp hc hlt
    · exact ((hd.overloads templates hx).listing hc ho hlt).edit h hp hc hlt
  · obtain ⟨new, hs, hnew, rfl, -⟩ := h.added hlt (lt_of_decl (by rw [hx]; simp))
    rw [Program.decl, (symbol_of_pushed hs).1] at hx
    exact absurd hx (hnew.overloads templates)

/-! ## Templates that are listed -/

theorem candidates_of_template {own : TemplateDecl} (h : p.decl x = .template own) : p.candidates x = [x] := by
  rw [candidates, h]

theorem candidates_of_set (h : p.decl x = .overloadSet templates) : p.candidates x = templates := by
  rw [candidates, h]

/-- What some templates were declared by. -/
def sourcesOf (p : Program) (templates : List SymbolId) : List TemplateSource :=
  templates.filterMap fun t => (p.template? t).map (·.source)

/-- The sources of the templates that a name stands for in a scope, as they are listed. -/
def sources (p : Program) (sc : ScopeId) (name : String) : List TemplateSource :=
  match (p.scope sc).find? name with
  | some x => p.sourcesOf (p.candidates x)
  | none => []

theorem sourcesOf_congr (h : ∀ t ∈ templates, q.template? t = p.template? t) :
    q.sourcesOf templates = p.sourcesOf templates := List.filterMap_congr fun t ht => by rw [h t ht]

section record

variable {own : TemplateDecl} {fingerprint : Fingerprint} {made : SymbolId}

/-- An instance that is recorded leaves what was declared. -/
theorem sources_registerInstance (ht : p.template? t = some own) (sc : ScopeId) (name : String) :
    (p.registerInstance t fingerprint made).sources sc name = p.sources sc name := by
  have hscope : (p.registerInstance t fingerprint made).scope sc = p.scope sc := by
    rw [registerInstance_eq ht]
    rfl
  have hcandidates : ∀ x, (p.registerInstance t fingerprint made).candidates x = p.candidates x := fun x => by
    rw [candidates, decl_registerInstance ht, candidates]
    by_cases h : t = x
    · rw [if_pos h, ← h, template?_eq_some.1 ht]
    · rw [if_neg h]
  have hsources : ∀ templates, (p.registerInstance t fingerprint made).sourcesOf templates = p.sourcesOf templates :=
    fun templates => List.filterMap_congr fun u _ => by
      rw [template?_registerInstance ht]
      split
      · rename_i h
        rw [← h, ht]
        rfl
      · rfl
  unfold sources
  rw [hscope]
  split
  · rw [hcandidates, hsources]
  · rfl

end record

/-- What a name stands for stays while the templates under it do. -/
theorem sources_eq {sc : ScopeId} {name : String} (hf : (q.scope sc).find? name = (p.scope sc).find? name)
    (hx : ∀ x, (p.scope sc).find? name = some x → q.candidates x = p.candidates x ∧
      ∀ t ∈ p.candidates x, q.template? t = p.template? t) : q.sources sc name = p.sources sc name := by
  unfold sources
  rw [hf]
  cases hfound : (p.scope sc).find? name with
  | none => rfl
  | some x =>
    obtain ⟨hc, ht⟩ := hx x hfound
    dsimp only
    rw [hc, sourcesOf_congr ht]

/-- Programs with the same declarations and names list the same. -/
theorem sources_of_decls (hp : p.Sound) {sc : ScopeId} {name : String}
    (hf : (q.scope sc).find? name = (p.scope sc).find? name)
    (hd : ∀ x : SymbolId, x.index < p.symbols.size → q.decl x = p.decl x) : q.sources sc name = p.sources sc name := by
  refine sources_eq hf fun x hx => ⟨?_, fun t ht => ?_⟩
  · rw [candidates, hd x (hp.names _ _ _ hx).1, candidates]
  · rw [template?, hd t (hp.lt_of_mem_candidates ht), template?]

/-- What stands for templates keeps doing so. -/
theorem candidates_eq_nil {d : Decl} (hl : (p.decl x).Later d) (ht : ∀ own, d ≠ .template own)
    (hs : ∀ templates, d ≠ .overloadSet templates) : p.candidates x = [] := by
  unfold candidates
  generalize p.decl x = before at hl
  cases hl with
  | refl =>
    split
    · exact absurd rfl (ht _)
    · exact absurd rfl (hs _)
    · rfl
  | template => exact absurd rfl (ht _)
  | overload | overloadSet => exact absurd rfl (hs _)
  | _ => rfl

/-- **A change keeps the templates under a name in their order**; others come behind them. -/
theorem Edit.sources_prefix (h : p.Edit floor q) (hp : p.Sound) (hc : p.Charted) (ho : p.Overloaded) (sc : ScopeId)
    (name : String) : p.sources sc name <+: q.sources sc name := by
  unfold sources
  cases hf : (p.scope sc).find? name with
  | none => exact List.nil_prefix
  | some x =>
    rw [(h.later hp).find _ _ _ hf]
    obtain ⟨hlt, hname, hsc⟩ := hc.found hf
    have hkeep : ∀ t, t ≠ x → (p.symbol t).name = (p.symbol x).name → (p.symbol t).scope = (p.symbol x).scope →
        (p.template? t).isSome → q.template? t = p.template? t := fun t hne hn hs ht => by
      obtain ⟨own, ht⟩ := Option.isSome_iff_exists.1 ht
      rw [ht, h.template_of_named hc ht (by rw [hn, hs, hname, hsc, hf]) hne]
    have hlisted : ∀ templates, p.decl x = .overloadSet templates → q.sourcesOf templates = p.sourcesOf templates :=
      fun templates hd => sourcesOf_congr fun t ht => hkeep t ((ho x _ hd).ne t ht) ((ho x _ hd).name t ht)
        ((ho x _ hd).scope t ht) ((ho x _ hd).template t ht)
    dsimp only
    rcases h.decl_cases hlt with hd | hd
    · rw [show q.candidates x = p.candidates x by rw [candidates, hd, candidates]]
      suffices hsame : q.sourcesOf (p.candidates x) = p.sourcesOf (p.candidates x) from
        ⟨[], by rw [List.append_nil, hsame]⟩
      cases hx : p.decl x with
      | template own =>
        rw [candidates_of_template hx]
        exact sourcesOf_congr fun t ht => by rw [List.mem_singleton.1 ht, template?, hd, template?]
      | overloadSet templates =>
        rw [candidates_of_set hx]
        exact hlisted templates hx
      | _ =>
        rw [show p.candidates x = [] by rw [candidates, hx]]
        rfl
    by_cases hset : ∃ templates, q.decl x = .overloadSet templates
    · obtain ⟨templates, hset⟩ := hset
      rw [candidates_of_set hset]
      cases hd.overloads templates hset with
      | @first own moved added hx hm hj hlast =>
        have hown := template?_eq_some.2 hx
        have hmoved : q.template? moved = some own := by
          rw [hkeep moved hm.ne hm.name hm.scope (by rw [hm.template, hown]; rfl), hm.template, hown]
        rw [candidates_of_template hx]
        exact ⟨q.sourcesOf [added], by simp [sourcesOf, hown, hmoved]⟩
      | @next listed added hx hj hlast =>
        rw [candidates_of_set hx, ← hlisted listed hx]
        exact ⟨q.sourcesOf [added], by simp [sourcesOf]⟩
    · rw [candidates_eq_nil hd.later (fun own htemplate => ?_) fun templates hs => hset ⟨templates, hs⟩]
      · exact List.nil_prefix
      · obtain ⟨own', ht⟩ := (h.later hp).template_of_later hlt (template?_eq_some.2 htemplate)
        exact (hd.template own' (template?_eq_some.1 ht)).2 own htemplate

/-- Under each name of a scope, templates were put behind those that were there; their sources are some of a list, in its
order. -/
def Enlists (p q : Program) (sc : ScopeId) (sources : List TemplateSource) : Prop :=
  ∀ name, ∃ new, new.Sublist sources ∧ q.sources sc name = p.sources sc name ++ new

theorem Enlists.of_eq {sc : ScopeId} {l : List TemplateSource} (h : ∀ name, q.sources sc name = p.sources sc name) :
    p.Enlists q sc l := fun name => ⟨[], List.nil_sublist _, by rw [h, List.append_nil]⟩

theorem Enlists.mono {sc : ScopeId} {l l' : List TemplateSource} (h : p.Enlists q sc l) (hl : l.Sublist l') :
    p.Enlists q sc l' := fun name => by
  obtain ⟨new, hnew, hq⟩ := h name
  exact ⟨new, hnew.trans hl, hq⟩

theorem Enlists.trans {r : Program} {sc : ScopeId} {l l' : List TemplateSource} (h : p.Enlists q sc l)
    (h' : q.Enlists r sc l') : p.Enlists r sc (l ++ l') := by
  intro name
  obtain ⟨new, hl, hq⟩ := h name
  obtain ⟨new', hl', hr⟩ := h' name
  exact ⟨new ++ new', hl.append hl', by rw [hr, hq, List.append_assoc]⟩

/-- What is declared under a new name stands alone under it. -/
theorem enlists_declare (hp : p.Sound) (new : Symbol) {l : List TemplateSource} (hsc : new.scope.index < p.scopes.size)
    (hnone : (p.scope new.scope).find? new.name = none)
    (hl : (p.addSymbol new).sourcesOf ((p.addSymbol new).candidates p.nextSymbol) = l) :
    p.Enlists ((p.addSymbol new).modifyScope new.scope (·.insert new.name p.nextSymbol)) new.scope l := by
  intro name
  have hfind : (((p.addSymbol new).modifyScope new.scope (·.insert new.name p.nextSymbol)).scope new.scope).find? name =
      if name = new.name then some p.nextSymbol else (p.scope new.scope).find? name := by
    rw [scope_modifyScope, if_pos ⟨rfl, hsc⟩, scope_addSymbol, Scope.find?_insert hnone]
  by_cases hn : name = new.name
  · subst hn
    rw [if_pos rfl] at hfind
    refine ⟨l, List.Sublist.refl _, ?_⟩
    simp only [sources, hfind, hnone, List.nil_append]
    exact hl
  · rw [if_neg hn] at hfind
    refine ⟨[], List.nil_sublist _, ?_⟩
    rw [List.append_nil]
    exact sources_of_decls hp hfind fun y hy => decl_addSymbol_of_lt p new hy

theorem scope_addOverload (p : Program) (x added : SymbolId) (sc : ScopeId) :
    (p.addOverload x added).scope sc = p.scope sc := by
  unfold addOverload
  split <;> rfl

theorem decl_addOverload_of_ne (p : Program) {x y : SymbolId} (added : SymbolId) (hne : y ≠ x)
    (hy : y.index < p.symbols.size) : (p.addOverload x added).decl y = p.decl y := by
  unfold addOverload
  split
  · exact decl_setDecl_of_ne p _ hne.symm
  · exact (decl_setDecl_of_ne _ _ hne.symm).trans (decl_addSymbol_of_lt p _ hy)

theorem decl_addOverload_set (p : Program) (added : SymbolId) (hx : p.decl x = .overloadSet templates) :
    (p.addOverload x added).decl x = .overloadSet (templates ++ [added]) := by
  rw [addOverload, hx]
  exact decl_setDecl_self p _ (lt_of_decl (by rw [hx]; simp))

/-- **A template that joins others is put behind them.** -/
theorem sources_addOverload (hp : p.Sound) (ho : p.Overloaded) {sc : ScopeId} {name : String} {added : SymbolId}
    {own : TemplateDecl} (hfound : (p.scope sc).find? name = some x) (hadded : p.template? added = some own)
    (hne : added ≠ x) (hx : (∃ own, p.decl x = .template own) ∨ ∃ templates, p.decl x = .overloadSet templates) :
    (p.addOverload x added).sources sc name = p.sources sc name ++ [own.source] := by
  have hlt := (hp.names _ _ _ hfound).1
  have hadded' : (p.addOverload x added).template? added = some own := by
    rw [template?, decl_addOverload_of_ne p added hne (lt_of_template hadded), ← template?, hadded]
  simp only [sources, scope_addOverload, hfound]
  rcases hx with ⟨first, hd⟩ | ⟨templates, hd⟩
  · -- the first template of the name has moved
    have hmoved : (p.addOverload x added).template? p.nextSymbol = some first := by
      unfold addOverload
      rw [hd, template?_eq_some]
      refine (decl_setDecl_of_ne _ _ fun h => ?_).trans (decl_addSymbol_next p _)
      rw [h] at hlt
      exact Nat.lt_irrefl _ hlt
    have hset : (p.addOverload x added).decl x = .overloadSet [p.nextSymbol, added] := by
      rw [addOverload, hd]
      exact decl_setDecl_self _ _ (Nat.lt_succ_of_lt hlt |>.trans_eq (size_symbols_addSymbol _ _).symm)
    rw [candidates_of_set hset, candidates_of_template hd]
    simp [sourcesOf, hmoved, hadded', template?_eq_some.2 hd]
  · have hsame : ∀ t ∈ templates, (p.addOverload x added).template? t = p.template? t := fun t ht => by
      have hlt := hp.lt_of_mem_candidates ((candidates_of_set hd).symm ▸ ht)
      rw [template?, decl_addOverload_of_ne p added ((ho x templates hd).ne t ht) hlt, template?]
    rw [candidates_of_set (decl_addOverload_set p added hd), candidates_of_set hd, sourcesOf, List.filterMap_append,
      ← sourcesOf, sourcesOf_congr hsame]
    simp [hadded']

/-- What other names stand for stays. -/
theorem sources_addOverload_of_ne (hp : p.Sound) (hc : p.Charted) (ho : p.Overloaded) {sc : ScopeId}
    {name : String} {added : SymbolId} (hn : (p.symbol x).name ≠ name) :
    (p.addOverload x added).sources sc name = p.sources sc name := by
  refine sources_eq (by rw [scope_addOverload]) fun y hy => ?_
  obtain ⟨hlt, hname, -⟩ := hc.found hy
  have hne : y ≠ x := by
    rintro rfl
    exact hn hname
  refine ⟨by rw [candidates, decl_addOverload_of_ne p added hne hlt, candidates], fun t ht => ?_⟩
  have htx : t ≠ x := by
    rintro rfl
    unfold candidates at ht
    split at ht
    · exact hne (List.mem_singleton.1 ht).symm
    · exact hn (((ho y _ ‹_›).name t ht).trans hname)
    · cases ht
  rw [template?, decl_addOverload_of_ne p added htx (hp.lt_of_mem_candidates ht), template?]

end Program

namespace BindState

variable {options : BindOptions} {names : NameTable} {floor : Floor} {s t : BindState}

/-- A sound state whose tables of names are in order and whose overload sets list templates. -/
structure Arranged (s : BindState) : Prop where
  sound : s.Sound
  charted : s.program.Charted
  overloaded : s.program.Overloaded

/-- **A step keeps the overload sets.** -/
theorem Step.arranged (h : Step floor s t) (hs : s.Arranged) : t.Arranged := by
  refine ⟨h.sound hs.sound, h.charted hs.sound hs.charted, ?_⟩
  cases h with
  | edit program he => exact he.overloaded hs.sound.program hs.charted hs.overloaded
  | quiet => exact hs.overloaded
  | record template fingerprint made _ _ he =>
    obtain ⟨own, ht⟩ := Option.isSome_iff_exists.1 he.declared
    intro x templates hx
    have hl : s.program.Later (s.program.registerInstance template fingerprint made) :=
      Program.registerInstance_later hs.sound.program ht
    have hd : s.program.decl x = .overloadSet templates := by
      have hx : (s.program.registerInstance template fingerprint made).decl x = _ := hx
      rw [Program.decl_registerInstance ht] at hx
      split at hx
      · cases hx
      · exact hx
    refine (hs.overloaded x templates hd).later hl (Program.lt_of_decl (by rw [hd]; simp)) fun u hu => ?_
    obtain ⟨own', ho⟩ := Option.isSome_iff_exists.1 ((hs.overloaded x templates hd).template u hu)
    show (Program.template? _ u).isSome ∧ Program.arity? _ u = _
    rw [Program.arity?, Program.template?_registerInstance ht, Program.arity?]
    split
    · rename_i heq
      subst heq
      simp [ht]
    · simp [ho]

theorem Steps.arranged (h : Steps floor s t) (hs : s.Arranged) : t.Arranged := by
  induction h with
  | refl => exact hs
  | tail _ hstep ih => exact hstep.arranged ih

theorem initial_arranged (options : BindOptions) (names : NameTable) : (initial options names).Arranged := by
  refine ⟨initial_sound options names, Program.initial_charted _, fun x templates hx => ?_⟩
  obtain ⟨own, hd⟩ := Program.decl_initial options.pointerWidth x
  cases hd.symm.trans hx

theorem Reached.arranged (h : Reached options names s) : s.Arranged := Steps.arranged h (initial_arranged options names)

/-- **A step keeps the templates under a name in their order**; others come behind them. -/
theorem Step.sources_prefix (h : Step floor s t) (hs : s.Arranged) (sc : ScopeId) (name : String) :
    s.program.sources sc name <+: t.program.sources sc name := by
  cases h with
  | edit program he => exact he.sources_prefix hs.sound.program hs.charted hs.overloaded sc name
  | quiet => exact List.prefix_rfl
  | record template fingerprint made _ _ he =>
    obtain ⟨own, ht⟩ := Option.isSome_iff_exists.1 he.declared
    exact ⟨[], (List.append_nil _).trans (Program.sources_registerInstance ht sc name).symm⟩

theorem Steps.sources_prefix (h : Steps floor s t) (hs : s.Arranged) (sc : ScopeId) (name : String) :
    s.program.sources sc name <+: t.program.sources sc name := by
  induction h with
  | refl => exact List.prefix_rfl
  | tail hsteps hstep ih => exact ih.trans (hstep.sources_prefix (Steps.arranged hsteps hs) sc name)

end BindState

end Bindery
