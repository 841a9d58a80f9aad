import Bindery.Proofs.Nodes
import Bindery.Proofs.Symbols
/-!
# Names and captures

A name that is looked up leads to a variable in sight: one of a scope around the place, or an exposed one. When no
function lies between the place and the variable it is read as it is; otherwise every closure on the way keeps it in a
field, and the node goes through as many closures as functions were crossed.
-/
namespace Bindery

namespace Program

variable {p : Program} {sc : ScopeId} {x : SymbolId}

/-! ## What names lead to -/

section sound

variable (hp : p.Sound)
include hp

/-- An alias stands for a symbol that is none. -/
theorem Sound.alias {tag : AliasTag} {t : SymbolId} (hd : p.decl x = .valueAlias tag t) :
    t.index < p.symbols.size ∧ (∀ tag u, p.decl t ≠ .valueAlias tag u) ∧ p.InSight (p.symbol x).scope t :=
  hp.inOrder_of_decl hd (by simp)

theorem Sound.resolveAlias_cases (x : SymbolId) :
    (∃ tag, p.decl x = .valueAlias tag (p.resolveAlias x)) ∨
      (∀ tag t, p.decl x ≠ .valueAlias tag t) ∧ p.resolveAlias x = x := by
  obtain ⟨n, hn⟩ : ∃ n, p.symbols.size = n + 1 := Nat.exists_eq_succ_of_ne_zero (Nat.ne_of_gt hp.standard.size)
  rw [resolveAlias, hn, resolveAliasUpTo]
  split
  · rename_i tag t hd
    refine .inl ⟨tag, ?_⟩
    rw [resolveAliasUpTo, hd]
    split
    · rename_i tag' u hu
      exact absurd hu ((hp.alias hd).2.1 tag' u)
    · rfl
  · rename_i hne
    exact .inr ⟨hne, rfl⟩

/-- What an alias stands for is in the table and no alias. -/
theorem Sound.resolveAlias_spec (hx : x.index < p.symbols.size) :
    (p.resolveAlias x).index < p.symbols.size ∧ ∀ tag t, p.decl (p.resolveAlias x) ≠ .valueAlias tag t := by
  rcases hp.resolveAlias_cases x with ⟨tag, hd⟩ | ⟨hne, hself⟩
  · exact ⟨(hp.alias hd).1, (hp.alias hd).2.1⟩
  · rw [hself]
    exact ⟨hx, hne⟩

/-- What a name leads to is in sight if what the name itself stands for is, and the target of an alias. -/
theorem Sound.inSight_resolveAlias (hx : p.InSight sc x) (ha : ∀ tag t, p.decl x = .valueAlias tag t → p.InSight sc t) :
    p.InSight sc (p.resolveAlias x) := by
  rcases hp.resolveAlias_cases x with ⟨tag, hd⟩ | ⟨-, hself⟩
  · exact ha tag _ hd
  · rwa [hself]

/-- **What a name leads to where it is looked up is in sight.** -/
theorem Sound.inSight_of_lookup {name : String} (hl : p.lookup? sc name = some x) :
    x.index < p.symbols.size ∧ p.InSight sc (p.resolveAlias x) := by
  obtain ⟨a, ha, hf⟩ := List.exists_of_findSome?_eq_some hl
  obtain ⟨hlt, hs⟩ := hp.names a name x hf
  refine ⟨hlt, hp.inSight_resolveAlias (fun _ => .inl (by rwa [hs])) fun tag t hd hv => ?_⟩
  refine ((hp.alias hd).2.2 hv).imp_left fun ht => ?_
  rw [hs] at ht
  exact ancestors_trans hp.nested ha ht

/-- The members of a struct, an enum or a module, and those of a function that are no variables. -/
theorem Sound.inSight_of_member (sc : ScopeId) {a : ScopeId} {name : String} (hb : (p.scope a).kind ≠ .block)
    (hm : p.member? a name = some x) (hf : (p.decl x).isVariable → (p.scope a).kind ≠ .function) :
    x.index < p.symbols.size ∧ p.InSight sc (p.resolveAlias x) := by
  obtain ⟨hlt, hs⟩ := hp.names a name x hm
  refine ⟨hlt, hp.inSight_resolveAlias (fun hv => .inr (.early fun f hh => ?_)) fun tag t hd _ => .inr ?_⟩
  · -- no function has its statements in such a scope, and no variable is declared right in a module
    have hk : (p.scope a).kind ≠ .module := by
      have hin := (hp.admits x hlt).inOrder
      unfold InOrder at hin
      rw [← hs]
      rcases hd : p.decl x <;> rw [hd] at hv <;> cases hv <;> rw [show (p.symbol x).decl = _ from hd] at hin <;> exact hin
    obtain ⟨hfun, R, hR, hown⟩ := hh
    rw [hs, region?_of_ne_block p hb] at hR
    cases hR
    obtain ⟨own, hfun⟩ := Option.isSome_iff_exists.1 hfun
    rcases hown with ho | ⟨m, own', hmod, -, ho⟩
    · exact absurd (((hp.admits f (lt_of_ownScope ho)).own a ho).2.2.2 ⟨own, function?_eq_some.1 hfun⟩) (hf hv)
    · exact absurd ((hp.module hmod).2.1 a ho) hk
  · exact .aliased x tag hd (by rwa [hs])

end sound

end Program

namespace BindM

variable {k : Nat} {c g : Context} {s : BindState}

/-! ## Captures -/

/-- The field that a closure keeps a variable in is filled from what its place says. -/
theorem captureField_ends {owner origin source : SymbolId} {ty : Ty} {pos : Span} {sc : ScopeId} (hg : Ready k g s)
    (hk : ∀ index captured, s.program.Keeping { ty, owner, index, captured } { origin, source })
    (hs : (s.program.symbol owner).ownScope = some sc)
    (hc : ∀ f ∈ s.program.functionsUpTo sc (s.program.symbol origin).scope, s.program.mayCapture f) :
    Ends (captureField owner origin source ty pos) c s (At k s) fun field t => t.program.scopes = s.program.scopes ∧
      t.program.captureOf? owner origin = some field ∧ t.program.Stores origin source ⟨sc, field⟩ := by
  obtain ⟨hclosure, hty, -, hlink⟩ := hk 0 none
  have ⟨struct, hd, _⟩ := hclosure
  refine .ask_bind ?_
  split
  · rename_i field hfound
    refine .pure (.start hg) ⟨rfl, hfound, ?_⟩
    have hmem := List.mem_of_find?_eq_some hfound
    rw [Program.fieldsOf_of_struct hd] at hmem
    obtain ⟨own, hf, rfl⟩ := (hg.sound.program.hasFields hd).own field hmem
    obtain ⟨captured, hcap, horigin⟩ : ∃ captured, own.captured = some captured ∧ captured.origin = origin := by
      have h := List.find?_some hfound
      simpa [Program.captureSource?, hf, Option.any_eq_true] using h
    have hkeep := (hg.sound.program.field hf).2 captured hcap
    obtain rfl : captured = { origin, source } := by
      obtain ⟨_, source'⟩ := captured
      subst horigin
      rw [hkeep.linked.unique hlink hs hc]
    exact ⟨own, hf, hcap, hkeep.type, hclosure, hs⟩
  · rename_i hnone
    refine .ask_bind (.mono (addHiddenField_ends hg (fun _ index h => ?_) (fun _ h => ?_) hclosure) ?_)
    · cases h
      exact hk index _
    · cases h
      exact hnone
    · rintro field t ht ⟨own, hf, rfl, rfl, hcap, hscopes, hof, -⟩
      have hlt : own.owner.index < s.program.symbols.size := Program.lt_of_ownScope hs
      exact ⟨hscopes, hof _ rfl, own, hf, hcap, ht.later.valueType hty, ht.later.isClosure hclosure,
        by rw [ht.later.ownScope _ hlt, hs]⟩

/-- A function on the way belongs to a closure that keeps the variable. -/
def KeptBy (p : Program) (x f : SymbolId) (hop : CaptureHop) : Prop :=
  ∃ own closure, p.function? f = some own ∧ own.owner = some closure ∧ p.IsClosure closure ∧
    p.captureOf? closure x = some hop.field ∧ (p.symbol closure).ownScope = some hop.scope

/-- The way to a variable after some of the functions between it and a place, outermost first, were crossed. -/
structure Crossed (p : Program) (x : SymbolId) (place : ScopeId) (done rest : List SymbolId) (hops : List CaptureHop) :
    Prop where
  functions : p.functionsUpTo place (p.symbol x).scope = (done ++ rest).reverse
  captures : ∀ f ∈ done ++ rest, p.mayCapture f
  way : p.Way x x hops
  length : hops.length = done.length
  last : ∀ f ∈ done.getLast?, ∃ hop ∈ hops.getLast?, KeptBy p x f hop

/-- What the next field on the way is filled from. -/
def sourceAfter (x : SymbolId) (hops : List CaptureHop) : SymbolId := (hops.getLast?.map (·.field)).getD x

theorem KeptBy.field {p : Program} (hp : p.Sound) {x f : SymbolId} {hop : CaptureHop} (h : KeptBy p x f hop) {ty : Ty}
    (hty : (p.decl x).valueType? = some ty) : ∃ own, p.field? hop.field = some own ∧ own.ty = ty := by
  obtain ⟨-, closure, -, -, -, hcap, -⟩ := h
  obtain ⟨captured, hsource, rfl⟩ : ∃ captured, p.captureSource? hop.field = some captured ∧ captured.origin = x := by
    simpa [Option.any_eq_true] using List.find?_some hcap
  obtain ⟨own, hf, hown⟩ := Program.captureSource?_eq_some.1 hsource
  refine ⟨own, hf, Option.some.inj ?_⟩
  rw [← hty, ((hp.field hf).2 captured hown).type]

section crossing

variable {p : Program} {x f : SymbolId} {place : ScopeId} {done rest : List SymbolId} {hops : List CaptureHop}

theorem Crossed.start (h : ∀ f ∈ p.functionsUpTo place (p.symbol x).scope, p.mayCapture f) :
    Crossed p x place [] (p.functionsUpTo place (p.symbol x).scope).reverse [] :=
  ⟨by simp, by simpa using h, trivial, rfl, by simp⟩

/-- **The place of a closure on the way**: what is filled next belongs to it. -/
theorem Crossed.next (hp : p.Sound) (h : Crossed p x place done (f :: rest) hops) {ty : Ty}
    (hty : (p.decl x).valueType? = some ty) : ∃ own closure outer, p.function? f = some own ∧ own.owner = some closure ∧
      (p.symbol closure).ownScope = some outer ∧ p.Inside place outer ∧
      (∀ g ∈ p.functionsUpTo outer (p.symbol x).scope, p.mayCapture g) ∧
      (∀ last ∈ hops.getLast?, p.Inside outer last.scope) ∧
      ∀ index captured, p.Keeping { ty, owner := closure, index, captured } { origin := x, source := sourceAfter x hops } := by
  have hsplit : p.functionsUpTo place (p.symbol x).scope = rest.reverse ++ f :: done.reverse := by
    rw [h.functions]
    simp
  obtain ⟨own, closure, outer, hf, hown, hclosure, hscope, hpost, haround⟩ :=
    hp.closure_of_crossed hsplit (h.captures f (by simp))
  have hhead : (p.functionsUpTo outer (p.symbol x).scope).head? = done.getLast? := by rw [hpost, List.head?_reverse]
  have hall : ∀ g ∈ p.functionsUpTo outer (p.symbol x).scope, p.mayCapture g := fun g hg => h.captures g <| by
    rw [hpost, List.mem_reverse] at hg
    exact List.mem_append_left _ hg
  refine ⟨own, closure, outer, hf, hown, hscope, haround, hall, ?_⟩
  cases hlast : done.getLast? with
  | none =>
    obtain rfl : hops = [] := List.eq_nil_of_length_eq_zero (by rw [h.length, List.getLast?_eq_none_iff.1 hlast]; rfl)
    refine ⟨by simp, fun index captured => ⟨hclosure, hty, .inl rfl, fun sc hs _ => ?_⟩⟩
    rw [hscope] at hs
    cases hs
    rw [hhead, hlast]
    rfl
  | some g =>
    obtain ⟨hop, hhop, hkept⟩ := h.last g hlast
    have hfield := hkept.field hp hty
    obtain ⟨ownG, closureG, hfG, hownG, hclosureG, hcapG, hscopeG⟩ := hkept
    rw [Option.mem_def] at hhop
    have hsource : sourceAfter x hops = hop.field := by rw [sourceAfter, hhop]; rfl
    refine ⟨fun last hl => ?_, fun index captured => ⟨hclosure, hty, .inr (by rwa [hsource]), fun sc hs _ => ?_⟩⟩
    · rw [hhop] at hl
      cases hl
      obtain ⟨post, hcons⟩ : ∃ post, p.functionsUpTo outer (p.symbol x).scope = [] ++ g :: post := by
        rw [hlast] at hhead
        obtain ⟨post, hpost⟩ := List.head?_eq_some_iff.1 hhead
        exact ⟨post, hpost⟩
      obtain ⟨own', closure', outer', hf', hown', -, hscope', -, hin⟩ :=
        hp.closure_of_crossed hcons (hall g (by rw [hcons]; simp))
      rw [hfG] at hf'
      cases hf'
      rw [hownG] at hown'
      cases hown'
      rw [hscopeG] at hscope'
      cases hscope'
      exact hin
    · rw [hscope] at hs
      cases hs
      rw [hhead, hlast, hsource]
      exact ⟨ownG, closureG, hfG, hownG, hclosureG, hcapG⟩

theorem Crossed.step (hp : p.Sound) {q : Program} (hl : p.Later q) (h : Crossed p x place done (f :: rest) hops)
    (hscopes : q.scopes = p.scopes) {hop : CaptureHop} (hkept : KeptBy q x f hop)
    (hstores : q.Stores x (sourceAfter x hops) hop) (hin : ∀ last ∈ hops.getLast?, p.Inside hop.scope last.scope)
    (hx : x.index < p.symbols.size) : Crossed q x place (done ++ [f]) rest (hops ++ [hop]) where
  functions := by
    rw [Program.functionsUpTo_congr hscopes, hl.scope x hx, h.functions]
    simp
  captures g hg := by
    have hg : g ∈ done ++ f :: rest := by simpa using hg
    have hlt : g.index < p.symbols.size := hp.lt_of_mem_functionsUpTo (by rw [h.functions, List.mem_reverse]; exact hg)
    rw [hl.mayCapture hlt]
    exact h.captures g hg
  way := (hl.way h.way).concat hstores fun last hm => hl.inside (hin last hm)
  length := by simp [h.length]
  last g hg := by
    simp only [List.getLast?_append, List.getLast?_singleton, Option.some_or, Option.mem_def, Option.some.injEq] at hg ⊢
    subst hg
    exact ⟨hop, rfl, hkept⟩

/-- The closure of the next function has got its field, and the way goes on from there. -/
theorem Crossed.advance {s t : BindState} (h : Crossed s.program x place done (f :: rest) hops) (hg : Ready k g s)
    (ht : At k s t) {ty : Ty} (hty : (s.program.decl x).valueType? = some ty) {own : FunctionDecl}
    {closure field : SymbolId} {outer : ScopeId} (hf : s.program.function? f = some own) (hown : own.owner = some closure)
    (hscope : (s.program.symbol closure).ownScope = some outer) (hclosure : s.program.IsClosure closure)
    (hinside : ∀ last ∈ hops.getLast?, s.program.Inside outer last.scope)
    (hfield : t.program.scopes = s.program.scopes ∧ t.program.captureOf? closure x = some field ∧
      t.program.Stores x (sourceAfter x hops) ⟨outer, field⟩) :
    (t.program.symbol closure).ownScope = some outer ∧
      Crossed t.program x place (done ++ [f]) rest (hops ++ [⟨outer, field⟩]) := by
  obtain ⟨hscopes, hof, hstores⟩ := hfield
  have hscope' : (t.program.symbol closure).ownScope = some outer := by
    rw [ht.later.ownScope closure (Program.lt_of_ownScope hscope), hscope]
  have hkept : KeptBy t.program x f ⟨outer, field⟩ := by
    obtain ⟨own', hf', -, ho⟩ := ht.later.function hf
    exact ⟨own', closure, hf', ho.trans hown, ht.later.isClosure hclosure, hof, hscope'⟩
  have hx : x.index < s.program.symbols.size := Program.lt_of_decl fun hd => by rw [hd] at hty; cases hty
  exact ⟨hscope', h.step hg.sound.program ht.later hscopes hkept hstores hinside hx⟩

end crossing

/-- **The way to a variable leads through the closures of the functions that are crossed**, outermost first. -/
theorem captureThrough_ends {x : SymbolId} {ty : Ty} {pos : Span} {place : ScopeId} :
    ∀ {rest done : List SymbolId} {hops : List CaptureHop} {s : BindState}, Ready k g s →
      (s.program.decl x).valueType? = some ty → Crossed s.program x place done rest hops →
      Ends (captureThrough x ty pos rest (sourceAfter x hops) hops) c s (At k s) fun way t =>
        t.program.Way x x way ∧ way.length = done.length + rest.length
  | [], done, hops, s, hg, _, h => .pure (.start hg) ⟨h.way, by simpa using h.length⟩
  | f :: rest, done, hops, s, hg, hty, h => by
    obtain ⟨own, closure, outer, hf, hown, hscope, -, hcap, hinside, hkeep⟩ := h.next hg.sound.program hty
    refine .ask_bind ?_
    rw [hf, Option.bind_some, hown]
    refine .next (.start hg) (Nat.le_refl k) (captureField_ends hg hkeep hscope hcap) ?_
    rintro field t ht - hfield
    obtain ⟨hown', hnext⟩ := h.advance hg ht hty hf hown hscope (hkeep 0 none).closure hinside hfield
    have hsource : sourceAfter x (hops ++ [⟨outer, field⟩]) = field := by simp [sourceAfter]
    have hrest : Ends (captureThrough x ty pos rest field (hops ++ [⟨outer, field⟩])) c t (At k t) fun way u =>
        u.program.Way x x way ∧ way.length = (done ++ [f]).length + rest.length := by
      nth_rewrite 1 [← hsource]
      exact captureThrough_ends (ht.ready hg) (ht.later.valueType hty) hnext
    refine .ask_bind ?_
    rw [hown']
    refine .last ht (Nat.le_refl k) hrest fun way u _ _ hway => ⟨hway.1, ?_⟩
    rw [hway.2, List.length_append, List.length_cons, List.length_cons, List.length_nil]
    omega

/-! ## Reading variables -/

theorem crossedFunctions_eq (p : Program) (sc : ScopeId) (x : SymbolId) :
    p.crossedFunctions sc x = if (p.decl x).isVariable then p.functionsUpTo sc (p.symbol x).scope else [] := by
  unfold Program.crossedFunctions
  cases p.decl x <;> rfl

/-- A variable in sight with no function on the way is seen. -/
theorem seen_of_uncrossed {p : Program} (hp : p.Sound) {sc : ScopeId} {x : SymbolId} (hx : p.InSight sc x)
    (hv : (p.decl x).isVariable) (hc : p.crossedFunctions sc x = []) : p.Seen sc x := by
  rw [crossedFunctions_eq, if_pos hv] at hc
  exact (hx hv).elim (fun ha => .inr (Program.region_of_uncrossed hp.nested ha hc)) .inl

/-- The way to a variable from a place where every function in between captures. -/
theorem captureAll_ends {x : SymbolId} {ty : Ty} {pos : Span} {place : ScopeId} (hg : Ready k g s)
    (hty : (s.program.decl x).valueType? = some ty)
    (hall : ∀ f ∈ s.program.crossedFunctions place x, s.program.mayCapture f) :
    Ends (captureThrough x ty pos (s.program.crossedFunctions place x).reverse x []) c s (At k s) fun way t =>
      t.program.Way x x way ∧ way.length = (s.program.crossedFunctions place x).length := by
  by_cases hv : (s.program.decl x).isVariable
  · rw [crossedFunctions_eq, if_pos hv] at hall ⊢
    exact (captureThrough_ends hg hty (.start hall)).mono fun way t _ hway => ⟨hway.1, by simpa using hway.2⟩
  · rw [crossedFunctions_eq, if_neg hv]
    exact .pure (.start hg) ⟨trivial, rfl⟩

/-- What reading a symbol gives: a node of the type that the symbol has, which is not retyped. -/
structure Reads (k : Nat) (c : Context) (s t : BindState) (x : SymbolId) (n : NodeId) : Prop where
  result : Result k c t n
  type : ∀ ty, (s.program.decl x).valueType? = some ty → (t.program.node n).ty = ty
  settled : ¬ t.program.Adaptable n

/-- **A variable is read as it is only where it is seen.** -/
theorem variableReference_ends {x : SymbolId} {pos : Span} (hc : Ready k c s) (hx : s.program.InSight c.scope x) :
    Ends (variableReference x pos) c s (At k s) fun n t => Reads k c s t x n := by
  have hp := hc.sound.program
  refine .ask_bind ?_
  split
  · rename_i ty hty
    have hlt : x.index < s.program.symbols.size := Program.lt_of_decl fun hd => by rw [hd] at hty; cases hty
    refine .read_bind (.ask_bind (.ask_bind ?_))
    split
    · exact .ask_bind (.ask_bind (fail_ends (.start hc) _ _ _ _))
    · rename_i hnone
      have hall : ∀ f ∈ s.program.crossedFunctions c.scope x, s.program.mayCapture f := by simpa using hnone
      refine .next (.start hc) (Nat.le_refl k) (captureAll_ends hc hty hall) ?_
      rintro way t ht - ⟨hway, hlength⟩
      have hd : t.program.decl x = s.program.decl x := ht.later.decl_of_valueType hty
      have hseen : ∀ y, NodeKind.valueName x way = .valueName y [] → (t.program.decl y).isVariable →
          t.program.Seen c.scope y := by
        rintro _ ⟨⟩ hv
        rw [hd] at hv
        have hcross := List.eq_nil_of_length_eq_zero hlength.symm
        exact Held.seen hc hc.scope ht.keeps hlt (seen_of_uncrossed hp hx hv hcross)
      have hf : t.program.Fits ⟨pos, ty, .valueName x way⟩ :=
        { children := by rintro _ ⟨⟩
          typed := trivial
          void := by rintro ⟨⟩
          literal := by rintro _ ⟨⟩
          named := by
            rintro _ _ ⟨⟩
            refine ⟨Nat.lt_of_lt_of_le hlt ht.later.symbols, fun tag u hu => ?_, hway⟩
            rw [hd] at hu
            rw [hu] at hty
            cases hty
          called := by rintro _ _ ⟨⟩
          symbols := by
            simp only [NodeKind.symbols, List.mem_cons, List.mem_map]
            rintro y (rfl | ⟨hop, hm, rfl⟩)
            · exact .of_valueType (by rw [hd, hty])
            · exact .of_way hway hop hm
          folds := trivial }
      refine .last ht (Nat.le_refl k) (addNode_ends (w := True) (ht.ready hc) hf (by rintro _ ⟨⟩) hseen (by rintro _ ⟨⟩)
        (by rintro _ _ _ ⟨⟩) (.of_isSettled rfl)) ?_
      intro n u hu htu hn
      have hsettled : ¬ u.program.Adaptable n := by
        rintro ⟨value, hv⟩
        rw [hn.node] at hv
        cases hv
      refine ⟨⟨hn.held, fun ha => absurd ha hsettled, fun _ => .of_not_adaptable hsettled, ?_⟩, ?_, hsettled⟩
      · rintro y hy
        rw [hn.node] at hy
        cases hy
        exact hu.later.inSight hlt (hp.admits x hlt).scope hc.scope hx
      · rintro ty' hty'
        rw [hty] at hty'
        cases hty'
        rw [hn.node]
  · exact .failure (.start hc)

/-- The receiver of a method around a place is in sight and points to the struct of the method. -/
theorem receiver?_spec {p : Program} (hp : p.Sound) {sc : ScopeId} {owner this : SymbolId}
    (h : p.receiver? sc owner = some this) :
    p.InSight sc this ∧ (p.decl this).valueType? = some (.pointer (.direct owner)) := by
  obtain ⟨a, ha, hf⟩ := List.exists_of_findSome?_eq_some h
  split at hf
  · simp only [Option.bind_eq_bind, Option.bind_eq_some_iff] at hf
    obtain ⟨f, hown, own, hfun, hrec⟩ := hf
    split at hrec
    · rename_i howner
      obtain ⟨owner', index, ho, hd, hs⟩ := (hp.function hfun).1 this hrec
      rw [howner] at ho
      cases ho
      rw [hp.owner a f hown] at hs
      cases hs
      exact ⟨fun _ => .inl ha, by rw [hd]; rfl⟩
    · cases hrec
  · cases hf

/-- A field is read through the receiver of its struct. -/
theorem fieldReference_ends {x : SymbolId} {field : FieldDecl} {pos : Span} (hc : Ready k c s)
    (hx : s.program.field? x = some field) :
    Ends (fieldReference x field pos) c s (At k s) fun n t => Made k c t field.ty n := by
  refine .read_bind (.ask_bind ?_)
  split
  · rename_i this hthis
    obtain ⟨hsight, hty⟩ := receiver?_spec hc.sound.program hthis
    refine .next (.start hc) (Nat.le_refl k) (variableReference_ends hc hsight) fun pointer t ht _ hptr => ?_
    have hderef : Ends (addNode pos (.direct field.owner) (.dereference pointer)) c t (At k t)
        fun n u => Made k c u (.direct field.owner) n :=
      addPlain_ends (ht.ready hc) rfl rfl (.inl (hptr.type _ hty)) (by simpa [NodeKind.children] using hptr.result.held) trivial
    refine .next ht (Nat.le_refl k) hderef fun object u hu _ hobj => ?_
    exact .last hu (Nat.le_refl k) (addMade_ends (hu.ready hc) rfl (by rintro ⟨⟩) (by rintro _ ⟨⟩)
      ⟨field, hu.later.field hx, rfl, .inl hobj.type⟩ (by simpa [NodeKind.children] using hobj.held)
      (by simpa [NodeKind.symbols] using .of_field (hu.later.field hx)) trivial) fun n v _ _ hn => hn
  · exact .ask_bind (fail_ends (.start hc) _ _ _ _)

/-- **What a name in sight stands for is read with its type.** -/
theorem reference_ends {x : SymbolId} {pos : Span} (hc : Ready k c s) (hx : s.program.InSight c.scope x) :
    Ends (reference x pos) c s (At k s) fun n t => Reads k c s t x n := by
  refine .ask_bind ?_
  split
  · rename_i field hf
    refine .mono (fieldReference_ends hc hf) fun n t _ hn => ⟨hn.result, fun ty hty => ?_, not_adaptable_of_isPlain hn.plain⟩
    rw [Program.field?_eq_some.1 hf] at hty
    cases hty
    exact hn.type
  · exact variableReference_ends hc hx

end BindM

end Bindery
