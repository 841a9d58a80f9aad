import Bindery.Proofs.Levels
/-!
# Arguments

What a parameter is bound to is held at the place of the call, not at the place of the template. Arguments are held there
already. A default argument is bound in the scope of the template, so that the variables it names are exposed, and the
labels that it jumps to lie around a default; it has a value, so that it returns from nothing.
-/
namespace Bindery

/-! ## Giving arguments to parameters -/

namespace Param

variable {params : List Param} {args : List CallArg} {slots slots' : List (List CallArg)}

/-- Everything in the slots is one of the arguments. -/
def Given (args : List CallArg) (slots : List (List CallArg)) : Prop := ∀ slot ∈ slots, ∀ arg ∈ slot, arg ∈ args

theorem exists_of_map_ok {ε α β : Type} {x : Except ε α} {f : α → β} {b : β} (h : x.map f = .ok b) :
    ∃ a, x = .ok a ∧ f a = b := by
  cases x with
  | error e => cases h
  | ok a =>
    cases h
    exact ⟨a, rfl, rfl⟩

theorem Given.cons {slot : List CallArg} (hs : ∀ arg ∈ slot, arg ∈ args) (h : Given args slots) :
    Given args (slot :: slots) := by
  simpa [Given] using ⟨hs, h⟩

theorem given_of_fill (h : fill params args = .ok slots) : Given args slots := by
  fun_induction fill params args generalizing slots with
  | case1 | case4 | case3 | case5 =>
    cases h
    simp [Given]
  | case2 | case6 => cases h
  | case7 _ _ _ ih =>
    obtain ⟨rest, hr, rfl⟩ := exists_of_map_ok h
    exact .cons (by simp) (ih hr)
  | case8 _ _ arg args _ ih =>
    obtain ⟨rest, hr, rfl⟩ := exists_of_map_ok h
    exact .cons (by simp) fun slot hs a ha => List.mem_cons_of_mem _ (ih hr slot hs a ha)

theorem given_of_give {pos : Span} {name : String} {arg : CallArg} (harg : arg ∈ args) (hs : Given args slots)
    (h : give pos name arg params slots = .ok slots') : Given args slots' := by
  fun_induction give pos name arg params slots generalizing slots' with
  | case1 =>
    cases h
    exact .cons (by simpa using harg) fun slot hm => hs slot (by simp [hm])
  | case2 | case4 => cases h
  | case3 _ _ slot slots _ ih =>
    obtain ⟨rest, hr, rfl⟩ := exists_of_map_ok h
    exact .cons (hs slot (by simp)) (ih (fun slot hm => hs slot (by simp [hm])) hr)

theorem given_of_giveNamed {named : List CallArg} (hn : ∀ arg ∈ named, arg ∈ args) (hs : Given args slots)
    (h : giveNamed params named slots = .ok slots') : Given args slots' := by
  induction named generalizing slots with
  | nil =>
    cases h
    exact hs
  | cons arg rest ih =>
    have hrest : ∀ a ∈ rest, a ∈ args := fun a ha => hn a (by simp [ha])
    rw [giveNamed] at h
    split at h
    · rename_i name _
      cases hg : give arg.pos name arg params slots with
      | error fault =>
        rw [hg] at h
        cases h
      | ok next =>
        rw [hg] at h
        exact ih hrest (given_of_give (hn arg (by simp)) hs hg) h
    · exact ih hrest hs h

/-- **A parameter is given arguments of the call.** -/
theorem given_of_assign (h : assign params args = .ok slots) : Given args slots := by
  unfold assign at h
  cases hf : fill params (args.filter (·.name.isNone)) with
  | error fault =>
    rw [hf] at h
    cases h
  | ok filled =>
    cases hg : giveNamed params args filled with
    | error fault =>
      rw [hf] at h
      change (giveNamed params args filled >>= _) = _ at h
      rw [hg] at h
      cases h
    | ok given =>
      have hgiven : Given args given := given_of_giveNamed (fun _ h => h)
        (fun slot hs arg ha => (List.mem_filter.1 (given_of_fill hf slot hs arg ha)).1) hg
      rw [hf] at h
      change (giveNamed params args filled >>= _) = _ at h
      rw [hg] at h
      change (if _ then _ else _) = _ at h
      split at h
      · cases h
        exact hgiven
      · cases h

end Param

/-! ## The scope of parameters -/

/-- A scope that parameters are bound in: it lies in the scope of a template, belongs to no symbol yet, and has no
templates. -/
structure Fresh (source : TemplateSource) (scope sc : ScopeId) (s : BindState) : Prop where
  range : sc.index < s.program.scopes.size
  kind : (s.program.scope sc).kind = .function ∨ (s.program.scope sc).kind = .struct
  parent : (s.program.scope sc).parent = some scope
  own : ∀ x, (s.program.symbol x).ownScope ≠ some sc
  template : ∃ t own, s.program.template? t = some own ∧ own.source = source ∧ own.scope = scope
  bare : s.program.Bare sc

namespace Fresh

variable {source : TemplateSource} {scope sc : ScopeId} {k : Nat} {s t : BindState}

/-- A scope that was just made is no symbol's own. -/
theorem of_addScope (hs : s.Sound) {template : SymbolId} {own : TemplateDecl} {kind : ScopeKind}
    (ho : s.program.template? template = some own) (hk : kind = .function ∨ kind = .struct) :
    Fresh own.source own.scope s.program.nextScope
      { s with program := s.program.addScope { kind, parent := own.scope, owner := none } } where
  range := by simp [Program.nextScope]
  kind := by rwa [Program.scope_addScope_next]
  parent := by rw [Program.scope_addScope_next]
  own x hx := by
    have hlt := ((hs.program.admits x (Program.lt_of_ownScope hx)).own _ hx).1
    exact Nat.lt_irrefl _ hlt
  template := ⟨template, own, ho, rfl, rfl⟩
  bare := .of_addScope hs.program _

/-- A scope stays fresh while no scope is changed that there is. -/
theorem keep {floor : Floor} (h : Fresh source scope sc s) (ht : Via floor s t)
    (hsc : s.program.scopes.size ≤ floor.scopes) (hb : floor.body = none) : Fresh source scope sc t where
  range := Nat.lt_of_lt_of_le h.range ht.later.scopes.size
  kind := by rw [ht.later.scopes.kind sc h.range]; exact h.kind
  parent := by rw [ht.later.scopes.parent sc h.range]; exact h.parent
  own x hx := by
    by_cases hlt : x.index < s.program.symbols.size
    · rw [ht.later.ownScope x hlt] at hx
      exact h.own x hx
    · exact Nat.not_le.2 h.range (Nat.le_trans hsc (ht.frame.own x sc (Nat.le_of_not_lt hlt) hx))
  template := by
    obtain ⟨x, own, hx, hs, hc⟩ := h.template
    obtain ⟨y, own', hy, hs', hc'⟩ := ht.later.template x own hx
    exact ⟨y, own', hy, hs'.trans hs, hc'.trans hc⟩
  bare := by
    refine ht.bare h.bare (Nat.lt_of_lt_of_le h.range hsc) (by simp [hb]) ?_
    rw [ht.later.scopes.kind sc h.range]
    rcases h.kind with hk | hk <;> rw [hk] <;> simp

theorem mono (h : Fresh source scope sc s) (ht : At k s t) : Fresh source scope sc t := h.keep ht (Nat.le_refl _) rfl

theorem owner (h : Fresh source scope sc s) (hs : s.Sound) : (s.program.scope sc).owner = none := by
  by_contra hne
  obtain ⟨f, hf⟩ := Option.ne_none_iff_exists'.1 hne
  exact h.own f (hs.program.owner sc f hf)

/-- **What a default argument names is exposed**: it lies around the template, or was declared before the instance. -/
theorem exposed (h : Fresh source scope sc s) (hs : s.Sound) (hd : source.params.any (·.default.isSome)) {x : SymbolId}
    (hx : s.program.Seen sc x) : s.program.Exposed x := by
  have hR : s.program.region? sc = some sc :=
    Program.region?_of_ne_block _ (by rcases h.kind with hk | hk <;> rw [hk] <;> simp)
  have early : s.program.region? (s.program.symbol x).scope = some sc → s.program.Exposed x := by
    intro hr
    refine .early ?_
    rintro f ⟨-, R, hR', hown⟩
    rw [hr] at hR'
    cases hR'
    rcases hown with ho | ⟨m, -, -, -, ho⟩
    · exact absurd ho (h.own f)
    · exact absurd ho (h.own m)
  rcases hx with he | hr | ⟨R, hR', -, ha⟩
  · exact he
  · exact early (hr.trans hR)
  · rw [hR] at hR'
    cases hR'
    rw [Program.ancestors_of_some hs.program.nested h.parent, List.mem_cons] at ha
    rcases ha with ha | ha
    · exact early (by rw [ha, hR])
    · obtain ⟨y, own, hy, hsrc, hsc⟩ := h.template
      exact .parameter y own hy (by rwa [hsrc]) (by rwa [hsc])

/-- **What a default argument jumps to lies around a default**: it may be a label around the template. -/
theorem holdsDefault (h : Fresh source scope sc s) (hs : s.Sound) (hd : source.params.any (·.default.isSome))
    {c : Context} (hc : c.scope = sc) (hl : c.loopLabel = none) {again : Bool} {l : SymbolId}
    (hr : s.program.InReach c again l) : s.program.HoldsDefault (s.program.symbol l).scope := by
  rcases hr with hdef | hloop | ⟨own, hown, -, -, ha⟩
  · exact hdef
  · rw [hl] at hloop
    cases hloop
  · rw [hc, Program.ancestors_of_some hs.program.nested h.parent, List.mem_cons] at ha
    rcases ha with ha | ha
    · -- the scope of the parameters is no block
      have hk := (hs.program.label hown).1
      rw [ha] at hk
      rcases h.kind with hk' | hk' <;> rw [hk'] at hk <;> cases hk
    · obtain ⟨y, own, hy, hsrc, hsc⟩ := h.template
      exact .parameter y own hy (by rwa [hsrc]) (by rwa [hsc])

/-- A default argument may stand where the template is called. -/
theorem kept (h : Fresh source scope sc s) (hs : s.Sound) (hd : source.params.any (·.default.isSome)) {k' : Nat}
    {c g : Context} (hc : c.scope = sc) (hl : c.loopLabel = none) {n : NodeId} (hn : Kept k' c s n) (hk : k ≤ k')
    (hv : (s.program.node n).ty ≠ .void) : Kept k g s n where
  range := hn.range
  floor ha := Nat.le_trans hk (hn.floor ha)
  names x hx hv := .inl (h.exposed hs hd (hc ▸ hn.names x hx hv))
  returns _ hr := absurd (hs.program.void_of_returns hr) hv
  jumps _ again l hj := .inl (h.holdsDefault hs hd hc hl (hn.jumps trivial again l hj))

end Fresh

/-! ## Binding parameters -/

/-- What a parameter was bound to: an argument that is passed has the type of the parameter, which is the one in the
fingerprint unless that leaves it to the declaration. A value in the fingerprint is that of a constant. -/
structure BoundParam.Ok (k : Nat) (g : Context) (t : BindState) (b : BoundParam) (w : Prop := False) : Prop where
  value : ∀ param node, b.value = some (param, node) → Kept k g t node w ∧ (t.program.node node).ty = param.ty ∧
    ∃ known, b.entry.passed? = some known ∧ ∀ ty, known = some ty → param.ty = ty
  none : b.value = none → b.entry.passed? = none
  constant : ∀ ty value, b.entry = .const ty value → t.program.Computes value

/-- An argument stays what it is while no node is retyped and the scopes around the call keep their owners. -/
theorem BoundParam.Ok.keep {k : Nat} {g : Context} {floor : Floor} {s t : BindState} {b : BoundParam} {w : Prop}
    (h : b.Ok k g s w) (hg : Ready k g s) (ht : Via floor s t) (hn : floor.nodes = s.program.nodes.size)
    (hsc : g.scope.index < floor.scopes) : b.Ok k g t w where
  value param node hb := by
    obtain ⟨hh, hty, hk⟩ := h.value param node hb
    refine ⟨hh.keep hg hsc ht.keeps, ?_, hk⟩
    rw [ht.frame.nodes node hh.range (hn ▸ hh.range), hty]
  none := h.none
  constant ty value hb := (h.constant ty value hb).later ht.later hg.sound.program

theorem BoundParam.Ok.mono {k k' : Nat} {g : Context} {s t : BindState} {b : BoundParam} {w : Prop} (h : b.Ok k g s w)
    (hg : Ready k g s) (ht : At k' s t) : b.Ok k g t w := h.keep hg ht rfl hg.scope

namespace BindM

variable {floor : Floor} {k : Nat} {c g : Context} {s₀ s : BindState} {w coherent : Prop}

theorem callArg_requireValue_ends {arg : CallArg} (hg : Ready k g s) (ha : arg.value.Ok k g s w) :
    Ends arg.requireValue c s (At k s) fun n t => Passed k g t n w := by
  unfold CallArg.requireValue
  split
  · rename_i node hn
    rw [hn] at ha
    exact .pure (.start hg) ha
  · exact .ask_bind (fail_ends (.start hg) _ _ _ _)

theorem bindVararg_ends {param : Param} {args : List CallArg} (hg : Ready k g s)
    (ha : ∀ arg ∈ args, arg.value.Ok k g s w) :
    Ends (bindVararg param args) c s (At k s) fun b t => b.Ok k g t w := by
  have hvalues : Ends (args.mapM (·.requireValue)) c s (At k s) fun ns t => ∀ n ∈ ns, Kept k g t n w :=
    mapM_ends hg (fun _ t u ht htu h => h.mono (ht.ready hg) htu) fun arg hm t ht =>
      .mono (callArg_requireValue_ends (ht.ready hg) ((ha arg hm).mono hg ht)) fun _ _ _ h => h.toKept
  refine .next (.start hg) (Nat.le_refl k) hvalues fun values t ht _ hv => ?_
  refine .next ht (Nat.le_refl k) (packTuple_ends (ht.ready hg) hv) fun tuple u hu _ htuple => .ask_bind (.pure hu ?_)
  obtain ⟨ty, hm⟩ := htuple
  refine ⟨?_, by rintro ⟨⟩, by rintro _ _ ⟨⟩⟩
  rintro _ _ ⟨⟩
  exact ⟨hm.held, rfl, _, rfl, by rintro _ ⟨⟩; rfl⟩

/-- What is not passed needs no argument. -/
theorem ok_of_none {t : BindState} {entry : FingerprintEntry} (h : entry.passed? = none)
    (hc : ∀ ty value, entry = .const ty value → t.program.Computes value) : BoundParam.Ok k g t { entry } w :=
  ⟨by rintro _ _ ⟨⟩, fun _ => h, hc⟩

/-- A constant is declared for a parameter. -/
theorem declareConstant_ends {scope : ScopeId} {param : Param} {arg : CallArg} {node : NodeId} (hs : Via floor s₀ s)
    (hk : floor.operands ≤ k) (hg : Ready k g s) (hsc : scope.index < s.program.scopes.size) (hn : Kept k g s node w)
    (hnat : floor.coherent → (s.program.node node).IsNatural) : Ends (do
      let some value ← ask (·.constValue? node) | fail arg.pos .constParameter [param.name]
      let node ← markConstant node
      discard (declare scope { name := param.name, scope, pos := param.pos, decl := .constAlias .define node })
      return { entry := .const (← nodeType node) value } : BindM BoundParam) c s (Via floor s₀) fun b t => b.Ok k g t w := by
  refine .ask_bind ?_
  cases hvalue : s.program.constValue? node with
  | none => exact fail_ends hs _ _ _ _
  | some value =>
    have hsome : (s.program.constValue? node).isSome := by rw [hvalue]; rfl
    refine .run_bind (markConstant_run hsome) ?_
    have hdecl : Declarable floor s scope
        { name := param.name, scope, pos := param.pos, decl := .constAlias .define node } :=
      .constant hsc hn.range (fun ha => Nat.le_trans hk (hn.floor ha)) hnat hsome
    refine .chain hs (Floor.le_refl _) (fun _ _ => id) (.discard (declare_ends hs.restart hdecl)) fun _ t ht hst _ => ?_
    refine .ask_bind (.pure ht (ok_of_none rfl ?_))
    rintro _ _ ⟨⟩
    exact .later hst.later hg.sound.program ⟨node, hn.range, hvalue⟩

/-- **A parameter that stands for a constant is defined by an argument that was not retyped.** -/
theorem bindConstant_ends {scope : ScopeId} {param : Param} {arg : CallArg} {declared : Option Ty} (hg : Ready k g s)
    (hcoh : coherent → w ∧ s.program.Coherent) (hsc : scope.index < s.program.scopes.size) (ha : arg.value.Ok k g s w) :
    Ends (bindConstant scope param arg declared) c s (AtBody k none coherent s) fun b t => b.Ok k g t w := by
  have hstart := AtBody.start (b := none) hg fun h => (hcoh h).2
  refine .next hstart (Nat.le_refl k) (callArg_requireValue_ends hg ha) fun node t ht _ hn => ?_
  have hnat : coherent → (t.program.node node).IsNatural := fun h => hn.natural (hcoh h).1 (ht.coherent h).natural
  have hrest : ∀ m u, AtBody k none coherent s u → Turned k g t u node m w → Ends (do
      let some value ← ask (·.constValue? m) | fail arg.pos .constParameter [param.name]
      let node ← markConstant m
      discard (declare scope { name := param.name, scope, pos := param.pos, decl := .constAlias .define node })
      return { entry := .const (← nodeType node) value } : BindM BoundParam) c u (AtBody k none coherent s)
      fun b t => b.Ok k g t w := fun m u hu h =>
    declareConstant_ends hu (Nat.le_refl k) (hu.ready hg) (Nat.lt_of_lt_of_le hsc hu.later.scopes.size) h.held
      fun hc => h.natural (hnat hc)
  cases declared with
  | some ty => exact .next ht (Nat.le_refl k) (coerce_ends (ht.ready hg) hn.toKept) fun m u hu _ h => hrest m u hu h.1
  | none => exact .next ht (Nat.le_refl k) (readThrough_ends (ht.ready hg) hn.toKept) fun m u hu _ h => hrest m u hu h

theorem bindInferred_ends {param : Param} {arg : CallArg} {node : NodeId} (hg : Ready k g s) (hn : Kept k g s node w) :
    Ends (bindInferred param arg node) c s (At k s) fun b t => b.Ok k g t w := by
  refine .next (.start hg) (Nat.le_refl k) (readThrough_ends hg hn) fun m t ht _ hm => .ask_bind (.ite (fun _ => ?_) fun _ => ?_)
  · exact fail_bind_ends ht _ _ _ _
  refine .ask_bind (.next ht (Nat.le_refl k) (coerce_ends (ht.ready hg) hm.held) fun o u hu _ ho => .pure hu ?_)
  refine ⟨?_, by rintro ⟨⟩, by rintro _ _ ⟨⟩⟩
  rintro _ _ ⟨⟩
  exact ⟨ho.1.held, ho.2, _, rfl, by rintro _ ⟨⟩; rfl⟩

/-- The argument of a parameter, or its default, is held at the place of the call. -/
theorem argument_ends {α : Type} {post : α → BindState → Prop} {level : Level} {source : TemplateSource}
    {scope sc : ScopeId} {param : Param} {slot : List CallArg} (hl : level.Good) (hf : Fresh source scope sc s)
    (hc : Ready k c s) (hg : Ready k g s) (hcs : c.scope = sc) (hcl : c.loopLabel = none) (hp : param ∈ source.params)
    (ha : ∀ arg ∈ slot, arg.value.Ok k g s w) {rest : CallArg → BindM α}
    (hcoh : coherent → s.program.Coherent) (hrest : ∀ (arg : CallArg) t, AtBody k none coherent s t →
      arg.value.Ok k g t w → Ends (rest arg) c t (AtBody k none coherent s) post) :
    Ends (match slot, param.default with
      | arg :: _, _ => do rest (← pure arg)
      | [], some tree => do rest (← pure { pos := tree.pos, name := none, value := ← level.argument tree })
      | [], none => failure >>= rest) c s (AtBody k none coherent s) post := by
  have hstart := AtBody.start (b := none) hg hcoh
  cases slot with
  | cons arg _ => exact .pure_bind (hrest arg s hstart (ha arg (by simp)))
  | nil =>
    cases hd : param.default with
    | none => exact .bind (.failure hstart) fun _ _ _ (h : False) => h.elim
    | some tree =>
      have hd : source.params.any (·.default.isSome) := List.any_eq_true.2 ⟨param, hp, by rw [hd]; rfl⟩
      refine .next hstart hg.le ((hl.argument tree).ends hc) fun arg t ht hst harg => .pure_bind (hrest _ t ht ?_)
      obtain ⟨hok, hv⟩ := harg
      cases arg with
      | value n =>
        have hkept := (hf.mono hst).kept (g := g) ht.sound hd hcs hcl (Passed.toKept hok) hg.le hv
        exact ⟨hkept.imp fun _ => trivial, fun _ => Passed.natural hok trivial⟩
      | type ty => trivial

theorem bindSingle_ends {level : Level} {source : TemplateSource} {scope sc : ScopeId} {isStruct : Bool} {param : Param}
    {slot : List CallArg} (hl : level.Good) (hf : Fresh source scope sc s) (hc : Ready k c s) (hg : Ready k g s)
    (hcs : c.scope = sc) (hcl : c.loopLabel = none) (hp : param ∈ source.params) (ha : ∀ arg ∈ slot, arg.value.Ok k g s w)
    (hcoh : coherent → w ∧ s.program.Coherent) :
    Ends (bindSingle level sc isStruct param slot) c s (AtBody k none coherent s) fun b t => b.Ok k g t w := by
  refine argument_ends hl hf hc hg hcs hcl hp ha (fun h => (hcoh h).2) fun arg t ht harg => ?_
  have hdecl : Ends (param.type.mapM level.type) c t (At t.program.nodes.size t) fun _ _ => True := by
    cases param.type with
    | none => exact .pure (.start (ht.ready hg).top) trivial
    | some tree => exact .map ((hl.type tree).ends (ht.ready hc)) fun _ _ _ _ => trivial
  refine .next ht (Nat.le_trans hg.le ht.later.nodes) hdecl fun declared u hu htu _ => ?_
  have harg := harg.mono (ht.ready hg) htu
  have hsc : sc.index < u.program.scopes.size := Nat.lt_of_lt_of_le hf.range hu.later.scopes.size
  have hconst : ∀ declared, Ends (bindConstant sc param arg declared) c u (AtBody k none coherent s)
      fun b t => b.Ok k g t w := fun declared =>
    (bindConstant_ends (hu.ready hg) (fun h => ⟨(hcoh h).1, hu.coherent h⟩) hsc harg).weaken fun _ hv =>
      AtBody.trans hu hv
  split
  · rename_i node _ hval
    rw [hval] at harg
    refine .ite (fun _ => hconst _) fun _ => ?_
    split
    · rename_i ty
      refine .next hu (Nat.le_refl k) (coerce_ends (hu.ready hg) (Passed.toKept harg)) fun m v hv _ hm => .pure hv ?_
      refine ⟨?_, by rintro ⟨⟩, by rintro _ _ ⟨⟩⟩
      rintro _ _ ⟨⟩
      exact ⟨hm.1.held, hm.2, none, rfl, by rintro _ ⟨⟩⟩
    · exact .last hu (Nat.le_refl k) (bindInferred_ends (hu.ready hg) (Passed.toKept harg)) fun _ _ _ _ h => h
  · rename_i ty hval
    rw [hval] at harg
    refine .ite (fun _ => hconst none) fun _ => ?_
    refine .bind (.discard (declare_ends hu (.of_inOrder hsc trivial rfl))) fun _ v hv _ => ?_
    exact .pure hv (ok_of_none rfl (by rintro _ _ ⟨⟩))
  · exact .next hu (Nat.le_refl k) (.discard (callArg_requireValue_ends (hu.ready hg) harg)) fun _ v hv _ _ => .failure hv

theorem bindParam_ends {level : Level} {source : TemplateSource} {scope sc : ScopeId} {isStruct : Bool} {param : Param}
    {slot : List CallArg} (hl : level.Good) (hf : Fresh source scope sc s) (hc : Ready k c s) (hg : Ready k g s)
    (hcs : c.scope = sc) (hcl : c.loopLabel = none) (hp : param ∈ source.params) (ha : ∀ arg ∈ slot, arg.value.Ok k g s w)
    (hcoh : coherent → w ∧ s.program.Coherent) :
    Ends (bindParam level sc isStruct param slot) c s (AtBody k none coherent s) fun b t => b.Ok k g t w := by
  refine .ite (fun _ => ?_) fun _ => bindSingle_ends hl hf hc hg hcs hcl hp ha hcoh
  have hstart := AtBody.start (b := none) hg fun h => (hcoh h).2
  exact .last hstart (Nat.le_refl k) (bindVararg_ends hg ha) fun _ _ _ _ h => h

theorem reportArguments_ends {α : Type} {post : α → BindState → Prop} (hg : Ready k g s) {name : String} {count : Nat}
    {pos : Span} {fault : ArgumentFault} : Ends (reportArguments name count pos fault) c s (At k s) post := by
  cases fault <;> exact fail_ends (.start hg) _ _ _ _

/-- The items of a list of results that are all there. -/
theorem mem_of_mapM_id {α : Type} {items : List (Option α)} {found : List α} (h : items.mapM id = some found) :
    ∀ x ∈ found, some x ∈ items := by
  induction items generalizing found with
  | nil =>
    cases h
    simp
  | cons item rest ih =>
    rw [List.mapM_cons] at h
    obtain ⟨y, hy, h⟩ := Option.bind_eq_some_iff.1 h
    obtain ⟨ys, hys, h⟩ := Option.bind_eq_some_iff.1 h
    cases h
    intro x hx
    rcases List.mem_cons.1 hx with rfl | hx
    · exact List.mem_cons.2 (.inl hy.symm)
    · exact List.mem_cons_of_mem _ (ih hys x hx)

end BindM

namespace Program

/-- What encloses a place is a function. -/
theorem Sound.isSome_of_enclosingFunction {p : Program} (hp : p.Sound) {sc : ScopeId} {f : SymbolId}
    (h : p.enclosingFunction? sc = some f) : (p.function? f).isSome := by
  obtain ⟨id, hid, ho⟩ := Option.bind_eq_some_iff.1 h
  have hk : (p.scope id).kind = .function := by simpa using List.find?_some hid
  have hown := hp.owner id f ho
  obtain ⟨own, hd⟩ := ((hp.admits f (lt_of_ownScope hown)).own id hown).2.2.1 hk
  rw [function?_eq_some.2 hd]
  rfl

end Program

/-- The parameters of an instance are bound in a new scope. -/
structure BoundParams.Ok (k : Nat) (g : Context) (kind : ScopeKind) (own : TemplateDecl) (s t : BindState)
    (bound : BoundParams) (w : Prop := False) : Prop where
  new : s.program.scopes.size ≤ bound.scope.index
  kind : (t.program.scope bound.scope).kind = kind
  fresh : Fresh own.source own.scope bound.scope t
  params : ∀ b ∈ bound.params, b.Ok k g t w

namespace BindM

variable {k : Nat} {c g : Context} {s : BindState} {w coherent : Prop}

/-- Each parameter is tried, with the arguments in its slot. -/
theorem bindSlots_ends {level : Level} {source : TemplateSource} {parent sc : ScopeId} {slots : List (List CallArg)}
    (hl : level.Good) (hf : Fresh source parent sc s) (hc : Ready k c s) (hg : Ready k g s) (hcs : c.scope = sc)
    (hcl : c.loopLabel = none) (ha : ∀ slot ∈ slots, ∀ arg ∈ slot, arg.value.Ok k g s w)
    (hcoh : coherent → w ∧ s.program.Coherent) :
    Ends ((source.params.zip slots).mapM fun (param, slot) => attempt (bindParam level sc source.isStruct param slot)) c s
      (AtBody k none coherent s) fun bound t => ∀ r ∈ bound, ∀ b, r = some b → b.Ok k g t w := by
  refine mapM_body_ends hc (fun h => (hcoh h).2) (fun r t u ht htu h b hb => (h b hb).keep (ht.ready hg) htu rfl
    (ht.ready hg).scope) ?_
  rintro ⟨param, slot⟩ hmem t ht
  obtain ⟨hp, hs⟩ := List.of_mem_zip hmem
  exact .attempt (bindParam_ends hl (hf.keep ht (Nat.le_refl _) rfl) (ht.ready hc) (ht.ready hg) hcs hcl hp
    (fun arg harg => (ha slot hs arg harg).keep hg ht rfl hg.scope) fun h => ⟨(hcoh h).1, ht.coherent h⟩)

/-- **The arguments of a call are bound to the parameters of a template.** -/
theorem bindParams_ends {room : Room} {template : SymbolId} {args : List CallArg} {pos : Span} {kind : ScopeKind}
    (hr : room.Good) (hg : Ready k g s) (hk : kind = .function ∨ kind = .struct)
    (ha : ∀ arg ∈ args, arg.value.Ok k g s w) (hcoh : coherent → w ∧ s.program.Coherent := by exact False.elim) :
    Ends (bindParams room template args pos kind) c s (AtBody k none coherent s) fun bound t =>
      ∃ own, s.program.template? template = some own ∧ bound.Ok k g kind own s t w := by
  have hstart := AtBody.start (b := none) hg fun h => (hcoh h).2
  refine .ask_bind ?_
  cases hown : s.program.template? template with
  | none => exact .failure hstart
  | some own =>
    have htlt := Program.lt_of_template hown
    have hsc : own.scope.index < s.program.scopes.size :=
      (hg.sound.program.template hown).1
    dsimp only
    cases hassign : Param.assign own.source.params args with
    | error fault =>
      exact .ask_bind (.next hstart (Nat.le_refl k) (reportArguments_ends hg) fun _ _ _ _ (h : False) => h.elim)
    | ok slots =>
      refine .pure_bind (.next hstart (Nat.le_refl k) (addScope_ends hg kind hsc) ?_)
      rintro sc t ht hst ⟨hsceq, hteq⟩
      have hnew : s.program.scopes.size ≤ sc.index := by rw [hsceq]; exact Nat.le_refl _
      have hscope : t.program.scope sc = { kind, parent := own.scope, owner := none } := by
        rw [hteq, hsceq, Program.scope_addScope_next]
      have hfresh : Fresh own.source own.scope sc t := by
        rw [hteq, hsceq]
        exact .of_addScope hg.sound hown hk
      refine .ask_bind (inContext_ends hr ht fun level hl => ?_)
      have hc : Ready k { scope := sc, function := t.program.enclosingFunction? own.scope, modifiers := Modifiers.none.inherited } t := by
        exact ⟨ht.sound, (ht.ready hg).le, hfresh.range, fun f hf => ht.sound.program.isSome_of_enclosingFunction hf,
          by rintro _ ⟨⟩⟩
      have hbind := bindSlots_ends hl hfresh hc (ht.ready hg) rfl rfl (fun slot hs arg harg =>
        (ha arg (Param.given_of_assign hassign slot hs arg harg)).mono hg hst) fun h => ⟨(hcoh h).1, ht.coherent h⟩
      refine .chain ht (AtBody.floor_le ht) (fun _ _ => id) hbind fun bound u hu htu hbound => ?_
      split
      · rename_i params hparams
        refine .pure hu ⟨own, rfl, hnew, ?_, hfresh.keep htu (Nat.le_refl _) rfl, fun b hb => ?_⟩
        · rw [htu.later.scopes.kind sc hfresh.range, hscope]
        · exact hbound _ (mem_of_mapM_id hparams b hb) b rfl
      · exact .failure hu

end BindM

end Bindery
