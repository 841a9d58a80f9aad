import Bindery.Proofs.Arguments
import Bindery.Proofs.Bodies
import Bindery.Proofs.ClosureFields
/-!
# Instances

A new instance owns the scope in which its parameters were bound. It is recorded with its fingerprint once it has its
parameters, so that they are what the fingerprint says; its body is bound after that. An instance that is found again
was recorded so.
-/
namespace Bindery

/-- The parameters that an instance declares are what its fingerprint says. -/
theorem matches_of_takesParams {p : Program} {k : Nat} {g : Context} {t : BindState} {bound : BoundParams}
    {own : FunctionDecl} {w : Prop} (hb : ∀ b ∈ bound.params, b.Ok k g t w) (h : BindM.TakesParams p bound.values own.valueParams) :
    p.Matches bound.fingerprint own := by
  obtain ⟨scope, params⟩ := bound
  unfold Program.Matches BoundParams.fingerprint
  unfold BindM.TakesParams BoundParams.values at h
  simp only [List.filterMap_map] at h ⊢
  generalize own.valueParams = ids at h ⊢
  induction params generalizing ids with
  | nil => simpa using h
  | cons b rest ih =>
    have hrest : ∀ b ∈ rest, b.Ok k g t w := fun b hm => hb b (by simp [hm])
    cases hv : b.value with
    | none =>
      rw [List.filterMap_cons_none (by simpa using (hb b (by simp)).none hv)]
      rw [List.filterMap_cons_none (by rw [hv]; rfl)] at h
      exact ih hrest ids h
    | some passed =>
      obtain ⟨param, node⟩ := passed
      obtain ⟨-, -, known, hk, hty⟩ := (hb b (by simp)).value param node hv
      rw [List.filterMap_cons_some (b := known) (by simpa using hk)]
      rw [List.filterMap_cons_some (b := param) (by rw [hv]; rfl)] at h
      cases h with
      | cons hd htl => exact .cons ⟨param.ty, hd, hty⟩ (ih hrest _ htl)

/-- An instance was added, with a scope of its own. -/
structure Placed (s t : BindState) (made : SymbolId) (sc : ScopeId) (decl : Decl) : Prop where
  id : made = s.program.nextSymbol
  decl : t.program.decl made = decl
  own : (t.program.symbol made).ownScope = some sc
  owner : (t.program.scope sc).owner = some made
  kind : (t.program.scope sc).kind = (s.program.scope sc).kind
  spares : BindM.Spares s t
  bare : ∀ sc, s.program.Bare sc → t.program.Bare sc

/-- What is being made is still so after it was recorded. -/
theorem Begun.of_eq {s t : BindState} {f : SymbolId} {role : Role} {sc : ScopeId} (h : Begun s f role sc)
    (hf : ∀ f, t.program.function? f = s.program.function? f)
    (ho : ∀ x, (t.program.symbol x).ownScope = (s.program.symbol x).ownScope)
    (hs : t.program.scopes = s.program.scopes) : Begun t f role sc where
  own := by rw [ho, h.own]
  owner := by rw [Program.scope, hs]; exact h.owner
  function := by rw [hf]; exact h.function

/-- No instance that was recorded before is the one that was just added. -/
theorem Placed.unrecorded {s t : BindState} {made : SymbolId} {sc : ScopeId} {decl : Decl} (h : Placed s t made sc decl)
    (hs : s.Sound) : ∀ e ∈ t.program.memo, e.2 ≠ made := by
  intro e he heq
  rw [h.spares.memo] at he
  have := (hs.memo e he).range
  rw [heq, h.id] at this
  exact Nat.lt_irrefl _ this

/-- The values in a fingerprint are those of constants. -/
theorem computes_of_mem_fingerprint {k : Nat} {g : Context} {s t : BindState} {bound : BoundParams} {w : Prop}
    (hb : ∀ b ∈ bound.params, b.Ok k g s w) (hl : s.program.Later t.program) (hs : s.Sound) (ty : Ty) (value : ConstValue)
    (h : .const ty value ∈ bound.fingerprint) : t.program.Computes value := by
  obtain ⟨b, hm, he⟩ := List.mem_map.1 h
  exact ((hb b hm).constant ty value he).later hl hs.program

/-- An instance that was just added may be recorded, if its template had none with the fingerprint. -/
theorem Placed.enters {s t : BindState} {template made : SymbolId} {sc : ScopeId} {decl : Decl} {own : TemplateDecl}
    {fingerprint : Fingerprint} (h : Placed s t made sc decl) (hs : s.Sound) (ht : s.program.template? template = some own)
    (hn : s.program.knownInstance? template fingerprint = none) (hd : decl.origin? = some template) :
    t.program.Enters template fingerprint made := by
  refine ⟨by rw [h.spares.template template own ht]; rfl, by rw [h.decl, hd], ?_, h.unrecorded hs⟩
  rw [Program.knownInstance?, h.spares.memo]
  exact hn

theorem structForm_decl (form : StructForm) (template : SymbolId) : ∃ own : StructDecl,
    (∀ (p : Program) id, p.Shaped id own) ∧ own.template = some template ∧
      (own.kind ≠ .lambda ∧ own.kind ≠ .resumable) ∧
      (form.decl template = .struct own ∨ form.decl template = .union own) := by
  cases form with
  | struct | tuple => exact ⟨_, fun _ _ => .empty rfl rfl rfl, rfl, by simp, .inl rfl⟩
  | union => exact ⟨_, fun _ _ => .empty rfl rfl rfl, rfl, by simp, .inr rfl⟩

/-- The members of the instance of a struct template are those of the template. -/
theorem Placed.members {s t u : BindState} {template made : SymbolId} {sc : ScopeId} {own : TemplateDecl} {source : StructDef}
    (h : Placed s t made sc (source.form.decl template)) (ht : s.program.template? template = some own)
    (hs : own.source = .struct source) (hl : t.program.Later u.program) (hu : (u.program.template? template).isSome) :
    u.program.Members made sc source.body := by
  obtain ⟨struct, -, horigin, hkind, hform⟩ := structForm_decl source.form template
  have hlt := Program.lt_of_ownScope h.own
  obtain ⟨own', hown'⟩ := Option.isSome_iff_exists.1 hu
  have hsource : own'.source = .struct source := by
    have htt := h.spares.template template own ht
    have hlater := hl.decl template (Program.lt_of_template htt)
    rw [Program.template?_eq_some.1 htt, Program.template?_eq_some.1 hown'] at hlater
    rw [← hs]
    cases hlater <;> first | rfl | assumption
  refine ⟨by rw [hl.ownScope made hlt, h.own], fun hc => ?_, template, own', source, ?_, hown', hsource, rfl⟩
  · obtain ⟨_, hd, hclosure⟩ := hl.isClosure_of_later hlt hc
    rw [h.decl] at hd
    rcases hform with hf | hf <;> rw [hf] at hd <;> cases hd
    exact hclosure.elim hkind.1 hkind.2
  · rw [(hl.decl made hlt).origin?_eq, h.decl]
    rcases hform with hf | hf <;> rw [hf] <;> exact horigin

namespace BindM

variable {floor : Floor} {k : Nat} {c g : Context} {s₀ s : BindState} {room : Room} {template : SymbolId}

theorem addInstance_ends (hs : Via floor s₀ s) {source : TemplateSource} {scope parent : ScopeId} {bound : BoundParams}
    {pos : Span} {decl : Decl} (hf : Fresh source parent bound.scope s) (hlt : floor.scopes ≤ bound.scope.index)
    (hsc : scope.index < s.program.scopes.size)
    (hk : (s.program.scope bound.scope).kind = .function ↔ ∃ own, decl = .function own)
    (ho : ∀ name, s.program.InOrder s.program.nextSymbol { name, scope, ownScope := bound.scope, pos, decl })
    (hd : decl.isPlain) (hr : ∀ own, decl = .function own → own.role.captures = false) (ht : ¬ decl.IsTuple) :
    Ends (addInstance template bound scope pos decl) c s (Via floor s₀) fun made t =>
      Placed s t made bound.scope decl := by
  have hadd : s.program.Addable floor
      { name := (s.program.symbol template).name, scope, ownScope := bound.scope, pos, decl } := by
    refine .of_plain ⟨hsc, ?_, ho _⟩ hd ?_
    · rintro _ ⟨⟩
      exact ⟨hf.range, by rcases hf.kind with h | h <;> rw [h] <;> simp, hk⟩
    · rintro _ ⟨⟩
      exact ⟨hlt, hf.own⟩
  have howning : Owning floor s
      { name := (s.program.symbol template).name, scope, ownScope := bound.scope, pos, decl } bound.scope := by
    refine ⟨rfl, hlt, hf.range, hf.owner hs.sound, fun own (hm : decl = .module own) => ?_, fun h => absurd h ht⟩
    rw [hm] at hd
    cases hd
  refine .ask_bind (addOwner_bind hs hadd howning (fun _ => ?_) fun u hu hup => ?_)
  · unfold Program.mayCapture
    split
    · rename_i own hfun
      rw [Program.function?_eq_some, Program.decl_addSymbol_next] at hfun
      exact hr own hfun
    · rfl
  have hsym : u.program.symbol s.program.nextSymbol =
      { name := (s.program.symbol template).name, scope, ownScope := bound.scope, pos, decl } := by
    rw [hup]
    exact s.program.symbol_addSymbol_next _
  have howner : u.program.scope bound.scope =
      { s.program.scope bound.scope with owner := some s.program.nextSymbol } := by
    rw [hup, Program.scope_modifyScope, if_pos ⟨rfl, hf.range⟩]
    rfl
  have happ : Appends s u := by
    refine ⟨by rw [hup]; rfl, fun x hx => ?_⟩
    rw [hup]
    exact Program.decl_addSymbol_of_lt _ _ hx
  refine .pure hu ⟨rfl, ?_, ?_, by rw [howner], by rw [howner], happ.spares, fun sc' hbare => ?_⟩
  · rw [Program.decl, hsym]
  · rw [hsym]
  · rw [hup]
    exact hbare.addSymbol fun own (h : decl = .template own) => by rw [h] at hd; cases hd

/-- **An instance is recorded** as what it is; all else stays. -/
theorem recordInstance_ends (hs : Via floor s₀ s) {bound : BoundParams} {made : SymbolId}
    (hnew : floor.symbols ≤ made.index) (hr : s.Records bound.fingerprint made)
    (he : s.program.Enters template bound.fingerprint made) :
    Ends (recordInstance template bound made) c s (Via floor s₀) fun _ t =>
      ((template, bound.fingerprint), made) ∈ t.program.memo ∧ (∀ f, t.program.function? f = s.program.function? f) ∧
      (∀ x, (t.program.symbol x).ownScope = (s.program.symbol x).ownScope) ∧ t.program.scopes = s.program.scopes ∧
      t.log = s.log ∧ (∀ sc, s.program.Bare sc → t.program.Bare sc) ∧ s.program.Later t.program ∧
      (t.program.template? template).isSome := by
  obtain ⟨own, ht⟩ := Option.isSome_iff_exists.1 he.declared
  have hfun : ∀ f, (s.program.registerInstance template bound.fingerprint made).function? f = s.program.function? f :=
    Program.function?_registerInstance ht
  have hrun : (recordInstance template bound made).runAt c s =
      (some (), { s with program := s.program.registerInstance template bound.fingerprint made }) := rfl
  have htrail := hs.toTrail.step (.record template bound.fingerprint made hnew hr he) fun f a b ty ha hty hb => by
    rw [hfun, ha] at hb
    cases hb
    exact hty
  have hlater : s.program.Later (s.program.registerInstance template bound.fingerprint made) :=
    Program.registerInstance_later hs.sound.program ht
  have hsize : (s.program.registerInstance template bound.fingerprint made).symbols.size = s.program.symbols.size := by
    rw [Program.registerInstance_eq ht]
    exact Program.size_symbols_setDecl _ _ _
  refine .of_run hrun (hs.extend htrail hlater (.of_size hlater hsize fun m own hm =>
    .inr (.inr ⟨own, Program.module_of_registerInstance ht hm, rfl⟩))) ⟨?_, hfun, fun x => ?_, ?_, rfl, fun sc hbare => ?_,
      hlater, by rw [Program.template?_registerInstance ht, if_pos rfl]; rfl⟩
  · rw [Program.memo_registerInstance ht]
    exact List.mem_cons_self
  · rw [Program.registerInstance_eq ht]
    exact Program.ownScope_setDecl ..
  · rw [Program.registerInstance_eq ht]
    rfl
  · exact hbare.of_template fun x own' hx _ => Program.template_of_registerInstance hs.sound.program ht hx

/-- **The instance of a function for bound parameters is recorded with its fingerprint**; a new one has the parameters
that were bound, unless something went wrong. -/
theorem functionInstance_ends {w : Prop} {bound : BoundParams} {source : TemplateSource} {parent : ScopeId} {m : Nat}
    (hr : room.Good) (hg : Ready k g s) (hf : Fresh source parent bound.scope s)
    (hkind : (s.program.scope bound.scope).kind = .function) (hm : m ≤ bound.scope.index)
    (hms : m ≤ s.program.scopes.size) (hb : ∀ b ∈ bound.params, b.Ok k g s w) :
    Ends (functionInstance room template bound) c s (AtScopes k m s) fun made t =>
      ((template, bound.fingerprint), made) ∈ t.program.memo ∧
      (s.program.knownInstance? template bound.fingerprint = none → ∀ own, t.program.function? made = some own →
        t.log.errorCount = 0 → TakesParams t.program bound.values own.valueParams) := by
  have hstart : AtScopes k m s s := .start hg hms
  refine .ask_bind ?_
  cases hknown : s.program.knownInstance? template bound.fingerprint with
  | some made =>
    exact .pure hstart ⟨Program.mem_of_lookup hknown, by rintro ⟨⟩⟩
  | none =>
    refine .ask_bind ?_
    cases hown : s.program.template? template with
    | none => exact .failure hstart
    | some own =>
      obtain ⟨hsc, -, hrole⟩ := hg.sound.program.template hown
      dsimp only
      split
      · rename_i source hsrc
        refine .bind (addInstance_ends hstart hf hm hsc (by simp [hkind]) ?_ rfl ?_ (by rintro ⟨_, ⟨⟩, -⟩))
          fun made t ht hp => ?_
        · exact fun _ => ⟨.of_role hrole, by rintro _ ⟨⟩, by rintro _ ⟨⟩, by rintro ⟨⟩; rfl⟩
        · rintro _ ⟨⟩
          exact hrole
        have hnew : s.program.symbols.size ≤ made.index := by rw [hp.id]; exact Nat.le_refl _
        have hfun := Program.function?_eq_some.2 hp.decl
        have hbt : Begun t made own.role bound.scope := ⟨hp.own, hp.owner, _, hfun, rfl, rfl⟩
        refine .next ht (Nat.le_refl k) (declareParameters_ends (ht.ready hg) hfun hp.own ?_ (hp.unrecorded hg.sound)) ?_
        · intro ty hty
          split at hty
          · obtain ⟨owner, ho, rfl⟩ := Option.map_eq_some_iff.1 hty
            exact ⟨owner, ho, rfl⟩
          · cases hty
        rintro _ u hu htu ⟨hspares, own', hfun', hret, hbody, htakes⟩
        have hbu := hbt.mono htu
        have hsu := hp.spares.trans hspares
        have henters : u.program.Enters template bound.fingerprint made := by
          have h := hp.enters hg.sound hown hknown rfl
          refine ⟨by rw [hsu.template template own hown]; rfl, ?_, ?_, by rw [hspares.memo]; exact h.unrecorded⟩
          · rw [(htu.later.decl made hbt.lt).origin?_eq, h.origin]
          · rw [Program.knownInstance?, hspares.memo]
            exact h.unknown
        have hrec : u.Records bound.fingerprint made := by
          refine ⟨?_, computes_of_mem_fingerprint hb hu.later hg.sound, fun a ha h0 => ?_⟩
          · rw [Program.function?_eq_some.1 hfun']
            rfl
          · rw [hfun'] at ha
            cases ha
            exact matches_of_takesParams hb (htakes h0)
        refine .chain hu (Floor.le_refl _) (fun _ _ => id) (recordInstance_ends hu.restart hnew hrec henters) ?_
        rintro _ v hv huv ⟨hmem, hfv, hov, hscv, hlog, hbare, -⟩
        have hbarev := hbare _ (hbt.bare_mono (hp.bare _ hf.bare) htu)
        have hfunv : v.program.function? made = some own' := by rw [hfv, hfun']
        have hopen : ∀ a, v.program.function? made = some a → a.ret = none := by
          intro a ha
          rw [hfunv] at ha
          cases ha
          exact hret
        refine .chain hv (Floor.le_refl _) (fun _ _ => id)
          (bindFunctionBody_ends hr hv.restart (hbu.of_eq hfv hov hscv) hopen hnew hbarev hm) fun _ w hw hvw _ => .pure hw ?_
        obtain ⟨hmem', hparams⟩ := hvw.steps.instances hv.sound hmem
        refine ⟨hmem', fun _ a ha h0 => ?_⟩
        obtain ⟨b, hb, hpa, hra⟩ := hparams a ha
        rw [hfunv] at hb
        cases hb
        have herr := hvw.frame.errors
        have hvalue : a.valueParams = own'.valueParams := by
          unfold FunctionDecl.valueParams
          rw [hpa, hra]
        rw [hvalue]
        exact (htakes (by rw [← hlog]; omega)).later (huv.later.trans hvw.later)
      · exact .failure hstart

theorem kept_of_mem_args {t : BindState} {bound : BoundParams} {w : Prop} (h : ∀ b ∈ bound.params, b.Ok k g t w) :
    ∀ n ∈ bound.args, Kept k g t n w := by
  intro n hn
  obtain ⟨b, hb, hv⟩ := List.mem_filterMap.1 hn
  obtain ⟨⟨param, node⟩, hvalue, rfl⟩ := Option.map_eq_some_iff.1 hv
  exact ((h b hb).value param node hvalue).1

/-- What is made once the parameters are bound leaves alone what was there before the call. -/
theorem le_instanceFloor {t : BindState} {coherent : Prop} (ht : AtBody k none coherent s t) :
    { s.floor k with body := none, coherent } ≤ { t.floor k with scopes := s.program.scopes.size } :=
  ⟨Nat.le_refl _, ht.later.nodes, Nat.le_refl _, ht.later.symbols, by rintro _ ⟨⟩, id, ht.coherent⟩

/-- **A call of a template gives an instance and arguments that may be passed to it.** -/
theorem instantiateFunction_ends {args : List CallArg} {pos : Span} (hr : room.Good) (hg : Ready k g s)
    (ha : ∀ arg ∈ args, arg.value.Ok k g s True) :
    Ends (instantiateFunction room template args pos) c s (At k s) fun r t =>
      (t.program.decl r.1).isInstance ∧ ∀ n ∈ r.2, Kept k g t n := by
  refine .bind (bindParams_ends hr hg (.inl rfl) ha fun h => ⟨trivial, h⟩) ?_
  rintro bound t ht ⟨own, -, hb⟩
  refine .chain ht (le_instanceFloor ht) (fun _ _ => False.elim) (functionInstance_ends hr (ht.ready hg) hb.fresh hb.kind hb.new
    ht.later.scopes.size hb.params) fun made u hu htu hmade => .pure hu ⟨?_, kept_of_mem_args fun b hm => ?_⟩
  · exact (hu.sound.memo _ hmade.1).isInstance
  · exact (hb.params b hm).keep (ht.ready hg) htu rfl hg.scope

/-- What is no function takes no parameters. -/
theorem records_of_struct {t : BindState} {fingerprint : Fingerprint} {made : SymbolId}
    (hd : (∃ own, t.program.decl made = .struct own) ∨ ∃ own, t.program.decl made = .union own)
    (hc : ∀ ty value, .const ty value ∈ fingerprint → t.program.Computes value) : t.Records fingerprint made := by
  rcases hd with ⟨own, hd⟩ | ⟨own, hd⟩
  all_goals
    refine ⟨by rw [hd]; rfl, hc, fun f hf => ?_⟩
    rw [Program.function?, hd] at hf
    cases hf

theorem instantiateStruct_ends {args : List CallArg} {pos : Span} (hr : room.Good) (hg : Ready k g s)
    (ha : ∀ arg ∈ args, arg.value.Ok k g s True) :
    Ends (instantiateStruct room template args pos) c s (At k s) fun _ _ => True := by
  refine .bind (bindParams_ends hr hg (.inr rfl) ha fun h => ⟨trivial, h⟩) ?_
  rintro bound t ht ⟨own, -, hb⟩
  refine .ask_bind ?_
  split
  · exact .pure ht trivial
  · rename_i hknown
    refine .ask_bind ?_
    cases hown : t.program.template? template with
    | none => exact .failure ht
    | some own =>
      have hsc : own.scope.index < t.program.scopes.size :=
        (ht.sound.program.template hown).1
      dsimp only
      split
      · rename_i source hsrc
        obtain ⟨struct, hshaped, htemplate, -, hform⟩ := structForm_decl source.form template
        refine .chain ht (Floor.le_refl _) (fun _ _ => id) (addInstance_ends ht.restart hb.fresh hb.new hsc ?_ ?_ ?_ ?_ ?_)
          fun made u hu htu hp => ?_
        · rw [hb.kind]
          rcases hform with h | h <;> simp [h]
        · intro name
          rcases hform with h | h <;> rw [h] <;> exact hshaped _ _
        · rcases hform with h | h <;> rw [h] <;> rfl
        · rcases hform with h | h <;> simp [h]
        · rintro ⟨own, hd, -, hnone⟩
          rcases hform with h | h <;> rw [h] at hd <;> cases hd
          rw [htemplate] at hnone
          cases hnone
        have hnew : s.program.symbols.size ≤ made.index := by rw [hp.id]; exact ht.later.symbols
        have henters := hp.enters (ht.ready hg).sound hown hknown (by
          rcases hform with h | h <;> rw [h] <;> exact htemplate)
        refine .bind (recordInstance_ends hu hnew
          (records_of_struct (by rw [hp.decl]; exact hform.imp (⟨_, ·⟩) (⟨_, ·⟩))
            (computes_of_mem_fingerprint hb.params htu.later (ht.ready hg).sound)) henters) ?_
        rintro _ v hv ⟨-, -, -, hscv, -, hbare, huv, htmpl⟩
        have hkind : (v.program.scope bound.scope).kind = .struct := by
          rw [Program.scope, hscv]
          exact hp.kind.trans hb.kind
        have hc : Ready v.program.nodes.size
            { scope := bound.scope, function := none, modifiers := own.modifiers.inherited } v :=
          ⟨hv.sound, Nat.le_refl _, Program.lt_of_kind_ne (by rw [hkind]; simp), by rintro _ ⟨⟩, by rintro _ ⟨⟩⟩
        have hopens : Opens v.program.Coherent (some bound.scope) bound.scope v :=
          .of_bare hv.sound (by rw [hkind]; simp) (hbare _ (hp.bare _ hb.fresh.bare))
        have hmem : v.program.Members made bound.scope source.body :=
          hp.members hown hsrc huv htmpl
        have hmembers : Ends (room.inContext bound.scope none own.modifiers source.pos fun level =>
            level.members made source.body) c v (At k s) fun _ _ => True :=
          inContext_ends hr hv fun level hl =>
            (hl.members made source.body _ v _ _ hc hopens hkind rfl hmem).weaken fun w hw =>
              hv.chain hw (hv.le_body hv.le_size hb.new) fun _ _ => False.elim
        exact .bind (.discard (.attempt hmembers)) fun _ w hw _ => .pure hw trivial
      · exact .failure ht

end BindM

/-! ## Methods that run the body of a function -/

/-- A method that steps a generator or calls a lambda is being made. It is no instance. -/
structure Method (s : BindState) (role : Role) (owner method : SymbolId) (sc : ScopeId) : Prop where
  begun : Begun s method role sc
  owner : ∃ own, s.program.function? method = some own ∧ own.owner = some owner
  unrecorded : ∀ e ∈ s.program.memo, e.2 ≠ method

theorem Method.mono {k : Nat} {s t : BindState} {role : Role} {owner method : SymbolId} {sc : ScopeId}
    (h : Method s role owner method sc) (ht : At k s t) : Method t role owner method sc where
  begun := h.begun.mono ht
  owner := by
    obtain ⟨own, ho, hs⟩ := h.owner
    obtain ⟨own', ho', -, hs'⟩ := ht.later.function ho
    exact ⟨own', ho', hs'.trans hs⟩
  unrecorded e he heq := by
    rcases ht.frame.memo e he with he | hle
    · exact h.unrecorded e he heq
    · rw [heq] at hle
      exact Nat.not_lt.2 hle h.begun.lt

namespace BindM

variable {floor : Floor} {k : Nat} {c g : Context} {s₀ s : BindState} {room : Room} {template : SymbolId}
  {owner method : SymbolId} {role : Role} {scope sc : ScopeId} {source : FunctionDef} {modifiers : Modifiers} {pos : Span}

/-- The method of a closure has its scope right in that of the closure. -/
theorem declareMethod_ends {name : String} {template : Option SymbolId} (hg : Ready k g s)
    (hcl : s.program.IsClosure owner) (ho : (s.program.symbol owner).ownScope = some scope) :
    Ends (declareMethod name role template owner scope pos modifiers) c s (At k s) fun r t =>
      Method t role owner r.1 r.2 ∧ s.program.symbols.size ≤ r.1.index ∧ s.program.scopes.size ≤ r.2.index ∧
        t.program.Bare r.2 := by
  have holt := Program.lt_of_ownScope ho
  have hsc := (hg.sound.program.ownScope_of_isClosure hcl ho).1
  have hcl' := ((Via.start hg).edit (.scope .function scope hsc) rfl).later.isClosure hcl
  refine declareOpened_bind (.start hg) hsc (by simp) (by simp) ⟨fun _ => ?_, by rintro _ ⟨⟩, by rintro _ ⟨⟩, fun _ => rfl⟩
    rfl (by simp) fun sc id t ht hopened => ?_
  · exact ⟨owner, s.program.nextScope, scope, rfl, hcl', rfl, by simp, ho⟩
  have hfun : t.program.function? id = some { role, template, owner, modifiers } := by
    rw [Program.function?_eq_some, hopened.decl]
  have hmade : Method t role owner id sc :=
    ⟨⟨by rw [hopened.symbol], hopened.owner, _, hfun, rfl, rfl⟩, ⟨_, hfun, rfl⟩, hopened.unrecorded hg.sound⟩
  refine .next ht (Nat.le_refl k) (modifyStruct_ends (.start (ht.ready hg)) _ (fun _ => ⟨rfl, rfl⟩) (fun _ => rfl) ?_)
    fun _ u hu htu _ => .pure hu ⟨hmade.mono htu, ?_, ?_, hmade.begun.bare_mono hopened.bare htu⟩
  · intro own hown
    have hshaped := (ht.ready hg).sound.program.shaped hown
    refine ⟨fun _ h => h, hshaped.fields, ?_, hshaped.element⟩
    rintro _ ⟨⟩
    rw [hfun]
    rfl
  · rw [hopened.next]
    exact Nat.le_refl _
  · exact ht.frame.own id sc (by rw [hopened.next]; exact Nat.le_refl _) (by rw [hopened.symbol])

theorem bindMethod_ends {params : List ValueParam} (hr : room.Good) (hs : Via floor s₀ s) (hg : Ready k g s)
    (hk : floor.operands ≤ k) (hb : Method s role owner method sc)
    (hret : ∀ a, s₀.program.function? method = some a → a.ret = none) (hnew : floor.symbols ≤ method.index)
    (hbare : s.program.Bare sc) (hin : floor.scopes ≤ sc.index) :
    Ends (bindMethod room owner method sc params source modifiers) c s (Via floor s₀) fun _ t =>
      ∃ own, t.program.function? method = some own ∧ own.role = role := by
  obtain ⟨own, hown, howner⟩ := hb.owner
  refine .next hs hk (declareParameters_ends hg hown hb.begun.own ?_ hb.unrecorded) fun _ t ht hst _ => ?_
  · rintro _ ⟨⟩
    exact ⟨owner, howner, rfl⟩
  exact bindFunctionBody_ends hr ht (hb.begun.mono hst) hret hnew (hb.begun.bare_mono hbare hst) hin

/-! ## Generators -/

theorem fixElement_ends (hg : Ready k g s) {state : SymbolId} {ty : Ty} {pos : Span} (hs : s.program.IsClosure state) :
    Ends (fixElement state ty pos) c s (At k s) fun _ _ => True := by
  refine .ask_bind ?_
  split
  · exact .pure (.start hg) trivial
  · rename_i hnone
    refine .next (.start hg) (Nat.le_refl k) (addHiddenField_ends hg (by rintro _ _ ⟨⟩) (by rintro _ ⟨⟩) hs) ?_
    rintro field t ht - ⟨own, hfield, -, rfl, -, -, -, struct, hd, hd'⟩
    refine .bind (modifyStruct_ends ht _ (fun _ => ⟨rfl, rfl⟩) (fun _ => rfl) fun grown hgrown => ?_) fun _ u hu _ =>
      .pure hu trivial
    have hshaped := ht.sound.program.shaped hgrown
    rw [Program.struct?_eq_some.2 (.inl hd')] at hgrown
    cases hgrown
    -- The struct had no element before, so that there is none to keep.
    refine ⟨fun ty hty => ?_, hshaped.fields, hshaped.method, ?_⟩
    · rw [Program.struct?_eq_some.2 (.inl hd)] at hnone
      exact absurd hty (by rw [show struct.element = none from hnone]; simp)
    · rintro _ ⟨⟩
      exact ⟨by simp, own, hfield, rfl⟩

theorem bindElement_ends {state step : SymbolId} (hr : room.Good) (hg : Ready k g s) (hs : s.program.IsClosure state)
    (hb : Method s role state step sc) :
    Ends (bindElement room state step sc source modifiers) c s (At k s) fun _ _ => True := by
  unfold bindElement
  cases source.returnType with
  | none => exact .pure (.start hg) trivial
  | some tree =>
    have htype : Ends (room.inContext sc (some step) modifiers source.pos fun level => level.type tree) c s
        (At s.program.nodes.size s) fun _ _ => True :=
      inContext_ends hr (.start hg.top) fun level hl => (hl.type tree).ends (hb.begun.ready hg.sound _)
    refine .next (.start hg) hg.le (.attempt htype) fun element t ht _ _ => ?_
    cases element with
    | none => exact .pure ht trivial
    | some ty =>
      exact .last ht (Nat.le_refl k) (.discard (fixElement_ends (ht.ready hg) (ht.later.isClosure hs))) fun _ _ _ _ h => h

/-- The state of a generator is made with the parameters of the call for its fields. -/
theorem instantiateGenerator_ends {bound : BoundParams} {source : TemplateSource} {parent : ScopeId} {m : Nat}
    (hr : room.Good) (hg : Ready k g s) (hf : Fresh source parent bound.scope s)
    (hkind : (s.program.scope bound.scope).kind = .struct) (hm : m ≤ bound.scope.index)
    (hms : m ≤ s.program.scopes.size) (hb : ∀ b ∈ bound.params, b.Ok k g s w)
    (hknown : s.program.knownInstance? template bound.fingerprint = none) :
    Ends (instantiateGenerator room template bound) c s (AtScopes k m s) fun _ _ => True := by
  have hstart : AtScopes k m s s := .start hg hms
  refine .ask_bind ?_
  cases hown : s.program.template? template with
  | none => exact .failure hstart
  | some own =>
    have hsc : own.scope.index < s.program.scopes.size :=
      (hg.sound.program.template hown).1
    dsimp only
    split
    · rename_i source hsrc
      refine .bind (addInstance_ends hstart hf hm hsc (by simp [hkind]) (fun _ => .empty rfl rfl rfl) rfl (by simp)
        (by rintro ⟨_, ⟨⟩, ⟨⟩, -⟩)) fun state t ht hp => ?_
      have hnew : s.program.symbols.size ≤ state.index := by rw [hp.id]; exact Nat.le_refl _
      have hrec : t.Records bound.fingerprint state :=
        records_of_struct (.inl ⟨_, hp.decl⟩) (computes_of_mem_fingerprint hb ht.later hg.sound)
      refine .chain ht (Floor.le_refl _) (fun _ _ => id) (recordInstance_ends ht.restart hnew hrec
        (hp.enters hg.sound hown hknown rfl)) fun _ u hu htu _ => ?_
      have hscope : ∀ v, AtScopes k m s v → bound.scope.index < v.program.scopes.size :=
        fun v hv => Nat.lt_of_lt_of_le hf.range hv.later.scopes.size
      have hclosure : ∀ {v : BindState}, u.program.Later v.program → v.program.IsClosure state := fun huv =>
        (htu.later.trans huv).isClosure ⟨_, hp.decl, .inr rfl⟩
      refine .next hu (Nat.le_refl k) (forM_ends (hu.ready hg) fun param _ v hv => ?_) fun _ v hv huv _ => ?_
      · exact .discard (.attempt (declareField_ends (hv.ready (hu.ready hg))
          (Nat.lt_of_lt_of_le (hscope u hu) hv.later.scopes.size)
          (hv.sound.program.awaits_of_isClosure (hclosure hv.later) _ _) (by rintro _ ⟨⟩)))
      have htv := htu.later.trans huv.later
      have hown : (v.program.symbol state).ownScope = some bound.scope := by
        rw [htv.ownScope state (Program.lt_of_ownScope hp.own), hp.own]
      refine .next hv (Nat.le_refl k) (declareMethod_ends (hv.ready hg) (hclosure huv.later) hown) ?_
      rintro ⟨step, sc⟩ w hw hvw ⟨hstep, hid, hnewsc, hbare⟩
      refine .next hw (Nat.le_refl k) (bindElement_ends hr (hw.ready hg)
        (hclosure (huv.later.trans hvw.later)) hstep) fun _ x hx hwx _ => ?_
      have hin : m ≤ sc.index := Nat.le_trans hms (Nat.le_trans hv.later.scopes.size hnewsc)
      have hlt : s.program.symbols.size ≤ step.index := Nat.le_trans hv.later.symbols hid
      have hnone : ∀ a, s.program.function? step ≠ some a := fun a ha =>
        absurd (Program.lt_of_function ha) (Nat.not_lt.2 hlt)
      refine .bind (bindMethod_ends hr hx (hx.ready hg) (Nat.le_refl k) (hstep.mono hwx)
        (fun a ha => absurd ha (hnone a)) hlt (hstep.begun.bare_mono hbare hwx) hin) ?_
      rintro _ y hy ⟨own', hown', hrole⟩
      exact .run_bind (setReturnType_run hown')
        (.pure (setReturnType_via hy hown' (.inr hrole) fun a _ ha => absurd ha (hnone a)) trivial)
    · exact .failure hstart

/-- **A call of a generator gives a value of its state**, made of the arguments and the captured variables. -/
theorem callGenerator_ends {w coherent : Prop} {args : List CallArg} (hr : room.Good) (hc : Ready k c s)
    (ha : ∀ arg ∈ args, arg.value.Ok k c s w) (hcoh : coherent → w ∧ s.program.Coherent := by exact False.elim) :
    Ends (callGenerator room template args pos) c s (AtBody k none coherent s) fun n t => Result k c t n w ∧
      ∃ bound v state u values, (bindParams room template args pos .struct).runAt c s = (some bound, v) ∧
      (generatorInstance room template bound).runAt c v = (some state, u) ∧
      ClosureValue c pos state ((u.program.fieldsOf state).zip bound.args) values u t n := by
  refine .bind (bindParams_ends hr hc (.inr rfl) ha hcoh).and_run ?_
  rintro bound t ht ⟨hbound, own, -, hb⟩
  have hinstance : Ends (generatorInstance room template bound) c t
      (Via { t.floor k with scopes := s.program.scopes.size } t) fun _ _ => True := by
    refine .ask_bind ?_
    split
    · exact .pure (.refl ht.sound
        ⟨(ht.ready hc).le, Nat.le_refl _, ht.later.scopes.size, Nat.le_refl _, by rintro _ ⟨⟩, id, id⟩) trivial
    · rename_i hknown
      exact instantiateGenerator_ends hr (ht.ready hc) hb.fresh hb.kind hb.new ht.later.scopes.size hb.params hknown
  refine .chain ht (le_instanceFloor ht) (fun _ _ => False.elim) hinstance.and_run fun state u hu htu hstate => .ask_bind ?_
  split
  · rename_i own' hown
    have hlt : state.index < u.program.symbols.size := Program.lt_of_decl fun hd => by
      rw [Program.struct?, hd] at hown
      cases hown
    have hfields : own'.fields = u.program.fieldsOf state := by rw [Program.fieldsOf, hown]; rfl
    have hargs : ∀ n ∈ bound.args, Kept k c u n w :=
      kept_of_mem_args fun b hm => (hb.params b hm).keep (ht.ready hc) htu rfl hc.scope
    refine .last hu (Nat.le_refl k) (makeClosure_ends _ (hu.ready hc) hlt fun e he =>
      ⟨hu.sound.program.finished_of_mem_fieldsOf (hfields ▸ (List.of_mem_zip he).1), hargs e.2 (List.of_mem_zip he).2⟩) ?_
    rintro n v - - ⟨hn, values, hvalue⟩
    exact ⟨hn, bound, t, state, u, values, hbound, hstate.1, hfields ▸ hvalue⟩
  · exact .failure hu

end BindM

end Bindery
