import Bindery.Proofs.Levels
/-!
# Bodies

The statements of a function are bound in the scope of its body, those of a module in the scope of the module, as the
body of its entry. What they name is a variable of that scope or an exposed one, for a function owns the scope of its
body, and a module exposes what lies around it.
-/
namespace Bindery

/-- The labels of a function stand inside its body, so that a jump leaves the body only to a label around a default. -/
theorem Program.InReach.holdsDefault {p : Program} {c : Context} {again : Bool} {f l : SymbolId} (h : p.InReach c again l)
    (hp : p.Sound) (hf : c.function = some f) (hl : c.loopLabel = none)
    (hlt : p.Precedes f (p.symbol l).scope → c.scope.index < (p.symbol l).scope.index) :
    p.HoldsDefault (p.symbol l).scope := by
  rcases h with hd | hloop | ⟨own, hd, hfun, -, ha⟩
  · exact hd
  · rw [hl] at hloop
    cases hloop
  · have hle := index_le_of_mem_ancestors hp.nested ha
    exact absurd (hlt ((hp.label hd).2 f (hfun.trans hf))) (Nat.not_lt.2 hle)

/-- A function that is being made: its body stands in its own scope, and has not been bound. -/
structure Begun (s : BindState) (f : SymbolId) (role : Role) (sc : ScopeId) : Prop where
  own : (s.program.symbol f).ownScope = some sc
  owner : (s.program.scope sc).owner = some f
  function : ∃ own, s.program.function? f = some own ∧ own.body = [] ∧ own.role = role

namespace Begun

variable {k : Nat} {b : Option ScopeId} {coherent : Prop} {s t : BindState} {f : SymbolId} {role : Role} {sc : ScopeId}

theorem lt (h : Begun s f role sc) : f.index < s.program.symbols.size := Program.lt_of_ownScope h.own

theorem mono (h : Begun s f role sc) (ht : AtBody k b coherent s t) : Begun t f role sc where
  own := by rw [ht.later.ownScope f h.lt, h.own]
  owner := ht.later.owner sc f h.owner
  function := by
    obtain ⟨own, ho, hb, hr⟩ := h.function
    obtain ⟨own', ho', hr', -⟩ := ht.later.function ho
    exact ⟨own', ho', (ht.frame.body f own own' h.lt ho ho').trans hb, hr'.trans hr⟩

theorem kind (h : Begun s f role sc) (hs : s.Sound) :
    sc.index < s.program.scopes.size ∧ (s.program.scope sc).kind = .function := by
  obtain ⟨own, ho, -⟩ := h.function
  obtain ⟨hlt, -, hk⟩ := (hs.program.admits f h.lt).own sc h.own
  exact ⟨hlt, hk.2 ⟨own, Program.function?_eq_some.1 ho⟩⟩

/-- As long as its statements are not bound, there is no template in the scope. -/
theorem bare_mono (h : Begun s f role sc) (hbare : s.program.Bare sc) (ht : At k s t) : t.program.Bare sc := by
  obtain ⟨hlt, hk⟩ := h.kind ht.base
  exact ht.bare hbare hlt (by rintro ⟨⟩) (by rw [ht.later.scopes.kind sc hlt, hk]; simp)

/-- The context of the body of a function. -/
theorem ready (h : Begun s f role sc) (hs : s.Sound) (modifiers : Modifiers) :
    Ready s.program.nodes.size { scope := sc, function := some f, modifiers } s where
  sound := hs
  le := Nat.le_refl _
  scope := (h.kind hs).1
  function := by
    rintro _ ⟨⟩
    obtain ⟨own, ho, -⟩ := h.function
    rw [ho]
    rfl
  label := by rintro _ ⟨⟩

/-- **What stands in the body of a function is at home there**, or names exposed variables. -/
theorem inBody (h : Begun s f role sc) (hs : s.Sound) {c : Context} (hsc : c.scope = sc) (hf : c.function = some f)
    (hl : c.loopLabel = none) {n : NodeId} (hn : Kept k c s n) {own : FunctionDecl}
    (hret : ∀ a ty, s.program.function? f = some a → a.ret = some ty → own.ret = some ty) :
    s.program.InBody f own n where
  range := hn.range
  names x hx hv := by
    obtain ⟨a, ha, -⟩ := h.function
    have hk := (h.kind hs).2
    have hR : s.program.region? sc = some sc := Program.region?_of_ne_block _ (by rw [hk]; simp)
    have hseen := hn.names x hx hv
    rw [hsc] at hseen
    rcases hseen with he | hr | ⟨R, hR', hopen, -⟩
    · exact .inr he
    · exact .inl ⟨by rw [ha]; rfl, sc, by rw [hr, hR], .inl h.own⟩
    · rw [hR] at hR'
      cases hR'
      have hnone := hopen hk
      rw [h.owner] at hnone
      cases hnone
  returns _ ty hr := by
    obtain ⟨f', a, hf', ha, hty⟩ := hn.returns ty hr
    rw [hf] at hf'
    cases hf'
    exact hret a ty ha hty
  jumps again l hj := (hn.jumps trivial again l hj).holdsDefault hs.program hf hl fun hp => by
    rw [hsc]
    exact hp.own sc h.own

end Begun

namespace BindM

variable {floor : Floor} {k : Nat} {c g : Context} {s₀ s : BindState} {room : Room} {f : SymbolId} {role : Role}
  {sc : ScopeId}

/-- A function that is being made gets its return type. -/
theorem setReturnType_begun (hs : Via floor s₀ s) (hb : Begun s f role sc)
    (hret : ∀ a, s₀.program.function? f = some a → a.ret = none) (ty : Ty) :
    ∃ t, (setReturnType f ty).runAt c s = (some (), t) ∧ Via floor s₀ t ∧ Begun t f role sc ∧
      (s.program.Bare sc → t.program.Bare sc) := by
  obtain ⟨own, ho, hbody, hrole⟩ := hb.function
  refine ⟨_, setReturnType_run ho, setReturnType_via hs ho (.inl hbody) fun a _ ha hty => ?_, ⟨?_, hb.owner, ?_⟩,
    fun hbare => hbare.setDecl f (by simp)⟩
  · rw [hret a ha] at hty
    cases hty
  · exact (Program.ownScope_setDecl ..).trans hb.own
  · exact ⟨_, Program.function?_eq_some.2 (Program.decl_setDecl_self _ _ hb.lt), hbody, hrole⟩

/-- The statements of a function are bound in its own scope. Whether or not this fails, the function is still being
made. -/
theorem bodyStatements_ends {source : FunctionDef} {level : Level} {modifiers : Modifiers} (hl : level.Good)
    (hs : Via floor s₀ s) (hb : Begun s f role sc) (hret : ∀ a, s₀.program.function? f = some a → a.ret = none)
    (hbare : s.program.Bare sc) (hin : floor.scopes ≤ sc.index) :
    Ends (do
      if let some tree := source.returnType then
        setReturnType f ((← attempt (level.type tree)).getD .unknown)
      match source.body with
      | some body => level.body body
      | none =>
        error source.pos .bodyRequired [← symbolName f]
        return []) { scope := sc, function := some f, modifiers } s (fun t => Via floor s₀ t ∧ Begun t f role sc)
      fun nodes t => ∃ k, ∀ n ∈ nodes, Kept k { scope := sc, function := some f, modifiers } t n := by
  have hbody : ∀ t, Via floor s₀ t → Begun t f role sc → t.program.Bare sc → Ends (match source.body with
      | some body => level.body body
      | none => do
        error source.pos .bodyRequired [← symbolName f]
        return []) { scope := sc, function := some f, modifiers } t (fun t => Via floor s₀ t ∧ Begun t f role sc)
      fun nodes t => ∃ k, ∀ n ∈ nodes, Kept k { scope := sc, function := some f, modifiers } t n := by
    intro t ht hbt hbare
    split
    · rename_i body _
      have hk : (t.program.scope sc).kind ≠ .module := by rw [(hbt.kind ht.sound).2]; simp
      refine ((hl.body body _ t _ _ (hbt.ready ht.sound modifiers) (.of_bare ht.sound hk hbare)).weaken
        fun u hu => ?_).mono fun nodes u _ h => ⟨_, h⟩
      exact ⟨ht.chain hu (ht.le_body ht.le_size hin) fun _ _ => False.elim, hbt.mono hu⟩
    · refine .ask_bind (.bind ((error_ends (.start (hbt.ready ht.sound modifiers)) _ _ _).weaken fun u hu => ?_)
        fun _ u hu _ => .pure hu ⟨0, by simp⟩)
      exact ⟨ht.trans hu ht.le_size, hbt.mono hu⟩
  cases source.returnType with
  | none => exact hbody s hs hb hbare
  | some tree =>
    have hty : Ends (attempt (level.type tree)) { scope := sc, function := some f, modifiers } s
        (fun t => Via floor s₀ t ∧ Begun t f role sc) fun _ t => t.program.Bare sc := by
      refine .mono (.weaken (.and_reach (.attempt ((hl.type tree).ends (hb.ready hs.sound modifiers)))) fun t ht => ?_)
        fun _ t _ ht => hb.bare_mono hbare ht.1
      exact ⟨hs.trans ht hs.le_size, hb.mono ht⟩
    refine .bind hty fun ty t ht hbt => ?_
    obtain ⟨u, hrun, hu, hbu, hbareu⟩ := setReturnType_begun ht.1 ht.2 hret (ty.getD .unknown)
    exact .run_bind hrun (hbody u hu hbu (hbareu hbt))

/-- **A function gets its body and its return type.** -/
theorem bindFunctionBody_ends {source : FunctionDef} {modifiers : Modifiers} (hr : room.Good) (hs : Via floor s₀ s)
    (hb : Begun s f role sc) (hret : ∀ a, s₀.program.function? f = some a → a.ret = none)
    (hnew : floor.symbols ≤ f.index) (hbare : s.program.Bare sc) (hin : floor.scopes ≤ sc.index) :
    Ends (bindFunctionBody room f source sc modifiers) c s (Via floor s₀) fun _ t =>
      ∃ own, t.program.function? f = some own ∧ own.role = role := by
  refine .run_bind rfl ?_
  have hbody : Ends (attempt (room.inContext sc (some f) modifiers source.pos fun level => do
      if let some tree := source.returnType then
        setReturnType f ((← attempt (level.type tree)).getD .unknown)
      match source.body with
      | some body => level.body body
      | none =>
        error source.pos .bodyRequired [← symbolName f]
        return [])) c s (fun t => Via floor s₀ t ∧ Begun t f role sc) fun nodes t => ∃ k, ∀ n ∈ nodes.getD [],
          Kept k { scope := sc, function := some f, modifiers := modifiers.inherited } t n := by
    refine .mono (.attempt (enter_ends hr ?_ fun level hl =>
      bodyStatements_ends hl hs hb hret hbare hin)) ?_
    · exact fun log hlog => ⟨hs.quiet hlog, hb.own, hb.owner, hb.function⟩
    · rintro (_ | nodes) t - h
      · exact ⟨0, by simp⟩
      · exact h nodes rfl
  refine .bind (hbody.and_reach.weaken fun t ht => ht.1) ?_
  rintro nodes t ht ⟨⟨-, hbt⟩, k, hnodes⟩
  obtain ⟨own, ho, -, hrole⟩ := hbt.function
  obtain ⟨hrec, -, -⟩ := ht.sound.program.function ho
  refine .run_bind rfl (.mono (modifyFunction_ends ht ho ?_ fun a _ ha hty => ?_) ?_)
  · refine ht.sound.program.amends_function (Program.function?_eq_some.1 ho) rfl rfl rfl
      (fun _ => by cases own.ret <;> rfl) hrec
      (fun n hn => hbt.inBody ht.sound rfl rfl rfl (hnodes n hn) fun a ty ha hty => ?_) (fun hn => ?_)
      (fun _ _ _ => ⟨rfl, rfl⟩) fun hlt => ?_
    · rw [ho] at ha
      cases ha
      rw [hty]
      rfl
    · cases hown : own.ret <;> rw [hown] at hn <;> cases hn
    · exact absurd hlt (Nat.not_lt.2 hnew)
  · rw [hret a ha] at hty
    cases hty
  · rintro _ u - rfl
    exact ⟨_, Program.function?_eq_some.2 (Program.decl_setDecl_self _ _ hbt.lt), hrole⟩

/-! ## Modules -/

/-- A module is done when it has an entry. -/
theorem setDone_ends (hs : Via floor s₀ s) {m : SymbolId} {own : ModuleDecl} (hm : s.program.module? m = some own)
    (he : own.entry.isSome) :
    Ends (setStatus m .done) c s (Via floor s₀) fun _ t =>
      t = { s with program := s.program.setDecl m (.module { own with status := .done }) } :=
  modifyModule_ends hs hm (hs.sound.program.amends_module (Program.module?_eq_some.1 hm) rfl (fun _ h => h)
    ⟨by rintro ⟨⟩, fun h => by rw [show own.entry = none from h] at he; cases he⟩ fun _ h => .inl h) (.inl rfl)

/-- A module that is begun has its entry from the start. -/
theorem beginModule_bind {α : Type} {m : SymbolId} {own : ModuleDecl} {x : Symbol} {rule : SymbolId → BindM α}
    {post : α → BindState → Prop} (hs : Via floor s₀ s) (hp : floor.pending m .busy) (hm : s.program.module? m = some own)
    (hi : own.status = .idle) (ha : s.program.Admits s.program.nextSymbol x)
    (hf : ∃ function, x.decl = .function function) (ho : x.ownScope = none)
    (hsc : (s.program.symbol m).ownScope = some x.scope) (h : ∀ e t, Via floor s₀ t → e = s.program.nextSymbol → t.program =
      (s.program.addSymbol x).setDecl m (.module { own with status := .busy, entry := some e }) →
      Ends (rule e) c t (Via floor s₀) post) :
    Ends (do
      setStatus m .busy
      let entry ← addSymbol x
      modifyProgram (·.modifyModule m ({ · with entry := some entry }))
      rule entry) c s (Via floor s₀) post := by
  have hlt := Program.lt_of_module hm
  have hd := Program.module?_eq_some.1 hm
  obtain ⟨function, hf⟩ := hf
  have hentry : own.entry = none := (hs.sound.program.module hm).1.1 hi
  have hadded := hs.restart.toTrail.edit (.symbol x (.of_plain ha (by rw [hf]; rfl) (by simp [ho])) (by simp [hf]))
    fun _ hf => Program.decl_addSymbol_of_lt _ x hf
  have hd' : (s.program.addSymbol x).decl m = .module own := by rw [Program.decl_addSymbol_of_lt _ _ hlt, hd]
  -- the module might as well be marked after the entry is added
  have hmark : (s.program.modifyModule m ({ · with status := .busy })).addSymbol x =
      (s.program.addSymbol x).setDecl m (.module { own with status := .busy }) := by
    rw [Program.modifyModule, hd, Program.addSymbol_setDecl _ _ _ hlt]
  have hnext : (s.program.modifyModule m ({ · with status := .busy })).nextSymbol = s.program.nextSymbol := by
    rw [Program.modifyModule, hd, Program.nextSymbol, Program.nextSymbol, Program.size_symbols_setDecl]
  have hentered : ((s.program.modifyModule m ({ · with status := .busy })).addSymbol x).modifyModule m
      ({ · with entry := some s.program.nextSymbol }) = (s.program.addSymbol x).setDecl m
        (.module { own with status := .busy, entry := some s.program.nextSymbol }) := by
    rw [hmark, Program.modifyModule, Program.decl_setDecl_self _ _ (by simp; omega)]
    exact Program.setDecl_setDecl _ _ _ _
  refine .run_bind rfl (.run_bind rfl (.run_bind rfl ?_))
  dsimp only
  rw [hnext, hentered]
  have hbegun := hadded.amend (d := .module { own with status := .busy, entry := some s.program.nextSymbol })
    (hadded.sound.program.amends_module hd' rfl ?_ (by simp) ?_) (by rintro _ _ _ _ _ ⟨⟩)
  · have hne : m ≠ s.program.nextSymbol := by
      rintro rfl
      exact Nat.lt_irrefl _ hlt
    refine h _ _ (hs.extend (hs.toTrail.comp hbegun) hbegun.later (.of_begun hbegun.later hp
      (Program.module?_eq_some.2 (Program.decl_setDecl_self _ _ (by simp; omega))) rfl (by simp) ?_ ?_ ?_ ?_)) rfl rfl
    · simp [Program.symbol_setDecl, hne, ho]
    · rw [Program.decl_setDecl_of_ne _ _ hne, Program.decl_addSymbol_next, hf]
      rintro ⟨_, ⟨⟩, -⟩
    · rw [show ((s.program.addSymbol x).setDecl m _).symbol s.program.nextSymbol = x by simp [Program.symbol_setDecl, hne],
        Program.ownScope_setDecl, Program.symbol_addSymbol_of_lt _ _ hlt, hsc]
    · intro m' own' hm' h
      rw [Program.module?_eq_some, Program.decl_setDecl_of_ne _ _ (Ne.symm hm'), Program.decl_addSymbol] at h
      split at h
      · rw [hf] at h
        cases h
      · exact Program.module?_eq_some.2 h
  · intro e h
    rw [hentry] at h
    cases h
  · rintro _ ⟨⟩
    refine .inr ⟨by simp [Program.nextSymbol], ?_, by simp [Program.nextSymbol], ?_, ?_⟩
    · rw [Program.function?_eq_some.2 ((Program.decl_addSymbol_next _ _).trans hf)]
      rfl
    · rw [Program.symbol_addSymbol_next, ho]
    · rw [Program.symbol_addSymbol_next, Program.symbol_addSymbol_of_lt _ _ hlt, hsc]

/-- **What stands in a module is at home in its entry**, or names exposed variables: whatever lies around a module is
exposed. -/
theorem inBody_entry {p : Program} (hp : p.Sound) {m e : SymbolId} {own : ModuleDecl} {sc : ScopeId}
    (hm : p.module? m = some own) (he : own.entry = some e) (hsc : (p.symbol m).ownScope = some sc)
    {a : FunctionDecl} (ha : p.function? e = some a) {n : NodeId} (hlt : n.index < p.nodes.size)
    (hn : ∀ x, p.Names n x → (p.decl x).isVariable → p.Seen sc x) (hr : ∀ ty, p.Returns n ty → a.ret = some ty)
    (hj : ∀ again l, p.Leaves n again l → p.HoldsDefault (p.symbol l).scope)
    {b : FunctionDecl} (hb : b.ret = a.ret) : p.InBody e b n := by
  refine ⟨hlt, fun x hx hv => ?_, fun _ ty hty => by rw [hb]; exact hr ty hty, hj⟩
  have hk : (p.scope sc).kind = .module := (hp.module hm).2.1 sc hsc
  have hR : p.region? sc = some sc := Program.region?_of_ne_block _ (by rw [hk]; simp)
  rcases hn x hx hv with hex | hreg | ⟨R, hR', -, ha⟩
  · exact .inr hex
  · exact .inl ⟨by rw [ha]; rfl, sc, by rw [hreg, hR], .inr ⟨m, own, hm, he, hsc⟩⟩
  · rw [hR] at hR'
    cases hR'
    exact .inr (.module sc hk ha)

theorem bindModuleBody_ends (hr : room.Good) (hg : Ready k g s) {m : SymbolId} {own : ModuleDecl} {source : ModuleDef}
    {sc : ScopeId} (hm : s.program.module? m = some own) (hi : own.status = .idle)
    (hsc : (s.program.symbol m).ownScope = some sc) :
    Ends (bindModuleBody room m source sc) c s (At k s) fun _ t =>
      ∃ own, t.program.module? m = some own ∧ own.entry.isSome ∧ own.status = .done := by
  have hmlt := Program.lt_of_module hm
  obtain ⟨hsclt, -⟩ := (hg.sound.program.admits m hmlt).own sc hsc
  -- the module is half bound on the way, and nothing fails before it is done
  have hstart : Via { s.floor k with pending := fun m' _ => m' = m } s s :=
    (Via.start hg).expect fun _ _ => id
  suffices hmain : Ends (bindModuleBody room m source sc) c s (Via { s.floor k with pending := fun m' _ => m' = m } s) fun _ t =>
      ∃ own, t.program.module? m = some own ∧ own.entry.isSome ∧ own.status = .done by
    refine hmain.of_isSome rfl fun _ t ht ⟨own, hown, _, hdone⟩ => ht.discharge (fun m' own' hm' hpending => ?_) ?_
    · rw [show m' = m from hpending, hown] at hm'
      cases hm'
      exact .inl hdone
    · rintro x ⟨own', hd, -⟩ hpending
      rw [show x = m from hpending, Program.module?_eq_some.1 hown] at hd
      cases hd
  refine beginModule_bind hstart rfl hm hi
    ⟨hsclt, by rintro _ ⟨⟩, .of_role rfl, by rintro _ ⟨⟩, by rintro _ ⟨⟩, by rintro ⟨⟩⟩ ⟨_, rfl⟩ rfl hsc
    fun e v hv he hveq => ?_
  have hnew : s.program.symbols.size ≤ e.index := by
    rw [he]
    simp [Program.nextSymbol]
  have hmv : v.program.module? m = some { own with status := .busy, entry := some e } := by
    rw [hveq, Program.module?_eq_some, Program.decl_setDecl_self _ _ (by simp; omega)]
  have hne : m ≠ e := by
    rintro rfl
    omega
  have hev : v.program.function? e = some { role := .plain, ret := some .void } := by
    rw [hveq, Program.function?_eq_some, Program.decl_setDecl_of_ne _ _ hne, he, Program.decl_addSymbol_next]
  have hc : Ready v.program.nodes.size { scope := sc, function := some e, modifiers := Modifiers.none.inherited } v := by
    refine ⟨hv.sound, Nat.le_refl _, Nat.lt_of_lt_of_le hsclt hv.later.scopes.size, ?_, by rintro _ ⟨⟩⟩
    rintro _ ⟨⟩
    rw [hev]
    rfl
  have hopens : Opens s.program.Coherent none sc v := by
    have hscv : (v.program.symbol m).ownScope = some sc := by rw [hv.later.ownScope m hmlt, hsc]
    refine ⟨hv.coherent, fun hcoh => ⟨?_, fun m' own' hm' hsc' => ?_⟩, .inr ((hv.sound.program.module hmv).2.1 sc hscv)⟩
    · rw [hveq]
      exact ((hcoh.reserved.idle m own sc hm hi hsc).addSymbol (by simp)).setDecl m (by simp)
    · obtain rfl := (hv.coherent hcoh).reserved.own m m' sc hscv hsc'
      rw [hmv] at hm'
      cases hm'
      simp
  have hbody : Ends (attempt (room.inContext sc (some e) .none source.pos fun level => level.body source.body)) c v
      (AtBody v.program.nodes.size none s.program.Coherent v) fun nodes w => ∀ n ∈ nodes.getD [], Kept v.program.nodes.size
        { scope := sc, function := some e, modifiers := Modifiers.none.inherited } w n := by
    refine .mono (.attempt (inContext_ends hr (AtBody.start hc hopens.base) fun level hl =>
      hl.body source.body _ v _ _ hc hopens)) ?_
    rintro (_ | nodes) w - h
    · simp
    · exact h nodes rfl
  have hle : ({ s.floor k with pending := fun m' _ => m' = m } : Floor) ≤
      { v.floor v.program.nodes.size with coherent := s.program.Coherent } := by
    obtain ⟨ho, hn, hc, hs, hb, hm, -⟩ := hv.le_floor hv.le_size
    exact ⟨ho, hn, hc, hs, hb, hm, id⟩
  refine .chain hv hle (fun _ _ => False.elim) hbody fun nodes w hw hvw hnodes => ?_
  obtain ⟨a, ha, -⟩ := hvw.later.function hev
  obtain ⟨own', hm', -, he'⟩ := hvw.later.module hmv
  have hret : a.ret = some .void := hvw.rets e _ a .void hev rfl ha
  have hscw : (w.program.symbol m).ownScope = some sc := by rw [hw.later.ownScope m hmlt, hsc]
  refine .bind (modifyFunction_ends hw ha ?_ fun _ _ h => absurd (Program.lt_of_function h) (Nat.not_lt.2 hnew)) ?_
  · refine hw.sound.program.amends_function (Program.function?_eq_some.1 ha) rfl rfl rfl id
      (hw.sound.program.function ha).1 (fun n hn => ?_) (fun h => ?_) (fun _ _ _ => ⟨rfl, rfl⟩)
      fun hlt => absurd hlt (Nat.not_lt.2 hnew)
    · have hn := hnodes n hn
      refine inBody_entry hw.sound.program hm' (he' e rfl) hscw ha hn.range hn.names (fun ty hty => ?_)
        (fun again l hj => (hn.jumps trivial again l hj).holdsDefault hw.sound.program rfl rfl fun hp => ?_) rfl
      · obtain ⟨_, b, ⟨⟩, hb, hbret⟩ := hn.returns ty hty
        rw [ha] at hb
        cases hb
        exact hbret
      · have hes := (hw.sound.program.opening hm' (he' e rfl)).scope
        rw [hscw] at hes
        cases hes
        exact hp.scope
    · rw [hret] at h
      cases h
  rintro _ z hz hzeq
  have hmz : z.program.module? m = some own' := by
    rw [hzeq, Program.module?_eq_some, Program.decl_setDecl_of_ne _ _ (Ne.symm hne), ← Program.module?_eq_some, hm']
  refine .mono (setDone_ends hz hmz (by rw [he' e rfl]; rfl)) ?_
  rintro _ y - rfl
  exact ⟨_, Program.module?_eq_some.2 (Program.decl_setDecl_self _ _ (Program.lt_of_module hmz)), by rw [he' e rfl]; rfl,
    rfl⟩

/-- **A module is bound once**, when it is first used, and then has an entry. It is done unless it was being bound. -/
theorem bindModule_ends (hr : room.Good) (hg : Ready k g s) {m : SymbolId} :
    Ends (bindModule room m) c s (At k s) fun _ t => ∀ own, s.program.module? m = some own →
      ∃ own', t.program.module? m = some own' ∧ own'.entry.isSome ∧ (own.status ≠ .busy → own'.status = .done) := by
  refine .ask_bind (.ask_bind ?_)
  split
  · rename_i own sc hm hsc
    refine .ite (fun hi => ?_) fun hi => .pure (.start hg) fun own' hm' => ?_
    · exact (bindModuleBody_ends hr hg hm hi hsc).mono fun _ _ _ ⟨own, hm, he, hd⟩ _ _ => ⟨own, hm, he, fun _ => hd⟩
    · rw [hm] at hm'
      cases hm'
      refine ⟨own, hm, Option.isSome_iff_ne_none.2 fun h => hi ((hg.sound.program.module hm).1.2 h), fun hb => ?_⟩
      cases hst : own.status with
      | idle => exact absurd hst hi
      | busy => exact absurd hst hb
      | done => rfl
  · rename_i hnone
    refine .pure (.start hg) fun own hm => ?_
    obtain ⟨sc, hsc⟩ := Option.isSome_iff_exists.1 (hg.sound.program.moduleScope hm)
    exact absurd hsc (hnone own sc hm)

theorem moduleScope_ends (hr : room.Good) (hg : Ready k g s) {m : SymbolId} :
    Ends (moduleScope room m) c s (At k s) fun sc t => (t.program.scope sc).kind = .module := by
  refine .ask_bind ?_
  cases hm : s.program.module? m with
  | none => exact .failure (.start hg)
  | some own =>
    refine .bind (bindModule_ends hr hg) fun _ t ht _ => .ask_bind ?_
    cases hsc : (t.program.symbol m).ownScope with
    | none => exact .failure ht
    | some sc =>
      obtain ⟨own', hm', -⟩ := ht.later.module hm
      exact .pure ht ((ht.sound.program.module hm').2.1 sc hsc)

end BindM

end Bindery
