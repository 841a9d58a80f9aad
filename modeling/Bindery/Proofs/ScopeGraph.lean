import Bindery.Proofs.Binding
/-!
# The graph of scopes and symbols

Scopes and symbols refer to each other: a scope to the one around it, to its owner and to the symbols that it names, a
symbol to the scope that it stands in and to its own. A step adds to one side at a time, and keeps what each table says
by itself: every scope but the outermost lies in an older one, no name occurs twice in a scope, and a name leads to a
symbol of that name and place. That owners and their scopes belong to each other holds where all that was begun is
settled.
-/
namespace Bindery

/-- A name that is not found stands in neither table of the scope. -/
theorem Scope.ne_of_find?_eq_none {scope : Scope} {name : String} (h : scope.find? name = none) :
    ∀ e ∈ scope.symbols ++ scope.others, e.1 ≠ name := by
  unfold find? get? getOther? at h
  rcases hs : scope.symbols.lookup name with _ | x <;> rw [hs] at h
  · have ho : scope.others.lookup name = none := h
    rintro e he rfl
    rcases List.mem_append.1 he with he | he
    · simpa using List.lookup_eq_none_iff.1 hs e he
    · simpa using List.lookup_eq_none_iff.1 ho e he
  · cases h

namespace Program

variable {p q : Program}

/-- What the tables of the scopes say: only the outermost scope has none around it, no name occurs twice in a scope, and
every name leads to a symbol of the scope with that name. -/
structure Charted (p : Program) : Prop where
  parent : ∀ sc : ScopeId, sc.index < p.scopes.size → ((p.scope sc).parent = none ↔ sc = .builtin)
  names : ∀ sc, (((p.scope sc).symbols ++ (p.scope sc).others).map Prod.fst).Nodup
  entries : ∀ sc, ∀ e ∈ (p.scope sc).symbols ++ (p.scope sc).others,
    e.2.index < p.symbols.size ∧ (p.symbol e.2).name = e.1 ∧ (p.symbol e.2).scope = sc

namespace Charted

/-- Symbols that keep their names and their scopes leave the tables as they are. -/
theorem of_scopes (h : p.Charted) (hs : q.scopes = p.scopes) (hle : p.symbols.size ≤ q.symbols.size)
    (hsym : ∀ x : SymbolId, x.index < p.symbols.size →
      (q.symbol x).name = (p.symbol x).name ∧ (q.symbol x).scope = (p.symbol x).scope) : q.Charted := by
  have hscope : ∀ sc, q.scope sc = p.scope sc := fun sc => by rw [scope, hs, scope]
  refine ⟨fun sc hlt => ?_, fun sc => ?_, fun sc e he => ?_⟩
  · rw [hscope]
    exact h.parent sc (hs ▸ hlt)
  · rw [hscope]
    exact h.names sc
  · rw [hscope] at he
    obtain ⟨hlt, hname, hsc⟩ := h.entries sc e he
    obtain ⟨hn, hp⟩ := hsym e.2 hlt
    exact ⟨Nat.lt_of_lt_of_le hlt hle, hn.trans hname, hp.trans hsc⟩

theorem setDecl (h : p.Charted) (id : SymbolId) (d : Decl) : (p.setDecl id d).Charted := by
  refine h.of_scopes rfl (Nat.le_of_eq (size_symbols_setDecl _ _ _).symm) fun x _ => ?_
  rw [symbol_setDecl]
  split <;> exact ⟨rfl, rfl⟩

/-- A scope that is changed keeps its place, and its tables are those of before with more names. -/
theorem modifyScope (h : p.Charted) {sc : ScopeId} {f : Scope → Scope} (hp : (f (p.scope sc)).parent = (p.scope sc).parent)
    (hn : (((f (p.scope sc)).symbols ++ (f (p.scope sc)).others).map Prod.fst).Nodup)
    (he : ∀ e ∈ (f (p.scope sc)).symbols ++ (f (p.scope sc)).others, e ∈ (p.scope sc).symbols ++ (p.scope sc).others ∨
      (e.2.index < p.symbols.size ∧ (p.symbol e.2).name = e.1 ∧ (p.symbol e.2).scope = sc)) :
    (p.modifyScope sc f).Charted := by
  have hscope : ∀ sc', (p.modifyScope sc f).scope sc' = p.scope sc' ∨
      (sc' = sc ∧ (p.modifyScope sc f).scope sc' = f (p.scope sc)) := fun sc' => by
    rw [scope_modifyScope]
    split
    · rename_i heq
      rw [← heq.1]
      exact .inr ⟨rfl, rfl⟩
    · exact .inl rfl
  refine ⟨fun sc' hlt => ?_, fun sc' => ?_, fun sc' e hmem => ?_⟩
  · rw [size_scopes_modifyScope] at hlt
    rcases hscope sc' with hsc | ⟨rfl, hsc⟩ <;> rw [hsc]
    · exact h.parent sc' hlt
    · rw [hp]
      exact h.parent sc' hlt
  · rcases hscope sc' with hsc | ⟨rfl, hsc⟩ <;> rw [hsc]
    · exact h.names sc'
    · exact hn
  · rcases hscope sc' with hsc | ⟨rfl, hsc⟩ <;> rw [hsc] at hmem
    · exact h.entries sc' e hmem
    · exact (he e hmem).elim (h.entries sc' e) id

/-- A name that is new to a scope is put into one of its tables. -/
theorem insert (h : p.Charted) {sc : ScopeId} {name : String} {id : SymbolId} {f : Scope → Scope}
    (hp : (f (p.scope sc)).parent = (p.scope sc).parent)
    (hf : ((f (p.scope sc)).symbols ++ (f (p.scope sc)).others).Perm
      ((name, id) :: ((p.scope sc).symbols ++ (p.scope sc).others)))
    (hn : (p.scope sc).find? name = none) (hlt : id.index < p.symbols.size) (hs : (p.symbol id).scope = sc)
    (hname : (p.symbol id).name = name) : (p.modifyScope sc f).Charted := by
  refine h.modifyScope hp ?_ fun e he => ?_
  · rw [(hf.map Prod.fst).nodup_iff, List.map_cons, List.nodup_cons]
    refine ⟨fun hmem => ?_, h.names sc⟩
    obtain ⟨e, he, heq⟩ := List.mem_map.1 hmem
    exact Scope.ne_of_find?_eq_none hn e he heq
  · rcases List.mem_cons.1 (hf.mem_iff.1 he) with rfl | he
    · exact .inr ⟨hlt, hname, hs⟩
    · exact .inl he

theorem addScope (h : p.Charted) {kind : ScopeKind} {parent : ScopeId} (hlt : 0 < p.scopes.size) :
    (p.addScope { kind, parent, owner := none }).Charted := by
  refine ⟨fun sc hsc => ?_, fun sc => ?_, fun sc e he => ?_⟩
  · rw [scope_addScope]
    split
    · rename_i heq
      refine ⟨by rintro ⟨⟩, ?_⟩
      rintro rfl
      have : p.nextScope.index = 0 := by rw [← heq]; rfl
      simp only [nextScope] at this
      omega
    · rename_i hne
      refine h.parent sc ?_
      have : sc.index ≠ p.scopes.size := fun heq => hne (ScopeId.ext heq)
      rw [size_scopes_addScope] at hsc
      omega
  · rw [scope_addScope]
    split
    · exact .nil
    · exact h.names sc
  · rw [scope_addScope] at he
    split at he
    · cases he
    · exact h.entries sc e he

end Charted

/-- **An edit keeps what the tables say.** -/
theorem Edit.charted {floor : Floor} (h : p.Charted) (hp : 0 < p.scopes.size) (he : p.Edit floor q) : q.Charted := by
  cases he with
  | node | retype | tuple | modules => exact h.of_scopes rfl (Nat.le_refl _) fun _ _ => ⟨rfl, rfl⟩
  | symbol x | array x =>
    have hle : p.symbols.size ≤ (p.addSymbol x).symbols.size := by simp
    refine h.of_scopes rfl hle fun y hy => ?_
    show ((p.addSymbol x).symbol y).name = _ ∧ ((p.addSymbol x).symbol y).scope = _
    rw [symbol_addSymbol_of_lt _ _ hy]
    exact ⟨rfl, rfl⟩
  | name sc name id hn hlt hs hname =>
    refine h.insert rfl ?_ hn hlt hs hname
    simp [Scope.insert]
  | other sc name id hn hlt hs hname =>
    refine h.insert rfl ?_ hn hlt hs hname
    simpa [Scope.insertOther] using List.perm_append_singleton (name, id) ((p.scope sc).symbols ++ (p.scope sc).others)
  | scope kind parent => exact h.addScope hp
  | owner sc f => exact h.modifyScope rfl (h.names sc) fun e he => .inl he
  | decl id d => exact h.setDecl id d

/-- The outermost scope names the builtin types, each at its place. -/
theorem initial_charted (w : Nat) : (initial w).Charted := by
  refine ⟨fun sc hlt => ?_, fun sc => ?_, fun sc e he => ?_⟩
  · have hlt : sc.index < 2 := hlt
    rw [scope_initial]
    obtain ⟨_ | _ | i⟩ := sc
    · exact ⟨fun _ => rfl, fun _ => rfl⟩
    · exact ⟨by rintro ⟨⟩, by rintro ⟨⟩⟩
    · simp only at hlt
      omega
  · rw [scope_initial]
    split
    · decide +kernel
    · split <;> exact .nil
  · rw [scope_initial] at he
    split at he
    · rename_i h0
      have he : e ∈ Builtin.all.mapIdx fun i e => (e.1, (⟨i⟩ : SymbolId)) := by simpa [builtinScopes] using he
      obtain ⟨i, hi, rfl⟩ := List.mem_mapIdx.1 he
      have hsym := symbol_initial (w := w) (List.getElem?_eq_getElem hi)
      refine ⟨by simpa [initial, builtinSymbols] using hi, by rw [hsym]; rfl, ?_⟩
      rw [hsym]
      exact (ScopeId.ext h0).symm
    · split at he <;> cases he

theorem initial_owned (w : Nat) : (initial w).Owned := by
  intro x sc hx
  rw [ownScope_initial] at hx
  cases hx

/-- The scopes of a chart lead outward to the outermost one. -/
theorem Charted.reaches_builtin (h : p.Charted) (hp : p.Nested) : ∀ sc : ScopeId, sc.index < p.scopes.size →
    Relation.ReflTransGen (fun inner outer => (p.scope inner).parent = some outer) sc .builtin := by
  intro sc
  induction hn : sc.index using Nat.strongRecOn generalizing sc with
  | ind n ih =>
    intro hlt
    cases hparent : (p.scope sc).parent with
    | none => rw [(h.parent sc (hn ▸ hlt)).1 hparent]
    | some parent =>
      have hsmall := hp sc parent hparent
      exact .head hparent (ih parent.index (hn ▸ hsmall) parent rfl (by omega))

/-- A program in which owners are set says the same of its symbols and of its scopes. -/
theorem Owned.iff (h : p.Owned) (hp : p.Sound) (hr : p.Reserved) (x : SymbolId) (sc : ScopeId) :
    (p.symbol x).ownScope = some sc ↔ (p.scope sc).owner = some x := by
  refine ⟨fun hx => ?_, hp.owner sc x⟩
  obtain ⟨f, hf⟩ := Option.isSome_iff_exists.1 (h x sc hx)
  rw [hf, hr.own x f sc hx (hp.owner sc f hf)]

end Program

namespace BindState

variable {options : BindOptions} {names : NameTable} {s t : BindState}

/-- **A step keeps what the tables say.** -/
theorem Step.charted {floor : Floor} (hs : s.Sound) (h : s.program.Charted) (hst : Step floor s t) : t.program.Charted := by
  cases hst with
  | edit program he => exact he.charted h (Nat.lt_of_succ_lt hs.program.scopes)
  | quiet => exact h
  | record template fingerprint made _ _ he =>
    obtain ⟨own, ht⟩ := Option.isSome_iff_exists.1 he.declared
    show (s.program.registerInstance template fingerprint made).Charted
    rw [Program.registerInstance_eq ht]
    exact (h.setDecl template _).of_scopes rfl (Nat.le_refl _) fun _ _ => ⟨rfl, rfl⟩

theorem Reached.charted (h : Reached options names s) : s.program.Charted := by
  induction h with
  | refl => exact Program.initial_charted _
  | tail hs hst ih => exact hst.charted (Reached.sound hs) ih

/-- **The graph of scopes and symbols is consistent**, whatever is bound. The builtin scope has no parent, and every other
scope has an older one, so that the way outward from a scope ends there. In a scope no name occurs twice, among its own
symbols and the imported ones together, and each leads to a symbol of that name that stands in the scope. A scope is the own
one of a symbol exactly if the symbol is its owner. -/
theorem bindAll_scopeGraph (options : BindOptions) (names : NameTable) (batches : List (List ModuleDef)) :
    let p := (bindAll options names batches).program
    (p.scope .builtin).parent = none ∧
    (∀ sc, sc ≠ .builtin → sc.index < p.scopes.size → ∃ parent, (p.scope sc).parent = some parent ∧
      parent.index < sc.index) ∧
    (∀ sc : ScopeId, sc.index < p.scopes.size →
      Relation.ReflTransGen (fun inner outer => (p.scope inner).parent = some outer) sc .builtin) ∧
    (∀ sc, (((p.scope sc).symbols ++ (p.scope sc).others).map Prod.fst).Nodup) ∧
    (∀ sc name id, (name, id) ∈ (p.scope sc).symbols ++ (p.scope sc).others →
      id.index < p.symbols.size ∧ (p.symbol id).name = name ∧ (p.symbol id).scope = sc) ∧
    ∀ x sc, (p.symbol x).ownScope = some sc ↔ (p.scope sc).owner = some x := by
  intro p
  have hreached := (bindAll_reached options names batches).1
  have hp : p.Sound := hreached.sound.program
  have hchart : p.Charted := hreached.charted
  have howned : p.Owned := (bindAll_settles options names batches).owned (Program.initial_owned _)
  refine ⟨(hchart.parent .builtin (Nat.lt_of_succ_lt hp.scopes)).2 rfl, fun sc hne hlt => ?_,
    hchart.reaches_builtin hp.nested, hchart.names, fun sc name id he => hchart.entries sc (name, id) he,
    howned.iff hp hreached.coherent.reserved⟩
  cases hparent : (p.scope sc).parent with
  | none => exact absurd ((hchart.parent sc hlt).1 hparent) hne
  | some parent => exact ⟨parent, rfl, hp.nested sc parent hparent⟩

end BindState

end Bindery
