import Bindery.Proofs.Nodes
import Bindery.Proofs.Symbols
/-!
# Rules that declare modules, aggregates and templates

A scope that is made for a symbol is new, gets the symbol for its owner, and no other symbol has it for its own. A
template that has to make room for an overload set moves to another symbol as it is.
-/
namespace Bindery

/-- What is declared together with a scope that is made for it. -/
def Decl.opens : Decl → Bool
  | .module _ | .function _ | .enum _ => true
  | _ => false

namespace BindM

variable {floor : Floor} {k : Nat} {c g : Context} {s₀ s : BindState}

/-- A symbol was declared with a new scope of its own. -/
structure Opened (s t : BindState) (kind : ScopeKind) (x : Symbol) (sc : ScopeId) (id : SymbolId) : Prop where
  symbol : t.program.symbol id = x
  ownKind : (t.program.scope sc).kind = kind
  owner : (t.program.scope sc).owner = some id
  range : sc.index < t.program.scopes.size
  memo : t.program.memo = s.program.memo
  next : id = s.program.nextSymbol
  bare : t.program.Bare sc

theorem Opened.decl {t : BindState} {kind : ScopeKind} {x : Symbol} {sc : ScopeId} {id : SymbolId}
    (h : Opened s t kind x sc id) : t.program.decl id = x.decl := by rw [Program.decl, h.symbol]

/-- No instance that was recorded before is the symbol that was just declared. -/
theorem Opened.unrecorded {t : BindState} {kind : ScopeKind} {x : Symbol} {sc : ScopeId} {id : SymbolId}
    (h : Opened s t kind x sc id) (hs : s.Sound) : ∀ e ∈ t.program.memo, e.2 ≠ id := by
  intro e he heq
  rw [h.memo] at he
  have := (hs.memo e he).range
  rw [heq, h.next] at this
  exact Nat.lt_irrefl _ this

/-- **A symbol is declared and owns a scope that was made for it.** -/
theorem declareOpened_bind {α : Type} {kind : ScopeKind} {scope : ScopeId} {name : String} {pos : Span} {d : Decl}
    {f : ScopeId → SymbolId → BindM α} {Q : α → BindState → Prop} (hs : Via floor s₀ s)
    (hsc : scope.index < s.program.scopes.size) (hk : kind ≠ .block) (hf : kind = .function ↔ ∃ own, d = .function own)
    (ho : (s.program.addScope { kind, parent := scope, owner := none }).InOrder s.program.nextSymbol
      { name, scope, ownScope := s.program.nextScope, pos, decl := d })
    (hd : d.opens)
    (hm : ∀ own, d = .module own → own.entry = none ∧ (floor.pending s.program.nextSymbol own.status ∨
      (own.status = .idle ∧ (s.program.scope scope).kind = .struct)))
    (hrest : ∀ (sc : ScopeId) id t, Via floor s₀ t → Opened s t kind { name, scope, ownScope := sc, pos, decl := d } sc id →
      Ends (f sc id) c t (Via floor s₀) Q) :
    Ends (do
      let own ← addScope kind scope
      let id ← declare scope { name, scope, ownScope := own, pos, decl := d }
      setOwner own id
      f own id) c s (Via floor s₀) Q := by
  have hnew : floor.scopes ≤ s.program.nextScope.index := (hs.le_floor hs.le_size).2.2.1
  refine .run_bind rfl ?_
  have hadd : Via floor s₀ { s with program := s.program.addScope { kind, parent := scope, owner := none } } :=
    hs.edit (.scope kind scope hsc) rfl
  have hx : (s.program.addScope { kind, parent := scope, owner := none }).Addable floor
      { name, scope, ownScope := s.program.nextScope, pos, decl := d } := by
    refine ⟨⟨?_, ?_, ho⟩, ?_, ?_, fun own hd => ⟨(hm own hd).1, ?_⟩, ?_, ?_, fun _ => ?_, ?_⟩
    · simpa using Nat.lt_succ_of_lt hsc
    · rintro _ ⟨⟩
      simpa [Program.nextScope, Program.scope_addScope] using ⟨hk, hf⟩
    · rintro _ rfl
      cases hd
    · rintro _ ⟨⟩
      exact ⟨hnew, hs.sound.program.ownScope_ne_next⟩
    · rintro _ ⟨⟩
      exact .of_addScope hs.sound.program _
    all_goals
      rintro _ rfl
      cases hd
  have howning : Owning floor { s with program := s.program.addScope { kind, parent := scope, owner := none } }
      { name, scope, ownScope := s.program.nextScope, pos, decl := d } s.program.nextScope := by
    refine ⟨rfl, hnew, by simp [Program.nextScope], by simp, fun own hd => (hm own hd).2.imp_right fun hidle => ?_, ?_⟩
    · exact ⟨hidle.1, by simpa using Nat.lt_succ_of_lt hsc, by rw [← hidle.2, Program.scope_addScope_of_lt _ _ hsc]⟩
    · rintro ⟨_, rfl, -⟩
      cases hd
  rcases declare_run (c := c) hadd rfl hx (hx.ne_array rfl) with ⟨t, hrun, htrail, hid⟩ | ⟨log, hrun, hlog⟩
  · have hkind : (t.program.scope s.program.nextScope).kind = kind := by rw [hid.kind]; simp
    have hrange : s.program.nextScope.index < t.program.scopes.size := by rw [hid.size]; simp [Program.nextScope]
    have hlast : t.program.scopes.size = s.program.nextScope.index + 1 := by rw [hid.size]; simp [Program.nextScope]
    refine .run_bind hrun (.run_bind rfl (hrest _ _ _ (howning.via hadd htrail hid.symbols (hid.owner _) fun _ => .inr hlast)
      ⟨hid.symbol, ?_, ?_, by simpa using hrange, hid.memo, hid.id, ?_⟩))
    · rw [Program.scope_modifyScope, if_pos ⟨rfl, hrange⟩]
      exact hkind
    · rw [Program.scope_modifyScope, if_pos ⟨rfl, hrange⟩]
    · refine (Program.Bare.of_addScope hs.sound.program { kind, parent := scope, owner := none }).of_template ?_
      exact fun y own hy _ => hid.template_of_declared (by rintro _ rfl; cases hd) hy
  · exact .none_bind hrun (hadd.quiet (by omega))

/-! ## Modules -/

/-- **A module is declared**, to be bound later unless it is a member of a struct. -/
theorem declareModule_ends (hs : Via floor s₀ s) {scope : ScopeId} (hsc : scope.index < s.program.scopes.size)
    (hp : floor.pending s.program.nextSymbol .idle ∨ (s.program.scope scope).kind = .struct) (source : ModuleDef) :
    Ends (declareModule scope source) c s (Via floor s₀) fun id t =>
      id = s.program.nextSymbol ∧ (t.program.module? id).isSome := by
  refine declareOpened_bind hs hsc (by simp) (by simp) ⟨by simp, ?_, by rintro _ ⟨⟩, rfl⟩ rfl ?_
    fun sc id t ht ho => .pure ht ⟨ho.next, ?_⟩
  · rintro _ ⟨⟩
    simp
  · rintro _ ⟨⟩
    exact ⟨rfl, hp.imp_right fun hk => ⟨rfl, hk⟩⟩
  · rw [Program.module?, ho.decl]
    rfl

/-- A module that could not be declared leaves a scope and an error behind. -/
theorem declareModule_none (scope : ScopeId) (source : ModuleDef)
    (h : ((declareModule scope source).runAt c s).1 = none) :
    ∃ log : Log, log.errorCount = s.log.errorCount + 1 ∧ ((declareModule scope source).runAt c s).2 =
      { s with program := s.program.addScope { kind := .module, parent := scope, owner := none }, log } := by
  have hscope : (addScope .module scope).runAt c s = (some s.program.nextScope,
    { s with program := s.program.addScope { kind := .module, parent := scope, owner := none } }) := rfl
  rw [declareModule, runAt_bind_some hscope] at h ⊢
  generalize hx : ({ name := source.name, scope, ownScope := _, pos := _, decl := _ } : Symbol) = x at h ⊢
  rcases declareBy_run c Program.declare Scope.insert (x := x) rfl with ⟨-, hrun⟩ | ⟨log, hrun, hlog⟩
  · rw [declare, runAt_bind_some hrun] at h
    cases h
  · rw [declare, runAt_bind_none hrun]
    exact ⟨log, hlog, rfl⟩

/-- **A module that is declared waits to be bound**, unless it is a member of a struct; one that is not leaves nothing to
do. -/
theorem declareModule_cases {waiting : SymbolId → Prop} (hs : Via (floor.awaiting waiting) s₀ s) {scope : ScopeId}
    (hsc : scope.index < s.program.scopes.size) (source : ModuleDef) :
    (∃ t, (declareModule scope source).runAt c s = (none, t) ∧ Via (floor.awaiting waiting) s₀ t) ∨
    ∃ m t, (declareModule scope source).runAt c s = (some m, t) ∧ s₀.program.symbols.size ≤ m.index ∧
      (t.program.module? m).isSome ∧
      Via (floor.awaiting fun x => waiting x ∨ (x = m ∧ (s.program.scope scope).kind ≠ .struct)) s₀ t := by
  have hpending : (waiting s.program.nextSymbol ∨ (s.program.nextSymbol = s.program.nextSymbol ∧
      (s.program.scope scope).kind ≠ .struct)) ∧ BindStatus.idle = .idle ∨ (s.program.scope scope).kind = .struct := by
    by_cases hk : (s.program.scope scope).kind = .struct
    · exact .inr hk
    · exact .inl ⟨.inr ⟨rfl, hk⟩, rfl⟩
  have hends := declareModule_ends (c := c) (hs.await fun x =>
    Or.inl (b := x = s.program.nextSymbol ∧ (s.program.scope scope).kind ≠ .struct)) hsc hpending source
  have hnone := declareModule_none (c := c) (s := s) scope source
  rcases hrun : (declareModule scope source).runAt c s with ⟨_ | m, t⟩ <;> rw [hrun] at hnone
  · obtain ⟨log, hlog, ht⟩ := hnone rfl
    rw [show t = _ from ht]
    exact .inl ⟨_, rfl, (hs.edit (.scope .module scope hsc) rfl).quiet (by dsimp only; omega)⟩
  · have hreach := hends.reach
    obtain ⟨rfl, hm⟩ := hends.post m (by rw [hrun])
    rw [hrun] at hreach hm
    exact .inr ⟨_, t, rfl, hs.later.symbols, hm, hreach⟩

/-! ## Arrays and tuples -/

/-- **The type of an array is found, or made when there is none for its element and its length.** -/
theorem arrayType_run (hg : Ready k g s) (element : Ty) (length : UInt64) : ∃ x t,
    (arrayType element length).runAt c s = (some (.direct x), t) ∧ At k s t ∧
      t.program.decl x = .array { element, length } := by
  rw [arrayType, runAt_bind_some (runAt_ask _)]
  rcases hlookup : s.program.arrays.lookup (element, length) with _ | x
  · have hs : At k s { s with names := s.names.insert s!"{s.program.typeName element}[{length}]" } :=
      (Via.start hg).quiet (Nat.le_refl _)
    refine ⟨s.program.nextSymbol, _, rfl, hs.array { element, length }
      (.of_plain ⟨hg.sound.program.scopes, by rintro _ ⟨⟩, rfl⟩ rfl (by rintro _ ⟨⟩)) rfl hlookup, ?_⟩
    exact Program.decl_addSymbol_next s.program _
  · exact ⟨x, s, rfl, .start hg, hg.sound.program.interned.recorded _ (Program.mem_of_lookup hlookup)⟩

theorem arrayType_ends (hg : Ready k g s) (element : Ty) (length : UInt64) :
    Ends (arrayType element length) c s (At k s) fun _ _ => True := by
  obtain ⟨x, t, hrun, ht, -⟩ := arrayType_run (c := c) hg element length
  exact .of_run hrun ht trivial

/-- The fields of a tuple have different names. -/
theorem tupleField_inj {i j : Nat} (h : s!"_{i}" = s!"_{j}") : i = j := by
  have h : i.repr = j.repr := by simpa using h
  rw [Nat.repr_eq_ofList_toDigits, Nat.repr_eq_ofList_toDigits, String.ofList_inj] at h
  have hdigits := congrArg (Nat.ofDigitChars 10 · 0) h
  simpa only [Nat.ofDigitChars_ten_toDigits] using hdigits

/-- A tuple that has fields of some types so far and is not recorded. -/
structure Growing (s : BindState) (owner : SymbolId) (scope : ScopeId) (types : List Ty) : Prop where
  tuple : s.program.TupleOf owner types
  free : ∀ i, types.length ≤ i → (s.program.scope scope).find? s!"_{i}" = none
  unrecorded : ¬ s.program.Recorded owner
  range : scope.index < s.program.scopes.size

/-- A tuple gets its next field. -/
theorem Growing.declareField {owner : SymbolId} {scope : ScopeId} {types : List Ty} (hg : Ready k g s)
    (h : Growing s owner scope types) (ty : Ty) : ∃ id t,
      (declareField owner scope s!"_{types.length}" .synthetic ty none).runAt c s = (some id, t) ∧ At k s t ∧
      Growing t owner scope (types ++ [ty]) ∧ t.program.tuples = s.program.tuples := by
  obtain ⟨own, hd, hk, htmpl, hfields⟩ := h.tuple
  have hfree := h.free _ (Nat.le_refl _)
  have hx : Declarable (s.floor k) s scope
      { name := s!"_{types.length}", scope, pos := .synthetic
        decl := .field { ty, owner, index := (s.program.fieldsOf owner).length, default := none } } :=
    .of_inOrder h.range ⟨by rintro _ ⟨⟩, by rintro _ ⟨⟩⟩ rfl
  obtain ⟨t, hrun, hprog, ht, hid⟩ := declare_new (c := c) (.start hg) hx hfree
  have hfield := Program.field?_eq_some.2 hid.decl
  have hgains := hid.gains hg.sound ⟨h.unrecorded, fun _ hn => absurd hn.2 (by simp [hd, Decl.origin?, htmpl])⟩ rfl (by simp)
  have hplace := congrArg List.length (hid.fieldsOf_eq (by simp) owner).symm
  have happend := appendPlainField_ends (c := c) ht.restart hfield rfl hplace rfl hgains
  have hlater := happend.reach.later
  have hdt : t.program.decl owner = .struct own := by
    rw [hid.decl_of_lt (Program.lt_of_decl (by rw [hd]; simp)), hd]
  have hgrown : t.program.appendField owner s.program.nextSymbol =
      t.program.setDecl owner (.struct { own with fields := own.fields ++ [s.program.nextSymbol] }) := by
    rw [Program.appendField, Program.modifyStruct, hdt]
  have htuples : (t.program.appendField owner s.program.nextSymbol).tuples = s.program.tuples := by
    rw [hgrown, ← hid.tuples]
    rfl
  refine ⟨s.program.nextSymbol, { t with program := t.program.appendField owner s.program.nextSymbol }, ?_,
    (appendPlainField_ends (c := c) ht hfield rfl hplace rfl hgains).reach,
    ⟨⟨{ own with fields := own.fields ++ [s.program.nextSymbol] }, ?_, hk, htmpl, ?_⟩, fun i hi => ?_, ?_, ?_⟩, htuples⟩
  · exact runAt_bind_some hrun
  · rw [hgrown, Program.decl_setDecl_self _ _ (Program.lt_of_decl (by rw [hdt]; simp))]
  · refine List.rel_append (hfields.imp fun _ _ hold => ?_) (.cons ⟨_, hlater.field hfield, rfl⟩ .nil)
    obtain ⟨d, hf, hty⟩ := hold
    exact ⟨d, hlater.field (ht.later.field hf), hty⟩
  · have hne : s!"_{i}" ≠ s!"_{types.length}" := fun heq => by
      have := tupleField_inj heq
      rw [List.length_append, List.length_singleton] at hi
      omega
    show ((t.program.appendField owner s.program.nextSymbol).scope scope).find? _ = none
    rw [Program.scope, Program.scopes_appendField, ← Program.scope, hprog, Program.scope_modifyScope,
      if_pos ⟨rfl, h.range⟩, Program.scope_addSymbol, Scope.find?_insert hfree, if_neg hne]
    exact h.free i (Nat.le_of_succ_le (by simpa using hi))
  · rw [Program.Recorded, htuples]
    exact h.unrecorded
  · show scope.index < (t.program.appendField owner s.program.nextSymbol).scopes.size
    rw [Program.scopes_appendField, hid.size]
    exact h.range

/-- **A tuple gets all its fields.** -/
theorem Growing.declareTupleFields {owner : SymbolId} {scope : ScopeId} : ∀ (types : List Ty) {done : List Ty}
    {s : BindState}, Ready k g s → Growing s owner scope done → ∃ t, (declareTupleFields owner scope done.length types).runAt c s = (some (), t) ∧
      At k s t ∧ Growing t owner scope (done ++ types) ∧ t.program.tuples = s.program.tuples
  | [], done, s, hg, h => ⟨s, rfl, .start hg, by rwa [List.append_nil], rfl⟩
  | ty :: rest, done, s, hg, h => by
    have hs : At k s { s with names := s.names.insert s!"_{done.length}" } := (Via.start hg).quiet (Nat.le_refl _)
    have hgrow : Growing { s with names := s.names.insert s!"_{done.length}" } owner scope done :=
      ⟨h.tuple, h.free, h.unrecorded, h.range⟩
    obtain ⟨id, t, hrun, ht, hgt, htuples⟩ := hgrow.declareField (c := c) (hs.ready hg) ty
    obtain ⟨u, hrun', hu, hgu, htuples'⟩ := hgt.declareTupleFields rest (ht.ready (hs.ready hg))
    have hfield : (discard (BindM.declareField owner scope s!"_{done.length}" .synthetic ty none)).runAt c
        { s with names := s.names.insert s!"_{done.length}" } = (some (), t) := runAt_bind_some hrun
    rw [List.length_append] at hrun'
    refine ⟨u, ?_, (hs.trans ht (Nat.le_refl k)).trans hu (Nat.le_refl k), ?_, htuples'.trans htuples⟩
    · exact (runAt_bind_some rfl).trans ((runAt_bind_some hfield).trans hrun')
    · rwa [List.append_assoc] at hgu

/-- A tuple is begun with a scope of its own and without fields. It is pending until it is recorded. -/
theorem beginTuple (hg : Ready k g s) {x : Symbol} (hsc : x.scope = .root) (ho : x.ownScope = some s.program.nextScope)
    (hd : x.decl = .struct { kind := .tuple }) (names : NameTable) : ∃ t : BindState,
    t = { s with
      program := ((s.program.addScope { kind := .struct, parent := ScopeId.root, owner := none }).addSymbol x).modifyScope
        s.program.nextScope ({ · with owner := some s.program.nextSymbol })
      names } ∧
      Via { s.floor k with pending := fun x status => x = s.program.nextSymbol ∧ status = .busy } s t ∧
      Growing t s.program.nextSymbol s.program.nextScope [] := by
  have hstart : Via { s.floor k with pending := fun x status => x = s.program.nextSymbol ∧ status = .busy } s s :=
    (Via.start hg).expect fun _ _ => id
  have hs : Via { s.floor k with pending := fun x status => x = s.program.nextSymbol ∧ status = .busy } s
      { s with program := s.program.addScope { kind := .struct, parent := ScopeId.root, owner := none }, names } :=
    (hstart.edit (.scope .struct .root hg.sound.program.scopes) rfl).quiet (Nat.le_refl _)
  have hx : (s.program.addScope { kind := .struct, parent := ScopeId.root, owner := none }).Addable
      { s.floor k with pending := fun x status => x = s.program.nextSymbol ∧ status = .busy } x := by
    refine .of_plain ⟨by rw [hsc]; exact (hs.ready hg).sound.program.scopes, fun sc h => ?_, ?_⟩ (by rw [hd]; rfl)
      fun sc h => ?_
    · rw [ho] at h
      cases h
      simp [Program.nextScope, Program.scope_addScope, hd]
    · rw [Program.InOrder, hd]
      exact .empty rfl rfl rfl
    · rw [ho] at h
      cases h
      exact ⟨Nat.le_refl _, hg.sound.program.ownScope_ne_next⟩
  have howning : Owning { s.floor k with pending := fun x status => x = s.program.nextSymbol ∧ status = .busy }
      { s with program := s.program.addScope { kind := .struct, parent := ScopeId.root, owner := none }, names } x
      s.program.nextScope :=
    ⟨ho, Nat.le_refl _, by simp [Program.nextScope], by simp, by simp [hd], fun _ => ⟨rfl, rfl⟩⟩
  have hadded := hs.restart.toTrail.edit (.symbol x hx (hx.ne_array ho)) fun _ hf => Program.decl_addSymbol_of_lt _ x hf
  refine ⟨_, rfl, howning.via hs hadded rfl rfl (by simp), ⟨{ kind := .tuple }, ?_, rfl, rfl, .nil⟩, fun i _ => ?_,
    ?_, by simp [Program.nextScope]⟩
  · rw [← hd]
    exact Program.decl_addSymbol_next _ x
  · rw [Program.scope_modifyScope, if_pos ⟨rfl, by simp [Program.nextScope]⟩]
    simp [Program.scope_addScope, Scope.find?, Scope.get?, Scope.getOther?]
  · -- what is recorded was there before
    rintro ⟨types, he⟩
    have hlt := Program.lt_of_isTuple (hg.sound.program.interned.tuple _ he).isTuple
    exact Nat.lt_irrefl _ hlt

/-- **A tuple is found, or made and recorded under the types of its fields when it has them all.** -/
theorem tupleType_run (hg : Ready k g s) (types : List Ty) : ∃ x t,
    (tupleType types).runAt c s = (some x, t) ∧ At k s t ∧ (types, x) ∈ t.program.tuples := by
  rw [tupleType, runAt_bind_some (runAt_ask _)]
  rcases hlookup : s.program.tuples.lookup types with _ | x
  · obtain ⟨t, heq, ht, hgrow⟩ := beginTuple hg
      (x := { name := (s.names.generate "tuple").1, scope := .root, ownScope := s.program.nextScope, pos := .synthetic,
              decl := .struct { kind := .tuple } }) rfl rfl rfl (s.names.generate "tuple").2
    obtain ⟨u, hrun, hu, hgu, htuples⟩ := hgrow.declareTupleFields (c := c) types (ht.ready hg)
    subst heq
    have hnone : u.program.tuples.lookup types = none := by rw [htuples]; exact hlookup
    have hv := (ht.trans hu (Nat.le_refl k)).edit (.tuple types s.program.nextSymbol hnone hgu.tuple) rfl
    refine ⟨s.program.nextSymbol, _, runAt_bind_some hrun, ?_, List.mem_cons_self⟩
    refine hv.discharge (fun m own hm hp => ?_) fun x _ hp => .inl ⟨types, ?_⟩
    · obtain ⟨own', hd, -⟩ := hgu.tuple
      rw [hp.1, Program.module?_eq_some] at hm
      cases hd.symm.trans hm
    · rw [hp.1]
      exact List.mem_cons_self
  · exact ⟨x, s, rfl, .start hg, Program.mem_of_lookup hlookup⟩

theorem tupleType_ends (hg : Ready k g s) (types : List Ty) :
    Ends (tupleType types) c s (At k s) fun _ _ => True := by
  obtain ⟨x, t, hrun, ht, -⟩ := tupleType_run (c := c) hg types
  exact .of_run hrun ht trivial

/-- Values are packed as they are read. -/
theorem packTuple_ends {w : Prop} {pos : Span} {values : List NodeId} (hg : Ready k g s)
    (hv : ∀ n ∈ values, Kept k g s n w) : Ends (packTuple pos values) c s (At k s) fun n t => ∃ ty, Made k g t ty n w := by
  have hpack : Ends (values.mapM fun value => do
      let value ← readThrough value
      coerce value (← ask (·.inferredType value))) c s (At k s) fun elements t => ∀ n ∈ elements, Kept k g t n w := by
    refine mapM_ends hg (fun _ t u ht htu h => h.mono (ht.ready hg) htu) fun value hmem t ht => ?_
    refine .next (.start (ht.ready hg)) (Nat.le_refl k)
      (readThrough_ends (ht.ready hg) ((hv value hmem).mono hg ht)) fun n u hu _ hn => .ask_bind ?_
    exact .last hu (Nat.le_refl k) (coerce_ends ((hu.ready (ht.ready hg))) hn.held) fun m v _ _ hm => hm.1.held
  refine .next (.start hg) (Nat.le_refl k) hpack fun elements t ht _ helems => ?_
  have htypes : Ends (elements.mapM nodeType) c t (At k t) fun _ _ => True :=
    (mapM_ends (Q := fun _ _ => True) (ht.ready hg) (fun _ _ _ _ _ h => h)
      fun n _ u hu => .ask (.start (hu.ready (ht.ready hg))) trivial).mono fun _ _ _ _ => trivial
  refine .next ht (Nat.le_refl k) htypes fun types u hu htu _ => ?_
  refine .next hu (Nat.le_refl k) (tupleType_ends (hu.ready hg) types) fun tuple v hv huv _ => .ask_bind ?_
  refine .last hv (Nat.le_refl k) (addMade_ends (hv.ready hg) rfl (by rintro ⟨⟩) (by rintro _ ⟨⟩) trivial (fun m hm => ?_)
    (fun x hx => ?_) trivial) fun _ _ _ _ hn => ⟨_, hn⟩
  · simp only [NodeKind.children, List.mem_map] at hm
    obtain ⟨e, he, rfl⟩ := hm
    exact ((helems e.2 (List.of_mem_zip he).2).mono (ht.ready hg) htu).mono (hu.ready hg) huv
  · simp only [NodeKind.symbols, List.mem_map] at hx
    obtain ⟨e, he, rfl⟩ := hx
    exact hv.sound.program.finished_of_mem_fieldsOf (List.of_mem_zip he).1

/-! ## Templates -/

theorem functionName_ends (hg : Ready k g s) (source : FunctionDef) :
    Ends (functionName source) c s (At k s) fun _ t => t.program = s.program := by
  unfold functionName
  split
  · exact .pure (.start hg) rfl
  · exact (useName_ends (.start hg) _).bind fun _ t ht hp => .pure ht hp
  · exact freshName_ends (.start hg) _

theorem arityOf_ends (hg : Ready k g s) (name : String) (params : List Param) (receiver : Bool) :
    Ends (arityOf name params receiver) c s (At k s) fun _ t => t.program = s.program := by
  unfold arityOf
  split
  · exact .pure (.start hg) rfl
  · exact fail_ends (.start hg) _ _ _ _

theorem selectTemplate_ends (hg : Ready k g s) (symbol : SymbolId) (count : Nat) (bound : Bool) (pos : Span) :
    Ends (selectTemplate symbol count bound pos) c s (At k s) fun _ t => t = s := by
  refine .ask_bind ?_
  split
  · exact .pure (.start hg) rfl
  · exact .ask_bind (fail_ends (.start hg) _ _ _ _)

/-- The first template of a name moves to a symbol of its own when it gets company. It has no instances then. -/
theorem addOverload_at (hs : Via floor s₀ s) {existing added : SymbolId}
    (he : (∃ own, s.program.decl existing = .template own ∧ (floor.coherent → own.instances = [])) ∨
      ∃ templates, s.program.decl existing = .overloadSet templates)
    (hj : s.program.Joins existing (s.program.candidates existing) added)
    (hlast : added.index + 1 = s.program.symbols.size)
    (hd : s.program.Declares floor (s.program.symbol existing).scope) :
    Via floor s₀ { s with program := s.program.addOverload existing added } := by
  have hp := hs.sound.program
  unfold Program.addOverload
  rcases he with ⟨own, he, hnil⟩ | ⟨templates, he⟩ <;> rw [he] <;> rw [Program.candidates, he] at hj
  · have hlt : existing.index < s.program.symbols.size := Program.lt_of_decl (by rw [he]; simp)
    have hin := hp.inOrder_of_decl he (by simp)
    have hown : ∀ sc, (s.program.symbol existing).ownScope ≠ some sc := by
      rw [hin.2.1]
      simp
    have hx : s.program.Addable floor { s.program.symbol existing with decl := .template own } := by
      refine ⟨⟨(hp.admits existing hlt).scope, fun sc h => absurd h (hown sc), hin⟩, by simp,
        fun sc h => absurd h (hown sc), by simp, ?_, by simp, by simp, by simp⟩
      rintro _ ⟨⟩
      exact ⟨hnil, hd⟩
    have hadd : Via floor s₀
        { s with program := s.program.addSymbol { s.program.symbol existing with decl := .template own } } :=
      hs.symbol hx hin.2.1 rfl
    have hold : ∀ y : SymbolId, y.index < s.program.symbols.size →
        (s.program.addSymbol { s.program.symbol existing with decl := .template own }).template? y =
          s.program.template? y := fun y hy => by
      rw [Program.template?, Program.decl_addSymbol_of_lt _ _ hy, Program.template?]
    have hmoved : (s.program.addSymbol { s.program.symbol existing with decl := .template own }).template?
        s.program.nextSymbol = some own := Program.template?_eq_some.2 (Program.decl_addSymbol_next _ _)
    have hne : s.program.nextSymbol ≠ existing := fun h => absurd (h ▸ hlt) (Nat.lt_irrefl _)
    have he' : (s.program.addSymbol { s.program.symbol existing with decl := .template own }).decl existing =
        .template own := by rw [Program.decl_addSymbol_of_lt _ _ hlt, he]
    refine hadd.amend_of_ne (hadd.sound.program.amends_overloadSet (.first he' ⟨hne, ?_, ?_, ?_, ?_⟩ ⟨?_, ?_⟩ ?_) ?_)
      (by simp) (by simp)
    · rw [hmoved, hold existing hlt, Program.template?_eq_some.2 he]
    · rw [Program.symbol_addSymbol_next, Program.symbol_addSymbol_of_lt _ _ hlt]
    · rw [Program.symbol_addSymbol_next, Program.symbol_addSymbol_of_lt _ _ hlt]
    · exact (Program.size_symbols_addSymbol _ _).symm
    · rw [Program.symbol_addSymbol_of_lt _ _ (by omega), Program.scope_addSymbol, hj.named]
    · obtain ⟨new, hnew, hother⟩ := hj.arity
      refine ⟨new, by rw [hold added (by omega), hnew], fun u hu own' hown' => ?_⟩
      rw [List.mem_singleton.1 hu, hmoved] at hown'
      cases hown'
      exact hother existing List.mem_cons_self own (Program.template?_eq_some.2 he)
    · rw [Program.size_symbols_addSymbol, ← hlast]
    · intro own' ho
      rw [he'] at ho
      cases ho
      exact hnil
  · refine hs.amend_of_ne (hp.amends_overloadSet (.next he hj hlast) fun own ho => ?_) (by simp) (by simp)
    rw [he] at ho
    cases ho

section declare

variable {b : Option ScopeId} {coherent : Prop} {waiting : SymbolId → Prop} {name : String}
  {pos : Span} {template : TemplateDecl}

/-- A template may be declared among the statements of a scope. -/
theorem addable_template (hs : AtDeclared k b coherent waiting s₀ s) (hc : Ready k c s₀) (ho : Opens coherent b c.scope s₀)
    (ht : template.scope.index < s.program.scopes.size) (hr : template.role.captures = false)
    (hi : template.instances = []) :
    s.program.Addable (Floor.awaiting { s₀.floor k with body := b, coherent } waiting)
      { name, scope := c.scope, pos, decl := .template template } := by
  refine ⟨⟨(hs.ready hc).scope, by rintro _ ⟨⟩, ht, rfl, hr⟩, by simp, by rintro _ ⟨⟩, by simp, ?_, by simp, by simp,
    by simp⟩
  rintro _ ⟨⟩
  exact ⟨fun _ => hi, hs.declares hc ho⟩

/-- A template joins those under its name when none of them has its arity. -/
theorem joins_addSymbol {p : Program} {existing : SymbolId} {x : Symbol} (hp : p.Sound) (hx : x.decl = .template template)
    (hfound : (p.scope x.scope).find? x.name = some existing) (hnone : p.templateOfArity? existing template.arity = none) :
    (p.addSymbol x).Joins existing ((p.addSymbol x).candidates existing) p.nextSymbol := by
  have hlt := (hp.names _ _ _ hfound).1
  have hcandidates : (p.addSymbol x).candidates existing = p.candidates existing := by
    rw [Program.candidates, Program.decl_addSymbol_of_lt _ _ hlt, Program.candidates]
  refine ⟨by rwa [Program.symbol_addSymbol_next, Program.scope_addSymbol], template, ?_, fun u hu own ht => ?_⟩
  · rw [Program.template?_eq_some, Program.decl_addSymbol_next, hx]
  · rw [hcandidates] at hu
    rw [Program.template?_eq_some, Program.decl_addSymbol_of_lt _ _ (hp.lt_of_mem_candidates hu),
      ← Program.template?_eq_some] at ht
    simpa [ht] using List.find?_eq_none.1 hnone u hu

theorem addTemplate_ends {existing : SymbolId} (hs : AtDeclared k b coherent waiting s₀ s) (hc : Ready k c s₀)
    (ho : Opens coherent b c.scope s₀) (hm : s.program.memo = s₀.program.memo)
    (ht : template.scope.index < s.program.scopes.size) (hr : template.role.captures = false) (hi : template.instances = [])
    (hfound : (s.program.scope c.scope).find? name = some existing)
    (hnone : s.program.templateOfArity? existing template.arity = none)
    (he : (∃ own, s.program.decl existing = .template own) ∨
      ∃ templates, s.program.decl existing = .overloadSet templates) :
    Ends (do
      let added ← addSymbol { name, scope := c.scope, pos, decl := .template template }
      modifyProgram (·.addOverload existing added)
      return added) c s (AtDeclared k b coherent waiting s₀) fun _ _ => True := by
  obtain ⟨hlt, hsc⟩ := hs.sound.program.names _ _ _ hfound
  refine .bind (addSymbol_ends hs (addable_template hs hc ho ht hr hi) rfl rfl) ?_
  rintro _ t ht ⟨rfl, rfl⟩
  refine .bind (.of_run rfl (addOverload_at ht ?_ (joins_addSymbol hs.sound.program rfl hfound hnone) ?_ ?_) trivial)
    fun _ u hu (_ : True) => .pure hu trivial
  · simp only [Program.decl_addSymbol_of_lt _ _ hlt]
    refine he.imp_left fun ⟨own, hd⟩ => ⟨own, hd, ?_⟩
    exact fun hcoh => hs.unused ho hcoh hm (Program.template?_eq_some.2 hd) hsc
  · exact (Program.size_symbols_addSymbol _ _).symm
  · rw [Program.symbol_addSymbol_of_lt _ _ hlt, hsc]
    exact ht.declares hc ho

theorem declareTemplate_ends (hs : AtDeclared k b coherent waiting s₀ s) (hc : Ready k c s₀) (ho : Opens coherent b c.scope s₀)
    (hm : s.program.memo = s₀.program.memo) (ht : template.scope.index < s.program.scopes.size)
    (hr : template.role.captures = false) (hi : template.instances = []) :
    Ends (declareTemplate name pos template) c s (AtDeclared k b coherent waiting s₀) fun _ _ => True := by
  refine .read_bind (.ask_bind ?_)
  split
  · exact .mono (declare_ends hs ⟨rfl, addable_template hs hc ho ht hr hi, rfl, rfl⟩) fun _ _ _ _ => trivial
  · rename_i existing hfound
    refine .ask_bind ?_
    split
    · rename_i own hd
      refine .ask_bind ?_
      split
      · exact .ask_bind ((report_ends hs _).bind fun _ _ ht _ => .failure ht)
      · exact addTemplate_ends hs hc ho hm ht hr hi hfound ‹_› (.inl ⟨own, hd⟩)
    · rename_i templates hd
      refine .ask_bind ?_
      split
      · exact .ask_bind ((report_ends hs _).bind fun _ _ ht _ => .failure ht)
      · exact addTemplate_ends hs hc ho hm ht hr hi hfound ‹_› (.inr ⟨templates, hd⟩)
    · exact (reportDuplicate_ends hs _ _ _).bind fun _ _ ht _ => .failure ht

theorem declareFunction_ends (hs : AtDeclared k b coherent waiting s₀ s) (hc : Ready k c s₀) (ho : Opens coherent b c.scope s₀)
    (hm : s.program.memo = s₀.program.memo) (source : FunctionDef) :
    Ends (declareFunction source) c s (AtDeclared k b coherent waiting s₀) fun _ _ => True := by
  refine .read_bind (.ask_bind (.next hs (Nat.le_refl k) (functionName_ends (hs.ready hc) source) fun name t ht _ hp => ?_))
  refine .read_bind (.next ht (Nat.le_refl k) (arityOf_ends (ht.ready hc) _ _ _) fun arity u hu _ hq => ?_)
  refine declareTemplate_ends hu hc ho (by rw [hq, hp, hm]) (hu.ready hc).scope ?_ rfl
  dsimp only
  repeat' split
  all_goals rfl

theorem declareStruct_ends (hs : AtDeclared k b coherent waiting s₀ s) (hc : Ready k c s₀) (ho : Opens coherent b c.scope s₀)
    (hm : s.program.memo = s₀.program.memo) (source : StructDef) :
    Ends (declareStruct source) c s (AtDeclared k b coherent waiting s₀) fun _ _ => True := by
  have hrest : ∀ name t, AtDeclared k b coherent waiting s₀ t → t.program = s.program → Ends (do
      let arity ← arityOf name source.params false
      let modifiers ← inheritModifiers source.modifiers
      declareTemplate name source.pos
        { source := .struct source, arity, scope := c.scope, role := .plain, functionKind := .plain, modifiers,
          owner := none }) c t (AtDeclared k b coherent waiting s₀) fun _ _ => True := by
    intro name t ht hp
    refine .next ht (Nat.le_refl k) (arityOf_ends (ht.ready hc) _ _ _) fun arity u hu _ hq => .read_bind ?_
    exact declareTemplate_ends hu hc ho (by rw [hq, hp, hm]) (hu.ready hc).scope rfl rfl
  refine .read_bind ?_
  cases hn : source.name with
  | some name => exact .pure_bind (hrest name s hs rfl)
  | none => exact .bind (freshName_ends hs _) fun name t ht hp => hrest name t ht hp

end declare

/-! ## Rules that record no instance -/

/-- Whether or not it fails, a rule leaves the memo as it is. -/
def Unrecorded {α : Type} (rule : BindM α) : Prop := ∀ c s, (rule.runAt c s).2.program.memo = s.program.memo

namespace Unrecorded

theorem bind {α β : Type} {x : BindM α} {f : α → BindM β} (hx : Unrecorded x) (hf : ∀ a, Unrecorded (f a)) :
    Unrecorded (x >>= f) := by
  intro c s
  have hmemo := hx c s
  rw [runAt_bind]
  rcases hrun : x.runAt c s with ⟨_ | a, t⟩ <;> rw [hrun] at hmemo
  · exact hmemo
  · exact (hf a c t).trans hmemo

theorem declare (scope : ScopeId) (x : Symbol) : Unrecorded (declare scope x) := by
  intro c s
  rcases declareBy_run (s := s) c Program.declare Scope.insert (x := x) rfl with ⟨-, hrun⟩ | ⟨log, hrun, -⟩
  · rw [BindM.declare, hrun]
    rfl
  · rw [BindM.declare, hrun]

theorem addOverload (existing added : SymbolId) : Unrecorded (modifyProgram (·.addOverload existing added)) := by
  intro c s
  show (s.program.addOverload existing added).memo = _
  unfold Program.addOverload
  split <;> rfl

theorem declareTemplate (name : String) (pos : Span) (template : TemplateDecl) :
    Unrecorded (declareTemplate name pos template) := by
  refine .bind (fun _ _ => rfl) fun scope => .bind (fun _ _ => rfl) fun found => ?_
  cases found with
  | none => exact .declare _ _
  | some existing =>
    refine .bind (fun _ _ => rfl) fun d => ?_
    split
    all_goals first
      | exact .bind (fun _ _ => rfl) fun _ _ _ => rfl
      | skip
    all_goals
      refine .bind (fun _ _ => rfl) fun clash => ?_
      cases clash with
      | some clash => exact .bind (fun _ _ => rfl) fun _ => .bind (fun _ _ => rfl) fun _ _ _ => rfl
      | none => exact .bind (fun _ _ => rfl) fun added => .bind (.addOverload _ _) fun _ _ _ => rfl

theorem arityOf (name : String) (params : List Param) (receiver : Bool) : Unrecorded (arityOf name params receiver) := by
  unfold BindM.arityOf
  split
  · exact fun _ _ => rfl
  · exact fun _ _ => rfl

theorem declareFunction (source : FunctionDef) : Unrecorded (declareFunction source) := by
  refine .bind (fun _ _ => rfl) fun scope => .bind (fun _ _ => rfl) fun owner => .bind (fun c s => ?_) fun name =>
    .bind (fun _ _ => rfl) fun modifiers => .bind (.arityOf _ _ _) fun arity => .declareTemplate _ _ _
  unfold functionName
  split <;> rfl

theorem declareStruct (source : StructDef) : Unrecorded (declareStruct source) := by
  have hrest : ∀ scope name, Unrecorded (do
      let arity ← BindM.arityOf name source.params false
      let modifiers ← inheritModifiers source.modifiers
      BindM.declareTemplate name source.pos
        { source := .struct source, arity, scope, role := .plain, functionKind := .plain, modifiers,
          owner := none }) := fun _ _ =>
    .bind (.arityOf _ _ _) fun arity => .bind (fun _ _ => rfl) fun modifiers => .declareTemplate _ _ _
  refine .bind (fun _ _ => rfl) fun scope => ?_
  cases source.name with
  | some name => exact .bind (fun _ _ => rfl) fun _ => hrest _ _
  | none => exact .bind (fun _ _ => rfl) fun _ => hrest _ _

theorem declareModule (scope : ScopeId) (source : ModuleDef) : Unrecorded (declareModule scope source) :=
  .bind (fun _ _ => rfl) fun _ => .bind (.declare _ _) fun _ => .bind (fun _ _ => rfl) fun _ _ _ => rfl

end Unrecorded

end BindM

end Bindery
