import Bindery.Proofs.Expressions
/-!
# Statements

A statement has no value, so that what it holds of a `return` is not lost from sight: every `return` in a statement
position of what a rule gives has the return type of the function around it. The first `return` of a function may fix
that type; no other statement of the function has returned a value then.

What stands in a block may stand around the block: the jumps to the label of the block are caught there, and any other
label that is in reach of the block is in reach around it.
-/
namespace Bindery

theorem Option.eq_map_some_of_mapM_id {α : Type} {x : Option (Option α)} {y : Option α} (h : x.mapM id = some y) :
    x = y.map some := by
  rcases x with _ | _ | a <;> cases h <;> rfl

/-- A rule may run with other modifiers, or in a loop whose label is in reach. -/
theorem Result.of_context {k : Nat} {c g : Context} {s : BindState} {n : NodeId} (h : Result k g s n)
    (hs : g.scope = c.scope) (hf : g.function = c.function)
    (hl : ∀ again l, g.loopLabel = some l → s.program.InReach c again l) : Result k c s n := by
  refine ⟨⟨⟨h.held.range, h.held.floor, ?_, ?_⟩, fun _ again l hj => ?_⟩, h.spare, h.natural, ?_⟩
  · rw [← hs]
    exact h.held.names
  · rw [← hf]
    exact h.held.returns
  · rcases h.held.jumps trivial again l hj with hd | hloop | ht
    · exact .inl hd
    · exact hl again l hloop
    · refine .inr (.inr ?_)
      unfold Program.Targets at ht ⊢
      rwa [hs, hf] at ht
  · unfold Visible
    rw [← hs]
    exact h.visible

/-- What returns nothing stays held when the return type of a function is set. -/
theorem Kept.of_silent {k : Nat} {c : Context} {s t : BindState} {n : NodeId} (hn : Kept k c s n) (hc : Ready k c s)
    (hv : ∀ ty, ¬ s.program.Returns n ty) (hl : s.program.Later t.program)
    (ho : ∀ sc, (t.program.scope sc).owner = (s.program.scope sc).owner) : Kept k c t n where
  range := Nat.lt_of_lt_of_le hn.range hl.nodes
  floor ha := hn.floor ((hl.adaptable hn.range).1 ha)
  names x hx hvar := by
    have hx := hl.names hc.sound.program.ordered hn.range hx
    obtain ⟨hlt, hsc⟩ := hc.sound.program.range_of_names hx
    rw [hl.isVariable hlt] at hvar
    refine hl.seen hlt hsc hc.scope (fun R hR hopen hk => ?_) (hn.names x hx hvar)
    have hle := Program.index_le_of_mem_ancestors hc.sound.program.nested (Program.mem_ancestors_of_region? hR)
    rw [ho]
    rw [hl.scopes.kind R (Nat.lt_of_le_of_lt hle hc.scope)] at hk
    exact hopen hk
  returns ty hr := absurd (hl.returns hc.sound.program.ordered hn.range hr) (hv ty)
  jumps hw again l hj := by
    have hj := hl.leaves hc.sound.program.ordered hn.range hj
    exact (hn.jumps hw again l hj).later hl hc.sound.program hc.scope (hc.sound.program.range_of_leaves hj).1

namespace Level.Good

open BindM

variable {level : Level}

theorem value (hl : level.Good) (tree : Syntax) :
    (level.value tree).Closed fun k c t n => Result k c t n ∧ (t.program.node n).ty ≠ .void := by
  intro c s hc
  refine .next (.start hc) (Nat.le_refl _) (hl.expression tree c s hc) fun n t ht _ hn => ?_
  refine .last ht (Nat.le_refl _) (requireValue_ends (ht.ready hc)) ?_
  rintro _ _ - - ⟨rfl, rfl, hv⟩
  exact ⟨hn, hv⟩

theorem condition (hl : level.Good) (tree : Syntax) :
    (level.condition tree).Closed fun k c t n => HeldAs k c t .bool n := by
  intro c s hc
  refine .next (.start hc) (Nat.le_refl _) (hl.value tree c s hc) fun n t ht _ hn => ?_
  exact .last ht (Nat.le_refl _) (asCondition_ends (ht.ready hc) hn.1.held) fun m u _ _ hm => ⟨hm.1.held, hm.2⟩

end Level.Good

namespace BindM

variable {k : Nat} {c : Context} {s : BindState} {room : Room} {pos : Span}

/-! ## Definitions -/

theorem definedValue_closed {name : String} {type value : Option Part} (hr : room.Good)
    (ht : ∀ part, type = some part → part.Good) (hv : ∀ part, value = some part → part.Good) :
    (definedValue room pos name type value).Closed fun k c t r => ∀ n, r.2 = some n →
      Passed k c t n ∧ (t.program.node n).ty = r.1 := by
  intro c s hc
  have hcoerce : ∀ n ty t, At s.program.nodes.size s t → Passed s.program.nodes.size c t n →
      Ends (do return (ty, some (← coerce n ty))) c t (At s.program.nodes.size s)
        fun r t => ∀ n, r.2 = some n → Passed s.program.nodes.size c t n ∧ (t.program.node n).ty = r.1 := by
    intro n ty t ht hn
    refine .next ht (Nat.le_refl _) (coerce_ends (ht.ready hc) hn.toKept) fun m u hu _ hm => .pure hu ?_
    rintro _ ⟨⟩
    exact ⟨hm.1.passed hn, hm.2⟩
  refine .bind (.mapOption (.start hc) fun part hp => (ht part hp).type hr c s hc) fun declared t ht _ => ?_
  refine .next ht ht.later.nodes (.mapOption (.start (ht.ready hc).top) fun part hp =>
    ((hv part hp).value hr).ends (ht.ready hc)) fun init u hu _ hinit => ?_
  cases init with
  | none =>
    cases declared with
    | none => exact fail_ends hu _ _ _ _
    | some ty => exact .pure hu (by rintro _ ⟨⟩)
  | some init =>
    have hinit := (hinit init rfl).1.passed.lower ht.later.nodes
    cases declared with
    | some ty => exact hcoerce init ty u hu hinit
    | none =>
      refine .next hu (Nat.le_refl _) (readThrough_ends (hu.ready hc) hinit.toKept) fun m v hv _ hm => .ask_bind ?_
      exact .ite (fun _ => fail_bind_ends hv _ _ _ _) fun _ => .ask_bind (hcoerce m _ v hv (hm.passed hinit))

theorem defineConstant_ends {name : String} {init : Option NodeId} {post : NodeId → BindState → Prop} (hc : Ready k c s)
    (hi : ∀ n, init = some n → Passed k c s n) : Ends (defineConstant pos name init) c s (At k s) post := by
  refine .read_bind ?_
  cases init with
  | none => exact fail_ends (.start hc) _ _ _ _
  | some init =>
    refine .ask_bind (.ite (fun _ => .ask_bind (fail_bind_ends (.start hc) _ _ _ _)) fun hsome => ?_)
    have hvalue := hi init rfl
    have hsome : (s.program.constValue? init).isSome := by simpa [Option.isSome_iff_ne_none] using hsome
    refine .run_bind (markConstant_run hsome) (.bind (.discard (declare_ends (.start hc) (.constant hc.scope hvalue.range
      hvalue.floor (fun hcoh => hvalue.natural trivial hcoh.natural) hsome))) ?_)
    exact fun _ u hu _ => .failure hu

/-- **A variable is defined with a value of its type.** -/
theorem bindDefinition_closed {name : String} {type value : Option Part} {own : Modifiers} (hr : room.Good)
    (ht : ∀ part, type = some part → part.Good) (hv : ∀ part, value = some part → part.Good) :
    (bindDefinition room pos name type value own).Closed Result := by
  intro c s hc
  refine .read_bind (.bind (definedValue_closed hr ht hv c s hc) ?_)
  rintro ⟨ty, init⟩ t ht hinit
  refine .ite (fun _ => .last ht (Nat.le_refl _) (defineConstant_ends (ht.ready hc) fun n hn => (hinit n hn).1)
    fun _ _ _ _ h => h) fun _ => ?_
  refine .next ht (Nat.le_refl _) (declareVariable_ends (ht.ready hc)) fun x u hu htu hty => .ask_bind ?_
  have hinit : ∀ n, init = some n → HeldAs s.program.nodes.size c u ty n := fun n hn =>
    HeldAs.mono ⟨(hinit n hn).1.toKept, (hinit n hn).2⟩ (ht.ready hc) htu
  cases hf : u.program.field? x with
  | some field =>
    cases init with
    | none => exact .failure hu
    | some value =>
      have hsight : u.program.InSight c.scope x := fun h => by
        rw [Program.field?_eq_some.1 hf] at h
        cases h
      refine .next hu (Nat.le_refl _) (reference_ends (hu.ready hc) hsight) fun target v hv huv htarget => ?_
      have hvalue := (hinit value rfl).mono (hu.ready hc) huv
      exact .last hv (Nat.le_refl _) (addStatement_ends (hv.ready hc) rfl (by rintro _ ⟨⟩)
        (hvalue.type.trans (htarget.type ty hty).symm) (held_pair htarget.result.held hvalue.held) trivial) fun _ _ _ _ h => h.result
  | none =>
    refine .last hu (Nat.le_refl _) (addMade_ends (hu.ready hc) rfl (fun _ => rfl) (by rintro _ ⟨⟩) ?_ (fun m hm => ?_)
      (by simpa [NodeKind.symbols] using .of_valueType hty) trivial) fun _ _ _ _ h => h.result
    · cases init with
      | none => trivial
      | some value => exact hty.trans (by rw [(hinit value rfl).type])
    · exact (hinit m (by simpa [NodeKind.children] using hm)).held

/-! ## Blocks, branches and loops -/

/-- A function that rules run in is older than a scope that is new. -/
theorem precedes_of_ready (hc : Ready k c s) {f : SymbolId} (hf : c.function = some f) {sc : ScopeId}
    (hsc : s.program.scopes.size ≤ sc.index) : s.program.Precedes f sc := by
  obtain ⟨own, ho⟩ := Option.isSome_iff_exists.1 (hc.function f hf)
  have hlt := Program.lt_of_function ho
  have hadmits := hc.sound.program.admits f hlt
  exact ⟨hlt, Nat.lt_of_lt_of_le hadmits.scope hsc, fun body hb => Nat.lt_of_lt_of_le (hadmits.own body hb).1 hsc⟩

/-- A rule in a block of its own, where a label and templates may be declared. What it makes there may stand around the
block if it catches the jumps to the label. -/
theorem inBlock_ends {rule : ScopeId → Level → BindM NodeId} (hr : room.Good) (hc : Ready k c s)
    (hrule : ∀ sc level t, level.Good → Ready k { c with scope := sc } t →
      OpenBlock { t.floor k with scopes := sc.index } { c with scope := sc } t → t.program.Bare sc →
      Ends (rule sc level) { c with scope := sc } t (AtScopes k sc.index t) fun n u =>
        Made k { c with scope := sc } u .void n ∧ u.program.Catches sc n) :
    Ends (do
      let scope ← addScope .block (← currentScope)
      room.inScope scope pos (rule scope)) c s (At k s) fun n t => Result k c t n := by
  refine .read_bind (.bind (addScope_ends hc .block hc.scope) ?_)
  rintro sc t ht ⟨hsc, hteq⟩
  have hscope : t.program.scope sc = { kind := .block, parent := c.scope, owner := none } := by
    rw [hteq, hsc, Program.scope_addScope_next]
  have hlt : sc.index < t.program.scopes.size := by
    rw [hteq, hsc]
    simp [Program.nextScope]
  have hnew : s.program.scopes.size ≤ sc.index := by
    rw [hsc]
    exact Nat.le_refl _
  have hready : Ready k { c with scope := sc } t := { ht.ready hc with scope := hlt }
  have hbare : t.program.Bare sc := by
    rw [hteq, hsc]
    exact .of_addScope hc.sound.program _
  have hopen : OpenBlock { t.floor k with scopes := sc.index } { c with scope := sc } t :=
    { new := Nat.le_refl _
      range := hlt
      kind := by rw [hscope]
      function := fun f hf => ht.later.precedes (precedes_of_ready hc hf hnew)
      unlabelled := by
        rw [hteq, hsc]
        exact .of_addScope hc.sound.program _ }
  refine .mono (.weaken (.and_reach (inScope_ends hr (AtScopes.start hready (Nat.le_of_lt hlt)) fun level hl =>
    hrule sc level t hl hready hopen hbare)) fun u htu => ht.chain htu (AtScopes.le ht hnew) fun _ _ => False.elim) ?_
  rintro n u - ⟨htu, hn, hcatch⟩
  refine Made.result ⟨hn.held.of_block htu.sound ?_ ?_ hcatch, hn.plain, hn.type⟩
  · rw [htu.later.scopes.kind sc hlt, hscope]
  · rw [htu.later.scopes.parent sc hlt, hscope]

/-- What is added with the label of its block catches the jumps to it. -/
theorem addCatching_ends {kind : NodeKind} {label : Option SymbolId}
    (hadd : Ends (addStatement pos kind) c s (At k s) fun n t => Made k c t .void n)
    (hl : s.program.Labelled c.scope label) (hj : kind.jump? = none) (hcatch : ∀ (again : Bool) l own, label = some l →
      s.program.decl l = .label own → (again → own.isLoop) → kind.catches again l) :
    Ends (addStatement pos kind) c s (At k s) fun n t => Made k c t .void n ∧ t.program.Catches c.scope n := by
  refine .mono (.and_run hadd) ?_
  rintro n t - ⟨⟨⟩, hmade⟩
  have hnode : ((s.program.addNode ⟨pos, .void, kind⟩).node s.program.nextNode).kind = kind := by
    rw [Program.node_addNode_next]
  refine ⟨hmade, .of_labelled hl (by rw [hnode, hj]) fun again l own h hd hloop => ?_⟩
  rw [hnode]
  exact hcatch again l own h hd hloop

theorem bindBlock_closed {label : Option String} {body : List Syntax} (hr : room.Good) :
    (bindBlock room pos label body).Closed Result := by
  intro c s hc
  refine inBlock_ends hr hc fun sc level t hl ht hopen hbare => ?_
  have hstart : AtScopes s.program.nodes.size sc.index t t := .start ht (Nat.le_of_lt hopen.range)
  have hlabel : Ends (label.mapM fun name => declareLabel (some name) false pos) { c with scope := sc } t
      (AtScopes s.program.nodes.size sc.index t) fun r u => u.program.Labelled sc r ∧
        (∀ l, r = some l → LabelOf { c with scope := sc } false u l) ∧ u.program.Bare sc := by
    cases label with
    | none => exact .pure hstart ⟨hopen.unlabelled, by rintro _ ⟨⟩, hbare⟩
    | some name =>
      exact .map (declareLabel_ends hstart hopen) fun l u _ h =>
        ⟨h.only, by rintro _ ⟨⟩; exact h.toLabelOf, h.bare sc hbare⟩
  refine .bind hlabel ?_
  rintro label u hu ⟨honly, hlabel, hbareu⟩
  have hku : (u.program.scope sc).kind ≠ .module := by
    rw [hu.later.scopes.kind sc ht.scope, show (t.program.scope sc).kind = _ from hopen.kind]
    simp
  have hopens : Opens u.program.Coherent (some sc) sc u := .of_bare hu.sound hku hbareu
  refine .chain hu (hu.le_body (hu.ready ht).le (Nat.le_refl _)) (fun _ _ => False.elim)
    (hl.body body _ u _ _ (hu.ready ht).top hopens) fun nodes v hv huv hnodes => ?_
  refine .last hv (Nat.le_refl _) (addCatching_ends (addMade_ends (hv.ready ht) rfl (fun _ => rfl) (by rintro _ ⟨⟩) trivial
    (fun n hn => (hnodes n hn).lower (hu.ready ht).le) (fun x hx => ?_) trivial) (huv.labelled honly (hu.ready ht).scope) rfl ?_)
    fun _ _ _ _ h => h
  · exact huv.later.finished (hlabel x (by simpa [NodeKind.symbols] using hx)).finished
  rintro again l own rfl hd hloop
  -- the label of a block is not that of a loop, so that nothing is continued there
  rw [huv.later.label (hlabel l rfl).decl] at hd
  cases hd
  cases again with
  | true => cases hloop rfl
  | false => simp [NodeKind.catches]

theorem bindBranch_closed {tree : Syntax} (hr : room.Good) : (bindBranch room tree).Closed Result := by
  unfold bindBranch
  split <;> exact bindBlock_closed hr

/-- Parts that need not be there, each of which may fail by itself. -/
theorem optionalTree_ends {rule : Syntax → BindM NodeId} {P : Nat → Context → BindState → NodeId → Prop}
    (h : ∀ tree, (rule tree).Closed P) (tree : Option Syntax) (hc : Ready k c s) :
    Ends (tree.mapM fun tree => attempt (rule tree)) c s (At s.program.nodes.size s) fun r t =>
      ∀ made, r = some made → ∀ n, made = some n → P s.program.nodes.size c t n :=
  .mapOption (.start hc.top) fun tree _ => .attempt ((h tree).ends hc)

theorem bindIf_closed {test : Part} {whenTrue : Syntax} {whenFalse : Option Syntax} (hr : room.Good) (hp : test.Good) :
    (bindIf room pos test whenTrue whenFalse).Closed Result := by
  intro c s hc
  refine .bind (.attempt (hp.condition hr c s hc)) fun test t ht htest => ?_
  refine .next ht ht.later.nodes (.attempt ((bindBranch_closed hr).ends (ht.ready hc))) fun yes u hu htu hyes => ?_
  refine .next hu (hu.ready hc).le (optionalTree_ends (fun _ => bindBranch_closed hr) whenFalse (hu.ready hc))
    fun no v hv huv hno => ?_
  split
  · rename_i test' yes' no' heq
    simp only [Prod.mk.injEq] at heq
    obtain ⟨rfl, rfl, hmap⟩ := heq
    obtain ⟨htest, hbool⟩ := htest test' rfl
    have htest := (HeldAs.mono ⟨htest.held, hbool⟩ (ht.ready hc) htu).mono (hu.ready hc) huv
    have hyes := ((hyes yes' rfl).held.lower ht.later.nodes).mono (hu.ready hc) huv
    have hkids : ∀ n ∈ (NodeKind.branch test' yes' no').children, Kept s.program.nodes.size c v n := by
      intro n hn
      simp only [NodeKind.children, List.cons_append, List.nil_append, List.mem_cons, Option.mem_toList] at hn
      rcases hn with rfl | rfl | hn
      · exact htest.held
      · exact hyes
      · rw [Option.eq_map_some_of_mapM_id hmap, hn] at hno
        exact (hno _ rfl n rfl).held.lower hu.later.nodes
    exact .last hv (Nat.le_refl _) (addStatement_ends (hv.ready hc) rfl (by rintro _ ⟨⟩) htest.type hkids trivial)
      fun _ _ _ _ h => h.result
  · exact .failure hv

/-- The body of a loop knows the label of the loop. -/
theorem withLoop_ends {label : SymbolId} {rule : BindM NodeId} (h : rule.Closed Result) (hc : Ready k c s)
    (hl : LabelOf c true s label) :
    Ends (withLoop label rule) c s (At s.program.nodes.size s) fun n t => Result s.program.nodes.size c t n := by
  refine .withReader (.mono (h _ s { hc.top with label := by rintro _ ⟨⟩; exact hl.finished }) fun _ _ ht hn => ?_)
  refine hn.of_context rfl rfl ?_
  rintro again _ ⟨⟩
  exact .inr (.inr ((hl.targets fun _ => rfl).later ht.later hc.scope))

theorem bindLoop_closed {label : Option String} {init test step : Option Syntax} {body : Syntax} (hr : room.Good) :
    (bindLoop room pos label init test step body).Closed Result := by
  intro c s hc
  refine inBlock_ends hr hc fun sc level t hl ht hopen _ => ?_
  refine .bind (declareLabel_ends (AtScopes.start ht (Nat.le_of_lt hopen.range)) hopen) fun label u hu hlabel => ?_
  refine .next hu (hu.ready ht).le (optionalTree_ends hl.expression init (hu.ready ht)) fun init v hv huv hinit => ?_
  refine .next hv (hv.ready ht).le (optionalTree_ends hl.condition test (hv.ready ht)) fun test w hw hvw htest => ?_
  refine .next hw (hw.ready ht).le (optionalTree_ends hl.expression step (hw.ready ht)) fun step x hx hwx hstep => ?_
  have hlabel : LabelOf { c with scope := sc } true x label :=
    hlabel.keep (huv.trans (hvw.trans hwx hvw.later.nodes) huv.later.nodes).toTrail (hu.ready ht).scope
  refine .next hx (hx.ready ht).le (.attempt (withLoop_ends (hl.branch body) (hx.ready ht) hlabel))
    fun body y hy hxy hbody => ?_
  split
  · rename_i test' body' heq
    simp only [Prod.mk.injEq] at heq
    obtain ⟨hmap, rfl⟩ := heq
    have hlabel := hlabel.keep hxy.toTrail (hx.ready ht).scope
    have hwy := hwx.trans hxy hwx.later.nodes
    have hvy := hvw.trans hwy hvw.later.nodes
    have htest : ∀ n, test' = some n → HeldAs s.program.nodes.size { c with scope := sc } y .bool n := by
      rintro n rfl
      rw [Option.eq_map_some_of_mapM_id hmap] at htest
      have hn := htest _ rfl n rfl
      exact HeldAs.mono ⟨hn.held.lower (hv.ready ht).le, hn.type⟩ (hw.ready ht) hwy
    have htyped : y.program.Typed y.program.ReachesField ⟨pos, .void, .loop sc label init.join test' step.join body'⟩ := by
      cases test' with
      | none => trivial
      | some n => exact (htest n rfl).type
    have hkids : ∀ n ∈ (NodeKind.loop sc label init.join test' step.join body').children,
        Kept s.program.nodes.size { c with scope := sc } y n := by
      intro n hn
      simp only [NodeKind.children, List.mem_append, Option.mem_toList, List.mem_singleton, Option.join_eq_some_iff] at hn
      rcases hn with ((hn | hn) | hn) | rfl
      · exact ((hinit _ hn n rfl).held.lower (hu.ready ht).le).mono (hv.ready ht) hvy
      · exact (htest n hn).held
      · exact ((hstep _ hn n rfl).held.lower (hw.ready ht).le).mono (hx.ready ht) hxy
      · exact (hbody n rfl).held.lower (hx.ready ht).le
    exact .last hy (Nat.le_refl _) (addCatching_ends (addMade_ends (hy.ready ht) rfl (fun _ => rfl) (by rintro _ ⟨⟩) htyped
      hkids (by simpa [NodeKind.symbols] using hlabel.finished) trivial) hlabel.only rfl
      (by rintro again _ _ ⟨⟩ _ _; simp [NodeKind.catches])) fun _ _ _ _ h => h
  · exact .failure hy

theorem addJump_ends {again : Bool} {l : SymbolId} (hc : Ready k c s) (hl : s.program.Finished l)
    (hr : s.program.InReach c again l) :
    Ends (addStatement pos (if again then .continues l else .breaks l)) c s (At k s) fun n t => Result k c t n := by
  have hjump : (if again then NodeKind.continues l else .breaks l).jump? = some (again, l) := by cases again <;> rfl
  generalize (if again then NodeKind.continues l else .breaks l) = kind at hjump ⊢
  have hkind : kind = .breaks l ∨ kind = .continues l := by
    cases kind <;> cases hjump <;> simp
  have hfits : s.program.Fits ⟨pos, .void, kind⟩ := by
    rcases hkind with rfl | rfl
    all_goals
      exact
        { children := by rintro _ ⟨⟩
          typed := trivial
          void := fun _ => rfl
          literal := by rintro _ ⟨⟩
          named := by rintro _ _ ⟨⟩
          called := by rintro _ _ ⟨⟩
          symbols := by simpa [NodeKind.symbols] using hl
          folds := trivial }
  refine .mono (addNode_ends hc hfits (by rcases hkind with rfl | rfl <;> rintro _ ⟨⟩) ?_ ?_ ?_ ?_) fun n t _ hn =>
    .of_plain hn.held (by rw [hn.node]; rcases hkind with rfl | rfl <;> rfl)
  · rintro _ rfl
    cases hjump
  · rintro _ rfl
    cases hjump
  · intro _ _ _ h
    rw [hjump] at h
    cases h
    exact hr
  · exact .of_isSettled (by rcases hkind with rfl | rfl <;> rfl)

/-- A jump goes to a label, if it is that of a loop where the jump goes on. -/
theorem jumpTo_ends {isContinue : Bool} {target : SymbolId} (hc : Ready k c s) (htarget : s.program.Finished target)
    (hreach : (isContinue → ∃ own, s.program.decl target = .label own ∧ own.isLoop) →
      s.program.InReach c isContinue target) :
    Ends (do
      let isLoop ← ask fun p => match p.decl target with
        | .label own => own.isLoop
        | _ => false
      if isContinue && !isLoop then fail pos .continueTargetNotLoop [← symbolName target]
      addStatement pos (if isContinue then .continues target else .breaks target)) c s (At k s)
      fun n t => Result k c t n := by
  refine .ask_bind (.ite (fun _ => .ask_bind (fail_bind_ends (.start hc) _ _ _ _)) fun hloop => ?_)
  refine addJump_ends hc htarget (hreach fun hagain => ?_)
  rw [hagain] at hloop
  split at hloop
  · rename_i own hd
    exact ⟨own, hd, by simpa using hloop⟩
  · simp at hloop

/-- **A jump goes to a label in reach.** -/
theorem bindJump_closed {label : Option String} {isContinue : Bool} : (bindJump pos label isContinue).Closed Result := by
  intro c s hc
  refine .read_bind ?_
  cases label with
  | none =>
    dsimp only
    split
    · rename_i label hl
      exact .pure_bind (jumpTo_ends hc (hc.label label hl) fun _ => .inr (.inl hl))
    · exact fail_bind_ends (.start hc) _ _ _ _
  | some name =>
    refine .ask_bind ?_
    split
    · rename_i label hl
      obtain ⟨hfound, hkind⟩ := Option.filter_eq_some_iff.1 hl
      split at hkind
      · rename_i own hd
        refine .pure_bind (jumpTo_ends hc (.of_decl hd (by simp) rfl) fun hloop =>
          .inr (.inr ⟨own, hd, by simpa using hkind, ?_, ?_⟩))
        · intro hagain
          obtain ⟨own', hd', hloop⟩ := hloop hagain
          rw [hd] at hd'
          cases hd'
          exact hloop
        · obtain ⟨a, ha, hf⟩ := List.exists_of_findSome?_eq_some hfound
          rwa [(hc.sound.program.names a name label hf).2]
      · cases hkind
    · exact fail_bind_ends (.start hc) _ _ _ _

/-! ## Returning -/

/-- An expression returns nothing, whatever it is made of. -/
theorem addNode_silent {ty : Ty} {kind : NodeKind} (hk : kind.holdsReturn = false) :
    Ends (addNode pos ty kind) c s (fun _ => True) fun n t => ∀ ty, ¬ t.program.Returns n ty := by
  refine .of_run rfl trivial fun ty' hr => ?_
  rw [Program.returns_iff, Program.node_addNode_next] at hr
  rcases hr with ⟨v, hv, -⟩ | ⟨m, hm, -⟩
  · rw [show kind = _ from hv] at hk
    cases hk
  · rw [NodeKind.holdsReturn_of_mem hm] at hk
    cases hk

theorem readThrough_silent {n : NodeId} (hv : ∀ ty, ¬ s.program.Returns n ty) :
    Ends (readThrough n) c s (fun _ => True) fun m t => ∀ ty, ¬ t.program.Returns m ty := by
  refine .ask_bind ?_
  split
  · exact .ask_bind (addNode_silent rfl)
  · exact .pure trivial hv

/-- A value is returned with the return type of the function. -/
theorem addReturn_ends {f : SymbolId} {own : FunctionDecl} {value : NodeId} {ty : Ty} (hc : Ready k c s)
    (hf : c.function = some f) (ho : s.program.function? f = some own) (hr : own.ret = some ty) (hv : Kept k c s value) :
    Ends (do addStatement pos (.returns (some (← coerce value ty)))) c s (At k s) fun n t => Result k c t n := by
  refine .next (.start hc) (Nat.le_refl k) (coerce_ends hc hv) fun m t ht _ hm => ?_
  obtain ⟨own', ho', -⟩ := ht.later.function ho
  have hfits : t.program.Fits ⟨pos, .void, .returns (some m)⟩ :=
    { children := by simpa [NodeKind.children] using hm.1.held.range
      typed := trivial
      void := fun _ => rfl
      literal := by rintro _ ⟨⟩
      named := by rintro _ _ ⟨⟩
      called := by rintro _ _ ⟨⟩
      symbols := by rintro _ ⟨⟩
      folds := trivial }
  refine .last ht (Nat.le_refl k) (addNode_ends (ht.ready hc) hfits (by simpa [NodeKind.children] using hm.1.held)
    (by rintro _ ⟨⟩) ?_ (by rintro _ _ _ ⟨⟩) (.of_isSettled rfl)) fun n u _ _ hn =>
      .of_plain hn.held (by rw [hn.node]; rfl)
  rintro _ ⟨⟩
  exact ⟨f, own', hf, ho', by rw [hm.2]; exact ht.rets f own own' ty ho hr ho'⟩

theorem returnNothing_ends {f : SymbolId} {own : FunctionDecl} (hc : Ready k c s) (ho : s.program.function? f = some own) :
    Ends (returnNothing pos f own.ret) c s (At k s) fun n t => Result k c t n := by
  have hreturn : ∀ t, At k s t → Ends (addStatement pos (.returns none)) c t (At k s) fun n u => Result k c u n :=
    fun t ht => .last ht (Nat.le_refl k) (addStatement_ends (ht.ready hc) rfl (by rintro _ ⟨⟩) trivial (by rintro _ ⟨⟩) trivial)
      fun _ _ _ _ h => h.result
  unfold returnNothing
  cases hret : own.ret with
  | some ty => exact .ite (fun _ => .ask_bind (fail_bind_ends (.start hc) _ _ _ _)) fun _ => hreturn s (.start hc)
  | none =>
    have hbody := (hc.sound.program.function ho).2.2 hret
    refine .run_bind (setReturnType_run ho) (hreturn _ (setReturnType_via (.start hc) ho (.inl hbody) ?_))
    intro a ty ha hty
    rw [ho] at ha
    cases ha
    rw [hret] at hty
    cases hty

/-- A value that was bound is returned. The first one fixes the return type. -/
theorem returnOf_ends {f : SymbolId} {own : FunctionDecl} {m : NodeId} {u : BindState} (hc : Ready k c s)
    (hf : c.function = some f) (ho : s.program.function? f = some own) (hu : At k s u) (hm : Kept k c u m)
    (hquiet : ∀ ty, ¬ u.program.Returns m ty) :
    Ends (do
      let ty ← match own.ret with
        | some ty => pure ty
        | none => do
          let ty ← ask (·.inferredType m)
          setReturnType f ty
          pure ty
      addStatement pos (.returns (some (← coerce m ty)))) c u (At k s) fun n t => Result k c t n := by
  obtain ⟨own', ho', -⟩ := hu.later.function ho
  cases hret : own.ret with
  | some ty =>
    refine .pure_bind (.last hu (Nat.le_refl _) (addReturn_ends (hu.ready hc) hf ho' ?_ hm) fun _ _ _ _ h => h)
    exact hu.rets f own own' ty ho hret ho'
  | none =>
    -- the value may have set the return type already; the body is still empty, so that nothing depends on it
    have hbody : own'.body = [] :=
      (hu.frame.body f own own' (Program.lt_of_function ho) ho ho').trans ((hc.sound.program.function ho).2.2 hret)
    refine .ask_bind (.run_bind (setReturnType_run ho') (.pure_bind ?_))
    generalize u.program.inferredType m = ty
    have hset : At k s { u with program := u.program.setDecl f (.function { own' with ret := some ty }) } :=
      setReturnType_via hu ho' (.inl hbody) fun a ty' ha hty => by
        rw [ho] at ha
        cases ha
        rw [hret] at hty
        cases hty
    have hamend : u.program.Amends {} f (.function { own' with ret := some ty }) :=
      hu.sound.program.amends_returnType ho' (.inl hbody)
    have hl := (Program.Edit.decl f _ hamend).later hu.sound.program
    have hm : Kept k c { u with program := u.program.setDecl f _ } m :=
      hm.of_silent (hu.ready hc) hquiet hl fun _ => rfl
    exact .last hset (Nat.le_refl _) (addReturn_ends (hset.ready hc) hf
      (Program.function?_eq_some.2 (Program.decl_setDecl_self _ _ hamend.range)) rfl hm) fun _ _ _ _ h => h

/-- **The first value that a function returns fixes its return type.** What is returned inside the value does not stand
as a statement. -/
theorem returnValue_ends {f : SymbolId} {own : FunctionDecl} {part : Part} (hr : room.Good) (hp : part.Good)
    (hc : Ready s.program.nodes.size c s) (hf : c.function = some f) (ho : s.program.function? f = some own) :
    Ends (returnValue room pos f own.ret part) c s (At s.program.nodes.size s) fun n t =>
      Result s.program.nodes.size c t n := by
  refine .bind (hp.value hr c s hc) ?_
  rintro value t ht ⟨hvalue, hnv⟩
  have hsilent : ∀ ty, ¬ t.program.Returns value ty := fun ty hret => hnv (ht.sound.program.void_of_returns hret)
  refine .ite (fun _ => .pure_bind (returnOf_ends hc hf ho ht hvalue.held hsilent)) fun _ => ?_
  refine .next ht (Nat.le_refl _) ((readThrough_ends (ht.ready hc) hvalue.held).and (readThrough_silent hsilent))
    fun m u hu _ hm => returnOf_ends hc hf ho hu hm.1.held hm.2

theorem bindReturn_closed {value : Option Part} (hr : room.Good) (hv : ∀ part, value = some part → part.Good) :
    (bindReturn room pos value).Closed Result := by
  intro c s hc
  refine .read_bind ?_
  cases hf : c.function with
  | none => exact fail_ends (.start hc) _ _ _ _
  | some f =>
    refine .ask_bind ?_
    obtain ⟨own, ho⟩ := Option.isSome_iff_exists.1 (hc.function f hf)
    rw [ho]
    dsimp only
    split
    · exact fail_ends (.start hc) _ _ _ _
    · exact .mono (addStatement_ends hc rfl (by rintro _ ⟨⟩) trivial (by rintro _ ⟨⟩) trivial) fun _ _ _ h => h.result
    · exact returnNothing_ends hc ho
    · exact returnValue_ends hr (hv _ rfl) hc hf ho

/-! ## Yielding -/

theorem requireGenerator_ends (hc : Ready k c s) :
    Ends (requireGenerator pos) c s (At k s) fun state t => t = s ∧ s.program.IsClosure state := by
  obtain ⟨r, hrun, hclosure⟩ := generatorState?_run (c := c) hc.sound
  refine .run_bind hrun ?_
  cases r with
  | some state => exact .pure (.start hc) ⟨rfl, hclosure state rfl⟩
  | none => exact fail_ends (.start hc) _ _ _ _

theorem bindYield_closed {part : Part} (hr : room.Good) (hp : part.Good) : (bindYield room pos part).Closed Result := by
  intro c s hc
  refine .bind (requireGenerator_ends hc) ?_
  rintro state t ht ⟨rfl, hclosure⟩
  refine .bind (hp.value hr c t hc) fun n r hr hn => ?_
  refine .next hr (Nat.le_refl _) (readThrough_ends (hr.ready hc) hn.1.held) fun value u hu _ hvalue => .ask_bind ?_
  refine .next hu (Nat.le_refl _) (fixElement_ends (hu.ready hc) (hu.later.isClosure hclosure)) fun element v hv huv _ => ?_
  refine .next hv (Nat.le_refl _) (coerce_ends (hv.ready hc) (hvalue.held.mono (hu.ready hc) huv)) fun m w hw _ hm => ?_
  exact .last hw (Nat.le_refl _) (addStatement_ends (hw.ready hc) rfl (by rintro _ ⟨⟩) trivial (held_single hm.1.held) trivial)
    fun _ _ _ _ h => h.result

theorem iteration_ends {value : NodeId} (hc : Ready k c s) :
    Ends (iteration value pos) c s (At k s) fun r t => t.program.Finished r.1 := by
  refine .ask_bind (.ask_bind ?_)
  split
  · refine .ask_bind ?_
    split
    · rename_i own hown
      split
      · rename_i step element hstep hel
        obtain ⟨function, hfun⟩ := Option.isSome_iff_exists.1 ((hc.sound.program.shaped hown).method step hstep)
        exact .pure (.start hc) (.of_function hfun)
      · exact .ask_bind (fail_ends (.start hc) _ _ _ _)
    · exact .failure (.start hc)
  · exact .ask_bind (fail_ends (.start hc) _ _ _ _)

theorem bindYieldFrom_closed {part : Part} (hr : room.Good) (hp : part.Good) :
    (bindYieldFrom room pos part).Closed Result := by
  intro c s hc
  refine .bind (requireGenerator_ends hc) ?_
  rintro state t ht ⟨rfl, hclosure⟩
  refine .bind (hp.value hr c t hc) fun n r hr hn => ?_
  refine .next hr (Nat.le_refl _) (readThrough_ends (hr.ready hc) hn.1.held) fun value u hu _ hvalue => ?_
  refine .next hu (Nat.le_refl _) (iteration_ends (hu.ready hc)) fun it v hv huv hstep => ?_
  refine .next hv (Nat.le_refl _) (fixElement_ends (hv.ready hc) (hv.later.isClosure hclosure)) fun element w hw hvw _ => ?_
  refine .ite (fun _ => .ask_bind (.ask_bind (fail_bind_ends hw _ _ _ _))) fun _ => ?_
  have hvalue := (hvalue.held.mono (hu.ready hc) huv).mono (hv.ready hc) hvw
  exact .last hw (Nat.le_refl _) (addMade_ends (hw.ready hc) rfl (fun _ => rfl) (by rintro _ ⟨⟩) trivial
    (held_single hvalue) (by simpa [NodeKind.symbols] using hvw.later.finished hstep) trivial) fun _ _ _ _ h => h.result

theorem bindForIn_closed {label : Option String} {name : String} {iterable body : Syntax} (hr : room.Good) :
    (bindForIn room pos label name iterable body).Closed Result := by
  intro c s hc
  refine inBlock_ends hr hc fun sc level t hl ht hopen _ => ?_
  have hstart : AtScopes s.program.nodes.size sc.index t t := .start ht (Nat.le_of_lt hopen.range)
  refine .next hstart ht.le ((hl.value iterable).ends ht) fun value u hu htu hvalue => ?_
  refine .next hu (Nat.le_refl _) (readThrough_ends (hu.ready ht) (hvalue.1.held.lower ht.le)) fun init v hv huv hinit => ?_
  refine .next hv (Nat.le_refl _) (iteration_ends (hv.ready ht)) fun it w hw hvw hstep => ?_
  refine .next hw (Nat.le_refl _) (freshName_ends (.start (hw.ready ht)) _) fun stateName x hx hwx _ => .ask_bind ?_
  refine .next hx (Nat.le_refl _) (declareVariable_ends (hx.ready ht)) fun state y hy hxy hstate => ?_
  have hopen := ((((hopen.mono htu).mono huv).mono hvw).mono hwx).mono hxy
  refine .chain hy (Floor.le_refl _) (fun _ _ => id) (declareLabel_ends hy.restart hopen) fun label z hz hyz hlabel => ?_
  refine .next hz (Nat.le_refl _) (declareVariable_ends (hz.ready ht)) fun item a ha hza hitem => ?_
  have hlabel' := hlabel.keep hza.toTrail (hz.ready ht).scope
  refine .next ha (ha.ready ht).le (withLoop_ends (hl.branch body) (ha.ready ht) hlabel') fun body b hb hab hbody => ?_
  have hzb := hza.trans hab (ha.ready ht).le
  have hyb := hyz.later.trans hzb.later
  have hwy := hwx.trans hxy (Nat.le_refl _)
  have hwb := hwy.later.trans hyb
  have hkeeps : Keeps y.program.scopes.size y b :=
    Keeps.trans ⟨hyz.later, fun sc _ => hlabel.owner sc, hyz.rets⟩ hzb.keeps hyz.later.scopes.size
  have hinit := (hinit.held.mono (hv.ready ht) (hvw.trans hwy (Nat.le_refl _))).keep (hy.ready ht) (hy.ready ht).scope hkeeps
  have hlabel' := hlabel'.keep hab.toTrail (ha.ready ht).scope
  refine .last hb (Nat.le_refl _) (addCatching_ends (addMade_ends (hb.ready ht) rfl (fun _ => rfl) (by rintro _ ⟨⟩) trivial
    (held_pair hinit (hbody.held.lower (ha.ready ht).le)) ?_ trivial) hlabel'.only rfl
    (by rintro again _ _ ⟨⟩ _ _; simp [NodeKind.catches])) fun _ _ _ _ h => h
  simp only [NodeKind.symbols, List.mem_cons, List.not_mem_nil, or_false, forall_eq_or_imp, forall_eq]
  exact ⟨hlabel'.finished, hab.later.finished (.of_valueType hitem), hyb.finished (.of_valueType hstate),
    hwb.finished hstep⟩

/-! ## Lists of statements -/

theorem reportUnreachable_ends {reach : Reach} {tree : Syntax} (hc : Ready k c s) :
    Ends (reportUnreachable reach tree) c s (At k s) fun _ _ => True := by
  unfold reportUnreachable
  split
  · refine .ite (fun _ => .pure (.start hc) trivial) fun _ => ?_
    exact .bind (error_ends (.start hc) _ _ _) fun _ _ ht _ => .pure ht trivial
  · exact .pure (.start hc) trivial

/-- **What the statements of a list leave behind may stand in the list.** -/
theorem bindStatements_ends : ∀ {statements : List StatementPart} {reach : Reach} {s : BindState}, Ready k c s →
    (∀ part ∈ statements, part.rule.Closed Result) →
    Ends (bindStatements statements reach) c s (At k s) fun nodes t => ∀ n ∈ nodes, Kept k c t n
  | [], _, _, hc, _ => .pure (.start hc) (by simp)
  | part :: rest, reach, s, hc, hrules => by
    refine .bind (reportUnreachable_ends hc) fun reach t ht _ => ?_
    have hrule : Ends (attempt (withModifiers part.modifiers part.rule)) c t (At t.program.nodes.size t) fun r u =>
        ∀ n, r = some n → Kept k c u n := by
      refine .attempt (.withReader (.mono (hrules part (by simp) _ t { (ht.ready hc).top with }) fun n u _ hn => ?_))
      exact (hn.of_context (c := c) rfl rfl fun _ _ h => .inr (.inl h)).held.lower (ht.ready hc).le
    refine .next ht (ht.ready hc).le hrule fun node u hu _ hnode => ?_
    refine .next hu (Nat.le_refl k) (bindStatements_ends (hu.ready hc) fun part hp => hrules part (by simp [hp]))
      fun nodes v hv huv hnodes => .pure hv fun n hn => ?_
    rcases List.mem_append.1 hn with hn | hn
    · exact (hnode n (by simpa using hn)).mono (hu.ready hc) huv
    · exact hnodes n hn

theorem bindModified_closed {statements : List StatementPart} (h : ∀ part ∈ statements, part.rule.Closed Result) :
    (bindModified pos statements).Closed Result := by
  intro c s hc
  refine .bind (bindStatements_ends hc h) fun nodes t ht hnodes => .read_bind ?_
  exact .last ht (Nat.le_refl _) (addStatement_ends (ht.ready hc) rfl (by rintro _ ⟨⟩) trivial hnodes trivial)
    fun _ _ _ _ h => h.result

theorem bindDefer_closed {part : Part} (hr : room.Good) (hp : part.Good) : (bindDefer room pos part).Closed Result := by
  intro c s hc
  refine .bind (hp.expression hr c s hc) fun n t ht hn => ?_
  exact .last ht (Nat.le_refl _) (addStatement_ends (ht.ready hc) rfl (by rintro _ ⟨⟩) trivial (held_single hn.held) trivial)
    fun _ _ _ _ h => h.result

end BindM

end Bindery
