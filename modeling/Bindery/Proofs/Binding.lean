import Bindery.Proofs.Declarations
/-!
# All that binding comes to

The passes over a body go through good rules, so that the rules of a level are good when those of the level below are;
at the limit there is none. What binding modules comes to is therefore reached by steps, and sound.
-/
namespace Bindery

namespace BindM

/-! ## Rules that do not fail -/

/-- A rule gives a result wherever it is run. -/
def Succeeds {α : Type} (rule : BindM α) : Prop := ∀ c s, (rule.runAt c s).1.isSome

theorem Succeeds.bind {α β : Type} {x : BindM α} {f : α → BindM β} (hx : x.Succeeds) (hf : ∀ a, (f a).Succeeds) :
    (x >>= f).Succeeds := by
  intro c s
  have h := hx c s
  rw [runAt_bind]
  rcases hrun : x.runAt c s with ⟨_ | a, t⟩ <;> rw [hrun] at h
  · cases h
  · exact hf a c t

theorem Succeeds.forM {α : Type} {rule : α → BindM PUnit} (h : ∀ x, (rule x).Succeeds) :
    ∀ items : List α, (items.forM rule).Succeeds
  | [] => fun _ _ => rfl
  | x :: items => .bind (h x) fun _ => forM h items

theorem Succeeds.mapM {α β : Type} {rule : α → BindM β} (h : ∀ x, (rule x).Succeeds) :
    ∀ items : List α, (items.mapM rule).Succeeds
  | [] => by rw [List.mapM_nil]; exact fun _ _ => rfl
  | x :: items => by
    rw [List.mapM_cons]
    exact .bind (h x) fun _ => .bind (mapM h items) fun _ _ _ => rfl

theorem Succeeds.attempt {α : Type} (rule : BindM α) : (BindM.attempt rule).Succeeds := fun _ _ => rfl

theorem Succeeds.pure {α : Type} (a : α) : (Pure.pure a : BindM α).Succeeds := fun _ _ => rfl

theorem bindModule_succeeds (room : Room) (m : SymbolId) : (bindModule room m).Succeeds := by
  refine .bind (fun _ _ => rfl) fun own => .bind (fun _ _ => rfl) fun sc => ?_
  split
  · split
    · exact fun _ _ => rfl
    · exact fun _ _ => rfl
  · exact fun _ _ => rfl

variable {k : Nat} {c : Context} {s : BindState} {room : Room}

/-! ## Passes over a body -/

theorem eachStatement_ends {statements : List StatementPart} {rule : Syntax → BindM Unit} (hc : Ready k c s)
    (h : ∀ part ∈ statements, ∀ modifiers t, At k s t →
      Ends (rule part.tree) { c with modifiers } t (At t.program.nodes.size t) fun _ _ => True) :
    Ends (eachStatement statements rule) c s (At k s) fun _ _ => True := by
  refine forM_ends hc fun part hp t ht => .discard (.tried (.withReader ?_))
  exact .last (.start (ht.ready hc)) (ht.ready hc).le (h part hp _ t ht) fun _ _ _ _ h => h

/-- A pass whose rule needs nothing to be known of the place. -/
theorem eachStatement_closed {statements : List StatementPart} {rule : Syntax → BindM Unit}
    (h : ∀ tree, (rule tree).Closed fun _ _ _ _ => True) : (eachStatement statements rule).Closed fun _ _ _ _ => True :=
  fun _ _ hc => eachStatement_ends hc fun part _ _ t ht => h part.tree _ t { (ht.ready hc).top with }

/-- The rule that the first pass leaves behind for the statement of a module: it is bound where it stands, and leaves no
node. -/
def Binds (room : Room) (parts : List StatementPart) (m : SymbolId) : Prop :=
  ∃ part ∈ parts, part.rule = (do bindModule room m; failure)

section declare

variable {b : Option ScopeId} {coherent : Prop} {waiting : SymbolId → Prop} {s₀ : BindState}

theorem declareStatement_ends {tree : Syntax} (hs : AtDeclared k b coherent waiting s₀ s) (hc : Ready k c s₀)
    (ho : Opens coherent b c.scope s₀) (hm : s.program.memo = s₀.program.memo)
    (hw : ∀ m, waiting m → s₀.program.symbols.size ≤ m.index) :
    Ends (attempt (declareStatement tree)) c s (AtDeclared k b coherent (s₀.program.symbols.size ≤ ·.index) s₀) fun r t =>
      (∀ m, r = some (some m) → s₀.program.symbols.size ≤ m.index) ∧ AtDeclared k b coherent
        (fun m => waiting m ∨ (r = some (some m) ∧ (s₀.program.scope c.scope).kind ≠ .struct)) s₀ t := by
  -- what declares no module leaves none waiting
  have hplain : ∀ {x : BindM (Option SymbolId)}, Ends x c s (AtDeclared k b coherent waiting s₀) (fun r _ => r = none) →
      Ends (attempt x) c s (AtDeclared k b coherent (s₀.program.symbols.size ≤ ·.index) s₀) fun r t =>
        (∀ m, r = some (some m) → s₀.program.symbols.size ≤ m.index) ∧ AtDeclared k b coherent
          (fun m => waiting m ∨ (r = some (some m) ∧ (s₀.program.scope c.scope).kind ≠ .struct)) s₀ t := by
    intro x hx
    refine (hx.attempt.and_reach.weaken fun t ht => ht.await hw).mono fun r t _ ⟨ht, hr⟩ => ⟨?_, ht.await fun m => .inl⟩
    intro m hrm
    cases hr _ hrm
  unfold declareStatement
  split
  · exact hplain (.bind (.discard (declareFunction_ends hs hc ho hm _)) fun _ _ ht _ => .pure ht rfl)
  · exact hplain (.bind (.discard (declareStruct_ends hs hc ho hm _)) fun _ _ ht _ => .pure ht rfl)
  · rename_i source _
    have hscope : currentScope.runAt c s = (some c.scope, s) := rfl
    rcases declareModule_cases (c := c) hs (hs.ready hc).scope source with ⟨t, hrun, ht⟩ | ⟨m, t, hrun, hnew, -, ht⟩
    · refine .of_run (a := none) (t := t) ?_ (ht.await hw) ⟨by rintro _ ⟨⟩, ht.await fun m => .inl⟩
      rw [runAt_attempt, runAt_bind_some hscope, runAt_bind_none hrun]
    · rw [hs.later.scopes.kind c.scope hc.scope] at ht
      refine .of_run (a := some (some m)) (t := t) ?_ (ht.await fun x hx => ?_) ⟨?_, ht.await fun x hx => ?_⟩
      · rw [runAt_attempt, runAt_bind_some hscope, runAt_bind_some hrun]
        rfl
      · exact hx.elim (hw x) fun h => h.1 ▸ hnew
      · rintro _ ⟨⟩
        exact hnew
      · exact hx.imp_right fun h => ⟨by rw [h.1], h.2⟩
  · exact hplain (.pure hs rfl)

theorem Unrecorded.declareStatement (tree : Syntax) : Unrecorded (declareStatement tree) := by
  unfold BindM.declareStatement
  split
  · exact .bind (.bind (.declareFunction _) fun _ _ _ => rfl) fun _ _ _ => rfl
  · exact .bind (.bind (.declareStruct _) fun _ _ _ => rfl) fun _ _ _ => rfl
  · exact .bind (fun _ _ => rfl) fun _ => .bind (.declareModule _ _) fun _ _ _ => rfl
  · exact fun _ _ => rfl

/-- The first pass leaves good rules behind, and every module that waits is bound by one of them. No instance is recorded
before all templates of the scope are declared. -/
theorem declareStatements_ends (hr : room.Good) (hc : Ready k c s₀) (ho : Opens coherent b c.scope s₀) :
    ∀ {parts : List StatementPart} {s : BindState} {waiting : SymbolId → Prop}, AtDeclared k b coherent waiting s₀ s →
      s.program.memo = s₀.program.memo → (∀ m, waiting m → s₀.program.symbols.size ≤ m.index) →
      (∀ part ∈ parts, part.rule.Closed Result) →
      Ends (declareStatements room parts) c s (AtDeclared k b coherent (s₀.program.symbols.size ≤ ·.index) s₀)
        fun parts t => (∀ part ∈ parts, part.rule.Closed Result) ∧ AtDeclared k b coherent
          (fun m => waiting m ∨ (Binds room parts m ∧ (s₀.program.scope c.scope).kind ≠ .struct)) s₀ t
  | [], _, waiting, hs, _, hw, _ => .pure (hs.await hw) ⟨by simp, hs.await fun _ => .inl⟩
  | part :: rest, s, waiting, hs, hm, hw, hparts => by
    have hmodule : ∀ module, (do bindModule room module; failure : BindM NodeId).Closed Result := fun module c s hc =>
      .bind (bindModule_ends hr hc) fun _ _ ht _ => .failure ht
    have hdeclare : Ends (attempt (withModifiers part.modifiers (declareStatement part.tree))) c s
        (AtDeclared k b coherent (s₀.program.symbols.size ≤ ·.index) s₀) fun r t => t.program.memo = s.program.memo ∧
          (∀ m, r = some (some m) → s₀.program.symbols.size ≤ m.index) ∧ AtDeclared k b coherent
            (fun m => waiting m ∨ (r = some (some m) ∧ (s₀.program.scope c.scope).kind ≠ .struct)) s₀ t := by
      have hin : Ready k { c with modifiers := c.modifiers ∪ part.modifiers } s₀ := { hc with }
      obtain ⟨hreach, hpost⟩ := declareStatement_ends hs hin ho hm hw
      exact ⟨hreach, fun r hr => ⟨Unrecorded.declareStatement part.tree _ s, hpost r hr⟩⟩
    refine .bind hdeclare fun declared t ht ⟨hmt, hnew, hwt⟩ => ?_
    refine .bind (declareStatements_ends hr hc ho hwt (hmt.trans hm) (fun m h => h.elim (hw m) fun h => hnew m h.1)
      fun part hp => hparts part (by simp [hp])) fun parts u hu ⟨hclosed, hwu⟩ =>
      .pure hu ⟨fun part' hp => ?_, hwu.await fun m hm => ?_⟩
    · rcases List.mem_cons.1 hp with rfl | hp
      · split
        · exact hmodule _
        · exact hparts part (by simp)
      · exact hclosed part' hp
    · rcases hm with (h | ⟨rfl, hk⟩) | ⟨⟨part', hp, hrule⟩, hk⟩
      · exact .inl h
      · exact .inr ⟨⟨_, List.mem_cons_self, rfl⟩, hk⟩
      · exact .inr ⟨⟨part', List.mem_cons_of_mem _ hp, hrule⟩, hk⟩

end declare

theorem bindEager_closed (hr : room.Good) (tree : Syntax) : (bindEager room tree).Closed fun _ _ _ _ => True := by
  unfold bindEager
  split
  · exact bindEnum_closed hr (optionalPart_good hr _)
  · exact eachStatement_closed fun _ => bindForeign_closed hr
  · exact fun _ _ hc => .pure (.start hc) trivial

theorem bindNaming_closed (hr : room.Good) (tree : Syntax) : (bindNaming room tree).Closed fun _ _ _ _ => True := by
  unfold bindNaming
  split
  · exact bindAlias_closed (part_good hr _)
  · exact bindAlias_closed (part_good hr _)
  · exact bindImport_closed hr
  · exact fun _ _ hc => .pure (.start hc) trivial

/-! ## Modules that wait -/

theorem declareStatements_succeeds : ∀ parts : List StatementPart, (declareStatements room parts).Succeeds
  | [] => .pure _
  | _ :: rest => .bind (.attempt _) fun _ => .bind (declareStatements_succeeds rest) fun _ => .pure _

theorem bindDeclarations_succeeds (body : List Syntax) : (bindDeclarations room body).Succeeds := by
  have heach : ∀ statements rule, (eachStatement statements rule).Succeeds := fun _ _ => .forM (fun _ _ _ => rfl) _
  exact .bind (declareStatements_succeeds _) fun _ => .bind (heach _ _) fun _ => .bind (heach _ _) fun _ => .pure _

theorem bindStatements_succeeds : ∀ (parts : List StatementPart) (reach : Reach), (bindStatements parts reach).Succeeds
  | [], _ => .pure _
  | part :: rest, reach => by
    refine .bind ?_ fun _ => .bind (.attempt _) fun _ => .bind (bindStatements_succeeds rest _) fun _ => .pure _
    unfold reportUnreachable
    split
    · split <;> exact fun _ _ => rfl
    · exact fun _ _ => rfl

/-- **Every module that waits is done once the statements of its scope are bound**, wherever it was used before. -/
theorem bindStatements_done (hr : room.Good) : ∀ {parts : List StatementPart} {reach : Reach} {s : BindState},
    Ready k c s → (∀ part ∈ parts, part.rule.Closed Result) →
    Ends (bindStatements parts reach) c s (At k s) fun _ t => ∀ m own, Binds room parts m →
      s.program.module? m = some own → own.status ≠ .busy → ∃ own', t.program.module? m = some own' ∧ own'.status = .done
  | [], _, _, hc, _ => .pure (.start hc) (by simp [Binds])
  | part :: rest, reach, s, hc, hrules => by
    refine .bind (reportUnreachable_ends hc) fun reach t ht _ => ?_
    have hat : Ends (attempt (withModifiers part.modifiers part.rule)) c t (At t.program.nodes.size t) fun _ _ => True :=
      .tried (.withReader (.mono (hrules part (by simp) _ t { (ht.ready hc).top with }) fun _ _ _ _ => trivial))
    have hbind : Ends (attempt (withModifiers part.modifiers part.rule)) c t
        (fun u => ∀ m own, part.rule = (do bindModule room m; failure) → t.program.module? m = some own →
          own.status ≠ .busy → ∃ own', u.program.module? m = some own' ∧ own'.status = .done) fun _ _ => True := by
      refine ⟨fun m own hrule hm hb => ?_, fun _ _ => trivial⟩
      have hdone : Ends (do bindModule room m; failure : BindM NodeId) { c with modifiers := c.modifiers ∪ part.modifiers }
          t (fun u => ∃ own', u.program.module? m = some own' ∧ own'.status = .done) fun _ _ => True := by
        have hin : Ready k { c with modifiers := c.modifiers ∪ part.modifiers } t := { ht.ready hc with }
        refine .bind ((bindModule_ends hr hin).of_isSome (bindModule_succeeds _ _ _ _) fun _ u _ h => ?_) fun _ u hu _ =>
          .failure hu
        obtain ⟨own', hm', -, hd⟩ := h own hm
        exact ⟨own', hm', hd hb⟩
      rw [← hrule] at hdone
      exact hdone.reach
    refine .next ht (ht.ready hc).le (hat.and hbind.and_reach) fun node u hu htu ⟨_, hpart, _⟩ => ?_
    refine .next hu (Nat.le_refl k) (bindStatements_done hr (hu.ready hc) fun part hp => hrules part (by simp [hp]))
      fun nodes v hv huv hrest => .pure hv fun m own ⟨part', hp, hrule⟩ hm hb => ?_
    obtain ⟨ownt, hmt, -⟩ := ht.later.module hm
    have hbt := ht.status_ne_busy id hm hb hmt
    rcases List.mem_cons.1 hp with rfl | hp
    · obtain ⟨ownu, hmu, hdone⟩ := hpart m ownt hrule hmt hbt
      obtain ⟨ownv, hmv, -⟩ := huv.later.module hmu
      exact ⟨ownv, hmv, huv.status_done (fun _ => id) hmu hdone hmv⟩
    · obtain ⟨ownu, hmu, -⟩ := htu.later.module hmt
      exact hrest m ownu ⟨part', hp, hrule⟩ hmu (htu.status_ne_busy id hmt hbt hmu)

/-- The first pass changes what a statement does, not what it is. -/
theorem declareStatements_trees : ∀ {s : BindState} (parts : List StatementPart),
    Ends (declareStatements room parts) c s (fun _ => True) fun r _ => r.map (·.tree) = parts.map (·.tree)
  | _, [] => .pure trivial rfl
  | _, part :: rest => by
    refine .bind (show Ends _ _ _ _ fun _ _ => True from ⟨trivial, fun _ _ => trivial⟩) fun declared t _ _ => ?_
    refine .bind (declareStatements_trees rest) fun r u _ hr => .pure trivial ?_
    rw [List.map_cons, List.map_cons, hr]
    congr 1
    split <;> rfl

/-- The statements of a body define what the body defines. -/
theorem definedNames_of_statementParts {tree : Syntax} {name : String} (hn : name ∈ tree.definedNames) :
    ∀ {body : List Syntax} {modifiers : Modifiers}, tree ∈ (statementParts room modifiers body).map (·.tree) →
      name ∈ definedNames body
  | [], _, ht => by simp [statementParts] at ht
  | .mk _ form :: rest, modifiers, ht => by
    have hrest : tree ∈ (statementParts room modifiers rest).map (·.tree) → name ∈ definedNames rest :=
      definedNames_of_statementParts hn
    rw [definedNames, List.mem_append]
    cases form with
    | modified own body =>
      rw [statementParts, List.map_append, List.mem_append] at ht
      exact ht.imp (definedNames_of_statementParts hn) hrest
    | _ =>
      rw [statementParts, List.map_cons, List.mem_cons] at ht
      · rcases ht with rfl | ht
        · exact .inl hn
        · exact .inr (hrest ht)
      · rintro _ _ ⟨⟩

section body

variable {b : Option ScopeId} {coherent : Prop} {body : List Syntax}

theorem bindDeclarations_ends (hr : room.Good) (hc : Ready s.program.nodes.size c s) (ho : Opens coherent b c.scope s) :
    Ends (bindDeclarations room body) c s
      (AtDeclared s.program.nodes.size b coherent (s.program.symbols.size ≤ ·.index) s) fun parts t =>
        ((∀ part ∈ parts, part.rule.Closed Result) ∧
          parts.map (·.tree) = (statementParts room .none body).map (·.tree)) ∧
        AtDeclared s.program.nodes.size b coherent
          (fun m => Binds room parts m ∧ (s.program.scope c.scope).kind ≠ .struct) s t := by
  have hstart : AtDeclared s.program.nodes.size b coherent (fun _ => False) s s :=
    (AtBody.start hc ho.base).expect fun _ _ => id
  refine .bind ((declareStatements_ends hr hc ho hstart rfl (fun _ => False.elim) (statementParts_good hr .none body)).and
    (declareStatements_trees _)) fun parts t ht ⟨⟨hparts, hwait⟩, htrees⟩ => ?_
  refine .next ht ht.later.nodes ((eachStatement_closed (bindEager_closed hr)).ends (ht.ready hc)) fun _ u hu htu _ => ?_
  refine .next hu hu.later.nodes ((eachStatement_closed (bindNaming_closed hr)).ends (hu.ready hc)) fun _ v hv huv _ =>
    .pure hv ⟨⟨hparts, htrees⟩, ?_⟩
  exact ((hwait.trans htu ht.later.nodes).trans huv hu.later.nodes).await fun m hm => hm.resolve_left id

theorem bindBody_ends (hr : room.Good) (hc : Ready s.program.nodes.size c s) (ho : Opens coherent b c.scope s) :
    Ends (bindBody room body) c s (AtBody s.program.nodes.size b coherent s) fun nodes t =>
      ∀ n ∈ nodes, Kept s.program.nodes.size c t n := by
  refine .bind_of_isSome (bindDeclarations_ends hr hc ho) (bindDeclarations_succeeds _ _ _)
    fun parts t ht ⟨⟨hparts, _⟩, hwait⟩ => ?_
  refine (((bindStatements_ends (ht.ready hc) hparts).and (bindStatements_done hr (ht.ready hc) hparts)).of_isSome
    (bindStatements_succeeds _ _ _ _) fun _ u hu ⟨_, hdone⟩ => ?_).mono fun _ _ _ h => h.1
  exact hwait.settle hu (Nat.le_refl _) fun m own hm => hdone m own hm.1

theorem bindMembersOf_ends {owner : SymbolId} (hr : room.Good) (hc : Ready s.program.nodes.size c s)
    (ho : Opens coherent b c.scope s) (hk : (s.program.scope c.scope).kind = .struct) (hl : c.loopLabel = none)
    (hm : s.program.Members owner c.scope body) :
    Ends (bindMembersOf room owner body) c s (AtBody s.program.nodes.size b coherent s) fun _ _ => True := by
  refine .bind_of_isSome (bindDeclarations_ends hr hc ho) (bindDeclarations_succeeds _ _ _)
    fun parts t _ ⟨⟨_, htrees⟩, hwait⟩ => ?_
  have ht : AtBody s.program.nodes.size b coherent s t :=
    hwait.discharge (fun _ _ _ h => absurd hk h.1.2) fun _ _ h => absurd hk h.1.2
  refine .last ht (Nat.le_refl _) (eachStatement_ends (ht.ready hc) fun part hp _ u hu => ?_) fun _ _ _ _ h => h
  have hsu := Via.trans ht hu (Nat.le_refl _)
  refine bindMember_ends hr { (hsu.ready hc).top with } ?_ hl fun name hname p hl hp' => ?_
  · rw [hsu.later.scopes.kind _ hc.scope, hk]
  · have hmem : part.tree ∈ (statementParts room .none body).map (·.tree) := htrees ▸ List.mem_map_of_mem hp
    exact hm.awaits (hsu.later.trans hl) hp' (definedNames_of_statementParts hname hmem)

end body

end BindM

/-! ## Levels -/

theorem Level.above_good {room : Room} (hr : room.Good) : (Level.above room).Good where
  expression tree := (BindM.part_good hr tree).expression hr
  type tree := (BindM.part_good hr tree).type hr
  argument tree := (BindM.part_good hr tree).argument hr
  branch _ := BindM.bindBranch_closed hr
  body _ _ _ _ _ hc ho := BindM.bindBody_ends hr hc ho
  members _ _ _ _ _ _ hc ho hk hl hm := BindM.bindMembersOf_ends hr hc ho hk hl hm

/-- **The rules of every level are good**, however many levels are left. -/
theorem Room.ofDepth_good (limit : Nat) (entryName : String) : ∀ left, (Room.ofDepth limit entryName left).Good
  | 0 => by rintro _ ⟨⟩
  | left + 1 => by
    rintro _ ⟨⟩
    exact Level.above_good (ofDepth_good limit entryName left)

/-! ## Modules -/

/-- Every module that was asked for is bound and has an entry. -/
def Program.Entered (p : Program) : Prop := ∀ m ∈ p.modules, ∃ own, p.module? m = some own ∧ own.entry.isSome

/-- A module that has an entry keeps it. -/
theorem Program.Later.entered {p q : Program} (h : p.Later q) {m : SymbolId}
    (hm : ∃ own, p.module? m = some own ∧ own.entry.isSome) : ∃ own, q.module? m = some own ∧ own.entry.isSome := by
  obtain ⟨own, hm, he⟩ := hm
  obtain ⟨e, he⟩ := Option.isSome_iff_exists.1 he
  obtain ⟨own', hm', -, he'⟩ := h.module hm
  exact ⟨own', hm', by rw [he' e he]; rfl⟩

namespace BindM

/-- Whatever is wrong with them, modules are bound to the end. -/
theorem bindModules_succeeds (room : Room) (modules : List ModuleDef) : (bindModules room modules).Succeeds :=
  .bind (.mapM (fun _ _ _ => rfl) _) fun _ => .bind (fun _ _ => rfl) fun _ => .forM (bindModule_succeeds room) _

variable {k : Nat} {c : Context} {s : BindState} {room : Room}

/-- Modules that were declared are bound, and then have entries. -/
theorem bindEach_ends (hr : room.Good) : ∀ {symbols : List SymbolId} {s : BindState}, Ready k c s →
    Ends (symbols.forM (bindModule room)) c s (At k s) fun _ t => ∀ m ∈ symbols, ∀ own, s.program.module? m = some own →
      ∃ own', t.program.module? m = some own' ∧ own'.entry.isSome ∧ (own.status ≠ .busy → own'.status = .done)
  | [], s, hc => .pure (.start hc) (by simp)
  | m :: rest, s, hc => by
    refine .bind (bindModule_ends hr hc) fun _ t ht hfirst => ?_
    refine .last ht (Nat.le_refl k) (bindEach_ends hr (ht.ready hc)) fun _ u _ htu hrest m' hm' own hown => ?_
    rcases List.mem_cons.1 hm' with rfl | hm'
    · obtain ⟨own', hown', hentry, hdone⟩ := hfirst own hown
      obtain ⟨own'', hown'', hentry'⟩ := htu.later.entered ⟨own', hown', hentry⟩
      exact ⟨own'', hown'', hentry', fun hb => htu.status_done (fun _ => id) hown' (hdone hb) hown''⟩
    · obtain ⟨own', hown', -⟩ := ht.later.module hown
      obtain ⟨own'', hown'', hentry, hdone⟩ := hrest m' hm' own' hown'
      exact ⟨own'', hown'', hentry, fun hb => hdone (ht.status_ne_busy id hown hb hown')⟩

/-- The modules that are asked for are declared, and wait. -/
theorem declareEach_ends : ∀ {modules : List ModuleDef} {s : BindState}, Ready k c s →
    Ends (modules.mapM fun source => attempt (declareModule .root source)) c s
      (Via ((s.floor k).awaiting (s.program.symbols.size ≤ ·.index)) s) fun rs t =>
        Via ((s.floor k).awaiting fun m => some m ∈ rs) s t ∧ ∀ m, some m ∈ rs → (t.program.module? m).isSome
  | [], s, hc => by
    rw [List.mapM_nil]
    exact .pure ((Via.start hc).expect fun _ _ => id) ⟨(Via.start hc).expect fun _ _ => id, by simp⟩
  | source :: rest, s, hc => by
    have hstart : Via ((s.floor k).awaiting fun _ => False) s s := (Via.start hc).expect fun _ _ => id
    have hroot : ScopeId.root.index < s.program.scopes.size := hc.sound.program.scopes
    rw [List.mapM_cons]
    have hfirst : ∃ r t, (attempt (declareModule .root source)).runAt c s = (some r, t) ∧
        Via ((s.floor k).awaiting (r = some ·)) s t ∧
        ∀ m, r = some m → s.program.symbols.size ≤ m.index ∧ (t.program.module? m).isSome := by
      rcases declareModule_cases (c := c) hstart hroot source with
        ⟨t, hrun, ht⟩ | ⟨m, t, hrun, hnew, hm, ht⟩
      · exact ⟨none, t, by rw [runAt_attempt, hrun], ht.await fun _ => False.elim, by rintro _ ⟨⟩⟩
      · refine ⟨some m, t, by rw [runAt_attempt, hrun], ht.await fun x hx => ?_, by rintro _ ⟨⟩; exact ⟨hnew, hm⟩⟩
        exact hx.elim False.elim fun h => by rw [h.1]
    obtain ⟨r, t, hrun, ht, hr⟩ := hfirst
    have hle : ∀ waiting waiting', (s.floor k).awaiting waiting ≤ (t.floor k).awaiting waiting' := fun _ _ =>
      ht.le_floor (Nat.le_refl k)
    refine .run_bind hrun (.chain (ht.await fun m hm => (hr m hm).1) (hle _ _) (fun m status h => ?_)
      (declareEach_ends (ht.ready hc)) fun rs u hu htu hrs => ?_)
    · exact ⟨Nat.le_trans ht.later.symbols h.1, h.2⟩
    refine .pure hu ⟨(ht.await fun m hm => ?_).chain hrs.1 (hle _ _) fun m status h => ⟨?_, h.2⟩, fun m hm => ?_⟩
    · rw [hm]
      exact List.mem_cons_self
    · exact List.mem_cons_of_mem _ h.1
    · rcases List.mem_cons.1 hm with hm | hm
      · obtain ⟨own, hown⟩ := Option.isSome_iff_exists.1 (hr m hm.symm).2
        obtain ⟨own', hown', -⟩ := htu.later.module hown
        rw [hown']
        rfl
      · exact hrs.2 m hm

theorem bindModules_ends (modules : List ModuleDef) (hr : room.Good) (hc : Ready k c s) (he : s.program.Entered) :
    Ends (bindModules room modules) c s (Via { s.floor k with sealed := false } s) fun _ t => t.program.Entered := by
  refine .bind_of_isSome (declareEach_ends hc) (Succeeds.mapM (fun _ _ _ => rfl) _ _ _) fun declared t _ ⟨hst, hdeclared⟩ => ?_
  have hstart : Via (Floor.awaiting { s.floor k with sealed := false } fun m => some m ∈ declared) s s :=
    .refl hc.sound ⟨hc.le, Nat.le_refl _, Nat.le_refl _, Nat.le_refl _, by rintro _ ⟨⟩, fun _ => rfl, id⟩
  have ht : Via (Floor.awaiting { s.floor k with sealed := false } fun m => some m ∈ declared) s t :=
    hstart.chain hst ⟨Nat.le_refl _, Nat.le_refl _, Nat.le_refl _, Nat.le_refl _, by rintro _ ⟨⟩, fun _ => rfl, id⟩
      fun _ _ => id
  have hu := ht.edit (.modules (declared.filterMap id) rfl) rfl
  refine .run_bind rfl (.mono (.of_isSome (bindEach_ends hr (hu.ready hc)).and_reach
    (Succeeds.forM (bindModule_succeeds room) _ _ _) ?_) ?_)
  · rintro _ v - ⟨huv, hbound⟩
    refine hu.settle huv (Nat.le_refl k) fun m own hm hown hb => ?_
    obtain ⟨own', hown', -, hdone⟩ := hbound m (List.mem_filterMap.2 ⟨_, hm, rfl⟩) own hown
    exact ⟨own', hown', hdone hb⟩
  · rintro _ v - ⟨huv, hbound⟩ m hm
    rw [huv.frame.modules rfl] at hm
    rcases List.mem_append.1 hm with hm | hm
    · rw [hst.frame.modules rfl] at hm
      exact huv.later.entered (hu.later.entered (he m hm))
    · obtain ⟨_, hr, rfl⟩ := List.mem_filterMap.1 hm
      obtain ⟨own, hown⟩ := Option.isSome_iff_exists.1 (hdeclared m hr)
      obtain ⟨own', hown', hentry, -⟩ := hbound m hm own hown
      exact ⟨own', hown', hentry⟩

end BindM

namespace BindState

theorem bindModules_via {s : BindState} (hs : s.Sound) (he : s.program.Entered) (options : BindOptions)
    (modules : List ModuleDef) :
    Via { s.floor s.program.nodes.size with sealed := false } s (s.bindModules options modules) ∧
      (s.bindModules options modules).program.Entered := by
  have hc : Ready s.program.nodes.size rootContext s :=
    ⟨hs, Nat.le_refl _, hs.program.scopes, by rintro _ ⟨⟩, by rintro _ ⟨⟩⟩
  have hends := BindM.bindModules_ends modules
    (Room.ofDepth_good options.maxNestingDepth options.entryName options.maxNestingDepth) hc he
  obtain ⟨a, ha⟩ := Option.isSome_iff_exists.1 (BindM.bindModules_succeeds _ modules rootContext s)
  exact ⟨hends.reach, hends.post a ha⟩

/-- The state after lists of modules were bound, one list on top of another. -/
def bindAll (options : BindOptions) (names : NameTable) (batches : List (List ModuleDef)) : BindState :=
  batches.foldl (·.bindModules options ·) (initial options names)

/-- A state that binding comes to from the start, by steps that keep the memo and the templates coherent. -/
def Reached (options : BindOptions) (names : NameTable) (s : BindState) : Prop :=
  Steps { coherent := True } (initial options names) s

namespace Reached

variable {options : BindOptions} {names : NameTable} {s t : BindState}

theorem sound (h : Reached options names s) : s.Sound := (Steps.keep (initial_sound options names) h).1

theorem coherent (h : Reached options names s) : s.program.Coherent :=
  Steps.coherent (initial_sound options names) h trivial (Program.initial_coherent _)

theorem ready (h : Reached options names s) : Ready s.program.nodes.size rootContext s :=
  ⟨h.sound, Nat.le_refl _, h.sound.program.scopes, by rintro _ ⟨⟩, by rintro _ ⟨⟩⟩

/-- Steps that keep coherent what is coherent lead on, whatever their floor. -/
theorem steps (h : Reached options names s) {floor : Floor} (hsteps : Steps floor s t)
    (hc : s.program.Coherent → floor.coherent) : Steps { coherent := True } s t :=
  hsteps.weaken ⟨Nat.zero_le _, Nat.zero_le _, Nat.zero_le _, Nat.zero_le _, fun _ _ => .inl (Nat.zero_le _), by rintro ⟨⟩,
    fun _ => hc h.coherent⟩

/-- Binding modules leads on, and every module that was asked for has an entry. -/
theorem bindModules (h : Reached options names s) (he : s.program.Entered) (modules : List ModuleDef) :
    Steps { coherent := True } s (s.bindModules options modules) ∧ (s.bindModules options modules).program.Entered := by
  obtain ⟨hvia, he'⟩ := bindModules_via h.sound he options modules
  exact ⟨h.steps hvia.steps id, he'⟩

end Reached

/-- **Whatever is bound, steps lead to the state**, and every module that was asked for has an entry. -/
theorem bindAll_reached (options : BindOptions) (names : NameTable) (batches : List (List ModuleDef)) :
    Reached options names (bindAll options names batches) ∧ (bindAll options names batches).program.Entered := by
  have hall : ∀ (batches : List (List ModuleDef)) (s : BindState), Reached options names s → s.program.Entered →
      Reached options names (batches.foldl (·.bindModules options ·) s) ∧
        (batches.foldl (·.bindModules options ·) s).program.Entered := by
    intro batches
    induction batches with
    | nil => exact fun _ hs he => ⟨hs, he⟩
    | cons modules rest ih =>
      intro s hs he
      obtain ⟨hsteps, he'⟩ := hs.bindModules he modules
      exact ih _ (hs.trans hsteps) he'
  exact hall batches _ .refl (by rintro _ ⟨⟩)

/-- **Whatever is bound, nothing that was begun is left open.** -/
theorem bindAll_settles (options : BindOptions) (names : NameTable) (batches : List (List ModuleDef)) :
    (initial options names).program.Settles (fun _ _ => False) (bindAll options names batches).program := by
  have hall : ∀ (batches : List (List ModuleDef)) (s : BindState), Reached options names s → s.program.Entered →
      (initial options names).program.Settles (fun _ _ => False) s.program →
      (initial options names).program.Settles (fun _ _ => False) (batches.foldl (·.bindModules options ·) s).program := by
    intro batches
    induction batches with
    | nil => exact fun _ _ _ hsettled => hsettled
    | cons modules rest ih =>
      intro s hs he hsettled
      obtain ⟨hvia, he'⟩ := bindModules_via hs.sound he options modules
      exact ih _ (hs.trans (hs.bindModules he modules).1) he' (hsettled.trans hvia.settled hs.sound.program hvia.later)
  exact hall batches _ .refl (by rintro _ ⟨⟩) (.refl _)

/-- **Whatever is bound, the state is sound**, and its program is later than the one at the start. -/
theorem bindAll_keeps (options : BindOptions) (names : NameTable) (batches : List (List ModuleDef)) :
    (bindAll options names batches).Sound ∧
      (Program.initial options.pointerWidth).Later (bindAll options names batches).program := by
  obtain ⟨hsound, hlater, -⟩ := Steps.keep (initial_sound options names) (bindAll_reached options names batches).1
  exact ⟨hsound, hlater⟩

theorem bindAll_sound (options : BindOptions) (names : NameTable) (batches : List (List ModuleDef)) :
    (bindAll options names batches).program.Sound := (bindAll_keeps options names batches).1.program

end BindState

/-! ## Writing programs down -/

namespace Sample

def node (form : Form) : Syntax := .mk .synthetic form

def name (own : String) : Syntax := node (.name own)

def call (callee : Syntax) (args : List Syntax) : Syntax := node (.call callee (args.map (⟨.synthetic, none, ·⟩)) none)

def define (own : String) (value : Syntax) : Syntax := node (.define own none (some value) .none)

def field (own : String) (type : Syntax) : Syntax := node (.define own (some type) none .none)

def struct (own : String) (members : List Syntax) : Syntax := node (.struct ⟨.synthetic, own, .struct, [], members, .none⟩)

def returns (value : Syntax) : Syntax := node (.returns (some value))

def param (own : String) (type default : Option Syntax) : Param := ⟨.synthetic, own, type, default, false, false⟩

def functionDef (own : Option String) (kind : FunctionKind) (params : List Param) (returnType : Option Syntax)
    (body : List Syntax) : FunctionDef := ⟨.synthetic, own, none, kind, params, returnType, some body, .none⟩

def function (own : String) (params : List Param) (body : List Syntax) : Syntax :=
  node (.function (functionDef own .plain params none body))

def generator (own : String) (returnType : Option Syntax) (body : List Syntax) : Syntax :=
  node (.function (functionDef own .generator [] returnType body))

/-- The state after a module with some statements was bound. -/
def bound (body : List Syntax) : BindState := .bindAll {} {} [[⟨.synthetic, "m", body⟩]]

end Sample

/-- The statements of a module, with what they show: a property of the state that they are bound to. -/
structure Sample (shows : BindState → Prop) where
  body : List Syntax
  shown : shows (Sample.bound body)

namespace Sample

variable {shows : BindState → Prop} (sample : Sample shows)

def state : BindState := bound sample.body

theorem holds : shows sample.state := sample.shown

theorem sound : sample.state.Sound := (BindState.bindAll_keeps _ _ _).1

theorem eq_bindAll : ∃ batches, sample.state = .bindAll {} {} batches := ⟨_, rfl⟩

end Sample

end Bindery
