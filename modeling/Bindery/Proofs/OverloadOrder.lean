import Bindery.Proofs.Overloads
import Bindery.Proofs.Unfolding
/-!
# The order of overloads

The first pass over the statements of a scope declares their templates one after the other, so those of one name come to
stand in the order of their statements. A call takes the first one that takes its arguments.
-/
namespace Bindery

/-! ## Declaring templates -/

namespace BindM

variable {k : Nat} {c : Context} {s : BindState} {name : String} {pos : Span} {template : TemplateDecl}

/-- A rule that only reports and takes names, and leaves the program as it is. -/
abbrev Leaves {α : Type} (rule : BindM α) (c : Context) (s : BindState) : Prop :=
  Ends rule c s (fun t => BindState.Step {} s t ∧ t.program = s.program) fun _ _ => True

/-- The first pass may declare templates in the scope of its context. -/
theorem start_declaring (hc : Ready k c s) : AtDeclared k (some c.scope) False (fun _ => False) s s ∧
    Opens False (some c.scope) c.scope s :=
  ⟨(AtBody.start hc False.elim).expect fun _ _ => id, False.elim, False.elim, .inl rfl⟩

theorem addTemplate_enlists {existing : SymbolId} (hs : s.Arranged) (hc : Ready k c s)
    (ht : template.scope.index < s.program.scopes.size) (hr : template.role.captures = false) (hi : template.instances = [])
    (hfound : (s.program.scope c.scope).find? name = some existing)
    (hx : (∃ own, s.program.decl existing = .template own) ∨
      ∃ templates, s.program.decl existing = .overloadSet templates) :
    Ends (do
      let added ← addSymbol { name, scope := c.scope, pos, decl := .template template }
      modifyProgram (·.addOverload existing added)
      return added) c s (fun t => s.program.Enlists t.program c.scope [template.source]) fun _ _ => True := by
  obtain ⟨hstart, hopens⟩ := start_declaring hc
  have hstep : BindState.Step _ s { s with program := s.program.addSymbol _ } :=
    .edit _ (.symbol { name, scope := c.scope, pos, decl := .template template }
      (addable_template hstart hc hopens ht hr hi) (by simp))
  have h₁ := hstep.arranged hs
  obtain ⟨hlt, hname, -⟩ := hs.charted.found hfound
  -- the symbol alone changes nothing, since no name leads to it
  have hold : ∀ other, (s.program.addSymbol { name, scope := c.scope, pos, decl := .template template }).sources
      c.scope other = s.program.sources c.scope other := fun other =>
    Program.sources_of_decls hs.sound.program rfl fun y hy => Program.decl_addSymbol_of_lt _ _ hy
  refine .run_bind rfl (.run_bind rfl (.pure (fun other => ?_) trivial))
  by_cases hother : other = name
  · subst hother
    refine ⟨_, List.Sublist.refl _, ?_⟩
    rw [← hold]
    refine Program.sources_addOverload h₁.sound.program h₁.overloaded hfound
      (Program.template?_eq_some.2 (Program.decl_addSymbol_next _ _)) ?_ ?_
    · rintro rfl
      exact Nat.lt_irrefl _ hlt
    · simpa only [Program.decl_addSymbol_of_lt _ _ hlt] using hx
  · refine ⟨[], List.nil_sublist _, ?_⟩
    rw [List.append_nil, ← hold]
    refine Program.sources_addOverload_of_ne h₁.sound.program h₁.charted h₁.overloaded ?_
    rw [Program.symbol_addSymbol_of_lt _ _ hlt, hname]
    exact Ne.symm hother

/-- **A template that is declared is put behind the others of its name**, or is not declared. -/
theorem declareTemplate_enlists (hs : s.Arranged) (hc : Ready k c s) (ht : template.scope.index < s.program.scopes.size)
    (hr : template.role.captures = false) (hi : template.instances = []) :
    Ends (declareTemplate name pos template) c s (fun t => s.program.Enlists t.program c.scope [template.source])
      fun _ _ => True := by
  have hsame : s.program.Enlists s.program c.scope [template.source] := .of_eq fun _ => rfl
  refine .read_bind (.ask_bind ?_)
  split
  · rename_i hnone
    rcases @declareBy_run s c Program.declare Scope.insert c.scope
      { name, scope := c.scope, pos, decl := .template template } rfl with ⟨-, hrun⟩ | ⟨log, hrun, -⟩
    · refine .of_run hrun (Program.enlists_declare hs.sound.program _ hc.scope hnone ?_) trivial
      have hd := Program.decl_addSymbol_next s.program { name, scope := c.scope, pos, decl := .template template }
      simp [Program.candidates_of_template hd, Program.sourcesOf, Program.template?_eq_some.2 hd]
    · exact ⟨by rw [declare, hrun]; exact hsame, fun _ _ => trivial⟩
  · rename_i existing hfound
    refine .ask_bind ?_
    split
    · rename_i own hd
      refine .ask_bind ?_
      split
      · exact .ask_bind (.bind (.of_run rfl hsame trivial) fun _ _ h (_ : True) => .failure h)
      · exact addTemplate_enlists hs hc ht hr hi hfound (.inl ⟨own, hd⟩)
    · rename_i templates hd
      refine .ask_bind ?_
      split
      · exact .ask_bind (.bind (.of_run rfl hsame trivial) fun _ _ h (_ : True) => .failure h)
      · exact addTemplate_enlists hs hc ht hr hi hfound (.inr ⟨templates, hd⟩)
    · exact .bind (.of_run rfl hsame trivial) fun _ _ h (_ : True) => .failure h

/-- What is read before a template is declared. -/
theorem functionName_leaves (source : FunctionDef) : Leaves (functionName source) c s := by
  unfold functionName
  split
  · exact .of_run rfl ⟨.quiet _ _ (Nat.le_refl _), rfl⟩ trivial
  · exact .of_run rfl ⟨.quiet _ _ (Nat.le_refl _), rfl⟩ trivial
  · exact .of_run rfl ⟨.quiet _ _ (Nat.le_refl _), rfl⟩ trivial

theorem arityOf_leaves (name : String) (params : List Param) (receiver : Bool) :
    Leaves (arityOf name params receiver) c s := by
  unfold arityOf
  split
  · exact .pure ⟨.quiet _ _ (Nat.le_refl _), rfl⟩ trivial
  · exact ⟨⟨.quiet _ _ (Nat.le_succ _), rfl⟩, fun _ _ => trivial⟩

/-- Such a rule changes nothing for those that follow. -/
theorem Leaves.bind_enlists {α β : Type} {rule : BindM α} {f : α → BindM β} {l : List TemplateSource}
    (h : Leaves rule c s) (hs : s.Arranged) (hc : Ready k c s)
    (hf : ∀ a t, t.Arranged → Ready k c t →
      Ends (f a) c t (fun u => t.program.Enlists u.program c.scope l) fun _ _ => True) :
    Ends (rule >>= f) c s (fun t => s.program.Enlists t.program c.scope l) fun _ _ => True := by
  refine .bind (h.and_reach.weaken fun t ht => .of_eq fun _ => by rw [ht.2]) fun a t _ ⟨⟨hstep, hp⟩, _⟩ => ?_
  have ht := hstep.arranged hs
  have hct : Ready k c t := by
    refine ⟨ht.sound, ?_, ?_, ?_, ?_⟩ <;> rw [hp]
    exacts [hc.le, hc.scope, hc.function, hc.label]
  have hrest := hf a t ht hct
  rwa [hp] at hrest

theorem declareFunction_enlists (hs : s.Arranged) (hc : Ready k c s) (source : FunctionDef) :
    Ends (declareFunction source) c s (fun t => s.program.Enlists t.program c.scope [.function source])
      fun _ _ => True := by
  refine .read_bind (.ask_bind ((functionName_leaves source).bind_enlists hs hc fun name t ht hct => ?_))
  refine .read_bind ((arityOf_leaves _ _ _).bind_enlists ht hct fun arity u hu hcu => ?_)
  refine declareTemplate_enlists hu hcu hcu.scope ?_ rfl
  dsimp only
  repeat' split
  all_goals rfl

theorem declareStruct_enlists (hs : s.Arranged) (hc : Ready k c s) (source : StructDef) :
    Ends (declareStruct source) c s (fun t => s.program.Enlists t.program c.scope [.struct source])
      fun _ _ => True := by
  have hrest : ∀ name t, t.Arranged → Ready k c t → Ends (do
      let arity ← arityOf name source.params false
      let modifiers ← inheritModifiers source.modifiers
      declareTemplate name source.pos
        { source := .struct source, arity, scope := c.scope, role := .plain, functionKind := .plain, modifiers,
          owner := none }) c t (fun u => t.program.Enlists u.program c.scope [.struct source]) fun _ _ => True :=
    fun name t ht hct => (arityOf_leaves _ _ _).bind_enlists ht hct fun arity u hu hcu =>
      .read_bind (declareTemplate_enlists hu hcu hcu.scope rfl rfl)
  have hfresh : Leaves (freshName "struct") c s := .of_run rfl ⟨.quiet _ _ (Nat.le_refl _), rfl⟩ trivial
  refine .read_bind ?_
  split
  · exact .pure_bind (hrest _ s hs hc)
  · exact hfresh.bind_enlists hs hc hrest

/-- A module is no template. -/
theorem declareModule_enlists (hs : s.Arranged) (hc : Ready k c s) (source : ModuleDef) :
    Ends (declareModule c.scope source) c s (fun t => s.program.Enlists t.program c.scope []) fun _ _ => True := by
  have hadd : s.program.Edit {} (s.program.addScope { kind := .module, parent := c.scope, owner := none }) :=
    .scope .module c.scope hc.scope
  have hold : ∀ name, (s.program.addScope { kind := .module, parent := c.scope, owner := none }).sources c.scope name =
      s.program.sources c.scope name := fun name =>
    Program.sources_of_decls hs.sound.program (by rw [Program.scope_addScope_of_lt _ _ hc.scope]) fun _ _ => rfl
  refine .run_bind rfl ?_
  generalize hx : ({ name := source.name, scope := c.scope, ownScope := _, pos := _, decl := _ } : Symbol) = x
  obtain ⟨hd, hsc⟩ : x.decl = .module { source } ∧ x.scope = c.scope := by rw [← hx]; exact ⟨rfl, rfl⟩
  rcases @declareBy_run { s with program := s.program.addScope { kind := .module, parent := c.scope, owner := none } }
    c Program.declare Scope.insert c.scope x rfl with ⟨hnone, hrun⟩ | ⟨log, hrun, -⟩
  · refine .run_bind hrun (.run_bind rfl (.pure (fun name => ?_) trivial))
    obtain ⟨new, hnew, hsources⟩ := Program.enlists_declare (hadd.sound hs.sound.program) x (l := [])
      (by rw [hsc]; exact Nat.lt_of_lt_of_le hc.scope (hadd.later hs.sound.program).scopes.size) (by rw [hsc]; exact hnone)
      (by rw [Program.candidates, Program.decl_addSymbol_next, hd]; rfl) name
    rw [hsc, hold] at hsources
    refine ⟨new, hnew, ?_⟩
    rw [← hsources]
    refine Program.sources_eq ?_ fun _ _ => ⟨rfl, fun _ _ => rfl⟩
    rw [Program.scope_modifyScope]
    split <;> rfl
  · exact .none_bind hrun (.of_eq hold)

end BindM

/-- The template that a statement declares. -/
def Syntax.template? (tree : Syntax) : Option TemplateSource :=
  match tree.form with
  | .function source => some (.function source)
  | .struct source => some (.struct source)
  | _ => none

namespace BindM

theorem declareStatement_enlists (hs : s.Arranged) (hc : Ready k c s) (tree : Syntax) :
    Ends (declareStatement tree) c s (fun t => s.program.Enlists t.program c.scope tree.template?.toList)
      fun _ _ => True := by
  obtain ⟨pos, form⟩ := tree
  cases form with
  | function source => exact .bind (declareFunction_enlists hs hc source).discard fun _ _ ht _ => .pure ht trivial
  | struct source => exact .bind (declareStruct_enlists hs hc source).discard fun _ _ ht _ => .pure ht trivial
  | module source => exact .read_bind (.bind (declareModule_enlists hs hc source) fun _ _ ht _ => .pure ht trivial)
  | _ => exact .pure (.of_eq fun _ => rfl) trivial

/-- **The first pass lists templates in the order of their statements.** Under each name of the scope, those that it
declares follow those that were there. -/
theorem declareStatements_enlists {room : Room} : ∀ {parts : List StatementPart} {s : BindState},
    s.Arranged → Ready k c s → Ends (declareStatements room parts) c s
      (fun t => s.program.Enlists t.program c.scope (parts.filterMap (·.tree.template?))) fun _ _ => True
  | [], _, _, _ => .pure (.of_eq fun _ => rfl) trivial
  | part :: rest, s, hs, hc => by
    have hin : Ready k { c with modifiers := c.modifiers ∪ part.modifiers } s := { hc with }
    obtain ⟨hstart, hopens⟩ := start_declaring hc
    have hparts : (part :: rest).filterMap (·.tree.template?) =
        part.tree.template?.toList ++ rest.filterMap (·.tree.template?) := by
      cases htree : part.tree.template? <;> simp [htree]
    have hfirst : Ends (attempt (withModifiers part.modifiers (declareStatement part.tree))) c s
        (fun t => s.program.Enlists t.program c.scope part.tree.template?.toList) fun _ t => t.Arranged ∧ Ready k c t := by
      have hdeclare : Ends (attempt (declareStatement part.tree)) _ s _ _ :=
        declareStatement_ends hstart hin hopens rfl fun _ => False.elim
      have hat := hdeclare.reach
      exact ⟨(declareStatement_enlists hs hin part.tree).reach, fun _ _ =>
        ⟨BindState.Steps.arranged hat.steps hs, hat.ready hc⟩⟩
    rw [hparts]
    refine .bind (hfirst.and_reach.weaken fun t ht => ht.mono (List.sublist_append_left _ _))
      fun declared t _ ⟨hlist, ht, hct⟩ => ?_
    exact .bind ((declareStatements_enlists ht hct).weaken fun u hu => hlist.trans hu) fun _ _ hu _ => .pure hu trivial

/-- A template of an arity that is taken is an error, and nothing is declared. -/
theorem declareTemplate_taken {x : SymbolId} (c : Context) (pos : Span) (hx : (s.program.scope c.scope).find? name = some x)
    (ht : ∃ t ∈ s.program.candidates x, s.program.arity? t = some template.arity) :
    ∃ clash, clash.isError ∧ (declareTemplate name pos template).runAt c s = (none, { s with log := s.log.add clash }) := by
  have hfound : (s.program.templateOfArity? x template.arity).isSome := by
    obtain ⟨t, hmem, harity⟩ := ht
    obtain ⟨own, hown, harity⟩ := Option.map_eq_some_iff.1 harity
    exact List.find?_isSome.2 ⟨t, hmem, by simp [hown, harity]⟩
  obtain ⟨clash, hclash⟩ := Option.isSome_iff_exists.1 hfound
  have hscope : currentScope.runAt c s = (some c.scope, s) := rfl
  rw [declareTemplate, runAt_bind_some hscope, runAt_bind_some (runAt_ask _), hx]
  dsimp only
  rw [runAt_bind_some (runAt_ask _)]
  obtain ⟨t, hmem, -⟩ := ht
  unfold Program.candidates at hmem
  split at hmem
  · rw [runAt_bind_some (runAt_ask _), hclash]
    exact ⟨_, rfl, rfl⟩
  · rw [runAt_bind_some (runAt_ask _), hclash]
    exact ⟨_, rfl, rfl⟩
  · cases hmem

/-- A template of another arity comes to stand behind those of a set. -/
theorem declareTemplate_joins {x : SymbolId} {templates : List SymbolId} (hs : s.Sound) (c : Context) (pos : Span)
    (hx : (s.program.scope c.scope).find? name = some x) (hd : s.program.decl x = .overloadSet templates)
    (ht : ∀ t ∈ templates, s.program.arity? t ≠ some template.arity) :
    ∃ added t, (declareTemplate name pos template).runAt c s = (some added, t) ∧
      t.program.decl x = .overloadSet (templates ++ [added]) ∧ t.program.template? added = some template := by
  have hnone : s.program.templateOfArity? x template.arity = none := by
    rw [Program.templateOfArity?, Program.candidates_of_set hd, List.find?_eq_none]
    intro t hmem
    have := ht t hmem
    cases htemplate : s.program.template? t <;> simp_all [Program.arity?]
  have hlt := (hs.program.names _ _ _ hx).1
  have hscope : currentScope.runAt c s = (some c.scope, s) := rfl
  rw [declareTemplate, runAt_bind_some hscope, runAt_bind_some (runAt_ask _), hx]
  dsimp only
  rw [runAt_bind_some (runAt_ask _), hd]
  dsimp only
  rw [runAt_bind_some (runAt_ask _), hnone]
  refine ⟨_, _, rfl, Program.decl_addOverload_set _ _ ?_, Program.template?_eq_some.2 ?_⟩
  · exact (Program.decl_addSymbol_of_lt _ _ hlt).trans hd
  · refine (Program.decl_addOverload_of_ne _ _ ?_ ?_).trans (Program.decl_addSymbol_next _ _)
    · rintro rfl
      exact Nat.lt_irrefl _ hlt
    · rw [Program.size_symbols_addSymbol]
      exact Nat.lt_succ_self _

end BindM

/-! ## Choosing a template -/

/-- Whether a template takes a call with a number of arguments. A value that is written before the callee is one more for
what has no receiver. -/
def TemplateDecl.Takes (own : TemplateDecl) (count : Nat) (bound : Bool) : Prop :=
  own.arity.accepts (if bound ∧ ¬own.arity.receiver then count + 1 else count)

theorem Program.acceptsCall_iff {p : Program} {t : SymbolId} {own : TemplateDecl} (ht : p.template? t = some own)
    (count : Nat) (bound : Bool) : p.acceptsCall t count bound ↔ own.Takes count bound := by
  simp only [acceptsCall, ht, TemplateDecl.Takes]
  cases bound <;> cases own.arity.receiver <;> simp

namespace BindM

variable {s : BindState} {x : SymbolId}

/-- **A call takes the first template that takes its arguments**; one that none takes is an error. -/
theorem selectTemplate_cases (c : Context) (hx : ∀ t ∈ s.program.candidates x, (s.program.template? t).isSome) (count : Nat)
    (bound : Bool) (pos : Span) :
    (∃ before t after own, s.program.candidates x = before ++ t :: after ∧ s.program.template? t = some own ∧
      own.Takes count bound ∧ (∀ u ∈ before, ∀ own, s.program.template? u = some own → ¬own.Takes count bound) ∧
      (selectTemplate x count bound pos).runAt c s = (some t, s)) ∨
    ((∀ u ∈ s.program.candidates x, ∀ own, s.program.template? u = some own → ¬own.Takes count bound) ∧
      ∃ fault, fault.isError ∧ (selectTemplate x count bound pos).runAt c s = (none, { s with log := s.log.add fault })) := by
  rw [selectTemplate, runAt_bind_some (runAt_ask _)]
  cases hfound : s.program.selectTemplate? x count bound with
  | some t =>
    obtain ⟨ht, before, after, hlist, hbefore⟩ := List.find?_eq_some_iff_append.1 hfound
    obtain ⟨own, hown⟩ := Option.isSome_iff_exists.1 (hx t (by simp [hlist]))
    refine .inl ⟨before, t, after, own, hlist, hown, (Program.acceptsCall_iff hown _ _).1 ht, fun u hu own' hown' htake => ?_, rfl⟩
    have := hbefore u hu
    rw [(Program.acceptsCall_iff hown' _ _).2 htake] at this
    cases this
  | none =>
    refine .inr ⟨fun u hu own hown htake => ?_, _, rfl, rfl⟩
    exact List.find?_eq_none.1 hfound u hu ((Program.acceptsCall_iff hown _ _).2 htake)

end BindM

namespace BindState

open BindM

/-- **Overload sets are in order.** A pass over the statements of a scope puts the templates that it declares behind those
that are there, in the order of the statements, with those in modifier blocks; and under every name the templates stay in
their order. In every state that binding comes to, an overload set lists two or more templates of its name and scope, no
two of one arity, and a template is in one set at most. A template of an arity that is taken is one error and changes
nothing; one of another arity comes to stand behind the others. A call takes the first template that takes its arguments,
and is one error when there is none. -/
theorem overloads_ordered (options : BindOptions) (names : NameTable) :
    (∀ batches, Reached options names (bindAll options names batches)) ∧
    ∀ s, Reached options names s →
      (∀ k c room body, Ready k c s → s.program.Enlists
        ((declareStatements room (statementParts room .none body)).runAt c s).2.program c.scope
        ((flatten .none body).filterMap (·.2.template?))) ∧
      (∀ t, Steps { coherent := True } s t → ∀ sc name, s.program.sources sc name <+: t.program.sources sc name) ∧
      ∀ x templates, s.program.decl x = .overloadSet templates →
        (templates.Nodup ∧ s.program.Listing x templates) ∧
        s.program.sources (s.program.symbol x).scope (s.program.symbol x).name = s.program.sourcesOf templates ∧
        (∀ y others, s.program.decl y = .overloadSet others → ∀ t ∈ templates, t ∈ others → x = y) ∧
        (∀ c name pos template, (s.program.scope c.scope).find? name = some x →
          ((∃ t ∈ templates, s.program.arity? t = some template.arity) → ∃ clash, clash.isError ∧
            (declareTemplate name pos template).runAt c s = (none, { s with log := s.log.add clash })) ∧
          ((∀ t ∈ templates, s.program.arity? t ≠ some template.arity) → ∃ added t,
            (declareTemplate name pos template).runAt c s = (some added, t) ∧
            t.program.decl x = .overloadSet (templates ++ [added]) ∧ t.program.template? added = some template)) ∧
        ∀ c count bound pos,
          (∃ before t after own, templates = before ++ t :: after ∧ s.program.template? t = some own ∧
            own.Takes count bound ∧ (∀ u ∈ before, ∀ own, s.program.template? u = some own → ¬own.Takes count bound) ∧
            (selectTemplate x count bound pos).runAt c s = (some t, s)) ∨
          ((∀ u ∈ templates, ∀ own, s.program.template? u = some own → ¬own.Takes count bound) ∧
            ∃ fault, fault.isError ∧
              (selectTemplate x count bound pos).runAt c s = (none, { s with log := s.log.add fault })) := by
  refine ⟨fun batches => (bindAll_reached options names batches).1, fun s hs => ?_⟩
  have hsets := hs.arranged
  refine ⟨fun k c room body hc => ?_, fun t ht sc name => ht.sources_prefix hsets sc name, fun x templates hx => ?_⟩
  · have hpass : Ends (declareStatements room (statementParts room .none body)) c s _ _ :=
      declareStatements_enlists hsets hc
    have hreach := hpass.reach
    rwa [statementParts_eq, List.filterMap_map, ← statementParts_eq] at hreach
  have hlist := hsets.overloaded x templates hx
  have hcandidates := Program.candidates_of_set hx
  refine ⟨⟨hlist.nodup, hlist⟩, ?_, fun y others hy t ht ht' => ?_,
    fun c name pos template hname => ⟨fun ht => ?_, fun ht => ?_⟩, fun c count bound pos => ?_⟩
  · rw [Program.sources, hlist.named]
    dsimp only
    rw [hcandidates]
  · exact hlist.unique (hsets.overloaded y others hy) ht ht'
  · exact declareTemplate_taken c pos hname (by rwa [hcandidates])
  · exact declareTemplate_joins hsets.sound c pos hname hx ht
  · have hcases := selectTemplate_cases c (x := x) (by rw [hcandidates]; exact hlist.template) count bound pos
    rwa [hcandidates] at hcases

open Sample

set_option maxRecDepth 10000

/-- Three functions of a name, one of them in a modifier block, and one whose arity is taken. -/
def threeArities : Sample fun s => s.log.errorCount = 1 ∧ s.program.candidates ⟨19⟩ = [⟨21⟩, ⟨20⟩, ⟨22⟩] ∧
    s.program.arity? ⟨21⟩ = some { required := 1 } ∧ s.program.arity? ⟨20⟩ = some { required := 2 } ∧
    s.program.arity? ⟨22⟩ = some { required := 0 } ∧ (s.program.scope ⟨2⟩).find? "f" = some ⟨19⟩ ∧
    2 < s.program.scopes.size where
  body :=
    [function "f" [param "a" none none] [],
      node (.modified { isExport := true }
        [function "f" [param "a" none none, param "b" none none] [], function "f" [param "c" none none] []]),
      function "f" [] []]
  shown := by decide +kernel

/-- The set lists the three in the order of their statements. A call with two arguments takes the second one, a call with
three is an error, and another function with two parameters is one as well. A pass over more statements puts what they
declare behind. -/
theorem threeArities_ordered :
    let s := threeArities.state
    s.program.Listing ⟨19⟩ [⟨21⟩, ⟨20⟩, ⟨22⟩] ∧
      (∀ c pos, (selectTemplate ⟨19⟩ 2 false pos).runAt c s = (some ⟨20⟩, s)) ∧
      (∀ c pos, ∃ fault, fault.isError ∧
        (selectTemplate ⟨19⟩ 3 false pos).runAt c s = (none, { s with log := s.log.add fault })) ∧
      (∀ pos template, template.arity = { required := 2 } → ∃ clash, clash.isError ∧
        (declareTemplate "f" pos template).runAt ⟨⟨2⟩, .none, none, none⟩ s = (none, { s with log := s.log.add clash })) ∧
      ∀ room body, s.program.Enlists
        ((declareStatements room (statementParts room .none body)).runAt ⟨⟨2⟩, .none, none, none⟩ s).2.program ⟨2⟩
        ((flatten .none body).filterMap (·.2.template?)) := by
  obtain ⟨-, hcandidates, h1, h2, h0, hname, hscope⟩ := threeArities.holds
  obtain ⟨batches, hbound⟩ := threeArities.eq_bindAll
  obtain ⟨hreached, hall⟩ := overloads_ordered {} {}
  have hs := hreached batches
  rw [← hbound] at hs
  generalize threeArities.state = s at *
  have hset : s.program.decl ⟨19⟩ = .overloadSet [⟨21⟩, ⟨20⟩, ⟨22⟩] := by
    unfold Program.candidates at hcandidates
    split at hcandidates
    · cases hcandidates
    · rename_i hd
      rw [hd, hcandidates]
    · cases hcandidates
  have htakes : ∀ {t arity own}, s.program.arity? t = some arity → s.program.template? t = some own → ∀ count,
      (own.Takes count false ↔ arity.accepts count) := fun ha ht count => by
    rw [Program.arity?, ht] at ha
    cases ha
    simp [TemplateDecl.Takes]
  have hlisted : ∀ {before t after}, [⟨21⟩, ⟨20⟩, ⟨22⟩] = before ++ t :: after →
      t = (⟨21⟩ : SymbolId) ∨ t = ⟨20⟩ ∨ t = ⟨22⟩ := fun {before t after} h => by
    have hmem : t ∈ before ++ t :: after := by simp
    simpa [← h] using hmem
  obtain ⟨hpass, -, hsets⟩ := hall s hs
  obtain ⟨⟨-, hlist⟩, -, -, hdeclare, hselect⟩ := hsets _ _ hset
  refine ⟨hlist, fun c pos => ?_, fun c pos => ?_, fun pos template ha => ?_, fun room body => ?_⟩
  · rcases hselect c 2 false pos with ⟨before, t, after, own, hts, hown, htake, -, hrun⟩ | ⟨hnone, -⟩
    · rcases hlisted hts with rfl | rfl | rfl
      · exact absurd ((htakes h1 hown 2).1 htake) (by decide)
      · exact hrun
      · exact absurd ((htakes h0 hown 2).1 htake) (by decide)
    · obtain ⟨own, hown⟩ := Option.isSome_iff_exists.1 (hlist.template ⟨20⟩ (by simp))
      exact absurd ((htakes h2 hown 2).2 (by decide)) (hnone ⟨20⟩ (by simp) own hown)
  · rcases hselect c 3 false pos with ⟨before, t, after, own, hts, hown, htake, -, -⟩ | ⟨-, hfault⟩
    · rcases hlisted hts with rfl | rfl | rfl
      · exact absurd ((htakes h1 hown 3).1 htake) (by decide)
      · exact absurd ((htakes h2 hown 3).1 htake) (by decide)
      · exact absurd ((htakes h0 hown 3).1 htake) (by decide)
    · exact hfault
  · exact (hdeclare ⟨⟨2⟩, .none, none, none⟩ "f" pos template hname).1 ⟨⟨20⟩, by simp, by rw [h2, ha]⟩
  · exact hpass 0 ⟨⟨2⟩, .none, none, none⟩ room body
      ⟨hs.sound, Nat.zero_le _, hscope, by rintro _ ⟨⟩, by rintro _ ⟨⟩⟩

end BindState

end Bindery
