import Bindery.Proofs.Binding
/-!
# Modules are bound once

A module is declared by the first pass over the statements around it, and bound by the last one, or before that when
something refers to it. Each time a module is bound it gets an entry: a function without a scope of its own that stands in
the scope of the module. So the entries that stand in a scope tell how often its module was bound, and at the end there is
exactly one, wherever the module stands and whatever refers to it. The members of a struct are an exception. No pass
binds their statements, so that a module among them is left as it was declared until something refers to it.
-/
namespace Bindery

namespace Program

variable {p : Program}

/-- A function that is the entry of a module with a given scope: it stands in the scope, and has none of its own. -/
def EntryIn (p : Program) (sc : ScopeId) (e : SymbolId) : Prop :=
  (p.function? e).isSome ∧ (p.symbol e).ownScope = none ∧ (p.symbol e).scope = sc

theorem initial_seated (w : Nat) : (initial w).Seated := by
  intro e own he
  obtain ⟨own', hd⟩ := decl_initial w e
  rw [function?_eq_some, hd] at he
  cases he

/-- **What stands in the scope of a module as an entry is the entry of the module.** -/
theorem Seated.entryIn_iff (h : p.Seated) (hp : p.Sound) (hr : p.Reserved) {m : SymbolId} {own : ModuleDecl} {sc : ScopeId}
    (hm : p.module? m = some own) (hsc : (p.symbol m).ownScope = some sc) (e : SymbolId) :
    p.EntryIn sc e ↔ own.entry = some e := by
  constructor
  · rintro ⟨hf, hown, rfl⟩
    obtain ⟨function, hf⟩ := Option.isSome_iff_exists.1 hf
    obtain ⟨m', own', hm', he, hsc'⟩ := h e function hf hown
    -- no two modules have the same scope
    obtain rfl := hr.own m m' _ hsc hsc'
    rw [hm] at hm'
    cases hm'
    exact he
  · intro he
    obtain ⟨-, hown, hs⟩ := hp.opening hm he
    rw [hsc] at hs
    exact ⟨(hp.module hm).2.2 e he, hown, (Option.some.inj hs).symm⟩

end Program

namespace BindState

/-- Nothing happens to a module that has been begun. -/
theorem bindModule_of_begun {s : BindState} {m : SymbolId} {own : ModuleDecl} (hm : s.program.module? m = some own)
    (hi : own.status ≠ .idle) (room : Room) (c : Context) : (BindM.bindModule room m).runAt c s = (some (), s) := by
  rw [BindM.bindModule, BindM.runAt_bind_some (BindM.runAt_ask _), BindM.runAt_bind_some (BindM.runAt_ask _), hm]
  cases (s.program.symbol m).ownScope with
  | none => rfl
  | some sc =>
    show BindM.runAt (if own.status = .idle then _ else _) c s = _
    rw [if_neg hi]
    rfl

/-- **Every module is bound once.** After any lists of modules were bound, a module of the program is done, its entry is
the only one that stands in its scope, and binding it again changes nothing. Otherwise it is a member of a struct that was
never begun: it has no entry, and none stands in its scope. -/
theorem bindAll_boundOnce (options : BindOptions) (names : NameTable) (batches : List (List ModuleDef)) (m : SymbolId)
    (own : ModuleDecl) (hm : (bindAll options names batches).program.module? m = some own) :
    let s := bindAll options names batches
    ∃ sc, (s.program.symbol m).ownScope = some sc ∧
      ((own.status = .done ∧ (∃ e, own.entry = some e ∧ ∀ e', s.program.EntryIn sc e' ↔ e' = e) ∧
          ∀ room c, (BindM.bindModule room m).runAt c s = (some (), s)) ∨
        (own.status = .idle ∧ own.entry = none ∧ (∀ e, ¬ s.program.EntryIn sc e) ∧
          (s.program.scope (s.program.symbol m).scope).kind = .struct)) := by
  intro s
  have hreached := (bindAll_reached options names batches).1
  have hsettled := bindAll_settles options names batches
  have hp : s.program.Sound := hreached.sound.program
  obtain ⟨sc, hsc⟩ := Option.isSome_iff_exists.1 (hp.moduleScope hm)
  have hentry := (hsettled.seated (Program.initial_seated _)).entryIn_iff hp hreached.coherent.reserved hm hsc
  refine ⟨sc, hsc, ?_⟩
  rcases hsettled.modules m own hm with hdone | hpending | ⟨own', hm', -⟩ | ⟨hidle, hk⟩
  · left
    cases he : own.entry with
    | none =>
      rw [(hp.module hm).1.2 he] at hdone
      cases hdone
    | some e =>
      refine ⟨hdone, ⟨e, rfl, fun e' => (hentry e').trans ?_⟩, bindModule_of_begun hm (by rw [hdone]; rintro ⟨⟩)⟩
      rw [he, Option.some.injEq]
      exact eq_comm
  · exact hpending.elim
  · -- there are no modules at the start
    obtain ⟨b, hd⟩ := Program.decl_initial options.pointerWidth m
    rw [Program.module?_eq_some, show (initial options names).program.decl m = _ from hd] at hm'
    cases hm'
  · have hnone : own.entry = none := (hp.module hm).1.1 hidle
    refine .inr ⟨hidle, hnone, fun e he => ?_, hk⟩
    rw [hentry, hnone] at he
    cases he

/-- A struct with a module among its members, and a variable of the struct. -/
def memberModule : Sample fun s => s.log.errorCount = 0 ∧
    (s.program.module? ⟨17⟩).map (·.status) = some .done ∧ (s.program.module? ⟨21⟩).map (·.status) = some .idle ∧
    (s.program.module? ⟨21⟩).bind (·.entry) = none where
  body := [Sample.struct "S" [Sample.node (.module ⟨.synthetic, "n", []⟩)], Sample.field "v" (Sample.name "S")]
  shown := by decide +kernel

/-- The module around the struct is bound once. -/
theorem memberModule_boundOnce :
    let s := memberModule.state
    ∃ own sc e, s.program.module? ⟨17⟩ = some own ∧ (s.program.symbol ⟨17⟩).ownScope = some sc ∧ own.status = .done ∧
      own.entry = some e ∧ ∀ e', s.program.EntryIn sc e' ↔ e' = e := by
  intro s
  obtain ⟨-, hdone, -⟩ := memberModule.holds
  obtain ⟨own, hm, hdone⟩ := Option.map_eq_some_iff.1 hdone
  obtain ⟨sc, hsc, ⟨-, ⟨e, he, hunique⟩, -⟩ | ⟨hidle, -⟩⟩ := bindAll_boundOnce _ _ _ _ own hm
  · exact ⟨own, sc, e, hm, hsc, hdone, he, hunique⟩
  · rw [hdone] at hidle
    cases hidle

/-- No error is reported, and a module was not bound. -/
theorem memberModule_unbound :
    let s := memberModule.state
    s.log.errorCount = 0 ∧ ∃ m own, s.program.module? m = some own ∧ own.status = .idle ∧ own.entry = none := by
  obtain ⟨h0, -, hidle, hnone⟩ := memberModule.holds
  obtain ⟨own, hm, hidle⟩ := Option.map_eq_some_iff.1 hidle
  rw [hm] at hnone
  exact ⟨h0, ⟨21⟩, own, hm, hidle, hnone⟩

end BindState

end Bindery
