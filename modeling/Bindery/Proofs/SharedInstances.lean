import Bindery.Proofs.Binding
/-!
# Calls that share an instance

A call is given the instance of its fingerprint. A new instance takes the arguments of the call that made it: one for
each of its parameters, of the type of the parameter. An instance that is found again was made for the same
fingerprint, which says of every parameter that it takes a value, but says the type only where the parameter does not
declare one. A declared type is bound at every call, in the scope of the template, and may come to mean another type
there; calls that share an instance need not agree on it.
-/
namespace Bindery

open Sample

set_option maxRecDepth 10000

theorem related_of_forall₂ {α β : Type} {R : α → β → Prop} {xs : List α} {ys : List β} (h : List.Forall₂ R xs ys)
    {i : Nat} {y : β} (hy : ys[i]? = some y) : ∃ x, xs[i]? = some x ∧ R x y := by
  obtain ⟨hj, rfl⟩ := List.getElem?_eq_some_iff.1 hy
  have hi : i < xs.length := by rwa [h.length_eq]
  exact ⟨xs[i], List.getElem?_eq_getElem hi, h.get hi hj⟩

/-- What the fingerprint says of the arguments that are passed is so, and each has the type of its parameter. -/
theorem BoundParams.passed {k : Nat} {g : Context} {t : BindState} {params : List BoundParam}
    (h : ∀ b ∈ params, b.Ok k g t) (scope : ScopeId) :
    let bound : BoundParams := ⟨scope, params⟩
    List.Forall₂ (fun known node => ∀ ty, known = some ty → (t.program.node node).ty = ty)
      (bound.fingerprint.filterMap (·.passed?)) bound.args ∧
    List.Forall₂ (fun (param : ValueParam) node => (t.program.node node).ty = param.ty) bound.values bound.args := by
  simp only [BoundParams.fingerprint, BoundParams.args, BoundParams.values, List.filterMap_map]
  induction params with
  | nil => exact ⟨.nil, .nil⟩
  | cons b rest ih =>
    obtain ⟨hf, hv⟩ := ih fun b hb => h b (by simp [hb])
    have hb := h b (by simp)
    cases hval : b.value with
    | none =>
      rw [List.filterMap_cons_none (by simpa using hb.none hval), List.filterMap_cons_none (by rw [hval]; rfl),
        List.filterMap_cons_none (by rw [hval]; rfl)]
      exact ⟨hf, hv⟩
    | some passed =>
      obtain ⟨param, node⟩ := passed
      obtain ⟨-, hty, known, hk, hknown⟩ := hb.value param node hval
      rw [List.filterMap_cons_some (b := known) (by simpa using hk),
        List.filterMap_cons_some (b := node) (by rw [hval]; rfl), List.filterMap_cons_some (b := param) (by rw [hval]; rfl)]
      exact ⟨.cons (fun ty h => hty.trans (hknown ty h)) hf, .cons hty hv⟩

namespace BindM

/-- **An instance takes what is passed to it**: as many arguments as it has parameters, each of the type of its
parameter, unless the instance was found and the parameter declares its type. -/
theorem instantiateFunction_types {k : Nat} {c : Context} {s : BindState} {limit left : Nat} {entryName : String}
    {template made : SymbolId} {args : List CallArg} {pos : Span} {values : List NodeId} (hc : Ready k c s)
    (ha : ∀ arg ∈ args, arg.value.Ok k c s)
    (hrun : ((instantiateFunction (.ofDepth limit entryName left) template args pos).runAt c s).1 = some (made, values))
    (h0 : ((instantiateFunction (.ofDepth limit entryName left) template args pos).runAt c s).2.log.errorCount = 0) :
    let t := ((instantiateFunction (.ofDepth limit entryName left) template args pos).runAt c s).2
    ∃ bound u, (bindParams (.ofDepth limit entryName left) template args pos .function).runAt c s = (some bound, u) ∧
      values = bound.args ∧ ∀ own, t.program.function? made = some own → values.length = own.valueParams.length ∧
        ∀ (i : Nat) value param, values[i]? = some value → own.valueParams[i]? = some param →
          u.program.knownInstance? template bound.fingerprint = none ∨
            (bound.fingerprint.filterMap (·.passed?))[i]? ≠ some none →
          (t.program.decl param).valueType? = some (t.program.node value).ty := by
  intro t
  have hr := Room.ofDepth_good limit entryName left
  obtain ⟨bound, u, hbound, hrest⟩ := runAt_bind_eq_some (Prod.ext hrun rfl : _ = (some (made, values), t))
  obtain ⟨made', v, hmade, hpure⟩ := runAt_bind_eq_some hrest
  obtain ⟨rfl, rfl⟩ : made' = made ∧ bound.args = values := by simpa using congrArg Prod.fst hpure
  obtain rfl : v = t := congrArg Prod.snd hpure
  have hparams : Ends (bindParams (.ofDepth limit entryName left) template args pos .function) c s _ _ :=
    bindParams_ends hr hc (.inl rfl) ha
  have hu := hparams.reach
  obtain ⟨own, -, hb⟩ := hparams.post bound (by rw [hbound])
  rw [hbound] at hu hb
  have hinst : Ends (functionInstance (.ofDepth limit entryName left) template bound) c u _ _ :=
    functionInstance_ends hr (hu.ready hc) hb.fresh hb.kind hb.new hu.later.scopes.size hb.params
  have ht := hinst.reach
  obtain ⟨hmem, htakes⟩ := hinst.post made' (by rw [hmade])
  rw [hmade] at ht hmem htakes
  have hok : ∀ b ∈ bound.params, b.Ok k c t := fun b hm => (hb.params b hm).keep (hu.ready hc) ht rfl hc.scope
  obtain ⟨hknown, hvalues⟩ := BoundParams.passed hok bound.scope
  refine ⟨bound, u, hbound, rfl, fun own hown => ?_⟩
  have hmatch := (ht.sound.memo _ hmem).function own hown h0
  refine ⟨hknown.length_eq.symm.trans hmatch.length_eq, fun i value param hv hp hcond => ?_⟩
  rcases hcond with hmiss | hsaid
  · obtain ⟨given, hg, hty⟩ := related_of_forall₂ hvalues hv
    obtain ⟨given', hg', hty'⟩ := related_of_forall₂ (htakes hmiss own hown h0) hp
    rw [hg] at hg'
    cases hg'
    rw [hty', hty]
  · obtain ⟨known, hk, hty⟩ := related_of_forall₂ hknown hv
    obtain ⟨known', hk', ty, hdecl, hty'⟩ := related_of_forall₂ hmatch hp
    obtain rfl : known = known' := Option.some.inj (hk.symm.trans hk')
    cases known with
    | none => exact absurd hk hsaid
    | some said => rw [hdecl, hty said rfl, hty' said rfl]

/-- A function that is called with a truth value, and then with the same once more. -/
def calledAgain : Sample fun s => 0 < s.program.nodes.size ∧
    (s.program.node ⟨0⟩).kind = .literal (.bool true) false ∧
    let r := (instantiateFunction (.ofDepth 8 "main" 8) ⟨19⟩ [⟨.synthetic, none, .value ⟨0⟩⟩] .synthetic).runAt
      BindState.rootContext s
    r.1 = some (⟨20⟩, [⟨0⟩]) ∧ r.2.log.errorCount = 0 where
  body := [function "f" [param "x" none none] [], call (name "f") [node (.bool true)]]
  shown := by decide +kernel

/-- A second call is given the instance of the first, which takes its argument. -/
theorem calledAgain_types :
    let r := (instantiateFunction (.ofDepth 8 "main" 8) ⟨19⟩ [⟨.synthetic, none, .value ⟨0⟩⟩] .synthetic).runAt
      BindState.rootContext calledAgain.state
    r.1 = some (⟨20⟩, [⟨0⟩]) ∧ r.2.log.errorCount = 0 ∧
      ∀ own, r.2.program.function? ⟨20⟩ = some own → own.valueParams.length = 1 := by
  obtain ⟨hnode, hkind, hrun, h0⟩ := calledAgain.holds
  have hs := calledAgain.sound
  have hc : Ready 0 BindState.rootContext calledAgain.state :=
    ⟨hs, Nat.zero_le _, hs.program.scopes, by rintro _ ⟨⟩, by rintro _ ⟨⟩⟩
  have hheld : Held 0 BindState.rootContext calledAgain.state ⟨0⟩ := by
    refine ⟨hnode, fun _ => Nat.zero_le _, fun x hx => ?_, fun ty hr => ?_⟩
    · rw [Program.names_iff, hkind] at hx
      simp [NodeKind.children] at hx
    · rw [Program.returns_iff, hkind] at hr
      simp [NodeKind.statements] at hr
  obtain ⟨bound, u, -, -, htypes⟩ := instantiateFunction_types hc (by simpa [ArgValue.Ok] using hheld) hrun h0
  exact ⟨hrun, h0, fun own ho => (htypes own ho).1.symm⟩

/-- A function whose parameter declares an array of a length that is declared again between two calls. -/
def redeclaredLength : Sample fun s => s.log.errorCount = 0 ∧ (s.program.node ⟨15⟩).kind = .call ⟨22⟩ [⟨14⟩] ∧
    (s.program.function? ⟨22⟩).map (·.valueParams) = some [⟨23⟩] ∧
    (s.program.decl ⟨23⟩).valueType? ≠ some (s.program.node ⟨14⟩).ty where
  body :=
    [node (.define "n" none (some (node (.int 1 none))) { isConst := true }),
      node (.block none
        [function "f" [param "x" (some (node (.pointerType (node (.arrayType (name "Int8") (name "n")))))) none] [],
          call (name "f") [node .null],
          node (.define "n" none (some (node (.int 2 none))) { isConst := true }),
          call (name "f") [node .null]])]
  shown := by decide +kernel

/-- A call is given an instance whose parameter has another type than the argument. -/
theorem redeclaredLength_shared :
    let s := redeclaredLength.state
    s.log.errorCount = 0 ∧ ∃ n f value own param, (s.program.node n).kind = .call f [value] ∧
      s.program.function? f = some own ∧ own.valueParams = [param] ∧
      (s.program.decl param).valueType? ≠ some (s.program.node value).ty := by
  obtain ⟨h0, hk, hf, ht⟩ := redeclaredLength.holds
  obtain ⟨own, hf, hp⟩ := Option.map_eq_some_iff.1 hf
  exact ⟨h0, _, _, _, own, _, hk, hf, hp, ht⟩

end BindM

end Bindery
