import Bindery.Proofs.Binding
/-!
# Conversions in bound programs

Whatever has been bound, a plan of conversion is empty just when there is nothing to convert; otherwise it leads to the
type asked for by primitive conversions, each legal for the type that the ones before it lead to. A value that was
converted has the type asked for.
-/
namespace Bindery

namespace BindM

variable {c : Context}

theorem applySteps_landing {pos : Span} : ∀ {steps : List CastStep} {constant : Bool} {s : BindState} {n : NodeId},
    Ends (applySteps pos steps constant n) c s (fun _ => True) fun m t =>
      (t.program.node m).ty = Program.landing (s.program.node n).ty steps
  | [], _, _, _ => .pure trivial rfl
  | step :: rest, constant, s, n => by
    refine .run_bind rfl (.ite (fun _ => .run_bind rfl ?_) fun _ => ?_)
    · refine .mono applySteps_landing fun m t _ ht => ?_
      rw [ht, Program.node_addNode_next, Program.landing_cons]
    · refine .mono applySteps_landing fun m t _ ht => ?_
      rw [ht, Program.node_addNode_next, Program.landing_cons]

/-- A value that was converted has the type asked for. -/
theorem convert_landing {s : BindState} (hs : s.program.Standard) (n : NodeId) (target : Ty) (intent : Intent) :
    Ends (convert n target intent) c s (fun _ => True) fun m t => (t.program.node m).ty = target := by
  refine .ask_bind (.ask_bind (.ite (fun _ => .failure trivial) fun _ => .ask_bind ?_))
  split
  · rename_i steps hplan
    exact .ask_bind (.mono applySteps_landing fun m t _ ht => ht.trans (hs.castPlan _ _ steps hplan).2)
  · exact .ask_bind (.ask_bind (.run_bind rfl (.failure trivial)))

end BindM

namespace BindState

theorem pointerWidth_bindAll (options : BindOptions) (names : NameTable) (batches : List (List ModuleDef)) :
    (bindAll options names batches).program.pointerWidth = options.pointerWidth :=
  (bindAll_keeps options names batches).2.width

/-- **Plans of conversion are sound**, and a conversion gives a value of the type asked for. -/
theorem castPlan_bindAll (options : BindOptions) (names : NameTable) (batches : List (List ModuleDef))
    (hw : options.pointerWidth = 32 ∨ options.pointerWidth = 64) :
    let s := bindAll options names batches
    (∀ intent src dst steps, s.program.castPlan intent src dst = .ok steps →
      (steps = [] ↔ src = dst) ∧ (steps ≠ [] → steps.getLast?.map (·.target) = some dst) ∧
        Program.Threads (CastStep.Legal s.program) src steps) ∧
    ∀ c n dst intent m t, (BindM.convert n dst intent).runAt c s = (some m, t) → (t.program.node m).ty = dst := by
  intro s
  have hs : s.program.Standard := (bindAll_sound options names batches).standard
  have hp : s.program.HasPointerInt := by
    rw [Program.HasPointerInt, pointerWidth_bindAll]
    exact hw
  refine ⟨fun intent src dst steps hplan => ?_, fun c n dst intent m t hrun => ?_⟩
  · obtain ⟨hth, hland⟩ := hs.castPlan src dst steps hplan
    refine ⟨⟨?_, ?_⟩, fun hne => ?_, hth.imp fun _ _ h => h.2 hp⟩
    · rintro rfl
      exact hland
    · rintro rfl
      rw [Program.castPlan_self] at hplan
      cases hplan
      rfl
    · rw [Program.landing] at hland
      cases hlast : steps.getLast? with
      | none => exact absurd (List.getLast?_eq_none_iff.1 hlast) hne
      | some step =>
        rw [hlast] at hland
        exact congrArg some hland
  · have hends := BindM.convert_landing (c := c) hs n dst intent
    have hpost := hends.post m (by rw [hrun])
    rwa [hrun] at hpost

/-- The way from a reference to a pointer of 32 bits to an integer of 64 bits. -/
def pointerPlan : { steps : List CastStep // (bindAll { pointerWidth := 32 } {} []).program.castPlan .explicit
    (.reference (.pointer .int32)) (.int 64 false) = .ok steps } :=
  ⟨[⟨.dereference, .pointer .int32⟩, ⟨.bitCast, .int 32 false⟩, ⟨.widen, .int 64 false⟩], by decide +kernel⟩

/-- A reference to a pointer of 32 bits becomes an integer of 64 bits in three steps. -/
theorem castPlan_bindAll_pointer :
    let p := (bindAll { pointerWidth := 32 } {} []).program
    ((32 : Nat) = 32 ∨ (32 : Nat) = 64) ∧ ∃ a b d,
      p.castPlan .explicit (.reference (.pointer .int32)) (.int 64 false) = .ok [a, b, d] ∧ d.target = .int 64 false ∧
        Program.Threads (CastStep.Legal p) (.reference (.pointer .int32)) [a, b, d] := by
  intro p
  have hsound := (castPlan_bindAll { pointerWidth := 32 } {} [] (.inl rfl)).1 _ _ _ _ pointerPlan.2
  exact ⟨.inl rfl, _, _, _, pointerPlan.2, Option.some.inj (hsound.2.1 (by simp [pointerPlan])), hsound.2.2⟩

end BindState

end Bindery
