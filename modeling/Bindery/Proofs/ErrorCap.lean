import Bindery.Compilation
import Bindery.Proofs.Unfolding
/-!
# The cap on errors

Options that differ in the cap on errors only bind the same program, count the same errors and give the same summaries.
The cap decides which diagnostics are kept, and nothing else: the errors after the last one that fits are left out of
what would be kept without it.
-/
namespace Bindery

/-- Binding modules does the same from states that are alike. -/
theorem BindM.bindModules_blind (limit : Nat) (entryName : String) (left : Nat) (modules : List ModuleDef) :
    Blind (bindModules (.ofDepth limit entryName left) modules) :=
  (bindModules_follows (Rules.room_follows limit entryName left) modules).blind

namespace Options

/-- The options with another cap on errors. -/
def capped (options : Options) (cap : Option Nat) : Options := { options with maxErrors := cap }

/-- The state in which modules are bound, before the diagnostics are put in order. -/
def bindModules (options : Options) (names : NameTable) (modules : List ModuleDef) : BindState :=
  (BindState.initial options.bindOptions names).bindModules options.bindOptions modules

/-- **The states in which modules are bound under two caps are alike.** -/
theorem bindModules_alike (options : Options) (names : NameTable) (modules : List ModuleDef) (a b : Option Nat) :
    BindState.Alike a b ((options.capped a).bindModules names modules) ((options.capped b).bindModules names modules) := by
  have hstart : BindState.Alike a b (.initial (options.capped a).bindOptions names)
      (.initial (options.capped b).bindOptions names) :=
    ⟨rfl, rfl, [], (Log.holding_nil a).symm, (Log.holding_nil b).symm⟩
  exact (BindM.bindModules_blind _ _ _ modules a b BindState.rootContext _ _ hstart).2

end Options

namespace Compilation

open Options

/-- What is bound tells the result of a compilation. -/
theorem ofModules_eq (options : Options) (names : NameTable) (modules : List ModuleDef) :
    let state := options.bindModules names modules
    ofModules options names modules =
      if state.log.hasErrors then .ok ⟨state.program, state.names, state.log.sort, []⟩
      else
        match state.program.verify with
        | .ok summaries => .ok ⟨state.program, state.names, state.log.sort, summaries⟩
        | .error error => .error (.verify error) := rfl

/-- **The cap on errors never influences binding.** Under any two caps the program, the names, the number of errors and
the result with its summaries are the same; and what is kept under a cap, in the order of the reports, is what is kept
without one, except for the errors after that many. -/
theorem ofModules_capped (options : Options) (names : NameTable) (modules : List ModuleDef) :
    let bound cap := (options.capped cap).bindModules names modules
    (∀ a b, (bound a).program = (bound b).program ∧ (bound a).names = (bound b).names ∧
      (bound a).log.errorCount = (bound b).log.errorCount ∧
      ofModules (options.capped a) names modules =
        (ofModules (options.capped b) names modules).map ({ · with log := (bound a).log.sort })) ∧
    ∀ cap, (bound (some cap)).log.entries = firstErrors cap (bound none).log.entries := by
  intro bound
  have halike : ∀ a b, BindState.Alike a b (bound a) (bound b) := bindModules_alike options names modules
  refine ⟨fun a b => ⟨(halike a b).program, (halike a b).names, (halike a b).errorCount, ?_⟩, fun cap => ?_⟩
  · have ha : (options.capped a).bindModules names modules = bound a := rfl
    have hb : (options.capped b).bindModules names modules = bound b := rfl
    rw [ofModules_eq, ofModules_eq, ha, hb, (halike a b).program, (halike a b).names, Log.hasErrors, Log.hasErrors,
      (halike a b).errorCount]
    split
    · rfl
    · cases (bound b).program.verify <;> rfl
  · obtain ⟨reports, hcapped, hfull⟩ := (halike (some cap) none).log
    rw [hcapped, hfull]
    rfl

end Compilation

end Bindery
