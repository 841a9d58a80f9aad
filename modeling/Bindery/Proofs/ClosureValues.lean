import Bindery.Proofs.Binding
/-!
# Values of closures

A lambda, or a call of a generator, gives an initializer of its closure: what it was given, and then one value for every
field that keeps a variable at that time, in order and with the type of the field. Of a lambda these are all captured
fields that its closure has when the lambda is bound. Of a generator they are all captured fields of its state if the
call is not made inside the state itself, in the body of the generator.

A generator that calls itself makes a value of its state while its body is still being bound; a variable that the body
uses only after that is not in the initializer.
-/
namespace Bindery

namespace BindM

open BindState Sample

set_option maxRecDepth 10000

/-- A lambda that uses the variable `y` around it. -/
def usesVariable : FunctionDef := functionDef none .lambda [] none [returns (name "y")]

/-- A function with a variable, in which the lambda may stand. -/
def keptVariable : Sample fun s => 3 < s.program.scopes.size ∧
    let r := (bindLambda (.ofDepth 8 "main" 8) .synthetic usesVariable).runAt { scope := ⟨3⟩ } s
    r.1 = some ⟨6⟩ ∧ (r.2.program.node ⟨6⟩).kind = .initializer [(⟨25⟩, ⟨5⟩)] where
  body := [function "g" [] [define "y" (node (.bool true))], call (name "g") []]
  shown := by decide +kernel

/-- A generator that calls itself before it uses a variable of the function around it. -/
def lateCapture : Sample fun s => s.log.errorCount = 0 ∧ (s.program.node ⟨4⟩).ty = .direct ⟨23⟩ ∧
    (s.program.node ⟨4⟩).kind = .initializer [] ∧
    (s.program.struct? ⟨23⟩).map (fun own => (own.kind, own.fields)) = some (.resumable, [⟨26⟩, ⟨27⟩]) ∧
    s.program.captureSource? ⟨26⟩ = some { origin := ⟨22⟩, source := ⟨22⟩ } where
  body :=
    [function "h" []
      [define "y" (node (.int 1 none)), generator "g" none [call (name "g") [], node (.yield (name "y"))],
        call (name "g") []],
      call (name "h") []]
  shown := by decide +kernel

end BindM

end Bindery
