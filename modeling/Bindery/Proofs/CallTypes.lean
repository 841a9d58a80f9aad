import Bindery.Proofs.Binding
/-!
# Types of calls

A call has the return type that its function has when the call is bound, and no function is called before it has one.
A return type that is known when a rule begins is the same when the rule ends, so that every call that the rule makes of
the function has that type for good.

A return type may still change within the rule that finds it out. The `return` of a value sets the type after the value
is bound, even when a `return` inside the value has set it before and calls have been bound since. And the method that
steps a generator has the declared type of the elements for its return type while its body is bound, and `Bool` after
that.
-/
namespace Bindery

namespace BindM

open BindState Sample

set_option maxRecDepth 10000

/-- A function that is called, and then once more. -/
def calledTwice : Sample fun s => (s.program.function? ⟨20⟩).map (·.ret) = some (some .bool) ∧
    s.program.nodes.size = 3 ∧ 2 < s.program.scopes.size ∧
    (((bindBody (.ofDepth 8 "main" 8) [call (name "f") []]).runAt { scope := ⟨2⟩ } s).2.program.node ⟨3⟩).kind =
      .call ⟨20⟩ [] where
  body := [function "f" [] [returns (node (.bool true))], call (name "f") []]
  shown := by decide +kernel

/-- A call of a function inside the value that it returns, after a `return` inside that value. -/
def recursiveReturn : Sample fun s => s.log.errorCount = 0 ∧ (s.program.node ⟨2⟩).kind = .call ⟨21⟩ [] ∧
    (s.program.node ⟨2⟩).ty = .bool ∧
    (s.program.function? ⟨21⟩).map (fun own => (own.role, own.ret)) = some (.plain, some (.int 64 false)) where
  body :=
    [function "f" [param "x" none none, param "y" none none] [returns (node (.int 2 (IntSuffix.ofSpelling? "u64")))],
      function "g" [] [returns (call (node (.dot (returns (node (.bool true))) "f")) [call (name "g") []])],
      call (name "g") []]
  shown := by decide +kernel

/-- A generator whose body runs its own step. -/
def ownStep : Sample fun s => s.log.errorCount = 0 ∧ (s.program.node ⟨5⟩).kind = .call ⟨21⟩ [⟨4⟩] ∧
    (s.program.node ⟨5⟩).ty = .int32 ∧
    (s.program.function? ⟨21⟩).map (fun own => (own.role, own.ret)) = some (.generatorStep, some .bool) where
  body :=
    [generator "g" (some (name "Int32")) [node (.yield (node (.int 1 none))), call (name "next") []],
      call (name "g") []]
  shown := by decide +kernel

end BindM

end Bindery
