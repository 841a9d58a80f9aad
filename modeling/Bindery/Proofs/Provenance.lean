import Bindery.Proofs.Binding
import Mathlib.Data.List.Nodup
/-!
# Where instances come from

What was made from a template names it, stands in its list, and is found in the memo by the template and one
fingerprint. Binding is re-entrant: the parameters of a call and the body of an instance are bound before the call ends
and may call the same template, which then has another fingerprint or is found in the memo. Nothing is ever taken out of
the memo or put in the place of an entry.
-/
namespace Bindery

namespace Program

variable {p : Program}

/-- What a template lists is the value of one entry of the memo. -/
theorem Memoized.existsUnique_entry (hm : p.Memoized) {t x : SymbolId} {own : TemplateDecl}
    (ht : p.template? t = some own) (hx : x ∈ own.instances) : ∃! e, e ∈ p.memo ∧ e.2 = x := by
  obtain ⟨fingerprint, he⟩ := (hm.listed t own ht).2 x hx
  refine ⟨_, ⟨he, rfl⟩, fun e ⟨he', hx'⟩ => ?_⟩
  exact List.inj_on_of_nodup_map hm.values he' he hx'

end Program

namespace BindState

variable {floor : Floor} {s t : BindState}

/-- An entry of the memo stays where it is: others are put in front of it. -/
theorem Step.memo_suffix (h : Step floor s t) : s.program.memo <:+ t.program.memo := by
  cases h with
  | edit program he =>
    show s.program.memo <:+ program.memo
    exact he.memo ▸ List.suffix_rfl
  | quiet => exact List.suffix_rfl
  | record template fingerprint made _ _ he =>
    obtain ⟨own, ht⟩ := Option.isSome_iff_exists.1 he.declared
    rw [Program.memo_registerInstance ht]
    exact List.suffix_cons _ _

/-- **No entry of the memo is taken out or replaced.** -/
theorem Steps.memo_suffix (h : Steps floor s t) : s.program.memo <:+ t.program.memo := by
  induction h with
  | refl => exact List.suffix_rfl
  | tail _ hstep ih => exact ih.trans hstep.memo_suffix

/-- **The memo and the provenance of instances agree** in every state that binding comes to. An entry of the memo leads
from a template, which is one for good, to an instance that is in its list and was made from it. What a template lists is
the value of one entry, and listed once. And what is found in the memo is found in every later state. -/
theorem memo_provenance (options : BindOptions) (names : NameTable) :
    (∀ batches modules, let s := bindAll options names batches
      Reached options names s ∧ Steps { coherent := True } s (s.bindModules options modules)) ∧
    ∀ s, Reached options names s →
      (∀ template fingerprint made, ((template, fingerprint), made) ∈ s.program.memo →
        (∃ own, s.program.template? template = some own ∧ made ∈ own.instances) ∧
        (s.program.decl made).isInstance ∧ (s.program.decl made).origin? = some template ∧
        s.program.knownInstance? template fingerprint = some made) ∧
      (∀ template own, s.program.template? template = some own → own.instances.Nodup ∧
        ∀ made ∈ own.instances, ∃! e, e ∈ s.program.memo ∧ e.2 = made) ∧
      ∀ t, Steps { coherent := True } s t → s.program.memo <:+ t.program.memo ∧
        ∀ template fingerprint made, s.program.knownInstance? template fingerprint = some made →
          t.program.knownInstance? template fingerprint = some made := by
  refine ⟨fun batches modules => ?_, fun s hs => ?_⟩
  · obtain ⟨hreached, hentered⟩ := bindAll_reached options names batches
    exact ⟨hreached, (hreached.bindModules hentered modules).1⟩
  have hm := hs.coherent.memoized
  refine ⟨fun template fingerprint made he => ?_, fun template own ht => ?_, fun t ht => ?_⟩
  · obtain ⟨own, ht, hmade, horigin⟩ := hm.recorded _ he
    exact ⟨⟨own, ht, hmade⟩, (hs.sound.memo _ he).isInstance, horigin, hm.known_iff.2 he⟩
  · exact ⟨(hm.listed template own ht).1, fun made hmade => hm.existsUnique_entry ht hmade⟩
  · have hreached : Reached options names t := hs.trans ht
    refine ⟨ht.memo_suffix, fun template fingerprint made hknown => ?_⟩
    rw [hm.known_iff] at hknown
    exact hreached.coherent.memoized.known_iff.2 (ht.memo_suffix.subset hknown)

open Sample

set_option maxRecDepth 10000

/-- Two functions of one name, so that the first is moved. The second calls it for a call that has called it before. -/
def calledWithin : Sample fun s => s.log.errorCount = 0 ∧
    ((⟨21⟩, [.value .bool]), ⟨27⟩) ∈ s.program.memo ∧
    (s.program.template? ⟨21⟩).map (·.instances) = some [⟨22⟩, ⟨27⟩] where
  body :=
    [function "f" [param "x" none none] [returns (name "x")],
      function "f" [param "x" none none, param "y" none none] [returns (call (name "f") [call (name "f") [name "x"]])],
      call (name "f") [node (.bool true), call (name "f") [node (.int 1 none)]]]
  shown := by decide +kernel

/-- The second instance of the template that was moved, which is found again after another module is bound. -/
theorem calledWithin_provenance :
    let s := calledWithin.state
    (s.program.template? ⟨21⟩).map (·.instances) = some [⟨22⟩, ⟨27⟩] ∧
    (s.program.decl ⟨27⟩).isInstance ∧ (s.program.decl ⟨27⟩).origin? = some ⟨21⟩ ∧
    (∃! e, e ∈ s.program.memo ∧ e.2 = ⟨27⟩) ∧
    (s.bindModules {} [⟨.synthetic, "n", []⟩]).program.knownInstance? ⟨21⟩ [.value .bool] = some ⟨27⟩ := by
  have hshown := calledWithin.holds
  obtain ⟨batches, hbound⟩ := calledWithin.eq_bindAll
  obtain ⟨hsteps, hall⟩ := memo_provenance {} {}
  have hs := hsteps batches [⟨.synthetic, "n", []⟩]
  rw [← hbound] at hs
  generalize calledWithin.state = s at hshown hs ⊢
  obtain ⟨-, hmem, hlist⟩ := hshown
  obtain ⟨own, hown, hinstances⟩ := Option.map_eq_some_iff.1 hlist
  obtain ⟨hentries, hlists, hlater⟩ := hall s hs.1
  obtain ⟨-, hinstance, horigin, hknown⟩ := hentries _ _ _ hmem
  exact ⟨hlist, hinstance, horigin, (hlists _ own hown).2 ⟨27⟩ (by simp [hinstances]), (hlater _ hs.2).2 _ _ _ hknown⟩

end BindState

end Bindery
