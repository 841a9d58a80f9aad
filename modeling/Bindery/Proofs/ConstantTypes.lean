import Bindery.Proofs.Binding
import Bindery.Proofs.Evaluation
/-!
# Constants and their types

A literal starts with the smallest type that holds it, and takes another one only if that holds it too. What is computed
from constants is cut to its type. So a constant is one of the values of its type, with two exceptions. The negative of a
literal is a literal again, and no type holds those below `-2 ^ 63`; they are left with `UInt64`. And when the bits of a
null pointer are taken for an integer, they stay `null`.
-/
namespace Bindery

/-! ## The smallest type of a literal -/

/-- The types that a literal may start with, smallest first: their widths, and whether they are signed. -/
def literalWidths : List (Nat × Bool) := [(8, true), (16, true), (32, true), (64, true), (64, false)]

/-- The first of these types that holds an integer. -/
def leastWidth? (v : Int) : Option (Nat × Bool) := literalWidths.find? fun width => InRange width.1 width.2 v

theorem literalShape_eq (v : Int) : BindM.literalShape v = (leastWidth? v).getD (64, false) := by
  have hwrap : ∀ bits, 0 < bits ∧ bits < 128 → (wrapInt v bits true = v ↔ InRange bits true v) :=
    fun _ h => (inRange_iff h.1 h.2).symm
  unfold BindM.literalShape leastWidth? literalWidths
  simp only [hwrap 8 (by decide), hwrap 16 (by decide), hwrap 32 (by decide), hwrap 64 (by decide)]
  by_cases hu : InRange 64 false v
  · split_ifs <;> simp [*]
  · split_ifs <;> simp [*]

/-- The type that a literal starts with is the smallest one for it, if it holds the literal. -/
theorem Program.Standard.leastWidth {p : Program} (hp : p.Standard) {v : Int}
    (h : p.Inhabits (.int (BindM.literalShape v).1 (BindM.literalShape v).2) (.int v)) :
    leastWidth? v = some (BindM.literalShape v) := by
  obtain ⟨bits, signed, hs, hr⟩ := h
  have hs' := constScalar?_of_scalar (hp.scalar?_ofScalar (literalShape_mem v))
  cases hs'.symm.trans hs
  rw [literalShape_eq] at hr ⊢
  cases hleast : leastWidth? v with
  | some width => rfl
  | none =>
    rw [hleast] at hr
    have hnot : ¬ InRange 64 false v := by simpa using List.find?_eq_none.1 hleast (64, false) (by decide)
    exact absurd hr hnot

namespace BindState

variable {options : BindOptions} {names : NameTable} {s t : BindState} {n : NodeId} {v : Int}

/-- The type that a literal has was given to it on the way to a state. -/
def Retyped (options : BindOptions) (names : NameTable) (s : BindState) (n : NodeId) : Prop :=
  ∃ t, Reached options names t ∧ t.program.adaptsTo n (s.program.node n).ty ∧
    Steps { coherent := True } { t with program := t.program.adaptLiteral n (s.program.node n).ty } s

/-- A step that leaves the type alone leaves it given. -/
theorem Retyped.step (h : Retyped options names s n) (hstep : Step { coherent := True } s t)
    (hty : (t.program.node n).ty = (s.program.node n).ty) : Retyped options names t n := by
  obtain ⟨u, hu, ha, hsteps⟩ := h
  rw [← hty] at ha hsteps
  exact ⟨u, hu, ha, hsteps.tail hstep⟩

/-- **A literal has its first type until it is given another one.** -/
theorem Reached.literal_type (h : Reached options names s) (hk : (s.program.node n).kind = .literal (.int v) true) :
    Retyped options names s n ∨
      (s.program.node n).ty = .int (BindM.literalShape v).1 (BindM.literalShape v).2 := by
  induction h with
  | refl => cases hk
  | @tail s t hs hstep ih =>
    rcases hstep.node_cases n with heq | ⟨ty, ha, heq, hnode⟩ | ⟨-, hfresh⟩
    · rw [heq] at hk ⊢
      exact (ih hk).imp_left (·.step hstep (by rw [heq]))
    · refine .inl ⟨s, hs, ?_⟩
      rw [hnode]
      exact ⟨ha, heq ▸ .refl⟩
    · exact .inr (hfresh.natural trivial v hk)

/-- **Integer literals fit their types.** In every state that binding comes to, the integer of a literal is one of the
values of its type; and the type of a literal that may change is the smallest one for it, unless it was given another one.
The exception are the integers below `-2 ^ 63`, which have the type `UInt64`. -/
theorem literals_fit (options : BindOptions) (names : NameTable) :
    (∀ batches, Reached options names (bindAll options names batches)) ∧
    ∀ s, Reached options names s → ∀ n v adaptable, (s.program.node n).kind = .literal (.int v) adaptable →
      (s.program.Inhabits (s.program.node n).ty (.int v) ∧
        (adaptable = true → Retyped options names s n ∨
          ∃ width, leastWidth? v = some width ∧ (s.program.node n).ty = .int width.1 width.2)) ∨
      ((s.program.node n).ty = .int 64 false ∧ -2 ^ 64 < v ∧ v < -2 ^ 63) := by
  refine ⟨fun batches => (bindAll_reached options names batches).1, fun s hs n v adaptable hk => ?_⟩
  refine (hs.sound.program.literal_fits hk).imp_left fun hin => ⟨hin, ?_⟩
  rintro rfl
  refine (hs.literal_type hk).imp_right fun hty => ?_
  rw [hty] at hin
  exact ⟨_, hs.sound.program.standard.leastWidth hin, hty⟩

open Sample

set_option maxRecDepth 10000

/-- A literal takes the type of the other operand; both are widened, and the sum is that of the wider type. -/
def widenedSum : Sample fun s => s.log.errorCount = 0 ∧
    (s.program.node ⟨1⟩).kind = .literal (.int 100) true ∧ (s.program.node ⟨1⟩).ty = .int 8 false ∧
    (∀ n < 8, (s.program.node ⟨n⟩).ty ≠ .int 64 false) ∧ 7 < s.program.nodes.size ∧
    (s.program.node ⟨7⟩).ty = .int 32 false ∧ (s.program.eval ⟨7⟩).toOption = some (.int 300) where
  body := [define "x" (node (.binary .add (node (.int 200 (IntSuffix.ofSpelling? "u8"))) (node (.int 100 none))))]
  shown := by decide +kernel

/-- The second literal would have the type `Int8`, and was given another one. -/
theorem widenedSum_fit : Retyped {} {} widenedSum.state ⟨1⟩ := by
  obtain ⟨-, hk, hty, -⟩ := widenedSum.holds
  obtain ⟨batches, hbound⟩ := widenedSum.eq_bindAll
  obtain ⟨hreached, hall⟩ := literals_fit {} {}
  have hs := hreached batches
  rw [← hbound] at hs
  rcases hall _ hs _ _ _ hk with ⟨-, hleast⟩ | ⟨-, hlow, hhigh⟩
  · rcases hleast rfl with hgiven | ⟨width, hwidth, hty'⟩
    · exact hgiven
    · have hshape : leastWidth? 100 = some (8, true) := by decide
      cases hshape.symm.trans hwidth
      cases hty.symm.trans hty'
  · omega

/-- The greatest literal, negated. -/
def negatedLiteral : Sample fun s => s.log.errorCount = 0 ∧
    (s.program.node ⟨1⟩).kind = .literal (.int (-18446744073709551615)) true ∧
    (s.program.node ⟨1⟩).ty = .int 64 false where
  body := [define "x" (node (.unary .neg (node (.int 18446744073709551615 none))))]
  shown := by decide +kernel

/-- No value of `UInt64` is negative. -/
theorem negatedLiteral_strays : negatedLiteral.state.program.Strays ⟨1⟩ := by
  obtain ⟨-, hk, hty⟩ := negatedLiteral.holds
  refine ⟨_, _, hk, ?_⟩
  rintro ⟨bits, signed, hs, hr⟩
  have hs' := Program.constScalar?_of_scalar (negatedLiteral.sound.program.standard.scalar?_ofScalar
    (a := .int 64 false) (by decide))
  rw [hty] at hs
  cases hs'.symm.trans hs
  exact absurd hr (by decide)

/-! ## The values of constants -/

/-- **The value of a node is one of its type.** In every state that binding comes to, if the literals in the tree of a
node fit their types and the node has a constant value, then the value is one of those that the type is meant for. The
exception is `null` for an integer, where the bits of a pointer are taken somewhere in the tree. -/
theorem constants_typed (options : BindOptions) (names : NameTable) :
    (∀ batches, Reached options names (bindAll options names batches)) ∧
    ∀ s, Reached options names s → ∀ n value, n.index < s.program.nodes.size →
      (∀ m v adaptable, s.program.Within NodeKind.children n m → (s.program.node m).kind = .literal (.int v) adaptable →
        s.program.Inhabits (s.program.node m).ty (.int v)) →
      s.program.eval n = .ok value →
      s.program.Inhabits (s.program.node n).ty value ∨
      (value = .null ∧ (∃ bits signed, s.program.constScalar? (s.program.node n).ty = some (.int bits signed)) ∧
        ∃ m, s.program.Within NodeKind.children n m ∧ s.program.PointerBits m) := by
  refine ⟨fun batches => (bindAll_reached options names batches).1, fun s hs n value hn hliterals hvalue => ?_⟩
  rcases hs.sound.program.carries_eval hn hvalue with hin | ⟨⟨m, hm, v, adaptable, hk, hout⟩, -⟩ | ⟨hbits, hnull, hint⟩
  · exact .inl hin
  · exact absurd (hliterals m v adaptable hm hk) hout
  · exact .inr ⟨hnull, hint, hbits⟩

/-- The sum is a value of the wider type. -/
theorem widenedSum_typed : widenedSum.state.program.Inhabits (.int 32 false) (.int 300) := by
  obtain ⟨-, -, -, htypes, hlt, hsum, hvalue⟩ := widenedSum.holds
  obtain ⟨batches, hbound⟩ := widenedSum.eq_bindAll
  obtain ⟨hreached, hall⟩ := constants_typed {} {}
  have hs := hreached batches
  rw [← hbound] at hs
  have hp := widenedSum.sound.program
  generalize widenedSum.state = s at hs hp htypes hlt hsum hvalue ⊢
  rcases heval : s.program.eval ⟨7⟩ with _ | value <;> rw [heval] at hvalue <;> cases hvalue
  have htyped := hall s hs ⟨7⟩ _ hlt (fun m v adaptable hm hk =>
    -- no node of the tree has the type that an integer too small would have
    (hp.literal_fits hk).resolve_right fun hwide =>
      htypes m.index (Nat.lt_succ_of_le (hp.ordered.index_le_of_within hm)) hwide.1) heval
  rw [hsum] at htyped
  exact htyped.resolve_right (by rintro ⟨⟨⟩, -⟩)

/-- A null pointer, and its bits. -/
def nullBits : Sample fun s => s.log.errorCount = 0 ∧ (∀ n < 5, (s.program.node ⟨n⟩).ty ≠ .int 64 false) ∧
    (s.program.node ⟨4⟩).ty = .int 64 true ∧ (s.program.eval ⟨4⟩).toOption = some .null where
  body :=
    [define "x" (node (.cast (node (.cast (node .null) (node (.pointerType (name "Int32"))) .explicit)) (name "Int64")
      .explicit))]
  shown := by decide +kernel

/-- The bits of a null pointer are no value of `Int64`, and no literal in the tree is at fault. -/
theorem nullBits_untyped :
    let s := nullBits.state
    s.log.errorCount = 0 ∧ ¬ s.program.Contains s.program.Strays ⟨4⟩ ∧
      (s.program.eval ⟨4⟩).toOption = some .null ∧ ¬ s.program.Inhabits (s.program.node ⟨4⟩).ty .null := by
  obtain ⟨herrors, htypes, hty, hvalue⟩ := nullBits.holds
  have hp := nullBits.sound.program
  refine ⟨herrors, ?_, hvalue, ?_⟩
  · rintro ⟨m, hm, v, adaptable, hk, hout⟩
    obtain ⟨hwide, -⟩ := (hp.literal_fits hk).resolve_left hout
    exact htypes m.index (Nat.lt_succ_of_le (hp.ordered.index_le_of_within hm)) hwide
  · rw [hty]
    rintro (h | h) <;> cases h

end BindState

end Bindery
