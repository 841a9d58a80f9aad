import Bindery.Proofs.Binding
/-!
# What a declaration does to names

A name is looked for from a place outward. A symbol that is declared is found from every place from which the way
outward leads to its scope before it meets another symbol of the name; from all other places, and for all other names,
the same is found as before. As a member, it is found in its own scope only.

A second declaration of a name in a scope is refused with the symbol that has the name, and changes nothing.
-/
namespace Bindery

namespace Program

variable {p q : Program} {s t : ScopeId} {name : String} {x : SymbolId}

/-- Nothing has the name on the way from a place outward to a scope, the scope apart. -/
inductive Unshadowed (p : Program) (name : String) (s : ScopeId) : ScopeId → Prop
  | here : Unshadowed p name s s
  | outward {t parent : ScopeId} : (p.scope t).find? name = none → (p.scope t).parent = some parent →
      Unshadowed p name s parent → Unshadowed p name s t

theorem lookup?_of_none (h : p.Nested) (ht : (p.scope t).parent = none) :
    p.lookup? t name = (p.scope t).find? name := by
  rw [lookup?, ancestors_of_none h ht, List.findSome?_singleton]

theorem lookup?_of_some (h : p.Nested) {parent : ScopeId} (ht : (p.scope t).parent = some parent) :
    p.lookup? t name = ((p.scope t).find? name <|> p.lookup? parent name) := by
  rw [lookup?, lookup?, ancestors_of_some h ht, List.findSome?_cons]
  cases (p.scope t).find? name <;> rfl

/-- A scope that has a name says what it stands for there. -/
theorem lookup?_of_find (h : p.Nested) (hx : (p.scope t).find? name = some x) : p.lookup? t name = some x := by
  cases ht : (p.scope t).parent with
  | none => rw [lookup?_of_none h ht, hx]
  | some parent => rw [lookup?_of_some h ht, hx]; rfl

/-- One name was added to one scope. -/
structure AddsName (p q : Program) (s : ScopeId) (name : String) (x : SymbolId) : Prop where
  parent : ∀ t, (q.scope t).parent = (p.scope t).parent
  find : ∀ t m, (q.scope t).find? m = if t = s ∧ m = name then some x else (p.scope t).find? m

namespace AddsName

theorem nested (h : AddsName p q s name x) (hp : p.Nested) : q.Nested := fun sc parent hparent =>
  hp sc parent (by rw [← h.parent, hparent])

theorem find_of_not (h : AddsName p q s name x) {m : String} (hne : ¬(t = s ∧ m = name)) :
    (q.scope t).find? m = (p.scope t).find? m := by rw [h.find, if_neg hne]

/-- **The new symbol is found where nothing shadows it.** -/
theorem lookup?_of_unshadowed (h : AddsName p q s name x) (hp : p.Nested) (hu : p.Unshadowed name s t) :
    q.lookup? t name = some x := by
  have hq := h.nested hp
  induction hu with
  | here => exact lookup?_of_find hq (by rw [h.find, if_pos ⟨rfl, rfl⟩])
  | @outward t parent hnone hparent _ ih =>
    by_cases hts : t = s
    · exact lookup?_of_find hq (by rw [h.find, if_pos ⟨hts, rfl⟩])
    · rw [lookup?_of_some hq (by rw [h.parent, hparent]), h.find_of_not fun hn => hts hn.1, hnone, ih]
      rfl

/-- **From all other places, and for all other names, the same is found as before.** -/
theorem lookup?_of_not (h : AddsName p q s name x) (hp : p.Nested) {m : String} :
    ¬(m = name ∧ p.Unshadowed name s t) → q.lookup? t m = p.lookup? t m := by
  have hq := h.nested hp
  -- outward from the place: what a scope has is the same, and the way goes on only past scopes without the name
  refine hp.induction (P := fun t => ¬(m = name ∧ p.Unshadowed name s t) → q.lookup? t m = p.lookup? t m) ?_ ?_ t
  · intro t hparent hnot
    rw [lookup?_of_none hp hparent, lookup?_of_none hq (by rw [h.parent, hparent])]
    refine h.find_of_not ?_
    rintro ⟨rfl, rfl⟩
    exact hnot ⟨rfl, .here⟩
  · intro t parent hparent ih hnot
    have hfind : (q.scope t).find? m = (p.scope t).find? m := by
      refine h.find_of_not ?_
      rintro ⟨rfl, rfl⟩
      exact hnot ⟨rfl, .here⟩
    rw [lookup?_of_some hp hparent, lookup?_of_some hq (by rw [h.parent, hparent]), hfind]
    cases hx : (p.scope t).find? m with
    | some y => rfl
    | none =>
      rw [ih]
      rintro ⟨rfl, hu⟩
      exact hnot ⟨rfl, .outward hx hparent hu⟩

end AddsName

/-- A symbol that is declared, by the scope itself or as an import, adds its name to the scope. -/
theorem addsName_of_insert (insert : Scope → String → SymbolId → Scope) {new : Symbol}
    (hs : s.index < p.scopes.size) (hparent : ∀ sc m y, (insert sc m y).parent = sc.parent)
    (hfind : ∀ m, (insert (p.scope s) new.name p.nextSymbol).find? m =
      if m = new.name then some p.nextSymbol else (p.scope s).find? m) :
    AddsName p ((p.addSymbol new).modifyScope s (insert · new.name p.nextSymbol)) s new.name p.nextSymbol where
  parent t := by
    rw [scope_modifyScope]
    split
    · exact hparent _ _ _
    · rfl
  find t m := by
    rw [scope_modifyScope]
    by_cases hts : s = t
    · subst hts
      rw [if_pos ⟨rfl, hs⟩]
      simpa using hfind m
    · rw [if_neg fun h => hts h.1, if_neg fun h => hts h.1.symm]
      rfl

/-- **A declaration is refused with the symbol that has the name, or adds its name.** -/
theorem declare_addsName (new : Symbol) (hs : s.index < p.scopes.size)
    {place : Program → ScopeId → Symbol → Except SymbolId (SymbolId × Program)}
    (hplace : place = declare ∨ place = declareOther) :
    (∃ existing, place p s new = .error existing ∧ p.member? s new.name = some existing) ∨
      ∃ q, place p s new = .ok (p.nextSymbol, q) ∧ AddsName p q s new.name p.nextSymbol := by
  cases hf : (p.scope s).find? new.name with
  | some existing =>
    refine .inl ⟨existing, ?_, hf⟩
    rcases hplace with rfl | rfl
    · simp only [declare, hf]
    · simp only [declareOther, hf]
  | none =>
    refine .inr ?_
    rcases hplace with rfl | rfl
    · exact ⟨_, by simp only [declare, hf],
        addsName_of_insert Scope.insert hs (fun _ _ _ => rfl) (Scope.find?_insert hf _)⟩
    · exact ⟨_, by simp only [declareOther, hf],
        addsName_of_insert Scope.insertOther hs (fun _ _ _ => rfl) (Scope.find?_insertOther hf _)⟩

end Program

namespace BindState

open Program BindM Sample

set_option maxRecDepth 10000

/-- **A declaration has exactly its lexical effect**, by the scope itself or as an import, in every state that binding
comes to. Either the scope has the name already: the symbol that has it is the reason of the refusal, and the program
stays as it is. Or the new symbol is what the name stands for from every place that nothing shadows it for, and as a
member of its scope; everything else stands for what it did. -/
theorem declare_lexical {options : BindOptions} {names : NameTable} {s : BindState} (hs : Reached options names s)
    {scope : ScopeId} (hscope : scope.index < s.program.scopes.size) (new : Symbol) (c : Context)
    {place : Program → ScopeId → Symbol → Except SymbolId (SymbolId × Program)}
    (hplace : place = Program.declare ∨ place = Program.declareOther) :
    let r := (declareBy place scope new).runAt c s
    (∀ existing, place s.program scope new = .error existing →
      s.program.member? scope new.name = some existing ∧ r.1 = none ∧ r.2.program = s.program) ∧
    ∀ id q, place s.program scope new = .ok (id, q) → r = (some id, { s with program := q }) ∧
      (∀ t, s.program.Unshadowed new.name scope t → q.lookup? t new.name = some id) ∧
      (∀ t m, ¬(m = new.name ∧ s.program.Unshadowed new.name scope t) → q.lookup? t m = s.program.lookup? t m) ∧
      ∀ t m, q.member? t m = if t = scope ∧ m = new.name then some id else s.program.member? t m := by
  intro r
  have hnested := hs.sound.program.nested
  have hrun : r = (declareBy place scope new).runAt c s := rfl
  rw [declareBy, runAt_bind_some runAt_get] at hrun
  rcases declare_addsName new hscope hplace with ⟨existing, herror, hmember⟩ | ⟨q, hok, hadds⟩
  · rw [herror] at hrun
    refine ⟨fun e he => ?_, fun id q hq => ?_⟩
    · rw [herror] at he
      cases he
      exact ⟨hmember, by rw [hrun]; rfl, by rw [hrun]; rfl⟩
    · rw [herror] at hq
      cases hq
  · rw [hok] at hrun
    refine ⟨fun e he => ?_, fun id q' hq => ?_⟩
    · rw [hok] at he
      cases he
    rw [hok] at hq
    cases hq
    exact ⟨hrun, fun t => hadds.lookup?_of_unshadowed hnested, fun t m => hadds.lookup?_of_not hnested, hadds.find⟩

/-- A module with a block that has a variable `y`. -/
def blockVariable : Sample fun s => 2 < s.program.scopes.size ∧ (s.program.scope ⟨3⟩).parent = some ⟨2⟩ ∧
    s.program.member? ⟨3⟩ "z" = none ∧ s.program.member? ⟨3⟩ "y" = some ⟨19⟩ ∧ s.program.lookup? ⟨3⟩ "y" = some ⟨19⟩ ∧
    s.program.member? ⟨2⟩ "z" = none ∧ s.program.member? ⟨2⟩ "y" = none where
  body := [node (.block none [define "y" (node (.bool true))])]
  shown := by decide +kernel

/-- A variable `z` of the module is found in the block, and a variable `y` is not. -/
theorem blockVariable_lexical :
    let p := blockVariable.state.program
    let new (name : String) : Symbol := { name, scope := ⟨2⟩, pos := .synthetic, decl := .localVar .bool }
    (∃ id q, p.declare ⟨2⟩ (new "z") = .ok (id, q) ∧ q.lookup? ⟨3⟩ "z" = some id ∧ q.lookup? ⟨3⟩ "y" = some ⟨19⟩) ∧
      ∃ id q, p.declareOther ⟨2⟩ (new "y") = .ok (id, q) ∧ q.lookup? ⟨3⟩ "y" = some ⟨19⟩ ∧ q.member? ⟨2⟩ "y" = some id := by
  have hshown := blockVariable.holds
  obtain ⟨batches, hbound⟩ := blockVariable.eq_bindAll
  have hreached := (bindAll_reached {} {} batches).1
  rw [← hbound] at hreached
  generalize blockVariable.state = s at hshown hreached ⊢
  intro p new
  obtain ⟨hscope, hparent, hz3, hy3, hy, hz2, hy2⟩ := hshown
  refine ⟨?_, ?_⟩
  · rcases declare_addsName (new "z") hscope (.inl rfl) with ⟨e, -, he⟩ | ⟨q, hok, -⟩
    · exact absurd (hz2.symm.trans he) (by simp)
    · obtain ⟨-, hfound, hkept, -⟩ := (declare_lexical hreached hscope (new "z") rootContext (.inl rfl)).2 _ q hok
      refine ⟨_, q, hok, hfound ⟨3⟩ (.outward hz3 hparent .here), (hkept ⟨3⟩ "y" fun h => ?_).trans hy⟩
      exact absurd h.1 (by decide)
  · rcases declare_addsName (new "y") hscope (.inr rfl) with ⟨e, -, he⟩ | ⟨q, hok, -⟩
    · exact absurd (hy2.symm.trans he) (by simp)
    · obtain ⟨-, -, hkept, hmember⟩ := (declare_lexical hreached hscope (new "y") rootContext (.inr rfl)).2 _ q hok
      refine ⟨_, q, hok, (hkept ⟨3⟩ "y" fun h => ?_).trans hy, by rw [hmember]; exact if_pos ⟨rfl, rfl⟩⟩
      -- the block has the name itself
      cases h.2 with
      | outward hnone => exact absurd (hnone.symm.trans hy3) (by simp)

end BindState

end Bindery
