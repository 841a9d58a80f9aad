import Bindery.Proofs.Later
import Mathlib.Data.List.Basic
/-!
# Closures

A function that captures belongs to a *closure*, in whose scope its own scope lies. What the closure keeps of a variable
depends on where the closure stands only: on the functions between its scope and the variable. The innermost of them has
a closure of its own, and the field is filled from the field that this closure has for the variable; with none between
them it is filled from the variable itself. So a field that was made for one use of a variable serves every other one.

A scope may get its owner after a closure was made in it. The owner captures nothing then, and nothing is captured
across it any more.
-/
namespace Bindery.Program

variable {p q : Program} {sc t : ScopeId} {x : SymbolId}

/-! ## The functions around a place -/

theorem functionsUpTo_self (h : p.Nested) : p.functionsUpTo sc sc = [] := by
  rcases hp : (p.scope sc).parent with _ | parent
  · simp [functionsUpTo, ancestors_of_none h hp]
  · simp [functionsUpTo, ancestors_of_some h hp]

theorem functionsUpTo_of_none (h : p.Nested) (hp : (p.scope sc).parent = none) (ht : sc ≠ t) :
    p.functionsUpTo sc t = if (p.scope sc).kind = .function then (p.scope sc).owner.toList else [] := by
  simp only [functionsUpTo, ancestors_of_none h hp, ne_eq, ht, not_false_eq_true, decide_true,
    List.takeWhile_cons_of_pos, List.takeWhile_nil, List.filterMap_cons, List.filterMap_nil]
  split <;> split <;> simp_all

theorem functionsUpTo_of_some (h : p.Nested) {parent : ScopeId} (hp : (p.scope sc).parent = some parent) (ht : sc ≠ t) :
    p.functionsUpTo sc t =
      (if (p.scope sc).kind = .function then (p.scope sc).owner.toList else []) ++ p.functionsUpTo parent t := by
  simp only [functionsUpTo, ancestors_of_some h hp, ne_eq, ht, not_false_eq_true, decide_true,
    List.takeWhile_cons_of_pos, List.filterMap_cons]
  split <;> split <;> simp_all

/-- **Each function around a place has its own scope there**, and the functions after it are those around its parent. -/
theorem functionsUpTo_split (h : p.Nested) {f : SymbolId} {post : List SymbolId} : ∀ {pre : List SymbolId},
    p.functionsUpTo sc t = pre ++ f :: post → ∃ sf ∈ p.ancestors sc, (p.scope sf).kind = .function ∧
      (p.scope sf).owner = some f ∧ ∀ parent, (p.scope sf).parent = some parent → p.functionsUpTo parent t = post := by
  refine h.induction (P := fun sc => ∀ {pre : List SymbolId}, p.functionsUpTo sc t = pre ++ f :: post →
    ∃ sf ∈ p.ancestors sc, (p.scope sf).kind = .function ∧ (p.scope sf).owner = some f ∧
      ∀ parent, (p.scope sf).parent = some parent → p.functionsUpTo parent t = post) ?_ ?_ sc
  · intro sc hp pre heq
    by_cases ht : sc = t
    · subst ht
      simp [functionsUpTo_self h] at heq
    · rw [functionsUpTo_of_none h hp ht] at heq
      split at heq
      · rename_i hk
        rcases ho : (p.scope sc).owner with _ | g
        · simp [ho] at heq
        · rw [ho, Option.toList_some, eq_comm, List.append_eq_singleton_iff] at heq
          simp only [List.cons.injEq, reduceCtorEq, and_false, or_false] at heq
          obtain ⟨-, rfl, -⟩ := heq
          refine ⟨sc, p.self_mem_ancestors sc, hk, ho, fun parent hpar => ?_⟩
          rw [hp] at hpar
          cases hpar
      · simp at heq
  · intro sc parent hp ih pre heq
    have hmem : ∀ {sf}, sf ∈ p.ancestors parent → sf ∈ p.ancestors sc := fun hs => by
      rw [ancestors_of_some h hp]
      exact List.mem_cons_of_mem _ hs
    by_cases ht : sc = t
    · subst ht
      simp [functionsUpTo_self h] at heq
    · rw [functionsUpTo_of_some h hp ht] at heq
      split at heq
      · rename_i hk
        rcases ho : (p.scope sc).owner with _ | g
        · rw [ho, Option.toList_none, List.nil_append] at heq
          obtain ⟨sf, hs, hrest⟩ := ih heq
          exact ⟨sf, hmem hs, hrest⟩
        · rw [ho, Option.toList_some, List.singleton_append] at heq
          rcases pre with _ | ⟨g', pre⟩
          · obtain ⟨rfl, hpost⟩ := List.cons.inj heq
            refine ⟨sc, p.self_mem_ancestors sc, hk, ho, fun parent' hpar => ?_⟩
            rw [hp] at hpar
            cases hpar
            exact hpost
          · obtain ⟨sf, hs, hrest⟩ := ih (List.cons.inj heq).2
            exact ⟨sf, hmem hs, hrest⟩
      · rw [List.nil_append] at heq
        obtain ⟨sf, hs, hrest⟩ := ih heq
        exact ⟨sf, hmem hs, hrest⟩

theorem functionsUpTo_congr (h : q.scopes = p.scopes) : q.functionsUpTo sc t = p.functionsUpTo sc t := by
  have hsc : q.scope = p.scope := by funext id; simp only [scope, h]
  have hup : ∀ n sc, q.ancestorsUpTo n sc = p.ancestorsUpTo n sc := by
    intro n
    induction n with
    | zero => exact fun _ => rfl
    | succ n ih => exact fun sc => by simp only [ancestorsUpTo, hsc, ih]
  simp only [functionsUpTo, ancestors, hup, hsc, h]

/-- **The functions around a place that is no body stay the same** while all of them capture. -/
theorem Later.functionsUpTo (h : p.Later q) (hs : sc.index < p.scopes.size) (hk : (p.scope sc).kind ≠ .function)
    (hc : ∀ f ∈ q.functionsUpTo sc t, q.mayCapture f) : q.functionsUpTo sc t = p.functionsUpTo sc t := by
  unfold Program.functionsUpTo at hc ⊢
  rw [h.ancestors hs] at hc ⊢
  refine List.filterMap_congr fun a ha => ?_
  have hle := index_le_of_mem_ancestors h.nested ((List.takeWhile_sublist _).subset ha)
  rw [h.scopes.kind a (Nat.lt_of_le_of_lt hle hs)]
  split
  · rename_i hka
    rcases ho : (p.scope a).owner with _ | g
    · rcases hq : (q.scope a).owner with _ | f
      · rfl
      · have hf := hc f (List.mem_filterMap.2
          ⟨a, ha, by rw [if_pos (by rw [h.scopes.kind a (Nat.lt_of_le_of_lt hle hs), hka]), hq]⟩)
        rcases h.owned a f (Nat.lt_of_le_of_lt hle hs) hka ho hq with ⟨hn, -⟩ | hsize
        · rw [hn] at hf
          cases hf
        · obtain rfl : a = sc := ScopeId.ext (by omega)
          exact absurd hka hk
    · rw [h.owner a g ho]
  · rfl

/-! ## What closures keep -/

/-- A struct that keeps what a function captures: the closure of a lambda or the state of a generator. -/
def IsClosure (p : Program) (x : SymbolId) : Prop :=
  ∃ own, p.decl x = .struct own ∧ (own.kind = .lambda ∨ own.kind = .resumable)

/-- A function that captures belongs to a closure, and its scope lies right in that of the closure. -/
def Closes (p : Program) (ownScope : Option ScopeId) (own : FunctionDecl) : Prop :=
  own.role.captures → ∃ closure sc outer, own.owner = some closure ∧ p.IsClosure closure ∧ ownScope = some sc ∧
    (p.scope sc).parent = some outer ∧ (p.symbol closure).ownScope = some outer

theorem Closes.of_role {ownScope : Option ScopeId} {own : FunctionDecl} (h : own.role.captures = false) :
    p.Closes ownScope own := fun hr => by rw [h] at hr; cases hr

/-- What a captured field is filled from is settled by the functions around its closure. -/
def Linked (p : Program) (closure : SymbolId) (captured : CaptureSource) : Prop :=
  ∀ sc, (p.symbol closure).ownScope = some sc →
    (∀ f ∈ p.functionsUpTo sc (p.symbol captured.origin).scope, p.mayCapture f) →
    match (p.functionsUpTo sc (p.symbol captured.origin).scope).head? with
    | none => captured.source = captured.origin
    | some f => ∃ own outer, p.function? f = some own ∧ own.owner = some outer ∧ p.IsClosure outer ∧
        p.captureOf? outer captured.origin = some captured.source

theorem Linked.unique {closure origin a b : SymbolId} (ha : p.Linked closure { origin, source := a })
    (hb : p.Linked closure { origin, source := b }) (hs : (p.symbol closure).ownScope = some sc)
    (hc : ∀ f ∈ p.functionsUpTo sc (p.symbol origin).scope, p.mayCapture f) : a = b := by
  have ha := ha sc hs hc
  have hb := hb sc hs hc
  dsimp only at ha hb
  split at ha
  · rename_i hn
    rw [hn] at hb
    rw [ha, hb]
  · rename_i f hf
    rw [hf] at hb
    obtain ⟨own, outer, hfun, howner, -, hca⟩ := ha
    obtain ⟨own', outer', hfun', howner', -, hcb⟩ := hb
    rw [hfun] at hfun'
    cases hfun'
    rw [howner] at howner'
    cases howner'
    rw [hca] at hcb
    exact Option.some.inj hcb

/-- A field of a closure that keeps a variable has the type of the variable, and is filled from the variable or from
another field of that type, as the place of the closure has it. -/
structure Keeping (p : Program) (own : FieldDecl) (captured : CaptureSource) : Prop where
  closure : p.IsClosure own.owner
  type : (p.decl captured.origin).valueType? = some own.ty
  source : captured.source = captured.origin ∨ ∃ outer, p.field? captured.source = some outer ∧ outer.ty = own.ty
  linked : p.Linked own.owner captured

/-- The fields in which a struct keeps what it captures. -/
def capturedFields (p : Program) (owner : SymbolId) : List SymbolId :=
  (p.fieldsOf owner).filter fun field => (p.captureSource? field).isSome

/-- Two fields do not keep the same variable. -/
def Apart (p : Program) (f g : SymbolId) : Prop :=
  ∀ a b, p.captureSource? f = some a → p.captureSource? g = some b → a.origin ≠ b.origin

/-- The fields of a struct are its own and know their places, and no two of them keep the same variable. -/
structure HasFields (p : Program) (id : SymbolId) (fields : List SymbolId) : Prop where
  own : ∀ f ∈ fields, ∃ own, p.field? f = some own ∧ own.owner = id
  apart : fields.Pairwise p.Apart
  placed : ∀ (i : Nat) f own, fields[i]? = some f → p.field? f = some own → own.index = i

theorem HasFields.nil (p : Program) (id : SymbolId) : p.HasFields id [] := ⟨by simp, .nil, by simp⟩

theorem HasFields.concat {id field : SymbolId} {fields : List SymbolId} {own : FieldDecl} (h : p.HasFields id fields)
    (hf : p.field? field = some own) (ho : own.owner = id) (hi : own.index = fields.length)
    (ha : ∀ g ∈ fields, p.Apart g field) : p.HasFields id (fields ++ [field]) where
  own g hg := by
    rcases List.mem_append.1 hg with hg | hg
    · exact h.own g hg
    · rw [List.mem_singleton.1 hg]
      exact ⟨own, hf, ho⟩
  apart := List.pairwise_append.2 ⟨h.apart, List.pairwise_singleton _ _, fun g hg f hf => by
    rw [List.mem_singleton.1 hf]
    exact ha g hg⟩
  placed i g own' hg hown := by
    rcases Nat.lt_or_ge i fields.length with hlt | hge
    · rw [List.getElem?_append_left hlt] at hg
      exact h.placed i g own' hg hown
    · rw [List.getElem?_append_right hge, List.getElem?_singleton] at hg
      split at hg
      · cases hg
        rw [hf] at hown
        cases hown
        omega
      · cases hg

/-! ## The way to a variable -/

/-- A scope lies inside another one. -/
def Inside (p : Program) (sc outer : ScopeId) : Prop := outer ∈ p.ancestors sc ∧ outer ≠ sc

/-- A step of the way to a captured variable: a closure keeps it, in a field of its type that is filled from `source`. -/
def Stores (p : Program) (x source : SymbolId) (hop : CaptureHop) : Prop :=
  ∃ own, p.field? hop.field = some own ∧ own.captured = some { origin := x, source } ∧
    (p.decl x).valueType? = some own.ty ∧ p.IsClosure own.owner ∧ (p.symbol own.owner).ownScope = some hop.scope

/-- The way to a captured variable. Every field is filled from the one before it, and every closure lies inside the one
before it. -/
def Way (p : Program) (x : SymbolId) : SymbolId → List CaptureHop → Prop
  | _, [] => True
  | source, hop :: rest =>
    p.Stores x source hop ∧ (∀ next ∈ rest.head?, p.Inside next.scope hop.scope) ∧ p.Way x hop.field rest

/-- A way goes on from its last field. -/
theorem Way.concat {hop : CaptureHop} : ∀ {source : SymbolId} {hops : List CaptureHop}, p.Way x source hops →
    p.Stores x ((hops.getLast?.map (·.field)).getD source) hop →
    (∀ last ∈ hops.getLast?, p.Inside hop.scope last.scope) → p.Way x source (hops ++ [hop])
  | _, [], _, hs, _ => ⟨hs, by simp, trivial⟩
  | source, [last], ⟨hl, _, _⟩, hs, hi => by
    refine ⟨hl, ?_, hs, by simp, trivial⟩
    rintro _ ⟨⟩
    exact hi last rfl
  | source, first :: next :: rest, ⟨hf, hn, hw⟩, hs, hi => by
    refine ⟨hf, fun _ h => hn _ h, Way.concat hw ?_ fun last hlast => hi last ?_⟩
    · rw [List.getLast?_cons_cons] at hs
      rwa [List.getLast?_cons] at hs ⊢
    · rwa [List.getLast?_cons_cons]

/-! ## Growing programs -/

theorem captureSource?_eq_some {field : SymbolId} {captured : CaptureSource} :
    p.captureSource? field = some captured ↔ ∃ own, p.field? field = some own ∧ own.captured = some captured := by
  rw [captureSource?, Option.bind_eq_some_iff]

theorem fieldsOf_of_struct {own : StructDecl} (hd : p.decl x = .struct own) : p.fieldsOf x = own.fields := by
  rw [fieldsOf, struct?, hd]
  rfl

theorem field?_setDecl {id : SymbolId} {d : Decl} (hp : ∀ own, p.decl id ≠ .field own) (hd : ∀ own, d ≠ .field own)
    (g : SymbolId) : (p.setDecl id d).field? g = p.field? g := by
  refine Option.ext fun own => ?_
  rw [field?_eq_some, field?_eq_some, decl_setDecl]
  split
  · rename_i heq
    rw [← heq.1]
    exact ⟨fun h => absurd h (hd own), fun h => absurd h (hp own)⟩
  · rfl

@[simp] theorem field?_appendField (p : Program) (owner field g : SymbolId) :
    (p.appendField owner field).field? g = p.field? g := by
  unfold appendField modifyStruct
  split
  · exact field?_setDecl (by simp [*]) (by simp) g
  · exact field?_setDecl (by simp [*]) (by simp) g
  · rfl

@[simp] theorem scopes_appendField (p : Program) (owner field : SymbolId) :
    (p.appendField owner field).scopes = p.scopes := by
  unfold appendField modifyStruct
  split <;> rfl

theorem captureOf?_eq_none {owner origin : SymbolId} {own : StructDecl} (hd : p.decl owner = .struct own) :
    p.captureOf? owner origin = none ↔ ∀ g ∈ own.fields, ∀ a, p.captureSource? g = some a → a.origin ≠ origin := by
  rw [captureOf?, fieldsOf_of_struct hd, List.find?_eq_none]
  refine forall₂_congr fun g _ => ?_
  cases p.captureSource? g <;> simp

theorem decl_appendField {owner field : SymbolId} {own : StructDecl} (hd : p.decl owner = .struct own) :
    (p.appendField owner field).decl owner = .struct { own with fields := own.fields ++ [field] } := by
  rw [appendField, modifyStruct, hd]
  exact decl_setDecl_self p _ (lt_of_decl (by rw [hd]; simp))

/-- A field that is put behind the others is the one for its variable if there was none. -/
theorem captureOf?_appendField {owner field : SymbolId} {own : StructDecl} {captured : CaptureSource}
    (hd : p.decl owner = .struct own) (hn : p.captureOf? owner captured.origin = none)
    (hf : p.captureSource? field = some captured) :
    (p.appendField owner field).captureOf? owner captured.origin = some field := by
  rw [captureOf?, fieldsOf_of_struct hd] at hn
  rw [captureOf?, fieldsOf_of_struct (decl_appendField hd)]
  simp only [captureSource?, field?_appendField, List.find?_append] at hn hf ⊢
  rw [hn, Option.none_or, List.find?_singleton, hf]
  simp

namespace Later

variable (h : p.Later q)
include h

theorem isClosure (hx : p.IsClosure x) : q.IsClosure x := by
  obtain ⟨own, hd, hk⟩ := hx
  obtain ⟨own', hd', hk', -⟩ := h.struct hd
  exact ⟨own', hd', by rwa [hk']⟩

theorem captureSource? {field : SymbolId} (hf : (p.field? field).isSome) :
    q.captureSource? field = p.captureSource? field := by
  obtain ⟨own, hf⟩ := Option.isSome_iff_exists.1 hf
  rw [Program.captureSource?, Program.captureSource?, h.field hf, hf]

theorem hasFields {id : SymbolId} {fields : List SymbolId} (hf : p.HasFields id fields) : q.HasFields id fields where
  own f hm := by
    obtain ⟨own, ho, hid⟩ := hf.own f hm
    exact ⟨own, h.field ho, hid⟩
  apart := by
    have hsome : ∀ f ∈ fields, (p.field? f).isSome := fun f hm => by
      obtain ⟨own, ho, -⟩ := hf.own f hm
      rw [ho]
      rfl
    refine hf.apart.imp_of_mem fun {f g} hmf hmg hfg a b ha hb => hfg a b ?_ ?_
    · rwa [h.captureSource? (hsome f hmf)] at ha
    · rwa [h.captureSource? (hsome g hmg)] at hb
  placed i f own hi hown := by
    obtain ⟨own', ho, -⟩ := hf.own f (List.mem_of_getElem? hi)
    rw [h.field ho] at hown
    cases hown
    exact hf.placed i f own hi ho

theorem closes {ownScope : Option ScopeId} {own : FunctionDecl} (hc : p.Closes ownScope own) : q.Closes ownScope own := by
  intro hr
  obtain ⟨closure, sc, outer, ho, hcl, hs, hp, hown⟩ := hc hr
  have hlt : sc.index < p.scopes.size := by
    by_contra hn
    rw [scope_of_le (Nat.le_of_not_lt hn)] at hp
    cases hp
  exact ⟨closure, sc, outer, ho, h.isClosure hcl, hs, by rw [h.scopes.parent sc hlt, hp],
    by rw [h.ownScope closure (lt_of_ownScope hown), hown]⟩

/-- A closure keeps a variable in the same field. -/
theorem captureOf? {closure origin field : SymbolId} {own : StructDecl} (hd : p.decl closure = .struct own)
    (hf : p.HasFields closure own.fields) (hc : p.captureOf? closure origin = some field) :
    q.captureOf? closure origin = some field := by
  obtain ⟨own', hd', -, hpre⟩ := h.struct hd
  obtain ⟨more, hmore⟩ := hpre
  rw [Program.captureOf?, fieldsOf_of_struct hd] at hc
  rw [Program.captureOf?, fieldsOf_of_struct hd', ← hmore, List.find?_append]
  have hsame : own.fields.find? (fun g => (q.captureSource? g).any (·.origin == origin)) = some field := by
    rw [← hc]
    refine List.find?_congr fun g hg => ?_
    obtain ⟨d, hfd, -⟩ := hf.own g hg
    rw [h.captureSource? (by rw [hfd]; rfl)]
  rw [hsame]
  rfl

theorem stores {source : SymbolId} {hop : CaptureHop} (hs : p.Stores x source hop) : q.Stores x source hop := by
  obtain ⟨own, hf, hc, ht, hcl, ho⟩ := hs
  exact ⟨own, h.field hf, hc, h.valueType ht, h.isClosure hcl, by rw [h.ownScope _ (lt_of_ownScope ho), ho]⟩

theorem inside {outer : ScopeId} (hi : p.Inside sc outer) : q.Inside sc outer := by
  have hlt : sc.index < p.scopes.size := by
    by_contra hn
    have hm := hi.1
    rw [ancestors_eq_singleton (Nat.le_of_not_lt hn), List.mem_singleton] at hm
    exact hi.2 hm
  exact ⟨by rw [h.ancestors hlt]; exact hi.1, hi.2⟩

omit h in
/-- **The way to a variable stays one.** -/
theorem way (h : p.Later q) : ∀ {source : SymbolId} {hops : List CaptureHop}, p.Way x source hops → q.Way x source hops
  | _, [], _ => trivial
  | _, _ :: _, ⟨hs, hn, hw⟩ => ⟨h.stores hs, fun next hm => h.inside (hn next hm), h.way hw⟩

end Later

end Bindery.Program
