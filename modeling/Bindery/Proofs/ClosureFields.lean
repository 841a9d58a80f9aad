import Bindery.Proofs.References
/-!
# Making closures

A closure is made of the variables that it keeps: each of its captured fields is filled with what the field stands for,
read at the place where the closure is made. Reading may capture variables in the closures around the place, but leaves
all other closures as they are. So a closure that is made outside itself has a value for every captured field that it
has by then.
-/
namespace Bindery

namespace Program

variable {p q : Program} {closure : SymbolId}

/-- What is a closure later was one from the start. -/
theorem Later.isClosure_of_later (h : p.Later q) (hlt : closure.index < p.symbols.size) (hc : q.IsClosure closure) :
    p.IsClosure closure := by
  obtain ⟨own, hd, hk⟩ := hc
  have hl := h.decl closure hlt
  rw [hd] at hl
  generalize hp : p.decl closure = d at hl
  cases hl with
  | refl => exact ⟨own, hp, hk⟩
  | struct hkind _ => exact ⟨_, hp, by rwa [← hkind]⟩

/-- No two fields of a closure keep the same variable, so that none is listed twice. -/
theorem Sound.nodup_capturedFields (hp : p.Sound) (hc : p.IsClosure closure) : (p.capturedFields closure).Nodup := by
  obtain ⟨own, hd, -⟩ := hc
  rw [capturedFields, fieldsOf_of_struct hd]
  refine ((hp.hasFields hd).apart.filter _).imp_of_mem ?_
  rintro f g hf - hapart rfl
  obtain ⟨captured, hcap⟩ := Option.isSome_iff_exists.1 (List.mem_filter.1 hf).2
  exact hapart captured captured hcap hcap rfl

/-- A closure with the fields that it had keeps in them what it kept. -/
theorem Later.capturedFields_eq (h : p.Later q) (hp : p.Sound) (hc : p.IsClosure closure)
    (hf : q.fieldsOf closure = p.fieldsOf closure) : q.capturedFields closure = p.capturedFields closure := by
  obtain ⟨own, hd, -⟩ := hc
  rw [capturedFields, capturedFields, hf, fieldsOf_of_struct hd]
  refine List.filter_congr fun f hm => ?_
  obtain ⟨field, hfield, -⟩ := (hp.hasFields hd).own f hm
  rw [h.captureSource? (by rw [hfield]; rfl)]

theorem fieldsOf_appendField_of_ne {owner field : SymbolId} (hne : owner ≠ closure) :
    (p.appendField owner field).fieldsOf closure = p.fieldsOf closure := by
  have hd : (p.appendField owner field).decl closure = p.decl closure := by
    unfold appendField modifyStruct
    split
    · exact decl_setDecl_of_ne _ _ hne
    · exact decl_setDecl_of_ne _ _ hne
    · rfl
  rw [fieldsOf, fieldsOf, struct?, struct?, hd]

theorem fieldsOf_addSymbol_of_lt {x : Symbol} (hlt : closure.index < p.symbols.size) :
    (p.addSymbol x).fieldsOf closure = p.fieldsOf closure := by
  rw [fieldsOf, fieldsOf, struct?, struct?, decl_addSymbol_of_lt p x hlt]

/-- A place does not lie in a struct. -/
def Beside (p : Program) (place : ScopeId) (closure : SymbolId) : Prop :=
  ∀ sc, (p.symbol closure).ownScope = some sc → ¬ p.Inside place sc

theorem Later.beside (h : p.Later q) {place : ScopeId} (hlt : closure.index < p.symbols.size)
    (hs : place.index < p.scopes.size) : q.Beside place closure ↔ p.Beside place closure := by
  rw [Beside, Beside, h.ownScope closure hlt]
  refine forall₂_congr fun sc _ => ?_
  rw [Inside, Inside, h.ancestors hs]

end Program

namespace BindM

variable {k : Nat} {c g : Context} {s : BindState}

/-! ## Closures beside the place -/

section beside

variable {pos : Span} {closure : SymbolId} {fields : List SymbolId}

theorem captureField_fieldsOf {owner origin source : SymbolId} {ty : Ty} (hlt : closure.index < s.program.symbols.size)
    (hne : owner ≠ closure) (hs : s.program.fieldsOf closure = fields) :
    Ends (captureField owner origin source ty pos) c s (fun t => t.program.fieldsOf closure = fields)
      fun _ _ => True := by
  refine .ask_bind ?_
  split
  · exact .pure hs trivial
  · refine .of_run rfl ?_ trivial
    rw [← hs]
    exact (Program.fieldsOf_appendField_of_ne hne).trans (Program.fieldsOf_addSymbol_of_lt hlt)

/-- Only the closures around a place get fields on the way from it to a variable. -/
theorem captureThrough_fieldsOf {x : SymbolId} {ty : Ty} {place : ScopeId} :
    ∀ {rest done : List SymbolId} {hops : List CaptureHop} {s : BindState}, Ready k g s →
      (s.program.decl x).valueType? = some ty → Crossed s.program x place done rest hops →
      place.index < s.program.scopes.size → closure.index < s.program.symbols.size → s.program.Beside place closure →
      s.program.fieldsOf closure = fields →
      Ends (captureThrough x ty pos rest (sourceAfter x hops) hops) c s (fun t => t.program.fieldsOf closure = fields)
        fun _ _ => True
  | [], _, _, _, _, _, _, _, _, _, hs => .pure hs trivial
  | f :: rest, done, hops, s, hg, hty, h, hplace, hlt, hb, hs => by
    obtain ⟨own, owner, outer, hf, hown, hscope, haround, hcap, hinside, hkeep⟩ := h.next hg.sound.program hty
    have hne : owner ≠ closure := by
      rintro rfl
      exact hb outer hscope haround
    refine .ask_bind ?_
    rw [hf, Option.bind_some, hown]
    refine .bind ((captureField_fieldsOf hlt hne hs).and (captureField_ends hg hkeep hscope hcap).and_reach) ?_
    rintro field t hsame ⟨-, ht, hfield⟩
    obtain ⟨hown', hnext⟩ := h.advance hg ht hty hf hown hscope (hkeep 0 none).closure hinside hfield
    refine .ask_bind ?_
    rw [hown']
    have hsource : sourceAfter x (hops ++ [⟨outer, field⟩]) = field := by simp [sourceAfter]
    nth_rewrite 1 [← hsource]
    exact captureThrough_fieldsOf (ht.ready hg) (ht.later.valueType hty) hnext
      (Nat.lt_of_lt_of_le hplace ht.later.scopes.size) (Nat.lt_of_lt_of_le hlt ht.later.symbols)
      ((ht.later.beside hlt hplace).2 hb) hsame

theorem variableReference_fieldsOf {x : SymbolId} (hc : Ready k c s) (hlt : closure.index < s.program.symbols.size)
    (hb : s.program.Beside c.scope closure) (hs : s.program.fieldsOf closure = fields) :
    Ends (variableReference x pos) c s (fun t => t.program.fieldsOf closure = fields) fun _ _ => True := by
  refine .ask_bind ?_
  split
  · rename_i ty hty
    refine .read_bind (.ask_bind (.ask_bind ?_))
    split
    · exact .ask_bind (.ask_bind (.run_bind rfl (.failure hs)))
    · rename_i hnone
      refine .bind (?_ : Ends _ c s _ fun _ _ => True) fun way t ht _ => .of_run rfl ht trivial
      rw [crossedFunctions_eq] at hnone ⊢
      split
      · rw [if_pos ‹_›] at hnone
        exact captureThrough_fieldsOf hc hty (.start (by simpa using hnone)) hc.scope hlt hb hs
      · exact .pure hs trivial
  · exact .failure hs

/-- **Reading leaves the closures alone that do not lie around the place.** -/
theorem reference_fieldsOf {x : SymbolId} (hc : Ready k c s) (hlt : closure.index < s.program.symbols.size)
    (hb : s.program.Beside c.scope closure) (hs : s.program.fieldsOf closure = fields) :
    Ends (reference x pos) c s (fun t => t.program.fieldsOf closure = fields) fun _ _ => True := by
  refine .ask_bind ?_
  split
  · refine .read_bind (.ask_bind ?_)
    split
    · exact .bind (variableReference_fieldsOf hc hlt hb hs) fun this t ht _ => .of_run rfl ht trivial
    · exact .ask_bind (.run_bind rfl (.failure hs))
  · exact variableReference_fieldsOf hc hlt hb hs

theorem capturedValue_fieldsOf {owner field : SymbolId} {captured : CaptureSource} (hc : Ready k c s)
    (hlt : closure.index < s.program.symbols.size) (hb : s.program.Beside c.scope closure)
    (hs : s.program.fieldsOf closure = fields) :
    Ends (capturedValue owner field captured pos) c s (fun t => t.program.fieldsOf closure = fields)
      fun _ _ => True := by
  refine .read_bind (.ask_bind (.ite (fun _ => ?_) fun _ => .ask_bind (.ask_bind (.run_bind rfl (.failure hs)))))
  exact (reference_fieldsOf hc hlt hb hs).map fun _ _ _ _ => trivial

end beside

/-! ## Filling closures -/

/-- A field and a value of its type, which is not retyped. -/
structure Filled (k : Nat) (c : Context) (t : BindState) (entry : SymbolId × NodeId) : Prop where
  held : Kept k c t entry.2
  settled : ¬ t.program.Adaptable entry.2
  type : ∃ own, t.program.field? entry.1 = some own ∧ (t.program.node entry.2).ty = own.ty

theorem Filled.mono {t u : BindState} {entry : SymbolId × NodeId} {k' : Nat} (h : Filled k c t entry) (hc : Ready k c t)
    (ht : At k' t u) : Filled k c u entry where
  held := h.held.mono hc ht
  settled := by rw [ht.later.adaptable h.held.range]; exact h.settled
  type := by
    obtain ⟨own, hf, hty⟩ := h.type
    exact ⟨own, ht.later.field hf, by rw [ht.later.type _ h.held.range h.settled, hty]⟩

theorem capturedValue_ends {owner field : SymbolId} {own : FieldDecl} {captured : CaptureSource} {pos : Span}
    (hc : Ready k c s) (hf : s.program.field? field = some own) (hk : s.program.Keeping own captured) :
    Ends (capturedValue owner field captured pos) c s (At k s) fun r t => Filled k c t r := by
  refine .read_bind (.ask_bind (.ite (fun hin => ?_) fun _ => .ask_bind (.ask_bind (fail_ends (.start hc) _ _ _ _))))
  have hsource : s.program.InSight c.scope captured.source ∧
      (s.program.decl captured.source).valueType? = some own.ty := by
    rcases hk.source with hs | ⟨outer, hs, hty⟩
    · rw [hs]
      exact ⟨fun _ => .inl (by simpa [Program.isWithin] using hin), hk.type⟩
    · rw [Program.InSight, Program.field?_eq_some.1 hs]
      exact ⟨by rintro ⟨⟩, congrArg some hty⟩
  refine (reference_ends hc hsource.1).map fun n t ht hn => ⟨hn.result.held, hn.settled, own, ht.later.field hf, ?_⟩
  exact hn.type _ hsource.2

/-- A captured field that was there at the start can be filled at any state after it. -/
theorem capturedValue_of_mem {owner : SymbolId} {e : SymbolId × CaptureSource} {pos : Span} {t : BindState}
    (hc : Ready k c s) (ht : At k s t) (hm : e ∈ (s.program.fieldsOf owner).filterMap fun field =>
      (s.program.captureSource? field).map fun captured => (field, captured)) :
    Ends (capturedValue owner e.1 e.2 pos) c t (At k t) fun r u => Filled k c u r := by
  obtain ⟨field, captured⟩ := e
  simp only [List.mem_filterMap, Option.map_eq_some_iff, Prod.mk.injEq] at hm
  obtain ⟨field', -, captured', hcap, rfl, rfl⟩ := hm
  obtain ⟨own, hf, hcap⟩ := Program.captureSource?_eq_some.1 hcap
  have hf := ht.later.field hf
  exact capturedValue_ends (ht.ready hc) hf ((ht.sound.program.field hf).2 captured' hcap)

/-- **A closure starts with what it captures**: every field that keeps a variable then is filled, in order. -/
theorem capturedValues_ends {owner : SymbolId} {pos : Span} (hc : Ready k c s) :
    Ends (capturedValues owner pos) c s (At k s) fun values t =>
      (∀ v ∈ values, Filled k c t v) ∧ values.map (·.1) = s.program.capturedFields owner := by
  have hfield : ∀ (e : SymbolId × CaptureSource) t, Ends (capturedValue owner e.1 e.2 pos) c t (fun _ => True)
      fun r _ => r.1 = e.1 := fun e t =>
    .read_bind (.ask_bind (.ite (fun _ => .map (.unknown _) fun _ _ _ _ => rfl) fun _ =>
      .ask_bind (.ask_bind (.run_bind rfl (.failure trivial)))))
  have hfields : ((s.program.fieldsOf owner).filterMap fun field => (s.program.captureSource? field).map fun captured =>
      (field, captured)).map (·.1) = s.program.capturedFields owner := by
    rw [Program.capturedFields, ← List.filterMap_eq_filter, List.map_filterMap]
    congr 1
    funext field
    cases hcap : s.program.captureSource? field <;> simp [Option.guard, hcap]
  rw [← hfields]
  exact .ask_bind (.and (mapM_ends hc (fun _ t u ht htu h => h.mono (ht.ready hc) htu) fun e hm t ht =>
    capturedValue_of_mem hc ht hm) (mapM_image hfield _ s))

/-- Filling a closure leaves all closures alone that do not lie around the place. -/
theorem capturedValues_fieldsOf {owner closure : SymbolId} {pos : Span} (hc : Ready k c s)
    (hlt : closure.index < s.program.symbols.size) (hb : s.program.Beside c.scope closure) :
    Ends (capturedValues owner pos) c s (fun t => t.program.fieldsOf closure = s.program.fieldsOf closure)
      fun _ _ => True := by
  refine .ask_bind (mapM_reach hc rfl fun e hm t ht hs => ⟨(capturedValue_of_mem hc ht hm).mono fun _ _ _ _ => trivial, ?_⟩)
  exact capturedValue_fieldsOf (ht.ready hc) (Nat.lt_of_lt_of_le hlt ht.later.symbols)
    ((ht.later.beside hlt hc.scope).2 hb) hs

/-- A value of a closure, made of what it was given and of what it keeps at a state `u`. -/
structure ClosureValue (c : Context) (pos : Span) (closure : SymbolId) (given values : List (SymbolId × NodeId))
    (u t : BindState) (n : NodeId) : Prop where
  node : t.program.node n = ⟨pos, .direct closure, .initializer (given ++ values)⟩
  fields : values.map (·.1) = u.program.capturedFields closure
  types : ∀ v ∈ values, ∃ own, t.program.field? v.1 = some own ∧ (t.program.node v.2).ty = own.ty
  once : t.program.IsClosure closure → (values.map (·.1)).Nodup
  whole : t.program.IsClosure closure → t.program.Beside c.scope closure →
    values.map (·.1) = t.program.capturedFields closure

/-- What is captured is read, and the initializer is made of it. -/
theorem makeClosure_ends {w : Prop} {pos : Span} {closure : SymbolId} (given : List (SymbolId × NodeId)) (hc : Ready k c s)
    (hlt : closure.index < s.program.symbols.size) (hg : ∀ e ∈ given, s.program.Finished e.1 ∧ Kept k c s e.2 w) :
    Ends (do addNode pos (.direct closure) (.initializer (given ++ (← capturedValues closure pos)))) c s (At k s)
      fun n t => Result k c t n w ∧ ∃ values, ClosureValue c pos closure given values s t n := by
  refine .next (.start hc) (Nat.le_refl k) (capturedValues_ends hc).and_run ?_
  rintro values t ht - ⟨hrun, hfilled, hfields⟩
  have hkids : ∀ m ∈ (NodeKind.initializer (given ++ values)).children, Kept k c t m w := by
    simp only [NodeKind.children, List.map_append, List.mem_append, List.mem_map]
    rintro _ (⟨e, he, rfl⟩ | ⟨e, he, rfl⟩)
    · exact (hg e he).2.mono hc ht
    · exact (hfilled e he).held.imp fun _ => trivial
  have hnamed : ∀ x ∈ (NodeKind.initializer (given ++ values)).symbols, t.program.Finished x := by
    simp only [NodeKind.symbols, List.map_append, List.mem_append, List.mem_map]
    rintro _ (⟨e, he, rfl⟩ | ⟨e, he, rfl⟩)
    · exact ht.later.finished (hg e he).1
    · obtain ⟨own, hf, -⟩ := (hfilled e he).type
      exact .of_field hf
  refine .last ht (Nat.le_refl k) (.and_run (addMade_ends (ht.ready hc) rfl (by rintro ⟨⟩) (by rintro _ ⟨⟩) trivial hkids
    hnamed trivial)) ?_
  rintro n u hu - ⟨⟨⟩, hmade⟩
  refine ⟨hmade.result, values, Program.node_addNode_next _ _, hfields, fun e he => ?_, fun hclosure => ?_,
    fun hclosure hb => ?_⟩
  · obtain ⟨own, hf, hty⟩ := (hfilled e he).type
    refine ⟨own, hf, ?_⟩
    rw [← hty]
    exact congrArg Node.ty (Program.node_addNode_of_lt _ _ (hfilled e he).held.range)
  · rw [hfields]
    exact hc.sound.program.nodup_capturedFields (hu.later.isClosure_of_later hlt hclosure)
  · have hclosure := hu.later.isClosure_of_later hlt hclosure
    have hends : Ends (capturedValues closure pos) c s _ _ :=
      capturedValues_fieldsOf hc hlt ((hu.later.beside hlt hc.scope).1 hb)
    have hreach := hends.reach
    rw [hrun] at hreach
    rw [hfields]
    exact (hu.later.capturedFields_eq hc.sound.program hclosure hreach).symm

end BindM

end Bindery
