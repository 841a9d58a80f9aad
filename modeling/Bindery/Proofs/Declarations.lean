import Bindery.Proofs.Trees
/-!
# Declarations

Enums, foreign functions, aliases, imports and fields are declared in order: an alias stands for something in sight that
is no alias, and the default value of a field names what is in sight at the field and does not return.
-/
namespace Bindery

/-- What is seen right in a struct is in sight there, for no function has its statements in a struct. -/
theorem Program.Sound.inSight_of_seen {p : Program} (hp : p.Sound) {sc : ScopeId} {x : SymbolId}
    (hk : (p.scope sc).kind = .struct) (hv : p.Seen sc x) : p.InSight sc x := by
  have hR : p.region? sc = some sc := region?_of_ne_block _ (by rw [hk]; simp)
  intro _
  rcases hv with he | hr | ⟨R, hR', -, ha⟩
  · exact .inr he
  · refine .inr (.early fun f hh => ?_)
    obtain ⟨hf, R, hR', hown⟩ := hh
    rw [hr, hR] at hR'
    cases hR'
    obtain ⟨own, hf⟩ := Option.isSome_iff_exists.1 hf
    rcases hown with ho | ⟨m, own', hm, -, ho⟩
    · have hfun := ((hp.admits f (lt_of_ownScope ho)).own sc ho).2.2.2 ⟨own, function?_eq_some.1 hf⟩
      rw [hk] at hfun
      cases hfun
    · have hmod := (hp.module hm).2.1 sc ho
      rw [hk] at hmod
      cases hmod
  · rw [hR] at hR'
    cases hR'
    exact .inl ha

namespace BindM

variable {floor : Floor} {k : Nat} {c : Context} {s₀ s : BindState} {room : Room} {pos : Span} {sc : ScopeId}

/-! ## Enums -/

theorem memberValue_ends {tree : Syntax} (hr : room.Good) (hc : Ready k c s) (hsc : sc.index < s.program.scopes.size) :
    Ends (memberValue room sc pos tree) c s (At k s) fun _ _ => True := by
  have hready : Ready k { c with scope := sc } s := { hc with scope := hsc }
  have hvalue : Ends (attempt (room.inScope sc pos fun level => level.value tree)) c s (At k s) fun _ _ => True :=
    .tried (inScope_ends hr (.start hready) fun level hl =>
      .last (.start hready) hready.le ((hl.value tree).ends hready) fun _ _ _ _ _ => trivial)
  refine .bind hvalue fun node t ht _ => .ask_bind ?_
  split
  · exact .pure ht trivial
  · exact fail_ends ht _ _ _ _

theorem bindMembers_ends {ty : Ty} {bits : Nat} {signed : Bool} (hr : room.Good) :
    ∀ {members : List EnumMember} {next : Int} {s : BindState}, Ready k c s → sc.index < s.program.scopes.size →
      s.program.constScalar? ty = some (.int bits signed) →
      Ends (bindMembers room sc ty bits signed members next) c s (At k s) fun _ _ => True
  | [], _, _, hc, _, _ => .pure (.start hc) trivial
  | member :: rest, next, s, hc, hsc, hty => by
    have hlt : ∀ {t}, At k s t → sc.index < t.program.scopes.size := fun ht =>
      Nat.lt_of_lt_of_le hsc ht.later.scopes.size
    have hmember : ∀ (given : Int) t, At k s t → Ends (do
        let value := wrapInt given bits signed
        let node ← addNode member.pos ty (.literal (.int value) false)
        let symbol ← attempt (declare sc
          { name := member.name, scope := sc, pos := member.pos, decl := .constAlias .define node })
        let members ← bindMembers room sc ty bits signed rest (value + 1)
        return symbol.toList.map (·, .int value) ++ members) c t (At k s) fun _ _ => True := by
      intro given t ht
      have hvalue : t.program.Inhabits ty (.int (wrapInt given bits signed)) := by
        obtain ⟨h0, hle⟩ := hc.sound.program.standard.width hty
        exact ⟨bits, signed, ht.later.constScalar? hty, wrapInt_inRange h0 (by omega) given signed⟩
      refine .next ht (Nat.le_refl k) (addFixed_ends (ht.ready hc) hvalue) fun node u hu _ hn => ?_
      refine .bind (.attempt (declare_ends hu (.constant (hlt hu) hn.1.held.range hn.1.held.floor (fun hcoh =>
        hn.1.natural (hu.coherent hcoh).natural) hn.2))) fun x v hv _ => ?_
      exact .next hv (Nat.le_refl k) (bindMembers_ends hr (hv.ready hc) (hlt hv) (hv.later.constScalar? hty))
        fun _ w hw _ _ => .pure hw trivial
    unfold bindMembers
    cases member.value with
    | none => exact .pure_bind (hmember next s (.start hc))
    | some tree =>
      refine .bind (.tried (memberValue_ends hr hc hsc)) fun given t ht _ => ?_
      cases given with
      | none =>
        exact .last ht (Nat.le_refl k) (bindMembers_ends hr (ht.ready hc) (hlt ht) (ht.later.constScalar? hty))
          fun _ _ _ _ h => h
      | some given => exact hmember given t ht

theorem declareEnum_ends {base : Ty} {source : EnumDef} (hr : room.Good) (hc : Ready k c s) :
    Ends (do
      let some (.int bits signed) ← ask (·.scalar? base) | fail source.pos .enumBaseNotIntegral [← typeName base]
      let own ← addScope .enum c.scope
      let symbol ← declare c.scope
        { name := source.name, scope := c.scope, ownScope := own, pos := source.pos, decl := .enum { base } }
      setOwner own symbol
      let members ← bindMembers room own (.direct symbol) bits signed source.members 0
      modifyProgram (·.setDecl symbol (.enum { base, members }))) c s (At k s) fun _ _ => True := by
  refine .ask_bind ?_
  split
  · rename_i bits signed hbase
    refine declareOpened_bind (.start hc) hc.scope (by simp) (by simp) ⟨bits, signed, hbase⟩ rfl (by simp)
      fun sc id t ht ho => ?_
    have hty : t.program.constScalar? (.direct id) = some (.int bits signed) := by
      simpa [Program.constScalar?, Program.typeDecl?, Ty.symbol?, ho.decl] using ht.later.scalar? hbase
    refine .next ht (Nat.le_refl _) (bindMembers_ends hr (ht.ready hc) ho.range hty) fun members u hu htu _ => ?_
    obtain ⟨own, hd, hb⟩ := htu.later.enum ho.decl
    exact .of_run rfl (hu.amend_of_ne (hu.sound.program.amends_enum hd hb.symm) (by simp) (by simp)) trivial
  · exact .ask_bind (fail_ends (.start hc) _ _ _ _)

/-- **An enum is declared over an integer type.** -/
theorem bindEnum_closed {base : Option Part} {source : EnumDef} (hr : room.Good)
    (hb : ∀ part, base = some part → part.Good) : (bindEnum room base source).Closed fun _ _ _ _ => True := by
  intro c s hc
  refine .read_bind ?_
  cases base with
  | none => exact .pure_bind (declareEnum_ends hr hc)
  | some part =>
    exact .bind ((hb part rfl).type hr c s hc) fun base t ht _ =>
      .last ht (Nat.le_refl _) (declareEnum_ends hr (ht.ready hc)) fun _ _ _ _ h => h

/-! ## Foreign functions -/

theorem bindForeignParam_ends {level : Level} {function : String} {param : Param} {index : Nat} (hl : level.Good)
    (hc : Ready k c s) (hsc : sc.index < s.program.scopes.size) (hk : (s.program.scope sc).kind = .function) :
    Ends (do
      let ty ← match param.type, param.vararg with
        | some tree, false => level.type tree
        | _, _ => fail param.pos .foreignParameterType [function]
      declare sc { name := param.name, scope := sc, pos := param.pos, decl := .parameter ty index }) c s (At k s)
      fun _ _ => True := by
  split
  · refine .next (.start hc) hc.le ((hl.type _).ends hc) fun ty t ht _ _ => ?_
    have hmod : (t.program.scope sc).kind ≠ .module := by rw [ht.later.scopes.kind sc hsc, hk]; simp
    have hlt := Nat.lt_of_lt_of_le hsc ht.later.scopes.size
    exact .mono (declare_ends ht (.of_inOrder hlt hmod rfl)) fun _ _ _ _ => trivial
  · exact fail_bind_ends (.start hc) _ _ _ _

theorem bindForeignParams_ends {level : Level} {function : String} (hl : level.Good) :
    ∀ {params : List Param} {index : Nat} {s : BindState}, Ready k c s → sc.index < s.program.scopes.size →
      (s.program.scope sc).kind = .function →
      Ends (bindForeignParams level sc function params index) c s (At k s) fun _ _ => True
  | [], _, _, hc, _, _ => .pure (.start hc) trivial
  | param :: rest, index, s, hc, hsc, hk => by
    have hlt : ∀ {t}, At k s t → sc.index < t.program.scopes.size := fun ht =>
      Nat.lt_of_lt_of_le hsc ht.later.scopes.size
    have hkind : ∀ {t}, At k s t → (t.program.scope sc).kind = .function := fun ht => by
      rw [ht.later.scopes.kind sc hsc, hk]
    refine .bind (.tried (bindForeignParam_ends hl hc hsc hk)) fun x t ht _ => ?_
    exact .next ht (Nat.le_refl k) (bindForeignParams_ends hl (ht.ready hc) (hlt ht) (hkind ht)) fun _ u hu _ _ =>
      .pure hu trivial

/-- A function without a body gets its parameters and its return type. -/
theorem setSignature_ends {f : SymbolId} {role : Role} {params : List SymbolId} {ret : Ty} (hs : Via floor s₀ s)
    (hb : Begun s f role sc) (hm : ∀ e ∈ s.program.memo, e.2 ≠ f) (hnew : s₀.program.symbols.size ≤ f.index) :
    Ends (modifyProgram (·.modifyFunction f ({ · with params, ret := some ret }))) c s (Via floor s₀) fun _ _ => True := by
  obtain ⟨own, ho, hbody, -⟩ := hb.function
  refine .mono (modifyFunction_ends hs ho ?_ fun a _ ha => ?_) fun _ _ _ _ => trivial
  · refine hs.sound.program.amends_function (Program.function?_eq_some.1 ho) rfl rfl rfl (fun _ => rfl)
      (hs.sound.program.function ho).1 (fun n hn => ?_) (by rintro ⟨⟩) (fun e he hid => absurd hid (hm e he)) fun _ => rfl
    rw [show own.body = [] from hbody] at hn
    cases hn
  · exact absurd (Program.lt_of_function ha) (Nat.not_lt.2 hnew)

theorem declareForeign_ends {abi name : String} {source : FunctionDef} (hr : room.Good) (hc : Ready k c s) :
    Ends (do
      let modifiers ← inheritModifiers source.modifiers
      let own ← addScope .function c.scope
      let symbol ← declare c.scope
        { name, scope := c.scope, ownScope := own, pos := source.pos, decl := .function { role := .plain, abi, modifiers } }
      setOwner own symbol
      room.inContext own (some symbol) modifiers source.pos fun level => do
        let params ← bindForeignParams level own name source.params 0
        let ret ← match source.returnType with
          | some tree => do pure ((← attempt (level.type tree)).getD .unknown)
          | none => pure .void
        modifyProgram (·.modifyFunction symbol ({ · with params, ret := some ret }))) c s (At k s) fun _ _ => True := by
  refine .read_bind (declareOpened_bind (.start hc) hc.scope (by simp) (by simp) ?_ rfl (by simp) ?_)
  · exact ⟨.of_role rfl, by rintro _ ⟨⟩, by rintro _ ⟨⟩, fun _ => rfl⟩
  intro sc id t ht ho
  have hfun := Program.function?_eq_some.2 ho.decl
  have hb : Begun t id .plain sc := ⟨by rw [ho.symbol], ho.owner, _, hfun, rfl, rfl⟩
  have hnew : s.program.symbols.size ≤ id.index := by rw [ho.next]; exact Nat.le_refl _
  have hset : ∀ params ret u g, At t.program.nodes.size t u → Ends (modifyProgram (·.modifyFunction id
      ({ · with params, ret := some ret }))) g u (At k s) fun _ _ => True := by
    intro params ret u g htu
    refine setSignature_ends (ht.trans htu ht.le_size) (hb.mono htu) (fun e he heq => ?_) hnew
    rcases htu.frame.memo e he with he | hle
    · exact ho.unrecorded hc.sound e he heq
    · rw [heq] at hle
      exact Nat.not_lt.2 hle hb.lt
  refine inContext_ends hr ht fun level hl => ?_
  have hready := hb.ready ht.sound
  refine .next ht ht.le_size (bindForeignParams_ends hl (hready _) ho.range ho.ownKind) fun params u hu htu _ => ?_
  cases source.returnType with
  | none => exact .pure_bind (hset params .void u _ htu)
  | some tree =>
    refine .next hu hu.le_size (.tried ((hl.type tree).ends (htu.ready (hready _)))) fun ret v hv huv _ => ?_
    exact .pure_bind (hset params _ v _ (htu.trans huv htu.later.nodes))

/-- **A foreign function has parameters and a return type, but no body.** -/
theorem bindForeignFunction_closed {abi : String} {source : FunctionDef} (hr : room.Good) :
    (bindForeignFunction room abi source).Closed fun _ _ _ _ => True := by
  intro c s hc
  refine .read_bind (.next (.start hc) (Nat.le_refl _) (functionName_ends hc source) fun name t ht _ _ => ?_)
  refine .ite (fun _ => .bind (error_ends ht _ _ _) fun _ u hu _ => ?_) fun _ => ?_
  · exact .last hu (Nat.le_refl _) (declareForeign_ends hr (hu.ready hc)) fun _ _ _ _ h => h
  · exact .last ht (Nat.le_refl _) (declareForeign_ends hr (ht.ready hc)) fun _ _ _ _ h => h

theorem bindForeign_closed {abi : String} {tree : Syntax} (hr : room.Good) :
    (bindForeign room abi tree).Closed fun _ _ _ _ => True := by
  unfold bindForeign
  split
  · exact bindForeignFunction_closed hr
  · exact fun c s hc => fail_ends (.start hc) _ _ _ _

/-! ## Aliases and imports -/

/-- An alias of a symbol may be declared in a scope. -/
structure Nameable (p : Program) (sc : ScopeId) (x : SymbolId) : Prop where
  range : x.index < p.symbols.size
  plain : ∀ tag t, p.decl x ≠ .valueAlias tag t
  inSight : p.InSight sc x

/-- What is neither an alias nor a variable. -/
theorem Nameable.of_decl {p : Program} {x : SymbolId} (hv : (p.decl x).isVariable = false)
    (hb : p.decl x ≠ .builtin .void) (ha : ∀ tag t, p.decl x ≠ .valueAlias tag t) : Nameable p sc x :=
  ⟨Program.lt_of_decl hb, ha, fun h => by rw [hv] at h; cases h⟩

theorem Nameable.resolveAlias {p : Program} (hp : p.Sound) {x : SymbolId}
    (h : x.index < p.symbols.size ∧ p.InSight sc (p.resolveAlias x)) : Nameable p sc (p.resolveAlias x) :=
  ⟨(hp.resolveAlias_spec h.1).1, (hp.resolveAlias_spec h.1).2, h.2⟩

/-- A declaration that an alias may have at a place. -/
def Decl.AliasIn (k : Nat) (c : Context) (s : BindState) : Decl → Prop
  | .typeAlias .. => True
  | .constAlias _ n => Passed k c s n ∧ (s.program.constValue? n).isSome
  | .valueAlias _ x => Nameable s.program c.scope x
  | _ => False

theorem Decl.AliasIn.declarable {name : String} {d : Decl} (hs : At k s₀ s) (hc : Ready k c s)
    (h : Decl.AliasIn k c s d) : Declarable (s₀.floor k) s c.scope { name, scope := c.scope, pos, decl := d } := by
  have hsc := hc.scope
  cases d with
  | typeAlias => exact .of_inOrder hsc trivial rfl
  | constAlias =>
    obtain ⟨hn, hm⟩ := h
    exact .constant hsc hn.range hn.floor (fun hcoh => hn.natural trivial (hs.coherent hcoh).natural) hm
  | valueAlias => exact .of_inOrder hsc ⟨h.range, h.plain, h.inSight⟩ rfl
  | _ => cases h

theorem valueAlias_ends {tag : AliasTag} {n : NodeId} (hc : Ready k c s) (hn : Result k c s n) :
    Ends (valueAlias tag pos n) c s (At k s) fun d t => Decl.AliasIn k c t d := by
  refine .ask_bind ?_
  split
  · rename_i x hk
    obtain ⟨hlt, hne, -⟩ := (hc.sound.program.fits n hn.held.range).named x [] hk
    exact .pure (.start hc) ⟨hlt, hne, hn.visible x hk⟩
  · refine .ask_bind (.ite (fun hm => ?_) fun _ => fail_ends (.start hc) _ _ _ _)
    exact .run_bind (markConstant_run hm) (.pure (.start hc) ⟨hn.passed, hm⟩)

/-- **An alias stands for something in sight.** -/
theorem bindAlias_closed {name : String} {target : Part} {tag : AliasTag} (htarget : target.Good) :
    (bindAlias pos name target tag).Closed fun _ _ _ _ => True := by
  intro c s hc
  have hdecl : ∀ d t, At s.program.nodes.size s t → Decl.AliasIn s.program.nodes.size c t d →
      Ends (discard (declare c.scope { name, scope := c.scope, pos, decl := d })) c t (At s.program.nodes.size s)
        fun _ _ => True := fun d t ht hd =>
    .discard (declare_ends ht (hd.declarable ht (ht.ready hc)))
  refine .read_bind (.bind (htarget c s hc) fun o t ht ho => ?_)
  cases o with
  | type ty => exact .pure_bind (hdecl _ t ht trivial)
  | module x =>
    obtain ⟨own, ho⟩ := Option.isSome_iff_exists.1 ho
    rw [Program.module?_eq_some] at ho
    exact .pure_bind (hdecl _ t ht (.of_decl (by rw [ho]; rfl) (by simp [ho]) (by simp [ho])))
  | value n =>
    exact .next ht (Nat.le_refl _) (valueAlias_ends (ht.ready hc) ho) fun d u hu _ hd => hdecl d u hu hd
  | callable x receiver =>
    cases receiver with
    | some n => exact fail_bind_ends ht _ _ _ _
    | none =>
      refine .pure_bind (hdecl _ t ht ?_)
      have hcall := ho.1
      unfold Program.isCallable at hcall
      split at hcall <;> cases hcall
      all_goals
        rename_i hd
        exact .of_decl (by rw [hd]; rfl) (by simp [hd]) (by simp [hd])

theorem importMember_ends (hr : room.Good) : ∀ {segments : List String} {x : SymbolId} {path : String} {s : BindState},
    Ready k c s → Nameable s.program c.scope x →
    Ends (importMember room pos segments x path) c s (At k s) fun y t => Nameable t.program c.scope y
  | [], _, _, _, hc, hx => .pure (.start hc) hx
  | segment :: rest, x, path, s, hc, _ => by
    refine .bind (.attempt (moduleScope_ends hr hc)) fun sc t ht hsc => ?_
    cases sc with
    | none => exact fail_ends ht _ _ _ _
    | some sc =>
      have hk := hsc sc rfl
      refine .ask_bind ?_
      split
      · rename_i member hm
        refine .ask_bind ?_
        have hsight := ht.sound.program.inSight_of_member c.scope (by rw [hk]; simp) hm fun _ => by rw [hk]; simp
        exact .last ht (Nat.le_refl k) (importMember_ends hr (ht.ready hc) (.resolveAlias ht.sound.program hsight))
          fun _ _ _ _ h => h
      · exact fail_ends ht _ _ _ _

theorem bindImport_closed {path : List String} {rename : Option String} (hr : room.Good) :
    (bindImport room pos path rename).Closed fun _ _ _ _ => True := by
  intro c s hc
  refine .read_bind ?_
  cases path with
  | nil => exact .pure (.start hc) trivial
  | cons first rest =>
    refine .ask_bind ?_
    cases hl : s.program.lookup? c.scope first with
    | none => exact fail_ends (.start hc) _ _ _ _
    | some found =>
      have hp := hc.sound.program
      refine .ask_bind (.ask_bind (.ite (fun _ => fail_bind_ends (.start hc) _ _ _ _) fun _ => ?_))
      refine .bind (importMember_ends hr hc (.resolveAlias hp (hp.inSight_of_lookup hl))) fun target t ht ht' => ?_
      exact .discard (declareImported_ends ht (Decl.AliasIn.declarable (d := .valueAlias _ _) ht (ht.ready hc) ht'))

/-! ## Fields -/

theorem applySteps_silent : ∀ {steps : List CastStep} {constant : Bool} {s : BindState} {n : NodeId},
    (∀ ty, ¬ s.program.Returns n ty) →
    Ends (applySteps pos steps constant n) c s (fun _ => True) fun m t => ∀ ty, ¬ t.program.Returns m ty
  | [], _, _, _, hv => .pure trivial hv
  | step :: rest, _, _, n, _ => by
    have hkind : (step.nodeKind n).holdsReturn = false := by
      unfold CastStep.nodeKind
      split <;> rfl
    refine .bind (addNode_silent hkind) fun made t _ hm => .ite (fun _ => ?_) fun _ => applySteps_silent hm
    exact .bind (addNode_silent rfl) fun marked u _ hk => applySteps_silent hk

/-- A converted value returns nothing if the value does not. -/
theorem coerce_silent {n : NodeId} {target : Ty} (hv : ∀ ty, ¬ s.program.Returns n ty) :
    Ends (coerce n target) c s (fun _ => True) fun m t => ∀ ty, ¬ t.program.Returns m ty := by
  refine .ask_bind (.ask_bind (.ite (fun _ => .failure trivial) fun _ => .ask_bind ?_))
  split
  · exact .ask_bind (applySteps_silent hv)
  · exact .ask_bind (.ask_bind (.run_bind rfl (.failure trivial)))

/-- The value that a field starts with does not return. -/
theorem fieldDefault_closed {value : Option Part} (hr : room.Good) (hv : ∀ part, value = some part → part.Good) :
    (fieldDefault room value).Closed fun k c t r =>
      ∀ n, r = some n → Kept k c t n ∧ ∀ ty, ¬ t.program.Returns n ty := by
  intro c s hc
  refine .mapOption (.start hc) fun part hp => ?_
  refine .bind ((hv part hp).value hr c s hc) ?_
  rintro n t ht ⟨hn, hnv⟩
  have hsilent : ∀ ty, ¬ t.program.Returns n ty := fun ty hret => hnv (ht.sound.program.void_of_returns hret)
  exact .last ht (Nat.le_refl _) ((readThrough_ends (ht.ready hc) hn.held).and (readThrough_silent hsilent))
    fun m u _ _ hm => ⟨hm.1.held, hm.2⟩

/-- **The default value of a field names what is in sight at the field.** -/
theorem bindField_ends {owner : SymbolId} {name : String} {type value : Option Part} {own : Modifiers} (hr : room.Good)
    (ht : ∀ part, type = some part → part.Good) (hv : ∀ part, value = some part → part.Good)
    (hc : Ready s.program.nodes.size c s) (hk : (s.program.scope c.scope).kind = .struct) (hl : c.loopLabel = none)
    (hw : ∀ t : Program, s.program.Later t → t.Sound → t.Awaits owner c.scope name) :
    Ends (bindField room owner pos name type value own) c s (At s.program.nodes.size s) fun _ _ => True := by
  have hrest : ∀ ty (default : Option NodeId) t, At s.program.nodes.size s t → (∀ n, default = some n →
      Kept s.program.nodes.size c t n ∧ ∀ ty, ¬ t.program.Returns n ty) → ∀ modifiers : Modifiers, Ends (do
        let default ← default.mapM (coerce · ty)
        let scope ← currentScope
        if modifiers.isStatic then discard (declare scope { name, scope, pos, decl := .globalVar ty })
        else discard (declareField owner scope name pos ty default)) c t (At s.program.nodes.size s)
      fun _ _ => True := by
    intro ty default t ht hd modifiers
    have hcoerce : Ends (default.mapM (coerce · ty)) c t (At s.program.nodes.size t) fun default u =>
        ∀ n, default = some n → Kept s.program.nodes.size c u n ∧ ∀ ty, ¬ u.program.Returns n ty :=
      .mapOption (.start (ht.ready hc)) fun n hn =>
        ((coerce_ends (ht.ready hc) (hd n hn).1).and (coerce_silent (hd n hn).2)).mono fun m u _ hm =>
          ⟨hm.1.1.held, hm.2⟩
    refine .next ht (Nat.le_refl _) hcoerce fun default u hu _ hdef => .read_bind (.ite (fun _ => ?_) fun _ => ?_)
    · exact .discard (declare_ends hu (.of_inOrder (hu.ready hc).scope trivial rfl))
    · refine .last hu (Nat.le_refl _) (.discard (declareField_ends (hu.ready hc) (hu.ready hc).scope
        (hw _ hu.later hu.sound.program) fun n hn => ?_)) fun _ _ _ _ h => h
      have hku : (u.program.scope c.scope).kind = .struct := by rw [hu.later.scopes.kind _ hc.scope, hk]
      refine ⟨(hdef n hn).1.range, fun x hx hvar => ?_, (hdef n hn).2, fun again l hj => ?_⟩
      · exact hu.sound.program.inSight_of_seen hku ((hdef n hn).1.names x hx hvar) hvar
      · rcases (hdef n hn).1.jumps trivial again l hj with hdef | hloop | ⟨_, -, -, -, ha⟩
        · exact .inr hdef
        · rw [hl] at hloop
          cases hloop
        · exact .inl ha
  refine .read_bind (.ite (fun _ => ?_) fun _ => ?_)
  · exact .discard (bindDefinition_closed hr ht hv c s hc)
  · refine .bind (.mapOption (.start hc) fun part hp => (ht part hp).type hr c s hc) fun declared t ht _ => ?_
    refine .next ht ht.later.nodes ((fieldDefault_closed hr hv).ends (ht.ready hc)) fun default u hu _ hdef => ?_
    have hdef : ∀ n, default = some n → Kept s.program.nodes.size c u n ∧ ∀ ty, ¬ u.program.Returns n ty := fun n hn =>
      ⟨(hdef n hn).1.lower ht.later.nodes, (hdef n hn).2⟩
    cases declared with
    | some ty => exact .pure_bind (hrest ty default u hu hdef _)
    | none =>
      cases default with
      | some n => exact .ask_bind (hrest _ _ u hu hdef _)
      | none => exact fail_bind_ends hu _ _ _ _

theorem bindMember_ends {owner : SymbolId} {tree : Syntax} (hr : room.Good) (hc : Ready s.program.nodes.size c s)
    (hk : (s.program.scope c.scope).kind = .struct) (hl : c.loopLabel = none)
    (hw : ∀ name ∈ tree.definedNames, ∀ t : Program, s.program.Later t → t.Sound → t.Awaits owner c.scope name) :
    Ends (bindMember room owner tree) c s (At s.program.nodes.size s) fun _ _ => True := by
  unfold bindMember
  split
  · rename_i name _ _ _ hform
    refine bindField_ends hr (optionalPart_good hr _) (optionalPart_good hr _) hc hk hl (hw name ?_)
    obtain ⟨pos, form⟩ := tree
    obtain rfl := hform
    simp [Syntax.definedNames, Form.definedNames]
  · exact .ite (fun _ => .pure (.start hc) trivial) fun _ => fail_ends (.start hc) _ _ _ _

end BindM

end Bindery
