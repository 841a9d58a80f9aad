import Bindery.Proofs.Operators
/-!
# Expressions

The forms besides names, calls and operators. Their children are held where they stand; the defaults that an initializer
takes are not, for they were bound with the struct, but they name only what is exposed by it.
-/
namespace Bindery.BindM

variable {k : Nat} {c : Context} {s : BindState} {room : Room} {pos : Span}

theorem bindFloat_ends {value : Double} {single : Bool} (hc : Ready k c s) :
    Ends (bindFloat pos value single) c s (At k s) fun n t => Result k c t n := by
  have hf := hc.sound.program.standard.inhabits_float
  refine .ite (fun _ => ?_) fun _ => ?_
  · exact .mono (addPlain_ends hc rfl rfl trivial (by rintro _ ⟨⟩) (.inl (hf 32 (by decide) _))) fun _ _ _ h => h.result
  · exact .mono (addPlain_ends hc rfl rfl trivial (by rintro _ ⟨⟩) (.inl (hf 64 (by decide) _))) fun _ _ _ h => h.result

theorem bindString_ends {value : String} (hc : Ready k c s) :
    Ends (bindString pos value) c s (At k s) fun n t => Result k c t n :=
  .mono (addPlain_ends hc rfl rfl trivial (by rintro _ ⟨⟩) trivial) fun _ _ _ h => h.result

theorem indexNode_ends {base index : NodeId} {basePos : Span} (hc : Ready k c s) (hbase : Kept k c s base)
    (hindex : Kept k c s index) :
    Ends (do
      let ty ← nodeType base
      match ← ask (·.elementType? ty) with
      | some element => addNode pos element (.indexName base index)
      | none => fail basePos .notIndexable [← typeName ty]) c s (At k s) fun n t => Result k c t n := by
  refine .ask_bind (.ask_bind ?_)
  split
  · exact .mono (addPlain_ends hc rfl rfl trivial (held_pair hbase hindex) trivial) fun _ _ _ h => h.result
  · exact .ask_bind (fail_ends (.start hc) _ _ _ _)

theorem bindIndex_closed {base index : Part} (hr : room.Good) (hb : base.Good) (hi : index.Good) :
    (bindIndex room pos base index).Closed Result := by
  intro c s hc
  refine .next (.start hc) (Nat.le_refl _) (.attempt (hb.value hr c s hc)) fun a t ht _ ha => ?_
  refine .next ht ht.later.nodes (.attempt ((hi.value hr).ends (ht.ready hc))) fun b u hu htu hb => ?_
  cases a with
  | none => exact .failure hu
  | some a =>
    have ha := (ha _ rfl).1.held.mono (ht.ready hc) htu
    refine .next hu (Nat.le_refl _) (readThrough_ends (hu.ready hc) ha) fun a' v hv huv ha' => ?_
    cases b with
    | none => exact .failure hv
    | some b =>
      have hb := ((hb _ rfl).1.held.lower ht.later.nodes).mono (hu.ready hc) huv
      refine .next hv (Nat.le_refl _) (readThrough_ends (hv.ready hc) hb) fun b' w hw hvw hb' => ?_
      have ha := ha'.held.mono (hv.ready hc) hvw
      refine .ask_bind (.ite (fun _ => .pure_bind ?_) fun _ => .ask_bind ?_)
      · exact .last hw (Nat.le_refl _) (indexNode_ends (hw.ready hc) ha hb'.held) fun _ _ _ _ h => h
      refine .next hw (Nat.le_refl _) (coerce_ends (hw.ready hc) hb'.held) fun d x hx hwx hd => ?_
      exact .last hx (Nat.le_refl _) (indexNode_ends (hx.ready hc) (ha.mono (hw.ready hc) hwx) hd.1.held)
        fun _ _ _ _ h => h

/-- **Both arms of a conditional expression have its type.** -/
theorem bindTernary_closed {test whenTrue whenFalse : Part} (hr : room.Good) (hp : test.Good) (hl : whenTrue.Good)
    (hf : whenFalse.Good) : (bindTernary room pos test whenTrue whenFalse).Closed Result := by
  intro c s hc
  refine .next (.start hc) (Nat.le_refl _) (.attempt (hp.condition hr c s hc)) fun test t ht _ htest => ?_
  refine .next ht ht.later.nodes ((bothValues_closed hr hl hf).ends (ht.ready hc)) ?_
  rintro ⟨a, b⟩ u hu htu ⟨ha, hb⟩
  cases test with
  | none => exact .failure hu
  | some test =>
    obtain ⟨htest, hbool⟩ := htest _ rfl
    have htest : HeldAs s.program.nodes.size c u .bool test := HeldAs.mono ⟨htest.held, hbool⟩ (ht.ready hc) htu
    refine .next hu (Nat.le_refl _) (readThrough_typed (hu.ready hc) (ha.held.lower ht.later.nodes))
      fun a' v hv huv ha' => ?_
    have hb := ha'.2.2 b (hb.lower ht.later.nodes)
    refine .next hv (Nat.le_refl _) (readThrough_typed (hv.ready hc) hb.held) fun b' w hw hvw hb' => ?_
    have ha := hb'.2.2 a' (ha'.1.result (ha.lower ht.later.nodes))
    have hb := hb'.1.result hb
    have htest := (htest.mono (hu.ready hc) huv).mono (hv.ready hc) hvw
    refine .bind (upperBound_ends hw (Nat.le_refl _) hc ha hb) fun ty x hx hadapt => ?_
    -- a condition is no literal that could be retyped
    have htest : HeldAs s.program.nodes.size c x .bool test :=
      ⟨htest.held.keep (hw.ready hc) (hw.ready hc).scope hadapt.keeps, by
        rw [hadapt.keeps.later.type test htest.held.range (hw.sound.program.not_adaptable_of_bool htest.type),
          htest.type]⟩
    have ha := hadapt.held (hw.ready hc) ha.held
    have hb := hadapt.held (hw.ready hc) hb.held
    refine coerceBoth_ends hc hx ha hb fun d e y hy hxy hd he => ?_
    have htest := htest.mono (hx.ready hc) hxy
    exact addFolded_ends hc hy rfl rfl (fun _ => ⟨htest.type, hd.type, he.type⟩)
      (by simpa [NodeKind.children] using ⟨htest.held, hd.held, he.held⟩) trivial

theorem bindCast_closed {value target : Part} {intent : Intent} (hr : room.Good) (hv : value.Good) (ht : target.Good) :
    (bindCast room value target intent).Closed Result := by
  intro c s hc
  have hconvert : ∀ n ty t, At s.program.nodes.size s t → Result s.program.nodes.size c t n →
      Ends (convert n ty intent) c t (At s.program.nodes.size s) fun m t => Result s.program.nodes.size c t m :=
    fun n ty t ht hn => .last ht (Nat.le_refl _) (convert_ends (ht.ready hc) hn.held) fun m u _ _ hm => hm.1.result hn
  refine .next (.start hc) (Nat.le_refl _) (.attempt (hv.value hr c s hc)) fun value t ht' _ hvalue => ?_
  refine .next ht' ht'.later.nodes ((ht.type hr).ends (ht'.ready hc)) fun ty u hu htu _ => ?_
  cases value with
  | none => exact .failure hu
  | some value =>
    have hvalue := (hvalue _ rfl).1
    have hvalue := hvalue.mono (ht'.ready hc) htu fun _ => hvalue.held.range
    refine .ite (fun _ => .pure_bind (hconvert value ty u hu hvalue)) fun _ => ?_
    refine .next hu (Nat.le_refl _) (readThrough_ends (hu.ready hc) hvalue.held) fun n v hv _ hn => ?_
    exact hconvert n ty v hv (hn.result hvalue)

theorem bindTuple_closed {items : List Part} (hr : room.Good) (hi : ∀ item ∈ items, item.Good) :
    (bindTuple room pos items).Closed Result := by
  intro c s hc
  have hitems : Ends (items.mapM (·.value room)) c s (At s.program.nodes.size s) fun values t =>
      ∀ n ∈ values, Kept s.program.nodes.size c t n := by
    refine mapM_ends hc (fun _ t u ht htu h => h.mono (ht.ready hc) htu) fun item hm t ht => ?_
    exact .last (.start (ht.ready hc)) ht.later.nodes (((hi item hm).value hr).ends (ht.ready hc))
      fun n u _ _ hn => hn.1.held.lower ht.later.nodes
  refine .next (.start hc) (Nat.le_refl _) hitems fun values t ht _ hv => ?_
  refine .last ht (Nat.le_refl _) (packTuple_ends (ht.ready hc) hv) ?_
  rintro n u - - ⟨ty, hn⟩
  exact hn.result

/-- A size is taken of the program as it is. -/
theorem addSizeOf_ends {target : Ty} (hc : Ready k c s) :
    Ends (addNode pos (.int 64 false) (.sizeOf target (s.program.sizeOf target))) c s (At k s)
      fun n t => Result k c t n := by
  have hfits : s.program.Fits ⟨pos, .int 64 false, .sizeOf target (s.program.sizeOf target)⟩ :=
    { children := by rintro _ ⟨⟩
      typed := trivial
      void := by rintro ⟨⟩
      literal := by rintro _ ⟨⟩
      named := by rintro _ _ ⟨⟩
      called := by rintro _ _ ⟨⟩
      symbols := by rintro _ ⟨⟩
      folds := rfl }
  have hfresh : s.program.Fresh (s.floor k) ⟨pos, .int 64 false, .sizeOf target (s.program.sizeOf target)⟩ :=
    ⟨by rintro _ _ _ ⟨⟩, by rintro _ _ ⟨⟩; rfl, by rintro - _ ⟨⟩, by rintro _ ⟨⟩⟩
  refine .mono (addNode_ends (w := True) hc hfits (by rintro _ ⟨⟩) (by rintro _ ⟨⟩) (by rintro _ ⟨⟩)
    (by rintro _ _ _ ⟨⟩) hfresh) fun n t _ hn => ?_
  exact .of_plain hn.held (by rw [hn.node]; rfl)

theorem bindSizeOf_closed {part : Part} (hr : room.Good) (hp : part.Good) :
    (bindSizeOf room pos part).Closed Result := by
  intro c s hc
  have hnode : ∀ target t, At s.program.nodes.size s t → Ends (do
      addNode pos (.int 64 false) (.sizeOf target (← ask (·.sizeOf target)))) c t (At s.program.nodes.size s)
      fun n t => Result s.program.nodes.size c t n := fun target t ht =>
    .ask_bind (.last ht (Nat.le_refl _) (addSizeOf_ends (ht.ready hc)) fun _ _ _ _ h => h)
  refine .next (.start hc) (Nat.le_refl _) (hp.settled hr c s hc) fun o t ht _ ho => ?_
  have hvalue : Ends (operandNode room o part.pos) c t (At s.program.nodes.size t) fun _ _ => True :=
    .mono (operandNode_ends hr (ht.ready hc) ho) fun _ _ _ _ => trivial
  cases o with
  | type ty => exact .pure_bind (hnode ty t ht)
  | value | module | callable =>
    exact .next ht (Nat.le_refl _) hvalue fun n u hu _ _ => .ask_bind (.pure_bind (hnode _ u hu))

theorem bindAtomic_closed {op : AtomicOp} {target value : Part} (hr : room.Good) (ht : target.Good) (hv : value.Good) :
    (bindAtomic room pos op target value).Closed Result := by
  intro c s hc
  refine .next (.start hc) (Nat.le_refl _) (.attempt (ht.value hr c s hc)) fun a t ht _ ha => ?_
  refine .next ht ht.later.nodes (.attempt ((hv.value hr).ends (ht.ready hc))) fun b u hu htu hb => ?_
  cases a with
  | none => exact .failure hu
  | some a =>
    have ha := (ha _ rfl).1.held.mono (ht.ready hc) htu
    refine .next hu (Nat.le_refl _) (readThrough_ends (hu.ready hc) ha) fun a' v hv huv ha' => .ask_bind (.ask_bind ?_)
    split
    · cases b with
      | none => exact .failure hv
      | some b =>
        have hb := ((hb _ rfl).1.held.lower ht.later.nodes).mono (hu.ready hc) huv
        refine .next hv (Nat.le_refl _) (readThrough_ends (hv.ready hc) hb) fun b' w hw hvw hb' => ?_
        refine .next hw (Nat.le_refl _) (coerce_ends (hw.ready hc) hb'.held) fun d x hx hwx hd => ?_
        have ha := (ha'.held.mono (hv.ready hc) hvw).mono (hw.ready hc) hwx
        exact .last hx (Nat.le_refl _) (addPlain_ends (hx.ready hc) rfl rfl trivial (held_pair ha hd.1.held) trivial)
          fun _ _ _ _ h => h.result
    · exact .ask_bind (fail_ends hv _ _ _ _)

theorem bindAwait_closed {part : Part} (hr : room.Good) (hp : part.Good) : (bindAwait room pos part).Closed Result := by
  intro c s hc
  refine .read_bind (.ask_bind (.ite (fun _ => fail_bind_ends (.start hc) _ _ _ _) fun _ => ?_))
  refine .next (.start hc) (Nat.le_refl _) (hp.value hr c s hc) fun n t ht _ hn => ?_
  refine .next ht (Nat.le_refl _) (readThrough_ends (ht.ready hc) hn.1.held) fun m u hu _ hm => .ask_bind ?_
  exact .last hu (Nat.le_refl _) (addPlain_ends (hu.ready hc) rfl rfl trivial (held_single hm.held) trivial)
    fun _ _ _ _ h => h.result

/-! ## Initializers -/

theorem mem_of_givenField? {p : Program} {fields : List SymbolId} {name : Option String} {next : Nat} {field : SymbolId}
    (h : p.givenField? fields name next = some field) : field ∈ fields := by
  unfold Program.givenField? at h
  split at h
  · exact List.mem_of_find?_eq_some h
  · exact List.mem_of_getElem? h

theorem bindFields_ends {owner : String} {fields : List SymbolId} (hr : room.Good) :
    ∀ {args : List ArgPart} {next : Nat} {assigned : List (SymbolId × NodeId)} {ok : Bool} {s : BindState}, Ready k c s →
      (∀ arg ∈ args, arg.value.Good) → (∀ e ∈ assigned, e.1 ∈ fields ∧ Kept k c s e.2) →
      Ends (bindFields room owner fields args next assigned ok) c s (At k s) fun r t =>
        ∀ e ∈ r.1, e.1 ∈ fields ∧ Kept k c t e.2
  | [], _, _, _, _, hc, _, hassigned => .pure (.start hc) hassigned
  | arg :: rest, next, assigned, ok, s, hc, hgood, hassigned => by
    have hrest : ∀ next assigned ok t, At k s t → (∀ e ∈ assigned, e.1 ∈ fields ∧ Kept k c t e.2) →
        Ends (bindFields room owner fields rest next assigned ok) c t (At k s) fun r t =>
          ∀ e ∈ r.1, e.1 ∈ fields ∧ Kept k c t e.2 :=
      fun next assigned ok t ht h => .last ht (Nat.le_refl k)
        (bindFields_ends hr (ht.ready hc) (fun arg hm => hgood arg (by simp [hm])) h) fun _ _ _ _ h => h
    have hkeep : ∀ t, At k s t → ∀ e ∈ assigned, e.1 ∈ fields ∧ Kept k c t e.2 :=
      fun t ht e he => (hassigned e he).imp_right (·.mono hc ht)
    have hvalue : ∀ ty, Ends (attempt do coerce (← readThrough (← arg.value.value room)) ty) c s (At k s)
        fun r t => ∀ n, r = some n → Kept k c t n := fun ty => by
      have hread := ((hgood arg (by simp)).value hr).ends hc
      refine .attempt (.next (.start hc) hc.le hread fun n t ht _ hn => ?_)
      refine .next ht (Nat.le_refl k) (readThrough_ends (ht.ready hc) (hn.1.held.lower hc.le)) fun m u hu _ hm => ?_
      exact .last hu (Nat.le_refl k) (coerce_ends (hu.ready hc) hm.held) fun _ _ _ _ h => h.1.held
    refine .ask_bind ?_
    split
    · exact .bind (error_ends (.start hc) _ _ _) fun _ t ht _ => hrest _ _ _ t ht (hkeep t ht)
    · rename_i field hfield
      refine .ite (fun _ => .ask_bind ?_) fun _ => .ask_bind (.bind (hvalue _) fun value t ht hv => ?_)
      · exact .bind (error_ends (.start hc) _ _ _) fun _ t ht _ => hrest _ _ _ t ht (hkeep t ht)
      · cases value with
        | none => exact hrest _ _ _ t ht (hkeep t ht)
        | some value =>
          refine hrest _ _ _ t ht fun e he => ?_
          rcases List.mem_append.1 he with he | he
          · exact hkeep t ht e he
          · rw [List.mem_singleton.1 he]
            exact ⟨mem_of_givenField? hfield, hv value rfl⟩

/-- The default value of a field may be used anywhere: the field exposes what it names. -/
theorem kept_default (hs : s.Sound) {field : SymbolId} {own : FieldDecl} {n : NodeId}
    (hf : s.program.field? field = some own) (hd : own.default = some n) : Kept 0 c s n := by
  have h := (hs.program.field hf).1 n hd
  have hsome : own.default.isSome := by rw [hd]; rfl
  refine ⟨⟨h.range, fun _ => Nat.zero_le _, fun x hx hv => .inl ?_, fun ty hr => absurd hr (h.returns ty)⟩,
    fun _ again l hl => .inl ((h.jumps again l hl).elim (.field field own hf hsome) id)⟩
  rcases h.names x hx hv with ha | he
  · exact .field field own hf hsome ha
  · exact he

theorem mem_defaultsFor {p : Program} {fields : List SymbolId} {assigned : List (SymbolId × NodeId)}
    {e : SymbolId × NodeId} (h : e ∈ p.defaultsFor fields assigned) :
    ∃ own, p.field? e.1 = some own ∧ own.default = some e.2 := by
  simp only [Program.defaultsFor, List.mem_filterMap, Option.map_eq_some_iff, Option.bind_eq_some_iff] at h
  obtain ⟨field, -, value, ⟨own, hf, hd⟩, rfl⟩ := h
  exact ⟨own, hf, hd⟩

/-- The fields of an initializer are no operands, so that they may be older than the rule. -/
theorem addInitializer_ends {ty : Ty} {fields : List (SymbolId × NodeId)} (hc : Ready k c s)
    (hf : ∀ e ∈ fields, s.program.Finished e.1 ∧ Kept 0 c s e.2) :
    Ends (addNode pos ty (.initializer fields)) c s (At k s) fun n t => Result k c t n := by
  have hkids : ∀ m ∈ (NodeKind.initializer fields).children, Kept 0 c s m := by
    simp only [NodeKind.children, List.mem_map]
    rintro _ ⟨e, he, rfl⟩
    exact (hf e he).2
  have hfits : s.program.Fits ⟨pos, ty, .initializer fields⟩ :=
    { children := fun m hm => (hkids m hm).range
      typed := trivial
      void := by rintro ⟨⟩
      literal := by rintro _ ⟨⟩
      named := by rintro _ _ ⟨⟩
      called := by rintro _ _ ⟨⟩
      symbols := by
        simp only [NodeKind.symbols, List.mem_map]
        rintro _ ⟨e, he, rfl⟩
        exact (hf e he).1
      folds := trivial }
  refine .mono (addNode_of_operands hc hfits hkids (by rintro _ ⟨⟩) (by rintro _ ⟨⟩) (by rintro _ ⟨⟩)
    (by rintro _ _ _ ⟨⟩) (.of_isSettled rfl)) ?_
  exact fun n t _ hn => .of_plain hn.held (by rw [hn.node]; rfl)

theorem bindInitializer_closed {type : Part} {args : List ArgPart} (hr : room.Good) (hp : type.Good)
    (ha : ∀ arg ∈ args, arg.value.Good) : (bindInitializer room pos type args).Closed Result := by
  intro c s hc
  refine .next (.start hc) (Nat.le_refl _) (hp.type hr c s hc) fun target t ht _ _ => .ask_bind ?_
  split
  · refine .ask_bind (.ask_bind (.next ht (Nat.le_refl _) (bindFields_ends hr (ht.ready hc) ha (by simp)) ?_))
    rintro ⟨assigned, ok⟩ u hu htu hassigned
    refine .ite (fun _ => .bind (.failure hu) fun _ _ _ (h : False) => h.elim) fun _ => .ask_bind ?_
    refine .last hu (Nat.le_refl _) (addInitializer_ends (hu.ready hc) fun e he => ?_) fun _ _ _ _ h => h
    rcases List.mem_append.1 he with he | he
    · obtain ⟨hm, hheld⟩ := hassigned e he
      have hm : e.1 ∈ t.program.fieldsOf _ := (List.mem_filter.1 hm).1
      exact ⟨htu.later.finished (ht.sound.program.finished_of_mem_fieldsOf hm), hheld.lower (Nat.zero_le _)⟩
    · obtain ⟨own, hf, hd⟩ := mem_defaultsFor he
      exact ⟨.of_field hf, kept_default hu.sound hf hd⟩
  · exact fail_ends ht _ _ _ _

/-! ## Allocation -/

theorem specialMethod_ends {ty : Ty} {name : String} {args : List CallArg} (hr : room.Good) (hc : Ready k c s)
    (ha : ∀ arg ∈ args, arg.value.Ok k c s True) :
    Ends (specialMethod room ty name args pos) c s (At k s) fun r t => ∀ made, r = some made →
      t.program.Finished made.1 ∧ ∀ n ∈ made.2, Kept k c t n := by
  refine .ask_bind ?_
  split
  · exact .pure (.start hc) (by rintro _ ⟨⟩)
  · refine .bind (selectTemplate_ends hc _ _ _ _) ?_
    rintro template _ _ rfl
    refine .bind (instantiateFunction_ends hr hc ha) fun made t ht hm => .pure ht ?_
    rintro _ ⟨⟩
    exact ⟨.of_isInstance hm.1, hm.2⟩

theorem bindNew_closed {type : Part} {count : Option Part} {args : List ArgPart} (hr : room.Good) (hp : type.Good)
    (hn : ∀ part, count = some part → part.Good) (ha : ∀ arg ∈ args, arg.value.Good) :
    (bindNew room pos type count args).Closed Result := by
  intro c s hc
  refine .next (.start hc) (Nat.le_refl _) (hp.type hr c s hc) fun target t ht _ _ => ?_
  have hcount : Ends (count.mapM fun part => do
      let value ← readThrough (← part.value room)
      coerce value (← ask (·.pointerInt false))) c t (At s.program.nodes.size t)
      fun r u => ∀ n, r = some n → Kept s.program.nodes.size c u n := by
    refine .mapOption (.start (ht.ready hc)) fun part hm => ?_
    refine .next (.start (ht.ready hc)) ht.later.nodes (((hn part hm).value hr).ends (ht.ready hc)) fun n u hu _ hn => ?_
    refine .next hu (Nat.le_refl _) (readThrough_ends (hu.ready (ht.ready hc)) (hn.1.held.lower ht.later.nodes))
      fun m v hv _ hm => .ask_bind ?_
    exact .last hv (Nat.le_refl _) (coerce_ends (hv.ready (ht.ready hc)) hm.held) fun _ _ _ _ h => h.1.held
  refine .next ht (Nat.le_refl _) hcount fun count u hu _ hcount => ?_
  refine .next hu hu.later.nodes ((bindArguments_closed hr ha).ends (hu.ready hc)) fun args v hv huv hargs => ?_
  refine .next hv (Nat.le_refl _) (specialMethod_ends hr (hv.ready hc) fun arg hm => (hargs arg hm).lower hu.later.nodes)
    fun made w hw hvw hmade => ?_
  refine .ite (fun _ => fail_bind_ends hw _ _ _ _) fun _ => ?_
  refine .last hw (Nat.le_refl _) (addMade_ends (hw.ready hc) rfl (by rintro ⟨⟩) (by rintro _ ⟨⟩) trivial (fun m hm => ?_)
    (fun x hx => ?_) trivial) fun _ _ _ _ h => h.result
  · simp only [NodeKind.children, List.mem_append, Option.mem_toList] at hm
    rcases hm with hm | hm
    · exact ((hcount m hm).mono (hu.ready hc) huv).mono (hv.ready hc) hvw
    · cases made with
      | none => simp at hm
      | some made => exact (hmade made rfl).2 m hm
  · simp only [NodeKind.symbols, Option.mem_toList, Option.map_eq_some_iff] at hx
    obtain ⟨made, hsome, rfl⟩ := hx
    exact (hmade made hsome).1

theorem bindDelete_closed {part : Part} (hr : room.Good) (hp : part.Good) : (bindDelete room pos part).Closed Result := by
  intro c s hc
  refine .next (.start hc) (Nat.le_refl _) (hp.value hr c s hc) fun n t ht _ hn => ?_
  refine .next ht (Nat.le_refl _) (readThrough_ends (ht.ready hc) hn.1.held) fun m u hu _ hm => .ask_bind ?_
  split
  · refine .next hu (Nat.le_refl _) (specialMethod_ends hr (hu.ready hc) (by simp)) fun disposer v hv huv hmade => ?_
    refine .last hv (Nat.le_refl _) (addMade_ends (hv.ready hc) rfl (fun _ => rfl) (by rintro _ ⟨⟩) trivial
      (held_single (hm.held.mono (hu.ready hc) huv)) (fun x hx => ?_) trivial) fun _ _ _ _ h => h.result
    simp only [NodeKind.symbols, Option.mem_toList, Option.map_eq_some_iff] at hx
    obtain ⟨made, hsome, rfl⟩ := hx
    exact (hmade made hsome).1
  · exact .ask_bind (fail_ends hu _ _ _ _)

/-! ## Lambdas -/

theorem lambdaParam_ends {level : Level} {param : Param} (hl : level.Good) (hc : Ready k c s) :
    Ends (attempt do
      match param.type with
      | some tree =>
        if param.vararg || param.const then bindLambdaParams.needsType param
        else return (⟨param.name, param.pos, ← level.type tree⟩ : ValueParam)
      | none => bindLambdaParams.needsType param) c s (At k s) fun _ _ => True := by
  have hstart := Via.start hc
  refine .tried ?_
  cases param.type with
  | none => exact fail_ends hstart _ _ _ _
  | some tree =>
    refine .ite (fun _ => fail_ends hstart _ _ _ _) fun _ => ?_
    exact .next hstart hc.le ((hl.type tree).ends hc) fun _ _ ht _ _ => .pure ht trivial

theorem bindLambdaParams_ends {level : Level} {params : List Param} (hl : level.Good) (hc : Ready k c s) :
    Ends (bindLambdaParams level params) c s (At k s) fun _ _ => True := by
  refine .bind (.mono (mapM_ends (Q := fun _ _ => True) hc (fun _ _ _ _ _ h => h) fun param _ t ht =>
    lambdaParam_ends hl (ht.ready hc)) fun _ _ _ _ => trivial) fun bound t ht _ => ?_
  split
  · exact .pure ht trivial
  · exact .failure ht

/-- **A lambda is a value of its closure**, made of the captured variables. -/
theorem bindLambda_ends {source : FunctionDef} (hr : room.Good) (hc : Ready k c s) :
    Ends (bindLambda room pos source) c s (At k s) fun n t => Result k c t n ∧
      ∃ closure values u, t.program.IsClosure closure ∧ t.program.Beside c.scope closure ∧
        ClosureValue c pos closure [] values u t n := by
  refine .read_bind (.bind (freshName_ends (.start hc) _) fun name t ht htp => ?_)
  refine .next ht (Nat.le_refl k) (addScope_ends (ht.ready hc) .struct (ht.ready hc).scope) ?_
  rintro sc u hu - ⟨hsc, hup⟩
  have hlt : sc.index < u.program.scopes.size := by
    rw [hup, hsc]
    simp [Program.nextScope]
  have hkind : u.program.scope sc = { kind := .struct, parent := c.scope, owner := none } := by
    rw [hup, hsc, Program.scope_addScope_next]
  have hnew : s.program.scopes.size ≤ sc.index := by
    rw [hsc]
    exact ht.later.scopes.size
  have hadmits : u.program.Admits u.program.nextSymbol
      { name, scope := c.scope, ownScope := sc, pos, decl := .struct { kind := .lambda } } := by
    refine ⟨(hu.ready hc).scope, ?_, .empty rfl rfl rfl⟩
    rintro _ ⟨⟩
    exact ⟨hlt, by simp [hkind]⟩
  have hfree : ∀ y, (u.program.symbol y).ownScope ≠ some sc := by
    rw [hup, hsc]
    exact ht.sound.program.ownScope_ne_next
  have howning : Owning (s.floor k) u
      { name, scope := c.scope, ownScope := sc, pos, decl := .struct { kind := .lambda } } sc :=
    ⟨rfl, hnew, hlt, by rw [hkind], by rintro _ ⟨⟩, by rintro ⟨_, ⟨⟩, hk, -⟩; cases hk⟩
  refine addOwner_bind hu (.of_plain hadmits rfl (by rintro _ ⟨⟩; exact ⟨hnew, hfree⟩)) howning (by simp [hkind])
    fun w hw hwp => ?_
  refine .read_bind (.bind (useName_ends hw _) fun _ x hx hxp => ?_)
  have hclosure : x.program.IsClosure u.program.nextSymbol := ⟨{ kind := .lambda }, by rw [hxp, hwp]; simp, .inl rfl⟩
  have hown : (x.program.symbol u.program.nextSymbol).ownScope = some sc := by rw [hxp, hwp]; simp
  have hlt := Program.lt_of_ownScope hown
  -- the closure is there from here on, and its method is new
  have hready := hx.ready hc
  refine .last hx (Nat.le_refl k) (P := fun n t => Result k c t n ∧ ∃ values u',
    ClosureValue c pos u.program.nextSymbol [] values u' t n) ?_ fun n t _ hxt h => ?_
  · refine .bind (declareMethod_ends hready hclosure hown) ?_
    rintro ⟨call, callScope⟩ y hy ⟨hmethod, hid, hin, hbare⟩
    have hplace : Ready k { c with scope := callScope } y :=
      { hy.ready hready with scope := (hmethod.begun.kind hy.sound).1 }
    have hparams : Ends (room.inScope callScope pos fun level => bindLambdaParams level source.params) c y (At k y)
        fun _ _ => True := inScope_ends hr (.start hplace) fun level hl => bindLambdaParams_ends hl hplace
    refine .next hy (Nat.le_refl k) hparams fun params z hz hyz _ => ?_
    refine .bind (bindMethod_ends hr hz (hz.ready hready) (Nat.le_refl k) (hmethod.mono hyz)
      (fun a ha => absurd (Program.lt_of_function ha) (Nat.not_lt.2 hid)) hid (hmethod.begun.bare_mono hbare hyz) hin)
      fun _ t' ht' _ => ?_
    have hlt' := Nat.lt_of_lt_of_le hlt ht'.later.symbols
    refine .last ht' (Nat.le_refl k) (makeClosure_ends (w := True) [] (ht'.ready hready) hlt' (by simp)) ?_
    exact fun _ _ _ _ h => ⟨h.1, h.2.imp fun _ hv => ⟨t', hv⟩⟩
  · obtain ⟨hn, values, u', hvalue⟩ := h
    refine ⟨hn, _, values, u', hxt.later.isClosure hclosure, fun sc' hsc hin => ?_, hvalue⟩
    rw [hxt.later.ownScope _ hlt, hown] at hsc
    cases hsc
    -- the scopes around the place are older than the closure
    have hle := Program.index_le_of_mem_ancestors hxt.sound.program.nested hin.1
    exact absurd hc.scope (Nat.not_lt.2 (Nat.le_trans hnew hle))

end Bindery.BindM
