import Bindery.Proofs.Operands
/-!
# Calls

What a call passes is held where the call stands: the receiver, the arguments, and what they are converted to.
-/
namespace Bindery.BindM

variable {k : Nat} {c : Context} {s : BindState} {room : Room} {pos : Span} {args : List CallArg}

theorem receiverPointer_ends {n : NodeId} {owner : SymbolId} (hc : Ready k c s) (hn : Kept k c s n) :
    Ends (receiverPointer n owner) c s (At k s) fun m t => Kept k c t m := by
  refine .next (.start hc) (Nat.le_refl k) (readThrough_ends hc hn) fun m t ht _ hm => .ask_bind (.ite (fun _ => ?_) fun _ => ?_)
  · refine .ask_bind (.last ht (Nat.le_refl k) (addPlain_ends (ht.ready hc) rfl rfl trivial ?_ trivial) fun _ _ _ _ h => h.held)
    simpa [NodeKind.children] using hm.held
  · exact .last ht (Nat.le_refl k) (coerce_ends (ht.ready hc) hm.held) fun _ _ _ _ h => h.1.held

theorem implicitReceiver_ends {owner : SymbolId} (hc : Ready k c s) :
    Ends (implicitReceiver owner pos) c s (At k s) fun m t => Kept k c t m := by
  refine .read_bind (.ask_bind ?_)
  split
  · rename_i this hthis
    exact .mono (reference_ends hc (receiver?_spec hc.sound.program hthis).1) fun _ _ _ h => h.result.held
  · exact .ask_bind (fail_ends (.start hc) _ _ _ _)

theorem splitReceiver_ends {method : Option SymbolId} {receiver : Option NodeId} (hc : Ready k c s)
    (hr : ∀ n, receiver = some n → Passed k c s n) (ha : ∀ arg ∈ args, arg.value.Ok k c s True) :
    Ends (splitReceiver method receiver args pos) c s (At k s) fun r t =>
      (∀ n ∈ r.1.toList, Kept k c t n) ∧ ∀ arg ∈ r.2, arg.value.Ok k c t True := by
  unfold splitReceiver
  split
  · refine .bind (receiverPointer_ends hc (hr _ rfl).toKept) fun m t ht hm => .pure ht ⟨by simpa using hm, fun arg hmem => ?_⟩
    exact (ha arg hmem).mono hc ht
  · refine .bind (implicitReceiver_ends hc) fun m t ht hm => .pure ht ⟨by simpa using hm, fun arg hmem => ?_⟩
    exact (ha arg hmem).mono hc ht
  · refine .ask_bind (.pure (.start hc) ⟨by simp, fun arg hmem => ?_⟩)
    rcases List.mem_cons.1 hmem with rfl | hmem
    · exact hr _ rfl
    · exact ha arg hmem
  · exact .pure (.start hc) ⟨by simp, ha⟩

theorem callNode_ends {f : SymbolId} {values : List NodeId} (hc : Ready k c s) (hv : ∀ n ∈ values, Kept k c s n) :
    Ends (callNode f values pos) c s (At k s) fun n t => Result k c t n := by
  refine .ask_bind ?_
  split
  · rename_i own ho
    split
    · rename_i ret hret
      refine .ite (fun _ => .failure (.start hc)) fun hknown => ?_
      have hfits : s.program.Fits ⟨pos, ret, .call f values⟩ :=
        { children := fun m hm => (hv m hm).range
          typed := trivial
          void := by rintro ⟨⟩
          literal := by rintro _ ⟨⟩
          named := by rintro _ _ ⟨⟩
          called := by
            rintro _ _ ⟨⟩
            exact ⟨by rintro rfl; exact hknown rfl, own, ho, by rw [hret]; rfl⟩
          symbols := by simpa [NodeKind.symbols] using .of_function ho
          folds := trivial }
      refine .mono (addNode_ends hc hfits hv (by rintro _ ⟨⟩) (by rintro _ ⟨⟩) (by rintro _ _ _ ⟨⟩)
        ⟨?_, by rintro _ _ ⟨⟩, by rintro _ _ ⟨⟩, by rintro _ ⟨⟩⟩)
        fun n t _ hn => .of_plain hn.held (by rw [hn.node]; rfl)
      rintro _ _ own' ⟨⟩ ho'
      rw [ho] at ho'
      cases ho'
      exact hret
    · exact .ask_bind (fail_ends (.start hc) _ _ _ _)
  · exact .failure (.start hc)

theorem passArguments_ends {params : List SymbolId} (hc : Ready k c s) (ha : ∀ arg ∈ args, arg.value.Ok k c s True) :
    Ends (passArguments params args) c s (At k s) fun values t => ∀ n ∈ values, Kept k c t n := by
  refine mapM_ends hc (fun _ t u ht htu h => h.mono (ht.ready hc) htu) ?_
  rintro ⟨param, arg⟩ hm t ht
  have harg := (ha arg (List.of_mem_zip hm).2).mono hc ht
  refine .ask_bind ?_
  split
  · refine .next (.start (ht.ready hc)) (Nat.le_refl k) (callArg_requireValue_ends (ht.ready hc) harg) fun n u hu _ hn => ?_
    exact .last hu (Nat.le_refl k) (coerce_ends (hu.ready (ht.ready hc)) hn.toKept) fun _ _ _ _ h => h.1.held
  · exact .failure (.start (ht.ready hc))

theorem callFunction_ends {f : SymbolId} {receiver : Option NodeId} (hc : Ready k c s)
    (hr : ∀ n, receiver = some n → Passed k c s n) (ha : ∀ arg ∈ args, arg.value.Ok k c s True) :
    Ends (callFunction f receiver args pos) c s (At k s) fun n t => Result k c t n := by
  refine .ask_bind ?_
  split
  · refine .next (.start hc) (Nat.le_refl k) (splitReceiver_ends hc hr ha) ?_
    rintro ⟨this, args⟩ t ht - ⟨hthis, hargs⟩
    refine .ask_bind ?_
    dsimp only
    split
    · exact fail_bind_ends ht _ _ _ _
    · refine .ite (fun _ => fail_bind_ends ht _ _ _ _) fun _ => ?_
      refine .next ht (Nat.le_refl k) (passArguments_ends (ht.ready hc) hargs) fun values u hu htu hvalues => ?_
      refine .last hu (Nat.le_refl k) (callNode_ends (hu.ready hc) fun n hn => ?_) fun _ _ _ _ h => h
      rcases List.mem_append.1 hn with hn | hn
      · exact (hthis n hn).mono (ht.ready hc) htu
      · exact hvalues n hn
  · exact .failure (.start hc)

/-- **A call by name gives a value or a type that may be used.** -/
theorem callSymbol_ends {x : SymbolId} {receiver : Option NodeId} (hr : room.Good) (hc : Ready k c s)
    (hrec : ∀ n, receiver = some n → Passed k c s n) (ha : ∀ arg ∈ args, arg.value.Ok k c s True) :
    Ends (callSymbol room x receiver args pos) c s (At k s) fun o t => o.Ok k c t := by
  refine .ask_bind ?_
  dsimp only
  split
  · exact .bind (callFunction_ends hc hrec ha) fun n t ht hn => .pure ht hn
  · refine .bind (selectTemplate_ends hc _ _ _ _) ?_
    rintro template _ hs rfl
    refine .ask_bind ?_
    split
    · rename_i own _
      refine .ite (fun _ => .bind (instantiateStruct_ends hr hc ha) fun _ t ht _ => .pure ht trivial) fun _ => ?_
      refine .next hs (Nat.le_refl k) (splitReceiver_ends hc hrec ha) ?_
      rintro ⟨this, args⟩ t ht - ⟨hthis, hargs⟩
      refine .ite (fun _ => .ite (fun _ => fail_bind_ends ht _ _ _ _) fun _ => ?_) fun _ => ?_
      · exact .next ht (Nat.le_refl k) (callGenerator_ends hr (ht.ready hc) hargs fun h => ⟨trivial, h⟩)
          fun n u hu _ hn => .pure hu hn.1
      · refine .next ht (Nat.le_refl k) (instantiateFunction_ends hr (ht.ready hc) hargs) ?_
        rintro ⟨f, values⟩ u hu htu ⟨-, hvalues⟩
        refine .next hu (Nat.le_refl k) (callNode_ends (hu.ready hc) fun n hn => ?_) fun n v hv _ hn => .pure hv hn
        rcases List.mem_append.1 hn with hn | hn
        · exact (hthis n hn).mono (ht.ready hc) htu
        · exact hvalues n hn
    · exact .failure hs

theorem callIndirect_ends {callee : NodeId} {f : SymbolId} (hc : Ready k c s) (hn : Kept k c s callee)
    (ha : ∀ arg ∈ args, arg.value.Ok k c s True) :
    Ends (callIndirect callee f args pos) c s (At k s) fun n t => Result k c t n := by
  refine .ask_bind ?_
  split
  · split
    · refine .ite (fun _ => .failure (.start hc)) fun _ => .ite (fun _ => ?_) fun _ => ?_
      · exact .ask_bind (fail_bind_ends (.start hc) _ _ _ _)
      · refine .next (.start hc) (Nat.le_refl k) (passArguments_ends hc ha) fun values t ht _ hv => ?_
        refine .last ht (Nat.le_refl k) (addPlain_ends (ht.ready hc) rfl rfl trivial (fun m hm => ?_) trivial) fun _ _ _ _ h => h.result
        rcases List.mem_cons.1 hm with rfl | hm
        · exact hn.mono hc ht
        · exact hv m hm
    · exact .ask_bind (fail_ends (.start hc) _ _ _ _)
  · exact .failure (.start hc)

theorem callValue_ends {callee : NodeId} (hc : Ready k c s) (hn : Passed k c s callee)
    (ha : ∀ arg ∈ args, arg.value.Ok k c s True) :
    Ends (callValue callee args pos) c s (At k s) fun n t => Result k c t n := by
  refine .next (.start hc) (Nat.le_refl k) (readThrough_ends hc hn.toKept) fun m t ht _ hm => ?_
  have ht' := fun arg hmem => (ha arg hmem).mono hc ht
  refine .ask_bind (.ask_bind (.ite (fun _ => .ask_bind ?_) fun _ => .ask_bind ?_))
  · split
    · refine .last ht (Nat.le_refl k) (callFunction_ends (ht.ready hc) ?_ ht') fun _ _ _ _ h => h
      rintro _ ⟨⟩
      exact hm.passed hn
    · exact .failure ht
  · split
    · exact .last ht (Nat.le_refl k) (callIndirect_ends (ht.ready hc) hm.held ht') fun _ _ _ _ h => h
    · exact .ask_bind (fail_ends ht _ _ _ _)

theorem callOperand_closed {callee : Part} {args : List ArgPart} (hr : room.Good) (hf : callee.Good)
    (ha : ∀ arg ∈ args, arg.value.Good) : (callOperand room pos callee args).Closed Operand.Ok := by
  intro c s hc
  refine .next (.start hc) (Nat.le_refl _) (hf c s hc) fun o t ht _ ho => ?_
  refine .next ht ht.later.nodes ((bindArguments_closed hr ha).ends (ht.ready hc)) fun bound u hu htu hb => ?_
  have hbound : ∀ arg ∈ bound, arg.value.Ok s.program.nodes.size c u True := fun arg hm => (hb arg hm).lower ht.later.nodes
  cases o with
  | callable x receiver =>
    refine .last hu (Nat.le_refl _) (callSymbol_ends hr (hu.ready hc) (fun n hn => ?_) hbound) fun _ _ _ _ h => h
    exact (ho.2 n hn).mono (ht.ready hc) htu
  | type ty => exact .ite (fun _ => .pure hu trivial) fun _ => fail_ends hu _ _ _ _
  | module x => exact .ask_bind (fail_ends hu _ _ _ _)
  | value n =>
    exact .next hu (Nat.le_refl _) (callValue_ends (hu.ready hc) (ho.passed.mono (ht.ready hc) htu) hbound)
      fun _ _ hv _ hn => .pure hv hn

end Bindery.BindM
