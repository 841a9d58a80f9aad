import Bindery.Proofs.Frame
import Bindery.Proofs.Run
import Bindery.Proofs.Settled
/-!
# What a rule may rely on

A rule starts at a sound state, in a context whose scope, function and label are in the program (`Ready`), and comes to
states that steps lead to from its start (`At`). On the way it *holds* nodes: nodes of the table that name only variables that
can be seen at the place of the rule, and return only what the function around the place returns. A node that is *kept*
moreover jumps only to what is in reach of the place. What is held or kept stays so while other rules run. Between the
steps of a rule something may be begun and not settled (`Trail`); where a rule comes to, all that it began is settled, but
for the modules that are pending (`Via`).
-/
namespace Bindery

/-- The floor at a state: literals may become operands from `k` on, nothing older than the state is changed, there are no
other modules, and memo and templates stay coherent if they are. -/
def BindState.floor (k : Nat) (s : BindState) : Floor where
  operands := k
  nodes := s.program.nodes.size
  scopes := s.program.scopes.size
  symbols := s.program.symbols.size
  sealed := true
  coherent := s.program.Coherent

/-- The program is a later one, the first `m` scopes keep their owners, and functions keep their return types. -/
structure Keeps (m : Nat) (s t : BindState) : Prop where
  later : s.program.Later t.program
  owner : ∀ sc : ScopeId, sc.index < m → (t.program.scope sc).owner = (s.program.scope sc).owner
  rets : ∀ f a b ty, s.program.function? f = some a → a.ret = some ty → t.program.function? f = some b →
    b.ret = some ty

theorem Keeps.trans {m m' : Nat} {s t u : BindState} (h : Keeps m s t) (h' : Keeps m' t u) (hm : m ≤ m') :
    Keeps m s u where
  later := h.later.trans h'.later
  owner sc hs := (h'.owner sc (Nat.lt_of_lt_of_le hs hm)).trans (h.owner sc hs)
  rets f a b ty ha hty hb := by
    obtain ⟨own, ho, -⟩ := h.later.function ha
    exact h'.rets f own b ty ho (h.rets f a own ty ha hty ho) hb

/-- A state that steps lead to from a sound one. The functions whose return types were known keep them, and new calls
of these functions have them. -/
structure Trail (floor : Floor) (s₀ s : BindState) : Prop where
  base : s₀.Sound
  le : floor ≤ s₀.floor s₀.program.nodes.size
  steps : BindState.Steps floor s₀ s
  rets : ∀ f a b ty, s₀.program.function? f = some a → a.ret = some ty → s.program.function? f = some b →
    b.ret = some ty
  calls : ∀ f a ty n args, s₀.program.function? f = some a → a.ret = some ty → s₀.program.nodes.size ≤ n.index →
    (s.program.node n).kind = .call f args → (s.program.node n).ty = ty

/-- A state that steps lead to, with all settled that was begun on the way. -/
structure Via (floor : Floor) (s₀ s : BindState) : Prop extends Trail floor s₀ s where
  settled : s₀.program.Settles floor.pending s.program

/-- A state that is reached by steps that leave everything alone that was there when they began. -/
abbrev At (k : Nat) (s₀ : BindState) : BindState → Prop := Via (s₀.floor k) s₀

/-- A state that is reached by steps that leave everything alone that was there when they began, but for the templates
of one scope. Whether the memo and the templates are kept coherent may be left open. -/
abbrev AtBody (k : Nat) (b : Option ScopeId) (coherent : Prop) (s₀ : BindState) : BindState → Prop :=
  Via { s₀.floor k with body := b, coherent } s₀

/-- A state that is reached by steps that leave everything alone that was there when they began, but for the scopes from
`m` on. -/
abbrev AtScopes (k m : Nat) (s₀ : BindState) : BindState → Prop := Via { s₀.floor k with scopes := m } s₀

/-- A floor under which modules wait to be bound. -/
abbrev Floor.awaiting (floor : Floor) (waiting : SymbolId → Prop) : Floor :=
  { floor with pending := fun m status => waiting m ∧ status = .idle }

/-- A state that is reached while the statements of a scope are declared, with modules that wait to be bound. -/
abbrev AtDeclared (k : Nat) (b : Option ScopeId) (coherent : Prop) (waiting : SymbolId → Prop) (s₀ : BindState) :
    BindState → Prop := Via (Floor.awaiting { s₀.floor k with body := b, coherent } waiting) s₀

/-- A sound state in which a rule may start: the scope, the function and the label of its context are in the program. -/
structure Ready (k : Nat) (c : Context) (s : BindState) : Prop where
  sound : s.Sound
  le : k ≤ s.program.nodes.size
  scope : c.scope.index < s.program.scopes.size
  function : ∀ f, c.function = some f → (s.program.function? f).isSome
  label : ∀ l, c.loopLabel = some l → s.program.Finished l

namespace Trail

variable {floor : Floor} {k : Nat} {s₀ s t : BindState} {c : Context}

theorem refl (hs : s.Sound) (hle : floor ≤ s.floor s.program.nodes.size) : Trail floor s s where
  base := hs
  le := hle
  steps := .refl
  rets _ _ _ _ ha hr hb := by rw [ha] at hb; cases hb; exact hr
  calls _ _ _ n _ _ _ hn hk := by rw [Program.node_of_le hn] at hk; cases hk

theorem sound (h : Trail floor s₀ s) : s.Sound := (h.steps.keep h.base).1

theorem later (h : Trail floor s₀ s) : s₀.program.Later s.program := (h.steps.keep h.base).2.1

theorem frame (h : Trail floor s₀ s) : BindState.Frame floor s₀ s := (h.steps.keep h.base).2.2

theorem coherent (h : Trail floor s₀ s) (hf : floor.coherent) : s.program.Coherent :=
  h.steps.coherent h.base hf (h.le.2.2.2.2.2.2 hf)

theorem keeps (h : Trail floor s₀ s) : Keeps floor.scopes s₀ s :=
  ⟨h.later, fun sc hs => h.frame.owner sc (Nat.lt_of_lt_of_le hs h.le.2.2.1) hs, h.rets⟩

theorem le_size (h : Trail floor s₀ s) : floor.operands ≤ s.program.nodes.size := Nat.le_trans h.le.1 h.later.nodes

/-- A floor at the start of a sequence is one at every state of it. -/
theorem le_floor (h : Trail floor s₀ s) (hk : floor.operands ≤ k) : floor ≤ s.floor k :=
  ⟨hk, Nat.le_trans h.le.2.1 h.later.nodes, Nat.le_trans h.le.2.2.1 h.later.scopes.size,
    Nat.le_trans h.le.2.2.2.1 h.later.symbols, by rintro _ ⟨⟩, fun _ => rfl, h.coherent⟩

/-- The statements of a scope that is not older than the floor may be bound. -/
theorem le_body (h : Trail floor s₀ s) (hk : floor.operands ≤ k) {sc : ScopeId} (hsc : floor.scopes ≤ sc.index) :
    floor ≤ { s.floor k with body := some sc } := by
  obtain ⟨ho, hn, hc, hs, -, hm⟩ := h.le_floor hk
  refine ⟨ho, hn, hc, hs, ?_, hm⟩
  rintro _ ⟨⟩
  exact .inl hsc

/-- The calls that were made since the start, and those that a step or a sequence of them adds. -/
theorem calls_of_later (h : Trail floor s₀ s) (hl : s.program.Later t.program)
    (hn : ∀ f own ty n args, s.program.function? f = some own → own.ret = some ty → s.program.nodes.size ≤ n.index →
      (t.program.node n).kind = .call f args → (t.program.node n).ty = ty)
    (f : SymbolId) (a : FunctionDecl) (ty : Ty) (n : NodeId) (args : List NodeId) (ha : s₀.program.function? f = some a)
    (hty : a.ret = some ty) (hle : s₀.program.nodes.size ≤ n.index) (hk : (t.program.node n).kind = .call f args) :
    (t.program.node n).ty = ty := by
  by_cases hlt : n.index < s.program.nodes.size
  · rw [hl.kind n hlt] at hk
    rw [hl.type n hlt fun ⟨_, hv⟩ => by rw [hv] at hk; cases hk]
    exact h.calls f a ty n args ha hty hle hk
  · obtain ⟨own, ho, -⟩ := h.later.function ha
    exact hn f own ty n args ho (h.rets f a own ty ha hty ho) (Nat.le_of_not_lt hlt) hk

theorem comp (h : Trail floor s₀ s) (h' : Trail floor s t) : Trail floor s₀ t where
  base := h.base
  le := h.le
  steps := h.steps.trans h'.steps
  rets := (h.keeps.trans h'.keeps (Nat.le_refl _)).rets
  calls := h.calls_of_later h'.later h'.calls

theorem ready (h : Trail floor s₀ s) (hc : Ready k c s₀) : Ready k c s where
  sound := h.sound
  le := Nat.le_trans hc.le h.later.nodes
  scope := Nat.lt_of_lt_of_le hc.scope h.later.scopes.size
  function f hf := by
    obtain ⟨own, ho⟩ := Option.isSome_iff_exists.1 (hc.function f hf)
    obtain ⟨own', ho', -⟩ := h.later.function ho
    rw [ho']
    rfl
  label l hl := h.later.finished (hc.label l hl)

theorem calls_of_step (h : Trail floor s₀ s) (hs : BindState.Step floor s t) (f : SymbolId) (a : FunctionDecl) (ty : Ty)
    (n : NodeId) (args : List NodeId) : s₀.program.function? f = some a → a.ret = some ty →
    s₀.program.nodes.size ≤ n.index → (t.program.node n).kind = .call f args → (t.program.node n).ty = ty :=
  h.calls_of_later (hs.later h.sound) (fun _ _ _ _ _ ho hty hle hk =>
    Option.some.inj ((hs.calls hle hk ho).symm.trans hty)) f a ty n args

/-- A step from a state that was reached. -/
theorem step (h : Trail floor s₀ s) (hs : BindState.Step floor s t)
    (hr : ∀ f a b ty, s.program.function? f = some a → a.ret = some ty → t.program.function? f = some b →
      b.ret = some ty) : Trail floor s₀ t where
  base := h.base
  le := h.le
  steps := h.steps.tail hs
  rets f a b ty ha hty hb := by
    obtain ⟨own, ho, -⟩ := h.later.function ha
    exact hr f own b ty ho (h.rets f a own ty ha hty ho) hb
  calls := h.calls_of_step hs

/-- A change that leaves the symbols there were alone. -/
theorem edit (h : Trail floor s₀ s) {p : Program} (he : s.program.Edit floor p)
    (hd : ∀ f : SymbolId, f.index < s.program.symbols.size → p.decl f = s.program.decl f) :
    Trail floor s₀ { s with program := p } := by
  refine h.step (.edit p he) fun f a b ty ha hty hb => ?_
  have hlt := Program.lt_of_function ha
  rw [Program.function?_eq_some, hd f hlt, ← Program.function?_eq_some, ha] at hb
  cases hb
  exact hty

/-- A scope stays without templates that is older than the floor and whose statements are not being bound. -/
theorem bare (h : Trail floor s₀ s) {sc : ScopeId} (hb : s₀.program.Bare sc) (hsc : sc.index < floor.scopes)
    (hbody : floor.body ≠ some sc) (hk : (s.program.scope sc).kind ≠ .module) : s.program.Bare sc := by
  refine hb.of_template fun x own hx hs => ?_
  by_cases hlt : x.index < s₀.program.symbols.size
  · obtain ⟨own', hx'⟩ := h.later.template_of_later hlt hx
    exact ⟨own', hx', h.later.scope x hlt⟩
  · rcases h.frame.templates x own (Nat.le_of_not_lt hlt) hx with hle | hb | hm
    · rw [hs] at hle
      exact absurd hsc (Nat.not_lt.2 hle)
    · exact absurd (hs ▸ hb) hbody
    · exact absurd (hs ▸ hm) hk

end Trail

namespace Via

variable {floor : Floor} {k : Nat} {s₀ s t : BindState} {c : Context}

theorem refl (hs : s.Sound) (hle : floor ≤ s.floor s.program.nodes.size) : Via floor s s where
  toTrail := .refl hs hle
  settled := .refl _

/-- A state that was reached without leaving anything open. -/
theorem extend (h : Via floor s₀ s) (ht : Trail floor s₀ t) (hl : s.program.Later t.program)
    (hs : s.program.Settles floor.pending t.program) : Via floor s₀ t where
  toTrail := ht
  settled := h.settled.trans hs h.sound.program hl

/-- A sequence may be looked at from any state of it on. -/
theorem restart (h : Via floor s₀ s) : Via floor s s := .refl h.sound (h.le_floor h.le_size)

/-- A sequence goes on with one that leaves more alone. -/
theorem chain {floor' : Floor} (h : Via floor s₀ s) (h' : Via floor' s t) (hle : floor ≤ floor')
    (hp : ∀ m status, floor'.pending m status → floor.pending m status) : Via floor s₀ t :=
  h.extend (h.toTrail.comp { h'.toTrail with le := h.le_floor h.le_size, steps := h'.steps.weaken hle }) h'.later
    (h'.settled.mono hp)

theorem trans (h : Via floor s₀ s) (h' : At k s t) (hk : floor.operands ≤ k) : Via floor s₀ t :=
  h.chain h' (h.le_floor hk) fun _ _ => False.elim

/-- Modules that are done or dormant need not be pending any more, and neither need tuples that are recorded. -/
theorem discharge (h : Via floor s₀ s) {pending : SymbolId → BindStatus → Prop}
    (hd : ∀ m own, s.program.module? m = some own → floor.pending m own.status →
      own.status = .done ∨ pending m own.status ∨ s.program.Dormant m own)
    (ht : ∀ x, (s.program.decl x).IsTuple → floor.pending x .busy → s.program.Recorded x ∨ pending x .busy) :
    Via { floor with pending } s₀ s where
  toTrail := { h.toTrail with steps := h.steps.weaken (Floor.le_refl _) }
  settled := h.settled.discharge hd ht

/-- Where nothing is pending, anything may be. -/
theorem expect (h : Via floor s₀ s) (hp : ∀ m status, ¬ floor.pending m status) {pending : SymbolId → BindStatus → Prop} :
    Via { floor with pending } s₀ s :=
  h.discharge (fun m _ _ hm => absurd hm (hp m _)) fun x _ hx => absurd hx (hp x _)

/-- More modules may wait. -/
theorem await {waiting waiting' : SymbolId → Prop} (h : Via (floor.awaiting waiting) s₀ s)
    (hw : ∀ m, waiting m → waiting' m) : Via (floor.awaiting waiting') s₀ s :=
  h.discharge (fun m _ _ hm => .inr (.inl ⟨hw m hm.1, hm.2⟩)) fun _ _ hx => by cases hx.2

/-- **What follows binds the modules that wait**, so that none is left. -/
theorem settle {waiting : SymbolId → Prop} (h : Via (floor.awaiting waiting) s₀ s) (h' : At k s t)
    (hk : floor.operands ≤ k) (hd : ∀ m own, waiting m → s.program.module? m = some own → own.status ≠ .busy →
      ∃ own', t.program.module? m = some own' ∧ own'.status = .done) :
    Via { floor with pending := fun _ _ => False } s₀ t := by
  refine (h.trans h' hk).discharge (fun m own hm ⟨hw, hidle⟩ => ?_) fun _ _ hx => by cases hx.2
  rcases h'.settled.modules m own hm with hdone | hpending | ⟨own', hm', hs⟩ | hdormant
  · exact .inl hdone
  · exact hpending.elim
  · obtain ⟨own'', hm'', hdone⟩ := hd m own' hw hm' (by rw [hs, hidle]; rintro ⟨⟩)
    rw [hm] at hm''
    cases hm''
    exact .inl hdone
  · exact .inr (.inr hdormant)

/-- A change that leaves the symbols alone. -/
theorem edit (h : Via floor s₀ s) {p : Program} (he : s.program.Edit floor p) (hs : p.symbols = s.program.symbols) :
    Via floor s₀ { s with program := p } := by
  have ht := h.toTrail.edit he fun f _ => by rw [Program.decl, Program.symbol, hs, Program.decl, Program.symbol]
  exact h.extend ht (he.later h.sound.program) (.of_symbols (he.later h.sound.program) hs)

/-- A symbol is added that nothing has to follow: neither a module nor a function, and without a scope of its own. -/
theorem symbol (h : Via floor s₀ s) {x : Symbol} (hx : s.program.Addable floor x) (ho : x.ownScope = none)
    (hd : x.decl.isSimple) : Via floor s₀ { s with program := s.program.addSymbol x } := by
  have he : s.program.Edit floor (s.program.addSymbol x) := .symbol x hx fun own ha => by rw [ha] at hd; cases hd
  exact h.extend (h.toTrail.edit he fun _ hf => Program.decl_addSymbol_of_lt _ x hf) (he.later h.sound.program)
    (.of_simple (he.later h.sound.program) rfl ho hd)

/-- An array is added and recorded. -/
theorem array (h : Via floor s₀ s) {x : Symbol} (own : ArrayDecl) (hx : s.program.Addable floor x)
    (hd : x.decl = .array own) (hkey : s.program.arrays.lookup (own.element, own.length) = none) :
    Via floor s₀ { s with program :=
      { s.program.addSymbol x with
        arrays := ((own.element, own.length), s.program.nextSymbol) :: s.program.arrays } } := by
  have he : s.program.Edit floor _ := .array x own hx hd hkey
  have ho : x.ownScope = none := by
    have hin := hx.admits.inOrder
    rwa [Program.InOrder, hd] at hin
  refine h.extend (h.toTrail.edit he fun _ hf => Program.decl_addSymbol_of_lt _ x hf) (he.later h.sound.program)
    (.of_push (he.later h.sound.program) rfl (by simp [ho]) (by simp [hd]) ?_ (by simp [hd]))
  rintro ⟨own', hs, -⟩
  rw [hd] at hs
  cases hs

/-- A module that is not being bound is not being bound afterwards. -/
theorem status_ne_busy (h : Via floor s₀ s) {m : SymbolId} {own own' : ModuleDecl} (hp : ¬ floor.pending m .busy)
    (hm : s₀.program.module? m = some own) (hb : own.status ≠ .busy) (hm' : s.program.module? m = some own') :
    own'.status ≠ .busy := by
  intro hbusy
  rcases h.settled.modules m own' hm' with hd | hpending | ⟨own'', hm'', hs⟩ | ⟨hi, -⟩
  · rw [hd] at hbusy
    cases hbusy
  · exact hp (hbusy ▸ hpending)
  · rw [hm] at hm''
    cases hm''
    exact hb (hs.trans hbusy)
  · rw [hi] at hbusy
    cases hbusy

/-- A module that is done stays done. -/
theorem status_done (h : Via floor s₀ s) {m : SymbolId} {own own' : ModuleDecl} (hp : ∀ status, ¬ floor.pending m status)
    (hm : s₀.program.module? m = some own) (hd : own.status = .done) (hm' : s.program.module? m = some own') :
    own'.status = .done := by
  rcases h.settled.modules m own' hm' with hd' | hpending | ⟨own'', hm'', hs⟩ | ⟨hi, -⟩
  · exact hd'
  · exact absurd hpending (hp _)
  · rw [hm] at hm''
    cases hm''
    exact hs.symm.trans hd
  · -- what has an entry keeps it, and is not idle
    obtain ⟨own'', hm'', -, he⟩ := h.later.module hm
    rw [hm'] at hm''
    cases hm''
    cases hentry : own.entry with
    | none =>
      have := (h.base.program.module hm).1.2 hentry
      rw [hd] at this
      cases this
    | some e =>
      have := (h.sound.program.module hm').1.1 hi
      rw [he e hentry] at this
      cases this

theorem quiet (h : Via floor s₀ s) {names : NameTable} {log : Log} (hl : s.log.errorCount ≤ log.errorCount) :
    Via floor s₀ { s with names, log } := by
  refine h.extend (h.toTrail.step (.quiet names log hl) fun f a b ty ha hty hb => ?_)
    (.refl h.sound.program.nested) (.refl _)
  have hb : s.program.function? f = some b := hb
  rw [ha] at hb
  cases hb
  exact hty

end Via

theorem Via.start {k : Nat} {c : Context} {s : BindState} (hc : Ready k c s) : At k s s :=
  .refl hc.sound ⟨hc.le, Nat.le_refl _, Nat.le_refl _, Nat.le_refl _, by rintro _ ⟨⟩, id, id⟩

/-! ## Declaring templates -/

/-- The statements of a scope may be declared by steps that leave other scopes alone. -/
structure Opens (coherent : Prop) (b : Option ScopeId) (sc : ScopeId) (s : BindState) : Prop where
  base : coherent → s.program.Coherent
  clear : coherent → s.program.Clear sc
  body : b = some sc ∨ (s.program.scope sc).kind = .module

theorem Opens.of_bare {s : BindState} {sc : ScopeId} (hs : s.Sound) (hk : (s.program.scope sc).kind ≠ .module)
    (h : s.program.Bare sc) : Opens s.program.Coherent (some sc) sc s := ⟨id, fun _ => .of_kind hs.program hk h, .inl rfl⟩

namespace AtBody

variable {k : Nat} {b : Option ScopeId} {coherent : Prop} {c : Context} {s₀ s : BindState}

theorem start (hc : Ready k c s) (ho : coherent → s.program.Coherent) : AtBody k b coherent s s :=
  .refl hc.sound ⟨hc.le, Nat.le_refl _, Nat.le_refl _, Nat.le_refl _, by rintro _ ⟨⟩, id, ho⟩

/-- What is left alone later on is left alone from the start. -/
theorem floor_le (h : AtBody k none coherent s₀ s) :
    { s₀.floor k with body := none, coherent } ≤ { s.floor k with body := none, coherent } :=
  ⟨Nat.le_refl _, h.later.nodes, h.later.scopes.size, h.later.symbols, by rintro _ ⟨⟩, id, id⟩

theorem trans {t : BindState} (h : AtBody k none coherent s₀ s) (h' : AtBody k none coherent s t) :
    AtBody k none coherent s₀ t := h.chain h' (floor_le h) fun _ _ => id

end AtBody

namespace AtScopes

variable {k m : Nat} {c : Context} {s₀ s : BindState}

theorem start (hc : Ready k c s) (hm : m ≤ s.program.scopes.size) : AtScopes k m s s :=
  .refl hc.sound ⟨hc.le, Nat.le_refl _, hm, Nat.le_refl _, by rintro _ ⟨⟩, id, id⟩

/-- The scopes that were just made may be changed. -/
theorem le (h : At k s₀ s) (hm : s₀.program.scopes.size ≤ m) : s₀.floor k ≤ { s.floor k with scopes := m } :=
  ⟨Nat.le_refl _, h.later.nodes, hm, h.later.symbols, by rintro _ ⟨⟩, id, h.coherent⟩

end AtScopes

namespace AtDeclared

variable {k : Nat} {b : Option ScopeId} {coherent : Prop} {waiting : SymbolId → Prop} {c : Context}
  {s₀ s : BindState}

/-- Templates may be declared in the scope as long as its statements are. -/
theorem declares (h : AtDeclared k b coherent waiting s₀ s) (hc : Ready k c s₀) (ho : Opens coherent b c.scope s₀) :
    s.program.Declares (Floor.awaiting { s₀.floor k with body := b, coherent } waiting) c.scope where
  place := by
    refine .inr (ho.body.imp_right fun hk => ?_)
    rw [h.later.scopes.kind _ hc.scope, hk]
  begun hcoh m own hm hsc hidle := by
    by_cases hlt : m.index < s₀.program.symbols.size
    · obtain ⟨own', hm', hidle'⟩ := h.later.idle h.base.program h.sound.program hlt hm hidle
      exact (ho.clear hcoh).begun m own' hm' (by rw [← h.later.ownScope m hlt, hsc]) hidle'
    · exact absurd hc.scope (Nat.not_lt.2 (h.frame.own m _ (Nat.le_of_not_lt hlt) hsc))

/-- While no instance is recorded, the templates of the scope have none. -/
theorem unused (h : AtDeclared k b coherent waiting s₀ s) {sc : ScopeId} (ho : Opens coherent b sc s₀) (hcoh : coherent)
    (hm : s.program.memo = s₀.program.memo) {x : SymbolId} {own : TemplateDecl} (hx : s.program.template? x = some own)
    (hs : (s.program.symbol x).scope = sc) : own.instances = [] := by
  refine List.eq_nil_iff_forall_not_mem.2 fun y hy => ?_
  obtain ⟨fingerprint, he⟩ := ((h.coherent hcoh).memoized.listed x own hx).2 y hy
  rw [hm] at he
  obtain ⟨own', hx', -⟩ := (ho.base hcoh).memoized.recorded _ he
  exact (ho.clear hcoh).bare x own' hx' (by rw [← h.later.scope x (Program.lt_of_template hx'), hs])

end AtDeclared

/-! ## Labels -/

namespace Program

variable {p q : Program} {c : Context} {again : Bool} {l : SymbolId} {sc : ScopeId}

/-- At most the given label stands in a scope. -/
def Labelled (p : Program) (sc : ScopeId) (label : Option SymbolId) : Prop :=
  ∀ l own, p.decl l = .label own → (p.symbol l).scope = sc → label = some l

/-- A label around a place that belongs to the function there. A loop has it if it is to be continued. -/
def Targets (p : Program) (c : Context) (again : Bool) (l : SymbolId) : Prop :=
  ∃ own, p.decl l = .label own ∧ own.function = c.function ∧ (again → own.isLoop) ∧
    (p.symbol l).scope ∈ p.ancestors c.scope

/-- A jump may leave a place to a label: to that of the innermost loop, to one around the place, or to one around a default. -/
def InReach (p : Program) (c : Context) (again : Bool) (l : SymbolId) : Prop :=
  p.HoldsDefault (p.symbol l).scope ∨ c.loopLabel = some l ∨ p.Targets c again l

theorem Labelled.of_addScope (hp : p.Sound) (x : Scope) : (p.addScope x).Labelled p.nextScope none := by
  intro l own hl hs
  have hlt : l.index < p.symbols.size := lt_of_decl (by rw [show p.decl l = _ from hl]; simp)
  have hsc := (hp.admits l hlt).scope
  rw [show (p.symbol l).scope = _ from hs] at hsc
  exact absurd hsc (Nat.lt_irrefl _)

theorem Targets.later (h : p.Later q) (hc : c.scope.index < p.scopes.size) (ht : p.Targets c again l) :
    q.Targets c again l := by
  obtain ⟨own, hd, hf, hloop, ha⟩ := ht
  have hlt : l.index < p.symbols.size := lt_of_decl (by rw [hd]; simp)
  exact ⟨own, h.label hd, hf, hloop, by rwa [h.scope l hlt, h.ancestors hc]⟩

/-- What is in reach stays in reach. -/
theorem InReach.later (h : p.Later q) (hp : p.Sound) (hc : c.scope.index < p.scopes.size) (hl : l.index < p.symbols.size)
    (hr : p.InReach c again l) : q.InReach c again l := by
  refine hr.imp (fun hd => ?_) (.imp_right (.later h hc))
  rw [h.scope l hl]
  exact h.holdsDefault (hp.admits l hl).scope hd

end Program

/-- A scope that is older than the floor gets no label. -/
theorem Trail.labelled {floor : Floor} {s₀ s : BindState} (h : Trail floor s₀ s) {sc : ScopeId} {label : Option SymbolId}
    (hl : s₀.program.Labelled sc label) (hsc : sc.index < floor.scopes) : s.program.Labelled sc label := by
  intro l own hd hs
  by_cases hlt : l.index < s₀.program.symbols.size
  · exact hl l own (h.later.label_of_later hlt hd) (by rw [← h.later.scope l hlt, hs])
  · have hle := h.frame.labels l own (Nat.le_of_not_lt hlt) hd
    rw [hs] at hle
    exact absurd hsc (Nat.not_lt.2 hle)

/-! ## Held nodes -/

/-- A node that a rule holds at a place. A literal that may still be retyped is not older than `k`. -/
structure Held (k : Nat) (c : Context) (s : BindState) (n : NodeId) : Prop where
  range : n.index < s.program.nodes.size
  floor : s.program.Adaptable n → k ≤ n.index
  names : ∀ x, s.program.Names n x → (s.program.decl x).isVariable → s.program.Seen c.scope x
  returns : ∀ ty, s.program.Returns n ty →
    ∃ f own, c.function = some f ∧ s.program.function? f = some own ∧ own.ret = some ty

/-- A node that a rule keeps at a place: one that it holds, with jumps that stay in reach if that is asked for. -/
structure Kept (k : Nat) (c : Context) (s : BindState) (n : NodeId) (w : Prop := True) : Prop extends Held k c s n where
  jumps : w → ∀ again l, s.program.Leaves n again l → s.program.InReach c again l

@[simp] theorem kept_false {k : Nat} {c : Context} {s : BindState} {n : NodeId} : Kept k c s n False ↔ Held k c s n :=
  ⟨fun h => h.toHeld, fun h => ⟨h, False.elim⟩⟩

/-- A node that a rule passes on: one that it keeps and has not retyped. Both are left open if they are not asked for. -/
structure Passed (k : Nat) (c : Context) (s : BindState) (n : NodeId) (w : Prop := True) : Prop extends Kept k c s n w where
  natural : w → s.program.Natural → (s.program.node n).IsNatural

@[simp] theorem passed_false {k : Nat} {c : Context} {s : BindState} {n : NodeId} : Passed k c s n False ↔ Held k c s n :=
  ⟨fun h => h.toHeld, fun h => ⟨kept_false.2 h, False.elim⟩⟩

/-- A node is no name, or one that may stand at a place. -/
def Visible (c : Context) (s : BindState) (n : NodeId) : Prop :=
  ∀ x, (s.program.node n).kind = .valueName x [] → s.program.InSight c.scope x

/-- The node that a rule gives: kept, used by no other node and not retyped as long as it may be, and visible where it is
a name. -/
structure Result (k : Nat) (c : Context) (s : BindState) (n : NodeId) (w : Prop := True) : Prop where
  held : Kept k c s n w
  spare : s.program.Adaptable n → s.program.Loose n
  natural : s.program.Natural → (s.program.node n).IsNatural
  visible : Visible c s n

namespace Held

variable {k k' : Nat} {c : Context} {s t : BindState} {n : NodeId}

theorem lower (h : Held k c s n) (hk : k' ≤ k) : Held k' c s n :=
  { h with floor := fun ha => Nat.le_trans hk (h.floor ha) }

theorem seen {m : Nat} (hc : Ready k c s) (hm : c.scope.index < m) (ht : Keeps m s t) {x : SymbolId}
    (hx : x.index < s.program.symbols.size) (hv : s.program.Seen c.scope x) : t.program.Seen c.scope x := by
  refine ht.later.seen hx (hc.sound.program.admits x hx).scope hc.scope (fun R hR ho hk => ?_) hv
  have hle := Program.index_le_of_mem_ancestors hc.sound.program.nested (Program.mem_ancestors_of_region? hR)
  rw [ht.owner R (Nat.lt_of_le_of_lt hle hm)]
  rw [ht.later.scopes.kind R (Nat.lt_of_le_of_lt hle hc.scope)] at hk
  exact ho hk

/-- **What is held stays held.** -/
theorem keep {m : Nat} (h : Held k c s n) (hc : Ready k c s) (hm : c.scope.index < m) (ht : Keeps m s t) :
    Held k c t n where
  range := Nat.lt_of_lt_of_le h.range ht.later.nodes
  floor ha := h.floor ((ht.later.adaptable h.range).1 ha)
  names x hx hv := by
    have hx := ht.later.names hc.sound.program.ordered h.range hx
    have hlt := (hc.sound.program.range_of_names hx).1
    rw [ht.later.isVariable hlt] at hv
    exact seen hc hm ht hlt (h.names x hx hv)
  returns ty hr := by
    obtain ⟨f, own, hf, ho, hty⟩ := h.returns ty (ht.later.returns hc.sound.program.ordered h.range hr)
    obtain ⟨own', ho', -⟩ := ht.later.function ho
    exact ⟨f, own', hf, ho', ht.rets f own own' ty ho hty ho'⟩

end Held

namespace Kept

variable {k k' : Nat} {c : Context} {s t : BindState} {n : NodeId} {w w' : Prop}

theorem lower (h : Kept k c s n w) (hk : k' ≤ k) : Kept k' c s n w := { h with floor := (h.toHeld.lower hk).floor }

/-- Less may be asked for. -/
theorem imp (h : Kept k c s n w) (hw : w' → w) : Kept k c s n w' := { h with jumps := fun hw' => h.jumps (hw hw') }

theorem keep {m : Nat} (h : Kept k c s n w) (hc : Ready k c s) (hm : c.scope.index < m) (ht : Keeps m s t) :
    Kept k c t n w where
  toHeld := h.toHeld.keep hc hm ht
  jumps hw again l hl := by
    have hl := ht.later.leaves hc.sound.program.ordered h.range hl
    exact (h.jumps hw again l hl).later ht.later hc.sound.program hc.scope (hc.sound.program.range_of_leaves hl).1

theorem mono (h : Kept k c s n w) (hc : Ready k c s) (ht : At k' s t) : Kept k c t n w := h.keep hc hc.scope ht.keeps

end Kept

namespace Passed

variable {k k' : Nat} {c : Context} {floor : Floor} {s t : BindState} {n : NodeId} {w w' : Prop}

theorem lower (h : Passed k c s n w) (hk : k' ≤ k) : Passed k' c s n w := { h with toKept := h.toKept.lower hk }

theorem imp (h : Passed k c s n w) (hw : w' → w) : Passed k c s n w' :=
  { toKept := h.toKept.imp hw, natural := fun hw' => h.natural (hw hw') }

/-- What is passed on stays so while no node is retyped and the scopes around the place keep their owners. -/
theorem keep (h : Passed k c s n w) (hc : Ready k c s) (ht : Via floor s t) (hn : floor.nodes = s.program.nodes.size)
    (hsc : c.scope.index < floor.scopes) : Passed k c t n w where
  toKept := h.toKept.keep hc hsc ht.keeps
  natural hw hnat := by
    rw [ht.frame.nodes n h.range (hn ▸ h.range)]
    exact h.natural hw (ht.later.natural_of_later hc.sound.program hnat)

theorem mono (h : Passed k c s n w) (hc : Ready k c s) (ht : At k' s t) : Passed k c t n w := h.keep hc ht rfl hc.scope

end Passed

namespace Visible

variable {k : Nat} {c : Context} {s t : BindState} {n : NodeId}

theorem mono (h : Visible c s n) (hc : Ready k c s) (hn : n.index < s.program.nodes.size)
    (ht : s.program.Later t.program) : Visible c t n := by
  intro x hk
  rw [ht.kind n hn] at hk
  have hlt := ((hc.sound.program.fits n hn).named x [] hk).1
  exact ht.inSight hlt (hc.sound.program.admits x hlt).scope hc.scope (h x hk)

end Visible

namespace Result

variable {k k' : Nat} {c : Context} {s t : BindState} {n : NodeId} {w : Prop}

theorem lower (h : Result k c s n w) (hk : k' ≤ k) : Result k' c s n w := { h with held := h.held.lower hk }

theorem passed (h : Result k c s n w) : Passed k c s n w := ⟨h.held, fun _ => h.natural⟩

/-- A result stays one while rules run that do not know of it. -/
theorem mono (h : Result k c s n w) (hc : Ready k c s) (ht : At k' s t) (hn : s.program.Adaptable n → n.index < k') :
    Result k c t n w where
  held := h.held.mono hc ht
  visible := h.visible.mono hc h.held.range ht.later
  natural hn := by
    rw [ht.frame.nodes n h.held.range h.held.range]
    exact h.natural (ht.later.natural_of_later hc.sound.program hn)
  spare ha := by
    have hs := (ht.later.adaptable h.held.range).1 ha
    have hlow : ¬ k' ≤ n.index := Nat.not_le.2 (hn hs)
    refine ⟨fun m hm => ?_, fun x tag hx => ?_⟩
    · by_cases hlt : m.index < s.program.nodes.size
      · rw [ht.later.kind m hlt] at hm
        exact (h.spare hs).operand m hm
      · exact hlow (ht.frame.operands m n (Nat.le_of_not_lt hlt) hm ha)
    · by_cases hlt : x.index < s.program.symbols.size
      · exact (h.spare hs).constant x tag (ht.later.constAlias_of_later hlt hx)
      · exact hlow (ht.frame.constants x tag n (Nat.le_of_not_lt hlt) hx ha)

end Result

/-! ## Sequences -/

namespace BindM

variable {α β : Type} {floor : Floor} {k : Nat} {c : Context} {s₀ s : BindState}

namespace Ends

variable {x : BindM α} {P : α → BindState → Prop}

/-- A sequence of its own as a part of one that began earlier. -/
theorem chain {floor' : Floor} {f : α → BindM β} {Q : β → BindState → Prop} (hs : Via floor s₀ s) (hle : floor ≤ floor')
    (hp : ∀ m status, floor'.pending m status → floor.pending m status) (hx : Ends x c s (Via floor' s) P)
    (hf : ∀ a t, Via floor s₀ t → Via floor' s t → P a t → Ends (f a) c t (Via floor s₀) Q) :
    Ends (x >>= f) c s (Via floor s₀) Q :=
  (hx.and_reach.weaken fun _ ht => hs.chain ht hle hp).bind fun a t ht hp => hf a t ht hp.1 hp.2

/-- A rule as one of a sequence that began earlier. -/
theorem next {f : α → BindM β} {Q : β → BindState → Prop} (hs : Via floor s₀ s) (hk : floor.operands ≤ k)
    (hx : Ends x c s (At k s) P)
    (hf : ∀ a t, Via floor s₀ t → At k s t → P a t → Ends (f a) c t (Via floor s₀) Q) :
    Ends (x >>= f) c s (Via floor s₀) Q := chain hs (hs.le_floor hk) (fun _ _ => False.elim) hx hf

/-- A rule as the last of a sequence that began earlier. -/
theorem last {Q : α → BindState → Prop} (hs : Via floor s₀ s) (hk : floor.operands ≤ k) (hx : Ends x c s (At k s) P)
    (hq : ∀ a t, Via floor s₀ t → At k s t → P a t → Q a t) : Ends x c s (Via floor s₀) Q :=
  (hx.and_reach.weaken fun _ ht => hs.trans ht hk).mono fun a t ht hp => hq a t ht hp.1 hp.2

end Ends

/-- A rule that knows no node when it starts. -/
def Closed (rule : BindM α) (post : Nat → Context → BindState → α → Prop) : Prop :=
  ∀ c s, Ready s.program.nodes.size c s → Ends rule c s (At s.program.nodes.size s) fun a t => post s.program.nodes.size c t a

theorem report_ends (hs : Via floor s₀ s) (diagnostic : Diagnostic) :
    Ends (report diagnostic) c s (Via floor s₀) fun _ t => t.program = s.program := by
  have hl : s.log.errorCount ≤ (s.log.add diagnostic).errorCount := by
    unfold Log.add
    split <;> simp
  exact ⟨hs.quiet hl, fun _ _ => rfl⟩

theorem error_ends (hs : Via floor s₀ s) (pos : Span) (message : Message) (args : List String) :
    Ends (error pos message args) c s (Via floor s₀) fun _ t => t.program = s.program := report_ends hs _

theorem fail_ends (hs : Via floor s₀ s) (pos : Span) (message : Message) (args : List String)
    (P : α → BindState → Prop) : Ends (fail pos message args) c s (Via floor s₀) P :=
  (error_ends hs pos message args).bind fun _ _ ht _ => .failure ht

/-- What comes after a failure is not run. -/
theorem fail_bind_ends (hs : Via floor s₀ s) (pos : Span) (message : Message) (args : List String) {f : α → BindM β}
    (P : β → BindState → Prop) : Ends (fail pos message args >>= f) c s (Via floor s₀) P :=
  (fail_ends hs pos message args fun _ _ => False).bind fun _ _ _ h => h.elim

theorem useName_ends (hs : Via floor s₀ s) (name : String) :
    Ends (useName name) c s (Via floor s₀) fun _ t => t.program = s.program :=
  ⟨hs.quiet (Nat.le_refl _), fun _ _ => rfl⟩

theorem freshName_ends (hs : Via floor s₀ s) (hint : String) :
    Ends (freshName hint) c s (Via floor s₀) fun _ t => t.program = s.program :=
  ⟨hs.quiet (Nat.le_refl _), fun _ _ => rfl⟩

/-! ## Lists -/

/-- A rule for every item of a list. What holds of a result holds at the end if other rules keep it. -/
theorem mapM_ends {g : Context} {rule : α → BindM β} {Q : β → BindState → Prop} :
    ∀ {items : List α} {s : BindState}, Ready k g s → (∀ y t u, At k s t → At k t u → Q y t → Q y u) →
      (∀ x ∈ items, ∀ t, At k s t → Ends (rule x) c t (At k t) Q) →
      Ends (items.mapM rule) c s (At k s) fun ys t => ∀ y ∈ ys, Q y t
  | [], s, hg, _, _ => by
    rw [List.mapM_nil]
    exact .pure (.start hg) (by simp)
  | x :: items, s, hg, hQ, hrule => by
    rw [List.mapM_cons]
    refine .next (.start hg) (Nat.le_refl k) (hrule x (by simp) s (.start hg)) fun y t ht _ hy => ?_
    have hrest : Ends (items.mapM rule) c t (At k t) fun ys u => ∀ y ∈ ys, Q y u :=
      mapM_ends (ht.ready hg) (fun y u v hu huv => hQ y u v (ht.trans hu (Nat.le_refl k)) huv)
        fun x hx u hu => hrule x (by simp [hx]) u (ht.trans hu (Nat.le_refl k))
    exact .next ht (Nat.le_refl k) hrest fun ys u hu htu hys => .pure hu (by simpa using ⟨hQ y t u ht htu hy, hys⟩)

/-- A rule for every item of a list, where coherence may be left open. -/
theorem mapM_body_ends {coherent : Prop} {g : Context} {rule : α → BindM β} {Q : β → BindState → Prop} :
    ∀ {items : List α} {s : BindState}, Ready k g s → (coherent → s.program.Coherent) →
      (∀ y t u, AtBody k none coherent s t → AtBody k none coherent t u → Q y t → Q y u) →
      (∀ x ∈ items, ∀ t, AtBody k none coherent s t → Ends (rule x) c t (AtBody k none coherent t) Q) →
      Ends (items.mapM rule) c s (AtBody k none coherent s) fun ys t => ∀ y ∈ ys, Q y t
  | [], s, hg, hcoh, _, _ => by
    rw [List.mapM_nil]
    exact .pure (.start hg hcoh) (by simp)
  | x :: items, s, hg, hcoh, hQ, hrule => by
    rw [List.mapM_cons]
    have hstart := AtBody.start (b := none) hg hcoh
    refine .chain hstart (AtBody.floor_le hstart) (fun _ _ => id) (hrule x (by simp) s hstart) fun y t ht _ hy => ?_
    have hrest : Ends (items.mapM rule) c t (AtBody k none coherent t) fun ys u => ∀ y ∈ ys, Q y u :=
      mapM_body_ends (ht.ready hg) ht.coherent
        (fun y u v hu huv => hQ y u v (AtBody.trans ht hu) huv)
        fun x hx u hu => hrule x (by simp [hx]) u (AtBody.trans ht hu)
    exact .chain ht (AtBody.floor_le ht) (fun _ _ => id) hrest fun ys u hu htu hys =>
      .pure hu (by simpa using ⟨hQ y t u ht htu hy, hys⟩)

/-- What every rule of a list keeps is kept by all of them. -/
theorem mapM_reach {g : Context} {rule : α → BindM β} {reach : BindState → Prop} :
    ∀ {items : List α} {s : BindState}, Ready k g s → reach s →
      (∀ x ∈ items, ∀ t, At k s t → reach t →
        Ends (rule x) c t (At k t) (fun _ _ => True) ∧ Ends (rule x) c t reach fun _ _ => True) →
      Ends (items.mapM rule) c s reach fun _ _ => True
  | [], s, _, hs, _ => by
    rw [List.mapM_nil]
    exact .pure hs trivial
  | x :: items, s, hg, hs, hrule => by
    rw [List.mapM_cons]
    obtain ⟨hat, hreach⟩ := hrule x (by simp) s (.start hg) hs
    refine .bind (hreach.and hat.and_reach) ?_
    rintro y t hs ⟨-, ht, -⟩
    refine .bind (mapM_reach (ht.ready hg) hs fun x hx u hu => ?_) fun ys u hu _ => .pure hu trivial
    exact hrule x (by simp [hx]) u (ht.trans hu (Nat.le_refl k))

theorem forM_ends {g : Context} {rule : α → BindM PUnit} : ∀ {items : List α} {s : BindState}, Ready k g s →
    (∀ x ∈ items, ∀ t, At k s t → Ends (rule x) c t (At k t) fun _ _ => True) →
    Ends (items.forM rule) c s (At k s) fun _ _ => True
  | [], s, hg, _ => .pure (.start hg) trivial
  | x :: items, s, hg, hrule => by
    refine .next (.start hg) (Nat.le_refl k) (hrule x (by simp) s (.start hg)) fun _ t ht _ _ => ?_
    refine .last ht (Nat.le_refl k) (forM_ends (ht.ready hg) fun x hx u hu => ?_) fun _ _ _ _ h => h
    exact hrule x (by simp [hx]) u (ht.trans hu (Nat.le_refl k))

end BindM

end Bindery
