import Bindery.Proofs.Arguments
import Mathlib.Data.List.Basic
/-!
# Arities and argument slots

A template is chosen by the number of its arguments alone, and only then are the arguments given to its parameters. The
two agree: arguments that can be given fit the arity, and arguments without names that fit the arity can be given.
-/
namespace Bindery

/-! ## The shape of a parameter list -/

/-- A parameter list in three parts: parameters that must be given, parameters with a default, and at most one parameter
that takes all arguments left. -/
structure Param.Segments (params required defaults varargs : List Param) : Prop where
  eq : params = required ++ defaults ++ varargs
  given : ∀ param ∈ required, param.isOptional = false
  defaulted : ∀ param ∈ defaults, param.vararg = false ∧ param.default.isSome
  rest : ∀ param ∈ varargs, param.vararg = true
  single : varargs.length ≤ 1

namespace Arity

variable {arity result : Arity} {params required defaults varargs : List Param}

theorem extend_required (h : ∀ param ∈ required, param.isOptional = false) (hd : arity.default = 0) :
    extend arity (required ++ params) = extend { arity with required := arity.required + required.length } params := by
  induction required generalizing arity with
  | nil => rfl
  | cons param rest ih =>
    obtain ⟨hv, hn⟩ : param.vararg = false ∧ param.default.isSome = false := by
      simpa [Param.isOptional] using h param List.mem_cons_self
    have hrest : extend { arity with required := arity.required + 1 } (rest ++ params) = _ :=
      ih (fun p hp => h p (List.mem_cons_of_mem _ hp)) hd
    rw [List.cons_append, extend, if_neg (by simp [hv]), if_neg (by simp [hn]), if_neg (by omega), hrest]
    simp only [List.length_cons, Nat.add_assoc, Nat.add_comm 1]

theorem extend_defaults (h : ∀ param ∈ defaults, param.vararg = false ∧ param.default.isSome) :
    extend arity (defaults ++ params) = extend { arity with default := arity.default + defaults.length } params := by
  induction defaults generalizing arity with
  | nil => rfl
  | cons param rest ih =>
    obtain ⟨hv, hs⟩ := h param List.mem_cons_self
    rw [List.cons_append, extend, if_neg (by simp [hv]), if_pos hs, ih fun p hp => h p (List.mem_cons_of_mem _ hp)]
    simp only [List.length_cons, Nat.add_assoc, Nat.add_comm 1]

theorem extend_varargs (h : ∀ param ∈ varargs, param.vararg = true) (hl : varargs.length ≤ 1) :
    extend arity varargs = .ok { arity with vararg := arity.vararg || !varargs.isEmpty } := by
  match varargs with
  | [] => simp [extend]
  | [param] => simp [extend, h param List.mem_cons_self]

/-- A parameter list that is taken falls into its parts. None of it must be given when there were defaults before. -/
theorem segments_of_extend (h : extend arity params = .ok result) :
    ∃ required defaults varargs, Param.Segments params required defaults varargs ∧
      (0 < arity.default → required = []) := by
  fun_induction extend arity params with
  | case1 arity => exact ⟨[], [], [], ⟨rfl, by simp, by simp, by simp, by simp⟩, fun _ => rfl⟩
  | case2 arity param rest hv hr ih =>
    obtain rfl := List.isEmpty_iff.1 hr
    exact ⟨[], [], [param], ⟨rfl, by simp, by simp, by simpa using hv, by simp⟩, fun _ => rfl⟩
  | case3 => cases h
  | case4 arity param rest hv hs ih =>
    obtain ⟨required, defaults, varargs, hseg, hreq⟩ := ih h
    obtain rfl := hreq (Nat.succ_pos _)
    refine ⟨[], param :: defaults, varargs, ⟨by rw [hseg.eq]; rfl, by simp, ?_, hseg.rest, hseg.single⟩, fun _ => rfl⟩
    exact List.forall_mem_cons.2 ⟨⟨by simpa using hv, hs⟩, hseg.defaulted⟩
  | case5 => cases h
  | case6 arity param rest hv hs hd ih =>
    obtain ⟨required, defaults, varargs, hseg, -⟩ := ih h
    refine ⟨param :: required, defaults, varargs, ⟨by rw [hseg.eq]; rfl, ?_, hseg.defaulted, hseg.rest, hseg.single⟩,
      fun h => absurd h hd⟩
    exact List.forall_mem_cons.2 ⟨by simp [Param.isOptional, hv, hs], hseg.given⟩

theorem ofParams_of_segments (h : Param.Segments params required defaults varargs) (receiver : Bool) :
    ofParams params receiver =
      .ok { required := required.length, default := defaults.length, vararg := !varargs.isEmpty, receiver } := by
  rw [ofParams, h.eq, List.append_assoc, extend_required h.given rfl, extend_defaults h.defaulted,
    extend_varargs h.rest h.single]
  simp only [Nat.zero_add, Bool.false_or]

/-- **A parameter list has an arity exactly if it falls into its three parts**, and the arity counts them. -/
theorem ofParams_eq_ok {receiver : Bool} : ofParams params receiver = .ok arity ↔
    ∃ required defaults varargs, Param.Segments params required defaults varargs ∧
      arity = { required := required.length, default := defaults.length, vararg := !varargs.isEmpty, receiver } := by
  constructor
  · intro h
    obtain ⟨required, defaults, varargs, hseg, -⟩ := segments_of_extend h
    rw [ofParams_of_segments hseg] at h
    cases h
    exact ⟨required, defaults, varargs, hseg, rfl⟩
  · rintro ⟨required, defaults, varargs, hseg, rfl⟩
    exact ofParams_of_segments hseg receiver

end Arity

/-! ## Giving arguments to parameters -/

namespace Param

variable {params : List Param} {args : List CallArg} {slots slots' : List (List CallArg)}

/-- What the parameter at a place takes of the arguments that have no names. -/
def share (args : List CallArg) (place : Nat) (param : Param) : List CallArg :=
  if param.vararg then args.drop place else (args.drop place).take 1

/-- Whether a parameter may be given by a name. -/
def answers (name : String) (param : Param) : Bool := param.name = name && !param.vararg

theorem share_cons (arg : CallArg) (args : List CallArg) :
    (fun place => share (arg :: args) (place + 1)) = share args := by
  funext place param
  simp [share]

theorem share_nil : (fun place => share [] (place + 1)) = share [] := by
  funext place param
  simp [share]

/-- If only the last parameter takes several arguments, each parameter takes its share, and nothing may be left. -/
theorem fill_eq (h : params.Pairwise fun param _ => param.vararg = false) :
    fill params args = if args.length ≤ params.length ∨ params.any (·.vararg) then .ok (params.mapIdx (share args))
      else .error .count := by
  fun_induction fill params args with
  | case1 => simp
  | case2 => simp
  | case3 param args hv => simp [hv, share]
  | case4 param hv => simp [share]
  | case5 param hv arg => simp [share, hv]
  | case6 param args hv h0 h1 =>
    rcases args with _ | ⟨arg, _ | ⟨next, rest⟩⟩
    · exact absurd rfl h0
    · exact absurd rfl (h1 arg)
    · simp [hv]
  | case7 param params hne ih =>
    rw [ih (List.pairwise_cons.1 h).2, List.mapIdx_cons, share_nil]
    simp [share, Except.map]
  | case8 param params arg args hne ih =>
    obtain ⟨hhead, htail⟩ := List.pairwise_cons.1 h
    obtain ⟨other, hother⟩ := List.exists_mem_of_ne_nil params hne
    rw [ih htail, List.mapIdx_cons, share_cons]
    simp only [List.length_cons, Nat.add_le_add_iff_right, List.any_cons, hhead other hother, Bool.false_or]
    split <;> simp [share, Except.map, hhead other hother]

/-- A named argument goes to the first parameter of its name, which was given nothing before. -/
theorem give_ok {pos : Span} {name : String} {arg : CallArg} (h : give pos name arg params slots = .ok slots') :
    ∃ j, params.findIdx? (answers name) = some j ∧ slots[j]? = some [] ∧ slots' = slots.set j [arg] := by
  fun_induction give pos name arg params slots generalizing slots' with
  | case1 param params slot slots hname hempty =>
    cases h
    exact ⟨0, by simp [List.findIdx?_cons, answers, hname], by simpa using hempty, rfl⟩
  | case2 => cases h
  | case3 param params slot slots hname ih =>
    cases hgive : give pos name arg params slots with
    | error => simp [hgive, Except.map] at h
    | ok others =>
      obtain ⟨j, hj, hslot, rfl⟩ := ih hgive
      rw [hgive] at h
      cases h
      exact ⟨j + 1, by simp [List.findIdx?_cons, answers, hname, hj], by simpa using hslot, rfl⟩
  | case4 => cases h

/-- What becomes of slots when arguments are given to them by name. -/
structure Named (params : List Param) (args : List CallArg) (slots slots' : List (List CallArg)) : Prop where
  length : slots'.length = slots.length
  once : slots'.flatten.Perm (slots.flatten ++ args.filter (·.name.isSome))
  slot : ∀ j, slots'[j]? = slots[j]? ∨ slots[j]? = some [] ∧ ∃ arg ∈ args, ∃ name, arg.name = some name ∧
    params.findIdx? (answers name) = some j ∧ slots'[j]? = some [arg]
  named : ∀ arg ∈ args, ∀ name, arg.name = some name →
    ∃ j, params.findIdx? (answers name) = some j ∧ slots'[j]? = some [arg]

theorem flatten_set_perm {j : Nat} {arg : CallArg} (h : slots[j]? = some []) :
    (slots.set j [arg]).flatten.Perm (arg :: slots.flatten) := by
  induction slots generalizing j with
  | nil => cases h
  | cons slot slots ih =>
    cases j with
    | zero =>
      obtain rfl : slot = [] := by simpa using h
      exact .refl _
    | succ j =>
      rw [List.set_cons_succ, List.flatten_cons, List.flatten_cons]
      exact ((ih (by simpa using h)).append_left slot).trans List.perm_middle

/-- **Named arguments are given one by one**, each to a slot that was empty. -/
theorem giveNamed_ok (h : giveNamed params args slots = .ok slots') : Named params args slots slots' := by
  induction args generalizing slots with
  | nil =>
    cases h
    exact ⟨rfl, by simp, fun j => .inl rfl, by simp⟩
  | cons arg args ih =>
    cases hname : arg.name with
    | none =>
      simp only [giveNamed, hname] at h
      obtain ⟨hlen, hperm, hslot, hnamed⟩ := ih h
      refine ⟨hlen, by simpa [hname] using hperm, fun j => (hslot j).imp_right ?_, ?_⟩
      · rintro ⟨hempty, a, ha, hrest⟩
        exact ⟨hempty, a, List.mem_cons_of_mem _ ha, hrest⟩
      · exact List.forall_mem_cons.2 ⟨by simp [hname], hnamed⟩
    | some name =>
      simp only [giveNamed, hname] at h
      cases hgive : give arg.pos name arg params slots with
      | error => simp [hgive, bind, Except.bind] at h
      | ok given =>
        rw [hgive] at h
        obtain ⟨hlen, hperm, hslot, hnamed⟩ := ih h
        obtain ⟨j, hj, hempty, rfl⟩ := give_ok hgive
        have hlt : j < slots.length := (List.getElem?_eq_some_iff.1 hempty).1
        have hself : slots'[j]? = some [arg] := by
          refine (hslot j).elim (fun heq => ?_) fun hgiven => ?_
          · rw [heq, List.getElem?_set_self hlt]
          · rw [List.getElem?_set_self hlt] at hgiven
            cases hgiven.1
        refine ⟨by rw [hlen, List.length_set], ?_, fun i => ?_, List.forall_mem_cons.2 ⟨?_, hnamed⟩⟩
        · refine hperm.trans (((flatten_set_perm hempty).append_right _).trans ?_)
          simp only [List.filter_cons, hname, Option.isSome_some, if_true]
          exact List.perm_middle.symm
        · by_cases hi : j = i
          · subst hi
            exact .inr ⟨hempty, arg, List.mem_cons_self, name, hname, hj, hself⟩
          · have hother : (slots.set j [arg])[i]? = slots[i]? := List.getElem?_set_ne hi
            rw [← hother]
            refine (hslot i).imp_right ?_
            rintro ⟨hempty, a, ha, hrest⟩
            exact ⟨hempty, a, List.mem_cons_of_mem _ ha, hrest⟩
        · rw [hname]
          rintro _ ⟨⟩
          exact ⟨j, hj, hself⟩

/-- What an assignment of arguments went through. -/
theorem assign_ok (h : assign params args = .ok slots) :
    ∃ filled, fill params (args.filter (·.name.isNone)) = .ok filled ∧ Named params args filled slots ∧
      ∀ param slot, (param, slot) ∈ params.zip slots → param.isOptional = false → slot ≠ [] := by
  unfold assign at h
  cases hfill : fill params (args.filter (·.name.isNone)) with
  | error => simp [hfill, bind, Except.bind] at h
  | ok filled =>
    cases hnamed : giveNamed params args filled with
    | error => simp [hfill, hnamed, bind, Except.bind] at h
    | ok given =>
      simp only [hfill, hnamed, bind, Except.bind] at h
      split at h
      · rename_i hall
        cases h
        refine ⟨filled, rfl, giveNamed_ok hnamed, fun param slot hmem hopt => ?_⟩
        simpa [hopt] using List.all_eq_true.1 hall _ hmem
      · cases h

/-- The shares of parameters are all arguments, in their order. -/
theorem flatten_share (h : params.Pairwise fun param _ => param.vararg = false)
    (hfits : args.length ≤ params.length ∨ params.any (·.vararg)) : (params.mapIdx (share args)).flatten = args := by
  induction params generalizing args with
  | nil => simpa using hfits
  | cons param params ih =>
    obtain ⟨hhead, htail⟩ := List.pairwise_cons.1 h
    rw [List.mapIdx_cons, List.flatten_cons]
    cases args with
    | nil => rw [share_nil, ih htail (by simp)]; simp [share]
    | cons arg args =>
      cases params with
      | nil =>
        cases hv : param.vararg
        · obtain rfl : args = [] := by simpa [hv] using hfits
          simp [share]
        · simp [share, hv]
      | cons other params =>
        have hv : param.vararg = false := hhead other List.mem_cons_self
        rw [share_cons, ih htail (by simpa [hv] using hfits)]
        simp [share, hv]

theorem mem_of_mem_share {j : Nat} {param : Param} {arg : CallArg} (h : arg ∈ share args j param) : arg ∈ args := by
  unfold share at h
  split at h
  · exact List.mem_of_mem_drop h
  · exact List.mem_of_mem_drop (List.mem_of_mem_take h)

/-- A slot holds the share of its parameter, or the argument that was given by name if the share is empty. -/
theorem Named.slot_cases {j : Nat} {param : Param} {slot : List CallArg} {given : List CallArg}
    (h : Named params args (params.mapIdx (share given)) slots) (hj : params[j]? = some param)
    (hs : slots[j]? = some slot) :
    slot = share given j param ∨ share given j param = [] ∧ ∃ arg, arg.name.isSome ∧ slot = [arg] := by
  have hshare : (params.mapIdx (share given))[j]? = some (share given j param) := by simp [hj]
  rcases h.slot j with heq | ⟨hempty, arg, -, name, hname, -, heq⟩
  · rw [hs, hshare] at heq
    exact .inl (Option.some.inj heq)
  · rw [hshare] at hempty
    rw [hs] at heq
    exact .inr ⟨Option.some.inj hempty, arg, by rw [hname]; rfl, Option.some.inj heq⟩

/-- Slots that hold the arguments of a call as its parameters take them. -/
structure Assigned (params : List Param) (args : List CallArg) (slots : List (List CallArg)) : Prop where
  length : slots.length = params.length
  /-- Every argument is in one slot. -/
  once : slots.flatten.Perm args
  /-- Arguments without names fill the slots from left to right. -/
  positional : ∀ (j : Nat) param slot, params[j]? = some param → slots[j]? = some slot →
    slot.filter (·.name.isNone) = share (args.filter (·.name.isNone)) j param
  /-- A named argument is in the slot of the first parameter that answers to its name. -/
  named : ∀ arg ∈ args, ∀ name, arg.name = some name →
    ∃ j slot, params.findIdx? (answers name) = some j ∧ slots[j]? = some slot ∧ arg ∈ slot
  several : ∀ (j : Nat) param slot, params[j]? = some param → slots[j]? = some slot → 1 < slot.length → param.vararg = true
  given : ∀ (j : Nat) param slot, params[j]? = some param → slots[j]? = some slot → param.vararg = false →
    param.default = none → slot.length = 1

/-- **Arguments that can be given are given once, and each to its place.** -/
theorem assigned_of_assign (hp : params.Pairwise fun param _ => param.vararg = false)
    (h : assign params args = .ok slots) : Assigned params args slots := by
  obtain ⟨filled, hfill, hnamed, hgiven⟩ := assign_ok h
  rw [fill_eq hp] at hfill
  split at hfill
  case isFalse => cases hfill
  case isTrue hfits =>
    cases hfill
    have hshort : ∀ (j : Nat) param slot, params[j]? = some param → slots[j]? = some slot → param.vararg = false →
        slot.length ≤ 1 := by
      intro j param slot hj hs hv
      rcases hnamed.slot_cases hj hs with rfl | ⟨-, arg, -, rfl⟩
      · rw [share, if_neg (by simp [hv])]
        exact List.length_take_le 1 _
      · exact Nat.le_refl 1
    refine ⟨by simpa using hnamed.length, ?_, fun j param slot hj hs => ?_, fun arg ha name hname => ?_,
      fun j param slot hj hs hl => ?_, fun j param slot hj hs hv hd => ?_⟩
    · have hperm := hnamed.once
      rw [flatten_share hp hfits] at hperm
      exact hperm.trans (by simpa using List.filter_append_perm (·.name.isNone) args)
    · rcases hnamed.slot_cases hj hs with rfl | ⟨hempty, arg, harg, rfl⟩
      · exact List.filter_eq_self.2 fun arg ha => (List.mem_filter.1 (mem_of_mem_share ha)).2
      · rw [hempty, List.filter_eq_nil_iff]
        simpa [Option.isSome_iff_ne_none] using harg
    · obtain ⟨j, hj, hs⟩ := hnamed.named arg ha name hname
      exact ⟨j, _, hj, hs, List.mem_singleton_self arg⟩
    · cases hv : param.vararg
      · exact absurd (hshort j param slot hj hs hv) (by omega)
      · rfl
    · have hne := hgiven param slot (List.mem_iff_getElem?.2 ⟨j, by simp [List.getElem?_zip_eq_some, hj, hs]⟩)
        (by simp [isOptional, hv, hd])
      have := List.length_pos_of_ne_nil hne
      have := hshort j param slot hj hs hv
      omega

/-! ## Arities and slots -/

variable {required defaults varargs : List Param} {arity : Arity} {receiver : Bool}

/-- What a parameter can do without depends on its place only. -/
theorem Segments.at_place (h : Segments params required defaults varargs) {j : Nat} {param : Param}
    (hj : params[j]? = some param) :
    param.isOptional = decide (required.length ≤ j) ∧
      param.vararg = decide (required.length + defaults.length ≤ j) := by
  rw [h.eq] at hj
  by_cases hr : j < required.length
  · rw [List.append_assoc, List.getElem?_append_left hr] at hj
    have hopt := h.given param (List.mem_of_getElem? hj)
    have hvar : param.vararg = false := (Bool.or_eq_false_iff.1 hopt).1
    rw [hopt, hvar]
    simp only [Bool.false_eq, decide_eq_false_iff_not]
    omega
  by_cases hd : j < (required ++ defaults).length
  · rw [List.getElem?_append_left hd, List.getElem?_append_right (by omega)] at hj
    obtain ⟨hv, hs⟩ := h.defaulted param (List.mem_of_getElem? hj)
    rw [List.length_append] at hd
    simp only [isOptional, hv, hs, Bool.or_true, Bool.true_eq, decide_eq_true_eq, Bool.false_eq, decide_eq_false_iff_not]
    omega
  · rw [List.getElem?_append_right (by omega)] at hj
    have hv := h.rest param (List.mem_of_getElem? hj)
    rw [List.length_append] at hd
    simp only [isOptional, hv, Bool.true_or, Bool.true_eq, decide_eq_true_eq]
    omega

theorem Segments.length (h : Segments params required defaults varargs) :
    params.length = required.length + defaults.length + varargs.length := by
  rw [h.eq, List.length_append, List.length_append]

theorem Segments.pairwise (h : Segments params required defaults varargs) :
    params.Pairwise fun param _ => param.vararg = false := by
  refine List.pairwise_iff_getElem.2 fun i j hi hj hlt => ?_
  rw [(h.at_place (List.getElem?_eq_getElem hi)).2]
  have := h.length
  have := h.single
  simp only [decide_eq_false_iff_not]
  omega

theorem length_le_flatten (h : ∀ slot ∈ slots, slot ≠ []) : slots.length ≤ slots.flatten.length := by
  induction slots with
  | nil => exact Nat.le_refl 0
  | cons slot slots ih =>
    have hslot := List.length_pos_of_ne_nil (h slot List.mem_cons_self)
    have hslots := ih fun slot hmem => h slot (List.mem_cons_of_mem _ hmem)
    simp only [List.flatten_cons, List.length_append, List.length_cons]
    omega

theorem length_flatten_le (h : ∀ slot ∈ slots, slot.length ≤ 1) : slots.flatten.length ≤ slots.length := by
  induction slots with
  | nil => exact Nat.le_refl 0
  | cons slot slots ih =>
    have hslot := h slot List.mem_cons_self
    have hslots := ih fun slot hmem => h slot (List.mem_cons_of_mem _ hmem)
    simp only [List.flatten_cons, List.length_append, List.length_cons]
    omega

/-- As many arguments are given as the parameter list has room for. -/
theorem Assigned.accepts (h : Assigned params args slots) (hseg : Segments params required defaults varargs) :
    required.length ≤ args.length ∧ (varargs = [] → args.length ≤ required.length + defaults.length) := by
  have hsize : slots.length = required.length + defaults.length + varargs.length := h.length.trans hseg.length
  have hat : ∀ {j : Nat} (hj : j < slots.length), ∃ param, params[j]? = some param := fun hj =>
    ⟨_, List.getElem?_eq_getElem (h.length ▸ hj)⟩
  rw [← h.once.length_eq]
  constructor
  · have hgiven : ∀ slot ∈ slots.take required.length, slot ≠ [] := by
      intro slot hmem
      obtain ⟨j, hj, rfl⟩ := List.mem_take_iff_getElem.1 hmem
      obtain ⟨hr, hj⟩ := Nat.lt_min.1 hj
      obtain ⟨param, hparam⟩ := hat hj
      have hopt : param.isOptional = false := by rw [(hseg.at_place hparam).1]; simpa using hr
      obtain ⟨hv, hd⟩ := Bool.or_eq_false_iff.1 hopt
      have hone := h.given j param _ hparam (List.getElem?_eq_getElem hj) hv (by simpa using hd)
      exact List.ne_nil_of_length_pos (by omega)
    have hle := length_le_flatten hgiven
    rw [← List.take_append_drop required.length slots, List.flatten_append, List.length_append]
    rw [List.length_take] at hle
    omega
  · rintro rfl
    have hshort : ∀ slot ∈ slots, slot.length ≤ 1 := by
      intro slot hmem
      obtain ⟨j, hj, rfl⟩ := List.mem_iff_getElem.1 hmem
      obtain ⟨param, hparam⟩ := hat hj
      by_contra hlong
      have hv := h.several j param _ hparam (List.getElem?_eq_getElem hj) (Nat.lt_of_not_le hlong)
      rw [(hseg.at_place hparam).2, decide_eq_true_eq] at hv
      exact absurd hj (by simpa [hsize] using hv)
    exact Nat.le_trans (length_flatten_le hshort) (Nat.le_of_eq (by simpa using hsize))

/-- Nothing is given by name if no argument has one. -/
theorem giveNamed_of_none (h : ∀ arg ∈ args, arg.name = none) : giveNamed params args slots = .ok slots := by
  induction args with
  | nil => rfl
  | cons arg args ih =>
    rw [giveNamed, h arg List.mem_cons_self]
    exact ih fun a ha => h a (List.mem_cons_of_mem _ ha)

/-- **Arguments without names can be given if their number fits.** -/
theorem assign_of_accepts (hseg : Segments params required defaults varargs) (hnone : ∀ arg ∈ args, arg.name = none)
    (hle : required.length ≤ args.length)
    (hfits : varargs = [] → args.length ≤ required.length + defaults.length) :
    assign params args = .ok (params.mapIdx (share args)) := by
  have hpositional : args.filter (·.name.isNone) = args := List.filter_eq_self.2 fun arg ha => by simp [hnone arg ha]
  have hroom : args.length ≤ params.length ∨ params.any (·.vararg) := by
    cases varargs with
    | nil => exact .inl (by have := hfits rfl; have := hseg.length; omega)
    | cons param rest =>
      refine .inr (List.any_eq_true.2 ⟨param, ?_, hseg.rest param List.mem_cons_self⟩)
      rw [hseg.eq]
      simp
  unfold assign
  simp only [hpositional, fill_eq hseg.pairwise, if_pos hroom, giveNamed_of_none hnone, bind, Except.bind]
  refine if_pos (List.all_eq_true.2 ?_)
  rintro ⟨param, slot⟩ hmem
  obtain ⟨j, hj⟩ := List.mem_iff_getElem?.1 hmem
  obtain ⟨hparam, hslot⟩ := List.getElem?_zip_eq_some.1 hj
  dsimp only at hparam hslot ⊢
  rw [List.getElem?_mapIdx, hparam, Option.map_some, Option.some_inj] at hslot
  -- only the slots of parameters that must be given have to be filled
  by_cases hr : required.length ≤ j
  · simp [(hseg.at_place hparam).1, hr]
  · have hne : args.drop j ≠ [] := by simpa using (by omega : j < args.length)
    rw [← hslot, share]
    split <;> simp [hne]

end Param

namespace Arity

theorem accepts_iff {required defaults varargs : List Param} {receiver : Bool} {count : Nat} :
    accepts { required := required.length, default := defaults.length, vararg := !varargs.isEmpty, receiver } count ↔
      required.length ≤ count ∧ (varargs = [] → count ≤ required.length + defaults.length) := by
  cases varargs <;> simp [accepts]

end Arity

/-- **Arities and slots agree.** A parameter list has an arity exactly if it falls into its three parts. If it has one,
then arguments that can be given fit the arity, and are given once and each to its place; and arguments without names that
fit the arity can be given. -/
theorem arity_agrees (params : List Param) (receiver : Bool) :
    (∀ arity, Arity.ofParams params receiver = .ok arity ↔
      ∃ required defaults varargs, Param.Segments params required defaults varargs ∧
        arity = { required := required.length, default := defaults.length, vararg := !varargs.isEmpty, receiver }) ∧
    ∀ arity args, Arity.ofParams params receiver = .ok arity →
      (∀ slots, Param.assign params args = .ok slots →
        arity.accepts args.length ∧ Param.Assigned params args slots) ∧
      ((∀ arg ∈ args, arg.name = none) → arity.accepts args.length →
        ∃ slots, Param.assign params args = .ok slots) := by
  refine ⟨fun arity => Arity.ofParams_eq_ok, fun arity args harity => ?_⟩
  obtain ⟨required, defaults, varargs, hseg, rfl⟩ := Arity.ofParams_eq_ok.1 harity
  refine ⟨fun slots hslots => ?_, fun hnone haccepts => ?_⟩
  · have hassigned := Param.assigned_of_assign hseg.pairwise hslots
    exact ⟨Arity.accepts_iff.2 (hassigned.accepts hseg), hassigned⟩
  · obtain ⟨hle, hfits⟩ := Arity.accepts_iff.1 haccepts
    exact ⟨_, Param.assign_of_accepts hseg hnone hle hfits⟩

/-- A parameter that must be given, one with a default, and one that takes all that is left. -/
def mixedParams : List Param :=
  [⟨.synthetic, "first", none, none, false, false⟩, ⟨.synthetic, "second", none, some (.mk .synthetic .null), false, false⟩,
    ⟨.synthetic, "rest", none, none, true, false⟩]

/-- An argument of a call. -/
def mixedArg (name : Option String) (n : Nat) : CallArg := ⟨.synthetic, name, .value ⟨n⟩⟩

/-- A named argument may stand before the others, and arguments without names go on into the last slot. -/
theorem mixedParams_agree :
    Param.Assigned mixedParams [mixedArg (some "second") 0, mixedArg none 1]
        [[mixedArg none 1], [mixedArg (some "second") 0], []] ∧
      ∃ slots, Param.assign mixedParams [mixedArg none 0, mixedArg none 1, mixedArg none 2, mixedArg none 3] = .ok slots := by
  have hagrees := (arity_agrees mixedParams false).2 ⟨1, 1, true, false⟩
  exact ⟨((hagrees _ rfl).1 _ rfl).2, (hagrees _ rfl).2 (by simp [mixedArg]) rfl⟩

end Bindery
