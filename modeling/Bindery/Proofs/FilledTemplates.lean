import Bindery.Diagnostic.Basic
import Bindery.Number.Decimal
import Mathlib.Data.List.Basic
/-!
# Filling in templates

A template is filled one argument after the other, so the text of an argument is searched for the marks of the arguments
that follow it. `substitute` replaces all marks at once. Where the marks of a template stand apart, filling it is
substituting at once, though not the arguments as given: each of them with the marks of later arguments replaced in it.
The arguments themselves are substituted when none of them has such a mark.

A template is laid out as texts with slots between them. A slot holds a mark, or what has been filled in. What is filled
in grows on its own: no mark reaches over the edge of a slot.
-/
namespace Bindery

/-! ## Substitution at once -/

/-- The number of the argument whose mark the text starts with. -/
def markAt? (count : Nat) (text : List Char) : Option Nat :=
  (List.range count).find? fun i => (argumentMark i).isPrefixOf text

/-- Replaces the marks of all arguments at once. The number counts the characters of a mark that are still to be passed
over. -/
def substitute (args : List String) : Nat → List Char → List Char
  | _, [] => []
  | skip + 1, _ :: rest => substitute args skip rest
  | 0, c :: rest =>
    match markAt? args.length (c :: rest) with
    | some i => (args.getD i "").toList ++ substitute args ((argumentMark i).length - 1) rest
    | none => c :: substitute args 0 rest

/-- The arguments, the first of which has number `index`, each with the marks of those behind it replaced. -/
def filledArgs (index : Nat) : List String → List String
  | [] => []
  | arg :: rest => String.ofList (fillFrom (index + 1) arg.toList rest) :: filledArgs (index + 1) rest

theorem length_filledArgs (index : Nat) (args : List String) : (filledArgs index args).length = args.length := by
  induction args generalizing index with
  | nil => rfl
  | cons arg rest ih => exact congrArg (· + 1) (ih (index + 1))

theorem markAt?_eq_some {count i : Nat} {text : List Char} (h : markAt? count text = some i) :
    i < count ∧ argumentMark i <+: text :=
  ⟨List.mem_range.1 (List.mem_of_find?_eq_some h),
    List.isPrefixOf_iff_prefix.1 (List.find?_some (p := fun i => (argumentMark i).isPrefixOf text) h)⟩

theorem markAt?_eq_none {count : Nat} {text : List Char} :
    markAt? count text = none ↔ ∀ i < count, ¬argumentMark i <+: text := by
  simp only [markAt?, List.find?_eq_none, List.mem_range, List.isPrefixOf_iff_prefix]

/-! ## Marks -/

/-- A text ends with an opening brace and digits, so that a mark could begin there. -/
def EndsOpen (text : List Char) : Prop :=
  ∃ before digits, text = before ++ '\x7b' :: digits ∧ ∀ c ∈ digits, c.isDigit

/-- No mark goes on with the character, and none begins there. -/
def Plain (c : Char) : Prop := ¬c.isDigit ∧ c ≠ '\x7b' ∧ c ≠ '\x7d'

instance (c : Char) : Decidable (Plain c) := inferInstanceAs (Decidable (_ ∧ _))

/-- No mark that begins in the first text reaches over into the second. -/
def Meets (mark xs ys : List Char) : Prop :=
  ∀ s, s <:+ xs → s ≠ [] → mark <+: s ++ ys → mark <+: s

theorem argumentMark_eq (index : Nat) : argumentMark index = '\x7b' :: (decimalDigits index ++ ['\x7d']) := by
  rw [argumentMark, toList_toString]
  rfl

theorem digit_ne_brace {c : Char} (h : c.isDigit) : c ≠ '\x7b' ∧ c ≠ '\x7d' := by
  constructor <;> rintro rfl <;> exact absurd h (by decide)

theorem brace_mem_digits_false {n : Nat} : '\x7b' ∉ decimalDigits n ∧ '\x7d' ∉ decimalDigits n :=
  ⟨fun h => (digit_ne_brace (isDigit_of_mem_decimalDigits h)).1 rfl,
    fun h => (digit_ne_brace (isDigit_of_mem_decimalDigits h)).2 rfl⟩

/-- Behind its first character a mark has digits and a closing brace. -/
theorem mem_mark_tail {index : Nat} {c : Char} (h : c ∈ decimalDigits index ++ ['\x7d']) : c.isDigit ∨ c = '\x7d' := by
  rcases List.mem_append.1 h with h | h
  · exact .inl (isDigit_of_mem_decimalDigits h)
  · exact .inr (List.mem_singleton.1 h)

theorem open_of_cut {index : Nat} {s rest : List Char} (hs : s ≠ []) (hrest : rest ≠ [])
    (h : argumentMark index = s ++ rest) : ∃ digits, s = '\x7b' :: digits ∧ ∀ c ∈ digits, c.isDigit := by
  rw [argumentMark_eq] at h
  cases s with
  | nil => exact absurd rfl hs
  | cons first digits =>
    rw [List.cons_append, List.cons.injEq] at h
    refine ⟨digits, by rw [h.1], fun c hc => ?_⟩
    obtain ⟨last, c', rfl⟩ := List.eq_nil_or_concat rest |>.resolve_left hrest
    rw [List.concat_eq_append, ← List.append_assoc] at h
    have hdigits : decimalDigits index = digits ++ last := (List.append_inj' h.2 rfl).1
    exact isDigit_of_mem_decimalDigits (by rw [hdigits]; exact List.mem_append_left _ hc)

/-- A mark at the edge of two texts is in the first of them, or reaches over the edge. -/
theorem prefix_append_cases {mark s ys : List Char} (h : mark <+: s ++ ys) :
    mark <+: s ∨ ∃ rest, rest ≠ [] ∧ mark = s ++ rest ∧ rest <+: ys := by
  obtain ⟨after, hafter⟩ := h
  rcases List.append_eq_append_iff.1 hafter with ⟨more, hs, -⟩ | ⟨rest, hmark, hys⟩
  · exact .inl ⟨more, hs.symm⟩
  · cases rest with
    | nil => exact .inl ⟨[], by rw [List.append_nil, hmark, List.append_nil]⟩
    | cons c rest => exact .inr ⟨c :: rest, List.cons_ne_nil c rest, hmark, after, hys.symm⟩

theorem meets_of_not_endsOpen {xs : List Char} (h : ¬EndsOpen xs) (index : Nat) (ys : List Char) :
    Meets (argumentMark index) xs ys := by
  intro s hs hne hmark
  rcases prefix_append_cases hmark with hin | ⟨rest, hrest, heq, -⟩
  · exact hin
  · obtain ⟨digits, rfl, hdigits⟩ := open_of_cut hne hrest heq
    obtain ⟨before, hbefore⟩ := hs
    exact absurd ⟨before, digits, hbefore.symm, hdigits⟩ h

theorem meets_of_plain {ys : List Char} (h : ∀ c ∈ ys.head?, Plain c) (index : Nat) (xs : List Char) :
    Meets (argumentMark index) xs ys := by
  intro s hs hne hmark
  rcases prefix_append_cases hmark with hin | ⟨rest, hrest, heq, hys⟩
  · exact hin
  · obtain ⟨first, more, rfl⟩ := List.exists_cons_of_ne_nil hne
    obtain ⟨c, rest', rfl⟩ := List.exists_cons_of_ne_nil hrest
    have hc : Plain c := h c (by obtain ⟨after, rfl⟩ := hys; rfl)
    rw [argumentMark_eq, List.cons_append, List.cons.injEq] at heq
    have hmem : c ∈ decimalDigits index ++ ['\x7d'] := by
      rw [heq.2]
      exact List.mem_append_right _ List.mem_cons_self
    rcases mem_mark_tail hmem with hdigit | hclose
    · exact absurd hdigit hc.1
    · exact absurd hclose hc.2.2

theorem not_endsOpen_of_not_mem {xs : List Char} (h : '\x7b' ∉ xs) : ¬EndsOpen xs := by
  rintro ⟨before, digits, rfl, -⟩
  exact h (List.mem_append_right _ List.mem_cons_self)

theorem not_endsOpen_mark (index : Nat) : ¬EndsOpen (argumentMark index) := by
  rintro ⟨before, digits, h, hdigits⟩
  -- The last character of a mark is a closing brace, and so would be a digit or the opening one.
  have hlast : (argumentMark index).getLast? = some '\x7d' := by
    rw [argumentMark_eq, ← List.cons_append, List.getLast?_concat]
  rw [h, List.getLast?_append_cons, List.getLast?_cons, Option.some.injEq] at hlast
  cases hlist : digits.getLast? with
  | none => rw [hlist] at hlast; exact absurd hlast (by decide)
  | some c =>
    rw [hlist] at hlast
    exact (digit_ne_brace (hdigits c (List.mem_of_getLast? hlist))).2 hlast

/-- A mark has no other mark in it. -/
theorem eq_of_mark_within {i j : Nat} (h : argumentMark j <:+: argumentMark i) : i = j := by
  obtain ⟨before, after, h⟩ := h
  rw [argumentMark_eq, argumentMark_eq] at h
  cases before with
  | nil =>
    rw [List.nil_append, List.cons_append, List.append_assoc, List.cons.injEq, List.singleton_append] at h
    have hdigits := (List.append_cons_inj_of_notMem (brace_mem_digits_false (n := i)).2 List.not_mem_nil).1 h.2.symm
    exact decimalDigits_inj hdigits.1
  | cons c before =>
    rw [List.cons_append, List.cons_append, List.cons.injEq] at h
    have hmem : '\x7b' ∈ decimalDigits i ++ ['\x7d'] := by
      rw [← h.2, List.append_assoc]
      exact List.mem_append_right _ List.mem_cons_self
    rcases mem_mark_tail hmem with hdigit | hclose
    · exact absurd hdigit (by decide)
    · exact absurd hclose (by decide)

/-! ## Replacing one mark -/

section

variable {mark text xs ys : List Char}

/-- Texts that meet without a mark between them are searched one by one. -/
theorem replaceMark_append (h : Meets mark xs ys) : ∀ skip ≤ xs.length,
    replaceMark mark text skip (xs ++ ys) = replaceMark mark text skip xs ++ replaceMark mark text 0 ys := by
  induction xs with
  | nil =>
    intro skip hskip
    rw [List.length_nil, Nat.le_zero] at hskip
    subst hskip
    rfl
  | cons c xs ih =>
    have hrest : Meets mark xs ys := fun s hs => h s (hs.trans (List.suffix_cons c xs))
    intro skip hskip
    cases skip with
    | succ skip => exact ih hrest skip (Nat.le_of_succ_le_succ hskip)
    | zero =>
      rw [List.cons_append, replaceMark, replaceMark]
      by_cases hmark : mark <+: c :: xs
      · have hover : mark <+: c :: (xs ++ ys) := hmark.trans (List.prefix_append (c :: xs) ys)
        have hle : mark.length - 1 ≤ xs.length := Nat.sub_le_of_le_add hmark.length_le
        rw [if_pos (List.isPrefixOf_iff_prefix.2 hover), if_pos (List.isPrefixOf_iff_prefix.2 hmark), ih hrest _ hle,
          List.append_assoc]
      · have hover : ¬mark <+: c :: (xs ++ ys) := fun hover =>
          hmark (h (c :: xs) List.suffix_rfl (List.cons_ne_nil c xs) hover)
        rw [if_neg (mt List.isPrefixOf_iff_prefix.1 hover), if_neg (mt List.isPrefixOf_iff_prefix.1 hmark),
          ih hrest 0 (Nat.zero_le _), List.cons_append]

theorem replaceMark_of_absent (h : ¬mark <:+: xs) : replaceMark mark text 0 xs = xs := by
  induction xs with
  | nil => rfl
  | cons c xs ih =>
    have hhere : ¬mark <+: c :: xs := fun hp => h hp.isInfix
    have hrest : ¬mark <:+: xs := fun hi => h (hi.trans (List.suffix_cons c xs).isInfix)
    rw [replaceMark, if_neg (mt List.isPrefixOf_iff_prefix.1 hhere), ih hrest]

theorem replaceMark_length (mark text : List Char) : ∀ xs : List Char, replaceMark mark text xs.length xs = []
  | [] => rfl
  | _ :: xs => replaceMark_length mark text xs

theorem replaceMark_self (index : Nat) : replaceMark (argumentMark index) text 0 (argumentMark index) = text := by
  have hself : (argumentMark index).isPrefixOf (argumentMark index) := List.isPrefixOf_iff_prefix.2 (List.prefix_refl _)
  obtain ⟨c, rest, heq⟩ : ∃ c rest, argumentMark index = c :: rest := ⟨_, _, rfl⟩
  rw [heq] at hself ⊢
  rw [replaceMark, if_pos hself, List.length_cons, Nat.add_sub_cancel, replaceMark_length, List.append_nil]

theorem replaceMark_mark (i j : Nat) :
    replaceMark (argumentMark i) text 0 (argumentMark j) = if j = i then text else argumentMark j := by
  split
  · rename_i h
    rw [h, replaceMark_self]
  · rename_i h
    exact replaceMark_of_absent fun hwithin => h (eq_of_mark_within hwithin)

end

/-! ## Outlines -/

/-- What stands between the texts of a template: a mark, or what has been filled in for one. -/
inductive Slot where
  | mark (index : Nat)
  | filled (text : List Char)

inductive Outline where
  | last (text : List Char)
  | slot (text : List Char) (slot : Slot) (rest : Outline)

namespace Slot

def chars : Slot → List Char
  | mark index => argumentMark index
  | filled text => text

/-- What is or will be filled in has no opening brace. -/
def Closed (args : List String) : Slot → Prop
  | mark index => ∀ arg ∈ args[index]?, '\x7b' ∉ arg.toList
  | filled text => '\x7b' ∉ text

def replace (index : Nat) (text : List Char) : Slot → Slot
  | mark i => if i = index then filled text else mark i
  | filled own => filled (replaceMark (argumentMark index) text 0 own)

/-- Fills in the arguments from a number on, one after the other. -/
def fill (index : Nat) (args : List String) : Slot → Slot
  | mark i =>
    match (filledArgs index args)[i - index]? with
    | some arg => if index ≤ i then filled arg.toList else mark i
    | none => mark i
  | filled own => filled (fillFrom index own args)

def put (args : List String) : Slot → Slot
  | mark i => filled (args.getD i "").toList
  | filled own => filled own

theorem fill_nil (index : Nat) (slot : Slot) : slot.fill index [] = slot := by cases slot <;> rfl

theorem fill_replace (index : Nat) (arg : String) (rest : List String) (slot : Slot) :
    (slot.replace index arg.toList).fill (index + 1) rest = slot.fill index (arg :: rest) := by
  cases slot with
  | filled own => rfl
  | mark i =>
    by_cases heq : i = index
    · subst heq
      simp [replace, fill, filledArgs]
    · rw [replace, if_neg heq, fill, fill]
      by_cases hle : index ≤ i
      · obtain ⟨k, rfl⟩ := Nat.exists_eq_add_of_lt (Nat.lt_of_le_of_ne hle (Ne.symm heq))
        have hthere : index + k + 1 - (index + 1) = k := by omega
        have hhere : index + k + 1 - index = k + 1 := by omega
        rw [hthere, hhere, filledArgs, List.getElem?_cons_succ]
        cases (filledArgs (index + 1) rest)[k]? with
        | none => rfl
        | some value => simp only [if_pos hle, if_pos (show index + 1 ≤ index + k + 1 by omega)]
      · have hnext : ¬index + 1 ≤ i := by omega
        simp only [if_neg hle, if_neg hnext]
        split <;> split <;> rfl

end Slot

/-- No argument up to a number has its mark in the text. -/
def NoMarks (count : Nat) (text : List Char) : Prop := ∀ i < count, ¬argumentMark i <:+: text

namespace Outline

def chars : Outline → List Char
  | last text => text
  | slot text own rest => text ++ (own.chars ++ rest.chars)

def map (f : Slot → Slot) : Outline → Outline
  | last text => last text
  | slot text own rest => slot text (f own) (rest.map f)

def cons (c : Char) : Outline → Outline
  | last text => last (c :: text)
  | slot text own rest => slot (c :: text) own rest

/-- The first character is plain, whatever is filled in; there need be none when there is no slot. -/
def StartsPlain : Outline → Prop
  | last text => ∀ c ∈ text.head?, Plain c
  | slot text _ _ => ∃ c ∈ text.head?, Plain c

/-- No mark is or will be put together at the edge of a slot. -/
def Apart (args : List String) : Outline → Prop
  | last text => NoMarks args.length text
  | slot text own rest =>
    NoMarks args.length text ∧ ¬EndsOpen text ∧ (own.Closed args ∨ rest.StartsPlain) ∧ rest.Apart args

/-- The slots are the marks of arguments up to a number, and there are no other such marks. -/
def Parsed (count : Nat) : Outline → Prop
  | last text => NoMarks count text
  | slot text own rest => NoMarks count text ∧ (∃ i < count, own = .mark i) ∧ rest.Parsed count

theorem map_map (f g : Slot → Slot) (outline : Outline) : (outline.map f).map g = outline.map (g ∘ f) := by
  induction outline with
  | last text => rfl
  | slot text own rest ih => exact congrArg (slot text (g (f own))) ih

theorem map_id (outline : Outline) : outline.map id = outline := by
  induction outline with
  | last text => rfl
  | slot text own rest ih => exact congrArg (slot text own) ih

theorem startsPlain_map (f : Slot → Slot) (outline : Outline) : (outline.map f).StartsPlain ↔ outline.StartsPlain := by
  cases outline <;> rfl

theorem StartsPlain.head {outline : Outline} (h : outline.StartsPlain) : ∀ c ∈ outline.chars.head?, Plain c := by
  cases outline with
  | last text => exact h
  | slot text own rest =>
    obtain ⟨first, hfirst, hplain⟩ := h
    intro c hc
    rw [chars, List.head?_append_of_ne_nil _ (List.ne_nil_of_mem (List.mem_of_mem_head? hfirst))] at hc
    rwa [← Option.mem_unique hfirst hc]

variable {args : List String} {index : Nat} {arg : String}

/-- **Replacing a mark is replacing it slot by slot.** -/
theorem replaceMark_chars {outline : Outline} (h : outline.Apart args) (hindex : index < args.length)
    (text : List Char) :
    replaceMark (argumentMark index) text 0 outline.chars = (outline.map (Slot.replace index text)).chars := by
  induction outline with
  | last own => exact replaceMark_of_absent (h index hindex)
  | slot own slot rest ih =>
    obtain ⟨hnone, hopen, hedge, hrest⟩ := h
    -- A mark over the right edge would begin with an opening brace in the slot and go on in the text behind it.
    have hslot : Meets (argumentMark index) slot.chars rest.chars := by
      rcases hedge with hclosed | hplain
      · cases slot with
        | mark i => exact meets_of_not_endsOpen (not_endsOpen_mark i) index _
        | filled own => exact meets_of_not_endsOpen (not_endsOpen_of_not_mem hclosed) index _
      · exact meets_of_plain hplain.head index _
    have hfilled : replaceMark (argumentMark index) text 0 slot.chars = (slot.replace index text).chars := by
      cases slot with
      | mark i =>
        rw [Slot.chars, replaceMark_mark, Slot.replace]
        split <;> rfl
      | filled own => rfl
    rw [chars, replaceMark_append (meets_of_not_endsOpen hopen index _) 0 (Nat.zero_le _),
      replaceMark_append hslot 0 (Nat.zero_le _), replaceMark_of_absent (hnone index hindex), hfilled, ih hrest]
    rfl

theorem Apart.replace {outline : Outline} (h : outline.Apart args) (harg : args[index]? = some arg) :
    (outline.map (Slot.replace index arg.toList)).Apart args := by
  induction outline with
  | last own => exact h
  | slot own slot rest ih =>
    obtain ⟨hnone, hopen, hedge, hrest⟩ := h
    refine ⟨hnone, hopen, ?_, ih hrest⟩
    rw [startsPlain_map]
    refine hedge.imp_left fun hclosed => ?_
    cases slot with
    | mark i =>
      rw [Slot.replace]
      split
      · rename_i heq
        exact hclosed arg (by rw [heq, harg]; rfl)
      · exact hclosed
    | filled own =>
      have hnot : ¬argumentMark index <:+: own := fun hwithin =>
        hclosed (hwithin.subset (by rw [argumentMark_eq]; exact List.mem_cons_self))
      rw [Slot.replace, replaceMark_of_absent hnot]
      exact hclosed

/-- **Filling in arguments one after the other is filling them in slot by slot.** -/
theorem fillFrom_chars (rest : List String) : ∀ (index : Nat) (outline : Outline), outline.Apart args →
    args.drop index = rest → fillFrom index outline.chars rest = (outline.map (Slot.fill index rest)).chars := by
  induction rest with
  | nil =>
    intro index outline _ _
    rw [show Slot.fill index [] = id from funext (Slot.fill_nil index), map_id]
    rfl
  | cons arg rest ih =>
    intro index outline h hrest
    have harg : args[index]? = some arg := by rw [← List.head?_drop, hrest]; rfl
    have hindex : index < args.length := (List.getElem?_eq_some_iff.1 harg).1
    have hdrop : args.drop (index + 1) = rest := by rw [← List.tail_drop, hrest]; rfl
    rw [fillFrom, replaceMark_chars h hindex, ih (index + 1) _ (h.replace harg) hdrop, map_map]
    exact congrArg (fun f => (outline.map f).chars) (funext (Slot.fill_replace index arg rest))

/-! ## The outline of a template -/

/-- The outline of a template with the marks of arguments up to a number. -/
def ofText (count : Nat) : Nat → List Char → Outline
  | _, [] => last []
  | skip + 1, _ :: rest => ofText count skip rest
  | 0, c :: rest =>
    match markAt? count (c :: rest) with
    | some i => slot [] (.mark i) (ofText count ((argumentMark i).length - 1) rest)
    | none => (ofText count 0 rest).cons c

theorem chars_cons (c : Char) (outline : Outline) : (outline.cons c).chars = c :: outline.chars := by
  cases outline <;> rfl

theorem map_cons (f : Slot → Slot) (c : Char) (outline : Outline) :
    (outline.cons c).map f = (outline.map f).cons c := by
  cases outline <;> rfl

theorem chars_ofText (count skip : Nat) (text : List Char) : (ofText count skip text).chars = text.drop skip := by
  fun_induction ofText count skip text with
  | case1 => exact List.drop_nil.symm
  | case2 skip c rest ih => exact ih
  | case3 c rest i hmark ih =>
    obtain ⟨after, hafter⟩ := (markAt?_eq_some hmark).2
    have hpos : 1 ≤ (argumentMark i).length := by
      rw [argumentMark_eq]
      exact Nat.succ_le_succ (Nat.zero_le _)
    have hdrop : rest.drop ((argumentMark i).length - 1) = after := by
      rw [← List.drop_succ_cons (a := c), Nat.sub_add_cancel hpos, ← hafter, List.drop_left]
    rw [chars, ih, hdrop, List.nil_append, List.drop_zero]
    exact hafter
  | case4 c rest hmark ih => rw [chars_cons, ih]; rfl

theorem Parsed.cons {count : Nat} {c : Char} {outline : Outline} (h : outline.Parsed count)
    (hnone : ∀ i < count, ¬argumentMark i <+: c :: outline.chars) : (outline.cons c).Parsed count := by
  have hcons : ∀ text : List Char, text <+: outline.chars → NoMarks count text → NoMarks count (c :: text) := by
    intro text hbegin htext i hi hwithin
    rcases List.infix_cons_iff.1 hwithin with hp | hwithin
    · exact hnone i hi (hp.trans (List.prefix_cons_inj c |>.2 hbegin))
    · exact htext i hi hwithin
  cases outline with
  | last text => exact hcons text (List.prefix_refl text) h
  | slot text own rest => exact ⟨hcons text (List.prefix_append _ _) h.1, h.2⟩

theorem parsed_ofText (count skip : Nat) (text : List Char) : (ofText count skip text).Parsed count := by
  have hnil : NoMarks count [] := fun i _ h => by
    rw [argumentMark_eq] at h
    exact absurd (List.infix_nil.1 h) (List.cons_ne_nil _ _)
  fun_induction ofText count skip text with
  | case1 => exact hnil
  | case2 skip c rest ih => exact ih
  | case3 c rest i hmark ih => exact ⟨hnil, ⟨i, (markAt?_eq_some hmark).1, rfl⟩, ih⟩
  | case4 c rest hmark ih =>
    refine ih.cons fun i hi => ?_
    rw [chars_ofText]
    exact markAt?_eq_none.1 hmark i hi

/-- **To substitute at once is to put arguments in the place of their marks.** -/
theorem substitute_eq (args : List String) (skip : Nat) (text : List Char) :
    substitute args skip text = ((ofText args.length skip text).map (Slot.put args)).chars := by
  fun_induction substitute args skip text with
  | case1 => rfl
  | case2 skip c rest ih => exact ih
  | case3 c rest i hmark ih => rw [ofText, hmark, ih]; rfl
  | case4 c rest hmark ih => rw [ofText, hmark, map_cons, chars_cons, ih]

theorem fill_eq_put {outline : Outline} (h : outline.Parsed args.length) :
    outline.map (Slot.fill 0 args) = outline.map (Slot.put (filledArgs 0 args)) := by
  induction outline with
  | last text => rfl
  | slot text own rest ih =>
    obtain ⟨-, ⟨i, hi, rfl⟩, hrest⟩ := h
    have hget : (filledArgs 0 args)[i]? = some ((filledArgs 0 args).getD i "") := by
      rw [List.getD_eq_getElem?_getD, List.getElem?_eq_getElem (by rw [length_filledArgs]; exact hi), Option.getD_some]
    rw [map, map, ih hrest, Slot.fill, Nat.sub_zero, hget, Slot.put]
    rfl

end Outline

/-! ## Templates whose marks stand apart -/

/-- No mark of the template has an open brace before it. Behind it comes a plain character or nothing, or what is filled
in for it has no opening brace. -/
def MarksApart (args : List String) (template : List Char) : Prop :=
  ∀ before i after, i < args.length → template = before ++ (argumentMark i ++ after) →
    ¬EndsOpen before ∧ ((∀ c ∈ after.head?, Plain c) ∨ ∀ arg ∈ args[i]?, '\x7b' ∉ arg.toList)

theorem MarksApart.outline {args : List String} {outline : Outline} (hparsed : outline.Parsed args.length)
    (h : MarksApart args outline.chars) : outline.Apart args := by
  induction outline with
  | last text => exact hparsed
  | slot text own rest ih =>
    obtain ⟨hnone, ⟨i, hi, rfl⟩, hrest⟩ := hparsed
    obtain ⟨hopen, hedge⟩ := h text i rest.chars hi rfl
    have hbehind : MarksApart args rest.chars := by
      intro before j after hj heq
      have happart := h (text ++ (argumentMark i ++ before)) j after hj (by
        rw [Outline.chars, Slot.chars, heq, List.append_assoc, List.append_assoc])
      refine ⟨fun hends => happart.1 ?_, happart.2⟩
      obtain ⟨start, digits, rfl, hdigits⟩ := hends
      exact ⟨text ++ (argumentMark i ++ start), digits, by simp only [List.append_assoc], hdigits⟩
    refine ⟨hnone, hopen, hedge.symm.imp_right fun hplain => ?_, ih hrest hbehind⟩
    cases rest with
    | last own => exact hplain
    | slot own next rest =>
      obtain ⟨-, ⟨j, -, rfl⟩, -⟩ := hrest
      cases own with
      | nil => exact absurd (hplain '\x7b' (by rw [Outline.chars, Slot.chars, argumentMark_eq]; rfl)) (by decide)
      | cons c own => exact ⟨c, rfl, hplain c rfl⟩

theorem fillFrom_of_noMarks (args : List String) : ∀ (index : Nat) (text : List Char),
    (∀ j, index ≤ j → j < index + args.length → ¬argumentMark j <:+: text) → fillFrom index text args = text := by
  induction args with
  | nil => exact fun _ _ _ => rfl
  | cons arg rest ih =>
    intro index text h
    rw [List.length_cons] at h
    rw [fillFrom, replaceMark_of_absent (h index (Nat.le_refl _) (by omega))]
    exact ih (index + 1) text fun j hj hlt => h j (by omega) (by omega)

def NoLaterMarks (args : List String) : Prop :=
  ∀ i j arg, args[i]? = some arg → i < j → j < args.length → ¬argumentMark j <:+: arg.toList

-- The number of the first argument is general here, because it goes up along the list.
theorem filledArgs_eq (args : List String) : ∀ index : Nat,
    (∀ i j arg, args[i]? = some arg → i < j → j < args.length → ¬argumentMark (index + j) <:+: arg.toList) →
      filledArgs index args = args := by
  induction args with
  | nil => exact fun _ _ => rfl
  | cons arg rest ih =>
    intro index h
    have hfirst : fillFrom (index + 1) arg.toList rest = arg.toList := by
      refine fillFrom_of_noMarks rest (index + 1) arg.toList fun j hj hlt => ?_
      obtain ⟨k, rfl⟩ := Nat.exists_eq_add_of_le hj
      have hmark := h 0 (1 + k) arg rfl (by omega) (by rw [List.length_cons]; omega)
      rwa [← Nat.add_assoc] at hmark
    have hrest : filledArgs (index + 1) rest = rest := by
      refine ih (index + 1) fun i j own hown hij hj => ?_
      have hmark := h (i + 1) (j + 1) own hown (by omega) (by rw [List.length_cons]; omega)
      rwa [Nat.add_assoc, Nat.add_comm 1 j]
    rw [filledArgs, hfirst, hrest, String.ofList_toList]

/-- **A template is filled by substituting each argument with the marks of later arguments replaced in it.** This is so
for every template whose marks stand apart, whatever the arguments are. If no argument has the mark of a later one in
it, the arguments themselves are substituted, all at once. -/
theorem formatMessage_substitutes (template : String) (args : List String) (h : MarksApart args template.toList) :
    formatMessage template args = String.ofList (substitute (filledArgs 0 args) 0 template.toList) ∧
    (NoLaterMarks args → formatMessage template args = String.ofList (substitute args 0 template.toList)) := by
  have hparsed := Outline.parsed_ofText args.length 0 template.toList
  have hchars : (Outline.ofText args.length 0 template.toList).chars = template.toList := Outline.chars_ofText _ _ _
  have hfill : fillFrom 0 template.toList args = substitute (filledArgs 0 args) 0 template.toList := by
    have happart : (Outline.ofText args.length 0 template.toList).Apart args := by
      rw [← hchars] at h
      exact h.outline hparsed
    have hslots := Outline.fillFrom_chars args 0 _ happart rfl
    rwa [hchars, Outline.fill_eq_put hparsed, ← length_filledArgs 0 args, ← Outline.substitute_eq] at hslots
  refine ⟨congrArg String.ofList hfill, fun hnone => congrArg String.ofList ?_⟩
  have hsame : filledArgs 0 args = args := filledArgs_eq args 0 fun i j arg harg hij hj => by
    rw [Nat.zero_add]
    exact hnone i j arg harg hij hj
  rw [hfill, hsame]

/-! ## The templates of the catalogue -/

/-- Behind an opening brace and digits comes no opening brace, and behind a closing brace there comes a plain character
or nothing. -/
def bracesApart (rest : List Char) : Bool :=
  match rest.dropWhile Char.isDigit with
  | [] => true
  | c :: after => c ≠ '\x7b' && (c ≠ '\x7d' || after.head?.all fun d => Plain d)

def spaced : List Char → Bool
  | [] => true
  | c :: rest => (c ≠ '\x7b' || bracesApart rest) && spaced rest

theorem bracesApart_of_spaced {before rest : List Char} (h : spaced (before ++ '\x7b' :: rest)) : bracesApart rest := by
  induction before with
  | nil => simpa [spaced] using (Bool.and_eq_true_iff.1 h).1
  | cons c before ih => exact ih (Bool.and_eq_true_iff.1 h).2

theorem bracesApart_digits {digits after : List Char} {c : Char} (hdigits : ∀ d ∈ digits, d.isDigit) (hc : ¬c.isDigit)
    (h : bracesApart (digits ++ c :: after)) : c ≠ '\x7b' ∧ (c = '\x7d' → ∀ d ∈ after.head?, Plain d) := by
  have hdrop : (digits ++ c :: after).dropWhile Char.isDigit = c :: after := by
    rw [List.dropWhile_append_of_pos hdigits, List.dropWhile_cons_of_neg hc]
  rw [bracesApart, hdrop] at h
  obtain ⟨hopen, hclose⟩ := Bool.and_eq_true_iff.1 h
  refine ⟨of_decide_eq_true hopen, fun heq => ?_⟩
  rcases Bool.or_eq_true_iff.1 hclose with hne | hplain
  · exact absurd heq (of_decide_eq_true hne)
  · exact fun d hd => of_decide_eq_true (Option.all_eq_true _ _ |>.1 hplain d hd)

theorem marksApart_of_spaced {text : List Char} (h : spaced text) (args : List String) : MarksApart args text := by
  intro before i after _ heq
  rw [argumentMark_eq] at heq
  constructor
  · rintro ⟨start, digits, rfl, hdigits⟩
    rw [heq, List.append_assoc, List.cons_append] at h
    exact (bracesApart_digits hdigits (by decide) (bracesApart_of_spaced h)).1 rfl
  · left
    rw [heq, List.cons_append, List.append_assoc] at h
    exact (bracesApart_digits (fun _ => isDigit_of_mem_decimalDigits) (by decide) (bracesApart_of_spaced h)).2 rfl

theorem spaced_toList {text : String} {chars : List Char} (htext : text = String.ofList chars) (h : spaced chars) :
    spaced text.toList := by
  rwa [htext, String.toList_ofList]

/-- **The marks of every message stand apart.** -/
theorem Message.marksApart (message : Message) (args : List String) : MarksApart args message.template.toList := by
  refine marksApart_of_spaced ?_ args
  cases message <;> exact spaced_toList rfl rfl

/-- Arguments with the marks of earlier arguments in them are filled in as they are. -/
theorem noMember_substitutes : MarksApart ["\x7b0\x7d", "\x7b0\x7d"] Message.noMember.template.toList ∧
    NoLaterMarks ["\x7b0\x7d", "\x7b0\x7d"] ∧
    formatMessage Message.noMember.template ["\x7b0\x7d", "\x7b0\x7d"] =
      String.ofList (substitute ["\x7b0\x7d", "\x7b0\x7d"] 0 Message.noMember.template.toList) ∧
    String.ofList (substitute ["\x7b0\x7d", "\x7b0\x7d"] 0 Message.noMember.template.toList) =
      "'\x7b0\x7d' has no member named '\x7b0\x7d'." := by
  have happart := Message.noMember.marksApart ["\x7b0\x7d", "\x7b0\x7d"]
  have hnone : NoLaterMarks ["\x7b0\x7d", "\x7b0\x7d"] := by
    intro i j arg harg hij hj
    obtain ⟨rfl, rfl⟩ : i = 0 ∧ j = 1 := by rw [List.length_cons, List.length_singleton] at hj; omega
    cases harg
    exact fun hwithin => absurd (eq_of_mark_within (i := 0) hwithin) (by decide)
  exact ⟨happart, hnone, (formatMessage_substitutes _ _ happart).2 hnone, by decide⟩

/-- An argument that is the mark of a later one is replaced by that; and a mark in braces is filled in with a digit that
makes it the mark of a later argument. -/
theorem markedArgument_replaced :
    formatMessage "'\x7b0\x7d' and '\x7b1\x7d'" ["\x7b1\x7d", "b"] = "'b' and 'b'" ∧
    String.ofList (substitute ["\x7b1\x7d", "b"] 0 "'\x7b0\x7d' and '\x7b1\x7d'".toList) = "'\x7b1\x7d' and 'b'" ∧
    formatMessage "\x7b\x7b0\x7d\x7d" ["1", "b"] = "b" ∧
    String.ofList (substitute ["1", "b"] 0 "\x7b\x7b0\x7d\x7d".toList) = "\x7b1\x7d" := by
  decide

end Bindery
