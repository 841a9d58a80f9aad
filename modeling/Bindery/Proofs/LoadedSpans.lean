import Bindery.Proofs.LoadedMembers
import Mathlib.Data.List.Forall2
/-!
# The positions of loaded trees

Every part of a loaded tree is read from an object of the JSON value: `Has` walks from part to part through the tree,
`Json.enclosing` follows the same ways through the value and gives the objects on its way. The position of a part comes
from the innermost of them that has one. Its numbers are kept in 32 bits, so that only numbers below 2 ^ 32 stay what
they are.

What a part was loaded from is kept along the ways (`Loaded`): a part that was loaded from an object has parts that were
loaded from what the object holds.
-/
namespace Bindery

/-! ## The parts of a tree -/

/-- A part of a tree with a position of its own. -/
inductive TreePart where
  | module (own : ModuleDef)
  | node (own : Syntax)
  | function (own : FunctionDef)
  | struct (own : StructDef)
  | enum (own : EnumDef)
  | member (own : EnumMember)
  | param (own : Param)
  | argument (own : Argument)

/-- The way from the object of a part to the object of a part within: the same object, a member, or an item of a member.
The value of an argument is the same object when that is a node, and the member `value` when it is not. -/
inductive Way where
  | same
  | member (key : String)
  | item (key : String) (index : Nat)
  | value

namespace TreePart

def pos : TreePart → Span
  | module own => own.pos
  | node own => own.pos
  | function own => own.pos
  | struct own => own.pos
  | enum own => own.pos
  | member own => own.pos
  | param own => own.pos
  | argument own => own.pos

def one (key : String) (tree : Syntax) : List (Way × TreePart) := [(.member key, node tree)]

def opt (key : String) (tree : Option Syntax) : List (Way × TreePart) := tree.toList.flatMap (one key)

def many {α : Type} (part : α → TreePart) (key : String) (items : List α) : List (Way × TreePart) :=
  items.mapIdx fun index own => (.item key index, part own)

def ofForm : Form → List (Way × TreePart)
  | .int .. | .float .. | .bool .. | .null | .string .. | .name .. | .importPath .. | .breaks .. | .continues .. => []
  | .dot base _ => one "base" base
  | .index base index => one "base" base ++ one "index" index
  | .unary _ operand => one "operand" operand
  | .binary _ left right => one "left" left ++ one "right" right
  | .assign _ target value => one "target" target ++ one "value" value
  | .ternary condition whenTrue whenFalse => one "cond" condition ++ (one "then" whenTrue ++ one "otherwise" whenFalse)
  | .cast value target _ => one "value" value ++ one "target" target
  | .call callee args trailing => one "callee" callee ++ (many argument "args" args ++ opt "with" trailing)
  | .initializer type fields => one "type" type ++ many argument "fields" fields
  | .tuple items => many node "items" items
  | .sizeOf target => one "target" target
  | .new type count args => one "type" type ++ (opt "count" count ++ many argument "args" args)
  | .delete value => one "value" value
  | .atomic _ target value => one "target" target ++ one "value" value
  | .lambda own => [(.same, function own)]
  | .pointerType pointee => one "pointee" pointee
  | .referenceType pointee => one "pointee" pointee
  | .arrayType element length => one "element" element ++ one "length" length
  | .define _ type value _ => opt "type" type ++ opt "value" value
  | .function own => [(.same, function own)]
  | .struct own => [(.same, struct own)]
  | .enum own => [(.same, enum own)]
  | .aliasAs _ target => one "target" target
  | .exportAs _ target => one "target" target
  | .module own => [(.same, module own)]
  | .foreign _ body => many node "body" body
  | .modified _ body => many node "body" body
  | .block _ body => many node "body" body
  | .branch condition whenTrue whenFalse => one "cond" condition ++ (one "then" whenTrue ++ opt "otherwise" whenFalse)
  | .loop _ init condition step body =>
    opt "init" init ++ (opt "cond" condition ++ (opt "step" step ++ one "body" body))
  | .forIn _ _ iterable body => one "iterable" iterable ++ one "body" body
  | .returns value => opt "value" value
  | .defer value => one "value" value
  | .yield value => one "value" value
  | .yieldFrom value => one "value" value
  | .await value => one "value" value

def parts : TreePart → List (Way × TreePart)
  | module own => many node "body" own.body
  | node own => ofForm own.form
  | function own =>
    many node "body" (own.body.getD []) ++ (many param "params" own.params ++ opt "returnType" own.returnType)
  | struct own => many param "params" own.params ++ many node "body" own.body
  | enum own => many member "members" own.members ++ opt "base" own.base
  | member own => opt "value" own.value
  | param own => opt "type" own.type ++ opt "default" own.default
  | argument own => [(.value, node own.value)]

/-- The whole has a part at the end of ways. -/
inductive Has (whole : TreePart) : List Way → TreePart → Prop
  | whole : Has whole [] whole
  | within {ways : List Way} {part sub : TreePart} {way : Way} (h : Has whole ways part)
    (hsub : (way, sub) ∈ part.parts) : Has whole (ways ++ [way]) sub

end TreePart

/-! ## The objects around a part -/

namespace Json

/-- Whether a value is an argument as such, and not a node that stands for one. -/
def isArgument (json : Json) : Bool := ((json.get? "kind").bind string?).getD "Argument" = "Argument"

/-- Goes a way from the innermost of some values, which come innermost first. -/
def enter : List Json → Way → Option (List Json)
  | [], _ => none
  | json :: around, .same => some (json :: around)
  | json :: around, .member key => (json.get? key).map (· :: json :: around)
  | json :: around, .item key index => (((json.get? key).bind array?).bind (·[index]?)).map (· :: json :: around)
  | json :: around, .value =>
    if json.isArgument then (json.get? "value").map (· :: json :: around) else some (json :: around)

/-- The objects around what is at the end of ways, that one included, innermost first. -/
def enclosing (json : Json) (ways : List Way) : Option (List Json) := ways.foldlM enter [json]

/-- The position that an object has, unless it is null. -/
def ownPos? (json : Json) : Option Json :=
  match json.get? "pos" with
  | some .null => none
  | pos => pos

end Json

/-- A span has the four numbers of a position, each cut to 32 bits, with an end that is not before the start. -/
def Span.CutFrom (file : Nat) (span : Span) (line column endLine endColumn : Nat) : Prop :=
  let start : LineCol := ⟨line % pow2 32, column % pow2 32⟩
  span = ⟨file, start, max ⟨endLine % pow2 32, endColumn % pow2 32⟩ start⟩

/-- A span comes from the innermost of some objects that has a position; it is the start of the file if none has. -/
def Span.Inherits (file : Nat) (objects : List Json) (span : Span) : Prop :=
  match objects.findSome? Json.ownPos? with
  | none => span = .onLine file 1 1 1
  | some pos => ∃ line column endLine endColumn : Nat,
      pos = .array [.int line, .int column, .int endLine, .int endColumn] ∧
        span.CutFrom file line column endLine endColumn

theorem Span.CutFrom.exact {file line column endLine endColumn : Nat} {span : Span}
    (h : span.CutFrom file line column endLine endColumn) (hline : line < pow2 32) (hcolumn : column < pow2 32)
    (hendLine : endLine < pow2 32) (hendColumn : endColumn < pow2 32) :
    span = ⟨file, ⟨line, column⟩, max ⟨endLine, endColumn⟩ ⟨line, column⟩⟩ := by
  rw [h, Nat.mod_eq_of_lt hline, Nat.mod_eq_of_lt hcolumn, Nat.mod_eq_of_lt hendLine, Nat.mod_eq_of_lt hendColumn]

theorem Span.CutFrom.start_iff {file line column endLine endColumn : Nat} {span : Span}
    (h : span.CutFrom file line column endLine endColumn) :
    span.start = ⟨line, column⟩ ↔ line < pow2 32 ∧ column < pow2 32 := by
  have hbound : pow2 32 ≠ 0 := Nat.ne_of_gt (pow2_pos 32)
  rw [h, LineCol.mk.injEq, Nat.mod_eq_iff_lt hbound, Nat.mod_eq_iff_lt hbound]

theorem Span.Inherits.proper {file : Nat} {objects : List Json} {span : Span} (h : span.Inherits file objects) :
    span.file = file ∧ span.start ≤ span.stop := by
  unfold Inherits at h
  split at h
  · subst h
    exact ⟨rfl, LineCol.le_refl _⟩
  · obtain ⟨_, _, _, _, -, rfl⟩ := h
    exact ⟨rfl, LineCol.le_max_right _ _⟩

/-! ## What loading ensures -/

namespace LoadM

variable {α β : Type} {x : LoadM α} {P Q : α → Prop}

def Gives (x : LoadM α) (a : α) : Prop := ∃ names names', x.run.run names = (.ok a, names')

def Ensures (x : LoadM α) (P : α → Prop) : Prop := ∀ a, x.Gives a → P a

theorem run_bind_ok {f : α → LoadM β} {names names' : NameTable} {b : β}
    (h : (x >>= f).run.run names = (.ok b, names')) :
    ∃ a between, x.run.run names = (.ok a, between) ∧ (f a).run.run between = (.ok b, names') := by
  change (x.run >>= ExceptT.bindCont f : StateM NameTable _).run names = _ at h
  rw [StateT.run_bind] at h
  rcases hx : x.run.run names with ⟨_ | a, between⟩
  · rw [hx] at h
    cases h
  · rw [hx] at h
    exact ⟨a, between, rfl, h⟩

namespace Ensures

theorem self : x.Ensures x.Gives := fun _ h => h

theorem pure {a : α} (h : P a) : Ensures (Pure.pure a) P := by
  rintro b ⟨names, names', hrun⟩
  cases hrun
  exact h

theorem throw (fault : LoadError) : Ensures (MonadExcept.throw fault) P := by
  rintro b ⟨names, names', hrun⟩
  cases hrun

theorem bind {f : α → LoadM β} {Q : β → Prop} (hx : x.Ensures P) (hf : ∀ a, P a → (f a).Ensures Q) :
    Ensures (x >>= f) Q := by
  rintro b ⟨names, names', hrun⟩
  obtain ⟨a, between, ha, hb⟩ := run_bind_ok hrun
  exact hf a (hx a ⟨names, between, ha⟩) b ⟨between, names', hb⟩

/-- Goes past an action of which nothing is asked. -/
theorem after {f : α → LoadM β} {Q : β → Prop} (hf : ∀ a, (f a).Ensures Q) : Ensures (x >>= f) Q :=
  self.bind fun a _ => hf a

theorem map {f : α → β} {Q : β → Prop} (hx : x.Ensures fun a => Q (f a)) : Ensures (f <$> x) Q := by
  rw [← bind_pure_comp]
  exact hx.bind fun a ha => .pure ha

theorem mono (hx : x.Ensures P) (h : ∀ a, P a → Q a) : x.Ensures Q := fun a ha => h a (hx a ha)

/-- What a list is mapped to comes from its items, place by place. -/
theorem mapM {f : α → LoadM β} : ∀ items : List α,
    Ensures (items.mapM f) fun results => List.Forall₂ (fun a b => (f a).Gives b) items results
  | [] => by rw [List.mapM_nil]; exact .pure .nil
  | item :: rest => by
    rw [List.mapM_cons]
    exact self.bind fun b hb => (mapM rest).bind fun results hrest => .pure (.cons hb hrest)

end Ensures

end LoadM

/-! ## Parts and what they were loaded from -/

namespace Draft

variable {file : Nat} {members : List (String × Json)}

theorem find?_ofMembers (key : String) :
    Members.find? (ofMembers file members) key = (Json.lookup key members).map (of file) := by
  rw [ofMembers_eq_map, Members.find?, Json.lookup, ← List.map_reverse, List.find?_map, Option.map_map, Option.map_map]
  rfl

theorem string?_of (json : Json) : (of file json).string? = json.string? := by
  cases json <;> rfl

theorem items?_of (json : Json) : (of file json).items? = json.array?.map (·.map (of file)) := by
  cases json with
  | array items => simp [of, items?, Json.array?, ofList_eq_map]
  | _ => rfl

theorem isNull_of (json : Json) : (of file json).isNull = true ↔ json = .null := by
  cases json <;> simp [of, isNull]

theorem eq_int_of {json : Json} {n : Nat} (h : (of file json).json?.bind Json.nat? = some n) : json = .int n := by
  cases json with
  | int value =>
    change (if 0 ≤ value then some value.toNat else none) = some n at h
    split at h
    · rename_i hvalue
      cases h
      rw [Int.toNat_of_nonneg hvalue]
    · cases h
  | _ => cases h

namespace Members

/-- The members of an object that stands at a span. -/
structure Stand (file : Nat) (objects : List Json) (m : Members) (pos : Span) : Prop where
  object : ∃ members around, objects = .object members :: around ∧ m.members = ofMembers file members
  inherits : pos.Inherits file objects

theorem get?_eq_some {m : Members} {key : String} {draft : Draft} (hm : m.members = ofMembers file members)
    (h : m.get? key = some draft) :
    ∃ json, Json.lookup key members = some json ∧ json ≠ .null ∧ draft = Draft.of file json := by
  rw [get?, hm, find?_ofMembers, Option.filter_eq_some_iff, Option.map_eq_some_iff] at h
  obtain ⟨⟨json, hjson, rfl⟩, hnull⟩ := h
  refine ⟨json, hjson, fun heq => ?_, rfl⟩
  rw [(isNull_of json).2 heq] at hnull
  cases hnull

theorem get?_eq_none {m : Members} {key : String} (hm : m.members = ofMembers file members) (h : m.get? key = none) :
    Json.lookup key members = none ∨ Json.lookup key members = some .null := by
  rw [get?, hm, find?_ofMembers, Option.filter_eq_none_iff] at h
  rcases hlookup : Json.lookup key members with _ | json
  · exact .inl rfl
  · have hnull := h (Draft.of file json) (by rw [hlookup]; rfl)
    rw [Bool.not_eq_true', Bool.not_eq_false] at hnull
    exact .inr (congrArg some ((isNull_of json).1 hnull))

theorem position?_of {json : Json} {start stop : LineCol} (h : position? (Draft.of file json) = some (start, stop)) :
    ∃ line column endLine endColumn : Nat, json = .array [.int line, .int column, .int endLine, .int endColumn] ∧
      start = ⟨line % pow2 32, column % pow2 32⟩ ∧ stop = ⟨endLine % pow2 32, endColumn % pow2 32⟩ := by
  unfold position? at h
  rw [items?_of, Option.map_map] at h
  cases json with
  | array items =>
    split at h
    · rename_i line column endLine endColumn hitems
      cases h
      change some ((items.map (Draft.of file)).map fun item => item.json?.bind Json.nat?) = _ at hitems
      rw [List.map_map, Option.some.injEq] at hitems
      obtain ⟨i₁, items, rfl, h₁, hitems⟩ := List.map_eq_cons_iff.1 hitems
      obtain ⟨i₂, items, rfl, h₂, hitems⟩ := List.map_eq_cons_iff.1 hitems
      obtain ⟨i₃, items, rfl, h₃, hitems⟩ := List.map_eq_cons_iff.1 hitems
      obtain ⟨i₄, items, rfl, h₄, hitems⟩ := List.map_eq_cons_iff.1 hitems
      cases List.map_eq_nil_iff.1 hitems
      exact ⟨line, column, endLine, endColumn, by rw [eq_int_of h₁, eq_int_of h₂, eq_int_of h₃, eq_int_of h₄], rfl, rfl⟩
    · cases h
  | _ => cases h

/-- An object stands at its own position, or where the objects around it stand. -/
theorem span_inherits {m : Members} {around : List Json} {parent : Span} (hm : m.members = ofMembers file members)
    (hparent : parent.Inherits file around) :
    (m.span parent file).Ensures fun pos => Stand file (.object members :: around) m pos := by
  unfold span
  split
  · rename_i hnone
    have hown : (Json.object members).ownPos? = none := by
      unfold Json.ownPos? Json.get?
      rcases get?_eq_none hm hnone with h | h <;> simp only [h]
    refine .pure ⟨⟨members, around, rfl, hm⟩, ?_⟩
    rwa [Span.Inherits, List.findSome?_cons, hown]
  · rename_i draft hsome
    obtain ⟨json, hjson, hnull, rfl⟩ := get?_eq_some hm hsome
    have hown : (Json.object members).ownPos? = some json := by
      unfold Json.ownPos? Json.get?
      simp only [hjson]
      split <;> simp_all
    refine .bind (P := fun found => position? (Draft.of file json) = some found) ?_ fun found hfound => ?_
    · cases hpos : position? (Draft.of file json) with
      | none => exact .throw _
      | some found => exact .pure rfl
    · obtain ⟨line, column, endLine, endColumn, hnumbers, hstart, hstop⟩ := position?_of hfound
      refine .pure ⟨⟨members, around, rfl, hm⟩, ?_⟩
      rw [Span.Inherits, List.findSome?_cons, hown]
      exact ⟨line, column, endLine, endColumn, hnumbers, by rw [Span.CutFrom, ← hstart, ← hstop]⟩

theorem of_draft (what : String) (json : Json) : (Members.of what (Draft.of file json)).Ensures fun m => ∃ members,
    json = .object members ∧ m.members = ofMembers file members ∧
      m.kind = ((json.get? "kind").bind Json.string?).getD what := by
  cases json with
  | object members =>
    refine .pure ⟨members, rfl, rfl, ?_⟩
    show ((find? (ofMembers file members) "kind").bind string?).getD what = _
    rw [find?_ofMembers, Option.bind_map]
    exact congrArg (fun f => ((Json.lookup "kind" members).bind f).getD what) (funext string?_of)
  | _ => exact .throw _

end Members

end Draft

open Draft.Members (Stand)

/-- A rule loads something from the innermost of some objects, given where the others stand. -/
def LoadedBy {α : Type} (rule : Span → Draft → LoadM α) (file : Nat) (objects : List Json) (a : α) : Prop :=
  ∃ json around parent, objects = json :: around ∧ parent.Inherits file around ∧ (rule parent (.of file json)).Gives a

/-- A rule loads something from the members of the innermost of some objects, given where that stands. -/
def LoadedAt {α : Type} (rule : Draft.Members → Span → LoadM α) (file : Nat) (objects : List Json) (a : α) : Prop :=
  ∃ m pos, Stand file objects m pos ∧ (rule m pos).Gives a

namespace TreePart

def Loaded (file : Nat) (objects : List Json) : TreePart → Prop
  | module own => LoadedAt (fun m pos => m.module pos) file objects own
  | node own => LoadedBy (fun parent draft => draft.load parent) file objects own
  | function own => LoadedAt (fun m pos => m.function file pos) file objects own
  | struct own => LoadedAt (fun m pos => m.struct file pos) file objects own
  | enum own => LoadedAt (fun m pos => m.enum file pos) file objects own
  | member own => LoadedBy (Draft.Members.enumMember file) file objects own
  | param own => LoadedBy (Draft.Members.param file) file objects own
  | argument own => LoadedBy (Draft.Members.argument file) file objects own

/-- Parts were loaded from what their ways lead to. -/
def Rooted (file : Nat) (objects : List Json) (parts : List (Way × TreePart)) : Prop :=
  ∀ way sub, (way, sub) ∈ parts → ∃ inner, Json.enter objects way = some inner ∧ sub.Loaded file inner

section

variable {file : Nat} {objects : List Json} {xs ys : List (Way × TreePart)}

theorem rooted_nil : Rooted file objects [] := fun _ _ h => (List.not_mem_nil h).elim

theorem Rooted.append (hx : Rooted file objects xs) (hy : Rooted file objects ys) : Rooted file objects (xs ++ ys) := by
  intro way sub h
  rcases List.mem_append.1 h with h | h
  · exact hx way sub h
  · exact hy way sub h

theorem rooted_singleton {way : Way} {sub : TreePart} {inner : List Json} (hway : Json.enter objects way = some inner)
    (h : sub.Loaded file inner) : Rooted file objects [(way, sub)] := by
  intro way' sub' hmem
  cases List.mem_singleton.1 hmem
  exact ⟨inner, hway, h⟩

end

end TreePart

namespace Draft.Members

open TreePart LoadM

variable {file : Nat} {objects : List Json} {m : Members} {pos : Span} {α : Type}

namespace Stand

variable (h : Stand file objects m pos)
include h

theorem enter_member {key : String} {draft : Draft} (hdraft : m.get? key = some draft) :
    ∃ json, Json.enter objects (.member key) = some (json :: objects) ∧ draft = Draft.of file json ∧ json ≠ .null := by
  obtain ⟨members, around, rfl, hm⟩ := h.object
  obtain ⟨json, hjson, hnull, rfl⟩ := get?_eq_some hm hdraft
  refine ⟨json, ?_, rfl, hnull⟩
  rw [Json.enter, Json.get?, hjson]
  rfl

theorem node_rooted {key : String} {draft : Draft} (hdraft : m.get? key = some draft) :
    (draft.load pos).Ensures fun tree => Rooted file objects (one key tree) := by
  obtain ⟨json, henter, rfl, -⟩ := h.enter_member hdraft
  exact fun tree hgives => rooted_singleton henter ⟨json, objects, pos, rfl, h.inherits, hgives⟩

theorem child (key : String) : (m.child key pos).Ensures fun tree => Rooted file objects (one key tree) := by
  refine .bind (P := fun draft => m.get? key = some draft) ?_ fun draft => h.node_rooted
  unfold require
  split
  · rename_i draft hdraft
    exact .pure hdraft
  · exact .throw _

theorem optChild (key : String) : (m.optChild key pos).Ensures fun tree => Rooted file objects (opt key tree) := by
  unfold Members.optChild
  split
  · rename_i draft hdraft
    refine .map ((h.node_rooted hdraft).mono fun tree htree => ?_)
    rwa [opt, Option.toList_some, List.flatMap_singleton]
  · exact .pure rooted_nil

theorem list (key : String) : (m.list key).Ensures fun drafts =>
    ∃ items : List Json, drafts = items.map (Draft.of file) ∧
      ∀ index json, items[index]? = some json → Json.enter objects (.item key index) = some (json :: objects) := by
  unfold Members.list
  split
  · rename_i draft hdraft
    obtain ⟨members, around, rfl, hm⟩ := h.object
    obtain ⟨json, hjson, -, rfl⟩ := get?_eq_some hm hdraft
    rw [items?_of]
    cases json with
    | array items =>
      refine .pure ⟨items, rfl, fun index json hitem => ?_⟩
      simp only [Json.enter, Json.get?, hjson, Option.bind_some, Json.array?, hitem, Option.map_some]
    | _ => exact .throw _
  · exact .pure ⟨[], rfl, fun index json hitem => by cases hitem⟩

/-- A rule for the items of a member loads each part from the item at its place. -/
theorem many (part : α → TreePart) (rule : Span → Draft → LoadM α)
    (hpart : ∀ objects a, LoadedBy rule file objects a → (part a).Loaded file objects)
    {key : String} {drafts : List Draft}
    (hdrafts : ∃ items : List Json, drafts = items.map (Draft.of file) ∧
      ∀ index json, items[index]? = some json → Json.enter objects (.item key index) = some (json :: objects)) :
    (drafts.mapM (rule pos)).Ensures fun results => Rooted file objects (TreePart.many part key results) := by
  obtain ⟨items, rfl, hitems⟩ := hdrafts
  refine (Ensures.mapM _).mono fun results hresults way sub hmem => ?_
  rw [List.forall₂_map_left_iff] at hresults
  obtain ⟨index, hindex, heq⟩ := List.mem_mapIdx.1 hmem
  cases heq
  have hlength : index < items.length := by rw [hresults.length_eq]; exact hindex
  have hgives := List.forall₂_iff_get.1 hresults |>.2 index hlength hindex
  exact ⟨_, hitems index _ (List.getElem?_eq_getElem hlength), hpart _ _ ⟨_, _, _, rfl, h.inherits, hgives⟩⟩

theorem children (key : String) :
    (m.children key pos).Ensures fun trees => Rooted file objects (TreePart.many .node key trees) :=
  (h.list key).bind fun _ hdrafts =>
    h.many .node (fun parent draft => draft.load parent) (fun _ _ hnode => hnode) hdrafts

theorem arguments (key : String) :
    (m.arguments key file pos).Ensures fun args => Rooted file objects (TreePart.many .argument key args) :=
  (h.list key).bind fun _ hdrafts => h.many .argument (argument file) (fun _ _ hargument => hargument) hdrafts

theorem params : (m.params file pos).Ensures fun params => Rooted file objects (TreePart.many .param "params" params) :=
  (h.list "params").bind fun _ hdrafts => h.many .param (param file) (fun _ _ hparam => hparam) hdrafts

theorem function :
    (m.function file pos).Ensures fun own => own.pos = pos ∧ Rooted file objects (TreePart.function own).parts := by
  have hbody : (m.functionBody pos).Ensures fun body =>
      Rooted file objects (TreePart.many .node "body" (body.getD [])) := by
    unfold functionBody
    split
    · exact .pure rooted_nil
    · exact .map (h.children "body")
  exact .after fun _ => .after fun _ => hbody.bind fun _ hbody => .after fun _ => h.params.bind fun _ hparams =>
    (h.optChild "returnType").bind fun _ hreturn => .after fun _ => .pure ⟨rfl, hbody.append (hparams.append hreturn)⟩

theorem struct :
    (m.struct file pos).Ensures fun own => own.pos = pos ∧ Rooted file objects (TreePart.struct own).parts :=
  .after fun _ => .after fun _ => h.params.bind fun _ hparams => (h.children "body").bind fun _ hbody =>
    .after fun _ => .pure ⟨rfl, hparams.append hbody⟩

theorem enum : (m.enum file pos).Ensures fun own => own.pos = pos ∧ Rooted file objects (TreePart.enum own).parts :=
  (h.list "members").bind fun _ hdrafts =>
    (h.many .member (enumMember file) (fun _ _ hmember => hmember) hdrafts).bind fun _ hmembers => .after fun _ =>
      (h.optChild "base").bind fun _ hbase => .pure ⟨rfl, hmembers.append hbase⟩

theorem module : (m.module pos).Ensures fun own => own.pos = pos ∧ Rooted file objects (TreePart.module own).parts :=
  .after fun _ => (h.children "body").bind fun _ hbody => .pure ⟨rfl, hbody⟩

theorem same (part : α → TreePart) {rule : Members → Span → LoadM α}
    (hpart : ∀ a, LoadedAt rule file objects a → (part a).Loaded file objects) :
    (rule m pos).Ensures fun a => Rooted file objects [(.same, part a)] := by
  obtain ⟨members, around, rfl, hm⟩ := h.object
  exact fun a hgives => rooted_singleton rfl (hpart a ⟨m, pos, h, hgives⟩)

/-- **The parts of a form were loaded from what their ways lead to.** -/
theorem form (kind : String) : (m.form file pos kind).Ensures fun form => Rooted file objects (ofForm form) := by
  -- The kinds come in the order of the rules, and with each kind its members in the order in which they are read.
  unfold Members.form
  split
  · exact .after fun _ => .after fun _ => .after fun _ => .pure rooted_nil
  · exact .after fun _ => .after fun _ => .pure rooted_nil
  · exact .pure rooted_nil
  · exact .pure rooted_nil
  · exact .after fun _ => .pure rooted_nil
  · exact .after fun _ => .pure rooted_nil
  · exact (h.child "base").bind fun _ hbase => .after fun _ => .pure hbase
  · exact (h.child "base").bind fun _ hbase => (h.child "index").bind fun _ hindex => .pure (hbase.append hindex)
  · exact .after fun _ => .after fun _ => (h.child "operand").bind fun _ hoperand => .pure hoperand
  · exact .after fun _ => .after fun _ => (h.child "left").bind fun _ hleft => (h.child "right").bind fun _ hright =>
      .pure (hleft.append hright)
  · have hrest (op : Option BinaryOp) : Ensures (do return .assign op (← m.child "target" pos) (← m.child "value" pos))
        fun form => Rooted file objects (ofForm form) :=
      (h.child "target").bind fun _ htarget => (h.child "value").bind fun _ hvalue => .pure (htarget.append hvalue)
    exact .after fun symbol => by cases symbol <;> exact .after hrest
  · exact (h.child "cond").bind fun _ hcond => (h.child "then").bind fun _ hthen =>
      (h.child "otherwise").bind fun _ hotherwise => .pure (hcond.append (hthen.append hotherwise))
  · exact (h.child "value").bind fun _ hvalue => (h.child "target").bind fun _ htarget => .after fun _ =>
      .pure (hvalue.append htarget)
  · exact (h.child "callee").bind fun _ hcallee => (h.arguments "args").bind fun _ hargs =>
      (h.optChild "with").bind fun _ hwith => .pure (hcallee.append (hargs.append hwith))
  · exact (h.child "type").bind fun _ htype => (h.arguments "fields").bind fun _ hfields => .pure (htype.append hfields)
  · exact (h.children "items").bind fun _ hitems => .pure hitems
  · exact (h.child "target").bind fun _ htarget => .pure htarget
  · exact (h.child "type").bind fun _ htype => (h.optChild "count").bind fun _ hcount =>
      (h.arguments "args").bind fun _ hargs => .pure (htype.append (hcount.append hargs))
  · exact (h.child "value").bind fun _ hvalue => .pure hvalue
  · exact .after fun _ => .after fun _ => (h.child "target").bind fun _ htarget =>
      (h.child "value").bind fun _ hvalue => .pure (htarget.append hvalue)
  · exact (h.same .function fun _ hown => hown).bind fun _ hown => .pure hown
  · exact (h.child "pointee").bind fun _ hpointee => .pure hpointee
  · exact (h.child "pointee").bind fun _ hpointee => .pure hpointee
  · exact (h.child "element").bind fun _ helement => (h.child "length").bind fun _ hlength =>
      .pure (helement.append hlength)
  · exact .after fun _ => (h.optChild "type").bind fun _ htype => (h.optChild "value").bind fun _ hvalue =>
      .after fun _ => .pure (htype.append hvalue)
  · exact (h.same .function fun _ hown => hown).bind fun _ hown => .pure hown
  · exact (h.same .struct fun _ hown => hown).bind fun _ hown => .pure hown
  · exact (h.same .enum fun _ hown => hown).bind fun _ hown => .pure hown
  · exact .after fun _ => (h.child "target").bind fun _ htarget => .pure htarget
  · exact .after fun _ => .after fun _ => .after fun _ => .pure rooted_nil
  · exact .after fun _ => (h.child "target").bind fun _ htarget => .pure htarget
  · exact (h.same .module fun _ hown => hown).bind fun _ hown => .pure hown
  · exact .after fun _ => (h.children "body").bind fun _ hbody => .pure hbody
  · exact .after fun _ => (h.children "body").bind fun _ hbody => .pure hbody
  · exact .after fun _ => (h.children "body").bind fun _ hbody => .pure hbody
  · exact (h.child "cond").bind fun _ hcond => (h.child "then").bind fun _ hthen =>
      (h.optChild "otherwise").bind fun _ hotherwise => .pure (hcond.append (hthen.append hotherwise))
  · exact .after fun _ => (h.optChild "init").bind fun _ hinit => (h.optChild "cond").bind fun _ hcond =>
      (h.optChild "step").bind fun _ hstep => (h.child "body").bind fun _ hbody =>
        .pure (hinit.append (hcond.append (hstep.append hbody)))
  · exact .after fun _ => .after fun _ => (h.child "iterable").bind fun _ hiterable =>
      (h.child "body").bind fun _ hbody => .pure (hiterable.append hbody)
  · exact (h.optChild "value").bind fun _ hvalue => .pure hvalue
  · exact .after fun _ => .pure rooted_nil
  · exact .after fun _ => .pure rooted_nil
  · exact (h.child "value").bind fun _ hvalue => .pure hvalue
  · exact (h.child "value").bind fun _ hvalue => .pure hvalue
  · exact (h.child "value").bind fun _ hvalue => .pure hvalue
  · exact (h.child "value").bind fun _ hvalue => .pure hvalue
  · exact .throw _

end Stand

end Draft.Members

namespace TreePart

open LoadM Draft.Members

variable {file : Nat} {objects : List Json}

/-- A part has the position of the innermost object that has one, and its parts come from what their ways lead to. -/
def Settled (file : Nat) (objects : List Json) (part : TreePart) : Prop :=
  part.pos.Inherits file objects ∧ Rooted file objects part.parts

/-- What a rule ensures wherever the object around stands holds of all that it loads. -/
theorem LoadedBy.settled {α : Type} {part : α → TreePart} {rule : Span → Draft → LoadM α} {a : α}
    (h : LoadedBy rule file objects a)
    (hrule : ∀ json around parent, parent.Inherits file around →
      (rule parent (.of file json)).Ensures fun a => (part a).Settled file (json :: around)) :
    (part a).Settled file objects := by
  obtain ⟨json, around, parent, rfl, hparent, hgives⟩ := h
  exact hrule json around parent hparent a hgives

theorem LoadedAt.settled {α : Type} {part : α → TreePart} {rule : Draft.Members → Span → LoadM α} {a : α}
    (h : LoadedAt rule file objects a)
    (hrule : ∀ m pos, Stand file objects m pos →
      (rule m pos).Ensures fun a => (part a).pos = pos ∧ Rooted file objects (part a).parts) :
    (part a).Settled file objects := by
  obtain ⟨m, pos, hstand, hgives⟩ := h
  obtain ⟨hpos, hparts⟩ := hrule m pos hstand a hgives
  exact ⟨hpos ▸ hstand.inherits, hparts⟩

theorem node_settled (json : Json) (around : List Json) (parent : Span) (hparent : parent.Inherits file around) :
    ((Draft.of file json).load parent).Ensures fun tree => (node tree).Settled file (json :: around) := by
  cases json with
  | object members =>
    refine (span_inherits rfl hparent).bind fun pos hstand => .after fun kind => ?_
    exact (hstand.form kind).bind fun form hform => .pure ⟨hstand.inherits, hform⟩
  | _ => exact .throw _

theorem member_settled (json : Json) (around : List Json) (parent : Span) (hparent : parent.Inherits file around) :
    (enumMember file parent (.of file json)).Ensures fun own => (member own).Settled file (json :: around) := by
  refine (of_draft "EnumMember" json).bind fun m hm => ?_
  obtain ⟨members, rfl, hmembers, -⟩ := hm
  exact (span_inherits hmembers hparent).bind fun pos hstand => .after fun _ =>
    (hstand.optChild "value").bind fun _ hvalue => .pure ⟨hstand.inherits, hvalue⟩

theorem param_settled (json : Json) (around : List Json) (parent : Span) (hparent : parent.Inherits file around) :
    (Draft.Members.param file parent (.of file json)).Ensures fun own => (param own).Settled file (json :: around) := by
  refine (of_draft "Param" json).bind fun m hm => ?_
  obtain ⟨members, rfl, hmembers, -⟩ := hm
  exact (span_inherits hmembers hparent).bind fun pos hstand => .after fun _ =>
    (hstand.optChild "type").bind fun _ htype => (hstand.optChild "default").bind fun _ hdefault =>
      .pure ⟨hstand.inherits, htype.append hdefault⟩

theorem argument_settled (json : Json) (around : List Json) (parent : Span) (hparent : parent.Inherits file around) :
    (Draft.Members.argument file parent (.of file json)).Ensures fun own =>
      (argument own).Settled file (json :: around) := by
  refine (of_draft "Argument" json).bind fun m hm => ?_
  obtain ⟨members, rfl, hmembers, hkind⟩ := hm
  rw [hkind]
  split
  · -- An argument as such: the value is a member of its own.
    rename_i hargument
    have henter : Json.enter (.object members :: around) .value =
        Json.enter (.object members :: around) (.member "value") := if_pos (decide_eq_true hargument)
    refine (span_inherits hmembers hparent).bind fun pos hstand => .after fun _ => ?_
    refine (hstand.child "value").bind fun _ hvalue => ?_
    refine .pure ⟨hstand.inherits, fun way sub hmem => ?_⟩
    cases List.mem_singleton.1 hmem
    rw [henter]
    exact hvalue _ _ List.mem_cons_self
  · -- A node in the place of an argument: both are read from the same object, and so have the same position.
    rename_i hnode
    have henter : Json.enter (.object members :: around) .value = some (.object members :: around) :=
      if_neg fun hargument => hnode (of_decide_eq_true hargument)
    refine Ensures.bind (fun tree hgives => ?_) fun tree htree => .pure htree
    exact ⟨(node_settled _ around parent hparent tree hgives).1,
      rooted_singleton henter ⟨_, around, parent, rfl, hparent, hgives⟩⟩

/-- **A part that was loaded from an object is settled there.** -/
theorem Loaded.settled {part : TreePart} (h : part.Loaded file objects) : part.Settled file objects := by
  cases part with
  | module own => exact LoadedAt.settled h fun _ _ hstand => hstand.module
  | node own =>
    have hload : LoadedBy (fun parent draft => draft.load parent) file objects own := h
    exact LoadedBy.settled hload node_settled
  | function own => exact LoadedAt.settled h fun _ _ hstand => hstand.function
  | struct own => exact LoadedAt.settled h fun _ _ hstand => hstand.struct
  | enum own => exact LoadedAt.settled h fun _ _ hstand => hstand.enum
  | member own => exact LoadedBy.settled h member_settled
  | param own => exact LoadedBy.settled h param_settled
  | argument own => exact LoadedBy.settled h argument_settled

/-- Every part of a loaded whole was loaded from what its ways lead to. -/
theorem Has.loaded {whole part : TreePart} {ways : List Way} {json : Json} (hwhole : whole.Loaded file [json])
    (h : whole.Has ways part) : ∃ objects, json.enclosing ways = some objects ∧ part.Loaded file objects := by
  induction h with
  | whole => exact ⟨[json], rfl, hwhole⟩
  | within _ hsub ih =>
    obtain ⟨objects, hobjects, hloaded⟩ := ih
    obtain ⟨inner, hinner, hinnerLoaded⟩ := hloaded.settled.2 _ _ hsub
    refine ⟨inner, ?_, hinnerLoaded⟩
    rw [Json.enclosing] at hobjects ⊢
    rw [List.foldlM_append, hobjects, Option.bind_eq_bind, Option.bind_some, List.foldlM_cons, hinner]
    rfl

end TreePart

namespace ModuleDef

theorem ofJson_loaded {file : Nat} {json : Json} :
    (ofJson file json).Ensures fun own => (TreePart.module own).Loaded file [json] := by
  have hnone : (Span.onLine file 1 1 1).Inherits file [] := rfl
  refine (Draft.Members.of_draft "Module" json).bind fun m hm => ?_
  obtain ⟨members, rfl, hmembers, -⟩ := hm
  exact (Draft.Members.span_inherits hmembers hnone).bind fun pos hstand own hgives => ⟨m, pos, hstand, hgives⟩

/-- **A position comes from the innermost object that has one, in 32 bits.** Whatever names were recorded before a text
loads as a module of a file, each part of the module, at any depth, was read from the object of the JSON value that the
same ways lead to; it has the file and a start that is not behind its end. Its position is that of the innermost object
around it, its own included, with a position that is not null, and the start of the file if there is none. The start
has the first two of the four numbers, and the end is the later one of the other two and the start. Each number is taken
modulo 2 ^ 32, so that numbers below that stay as they are, and only those. -/
theorem ofText_spans (file : Nat) (text : String) (names names' : NameTable) (own : ModuleDef)
    (h : load (ofText file text) names = (.ok own, names')) :
    ∃ json, Json.read? text = some json ∧ ∀ ways part, (TreePart.module own).Has ways part →
      ∃ objects, json.enclosing ways = some objects ∧
        part.pos.file = file ∧ part.pos.start ≤ part.pos.stop ∧
        (objects.findSome? Json.ownPos? = none → part.pos = ⟨file, ⟨1, 1⟩, ⟨1, 1⟩⟩) ∧
        ∀ pos, objects.findSome? Json.ownPos? = some pos → ∃ line column endLine endColumn : Nat,
          pos = .array [.int line, .int column, .int endLine, .int endColumn] ∧
          part.pos.CutFrom file line column endLine endColumn ∧
          (part.pos.start = ⟨line, column⟩ ↔ line < pow2 32 ∧ column < pow2 32) ∧
          (line < pow2 32 → column < pow2 32 → endLine < pow2 32 → endColumn < pow2 32 →
            part.pos = ⟨file, ⟨line, column⟩, max ⟨endLine, endColumn⟩ ⟨line, column⟩⟩) := by
  unfold ofText at h
  split at h
  · rename_i json hjson
    refine ⟨json, hjson, fun ways part hhas => ?_⟩
    have hwhole := ofJson_loaded own ⟨names, names', h⟩
    obtain ⟨objects, hobjects, hloaded⟩ := hhas.loaded hwhole
    have hinherits := hloaded.settled.1
    refine ⟨objects, hobjects, hinherits.proper.1, hinherits.proper.2, fun hnone => ?_, fun pos hpos => ?_⟩
    · rwa [Span.Inherits, hnone] at hinherits
    · rw [Span.Inherits, hpos] at hinherits
      obtain ⟨line, column, endLine, endColumn, hnumbers, hcut⟩ := hinherits
      exact ⟨line, column, endLine, endColumn, hnumbers, hcut, hcut.start_iff, hcut.exact⟩
  · cases h

/-- A text loads as the value that its tokens spell. -/
theorem ofText_of_tokens {file : Nat} {text : String} {tokens : List Json.Token} {json : Json}
    (htokens : Json.tokens? text.toList = some tokens)
    (hvalue : (Json.Raw.ofTokens? tokens >>= Json.Raw.value? Json.maxLevels) = some json) :
    ofText file text = ofJson file json := by
  have hread : Json.read? text = some json := by
    rw [Json.read?, Json.Raw.read?, htokens]
    exact hvalue
  rw [ofText, hread]

def quoted (text : String) : Json.Token := .string (text.toList.map .char)

def number (n : Nat) : Json.Token := .number ⟨false, n, 0, true⟩

/-- A module that returns null. Only the return has a position, whose end is before its start. -/
def returning : String :=
  "\x7b\"name\":\"m\",\"body\":[\x7b\"kind\":\"Return\",\"pos\":[4,2,4,1],\"value\":\x7b\"kind\":\"NullLiteral\"\x7d\x7d]\x7d"

theorem ofText_returning : ofText 0 returning = ofJson 0 (single (.object [("kind", .string "Return"),
    ("pos", .array [.int 4, .int 2, .int 4, .int 1]), ("value", .object [("kind", .string "NullLiteral")])])) := by
  have htokens : Json.tokens? returning.toList = some [.openObject, quoted "name", .colon, quoted "m", .comma,
      quoted "body", .colon, .openArray, .openObject, quoted "kind", .colon, quoted "Return", .comma, quoted "pos",
      .colon, .openArray, number 4, .comma, number 2, .comma, number 4, .comma, number 1, .closeArray, .comma,
      quoted "value", .colon, .openObject, quoted "kind", .colon, quoted "NullLiteral", .closeObject, .closeObject,
      .closeArray, .closeObject] := by decide +kernel
  exact ofText_of_tokens htokens rfl

/-- What is returned stands where the return does. -/
theorem returning_spans : ∃ own names', load (ofText 0 returning) {} = (.ok own, names') ∧
    own.pos = ⟨0, ⟨1, 1⟩, ⟨1, 1⟩⟩ ∧ ∃ value, (TreePart.module own).Has [.item "body" 0, .member "value"] (.node value) ∧
      value.pos.start ≤ value.pos.stop ∧ value.pos = ⟨0, ⟨4, 2⟩, ⟨4, 2⟩⟩ := by
  let place : Span := ⟨0, ⟨4, 2⟩, ⟨4, 2⟩⟩
  let value : Syntax := .mk place .null
  let own : ModuleDef := ⟨.onLine 0 1 1 1, "m", [.mk place (.returns (some value))]⟩
  have hload : load (ofText 0 returning) {} = (.ok own, { names := ["m"] }) := by rw [ofText_returning]; rfl
  have hvalue : (TreePart.module own).Has [.item "body" 0, .member "value"] (.node value) :=
    .within (.within .whole List.mem_cons_self) List.mem_cons_self
  obtain ⟨json, -, hparts⟩ := ofText_spans 0 returning {} _ own hload
  obtain ⟨objects, -, -, hproper, -⟩ := hparts _ _ hvalue
  exact ⟨own, _, hload, rfl, value, hvalue, hproper, rfl⟩

def beyond : String := "\x7b\"name\":\"m\",\"pos\":[4294967297,1,4294967297,2]\x7d"

/-- Line 2 ^ 32 + 1 is taken for line 1. -/
theorem beyond_cut : (load (ofText 0 beyond) {}).1.toOption.map (·.pos) = some ⟨0, ⟨1, 1⟩, ⟨1, 2⟩⟩ := by
  have htokens : Json.tokens? beyond.toList = some [.openObject, quoted "name", .colon, quoted "m", .comma,
      quoted "pos", .colon, .openArray, number 4294967297, .comma, number 1, .comma, number 4294967297, .comma,
      number 2, .closeArray, .closeObject] := by decide +kernel
  have htext : ofText 0 beyond = ofJson 0 (.object [("name", .string "m"),
      ("pos", .array [.int 4294967297, .int 1, .int 4294967297, .int 2])]) := ofText_of_tokens htokens rfl
  rw [htext]
  rfl

end ModuleDef

end Bindery
