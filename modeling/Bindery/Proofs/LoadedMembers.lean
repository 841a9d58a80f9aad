import Bindery.Syntax.Load
import Mathlib.Data.Option.Basic
import Mathlib.Logic.Relation
/-!
# The members that loading reads

Loading looks an object's members up by name and takes a null for an absent member. So members of names that no rule
reads, and members that are null, may be dropped at any depth: the tree and its positions, the fault, and the names
recorded stay. Of the names that are read, none could be left out of the list.

A rule looks at a member as a string, a number, a flag, a node or a list of parts. Drafts that no rule can tell apart are
`Alike`: each rule gives the same for members that are alike, and dropping a member gives a draft that is alike.
-/
namespace Bindery

/-- Related options are both absent, or both there and related. -/
theorem cases_of_rel {α β : Type} {R : α → β → Prop} {x : Option α} {y : Option β} (h : Option.Rel R x y) :
    (x = none ∧ y = none) ∨ ∃ a b, x = some a ∧ y = some b ∧ R a b := by
  cases h with
  | none => exact .inl ⟨rfl, rfl⟩
  | some hab => exact .inr ⟨_, _, rfl, rfl, hab⟩

/-- The names of the members that the rules of loading read. -/
abbrev fieldNames : List String :=
  ["kind", "pos", "name", "value", "body", "type", "target", "op", "label", "cond", "then", "otherwise", "base", "member",
    "index", "operand", "left", "right", "cast", "callee", "args", "with", "fields", "items", "count", "pointee", "element",
    "length", "suffix", "single", "modifiers", "functionKind", "operator", "params", "default", "vararg", "const",
    "returnType", "structKind", "members", "path", "alias", "abi", "init", "step", "iterable"]

namespace Json

/-- One value is the other without one member of one object, at any depth. Which members may be dropped is said by their
name and value. A name that was written several times goes with all of them. -/
inductive Drops (may : String → Json → Prop) : Json → Json → Prop
  | here {members : List (String × Json)} {key : String} {value : Json} (hv : lookup key members = some value)
    (h : may key value) : Drops may (.object members) (.object (members.filter (·.1 ≠ key)))
  | item {before after : List Json} {v w : Json} (h : Drops may v w) :
    Drops may (.array (before ++ v :: after)) (.array (before ++ w :: after))
  | member {before after : List (String × Json)} {key : String} {v w : Json} (h : Drops may v w) :
    Drops may (.object (before ++ (key, v) :: after)) (.object (before ++ (key, w) :: after))

/-- A member that is null, or whose name is none that loading reads. -/
def Ignored (key : String) (value : Json) : Prop := value = .null ∨ key ∉ fieldNames

theorem lookup_filter (k key : String) (members : List (String × Json)) :
    lookup k (members.filter (·.1 ≠ key)) = if k = key then none else lookup k members := by
  unfold lookup
  rw [← List.filter_reverse, List.find?_filter]
  split
  · simp_all
  · congr 2
    funext pair
    by_cases hp : pair.1 = k <;> simp_all

theorem lookup_append_cons (k key : String) (v : Json) (before after : List (String × Json)) :
    lookup k (before ++ (key, v) :: after) =
      (lookup k after).or (if k = key then some v else lookup k before) := by
  simp only [lookup, List.reverse_append, List.reverse_cons, List.find?_append, List.find?_singleton, Option.map_or]
  by_cases hk : k = key
  · simp [hk]
  · have hne : (key == k) = false := beq_eq_false_iff_ne.2 (Ne.symm hk)
    simp [hk, hne]

end Json

namespace Draft

/-- The member with a key, unless it is null. -/
def present (members : List (String × Draft)) (key : String) : Option Draft :=
  (Members.find? members key).filter (!·.isNull)

/-- The rules of loading cannot tell one draft from the other. -/
inductive Alike : Draft → Draft → Prop
  | refl (draft : Draft) : Alike draft draft
  | item {before after : List Draft} {a b : Draft} (h : Alike a b) :
    Alike (.array (before ++ a :: after)) (.array (before ++ b :: after))
  | object {xs ys : List (String × Draft)} {node : Span → LoadM Syntax}
    (h : ∀ key ∈ fieldNames, Option.Rel Alike (present xs key) (present ys key)) :
    Alike (.object xs node) (.object ys node)

namespace Alike

variable {a b : Draft} {α : Type}

theorem json?_eq (h : Alike a b) : a.json? = b.json? := by cases h <;> rfl

theorem string?_eq (h : Alike a b) : a.string? = b.string? := by unfold string?; rw [h.json?_eq]

theorem isNull_eq (h : Alike a b) : a.isNull = b.isNull := by cases h <;> rfl

theorem load_eq (h : Alike a b) (pos : Span) : a.load pos = b.load pos := by cases h <;> rfl

end Alike

namespace Members

/-- Members that the rules of loading cannot tell apart. -/
structure Alike (m n : Members) : Prop where
  kind : m.kind = n.kind
  get? : ∀ key ∈ fieldNames, Option.Rel Draft.Alike (m.get? key) (n.get? key)

section

variable {m n : Members} {key : String} {α : Type}

/-- What is read of the kind of an object is read past a null. -/
theorem find?_bind_string? (xs : List (String × Draft)) (key : String) :
    (find? xs key).bind string? = (present xs key).bind string? := by
  unfold present
  rcases find? xs key with _ | draft
  · rfl
  · cases hnull : draft.isNull
    · rw [Option.filter_some, hnull]
      rfl
    · have : draft = .leaf .null := by
        cases draft with
        | leaf json => cases json <;> simp_all [isNull]
        | array => cases hnull
        | object => cases hnull
      subst this
      rfl

theorem alike_of_present {xs ys : List (String × Draft)}
    (h : ∀ key ∈ fieldNames, Option.Rel Draft.Alike (present xs key) (present ys key)) (what : String) :
    Alike ⟨((find? xs "kind").bind string?).getD what, xs⟩ ⟨((find? ys "kind").bind string?).getD what, ys⟩ := by
  refine ⟨?_, h⟩
  show ((find? xs "kind").bind string?).getD what = ((find? ys "kind").bind string?).getD what
  rw [find?_bind_string?, find?_bind_string? ys]
  rcases cases_of_rel (h "kind" (by simp)) with ⟨hx, hy⟩ | ⟨a, b, hx, hy, hab⟩
  · rw [hx, hy]
  · rw [hx, hy, Option.bind_some, Option.bind_some, hab.string?_eq]

/-- Objects that are alike have members that are. -/
theorem of_bind {a b : Draft} (h : a.Alike b) (what : String) {k : Members → LoadM α}
    (hk : ∀ m n, Members.Alike m n → k m = k n) : of what a >>= k = of what b >>= k := by
  cases h with
  | refl => rfl
  | item => rfl
  | object h => exact hk _ _ (alike_of_present h what)

namespace Alike

/-- A rule that reads a member goes on alike with members that are alike. -/
theorem require_bind (h : m.Alike n) (hkey : key ∈ fieldNames) {k : Draft → LoadM α}
    (hk : ∀ a b, Draft.Alike a b → k a = k b) : m.require key >>= k = n.require key >>= k := by
  unfold require
  rw [h.kind]
  rcases cases_of_rel (h.get? key hkey) with ⟨hm, hn⟩ | ⟨a, b, hm, hn, hab⟩
  · rw [hm, hn]
  · rw [hm, hn]
    exact hk a b hab

theorem str_eq (h : m.Alike n) (hkey : key ∈ fieldNames) : m.str key = n.str key :=
  h.require_bind hkey fun _ _ hab => by rw [hab.string?_eq]

theorem child_eq (h : m.Alike n) (hkey : key ∈ fieldNames) (pos : Span) : m.child key pos = n.child key pos :=
  h.require_bind hkey fun _ _ hab => hab.load_eq pos

theorem optStr_eq (h : m.Alike n) (hkey : key ∈ fieldNames) : m.optStr key = n.optStr key := by
  unfold optStr
  rcases cases_of_rel (h.get? key hkey) with ⟨hm, hn⟩ | ⟨a, b, hm, hn, hab⟩
  · rw [hm, hn]
  · simp only [hm, hn, hab.string?_eq]

theorem optChild_eq (h : m.Alike n) (hkey : key ∈ fieldNames) (pos : Span) :
    m.optChild key pos = n.optChild key pos := by
  unfold optChild
  rcases cases_of_rel (h.get? key hkey) with ⟨hm, hn⟩ | ⟨a, b, hm, hn, hab⟩
  · rw [hm, hn]
  · simp only [hm, hn, hab.load_eq]

theorem flag_eq (h : m.Alike n) (hkey : key ∈ fieldNames) : m.flag key = n.flag key := by
  unfold flag
  rcases cases_of_rel (h.get? key hkey) with ⟨hm, hn⟩ | ⟨a, b, hm, hn, hab⟩
  · rw [hm, hn]
  · simp only [hm, hn, Option.bind_some, hab.json?_eq]

/-- A rule that reads the parts of a member one by one goes on alike. -/
theorem list_bind (h : m.Alike n) (hkey : key ∈ fieldNames) {k : List Draft → LoadM α}
    (hk : ∀ before after a b, Draft.Alike a b → k (before ++ a :: after) = k (before ++ b :: after)) :
    m.list key >>= k = n.list key >>= k := by
  unfold list
  rcases cases_of_rel (h.get? key hkey) with ⟨hm, hn⟩ | ⟨a, b, hm, hn, hab⟩
  · rw [hm, hn]
  · rw [hm, hn]
    cases hab with
    | refl => rfl
    | item hab => exact hk _ _ _ _ hab
    | object => rfl

theorem list_mapM (h : m.Alike n) (hkey : key ∈ fieldNames) {k : Draft → LoadM α}
    (hk : ∀ a b, Draft.Alike a b → k a = k b) : (m.list key >>= fun l => l.mapM k) = n.list key >>= fun l => l.mapM k :=
  h.list_bind hkey fun before after a b hab => by simp only [List.mapM_append, List.mapM_cons, hk a b hab]

theorem children_eq (h : m.Alike n) (hkey : key ∈ fieldNames) (pos : Span) :
    m.children key pos = n.children key pos :=
  h.list_mapM hkey fun _ _ hab => hab.load_eq pos

theorem name_eq (h : m.Alike n) (hkey : key ∈ fieldNames) : m.name key = n.name key := by
  unfold name
  rw [h.str_eq hkey]

theorem optName_eq (h : m.Alike n) (hkey : key ∈ fieldNames) : m.optName key = n.optName key := by
  unfold optName
  rw [h.optStr_eq hkey]

theorem position?_eq {a b : Draft} (h : a.Alike b) : position? a = position? b := by
  unfold position?
  cases h with
  | refl => rfl
  | item h => simp [items?, h.json?_eq]
  | object => rfl

theorem span_eq (h : m.Alike n) (parent : Span) (file : Nat) : m.span parent file = n.span parent file := by
  unfold span
  rcases cases_of_rel (h.get? "pos" (by simp)) with ⟨hm, hn⟩ | ⟨a, b, hm, hn, hab⟩
  · rw [hm, hn]
  · simp only [hm, hn, position?_eq hab]

theorem modifiers_eq (h : m.Alike n) : m.modifiers = n.modifiers :=
  h.list_bind (by simp) fun before after a b hab => by
    simp only [List.foldlM_append, List.foldlM_cons, hab.string?_eq]

theorem argument_eq {a b : Draft} (h : a.Alike b) (file : Nat) (parent : Span) :
    argument file parent a = argument file parent b := by
  unfold argument
  rw [h.load_eq]
  refine of_bind h "Argument" fun m n hmn => ?_
  rw [hmn.kind, hmn.span_eq, hmn.optName_eq (by simp)]
  simp (disch := simp) only [hmn.child_eq]

theorem arguments_eq (h : m.Alike n) (hkey : key ∈ fieldNames) (file : Nat) (pos : Span) :
    m.arguments key file pos = n.arguments key file pos :=
  h.list_mapM hkey fun _ _ hab => argument_eq hab file pos

theorem params_eq (h : m.Alike n) (file : Nat) (pos : Span) : m.params file pos = n.params file pos :=
  h.list_mapM (by simp) fun _ _ hab => of_bind hab "Param" fun m n hmn => by
    simp (disch := simp) only [hmn.span_eq, hmn.name_eq, hmn.optChild_eq, hmn.flag_eq]

theorem function_eq (h : m.Alike n) (file : Nat) (pos : Span) : m.function file pos = n.function file pos := by
  have hkind : m.functionKind = n.functionKind := by
    simp (disch := simp) only [functionKind, h.optStr_eq, h.kind]
  have hoperator : m.operator = n.operator := by
    simp (disch := simp) only [operator, h.optStr_eq]
  have hbody : m.functionBody pos = n.functionBody pos := by
    unfold functionBody
    rcases cases_of_rel (h.get? "body" (by simp)) with ⟨hm, hn⟩ | ⟨a, b, hm, hn, -⟩
    · rw [hm, hn]
    · rw [hm, hn, h.children_eq (by simp)]
  unfold function
  simp (disch := simp) only [hkind, hoperator, hbody, h.optName_eq, h.params_eq, h.optChild_eq, h.modifiers_eq]

theorem struct_eq (h : m.Alike n) (file : Nat) (pos : Span) : m.struct file pos = n.struct file pos := by
  simp (disch := simp) only [struct, structForm, h.optStr_eq, h.optName_eq, h.params_eq, h.children_eq,
    h.modifiers_eq]

theorem enum_eq (h : m.Alike n) (file : Nat) (pos : Span) : m.enum file pos = n.enum file pos := by
  have hmembers : ∀ a b, Draft.Alike a b → enumMember file pos a = enumMember file pos b := fun a b hab =>
    of_bind hab "EnumMember" fun m n hmn => by
      simp (disch := simp) only [hmn.span_eq, hmn.name_eq, hmn.optChild_eq]
  unfold enum
  simp (disch := simp) only [h.name_eq, h.optChild_eq]
  refine h.list_bind (by simp) fun before after a b hab => ?_
  simp only [List.mapM_append, List.mapM_cons, hmembers a b hab]

theorem module_eq (h : m.Alike n) (pos : Span) : m.module pos = n.module pos := by
  simp (disch := simp) only [module, h.name_eq, h.children_eq]

theorem intSuffix_eq (h : m.Alike n) : m.intSuffix = n.intSuffix := by
  simp (disch := simp) only [intSuffix, h.optStr_eq]

theorem castIntent_eq (h : m.Alike n) : m.castIntent = n.castIntent := by
  simp (disch := simp) only [castIntent, h.optStr_eq]

theorem form_eq (h : m.Alike n) (file : Nat) (pos : Span) (kind : String) :
    m.form file pos kind = n.form file pos kind := by
  unfold form
  simp (disch := simp) only [h.str_eq, h.optStr_eq, h.name_eq, h.optName_eq, h.flag_eq, h.child_eq, h.optChild_eq,
    h.children_eq, h.arguments_eq, h.modifiers_eq, h.function_eq, h.struct_eq, h.enum_eq, h.module_eq, h.intSuffix_eq,
    h.castIntent_eq]
  split
  case h_1 => exact h.require_bind (by simp) fun a b hab => by rw [hab.json?_eq]
  case h_2 => exact h.require_bind (by simp) fun a b hab => by rw [hab.json?_eq]
  all_goals rfl

end Alike

/-- Objects with members that are alike are the same node. -/
theorem node_eq {xs ys : List (String × Draft)}
    (h : ∀ key ∈ fieldNames, Option.Rel Draft.Alike (present xs key) (present ys key)) (file : Nat) :
    node file xs = node file ys := by
  funext parent
  have hmembers := alike_of_present h "node"
  unfold node
  simp (disch := simp) only [hmembers.span_eq, hmembers.str_eq, hmembers.form_eq]

end

end Members

variable {file : Nat}

theorem ofMembers_eq_map (file : Nat) (members : List (String × Json)) :
    ofMembers file members = members.map fun pair => (pair.1, of file pair.2) := by
  induction members with
  | nil => rfl
  | cons pair rest ih => rw [ofMembers, ih, List.map_cons]

theorem ofList_eq_map (file : Nat) (items : List Json) : ofList file items = items.map (of file) := by
  induction items with
  | nil => rfl
  | cons item rest ih => rw [ofList, ih, List.map_cons]

theorem present_ofMembers (file : Nat) (members : List (String × Json)) (key : String) :
    present (ofMembers file members) key = ((Json.lookup key members).map (of file)).filter (!·.isNull) := by
  rw [present, ofMembers_eq_map, Members.find?, Json.lookup, ← List.map_reverse, List.find?_map, Option.map_map,
    Option.map_map]
  rfl

/-- The drafts of two objects are alike when the members that are read are. -/
theorem alike_object {xs ys : List (String × Json)}
    (h : ∀ key ∈ fieldNames, Option.Rel Alike (present (ofMembers file xs) key) (present (ofMembers file ys) key)) :
    Alike (of file (.object xs)) (of file (.object ys)) := by
  rw [of, of, Members.node_eq h]
  exact .object h

theorem rel_refl (x : Option Draft) : Option.Rel Alike x x := by
  cases x with
  | none => exact .none
  | some draft => exact .some (.refl draft)

theorem Alike.rel_filter {a b : Draft} (h : Alike a b) :
    Option.Rel Alike ((some a).filter (!·.isNull)) ((some b).filter (!·.isNull)) := by
  rw [Option.filter_some, Option.filter_some, h.isNull_eq]
  split
  · exact .some h
  · exact .none

/-- **What is dropped cannot be told from the draft.** -/
theorem alike_of_drops {v w : Json} (h : v.Drops Json.Ignored w) : Alike (of file v) (of file w) := by
  induction h with
  | @here members key value hv h =>
    refine alike_object fun k hk => ?_
    rw [present_ofMembers, present_ofMembers, Json.lookup_filter]
    by_cases hkey : k = key
    · subst hkey
      rw [hv, h.resolve_right (not_not_intro hk), if_pos rfl]
      exact .none
    · rw [if_neg hkey]
      exact rel_refl _
  | @item before after v w _ ih =>
    rw [of, of, ofList_eq_map, ofList_eq_map, List.map_append, List.map_append, List.map_cons, List.map_cons]
    exact .item ih
  | @member before after key v w _ ih =>
    refine alike_object fun k _ => ?_
    rw [present_ofMembers, present_ofMembers, Json.lookup_append_cons, Json.lookup_append_cons]
    rcases Json.lookup k after with _ | x
    · rw [Option.none_or, Option.none_or]
      split
      · exact ih.rel_filter
      · exact rel_refl _
    · exact rel_refl _

end Draft

namespace ModuleDef

theorem ofJson_eq_of_drops {v w : Json} (h : v.Drops Json.Ignored w) (file : Nat) : ofJson file v = ofJson file w :=
  Draft.Members.of_bind (Draft.alike_of_drops h) "Module" fun m n hmn => by
    simp only [hmn.span_eq, hmn.module_eq]

/-! ## Every name is read

For each name there is an object in which it makes a difference. Such an object holds all members that are read before
the one in question, and `true` for that one, which is a fault unless the member is a flag.
-/

/-- A module with one statement. -/
def single (tree : Json) : Json := .object [("name", .string "m"), ("body", .array [tree])]

/-- A function with one parameter. -/
def taking (param : Json) : Json := .object [("kind", .string "Function"), ("params", .array [param])]

theorem single_drops {may : String → Json → Prop} {v w : Json} (h : v.Drops may w) : (single v).Drops may (single w) :=
  @Json.Drops.member may [("name", .string "m")] [] "body" _ _ (@Json.Drops.item may [] [] _ _ h)

theorem taking_drops {may : String → Json → Prop} {v w : Json} (h : v.Drops may w) : (taking v).Drops may (taking w) :=
  @Json.Drops.member may [("kind", .string "Function")] [] "params" _ _ (@Json.Drops.item may [] [] _ _ h)

/-- For each kind of node, members that are read there. -/
def readers : List (String × List String) :=
  [("NullLiteral", ["kind", "pos"]), ("IntLiteral", ["suffix"]), ("FloatLiteral", ["single"]), ("Name", ["name"]),
    ("Dot", ["member"]), ("Index", ["base", "index"]), ("Unary", ["op", "operand"]), ("Binary", ["left", "right"]),
    ("Ternary", ["cond", "then", "otherwise"]), ("Cast", ["cast"]), ("Call", ["callee", "args", "with"]),
    ("Initializer", ["type", "fields"]), ("Tuple", ["items"]), ("SizeOf", ["target"]), ("New", ["count"]),
    ("Delete", ["value"]), ("PointerType", ["pointee"]), ("ArrayType", ["element", "length"]),
    ("Function", ["functionKind", "operator", "params", "returnType"]), ("Struct", ["structKind"]), ("Enum", ["members"]),
    ("Import", ["path", "alias"]), ("Extern", ["abi", "body"]), ("Modified", ["modifiers"]), ("Break", ["label"]),
    ("Loop", ["init", "step"]), ("ForIn", ["iterable"])]

/-- Members of a parameter that no node has. -/
def paramNames : List String := ["default", "vararg", "const"]

/-- Members that are read before others in objects of a kind. -/
def company (kind : String) : List (String × Json) :=
  let node : Json := .object [("kind", .string "NullLiteral")]
  ["base", "cond", "then", "left", "target", "callee", "type", "element"].map (·, node) ++
    [("kind", .string kind), ("name", .string "a"), ("op", .string "-"), ("path", .string "a"),
      ("value", if kind = "Cast" then node else .int 1)]

/-- The members of an object of a kind, with the value `true` for one of them. -/
def asking (kind key : String) : List (String × Json) := company kind ++ [(key, .bool true)]

theorem asking_drops (kind key : String) : (Json.object (asking kind key)).Drops (fun k value => k = key ∧ value ≠ .null)
    (.object ((asking kind key).filter (·.1 ≠ key))) := by
  have hlast : Json.lookup key (asking kind key) = some (.bool true) := by
    rw [asking, Json.lookup_append_cons, if_pos rfl]
    rfl
  exact .here hlast ⟨rfl, nofun⟩

/-- The flags of a form. -/
def flags : Form → List Bool
  | .float _ single => [single]
  | .function own => own.params.flatMap fun param => [param.vararg, param.const]
  | _ => []

/-- What tells the results of loading apart here: a fault, or the flags of the statements. -/
def outcome (result : Except LoadError ModuleDef × NameTable) : Option LoadError × List Bool :=
  match result.1 with
  | .error fault => (some fault, [])
  | .ok own => (none, own.body.flatMap fun tree => flags tree.form)

/-- A place tells an object with all its members from the one without a member. -/
def Tells (place : Json → Json) (kind key : String) : Prop :=
  outcome (load (ofJson 0 (place (.object (asking kind key)))) {}) ≠
    outcome (load (ofJson 0 (place (.object ((asking kind key).filter (·.1 ≠ key))))) {})

instance (place : Json → Json) (kind key : String) : Decidable (Tells place kind key) := inferInstanceAs (Decidable (_ ≠ _))

theorem readers_tell : (∀ reader ∈ readers, ∀ key ∈ reader.2, Tells single reader.1 key) ∧
    ∀ key ∈ paramNames, Tells (fun param => single (taking param)) "Param" key := by
  decide +kernel

theorem readers_cover : ∀ key ∈ fieldNames, key ∈ paramNames ∨ ∃ reader ∈ readers, key ∈ reader.2 := by
  decide +kernel

theorem Tells.ne {place : Json → Json} {kind key : String} (h : Tells place kind key) :
    load (ofJson 0 (place (.object (asking kind key)))) {} ≠
      load (ofJson 0 (place (.object ((asking kind key).filter (·.1 ≠ key))))) {} :=
  fun heq => h (congrArg outcome heq)

/-- **Loading depends on the members that it reads and that are not null, and on no others.** Members of other names and
members that are null may be dropped, at any depth and any number of them: loading gives the same tree with the same
positions, or the same fault, and leaves the same table of names. Each of the names that are read makes a difference
somewhere. -/
theorem load_decided_by_members :
    (∀ v w, Relation.ReflTransGen (Json.Drops Json.Ignored) v w →
      ∀ file names, load (ofJson file v) names = load (ofJson file w) names) ∧
    ∀ key ∈ fieldNames, ∃ v w, v.Drops (fun k value => k = key ∧ value ≠ .null) w ∧
      ∃ file names, load (ofJson file v) names ≠ load (ofJson file w) names := by
  refine ⟨fun v w h file names => ?_, fun key hkey => ?_⟩
  · induction h with
    | refl => rfl
    | tail _ hdrop ih => rw [ih, ofJson_eq_of_drops hdrop]
  · obtain ⟨htells, hparam⟩ := readers_tell
    rcases readers_cover key hkey with hk | ⟨reader, hreader, hk⟩
    · exact ⟨_, _, single_drops (taking_drops (asking_drops "Param" key)), 0, {}, (hparam key hk).ne⟩
    · exact ⟨_, _, single_drops (asking_drops reader.1 key), 0, {}, (htells reader hreader key hk).ne⟩

/-- The literal one. -/
def one : Json := .object [("kind", .string "IntLiteral"), ("value", .int 1)]

/-- A module with a call, whose argument may hold more members than its value. -/
def calling (extra : List (String × Json)) : Json :=
  single (.object [("kind", .string "Call"), ("callee", .object [("kind", .string "Name"), ("name", .string "f")]),
    ("args", .array [.object (extra ++ [("value", one)])])])

/-- What is dropped from the argument is dropped from the module. -/
theorem calling_of_drops {extra rest : List (String × Json)} {may : String → Json → Prop}
    (h : Json.Drops may (.object (extra ++ [("value", one)])) (.object (rest ++ [("value", one)]))) :
    Json.Drops may (calling extra) (calling rest) :=
  single_drops (@Json.Drops.member may [("kind", .string "Call"), ("callee", _)] [] "args" _ _
    (@Json.Drops.item may [] [] _ _ h))

/-- A comment, a name that is null and a kind that is null are dropped from the argument of a call. -/
theorem calling_drops : let noted := calling [("kind", .null), ("name", .null), ("comment", .string "one")]
    Relation.ReflTransGen (Json.Drops Json.Ignored) noted (calling []) ∧
      load (ofJson 0 noted) {} = load (ofJson 0 (calling [])) {} ∧
      (load (ofJson 0 noted) {}).1.toOption.map (·.body.length) = some 1 := by
  intro noted
  have hcomment : Json.Drops Json.Ignored noted (calling [("kind", .null), ("name", .null)]) :=
    calling_of_drops (@Json.Drops.here _ _ "comment" _ rfl (.inr (by simp)))
  have hname : Json.Drops Json.Ignored (calling [("kind", .null), ("name", .null)]) (calling [("kind", .null)]) :=
    calling_of_drops (@Json.Drops.here _ _ "name" _ rfl (.inl rfl))
  have hkind : Json.Drops Json.Ignored (calling [("kind", .null)]) (calling []) :=
    calling_of_drops (@Json.Drops.here _ _ "kind" _ rfl (.inl rfl))
  have hdrops : Relation.ReflTransGen (Json.Drops Json.Ignored) noted (calling []) :=
    .head hcomment (.head hname (.single hkind))
  exact ⟨hdrops, load_decided_by_members.1 _ _ hdrops 0 {}, rfl⟩

end ModuleDef

end Bindery
