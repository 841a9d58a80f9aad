import Bindery.Json.Reader
import Bindery.NameTable
import Bindery.Number.Power
import Bindery.Syntax.Tree
/-!
# Drafts of trees

A module is handed over as JSON: an object for each node, with the node's kind and its parts as members. A member that
is null counts as absent. `pos` holds four numbers, the first and the last line and column; an object without one
stands where the object around it stands. Every name read is recorded, and the first fault met is the result.

`Draft` is a JSON value in which every object already knows the tree that it loads as, given the span around it. What
is here looks up the members of an object; which members a kind of node has is said in `Bindery.Syntax.Load`.
-/
namespace Bindery

/-- Why a module could not be loaded. -/
inductive LoadError where
  | json
  | expectedObject (what : String)
  | missingField (kind field : String)
  | unknownKind (kind : String)
  | invalidValue (field expected : String)
  deriving DecidableEq, Repr

def LoadError.message : LoadError → String
  | .json => "invalid JSON"
  | .expectedObject what => s!"expected an object for {what}"
  | .missingField kind field => s!"{kind} node is missing field `{field}`"
  | .unknownKind kind => s!"unknown syntax kind `{kind}`"
  | .invalidValue field expected => s!"invalid value for `{field}`: expected {expected}"

/-- Loading records names, and may stop at a fault; the names recorded up to there stay recorded. -/
abbrev LoadM := ExceptT LoadError (StateM NameTable)

namespace LoadM

/-- Records the use of a name. -/
def use (name : String) : LoadM String := do
  modify (·.insert name)
  return name

/-- The value, or a fault at a member. -/
def expect {α : Type} (field expected : String) : Option α → LoadM α
  | some value => pure value
  | none => throw (.invalidValue field expected)

end LoadM

/-- A JSON value whose objects know the tree that they load as, given the span around them. -/
inductive Draft where
  | leaf (json : Json)
  | array (items : List Draft)
  | object (members : List (String × Draft)) (node : Span → LoadM Syntax)

namespace Draft

def isNull : Draft → Bool
  | .leaf .null => true
  | _ => false

def json? : Draft → Option Json
  | .leaf json => some json
  | _ => none

def string? (draft : Draft) : Option String := draft.json?.bind Json.string?

def items? : Draft → Option (List Draft)
  | .array items => some items
  | _ => none

/-- Loads a node. -/
def load : Draft → Span → LoadM Syntax
  | .object _ node, parent => node parent
  | _, _ => throw (.expectedObject "node")

/-- The members of an object, with the kind that faults are reported for. -/
structure Members where
  kind : String
  members : List (String × Draft)

namespace Members

/-- The last member with a key, null or not. -/
def find? (members : List (String × Draft)) (key : String) : Option Draft :=
  (members.reverse.find? (·.1 == key)).map (·.2)

/-- The members of an object that has the role `what`. -/
def of (what : String) : Draft → LoadM Members
  | .object members _ => pure ⟨((find? members "kind").bind string?).getD what, members⟩
  | _ => throw (.expectedObject what)

/-- The member with a key, unless it is null. -/
def get? (m : Members) (key : String) : Option Draft := (find? m.members key).filter (!·.isNull)

def require (m : Members) (key : String) : LoadM Draft :=
  match m.get? key with
  | some draft => pure draft
  | none => throw (.missingField m.kind key)

def str (m : Members) (key : String) : LoadM String := do
  LoadM.expect key "a string" (← m.require key).string?

def optStr (m : Members) (key : String) : LoadM (Option String) :=
  match m.get? key with
  | some draft => some <$> LoadM.expect key "a string" draft.string?
  | none => pure none

/-- Whether a member is the value true. -/
def flag (m : Members) (key : String) : Bool := (((m.get? key).bind json?).bind Json.bool?).getD false

/-- The items of a member; absent, it has none. -/
def list (m : Members) (key : String) : LoadM (List Draft) :=
  match m.get? key with
  | some draft => LoadM.expect key "an array" draft.items?
  | none => pure []

/-- A name, recorded. -/
def name (m : Members) (key : String) : LoadM String := do LoadM.use (← m.str key)

def optName (m : Members) (key : String) : LoadM (Option String) := do
  match ← m.optStr key with
  | some name => some <$> LoadM.use name
  | none => return none

/-- The four numbers of a position, each cut to 32 bits. -/
def position? (draft : Draft) : Option (LineCol × LineCol) :=
  match draft.items?.map (·.map fun item => item.json?.bind Json.nat?) with
  | some [some line, some column, some endLine, some endColumn] =>
    some (⟨line % pow2 32, column % pow2 32⟩, ⟨endLine % pow2 32, endColumn % pow2 32⟩)
  | _ => none

/-- Where an object stands: at its own position, which does not end before it starts, or where its parent does. -/
def span (m : Members) (parent : Span) (file : Nat) : LoadM Span :=
  match m.get? "pos" with
  | none => pure parent
  | some draft => do
    let (start, stop) ← LoadM.expect "pos" "[line, col, endLine, endCol]" (position? draft)
    return ⟨file, start, max stop start⟩

def child (m : Members) (key : String) (pos : Span) : LoadM Syntax := do (← m.require key).load pos

def optChild (m : Members) (key : String) (pos : Span) : LoadM (Option Syntax) :=
  match m.get? key with
  | some draft => some <$> draft.load pos
  | none => pure none

def children (m : Members) (key : String) (pos : Span) : LoadM (List Syntax) := do
  (← m.list key).mapM (·.load pos)

end Members

end Draft

end Bindery
