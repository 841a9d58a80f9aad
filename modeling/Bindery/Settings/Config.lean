import Bindery.Json.Reader
import Bindery.Json.Writer
import Bindery.Number.Power
import Bindery.Settings.Options
import Bindery.Text.Path
/-!
# The settings file

A settings file is a JSON text: a record of options and a list of modules. A record is an object, or the list of its
first fields. A field may be missing, but not be given twice. What else the outermost record holds is not looked at,
and need not even be a value.
-/
namespace Bindery

/-- The contents of a settings file. -/
structure Config where
  options : Options := {}
  modules : List String := []
  deriving DecidableEq, Repr

/-- The values of fields that are given by name. -/
def fieldsByName? {α : Type} (names : List String) (members : List (String × α)) : Option (List (Option α)) :=
  if names.all fun name => members.countP (·.1 == name) ≤ 1 then some (names.map (members.lookup ·)) else none

/-- The values of fields that are given in order. -/
def fieldsInOrder? {α : Type} (names : List String) (items : List α) : Option (List (Option α)) :=
  if items.length ≤ names.length then some (names.mapIdx fun i _ => items[i]?) else none

/-- The values of the fields of a record that has no others. -/
def Json.fields? (names : List String) : Json → Option (List (Option Json))
  | .object members =>
    if members.all fun (name, _) => names.contains name then fieldsByName? names members else none
  | .array items => fieldsInOrder? names items
  | _ => none

/-- A field that holds a number below a bound, or is left open. -/
def boundedField? (bound : Nat) : Option Json → Option (Option Nat)
  | none | some .null => some none
  | some json => do
    let value ← json.nat?
    if value < bound then some (some value) else none

/-- A field that holds a text, or is left open. -/
def textField? : Option Json → Option (Option String)
  | none | some .null => some none
  | some json => json.string?.map some

namespace Options

/-- The width of a pointer, which is a record of its own. -/
def targetOfJson? (json : Json) : Option (Option Nat) := do
  let [width] ← json.fields? ["pointerWidth"] | none
  boundedField? (pow2 16) width

/-- The options that a JSON value describes. -/
def ofJson? (json : Json) : Option Options := do
  let names := ["target", "maxNestingDepth", "entryName", "threads", "maxErrors"]
  let [target, depth, entryName, threads, maxErrors] ← json.fields? names | none
  let pointerWidth ← match target with
    | some target => targetOfJson? target
    | none => some none
  return { pointerWidth, maxNestingDepth := ← boundedField? (pow2 64) depth, entryName := ← textField? entryName,
           threads := ← boundedField? (pow2 64) threads, maxErrors := ← boundedField? (pow2 64) maxErrors }

def toJson (options : Options) : Json :=
  .object
    [("target", .object [("pointerWidth", .optional .nat options.pointerWidth)]),
      ("maxNestingDepth", .optional .nat options.maxNestingDepth),
      ("entryName", .optional .string options.entryName),
      ("threads", .optional .nat options.threads),
      ("maxErrors", .optional .nat options.maxErrors)]

end Options

namespace Config

def fieldNames : List String := ["compilerOptions", "modules"]

/-- The two fields of the outermost record. -/
def rawFields? : Json.Raw → Option (List (Option Json.Raw))
  | .object members => do
    fieldsByName? fieldNames (← members.mapM fun (name, value) => do return (← Json.text? name, value))
  | .array items => fieldsInOrder? fieldNames items
  | _ => none

/-- The contents that a text describes, before the options are checked. -/
def parse? (text : String) : Option Config := do
  let [options, modules] ← rawFields? (← Json.Raw.read? text) | none
  let options ← match options with
    | some raw => Options.ofJson? (← raw.value? Json.maxLevels)
    | none => some {}
  let modules ← match modules with
    | some raw => (← (← raw.value? Json.maxLevels).array?).mapM Json.string?
    | none => some []
  return { options, modules }

/-- The paths of the modules, which are taken from the directory of the settings file. -/
def modulePaths (config : Config) (path : String) : List String :=
  config.modules.map (joinPath ((parentPath? path).getD "."))

def toJson (config : Config) : Json :=
  .object [("compilerOptions", config.options.toJson), ("modules", .array (config.modules.map .string))]

end Config

/-- Why a settings file is refused: it does not describe settings, or its options are wrong. -/
inductive ConfigError where
  | malformed
  | invalid (fault : OptionFault)
  deriving DecidableEq, Repr

/-- The checked contents of a settings file. -/
def Config.read (text : String) : Except ConfigError Config :=
  match Config.parse? text with
  | none => .error .malformed
  | some config =>
    match config.options.fault? with
    | some fault => .error (.invalid fault)
    | none => .ok config

end Bindery
