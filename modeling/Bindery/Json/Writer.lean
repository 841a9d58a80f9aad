import Bindery.Json.Basic
import Bindery.Number.Decimal
/-!
# Writing JSON

The text of a value, on one line and without blanks. Members are written in the order in which the object has them.
-/
namespace Bindery.Json

def nat (n : Nat) : Json := .int n

/-- The value of a part that may be missing. -/
def optional {α : Type} (write : α → Json) : Option α → Json
  | some value => write value
  | none => .null

/-- A list of values. -/
def list {α : Type} (write : α → Json) (items : List α) : Json := .array (items.map write)

def hexChar (n : Nat) : Char := (Nat.toDigits 16 n).headD '0'

/-- The characters that stand for a character inside a string. -/
def escapeChar (c : Char) : List Char :=
  if c = '"' then ['\\', '"']
  else if c = '\\' then ['\\', '\\']
  else if c.toNat < 0x20 then ['\\', 'u', '0', '0', hexChar (c.toNat / 16), hexChar (c.toNat % 16)]
  else [c]

def quote (text : String) : String := "\"" ++ String.ofList (text.toList.flatMap escapeChar) ++ "\""

/-- The text of a double, which has a point, so that it is not read as an integer. -/
def doubleText (value : Double) : String :=
  if value.describe.toList.contains '.' then value.describe else value.describe ++ ".0"

mutual
/-- The text of a value. -/
def compress : Json → String
  | .null => "null"
  | .bool value => if value then "true" else "false"
  | .int value => toString value
  | .float value => doubleText value
  | .string value => quote value
  | .array items => "[" ++ String.intercalate "," (compressItems items) ++ "]"
  | .object members => "\x7b" ++ String.intercalate "," (compressMembers members) ++ "\x7d"

def compressItems : List Json → List String
  | [] => []
  | item :: rest => compress item :: compressItems rest

def compressMembers : List (String × Json) → List String
  | [] => []
  | (key, value) :: rest => (quote key ++ ":" ++ compress value) :: compressMembers rest
end

end Bindery.Json
