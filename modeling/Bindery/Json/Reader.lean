import Bindery.Json.Basic
import Bindery.Json.Token
import Bindery.Number.Power
/-!
# Reading JSON

A text is read in two steps. `Raw.ofTokens?` finds the structure, and accepts any nesting, any number and any escape.
`Raw.value?` gives the value; it refuses unpaired surrogates, numbers beyond the doubles, and containers that are nested
too deep. A part of a text that nobody asks for need only pass the first step.
-/
namespace Bindery.Json

/-- The structure of a JSON text. -/
inductive Raw where
  | null
  | bool (value : Bool)
  | number (value : Numeral)
  | string (pieces : List Piece)
  | array (items : List Raw)
  | object (members : List (List Piece × Raw))

/-- A container that is still open, its contents last first; an object also has the key of the coming value. -/
inductive Open where
  | array (items : List Raw)
  | object (members : List (List Piece × Raw)) (key : List Piece)

/-- What may come next. -/
inductive Expect where
  | value
  | valueOrClose
  | key (members : List (List Piece × Raw))
  | keyOrClose
  | colon (members : List (List Piece × Raw)) (key : List Piece)
  | separator (done : Raw)

/-- The reader: the open containers, the innermost first, and what may come next. -/
structure Reader where
  stack : List Open := []
  expect : Expect := .value

namespace Reader

/-- Starts a value. -/
def startValue? (stack : List Open) : Token → Option Reader
  | .null => some ⟨stack, .separator .null⟩
  | .bool value => some ⟨stack, .separator (.bool value)⟩
  | .number value => some ⟨stack, .separator (.number value)⟩
  | .string pieces => some ⟨stack, .separator (.string pieces)⟩
  | .openArray => some ⟨.array [] :: stack, .valueOrClose⟩
  | .openObject => some ⟨stack, .keyOrClose⟩
  | _ => none

/-- Goes on after a value: a comma, or the end of the container that the value stands in. -/
def afterValue? (done : Raw) : List Open → Token → Option Reader
  | .array items :: stack, .comma => some ⟨.array (done :: items) :: stack, .value⟩
  | .array items :: stack, .closeArray => some ⟨stack, .separator (.array (done :: items).reverse)⟩
  | .object members key :: stack, .comma => some ⟨stack, .key ((key, done) :: members)⟩
  | .object members key :: stack, .closeObject =>
    some ⟨stack, .separator (.object ((key, done) :: members).reverse)⟩
  | _, _ => none

/-- Reads one token. -/
def step? (reader : Reader) (token : Token) : Option Reader :=
  match reader.expect, token with
  | .value, token => startValue? reader.stack token
  | .valueOrClose, .closeArray => some ⟨reader.stack.tail, .separator (.array [])⟩
  | .valueOrClose, token => startValue? reader.stack token
  | .key members, .string key => some ⟨reader.stack, .colon members key⟩
  | .keyOrClose, .string key => some ⟨reader.stack, .colon [] key⟩
  | .keyOrClose, .closeObject => some ⟨reader.stack, .separator (.object [])⟩
  | .colon members key, .colon => some ⟨.object members key :: reader.stack, .value⟩
  | .separator done, token => afterValue? done reader.stack token
  | _, _ => none

/-- The value read once the tokens have ended. -/
def finish? (reader : Reader) : Option Raw :=
  match reader.stack, reader.expect with
  | [], .separator done => some done
  | _, _ => none

end Reader

namespace Raw

def ofTokens? (tokens : List Token) : Option Raw := tokens.foldlM Reader.step? {} >>= Reader.finish?

/-- The structure of a text. -/
def read? (text : String) : Option Raw := tokens? text.toList >>= ofTokens?

end Raw

/-- Whether a code unit is the first half of a pair. -/
def isLeading (unit : Nat) : Bool := 0xD800 ≤ unit && unit < 0xDC00

/-- Whether a code unit is the second half of a pair. -/
def isTrailing (unit : Nat) : Bool := 0xDC00 ≤ unit && unit < 0xE000

/-- The characters of a string; none when a surrogate stands without its partner. -/
def chars? : List Piece → Option (List Char)
  | [] => some []
  | .char c :: rest => (chars? rest).map (c :: ·)
  | .unit unit :: rest =>
    if isTrailing unit then none
    else if isLeading unit then
      match rest with
      | .unit trail :: rest =>
        if isTrailing trail then
          (chars? rest).map (.ofNat (0x10000 + (unit - 0xD800) * 0x400 + (trail - 0xDC00)) :: ·)
        else none
      | _ => none
    else (chars? rest).map (.ofNat unit :: ·)

def text? (pieces : List Piece) : Option String := (chars? pieces).map String.ofList

/-- The value of a number. A whole number is an integer if it fits 64 bits, signed or unsigned; the negative zero does
not count as an integer. -/
def Numeral.value? (number : Numeral) : Option Json :=
  let value : Int := if number.negative then -(number.digits : Int) else number.digits
  if number.whole && !(number.negative && number.digits == 0) && -pow2 63 ≤ value && value < pow2 64 then
    some (.int value)
  else
    let double := Double.ofDecimal number.negative number.digits number.exponent
    if double.isInfinite then none else some (.float double)

namespace Raw

mutual
/-- The value of a text, whose containers may be nested `levels` deep. -/
def value? (levels : Nat) : Raw → Option Json
  | .null => some .null
  | .bool value => some (.bool value)
  | .number value => value.value?
  | .string pieces => (text? pieces).map .string
  | .array items => if levels = 0 then none else (values? (levels - 1) items).map .array
  | .object members => if levels = 0 then none else (members? (levels - 1) members).map .object

def values? (levels : Nat) : List Raw → Option (List Json)
  | [] => some []
  | item :: rest => do return (← value? levels item) :: (← values? levels rest)

def members? (levels : Nat) : List (List Piece × Raw) → Option (List (String × Json))
  | [] => some []
  | (key, value) :: rest => do return (← text? key, ← value? levels value) :: (← members? levels rest)
end

end Raw

/-- How deep the containers of a text may be nested. -/
def maxLevels : Nat := 127

/-- Reads a text. -/
def read? (text : String) : Option Json := Raw.read? text >>= Raw.value? maxLevels

end Bindery.Json
