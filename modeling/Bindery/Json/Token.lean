import Bindery.Number.Decimal
/-!
# JSON tokens

Cuts a text into punctuation, strings, words and numbers. The pieces of a string are kept as written, because whether
`\u` escapes pair up is only asked of strings that are used; likewise a number is kept as its digits.
-/
namespace Bindery.Json

/-- A piece of a string: a character, or the code unit of a `\u` escape. -/
inductive Piece where
  | char (c : Char)
  | unit (value : Nat)
  deriving DecidableEq, Repr

/-- A number as written: its digits without the point, and the power of ten that they count. `whole` says that it has
neither a point nor an exponent. -/
structure Numeral where
  negative : Bool
  digits : Nat
  exponent : Int
  whole : Bool
  deriving DecidableEq, Repr

/-- A token. -/
inductive Token where
  | openArray
  | closeArray
  | openObject
  | closeObject
  | comma
  | colon
  | null
  | bool (value : Bool)
  | number (value : Numeral)
  | string (pieces : List Piece)
  deriving DecidableEq, Repr

/-- The number that a list of decimal digits denotes. -/
def digitsValue (digits : List Char) : Nat :=
  digits.foldl (fun n c => 10 * n + (c.toNat - '0'.toNat)) 0

/-- The exponent part of a number: nothing, or a mark, an optional sign and digits. -/
def exponentPart? : List Char → Option Int
  | [] => some 0
  | mark :: rest =>
    let (negative, digits) : Bool × List Char := match rest with
      | '-' :: digits => (true, digits)
      | '+' :: digits => (false, digits)
      | digits => (false, digits)
    if (mark = 'e' ∨ mark = 'E') ∧ digits ≠ [] ∧ digits.all Char.isDigit then
      some (if negative then -(digitsValue digits : Int) else digitsValue digits)
    else none

/-- What follows the integer digits of a number: the digits after a point, and the exponent. -/
def fractionPart? : List Char → Option (List Char × Int)
  | '.' :: rest =>
    let digits := rest.takeWhile Char.isDigit
    if digits = [] then none else (exponentPart? (rest.dropWhile Char.isDigit)).map (digits, ·)
  | rest => (exponentPart? rest).map ([], ·)

/-- Reads a number. Its integer part is zero, or does not start with a zero. -/
def Numeral.read? (text : List Char) : Option Numeral := do
  let (negative, text) : Bool × List Char := match text with
    | '-' :: rest => (true, rest)
    | text => (false, text)
  let whole := text.takeWhile Char.isDigit
  let rest := text.dropWhile Char.isDigit
  if whole = [] ∨ (whole.head? = some '0' ∧ whole ≠ ['0']) then none
  else
    let (fraction, exponent) ← fractionPart? rest
    return { negative, digits := digitsValue (whole ++ fraction), exponent := exponent - fraction.length,
             whole := rest.isEmpty }

/-- The token that a word spells. -/
def Token.ofWord? (word : List Char) : Option Token :=
  if word = ['n', 'u', 'l', 'l'] then some .null
  else if word = ['t', 'r', 'u', 'e'] then some (.bool true)
  else if word = ['f', 'a', 'l', 's', 'e'] then some (.bool false)
  else (Numeral.read? word).map .number

/-- The token that a character is on its own. -/
def Token.ofPunctuation? : Char → Option Token
  | '[' => some .openArray
  | ']' => some .closeArray
  | '\x7b' => some .openObject
  | '\x7d' => some .closeObject
  | ',' => some .comma
  | ':' => some .colon
  | _ => none

/-- The characters of words and numbers. -/
def isWordChar (c : Char) : Bool := c.isAlphanum || c == '-' || c == '+' || c == '.'

def isBlank (c : Char) : Bool := c == ' ' || c == '\n' || c == '\t' || c == '\r'

/-- The character that a one-letter escape stands for. -/
def escaped? : Char → Option Char
  | '"' => some '"'
  | '\\' => some '\\'
  | '/' => some '/'
  | 'b' => some '\x08'
  | 'f' => some '\x0c'
  | 'n' => some '\n'
  | 'r' => some '\r'
  | 't' => some '\t'
  | _ => none

def hexDigit? (c : Char) : Option Nat :=
  if c.isDigit then some (c.toNat - '0'.toNat)
  else if 'a' ≤ c ∧ c ≤ 'f' then some (c.toNat - 'a'.toNat + 10)
  else if 'A' ≤ c ∧ c ≤ 'F' then some (c.toNat - 'A'.toNat + 10)
  else none

/-- Where the reader stands: between tokens, in a word, in a string, after a backslash, or in a `\u` escape with some
digits to come. Collected parts are kept last first. -/
inductive Mode where
  | between
  | word (chars : List Char)
  | string (pieces : List Piece)
  | escape (pieces : List Piece)
  | hex (pieces : List Piece) (value missing : Nat)

/-- The reader: the tokens read, last first, and where it stands. -/
structure Lexer where
  tokens : List Token := []
  mode : Mode := .between

namespace Lexer

def push (lexer : Lexer) (token : Token) : Lexer := ⟨token :: lexer.tokens, .between⟩

/-- Reads a character between tokens. -/
def start? (lexer : Lexer) (c : Char) : Option Lexer :=
  if isBlank c then some lexer
  else if c = '"' then some { lexer with mode := .string [] }
  else if isWordChar c then some { lexer with mode := .word [c] }
  else (Token.ofPunctuation? c).map lexer.push

/-- Ends the word being read. -/
def endWord? (lexer : Lexer) (chars : List Char) : Option Lexer := (Token.ofWord? chars.reverse).map lexer.push

/-- Reads one character. -/
def step? (lexer : Lexer) (c : Char) : Option Lexer :=
  match lexer.mode with
  | .between => lexer.start? c
  | .word chars =>
    if isWordChar c then some { lexer with mode := .word (c :: chars) }
    else lexer.endWord? chars >>= (start? · c)
  | .string pieces =>
    if c = '"' then some (lexer.push (.string pieces.reverse))
    else if c = '\\' then some { lexer with mode := .escape pieces }
    else if c.toNat < 0x20 then none
    else some { lexer with mode := .string (.char c :: pieces) }
  | .escape pieces =>
    if c = 'u' then some { lexer with mode := .hex pieces 0 4 }
    else (escaped? c).map fun e => { lexer with mode := .string (.char e :: pieces) }
  | .hex pieces value missing =>
    (hexDigit? c).map fun digit =>
      let value := 16 * value + digit
      if missing ≤ 1 then { lexer with mode := .string (.unit value :: pieces) }
      else { lexer with mode := .hex pieces value (missing - 1) }

/-- The tokens read once the text has ended. -/
def finish? (lexer : Lexer) : Option (List Token) :=
  match lexer.mode with
  | .between => some lexer.tokens.reverse
  | .word chars => (lexer.endWord? chars).map (·.tokens.reverse)
  | _ => none

end Lexer

/-- The tokens of a text. -/
def tokens? (text : List Char) : Option (List Token) := text.foldlM Lexer.step? {} >>= Lexer.finish?

end Bindery.Json
