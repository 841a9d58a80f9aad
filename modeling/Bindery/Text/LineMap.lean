import Bindery.Text.Span
/-!
# Line maps

Turns byte offsets of a text into lines and columns, in words of 32 bits. A line starts at offset zero and after each
newline byte; a place past the end of the text stays on its last line. Columns count bytes of the UTF-8 form. The line
of an offset is found by halving the list of line starts.
-/
namespace Bindery

/-- What a search in increasing numbers comes to: the index of the number, or the index at which it would stand. -/
inductive Search where
  | found (index : Nat)
  | absent (index : Nat)
  deriving DecidableEq, Repr

namespace Search

/-- Halves `size` numbers from index `base` on until one is left, which is the last that is not greater than the key,
unless all are greater. -/
def narrow (numbers : Array UInt32) (key : UInt32) (base size : Nat) : Nat :=
  if size ≤ 1 then base
  else
    let middle := base + size / 2
    if key < numbers.getD middle 0 then narrow numbers key base (size - size / 2)
    else narrow numbers key middle (size - size / 2)
termination_by size

/-- Looks a number up in increasing numbers. -/
def locate (numbers : Array UInt32) (key : UInt32) : Search :=
  if numbers.isEmpty then .absent 0
  else
    let index := narrow numbers key 0 numbers.size
    let number := numbers.getD index 0
    if number = key then .found index else .absent (if number < key then index + 1 else index)

end Search

/-- The offsets at which the lines of a text start, in increasing order. -/
structure LineMap where
  starts : Array UInt32
  deriving DecidableEq, Repr

namespace LineMap

/-- The offsets after the newline bytes of `bytes`, the first of which has offset `offset`. -/
def startsAfter (offset : Nat) : List UInt8 → List UInt32
  | [] => []
  | byte :: rest =>
    if byte = 10 then .ofNat (offset + 1) :: startsAfter (offset + 1) rest else startsAfter (offset + 1) rest

def ofBytes (bytes : List UInt8) : LineMap := ⟨(0 :: startsAfter 0 bytes).toArray⟩

/-- The bytes of the UTF-8 form of a text. -/
def bytesOf (text : String) : List UInt8 := text.toUTF8.data.toList

def ofText (text : String) : LineMap := ofBytes (bytesOf text)

/-- The index of the line that an offset stands on. -/
def lineIndex (map : LineMap) (offset : UInt32) : Nat :=
  match Search.locate map.starts offset with
  | .found index => index
  | .absent index => index - 1

/-- The place of a byte offset. -/
def place (map : LineMap) (offset : Nat) : LineCol :=
  let offset := UInt32.ofNat offset
  let index := map.lineIndex offset
  ⟨(UInt32.ofNat index + 1).toNat, (offset - map.starts.getD index 0 + 1).toNat⟩

/-- The span from one byte offset to another. -/
def span (map : LineMap) (file start stop : Nat) : Span := ⟨file, map.place start, map.place stop⟩

def lineCount (map : LineMap) : Nat := map.starts.size

end LineMap

end Bindery
