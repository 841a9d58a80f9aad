import Bindery.Program.TypeQuery
/-!
# Layout

Sizes and alignments in bytes, in 64-bit words. A struct places each field at the first multiple of the field's
alignment after the field before it, and is itself a multiple of its largest alignment; the members of a union share
one place.
-/
namespace Bindery

/-- A size and an alignment. -/
structure Layout where
  size : UInt64
  align : UInt64
  deriving DecidableEq, Repr

namespace Layout

/-- The layout of what takes no room. -/
def empty : Layout := ⟨0, 1⟩

/-- The layout of what is aligned to its size. -/
def natural (bytes : Nat) : Layout := ⟨.ofNat bytes, .ofNat bytes⟩

/-- The least multiple of `align` that is not below `size`. -/
def roundUp (size align : UInt64) : UInt64 := (size / align + if size % align = 0 then 0 else 1) * align

/-- The layout of a field placed after what is laid out already; the whole is not rounded yet. -/
def append (whole field : Layout) : Layout := ⟨roundUp whole.size field.align + field.size, max whole.align field.align⟩

/-- The layout of a field that shares the place of what is laid out already. -/
def overlay (whole field : Layout) : Layout := ⟨max whole.size field.size, max whole.align field.align⟩

/-- Rounds the size to the alignment. -/
def close (whole : Layout) : Layout := ⟨roundUp whole.size whole.align, whole.align⟩

end Layout

namespace Program

/-- The layout of a type; what is nested deeper than a number of symbols takes no room. -/
def layoutUpTo (p : Program) : Nat → Ty → Layout
  | _, .unknown => .empty
  | _, .pointer _ | _, .reference _ => .natural (p.pointerWidth / 8)
  | 0, .direct _ => .empty
  | n + 1, .direct symbol =>
    let field (id : SymbolId) : Layout :=
      match p.decl id with
      | .field own => layoutUpTo p n own.ty
      | _ => .empty
    match p.decl symbol with
    | .builtin (.scalar own) => .natural (own.bits / 8)
    | .builtin (.packed element lanes) => .natural (element.bits / 8 * lanes)
    | .struct own => ((own.fields.map field).foldl Layout.append .empty).close
    | .union own => ((own.fields.map field).foldl Layout.overlay .empty).close
    | .array own =>
      let element := layoutUpTo p n own.element
      ⟨element.size * own.length, element.align⟩
    | .enum own => layoutUpTo p n own.base
    | .function _ => .natural (p.pointerWidth / 8)
    | _ => .empty

/-- The layout of a type. A type that does not contain itself by value goes through each symbol at most once. -/
def layout (p : Program) (ty : Ty) : Layout := p.layoutUpTo (p.symbols.size + 1) ty

def sizeOf (p : Program) (ty : Ty) : UInt64 := (p.layout ty).size

def alignOf (p : Program) (ty : Ty) : UInt64 := (p.layout ty).align

end Program

end Bindery
