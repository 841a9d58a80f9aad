import Bindery.Program.TypeQuery
/-!
# Conversion plans

Whether a value of one type may become a value of another, and the primitive steps that do it. A plan depends on the two
types and on whether the conversion was asked for. Equal types need no step.

* `Void`, modules, templates and what has no type convert to nothing and from nothing; `null` converts to all else.
* A reference is read, unless an indirection is wanted; a value becomes a reference to its own type.
* Functions become functions and `Void*`; packed types keep their lane count, and a scalar fills every lane.
* Everything numeric has a truth value, as has a pointer when asked for.
* Pointers become pointers: to and from `Void`, and between integers of one width, also without being asked for.
* Pointers and integers, enums and integers convert only when asked for.
* A scalar widens without being asked for, and narrows or changes its sign only when asked for.
-/
namespace Bindery

/-- Why a conversion is refused. -/
inductive CastFailure where
  | notConvertible
  | explicitOnly
  | laneCountMismatch
  | structUnimplemented
  | internal
  deriving DecidableEq, Repr

/-- The steps of a conversion, or why there are none. -/
abbrev CastPlan := Except CastFailure (List CastStep)

namespace CastPlan

/-- A plan that is only allowed when the conversion was asked for. -/
def onlyExplicit (intent : Intent) (steps : List CastStep) : CastPlan :=
  match intent with
  | .implicit => .error .explicitOnly
  | .explicit => .ok steps

/-- A plan with a step in front. -/
def after (step : CastStep) (plan : CastPlan) : CastPlan := plan.map (step :: ·)

/-- A plan with a step at the end. -/
def followedBy (plan : CastPlan) (step : CastStep) : CastPlan := plan.map (· ++ [step])

end CastPlan

/-- How the rules of conversion see a type. Modules, templates and labels are inert. -/
inductive TypeClass where
  | unknown
  | void
  | null
  | scalar (scalar : Scalar)
  | packed (element : Scalar) (lanes : Nat)
  | enum (base : Ty)
  | function
  | pointer (pointee : Ty)
  | reference (pointee : Ty)
  | aggregate
  | inert
  deriving DecidableEq, Repr

namespace Program

/-- The class of a declaration's type. -/
def classifyDecl : Decl → TypeClass
  | .builtin .void => .void
  | .builtin .null => .null
  | .builtin (.scalar own) => .scalar own
  | .builtin (.packed element lanes) => .packed element lanes
  | .enum own => .enum own.base
  | .function _ => .function
  | .struct _ | .union _ | .array _ => .aggregate
  | _ => .inert

def classify (p : Program) : Ty → TypeClass
  | .unknown => .unknown
  | .pointer pointee => .pointer pointee
  | .reference pointee => .reference pointee
  | .direct symbol => classifyDecl (p.decl symbol)

/-- The steps between two integers. A change of sign is made at the target's width. -/
def intPlan (intent : Intent) (fromBits : Nat) (fromSigned : Bool) (toBits : Nat) (toSigned : Bool) (dst : Ty) :
    CastPlan :=
  if fromSigned = toSigned then
    if fromBits < toBits then .ok [⟨.widen, dst⟩] else .onlyExplicit intent [⟨.narrow, dst⟩]
  else if fromBits = toBits then .onlyExplicit intent [⟨.bitCast, dst⟩]
  else
    let resize : StepKind := if fromBits < toBits then .widen else .narrow
    .onlyExplicit intent [⟨resize, .int toBits fromSigned⟩, ⟨.bitCast, dst⟩]

/-- The steps from one scalar to another; `dst` is the type of the second. -/
def scalarPlan (intent : Intent) (source target : Scalar) (dst : Ty) : CastPlan :=
  if source = target then .ok []
  else
    match source, target with
    | _, .bool => .ok [⟨.toBool, dst⟩]
    | .bool, _ => .onlyExplicit intent [⟨.widen, dst⟩]
    | .int fromBits fromSigned, .int toBits toSigned => intPlan intent fromBits fromSigned toBits toSigned dst
    | _, _ =>
      if source.bits < target.bits then .ok [⟨.widen, dst⟩] else .onlyExplicit intent [⟨.narrow, dst⟩]

/-- From a pointer to an integer: first an integer as wide as the pointer, then the width asked for. -/
def pointerToInt (p : Program) (bits : Nat) (signed : Bool) (dst : Ty) : List CastStep :=
  ⟨.bitCast, p.pointerInt signed⟩ ::
    if p.pointerWidth < bits then [⟨.widen, dst⟩] else if bits < p.pointerWidth then [⟨.narrow, dst⟩] else []

/-- From an integer to a pointer: first the width of the pointer, then the pointer. -/
def intToPointer (p : Program) (bits : Nat) (signed : Bool) (dst : Ty) : List CastStep :=
  (if bits < p.pointerWidth then [⟨.widen, p.pointerInt signed⟩]
    else if p.pointerWidth < bits then [⟨.narrow, p.pointerInt signed⟩] else []) ++ [⟨.bitCast, dst⟩]

/-- The scalar as wide as a pointer through which a floating-point number and `Void*` convert. -/
def bridge (p : Program) : Scalar := .int p.pointerWidth true

/-- Between two indirections, by what they lead to. -/
def indirectPlan (p : Program) (intent : Intent) (source target dst : Ty) : CastPlan :=
  if source = .void ∨ target = .void ∨ source = target then .ok [⟨.bitCast, dst⟩]
  else
    match p.scalar? source, p.scalar? target with
    | some (.int fromBits _), some (.int toBits _) =>
      if fromBits = toBits then .ok [⟨.bitCast, dst⟩] else .onlyExplicit intent [⟨.bitCast, dst⟩]
    | _, _ => .onlyExplicit intent [⟨.bitCast, dst⟩]

/-- Between two packed types. -/
def packedPlan (intent : Intent) (source : Scalar) (sourceLanes : Nat) (target : Scalar) (targetLanes : Nat)
    (dst : Ty) : CastPlan :=
  if sourceLanes ≠ targetLanes then .error .laneCountMismatch
  else do
    discard (scalarPlan intent source target (.ofScalar target))
    return [⟨if source.isFloat || target.isFloat then .packedFloatCast else .packedBitCast, dst⟩]

/-- From a scalar to every lane of a packed type. -/
def broadcastPlan (intent : Intent) (source target : Scalar) (dst : Ty) : CastPlan :=
  if source = .bool then .error .notConvertible
  else (scalarPlan intent source target (.ofScalar target)).followedBy ⟨.packedBroadcast, dst⟩

/-- From an enum to an integer: its base, then the integer. -/
def enumToInt (p : Program) (intent : Intent) (base : Ty) (target : Scalar) (dst : Ty) : CastPlan :=
  match intent, p.scalar? base with
  | .implicit, _ => .error .explicitOnly
  | .explicit, some source =>
    if base = dst then .ok [⟨.bitCast, base⟩] else .after ⟨.bitCast, base⟩ (scalarPlan .explicit source target dst)
  | .explicit, none => .ok [⟨.bitCast, base⟩]

/-- From an integer to an enum: the base of the enum, then the enum. -/
def intToEnum (p : Program) (intent : Intent) (source : Scalar) (src base dst : Ty) : CastPlan :=
  match intent, p.scalar? base with
  | .implicit, _ => .error .explicitOnly
  | .explicit, some target =>
    if base = src then .ok [⟨.bitCast, dst⟩]
    else (scalarPlan .explicit source target base).followedBy ⟨.bitCast, dst⟩
  | .explicit, none => .ok [⟨.bitCast, dst⟩]

/-- Between a pointer and a scalar or an enum. Floating-point numbers convert only with `Void*`, through an integer. -/
def fromPointer (p : Program) (intent : Intent) (pointee dst : Ty) : TypeClass → CastPlan
  | .scalar .bool => .onlyExplicit intent [⟨.toBool, dst⟩]
  | .scalar (.int bits signed) => .onlyExplicit intent (p.pointerToInt bits signed dst)
  | .scalar (.float bits) =>
    if pointee ≠ .void then .error .notConvertible
    else
      match intent with
      | .implicit => .error .explicitOnly
      | .explicit => .after ⟨.bitCast, p.pointerInt true⟩ (scalarPlan .explicit p.bridge (.float bits) dst)
  | _ => .error .notConvertible

def toPointer (p : Program) (intent : Intent) (pointee dst : Ty) : TypeClass → CastPlan
  | .scalar (.int bits signed) => .onlyExplicit intent (p.intToPointer bits signed dst)
  | .scalar (.float bits) =>
    if pointee ≠ .void then .error .notConvertible
    else
      match intent with
      | .implicit => .error .explicitOnly
      | .explicit => (scalarPlan .explicit (.float bits) p.bridge (p.pointerInt true)).followedBy ⟨.bitCast, dst⟩
  | _ => .error .notConvertible

/-- The plan between two different types, of which the first is no reference, by their classes. -/
def valuePlan (p : Program) (intent : Intent) (src dst : Ty) : TypeClass → TypeClass → CastPlan
  | .unknown, _ | .void, _ | .inert, _ => .error .notConvertible
  | _, .unknown | _, .void | _, .inert => .error .notConvertible
  | .null, _ => .ok [⟨.fromNull, dst⟩]
  | .aggregate, .aggregate => .error .structUnimplemented
  | .pointer source, .reference target => p.indirectPlan intent source target dst
  | .reference source, .reference target => p.indirectPlan intent source target dst
  | _, .reference target => if target = src then .ok [⟨.referenceOf, dst⟩] else .error .notConvertible
  | .aggregate, _ | _, .aggregate => .error .notConvertible
  | .function, .function => .ok [⟨.bitCast, dst⟩]
  | .function, _ => if dst = .voidPtr then .ok [⟨.bitCast, dst⟩] else .error .notConvertible
  | _, .function => if src = .voidPtr then .ok [⟨.bitCast, dst⟩] else .error .notConvertible
  | .packed source sourceLanes, .packed target targetLanes =>
    packedPlan intent source sourceLanes target targetLanes dst
  | .scalar source, .packed target _ => broadcastPlan intent source target dst
  | .packed .., _ | _, .packed .. => .error .laneCountMismatch
  | .pointer source, .pointer target => p.indirectPlan intent source target dst
  | .pointer source, target => p.fromPointer intent source dst target
  | source, .pointer target => p.toPointer intent target dst source
  | .enum _, .scalar .bool | .scalar _, .scalar .bool => .ok [⟨.toBool, dst⟩]
  | .enum base, .scalar (.int bits signed) => p.enumToInt intent base (.int bits signed) dst
  | .scalar (.int bits signed), .enum base => p.intToEnum intent (.int bits signed) src base dst
  | .scalar source, .scalar target => scalarPlan intent source target dst
  | .enum _, _ | _, .enum _ => .error .notConvertible
  | _, _ => .error .internal

/-- The plan that makes a value of type `src` a value of type `dst`. -/
def castPlan (p : Program) (intent : Intent) : Ty → Ty → CastPlan
  | .reference inner, dst =>
    if .reference inner = dst then .ok []
    else
      match p.classify dst with
      | .unknown | .void | .inert => .error .notConvertible
      | .pointer pointee =>
        if pointee = inner then .ok [⟨.addressOf, dst⟩] else p.indirectPlan intent inner pointee dst
      | .reference pointee => p.indirectPlan intent inner pointee dst
      | _ => .after ⟨.dereference, inner⟩ (castPlan p intent inner dst)
  | src, dst => if src = dst then .ok [] else p.valuePlan intent src dst (p.classify src) (p.classify dst)

end Program

end Bindery
