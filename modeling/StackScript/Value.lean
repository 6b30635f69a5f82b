import StackScript.Ty
import StackScript.Native
import StackScript.Template
import StackScript.Fault

/-!
# Values

Scalars are held in the value itself. Arrays, structs, maps, tuples, channels, wait groups and
mutexes live in a store, and a value refers to them: copying a value shares what it refers to.

Main statements: `kind_eq_of_isMarker` and `isTruthy_marker` (markers are never true).
-/
namespace StackScript

/-! ## References -/

/-- A place in the store of arrays. -/
structure ArrayRef where index : Nat
deriving Repr, DecidableEq

/-- A place in the store of structs. -/
structure StructRef where index : Nat
deriving Repr, DecidableEq

/-- A place in the store of maps. -/
structure MapRef where index : Nat
deriving Repr, DecidableEq

/-- A place in the store of tuples. -/
structure TupleRef where index : Nat
deriving Repr, DecidableEq

/-- A place in the store of channels. -/
structure ChannelRef where index : Nat
deriving Repr, DecidableEq

/-- A place in the store of wait groups. -/
structure WaitGroupRef where index : Nat
deriving Repr, DecidableEq

/-- A place in the store of mutexes. -/
structure MutexRef where index : Nat
deriving Repr, DecidableEq

/-- A place in the store of code units. -/
structure CodeRef where index : Nat
deriving Repr, DecidableEq

/-- A place in the store of symbol tables. -/
structure TableRef where index : Nat
deriving Repr, DecidableEq

/-! ## The parts of values -/

/-- The caller's state that a call saves on the stack. -/
structure Frame where
  moduleName : String
  line : Nat
  scope : TableRef
  code : CodeRef
  /-- The address to return to. -/
  pc : Nat
  fp : Nat
  /-- How many receivers the caller had pushed. -/
  receivers : Nat
  /-- Whether the caller takes every result. -/
  multi : Bool
deriving Repr, DecidableEq

/-- A bound on a group of values on the stack. -/
inductive Marker where
  /-- A call that gave no value. -/
  | void
  /-- Below the results of a call that gave several. -/
  | results
  /-- Below an expression evaluated for its effect. -/
  | call
  /-- Below the values of an assignment to several targets. -/
  | values
  /-- Any other label. -/
  | other (label : String)
deriving Repr, DecidableEq

/-- A value of the language, or a record that the machine keeps on its stack. -/
inductive Value where
  | nil
  | bool (b : Bool)
  | byte (n : UInt8)
  | int32 (n : Int32)
  | int (n : Int64)
  | int64 (n : Int64)
  | float32 (x : Float32)
  | float64 (x : Float)
  | string (s : String)
  | native (f : Native)
  /-- A compiled function and the scope it closes over, if it has been captured. -/
  | function (code : CodeRef) (scope : Option TableRef)
  | array (r : ArrayRef)
  | struct (r : StructRef)
  | map (r : MapRef)
  | channel (r : ChannelRef)
  | error (f : Fault)
  | type (t : Ty)
  | marker (m : Marker)
  /-- Several results of one call. -/
  | tuple (r : TupleRef)
  | template (t : Template)
  | waitGroup (r : WaitGroupRef)
  | mutex (r : MutexRef)
  /-- A saved frame, which only the stack of a context holds. -/
  | frame (f : Frame)

namespace Marker

/-- The label of a marker in code and in answers. -/
def label : Marker → String
  | void => "void"
  | results => "results"
  | call => "call"
  | values => "let"
  | other l => l

/-- The marker of a label. -/
def ofLabel : String → Marker
  | "void" => void
  | "results" => results
  | "call" => call
  | "let" => values
  | l => other l

end Marker

namespace Value

instance : Inhabited Value := ⟨nil⟩

/-- The kind of a value. -/
def kind : Value → Kind
  | nil => .nil
  | bool _ => .bool
  | byte _ => .byte
  | int32 _ => .int32
  | int _ => .int
  | int64 _ => .int64
  | float32 _ => .float32
  | float64 _ => .float64
  | string _ => .string
  | native _ | function .. => .function
  | array _ => .array
  | struct _ => .struct
  | map _ => .map
  | channel _ => .channel
  | error _ => .error
  | type _ => .type
  | marker _ | tuple _ | frame _ => .marker
  | template _ => .template
  | waitGroup _ => .waitGroup
  | mutex _ => .mutex

/-- Whether this is nil. -/
def isNil : Value → Bool
  | nil => true
  | _ => false

/-- Whether this is a marker. -/
def isMarker : Value → Bool
  | marker _ => true
  | _ => false

/-- Whether this can be called; a type is called to convert. -/
def isCallable : Value → Bool
  | native _ | function .. | type _ => true
  | _ => false

/-- Whether a branch on this value is taken. -/
def isTruthy : Value → Bool
  | nil | marker _ | tuple _ | frame _ => false
  | bool b => b
  | byte n => n != 0
  | int32 n => n != 0
  | int n | int64 n => n != 0
  | float32 x => x != 0
  | float64 x => x != 0
  | string s => !s.isEmpty
  | _ => true

/-- The whole number that a number or a boolean stands for; fractions are cut off, and what
lies beyond the range goes to its nearer end. -/
def asInt? : Value → Option Int64
  | bool b => some (if b then 1 else 0)
  | byte n => some (Int64.ofNat n.toNat)
  | int32 n => some n.toInt64
  | int n | int64 n => some n
  | float32 x => some x.toFloat.toInt64
  | float64 x => some x.toInt64
  | _ => none

/-- The double that is nearest to a whole number, the even one of two. -/
def nearestFloat (n : Int64) : Float := .ofModel (.ofInt64 n)

/-- The floating point number that a number or a boolean stands for. -/
def asFloat? : Value → Option Float
  | float32 x => some x.toFloat
  | float64 x => some x
  | v => v.asInt?.map nearestFloat

/-- The text of a string. -/
def asString? : Value → Option String
  | string s => some s
  | _ => none

theorem isTruthy_marker (m : Marker) : (marker m).isTruthy = false := rfl

theorem kind_eq_of_isMarker {v : Value} (h : v.isMarker = true) : v.kind = .marker := by
  cases v <;> simp_all [isMarker, kind]

theorem isMarker_of_isScalar {v : Value} (h : v.kind.isScalar = true) : v.isMarker = false := by
  cases v <;> first
    | rfl
    | cases h

end Value

/-! ## Keys of maps -/

/-- A value that can be the key of a map. -/
inductive MapKey where
  | nil
  | bool (b : Bool)
  | int (n : Int64)
  | string (s : String)
deriving Repr, DecidableEq

namespace MapKey

/-- The key that a value stands for; floating point numbers and aggregates are no keys. -/
def ofValue? : Value → Option MapKey
  | .nil => some nil
  | .bool b => some (bool b)
  | .string s => some (string s)
  | v => if v.kind.isInteger then v.asInt?.map int else none

/-- A key as a value of the key type of its map. -/
def toValue (keyType : Ty) : MapKey → Value
  | nil => .nil
  | bool b => .bool b
  | string s => .string s
  | int n =>
    match keyType.kind with
    | .byte => .byte n.toUInt64.toUInt8
    | .int32 => .int32 n.toInt32
    | .int64 => .int64 n
    | _ => .int n

/-- The order in which keys are listed: nil, booleans, numbers, strings. -/
def le : MapKey → MapKey → Bool
  | nil, _ => true
  | _, nil => false
  | bool a, bool b => !a || b
  | bool _, _ => true
  | _, bool _ => false
  | int a, int b => a ≤ b
  | int _, _ => true
  | _, int _ => false
  | string a, string b => a ≤ b

/-- The text of a key. -/
def display : MapKey → String
  | nil => "<nil>"
  | bool b => if b then "true" else "false"
  | int n => Decimal.ofInt n.toInt
  | string s => s

end MapKey

end StackScript
