/-!
# Kinds

The sorts of values. Scalar kinds stand in the order of promotion: of two scalars the one whose
kind comes first is converted to the kind of the other.

Main statements: `mem_all`, `wider_eq_or` (promotion picks one of the two kinds) and the inclusions
of the numeric classes.
-/
namespace StackScript

/-- The sort of a value or of a type. -/
inductive Kind where
  | nil
  | bool
  | byte
  | int32
  | int
  | int64
  | float32
  | float64
  | string
  | array
  | struct
  | map
  | pointer
  | channel
  | error
  | function
  | type
  | interface
  | waitGroup
  | mutex
  | template
  | marker
deriving Repr, DecidableEq, Inhabited

namespace Kind

/-- The place of a kind in the order of promotion. -/
def rank : Kind → Nat
  | nil => 0 | bool => 1 | byte => 2 | int32 => 3 | int => 4 | int64 => 5 | float32 => 6
  | float64 => 7 | string => 8 | array => 9 | struct => 10 | map => 11 | pointer => 12
  | channel => 13 | error => 14 | function => 15 | type => 16 | interface => 17
  | waitGroup => 18 | mutex => 19 | template => 20 | marker => 21

/-- Every kind, in the order of promotion. -/
def all : List Kind :=
  [nil, bool, byte, int32, int, int64, float32, float64, string, array, struct, map, pointer,
   channel, error, function, type, interface, waitGroup, mutex, template, marker]

/-- The later of two kinds in the order of promotion. -/
def wider (a b : Kind) : Kind := if a.rank ≤ b.rank then b else a

/-- Kinds that operators promote between. -/
def isScalar (k : Kind) : Bool := bool.rank ≤ k.rank && k.rank ≤ string.rank

/-- Whole and floating point numbers. -/
def isNumeric (k : Kind) : Bool := byte.rank ≤ k.rank && k.rank ≤ float64.rank

/-- Whole numbers. -/
def isInteger (k : Kind) : Bool := byte.rank ≤ k.rank && k.rank ≤ int64.rank

/-- Floating point numbers. -/
def isFloat (k : Kind) : Bool := k == float32 || k == float64

/-- The name of a kind in programs and messages. -/
def name : Kind → String
  | nil => "nil"
  | bool => "bool"
  | byte => "byte"
  | int32 => "int32"
  | int => "int"
  | int64 => "int64"
  | float32 => "float32"
  | float64 => "float64"
  | string => "string"
  | array => "array"
  | struct => "struct"
  | map => "map"
  | pointer => "pointer"
  | channel => "chan"
  | error => "error"
  | function => "func"
  | type => "type"
  | interface => "interface\x7b\x7d"
  | waitGroup => "sync.WaitGroup"
  | mutex => "sync.Mutex"
  | template => "template"
  | marker => "marker"

theorem mem_all (k : Kind) : k ∈ all := by cases k <;> simp [all]

theorem wider_eq_or (a b : Kind) : wider a b = a ∨ wider a b = b := by
  unfold wider; split <;> simp

theorem isScalar_of_isNumeric {k : Kind} (h : k.isNumeric = true) : k.isScalar = true := by
  cases k <;> simp_all [isNumeric, isScalar, rank]

theorem isNumeric_of_isInteger {k : Kind} (h : k.isInteger = true) : k.isNumeric = true := by
  cases k <;> simp_all [isNumeric, isInteger, rank]

end Kind

end StackScript
