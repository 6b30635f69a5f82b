import StackScript.Store
import StackScript.Text.Quoted

/-!
# Types and texts of values

The full type of a value, its length, and its text. Aggregates show their parts, strings inside
them quoted; structs and maps list their parts in the order of their keys.

Main statements: `kind_typeOf` (the type of a value has the kind of the value).
-/
namespace StackScript

/-- Names in ascending order. -/
def sortNames (names : List String) : List String := names.mergeSort fun a b => !(b < a)

namespace StructObject

/-- Whether a field is one that programs see; names that start with two underscores are not. -/
def isVisible (name : String) : Bool := !Text.startsWith name "__"

/-- The names of the visible fields in ascending order. -/
def keys (o : StructObject) : List String :=
  sortNames ((Association.keys o.fields).filter isVisible)

/-- The number of visible fields. -/
def length (o : StructObject) : Nat := (o.fields.filter fun f => isVisible f.1).length

/-- The struct type that the declared fields and the type's name make. -/
def descriptor (o : StructObject) : Ty :=
  let t := Ty.struct (o.fieldTypes.getD [])
  match o.typeName with
  | some name => t.withName name
  | none => t

end StructObject

namespace MapObject

/-- The keys in their order. -/
def sortedKeys (m : MapObject) : List MapKey := (Association.keys m.entries).mergeSort MapKey.le

/-- The keys in their order, as values of the key type. -/
def keys (m : MapObject) : List Value := m.sortedKeys.map (·.toValue m.keyType)

end MapObject

namespace Value

/-- The full type of a value. -/
def typeOf (s : Store) : Value → Ty
  | array r => .array (s.array r).element
  | map r => .map (s.map r).keyType (s.map r).valueType
  | struct r => (s.struct r).descriptor
  | channel r => .channel (s.channel r).element
  | v => .plain v.kind

/-- The name of a value's type in messages. -/
def typeName (s : Store) (v : Value) : String :=
  match v with
  | function code _ => (s.code code).signature
  | native _ => "func"
  | v => (v.typeOf s).display

/-- The number of elements: items, characters, visible fields, entries or waiting messages. -/
def length? (s : Store) : Value → Option Nat
  | string text => some text.length
  | array r => some (s.array r).items.size
  | struct r => some (s.struct r).length
  | map r => some (s.map r).entries.length
  | channel r => some (s.channel r).buffer.length
  | nil => some 0
  | _ => none

/-- The text of a value that refers to nothing. -/
def scalarText : Value → String
  | nil => "<nil>"
  | bool b => if b then "true" else "false"
  | byte n => Decimal.ofNat n.toNat
  | int32 n => Decimal.ofInt n.toInt
  | int n | int64 n => Decimal.ofInt n.toInt
  | float32 x => Decimal.ofFloat32 x
  | float64 x => Decimal.ofFloat x
  | string text => text
  | native f => "builtin " ++ f.name
  | error f => f.message
  | type t => t.display
  | marker m => "<marker " ++ m.label ++ ">"
  | template t => t.display
  | waitGroup _ => "sync.WaitGroup"
  | mutex _ => "sync.Mutex"
  | _ => ""

/-- A text that stands inside an aggregate: strings are quoted. -/
def nestedText (v : Value) (text : String) : String :=
  match v with
  | string s => Text.quote s
  | _ => text

/-- The text of a value, its parts nested at most `depth` deep. -/
def displayTo (s : Store) : (depth : Nat) → Value → String
  | 0, v => v.scalarText
  | depth + 1, v =>
    let nested (v : Value) : String := v.nestedText (displayTo s depth v)
    match v with
    | function code _ => (s.code code).display
    | frame f => "<frame " ++ (s.code f.code).name ++ ">"
    | array r => "[" ++ Text.join ", " ((s.array r).items.toList.map nested) ++ "]"
    | tuple r => "(" ++ Text.join ", " ((s.tuple r).map nested) ++ ")"
    | struct r =>
      let o := s.struct r
      match o.package with
      | some package => "package " ++ package
      | none =>
        "\x7b" ++ Text.join ", " (o.keys.map fun k =>
          k ++ ": " ++ ((Association.find? k o.fields).map nested).getD "") ++ "\x7d"
    | map r =>
      let m := s.map r
      "map[" ++ Text.join ", " (m.sortedKeys.map fun k =>
        k.display ++ ": " ++ ((Association.find? k m.entries).map nested).getD "") ++ "]"
    | channel r =>
      let c := s.channel r
      "chan(" ++ c.element.display ++ ", " ++ Decimal.ofNat c.buffer.length ++ "/" ++
        Decimal.ofNat c.capacity ++ ")"
    | v => v.scalarText

/-- The text of a value. -/
def display (s : Store) (v : Value) : String := displayTo s (s.objectCount + 1) v

/-- The text of a value inside another one. -/
def displayNested (s : Store) (v : Value) : String := v.nestedText (v.display s)

theorem kind_typeOf (s : Store) (v : Value) : (v.typeOf s).kind = v.kind := by
  cases v <;> simp [typeOf, kind, Ty.kind]
  simp only [StructObject.descriptor]
  split <;> simp [Ty.withName, Ty.kind]

end Value

end StackScript
