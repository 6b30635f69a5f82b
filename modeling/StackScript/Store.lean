import StackScript.Code

/-!
# The store

Everything that values refer to: aggregates, channels, wait groups, mutexes, code units and
symbol tables. A reference is a place in one of the lists; places are only ever added, so a
reference stays good. Reading a place that was never added gives an empty object.

Main statements: `array_newArray` and `array_modifyArray` (a place holds what was put there last),
`objectCount_newArray`.
-/
namespace StackScript

/-! ## Objects -/

/-- A sequence of items of one declared type. -/
structure ArrayObject where
  element : Ty := .interface
  items : Array Value := #[]
  readonly : Bool := false

/-- A struct: fields in the order of insertion and what is known of its type. -/
structure StructObject where
  typeName : Option String := none
  fields : List (String × Value) := []
  /-- Declared fields; a struct that has them rejects unknown names unless it is a model. -/
  fieldTypes : Option (List (String × Ty)) := none
  /-- Where methods and further fields are looked up. -/
  parent : Option StructRef := none
  readonly : Bool := false
  /-- Whether this is the model of a declared type. -/
  isStatic : Bool := false
  /-- The package this struct stands for. -/
  package : Option String := none

/-- A map with the types of its keys and values, its entries in the order of insertion. -/
structure MapObject where
  keyType : Ty := .interface
  valueType : Ty := .interface
  entries : List (MapKey × Value) := []
  readonly : Bool := false

/-- A bounded channel. A sender first takes a handle and then waits for room; a channel with
handles outstanding can still be fed after it was closed. -/
structure ChannelObject where
  element : Ty := .interface
  capacity : Nat := 1
  /-- Waiting values, the oldest first. -/
  buffer : List Value := []
  closed : Bool := false
  handles : Nat := 0

/-- A name in a table. -/
structure Binding where
  value : Value
  readonly : Bool := false
  constant : Bool := false
  /-- Whether a value has been stored since the name was declared. -/
  bound : Bool := true

/-- A table of names. -/
structure Table where
  name : String
  parent : Option TableRef := none
  /-- The shared root; a root itself has none. -/
  root : Option TableRef := none
  /-- Whether lookups skip from here to the root. -/
  boundary : Bool := false
  bindings : List (String × Binding) := []

instance : Inhabited ArrayObject := ⟨{}⟩
instance : Inhabited StructObject := ⟨{}⟩
instance : Inhabited MapObject := ⟨{}⟩
instance : Inhabited ChannelObject := ⟨{}⟩
instance : Inhabited Table := ⟨{ name := "" }⟩

/-- Everything that values refer to. -/
structure Store where
  arrays : Array ArrayObject := #[]
  structs : Array StructObject := #[]
  maps : Array MapObject := #[]
  tuples : Array (List Value) := #[]
  channels : Array ChannelObject := #[]
  /-- The counts of wait groups. -/
  waitGroups : Array Int := #[]
  /-- Whether each mutex is held. -/
  mutexes : Array Bool := #[]
  codes : Array Code := #[]
  tables : Array Table := #[]

instance : Inhabited Store := ⟨{}⟩

/-- Computations that change the store and can fail; what a failed one has done so far stays. -/
abbrev StoreM := ExceptT Fault (StateM Store)

namespace Store

/-! ## Reading -/

/-- The array at a place. -/
def array (s : Store) (r : ArrayRef) : ArrayObject := s.arrays.getD r.index {}

/-- The struct at a place. -/
def struct (s : Store) (r : StructRef) : StructObject := s.structs.getD r.index {}

/-- The map at a place. -/
def map (s : Store) (r : MapRef) : MapObject := s.maps.getD r.index {}

/-- The tuple at a place. -/
def tuple (s : Store) (r : TupleRef) : List Value := s.tuples.getD r.index []

/-- The channel at a place. -/
def channel (s : Store) (r : ChannelRef) : ChannelObject := s.channels.getD r.index {}

/-- The count of a wait group. -/
def waitGroup (s : Store) (r : WaitGroupRef) : Int := s.waitGroups.getD r.index 0

/-- Whether a mutex is held. -/
def mutex (s : Store) (r : MutexRef) : Bool := s.mutexes.getD r.index false

/-- The code unit at a place. -/
def code (s : Store) (r : CodeRef) : Code := s.codes.getD r.index { name := "" }

/-- The table at a place. -/
def table (s : Store) (r : TableRef) : Table := s.tables.getD r.index { name := "" }

/-- How many places hold values of their own; no value nests deeper without a cycle. -/
def objectCount (s : Store) : Nat :=
  s.arrays.size + s.structs.size + s.maps.size + s.tuples.size

/-! ## Adding and changing -/

/-- Add an array. -/
def newArray (s : Store) (a : ArrayObject) : ArrayRef × Store :=
  (⟨s.arrays.size⟩, { s with arrays := s.arrays.push a })

/-- Add a struct. -/
def newStruct (s : Store) (o : StructObject) : StructRef × Store :=
  (⟨s.structs.size⟩, { s with structs := s.structs.push o })

/-- Add a map. -/
def newMap (s : Store) (m : MapObject) : MapRef × Store :=
  (⟨s.maps.size⟩, { s with maps := s.maps.push m })

/-- Add a tuple. -/
def newTuple (s : Store) (items : List Value) : TupleRef × Store :=
  (⟨s.tuples.size⟩, { s with tuples := s.tuples.push items })

/-- Add a channel. -/
def newChannel (s : Store) (c : ChannelObject) : ChannelRef × Store :=
  (⟨s.channels.size⟩, { s with channels := s.channels.push c })

/-- Add a wait group. -/
def newWaitGroup (s : Store) : WaitGroupRef × Store :=
  (⟨s.waitGroups.size⟩, { s with waitGroups := s.waitGroups.push 0 })

/-- Add a mutex. -/
def newMutex (s : Store) : MutexRef × Store :=
  (⟨s.mutexes.size⟩, { s with mutexes := s.mutexes.push false })

/-- Add a code unit. -/
def newCode (s : Store) (c : Code) : CodeRef × Store :=
  (⟨s.codes.size⟩, { s with codes := s.codes.push c })

/-- Add a table. -/
def newTable (s : Store) (t : Table) : TableRef × Store :=
  (⟨s.tables.size⟩, { s with tables := s.tables.push t })

/-- Change the array at a place. -/
def modifyArray (s : Store) (r : ArrayRef) (f : ArrayObject → ArrayObject) : Store :=
  { s with arrays := s.arrays.modify r.index f }

/-- Change the struct at a place. -/
def modifyStruct (s : Store) (r : StructRef) (f : StructObject → StructObject) : Store :=
  { s with structs := s.structs.modify r.index f }

/-- Change the map at a place. -/
def modifyMap (s : Store) (r : MapRef) (f : MapObject → MapObject) : Store :=
  { s with maps := s.maps.modify r.index f }

/-- Change the channel at a place. -/
def modifyChannel (s : Store) (r : ChannelRef) (f : ChannelObject → ChannelObject) : Store :=
  { s with channels := s.channels.modify r.index f }

/-- Change the count of a wait group. -/
def setWaitGroup (s : Store) (r : WaitGroupRef) (count : Int) : Store :=
  { s with waitGroups := s.waitGroups.setIfInBounds r.index count }

/-- Take or release a mutex. -/
def setMutex (s : Store) (r : MutexRef) (held : Bool) : Store :=
  { s with mutexes := s.mutexes.setIfInBounds r.index held }

/-- Change the table at a place. -/
def modifyTable (s : Store) (r : TableRef) (f : Table → Table) : Store :=
  { s with tables := s.tables.modify r.index f }

theorem array_newArray (s : Store) (a : ArrayObject) :
    (s.newArray a).2.array (s.newArray a).1 = a := by
  simp [newArray, array]

theorem array_modifyArray (s : Store) (r : ArrayRef) (f : ArrayObject → ArrayObject)
    (h : r.index < s.arrays.size) : (s.modifyArray r f).array r = f (s.array r) := by
  simp [modifyArray, array, h, Array.getElem_modify]

theorem objectCount_newArray (s : Store) (a : ArrayObject) :
    (s.newArray a).2.objectCount = s.objectCount + 1 := by
  simp only [newArray, objectCount, Array.size_push]
  omega

end Store

/-! ## Making values -/

namespace StoreM

/-- A new array value. -/
def array (element : Ty) (items : Array Value) : StoreM Value :=
  fun s => let (r, s) := s.newArray { element := element, items := items }; (.ok (.array r), s)

/-- A new struct value. -/
def struct (o : StructObject) : StoreM Value :=
  fun s => let (r, s) := s.newStruct o; (.ok (.struct r), s)

/-- A new map value. -/
def map (m : MapObject) : StoreM Value :=
  fun s => let (r, s) := s.newMap m; (.ok (.map r), s)

/-- A new tuple value. -/
def tuple (items : List Value) : StoreM Value :=
  fun s => let (r, s) := s.newTuple items; (.ok (.tuple r), s)

/-- A new channel value with room for at least one message. -/
def channel (element : Ty) (capacity : Nat) : StoreM Value :=
  fun s =>
    let (r, s) := s.newChannel { element := element, capacity := max capacity 1 }
    (.ok (.channel r), s)

/-- A new wait group value. -/
def waitGroup : StoreM Value :=
  fun s => let (r, s) := s.newWaitGroup; (.ok (.waitGroup r), s)

/-- A new mutex value. -/
def mutex : StoreM Value :=
  fun s => let (r, s) := s.newMutex; (.ok (.mutex r), s)

end StoreM

end StackScript
