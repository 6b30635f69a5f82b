import Mathlib.Tactic.Simps.Basic
import StackScript.Machine.Thread

/-!
# Relocation

A relocation moves the addresses of units and rewrites the units themselves. Addresses stand in
frames, which programs can hold as values after a fault has left a call in the middle, in protected
blocks, and where a context is; programs see nothing of them. The text, the type and the equality
of values are the same after a relocation (`display_moved`, `typeName_moved`, `equal_moved`), and
so is every lookup.
-/
namespace StackScript

/-! ## Associations -/

namespace Association

variable {α β γ : Type}

/-- The same keys with other values. -/
def mapValues (f : β → γ) (entries : List (α × β)) : List (α × γ) :=
  entries.map fun e => (e.1, f e.2)

@[simp] theorem mapValues_nil (f : β → γ) : mapValues f ([] : List (α × β)) = [] := rfl

@[simp] theorem mapValues_cons (f : β → γ) (e : α × β) (rest : List (α × β)) :
    mapValues f (e :: rest) = (e.1, f e.2) :: mapValues f rest := rfl

@[simp] theorem length_mapValues (f : β → γ) (entries : List (α × β)) :
    (mapValues f entries).length = entries.length := List.length_map _

@[simp] theorem keys_mapValues (f : β → γ) (entries : List (α × β)) :
    keys (mapValues f entries) = keys entries := by simp [keys, mapValues]

variable [BEq α]

@[simp] theorem has_mapValues (key : α) (f : β → γ) (entries : List (α × β)) :
    has key (mapValues f entries) = has key entries := by
  simp [has, mapValues, Function.comp_def]

@[simp] theorem find?_mapValues (key : α) (f : β → γ) (entries : List (α × β)) :
    find? key (mapValues f entries) = (find? key entries).map f := by
  induction entries with
  | nil => rfl
  | cons e rest ih =>
    simp only [mapValues_cons, find?, ih]
    split <;> rfl

@[simp] theorem insert_mapValues (key : α) (v : β) (f : β → γ) (entries : List (α × β)) :
    insert key (f v) (mapValues f entries) = mapValues f (insert key v entries) := by
  induction entries with
  | nil => rfl
  | cons e rest ih =>
    simp only [mapValues_cons, insert, ih]
    split <;> rfl

@[simp] theorem erase_mapValues (key : α) (f : β → γ) (entries : List (α × β)) :
    erase key (mapValues f entries) = mapValues f (erase key entries) := by
  induction entries with
  | nil => rfl
  | cons e rest ih =>
    simp only [mapValues_cons, erase, ih]
    split <;> rfl

@[simp] theorem ofList_mapValues (f : β → γ) (entries : List (α × β)) :
    ofList (mapValues f entries) = mapValues f (ofList entries) := by
  have grown (done : List (α × β)) :
      (mapValues f entries).foldl (fun acc e => insert e.1 e.2 acc) (mapValues f done) =
        mapValues f (entries.foldl (fun acc e => insert e.1 e.2 acc) done) := by
    induction entries generalizing done with
    | nil => rfl
    | cons e rest ih => simp [ih]
  exact grown []

end Association

namespace Store

theorem getD_map {α : Type} {f : α → α} {empty : α} (h : f empty = empty) (items : Array α)
    (i : Nat) : (items.map f).getD i empty = f (items.getD i empty) := by
  simp only [Array.getD_eq_getD_getElem?, Array.getElem?_map]
  cases items[i]? with
  | none => exact h.symm
  | some a => rfl

theorem modify_map {α : Type} {f g g' : α → α} (h : ∀ a, g' (f a) = f (g a)) (items : Array α)
    (i : Nat) : (items.map f).modify i g' = (items.modify i g).map f := by
  refine Array.ext (by simp) fun j hj hj' => ?_
  simp only [Array.getElem_modify, Array.getElem_map]
  split
  · exact h _
  · rfl

end Store

namespace Value

/-- No value equals a frame, not even the frame itself. -/
theorem equalTo_frame_left (s : Store) (depth : Nat) (f : Frame) (v : Value) :
    equalTo s depth (frame f) v = false := by cases depth <;> rfl

theorem equalTo_frame_right (s : Store) (depth : Nat) (v : Value) (f : Frame) :
    equalTo s depth v (frame f) = false := by
  cases depth with
  | zero => rfl
  | succ depth => cases v <;> simp [equalTo, kind, Kind.isNumeric, Kind.rank]

end Value

/-! ## Relocations -/

/-- Where the addresses of units go, and what becomes of the units. -/
class Relocation where
  /-- Where an address of a unit goes. -/
  move : CodeRef → Nat → Nat
  /-- What becomes of a unit. -/
  rewrite : CodeRef → Code → Code
  /-- From here on all units stay as they are. -/
  bound : Nat
  start (r : CodeRef) : move r 0 = 0
  beyond (r : CodeRef) (code : Code) (h : bound ≤ r.index) : rewrite r code = code
  name (r : CodeRef) (code : Code) : (rewrite r code).name = code.name
  declaration (r : CodeRef) (code : Code) : (rewrite r code).declaration = code.declaration
  package (r : CodeRef) (code : Code) : (rewrite r code).package = code.package

/-- Nothing moves. -/
@[reducible] def Relocation.still : Relocation where
  move _ a := a
  rewrite _ code := code
  bound := 0
  start _ := rfl
  beyond _ _ _ := rfl
  name _ _ := rfl
  declaration _ _ := rfl
  package _ _ := rfl

variable [Relocation]

/-! ## Values -/

/-- A frame whose address to return to has moved. -/
def Frame.moved (f : Frame) : Frame := { f with pc := Relocation.move f.code f.pc }

/-- A value whose address to return to has moved, if it is a frame. -/
def Value.moved : Value → Value
  | .frame f => .frame f.moved
  | v => v

namespace Value

@[simp] theorem moved_frame (f : Frame) : (frame f).moved = frame f.moved := rfl

@[simp] theorem moved_string (text : String) : (string text).moved = string text := rfl

@[simp] theorem moved_array (r : ArrayRef) : (array r).moved = array r := rfl

@[simp] theorem moved_struct (r : StructRef) : (struct r).moved = struct r := rfl

@[simp] theorem moved_map (r : MapRef) : (map r).moved = map r := rfl

@[simp] theorem moved_tuple (r : TupleRef) : (tuple r).moved = tuple r := rfl

@[simp] theorem moved_channel (r : ChannelRef) : (channel r).moved = channel r := rfl

@[simp] theorem moved_function (code : CodeRef) (scope : Option TableRef) :
    (function code scope).moved = function code scope := rfl

@[simp] theorem kind_moved (v : Value) : v.moved.kind = v.kind := by cases v <;> rfl

@[simp] theorem isNil_moved (v : Value) : v.moved.isNil = v.isNil := by cases v <;> rfl

@[simp] theorem isMarker_moved (v : Value) : v.moved.isMarker = v.isMarker := by cases v <;> rfl

@[simp] theorem isCallable_moved (v : Value) : v.moved.isCallable = v.isCallable := by
  cases v <;> rfl

@[simp] theorem isTruthy_moved (v : Value) : v.moved.isTruthy = v.isTruthy := by cases v <;> rfl

@[simp] theorem asInt?_moved (v : Value) : v.moved.asInt? = v.asInt? := by cases v <;> rfl

@[simp] theorem asFloat?_moved (v : Value) : v.moved.asFloat? = v.asFloat? := by cases v <;> rfl

/-- Only frames lose anything. -/
theorem moved_of_ne {v : Value} (h : ∀ f, v ≠ .frame f) : v.moved = v := by
  cases v with
  | frame f => exact absurd rfl (h f)
  | _ => rfl

theorem frame_or (v : Value) : (∃ f, v = frame f) ∨ v.moved = v := by
  cases v with
  | frame f => exact .inl ⟨f, rfl⟩
  | _ => exact .inr rfl

end Value

/-- What a builtin waits for, with its message moved. -/
def Wait.moved : Wait → Wait
  | .send r message => .send r message.moved
  | w => w

/-- A sort whose items have moved. -/
@[simps] def Sorting.moved (o : Sorting) : Sorting :=
  { o with less := o.less.moved, items := o.items.map Value.moved }

/-- An answer whose values have moved. -/
def Answer.moved : Answer → Answer
  | .value v => .value v.moved
  | .wait w => .wait w.moved
  | .sort o => .sort o.moved
  | .evaluate source => .evaluate source

open Association (mapValues)

/-! ## Objects -/

/-- An array whose items have moved. -/
@[simps] def ArrayObject.moved (a : ArrayObject) : ArrayObject :=
  { a with items := a.items.map Value.moved }

/-- A struct whose fields have moved. -/
@[simps] def StructObject.moved (o : StructObject) : StructObject :=
  { o with fields := mapValues Value.moved o.fields }

/-- A map whose entries have moved. -/
@[simps] def MapObject.moved (m : MapObject) : MapObject :=
  { m with entries := mapValues Value.moved m.entries }

/-- A channel whose messages have moved. -/
@[simps] def ChannelObject.moved (c : ChannelObject) : ChannelObject :=
  { c with buffer := c.buffer.map Value.moved }

/-- A binding whose value has moved. -/
@[simps] def Binding.moved (b : Binding) : Binding := { b with value := b.value.moved }

/-- A table whose bindings have moved. -/
@[simps] def Table.moved (t : Table) : Table := { t with bindings := mapValues Binding.moved t.bindings }

/-- An operand that has moved, if it is a frame. -/
def Operand.moved : Operand → Operand
  | .value v => .value v.moved
  | operand => operand

/-- An instruction whose operand has moved. -/
@[simps] def Instruction.moved (i : Instruction) : Instruction := { i with operand := i.operand.moved }

/-- A unit whose operands have moved. -/
@[simps] def Code.moved (c : Code) : Code :=
  { c with instructions := c.instructions.map Instruction.moved }

/-- A store whose objects have moved and whose units are rewritten. -/
def Store.moved (s : Store) : Store where
  arrays := s.arrays.map ArrayObject.moved
  structs := s.structs.map StructObject.moved
  maps := s.maps.map MapObject.moved
  tuples := s.tuples.map (List.map Value.moved)
  channels := s.channels.map ChannelObject.moved
  waitGroups := s.waitGroups
  mutexes := s.mutexes
  codes := s.codes.mapIdx fun i c => (Relocation.rewrite ⟨i⟩ c).moved
  tables := s.tables.map Table.moved

namespace StructObject

@[simp] theorem keys_moved (o : StructObject) : o.moved.keys = o.keys := by
  simp [keys, moved]

@[simp] theorem length_moved (o : StructObject) : o.moved.length = o.length := by
  simp only [length, moved, mapValues, List.filter_map, List.length_map]
  rfl

@[simp] theorem descriptor_moved (o : StructObject) : o.moved.descriptor = o.descriptor := rfl

@[simp] theorem get?_moved (o : StructObject) (name : String) :
    o.moved.get? name = (o.get? name).map Value.moved := by
  unfold get?
  split
  · rename_i r _
    cases r <;> simp only [reserved?, moved, Option.map_map, Option.map_some] <;> rfl
  · exact Association.find?_mapValues _ _ _

end StructObject

@[simp] theorem MapObject.sortedKeys_moved (m : MapObject) : m.moved.sortedKeys = m.sortedKeys := by
  simp [sortedKeys, moved]

theorem MapKey.moved_toValue (t : Ty) (k : MapKey) : (k.toValue t).moved = k.toValue t := by
  cases k with
  | int n =>
    simp only [toValue]
    split <;> rfl
  | _ => rfl

@[simp] theorem MapKey.ofValue?_moved (v : Value) : ofValue? v.moved = ofValue? v := by
  cases v <;> rfl

@[simp] theorem MapObject.keys_moved (m : MapObject) : m.moved.keys = m.keys := by
  simp only [keys, sortedKeys_moved]
  rfl

namespace Table

@[simp] theorem binds_moved (t : Table) (name : String) : t.moved.binds name = t.binds name := by
  simp [binds, moved]

@[simp] theorem binding?_moved (t : Table) (name : String) :
    t.moved.binding? name = (t.binding? name).map Binding.moved := by
  simp [binding?, moved]

@[simp] theorem bind_moved (t : Table) (name : String) (b : Binding) :
    t.moved.bind name b.moved = (t.bind name b).moved := by
  simp [bind, moved]

@[simp] theorem next_moved (t : Table) (full : Bool) : t.moved.next full = t.next full := rfl

@[simp] theorem names_moved (t : Table) : t.moved.names = t.names := by simp [names, moved]

end Table

/-! ## Reading a store -/

namespace Store

variable (s : Store)

@[simp] theorem array_moved (r : ArrayRef) : s.moved.array r = (s.array r).moved :=
  getD_map (by simp [ArrayObject.moved]) _ _

@[simp] theorem struct_moved (r : StructRef) : s.moved.struct r = (s.struct r).moved :=
  getD_map rfl _ _

@[simp] theorem map_moved (r : MapRef) : s.moved.map r = (s.map r).moved :=
  getD_map rfl _ _

@[simp] theorem tuple_moved (r : TupleRef) : s.moved.tuple r = (s.tuple r).map Value.moved :=
  getD_map rfl _ _

@[simp] theorem channel_moved (r : ChannelRef) : s.moved.channel r = (s.channel r).moved :=
  getD_map rfl _ _

@[simp] theorem waitGroup_moved (r : WaitGroupRef) : s.moved.waitGroup r = s.waitGroup r := rfl

@[simp] theorem mutex_moved (r : MutexRef) : s.moved.mutex r = s.mutex r := rfl

/-- What a unit declares stays, though its instructions may become others. -/
theorem code_moved (r : CodeRef) : (s.moved.code r).name = (s.code r).name ∧
    (s.moved.code r).declaration = (s.code r).declaration ∧
    (s.moved.code r).package = (s.code r).package := by
  simp only [code, moved, Array.getD_eq_getD_getElem?, Array.getElem?_mapIdx]
  cases s.codes[r.index]? with
  | none => exact ⟨rfl, rfl, rfl⟩
  | some code =>
    exact ⟨Relocation.name _ code, Relocation.declaration _ code, Relocation.package _ code⟩

@[simp] theorem code_moved_name (r : CodeRef) : (s.moved.code r).name = (s.code r).name :=
  (s.code_moved r).1

@[simp] theorem code_moved_declaration (r : CodeRef) :
    (s.moved.code r).declaration = (s.code r).declaration := (s.code_moved r).2.1

@[simp] theorem code_moved_package (r : CodeRef) :
    (s.moved.code r).package = (s.code r).package := (s.code_moved r).2.2

/-- A unit that is not rewritten has only its operands moved. -/
theorem code_moved_same {r : CodeRef} (same : ∀ code, Relocation.rewrite r code = code) :
    s.moved.code r = (s.code r).moved := by
  simp only [Store.code, Store.moved, Array.getD_eq_getD_getElem?, Array.getElem?_mapIdx]
  cases s.codes[r.index]? with
  | none => simp [Code.moved]
  | some code => exact congrArg Code.moved (same code)

/-- A unit that has moved. -/
theorem code_moved_of {r : CodeRef} {code : Code} (there : s.codes[r.index]? = some code) :
    s.code r = code ∧ s.moved.code r = (Relocation.rewrite r code).moved := by
  simp [Store.code, Store.moved, Array.getD_eq_getD_getElem?, there]

@[simp] theorem code_moved_scopeRule (r : CodeRef) :
    (s.moved.code r).scopeRule = (s.code r).scopeRule := by simp [Code.scopeRule]

@[simp] theorem table_moved (r : TableRef) : s.moved.table r = (s.table r).moved :=
  getD_map rfl _ _

@[simp] theorem objectCount_moved : s.moved.objectCount = s.objectCount := by
  simp [objectCount, moved]

end Store

namespace Value

variable (s : Store)

@[simp] theorem typeOf_moved (v : Value) : v.moved.typeOf s.moved = v.typeOf s := by
  cases v <;> first | rfl | simp [typeOf]

@[simp] theorem typeName_moved (v : Value) : v.moved.typeName s.moved = v.typeName s := by
  have whole := typeOf_moved s v
  cases v with
  | function code scope => simp [typeName, Code.signature]
  | native f => rfl
  | _ => exact congrArg Ty.display whole

@[simp] theorem length?_moved (v : Value) : v.moved.length? s.moved = v.length? s := by
  cases v <;> first | rfl | simp [length?]

theorem scalarText_moved (v : Value) : v.moved.scalarText = v.scalarText := by cases v <;> rfl

theorem nestedText_moved (v : Value) (text : String) :
    v.moved.nestedText text = v.nestedText text := by cases v <;> rfl

@[simp] theorem displayTo_moved (depth : Nat) (v : Value) :
    displayTo s.moved depth v.moved = displayTo s depth v := by
  induction depth generalizing v with
  | zero => exact scalarText_moved v
  | succ depth ih =>
    have nested (v : Value) : v.moved.nestedText (displayTo s.moved depth v.moved) =
        v.nestedText (displayTo s depth v) := by rw [ih, nestedText_moved]
    cases v with
    | function code scope => simp [displayTo, Code.display]
    | frame f => simp [displayTo, Frame.moved]
    | array r => simp [displayTo, Function.comp_def, nested]
    | tuple r => simp [displayTo, Function.comp_def, nested]
    | struct r => simp [displayTo, Function.comp_def, nested]
    | map r => simp [displayTo, Function.comp_def, nested]
    | channel r => simp [displayTo]
    | _ => rfl

@[simp] theorem display_moved (v : Value) : v.moved.display s.moved = v.display s := by
  simp [display]

/-- The text of a frame has no address in it, so only the store needs to moved. -/
theorem displayNested_store (v : Value) : v.displayNested s.moved = v.displayNested s := by
  rw [displayNested, displayNested, ← display_moved s v]
  cases v <;> rfl

@[simp] theorem displayNested_moved (v : Value) :
    v.moved.displayNested s.moved = v.displayNested s := by
  simp [displayNested, nestedText_moved]

/-! ### Equality -/

theorem allEqual_moved {equal equal' : Value → Value → Bool}
    (h : ∀ a b, equal' a.moved b.moved = equal a b) (xs ys : List Value) :
    allEqual equal' (xs.map moved) (ys.map moved) = allEqual equal xs ys := by
  simp only [allEqual, List.length_map, List.zip_map, List.all_map]
  congr 2
  funext e
  exact h e.1 e.2

theorem sameEntries_moved {α : Type} [BEq α] {equal equal' : Value → Value → Bool}
    (h : ∀ a b, equal' a.moved b.moved = equal a b) (xs ys : List (α × Value)) :
    sameEntries equal' (mapValues moved xs) (mapValues moved ys) = sameEntries equal xs ys := by
  simp only [sameEntries, Association.length_mapValues, Association.find?_mapValues]
  simp only [mapValues, List.all_map]
  congr 2
  funext e
  simp only [Function.comp_apply]
  cases Association.find? e.1 ys with
  | none => rfl
  | some v => exact h e.2 v

theorem equalTo_moved (depth : Nat) (a b : Value) :
    equalTo s.moved depth a.moved b.moved = equalTo s depth a b := by
  induction depth generalizing a b with
  | zero => rfl
  | succ depth ih =>
    by_cases framed : (∃ f, a = frame f) ∨ ∃ f, b = frame f
    · rcases framed with ⟨f, rfl⟩ | ⟨f, rfl⟩
      · simp [equalTo_frame_left]
      · simp [equalTo_frame_right]
    · obtain ⟨hasA, hasB⟩ := not_or.1 framed
      rw [moved_of_ne fun f e => hasA ⟨f, e⟩, moved_of_ne fun f e => hasB ⟨f, e⟩]
      unfold equalTo
      split <;> simp [allEqual_moved ih, sameEntries_moved ih]

@[simp] theorem equal_moved (a b : Value) : equal s.moved a.moved b.moved = equal s a b := by
  simp [equal, equalTo_moved]

end Value

/-! ### Looking up fields and names -/

namespace StructRef

theorem findAbove_moved (s : Store) (name : String) (bound : Nat) (r : Option StructRef) :
    findAbove s.moved name bound r = (findAbove s name bound r).map Value.moved := by
  induction bound generalizing r with
  | zero => rfl
  | succ bound ih =>
    cases r with
    | none => rfl
    | some r =>
      simp only [findAbove, Store.struct_moved, StructObject.moved_fields,
        Association.find?_mapValues, StructObject.moved_parent, ih]
      cases Association.find? name (s.struct r).fields <;> rfl

@[simp] theorem getInherited?_moved (s : Store) (o : StructObject) (name : String) :
    getInherited? s.moved o.moved name = (getInherited? s o name).map Value.moved := by
  simp only [getInherited?, StructObject.get?_moved, findAbove_moved, Option.map_or]
  simp [Store.moved]

end StructRef

namespace TableRef

variable (r : TableRef) (s : Store) (name : String) (full : Bool)

theorem findTo_moved (bound : Nat) : findTo s.moved full name bound r = findTo s full name bound r := by
  induction bound generalizing r with
  | zero => rfl
  | succ bound ih => simp [findTo, ih]

@[simp] theorem find?_moved : r.find? s.moved name full = r.find? s name full :=
  findTo_moved r s name full _

@[simp] theorem get?_moved : r.get? s.moved name full = (r.get? s name full).map Value.moved := by
  simp only [get?, resolve?, find?_moved, Store.table_moved, Table.binding?_moved]
  cases r.find? s name full <;> simp [Function.comp_def]

@[simp] theorem getLocal?_moved :
    r.getLocal? s.moved name = (r.getLocal? s name).map Value.moved := by
  simp [getLocal?, Function.comp_def]

end TableRef

/-! ## Changing a store -/

namespace Store

variable (s : Store)

@[simp] theorem newArray_moved (a : ArrayObject) :
    s.moved.newArray a.moved = ((s.newArray a).1, (s.newArray a).2.moved) := by
  simp [newArray, moved]

@[simp] theorem newStruct_moved (o : StructObject) :
    s.moved.newStruct o.moved = ((s.newStruct o).1, (s.newStruct o).2.moved) := by
  simp [newStruct, moved]

@[simp] theorem newMap_moved (m : MapObject) :
    s.moved.newMap m.moved = ((s.newMap m).1, (s.newMap m).2.moved) := by
  simp [newMap, moved]

@[simp] theorem newTuple_moved (items : List Value) :
    s.moved.newTuple (items.map Value.moved) =
      ((s.newTuple items).1, (s.newTuple items).2.moved) := by
  simp [newTuple, moved]

@[simp] theorem newChannel_moved (c : ChannelObject) :
    s.moved.newChannel c.moved = ((s.newChannel c).1, (s.newChannel c).2.moved) := by
  simp [newChannel, moved]

@[simp] theorem newTable_moved (t : Table) :
    s.moved.newTable t.moved = ((s.newTable t).1, (s.newTable t).2.moved) := by
  simp [newTable, moved]

/-- A new unit that is not rewritten. -/
theorem newCode_moved {code : Code} (beyond : Relocation.bound ≤ s.codes.size) :
    s.moved.newCode code.moved = ((s.newCode code).1, (s.newCode code).2.moved) := by
  simp [newCode, moved, Array.mapIdx_push, Relocation.beyond ⟨s.codes.size⟩ code beyond]

theorem modifyArray_moved {f g : ArrayObject → ArrayObject}
    (h : ∀ a, g a.moved = (f a).moved) (r : ArrayRef) :
    s.moved.modifyArray r g = (s.modifyArray r f).moved := by
  simp only [modifyArray, moved, modify_map h]

theorem modifyStruct_moved {f g : StructObject → StructObject}
    (h : ∀ o, g o.moved = (f o).moved) (r : StructRef) :
    s.moved.modifyStruct r g = (s.modifyStruct r f).moved := by
  simp only [modifyStruct, moved, modify_map h]

theorem modifyMap_moved {f g : MapObject → MapObject} (h : ∀ m, g m.moved = (f m).moved)
    (r : MapRef) : s.moved.modifyMap r g = (s.modifyMap r f).moved := by
  simp only [modifyMap, moved, modify_map h]

theorem modifyChannel_moved {f g : ChannelObject → ChannelObject}
    (h : ∀ c, g c.moved = (f c).moved) (r : ChannelRef) :
    s.moved.modifyChannel r g = (s.modifyChannel r f).moved := by
  simp only [modifyChannel, moved, modify_map h]

theorem modifyTable_moved {f g : Table → Table} (h : ∀ t, g t.moved = (f t).moved)
    (r : TableRef) : s.moved.modifyTable r g = (s.modifyTable r f).moved := by
  simp only [modifyTable, moved, modify_map h]

@[simp] theorem newChild_moved (parent : TableRef) (name : String) :
    s.moved.newChild parent name = ((s.newChild parent name).1, (s.newChild parent name).2.moved) := by
  simp only [newChild, newBelow, table_moved, Table.moved_root]
  exact newTable_moved s { name := name, parent := some parent, root := some _, boundary := false }

@[simp] theorem newBoundary_moved (parent : TableRef) (name : String) :
    s.moved.newBoundary parent name =
      ((s.newBoundary parent name).1, (s.newBoundary parent name).2.moved) := by
  simp only [newBoundary, newBelow, table_moved, Table.moved_root]
  exact newTable_moved s { name := name, parent := some parent, root := some _, boundary := true }

end Store

@[simp] theorem TableRef.setAlways_moved (r : TableRef) (name : String) (v : Value) (s : Store) :
    r.setAlways name v.moved s.moved = (r.setAlways name v s).moved := by
  refine s.modifyTable_moved (fun t => ?_) r
  rw [Table.binding?_moved]
  cases t.binding? name with
  | none => exact Table.bind_moved t name { value := v }
  | some b => exact Table.bind_moved t name { b with value := v, bound := true }

/-! ## Worlds, contexts and code -/

/-- A launched function whose arguments have moved. -/
def Launch.moved (l : Launch) : Launch :=
  { callee := l.callee.moved, args := l.args.map Value.moved
    receiver := l.receiver.map Value.moved }

/-- A world whose launched functions have moved. -/
@[simps] def World.moved (w : World) : World := { w with launched := w.launched.map Launch.moved }

theorem World.launching_moved (w : World) (l : Launch) :
    (w.launching l).moved = w.moved.launching l.moved := by
  simp only [World.launching, World.moved_active]
  cases counted? w.active 1 <;> simp [World.moved]

/-- A call of a builtin whose arguments have moved. -/
@[simps] def NativeCall.moved (c : NativeCall) : NativeCall :=
  { c with args := c.args.map Value.moved, receiver := c.receiver.map Value.moved }

/-- A protected block whose handler has moved. -/
@[simps] def TryRecord.moved (t : TryRecord) : TryRecord :=
  { t with handler := t.handler.map (Relocation.move t.code) }

/-- A context with the addresses of its unit, its protected blocks and its frames moved. -/
@[simps] def Context.moved (c : Context) : Context :=
  { c with
    pc := Relocation.move c.code c.pc
    tries := c.tries.map TryRecord.moved
    stack := c.stack.map Value.moved
    receivers := c.receivers.map Value.moved }

@[simp] theorem Context.base_moved (c : Context) : c.moved.base = c.base := rfl

namespace Operand

@[simp] theorem asInt?_moved (o : Operand) : o.moved.asInt? = o.asInt? := by
  cases o with
  | value v => exact Value.asInt?_moved v
  | _ => rfl

@[simp] theorem asAddress?_moved (o : Operand) : o.moved.asAddress? = o.asAddress? := by
  cases o <;> rfl

@[simp] theorem asName?_moved (o : Operand) : o.moved.asName? = o.asName? := by
  cases o with
  | value v => cases v <;> rfl
  | _ => rfl

@[simp] theorem asTuple?_moved (o : Operand) : o.moved.asTuple? = o.asTuple? := by
  cases o <;> rfl

mutual
theorem display_store (s : Store) : (o : Operand) → o.display s.moved = o.display s
  | .none | .int _ | .address _ | .name _ => rfl
  | .value v => v.displayNested_store s
  | .tuple items => by simp only [display, displayList_store s items]

theorem displayList_store (s : Store) : (items : List Operand) →
    displayList s.moved items = displayList s items
  | [] => rfl
  | [item] => by simp only [displayList, display_store s item]
  | item :: next :: rest => by
    simp only [displayList, display_store s item, displayList_store s (next :: rest)]
end

@[simp] theorem display_moved (s : Store) (o : Operand) : o.moved.display s.moved = o.display s := by
  cases o with
  | value v => simp [moved, display]
  | _ => exact display_store s _

end Operand

end StackScript
