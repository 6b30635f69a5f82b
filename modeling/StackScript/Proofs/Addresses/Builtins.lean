import StackScript.Proofs.Addresses.Operations
import StackScript.Builtin.Table

/-!
# Builtins see no addresses

Templates, formats, JSON and every builtin are blind. A builtin that needs the machine asks for the
same, whatever addresses the frames among its arguments return to.

Main statement: `Native.run_blind`.
-/
namespace StackScript

open Association (mapValues)
open Value (moved)

variable [Relocation]

/-! ## Templates and formats -/

namespace Template

theorem missingField_blind {α α' : Type} (f : α → α') (name : String) :
    Blind f (missingField name : StoreM α) (missingField name) := .throw f _

theorem field_blind (name : String) (v : Value) :
    Blind moved (field name v) (field name v.moved) := by
  refine .bind StoreM.get_blind fun s => ?_
  cases v with
  | struct r =>
    simp only [Value.moved_struct, Store.struct_moved, StructRef.getInherited?_moved]
    cases StructRef.getInherited? s (s.struct r) name with
    | some v => exact .pure _ v
    | none => exact missingField_blind _ name
  | map r => exact r.find_blind (.string name)
  | array r =>
    simp only [Value.moved_array, Store.array_moved, ArrayObject.moved_items,
      Array.getElem?_map]
    split
    · rename_i n _
      cases (s.array r).items[n.toNat]? with
      | some v => exact .pure _ v
      | none => exact missingField_blind _ name
    · exact missingField_blind _ name
  | nil => exact .pure_eq rfl
  | _ => exact missingField_blind _ name

theorem follow_blind (names : List String) (v : Value) :
    Blind moved (follow v names) (follow v.moved names) := by
  induction names generalizing v with
  | nil => exact .pure _ v
  | cons name rest ih => exact .bind (field_blind name v) ih

theorem eval_blind (data : Value) : (e : Expr) → Blind moved (e.eval data) (e.eval data.moved)
  | .here => .pure _ data
  | .string _ => .pure_eq rfl
  | .int _ => .pure_eq rfl
  | .not inner => .bind (eval_blind data inner) fun v => .pure_eq (by rw [Value.isTruthy_moved]; rfl)
  | .path names => follow_blind names data

theorem entry_blind (r : MapRef) (k : Value) : Blind moved (entry r k) (entry r k.moved) :=
  StoreM.tryCatch_blind (r.find_blind k) fun _ => .pure_eq rfl

theorem elements_blind (v : Value) :
    Blind (List.map moved) (elements v) (elements v.moved) := by
  refine .bind StoreM.get_blind fun s => ?_
  have name := Value.typeName_moved s v
  cases v with
  | array r => exact .pure_eq (by simp)
  | map r =>
    have keys : (s.map r).keys.map moved = (s.map r).keys := by
      simp [MapObject.keys, Function.comp_def, MapKey.moved_toValue]
    simp only [Value.moved_map, Store.map_moved, MapObject.keys_moved]
    have entries := Blind.listMapM (entry_blind r) (s.map r).keys
    rwa [keys] at entries
  | struct r => exact .pure_eq (by simp [List.map_filterMap])
  | nil => exact .pure_eq rfl
  | _ => exact .throw_eq (congrArg (fun n => Fault.about .invalidTemplate ("cannot range over " ++ n)) name)

mutual
theorem renderNode_blind (data : Value) : (node : Node) →
    Blind id (renderNode data node) (renderNode data.moved node)
  | .literal text => .pure id text
  | .output e => by
    refine .bind (eval_blind data e) fun v => ?_
    rw [Value.isNil_moved]
    refine .ite (.pure id _) (.bind StoreM.get_blind fun s => ?_)
    rw [Value.display_moved]
    exact .pure id _
  | .choice condition body otherwise => by
    refine .bind (eval_blind data condition) fun v => ?_
    rw [Value.isTruthy_moved]
    exact .ite (renderNodes_blind data body) (renderOption_blind data otherwise)
  | .range e body => by
    refine .bind (eval_blind data e) fun v => .bind (elements_blind v) fun items => ?_
    refine .bind (.listMapM (fun item => renderNodes_blind item body) items) fun parts => ?_
    rw [List.map_id]
    exact .pure id _

theorem renderNodes_blind (data : Value) : (nodes : List Node) →
    Blind id (renderNodes data nodes) (renderNodes data.moved nodes)
  | [] => .pure id _
  | node :: rest => .bind (renderNode_blind data node) fun _ =>
    .bind (renderNodes_blind data rest) fun _ => .pure id _

theorem renderOption_blind (data : Value) : (nodes : Option (List Node)) →
    Blind id (renderOption data nodes) (renderOption data.moved nodes)
  | none => .pure id _
  | some nodes => renderNodes_blind data nodes
end

theorem render_blind (t : Template) (data : Value) :
    Blind id (t.render data) (t.render data.moved) := renderNodes_blind data t.nodes

end Template

namespace Format

theorem valueText_moved (s : Store) (places : Option Nat) (verb : Char) (v : Value) :
    valueText s.moved places verb v.moved = valueText s places verb v := by
  unfold valueText
  simp only [Value.asInt?_moved, Value.display_moved, Value.asFloat?_moved, Value.typeName_moved]
  cases v <;> rfl

theorem verbText_moved (s : Store) (places : Option Nat) (verb : Char) (args : List Value) :
    verbText s.moved places verb (args.map moved) =
      ((verbText s places verb args).1, (verbText s places verb args).2.map moved) := by
  unfold verbText
  split
  · rfl
  · cases args with
    | nil => rfl
    | cons v rest => simp [valueText_moved]

theorem formatFrom_moved (s : Store) (phase : Phase) (text : List Char) (args : List Value) :
    formatFrom s.moved phase text (args.map moved) = formatFrom s phase text args := by
  induction text generalizing phase args with
  | nil => cases phase <;> rfl
  | cons c rest ih => cases phase <;> simp only [formatFrom, verbText_moved, ih]

@[simp] theorem format_moved (s : Store) (text : String) (args : List Value) :
    format s.moved text (args.map moved) = format s text args := formatFrom_moved s _ _ args

end Format

/-! ## JSON -/

namespace JsonFn

theorem membersOf_blind {part : Value → StoreM JsonValue}
    (hp : ∀ v, Blind id (part v) (part v.moved)) (fields : List (String × Value)) :
    Blind id (membersOf part fields) (membersOf part (mapValues moved fields)) := by
  refine .bind (.listMapM (f := fun e : String × Value => (e.1, e.2.moved)) (g := id)
    (fun (k, v) => ?_) fields) fun members => ?_
  · dsimp only
    exact .bind (hp v) fun _ => .pure_eq rfl
  rw [List.map_id]
  exact .pure id _

theorem fractionOf_blind (x : Float) : Blind id (fractionOf x) (fractionOf x) :=
  .ite (.pure id _) (.throw _ _)

theorem toJsonTo_blind (depth : Nat) (v : Value) :
    Blind id (toJsonTo depth v) (toJsonTo depth v.moved) := by
  induction depth generalizing v with
  | zero => exact .pure id _
  | succ depth ih =>
    refine .bind StoreM.get_blind fun s => ?_
    have text := Value.display_moved s v
    have whole : Blind id
        (if v.kind.isInteger then pure (.whole ((v.asInt?.getD 0).toInt))
          else pure (.string (v.display s)) : StoreM JsonValue)
        (if v.moved.kind.isInteger then pure (.whole ((v.moved.asInt?.getD 0).toInt))
          else pure (.string (v.moved.display s.moved))) := by
      rw [text, Value.kind_moved, Value.asInt?_moved]
      exact .ite (.pure id _) (.pure id _)
    cases v with
    | array r =>
      simp only [Value.moved_array, Store.array_moved, ArrayObject.moved_items,
        Array.toList_map]
      refine .bind (.listMapM (g := id) ih _) fun items => ?_
      rw [List.map_id]
      exact .pure id _
    | struct r =>
      have members := membersOf_blind ih ((s.struct r).keys.filterMap fun k =>
        (Association.find? k (s.struct r).fields).map fun v => (k, v))
      simp only [mapValues, List.map_filterMap, Option.map_map] at members
      simpa [Function.comp_def] using members
    | map r =>
      have members := membersOf_blind ih ((s.map r).entries.map fun e => (e.1.display, e.2))
      simpa [mapValues, Function.comp_def] using members
    | float32 x => exact fractionOf_blind _
    | float64 x => exact fractionOf_blind _
    | marker m => exact .throw _ _
    | nil | bool | string | error => exact .pure id _
    | _ => exact whole

theorem toJson_blind (v : Value) : Blind id (toJson v) (toJson v.moved) := by
  refine .bind StoreM.get_blind fun s => ?_
  rw [Store.objectCount_moved]
  exact toJsonTo_blind _ v

mutual
theorem ofJson_blind : (json : JsonValue) → Blind moved (ofJson json) (ofJson json)
  | .null => .pure_eq rfl
  | .bool _ => .pure_eq rfl
  | .whole n => .ite (.pure_eq rfl) (.pure_eq rfl)
  | .fraction _ => .pure_eq rfl
  | .string _ => .pure_eq rfl
  | .array items => by
    refine .bind (ofJsonItems_blind items) fun vs => ?_
    rw [← List.map_toArray]
    exact StoreM.array_blind _ _
  | .object members => .bind (ofJsonMembers_blind members) fun fields =>
    StoreM.struct_blind { fields := fields }

theorem ofJsonItems_blind : (items : List JsonValue) →
    Blind (List.map moved) (ofJsonItems items) (ofJsonItems items)
  | [] => .pure_eq rfl
  | item :: rest => .bind (ofJson_blind item) fun _ => .bind (ofJsonItems_blind rest) fun _ =>
    .pure_eq rfl

theorem ofJsonMembers_blind : (members : List (String × JsonValue)) →
    Blind (mapValues moved) (ofJsonMembers members) (ofJsonMembers members)
  | [] => .pure_eq rfl
  | (_, item) :: rest => .bind (ofJson_blind item) fun _ =>
    .bind (ofJsonMembers_blind rest) fun _ => .pure_eq rfl
end

end JsonFn

/-! ## Arguments -/

namespace NativeCall

variable {α α' : Type}

theorem refuse_blind (f : α → α') (name : String) :
    Blind f (refuse name : WorldM α) (refuse name) := .throw f _

theorem refuseValue_blind (f : α → α') (v : Value) :
    Blind f (refuseValue v : WorldM α) (refuseValue v.moved) := by
  refine .bind WorldM.getStore fun s => ?_
  rw [Value.typeName_moved]
  exact refuse_blind f _

theorem wrongReceiver_blind (f : α → α') (v : Value) :
    Blind f (wrongReceiver v : WorldM α) (wrongReceiver v.moved) := by
  refine .bind WorldM.getStore fun s => ?_
  rw [Value.typeName_moved]
  exact .throw _ _

variable (c : NativeCall)

@[simp] theorem arg?_moved (index : Nat) : c.moved.arg? index = (c.arg? index).map Value.moved := by
  simp [arg?]

@[simp] theorem arg_moved (index : Nat) : c.moved.arg index = (c.arg index).moved := by
  simp only [arg, moved_args, List.getD_eq_getElem?_getD, List.getElem?_map]
  cases c.args[index]? <;> rfl

theorem int_blind (name : String) (index : Nat) : Blind id (c.int name index) (c.moved.int name index) := by
  unfold int
  rw [arg?_moved, Option.filter_map, Option.bind_map]
  simp only [Function.comp_def, Value.kind_moved, Value.asInt?_moved]
  cases (Option.filter _ (c.arg? index)).bind fun v => v.asInt? with
  | some n => exact .pure id _
  | none => exact refuse_blind id name

theorem float_blind (name : String) (index : Nat) :
    Blind id (c.float name index) (c.moved.float name index) := by
  unfold float
  rw [arg?_moved, Option.filter_map, Option.bind_map]
  simp only [Function.comp_def, Value.kind_moved, Value.asFloat?_moved]
  cases (Option.filter _ (c.arg? index)).bind fun v => v.asFloat? with
  | some n => exact .pure id _
  | none => exact refuse_blind id name

theorem text_blind (index : Nat) : Blind id (c.text index) (c.moved.text index) := by
  unfold text
  rw [arg?_moved]
  cases c.arg? index with
  | none => exact .pure id _
  | some v =>
    refine .bind WorldM.getStore fun s => ?_
    rw [Value.display_moved]
    exact .pure id _

theorem receiverValue_blind : Blind Value.moved c.receiverValue c.moved.receiverValue := by
  unfold receiverValue
  rw [moved_receiver]
  cases c.receiver with
  | none => exact .throw _ _
  | some v => exact .pure _ v

theorem texts_blind (items : List String) : Blind Value.moved (texts items) (texts items) := by
  have made := WorldM.ofStoreM (StoreM.array_blind (.plain .string) (items.map Value.string).toArray)
  rwa [List.map_toArray, List.map_map] at made

end NativeCall

/-! ## Packages -/

theorem StringsFn.renderArg_blind (c : NativeCall) : Blind id (renderArg c) (renderArg c.moved) := by
  unfold renderArg
  rw [c.arg_moved, c.arg_moved]
  cases c.arg 0 with
  | template t => exact WorldM.ofStoreM (t.render_blind _)
  | string source =>
    simp only [Value.moved_string]
    split
    · exact WorldM.ofStoreM (Template.render_blind _ _)
    · exact .throw _ _
  | _ => exact NativeCall.refuseValue_blind id _

theorem StringsFn.joined_blind (c : NativeCall) : Blind id (joined c) (joined c.moved) := by
  refine .bind WorldM.getStore fun s => ?_
  rw [c.arg_moved]
  cases c.arg 0 with
  | array r =>
    refine .bind (c.text_blind 1) fun separator => .pure_eq ?_
    simp [Function.comp_def]
  | _ => exact NativeCall.refuseValue_blind id _

theorem StringsFn.run_blind (f : StringsFn) (c : NativeCall) :
    Blind moved (f.run c) (f.run c.moved) := by
  cases f with
  | upper | lower => exact .bind (c.text_blind 0) fun _ => .pure_eq rfl
  | length => exact .bind (c.text_blind 0) fun _ => .pure_eq rfl
  | trim =>
    refine .bind (c.text_blind 0) fun text => ?_
    rw [c.arg?_moved]
    cases c.arg? 1 with
    | none => exact .pure_eq rfl
    | some set =>
      refine .bind WorldM.getStore fun s => .pure_eq ?_
      rw [Value.display_moved]
      rfl
  | left | right =>
    exact .bind (c.text_blind 0) fun _ => .bind (c.int_blind _ 1) fun _ => .pure_eq rfl
  | substring =>
    refine .bind (c.text_blind 0) fun text => .bind (c.int_blind _ 1) fun start => ?_
    rw [NativeCall.moved_args, List.length_map]
    exact .ite (.bind (.map (c.int_blind _ 2) fun _ => rfl) fun _ => .pure_eq rfl)
      (.bind (.pure id none) fun _ => .pure_eq rfl)
  | index | contains =>
    exact .bind (c.text_blind 0) fun _ => .bind (c.text_blind 1) fun _ => .pure_eq rfl
  | split =>
    refine .bind (c.text_blind 0) fun text => ?_
    rw [NativeCall.moved_args, List.length_map]
    exact .ite (.bind (c.text_blind 1) fun _ => NativeCall.texts_blind _)
      (.bind (.pure id _) fun _ => NativeCall.texts_blind _)
  | join => exact .map (joined_blind c) fun _ => rfl
  | format =>
    refine .bind WorldM.getStore fun s => .bind (c.text_blind 0) fun text => .pure_eq ?_
    rw [NativeCall.moved_args, ← List.map_drop, Format.format_moved]
    rfl
  | template => exact .map (renderArg_blind c) fun _ => rfl
  | pattern =>
    refine .bind (c.text_blind 1) fun source => ?_
    dsimp only [id_eq]
    split
    · exact .bind (c.text_blind 0) fun _ => .pure_eq rfl
    · exact .throw _ _

namespace MathFn

theorem operands_moved (s : Store) (args : List Value) :
    operands s.moved (args.map moved) = (operands s args).map moved := by
  cases args with
  | nil => rfl
  | cons v rest =>
    cases rest with
    | nil => cases v <;> simp [operands] <;> rfl
    | cons => cases v <;> rfl

theorem numberOf_blind (v : Value) : Blind id (numberOf v) (numberOf v.moved) := by
  unfold numberOf
  rw [Value.kind_moved, Value.asFloat?_moved]
  split
  · exact .pure id _
  · exact NativeCall.refuseValue_blind id v

theorem extremeFrom_blind (better : Float → Float → Bool) (values : List Value)
    (best : Option (Value × Float)) :
    Blind moved (extremeFrom better best values)
      (extremeFrom better (best.map (Prod.map moved id)) (values.map moved)) := by
  induction values generalizing best with
  | nil =>
    cases best with
    | none => exact .throw _ _
    | some b => exact .pure _ b.1
  | cons v rest ih =>
    have next (x : Float) := ih (some (v, x))
    cases best with
    | none => exact .bind (numberOf_blind v) next
    | some b => exact .bind (numberOf_blind v) fun x => .ite (next x) (ih (some b))

theorem sumOf_blind (values : List Value) : Blind moved (sumOf values) (sumOf (values.map moved)) := by
  unfold sumOf
  simp only [List.all_map, List.filterMap_map, Function.comp_def, Value.kind_moved,
    Value.asInt?_moved]
  refine .ite (.pure_eq rfl) (.bind (.listMapM numberOf_blind values) fun xs => .pure_eq ?_)
  rw [List.map_id]
  rfl

theorem absOf_blind (c : NativeCall) : Blind moved (absOf c) (absOf c.moved) := by
  unfold absOf
  rw [c.arg_moved]
  have other (v : Value) : Blind moved
      (if v.kind.isInteger then do pure (.int (← c.int "math.abs" 0).abs)
        else NativeCall.refuseValue v : WorldM Value)
      (if v.moved.kind.isInteger then do pure (.int (← c.moved.int "math.abs" 0).abs)
        else NativeCall.refuseValue v.moved) := by
    rw [Value.kind_moved]
    exact .ite (.bind (c.int_blind _ 0) fun _ => .pure_eq rfl) (NativeCall.refuseValue_blind _ v)
  cases c.arg 0 with
  | float32 x => exact .pure_eq rfl
  | float64 x => exact .pure_eq rfl
  | _ => exact other _

theorem draw_blind : Blind id World.draw World.draw := by
  rintro ⟨w, s⟩
  refine ⟨?_, rfl⟩
  simp only [Stateful.run, Relocatable.moved, World.draw, World.moved_entropy]
  rfl

theorem randomOf_blind (c : NativeCall) : Blind moved (randomOf c) (randomOf c.moved) := by
  unfold randomOf
  rw [NativeCall.moved_args, List.isEmpty_map]
  exact .ite (.bind draw_blind fun _ => .pure_eq rfl) <| .bind (c.int_blind _ 0) fun _ =>
    .ite (NativeCall.refuse_blind _ _) (.bind draw_blind fun _ => .pure_eq rfl)

theorem run_blind (f : MathFn) (c : NativeCall) : Blind moved (f.run c) (f.run c.moved) := by
  cases f with
  | abs => exact absOf_blind c
  | min | max =>
    refine .bind WorldM.getStore fun s => ?_
    rw [NativeCall.moved_args, operands_moved]
    exact extremeFrom_blind _ _ none
  | sqrt | floor | ceil | log => exact .bind (c.float_blind _ 0) fun _ => .pure_eq rfl
  | pow => exact .bind (c.float_blind _ 0) fun _ => .bind (c.float_blind _ 1) fun _ => .pure_eq rfl
  | round =>
    refine .bind (c.float_blind _ 0) fun x => ?_
    rw [NativeCall.moved_args, List.length_map]
    exact .ite (.bind (c.int_blind _ 1) fun _ => .pure_eq rfl)
      (.bind (.pure id _) fun _ => .pure_eq rfl)
  | sum =>
    refine .bind WorldM.getStore fun s => ?_
    rw [NativeCall.moved_args, operands_moved]
    exact sumOf_blind _
  | random => exact randomOf_blind c

end MathFn

theorem TimeFn.written_blind (millis : Int64) (layout : String) :
    Blind Answer.moved (TimeFn.written millis layout) (TimeFn.written millis layout) := by
  unfold TimeFn.written
  split
  · split <;> exact .pure_eq rfl
  · exact .throw _ _

theorem TimeFn.run_blind (f : TimeFn) (c : NativeCall) :
    Blind Answer.moved (f.run c) (f.run c.moved) := by
  refine .bind WorldM.getWorld fun w => ?_
  cases f with
  | now | unix => exact .pure_eq rfl
  | sleep => exact .bind (c.int_blind _ 0) fun _ => .pure_eq rfl
  | since => exact .bind (c.int_blind _ 0) fun _ => .pure_eq rfl
  | format =>
    refine .bind (c.int_blind _ 0) fun millis => ?_
    rw [NativeCall.moved_args, List.length_map]
    exact .ite (.bind (c.text_blind 1) (written_blind millis))
      (.bind (.pure id _) (written_blind millis))

theorem JsonFn.unmarshalled_blind (c : NativeCall) :
    Blind moved (unmarshalled c) (unmarshalled c.moved) := by
  refine .bind (c.text_blind 0) fun text => ?_
  dsimp only [id_eq]
  split
  · exact .throw _ _
  · rename_i json _
    refine .bind (WorldM.ofStoreM (ofJson_blind json)) fun v => ?_
    rw [c.arg?_moved]
    cases c.arg? 1 with
    | none => exact .pure _ v
    | some t =>
      cases t with
      | type t => exact WorldM.ofStoreM (v.coerce_blind t)
      | _ => exact NativeCall.refuseValue_blind _ _

theorem JsonFn.run_blind (f : JsonFn) (c : NativeCall) : Blind moved (f.run c) (f.run c.moved) := by
  cases f with
  | marshal =>
    simp only [run, c.arg_moved, Value.isTruthy_moved]
    exact .bind (WorldM.ofStoreM (toJson_blind _)) fun _ => .pure_eq rfl
  | unmarshal => exact unmarshalled_blind c

theorem StrconvFn.readOr_blind (text : String) (v : Option Value)
    (plain : v.map moved = v) : Blind moved (readOr text v) (readOr text v) := by
  cases v with
  | none => exact .throw _ _
  | some v => exact .pure_eq (Option.some.inj plain).symm

theorem StrconvFn.run_blind (f : StrconvFn) (c : NativeCall) :
    Blind moved (f.run c) (f.run c.moved) := by
  cases f with
  | atoi | atof =>
    refine .bind (c.text_blind 0) fun text => readOr_blind text _ ?_
    simp [Function.comp_def]
    rfl
  | itoa => exact .bind (c.int_blind _ 0) fun _ => .pure_eq rfl
  | ftoa =>
    refine .bind (c.float_blind _ 0) fun x => ?_
    rw [NativeCall.moved_args, List.length_map]
    exact .ite (.bind (c.int_blind _ 1) fun _ => .pure_eq rfl) (.pure_eq rfl)

theorem OsFn.run_blind (f : OsFn) (c : NativeCall) : Blind moved (f.run c) (f.run c.moved) := by
  cases f with
  | getenv =>
    exact .bind (c.text_blind 0) fun _ => .bind WorldM.getWorld fun _ => .pure_eq rfl
  | args => exact .bind WorldM.getWorld fun _ => NativeCall.texts_blind _
  | exit =>
    have leaves (code : Int64) : Blind moved
        (do World.exit code.toInt32; throw (.of .stop) : WorldM Value)
        (do World.exit code.toInt32; throw (.of .stop)) :=
      .bind (f := id) (fun _ => ⟨rfl, rfl⟩) fun _ => .throw _ _
    unfold run
    rw [NativeCall.moved_args, List.isEmpty_map]
    exact .ite (.bind (.pure id _) leaves) (.bind (c.int_blind _ 0) leaves)

namespace ProfileFn

theorem update_blind (f : Profiles → Profiles) : Blind id (update f) (update f) := by
  refine .bind (f := id) (fun _ => ⟨rfl, rfl⟩) fun _ => .bind WorldM.getWorld fun w => ?_
  rw [World.moved_profiles, World.moved_files]
  split
  · exact fun _ => ⟨rfl, rfl⟩
  · exact .throw _ _

theorem run_blind (f : ProfileFn) (c : NativeCall) : Blind moved (f.run c) (f.run c.moved) := by
  refine .bind (c.text_blind 0) fun key => ?_
  cases f with
  | get | has => exact .bind WorldM.getWorld fun _ => .pure_eq rfl
  | set => exact .bind (c.text_blind 1) fun _ => .bind (update_blind _) fun _ => .pure_eq rfl
  | delete =>
    exact .bind WorldM.getWorld fun _ => .bind (update_blind _) fun _ => .pure_eq rfl
  | keys => exact .bind WorldM.getWorld fun _ => NativeCall.texts_blind _

end ProfileFn

namespace UtilFn

theorem namesTo_moved (s : Store) (bound : Nat) (r : TableRef) :
    namesTo s.moved bound r = namesTo s bound r := by
  induction bound generalizing r with
  | zero => rfl
  | succ bound ih =>
    simp only [namesTo, Store.table_moved, Table.names_moved, Table.moved_parent, ih]
    rfl

theorem run_blind (f : UtilFn) (c : NativeCall) : Blind Answer.moved (f.run c) (f.run c.moved) := by
  cases f with
  | eval => exact .bind (c.text_blind 0) fun _ => .pure_eq rfl
  | symbols =>
    refine .bind WorldM.getStore fun s => .map ?_ fun _ => rfl
    have names : visibleFrom s.moved c.caller = visibleFrom s c.caller := by
      simp [visibleFrom, namesTo_moved]
    rw [NativeCall.moved_caller, names]
    exact NativeCall.texts_blind _

end UtilFn

/-! ## Methods -/

namespace Method

variable (c : NativeCall)

theorem groupOf_blind : Blind id (groupOf c) (groupOf c.moved) := by
  refine .bind c.receiverValue_blind fun v => ?_
  cases v with
  | waitGroup r => exact .pure id r
  | _ => exact NativeCall.wrongReceiver_blind id _

theorem mutexOf_blind : Blind id (mutexOf c) (mutexOf c.moved) := by
  refine .bind c.receiverValue_blind fun v => ?_
  cases v with
  | mutex r => exact .pure id r
  | _ => exact NativeCall.wrongReceiver_blind id _

theorem channelOf_blind : Blind id (channelOf c) (channelOf c.moved) := by
  refine .bind c.receiverValue_blind fun v => ?_
  cases v with
  | channel r => exact .pure id r
  | _ => exact NativeCall.wrongReceiver_blind id _

theorem faultOf_blind : Blind id (faultOf c) (faultOf c.moved) := by
  refine .bind c.receiverValue_blind fun v => ?_
  cases v with
  | error f => exact .pure id f
  | _ => exact NativeCall.wrongReceiver_blind id _

theorem addTo_blind (r : WaitGroupRef) (delta : Int) : Blind moved (addTo r delta) (addTo r delta) := by
  refine .bind StoreM.get_blind fun s => ?_
  have same : s.moved.waitGroup r = s.waitGroup r := rfl
  rw [same]
  cases counted? (s.waitGroup r) delta with
  | none => exact .throw _ _
  | some count => exact .bind (StoreM.modify_blind (fun _ => rfl) fun _ => rfl) fun _ => .pure_eq rfl

theorem release_blind (r : MutexRef) : Blind moved (release r) (release r) :=
  .bind StoreM.get_blind fun _ => .ite
    (.bind (StoreM.modify_blind (fun _ => rfl) fun _ => rfl) fun _ => .pure_eq rfl) (.throw _ _)

theorem closeChannel_blind (r : ChannelRef) : Blind moved (closeChannel r) (closeChannel r) := by
  refine .bind StoreM.get_blind fun s => ?_
  rw [Store.channel_moved]
  refine .ite (.throw _ _) (.bind (StoreM.modify_blind (fun s => ?_) fun _ => rfl) fun _ => .pure_eq rfl)
  exact s.modifyChannel_moved (f := fun c => { c with closed := true }) (fun _ => rfl) r

theorem offer_blind (r : ChannelRef) (message : Value) :
    Blind Answer.moved (offer r message) (offer r message.moved) := by
  refine .bind StoreM.get_blind fun s => ?_
  rw [Store.channel_moved]
  refine .bind (message.coerce_blind _) fun message => .bind StoreM.get_blind fun s => ?_
  rw [Store.channel_moved]
  refine .ite (.throw _ _) (.bind (StoreM.modify_blind (fun s => ?_) fun _ => rfl) fun _ => .pure_eq rfl)
  exact s.modifyChannel_moved (f := fun c => { c with handles := c.handles + 1 }) (fun _ => rfl) r

theorem run_blind (m : Method) : Blind Answer.moved (m.run c) (m.run c.moved) := by
  cases m with
  | add =>
    exact .bind (c.int_blind _ 0) fun _ => .bind (groupOf_blind c) fun r =>
      .map (WorldM.ofStoreM (addTo_blind r _)) fun _ => rfl
  | done =>
    exact .bind (groupOf_blind c) fun r => .map (WorldM.ofStoreM (addTo_blind r _)) fun _ => rfl
  | wait => exact .bind (groupOf_blind c) fun _ => .pure_eq rfl
  | lock => exact .bind (mutexOf_blind c) fun _ => .pure_eq rfl
  | unlock =>
    exact .bind (mutexOf_blind c) fun r => .map (WorldM.ofStoreM (release_blind r)) fun _ => rfl
  | send =>
    refine .bind (channelOf_blind c) fun r => ?_
    rw [c.arg_moved]
    exact WorldM.ofStoreM (offer_blind r _)
  | receive => exact .bind (channelOf_blind c) fun _ => .pure_eq rfl
  | close =>
    exact .bind (channelOf_blind c) fun r =>
      .map (WorldM.ofStoreM (closeChannel_blind r)) fun _ => rfl
  | len =>
    refine .bind (channelOf_blind c) fun r => .bind WorldM.getStore fun s => .pure_eq ?_
    simp only [id_eq, Store.channel_moved, ChannelObject.moved_buffer, List.length_map]
    rfl
  | message => exact .bind (faultOf_blind c) fun _ => .pure_eq rfl
  | unwrap =>
    refine .bind (faultOf_blind c) fun f => .pure_eq ?_
    simp only [id_eq, unwrapped]
    split <;> rfl

end Method

/-! ## Builtins at the root -/

namespace RootFn

variable (c : NativeCall)

theorem lengthOf_blind (v : Value) : Blind moved (lengthOf v) (lengthOf v.moved) := by
  refine .bind WorldM.getStore fun s => ?_
  rw [Value.length?_moved]
  split
  · exact .pure_eq rfl
  · exact NativeCall.refuseValue_blind _ v

theorem appended_blind : Blind moved (appended c) (appended c.moved) := by
  have grows (a : ArrayObject) : Blind moved
      (do
        let added ← (c.args.drop 1).mapM fun v => v.coerce a.element
        StoreM.array a.element (a.items ++ added.toArray) : WorldM Value)
      (do
        let added ← (c.moved.args.drop 1).mapM fun v => v.coerce a.moved.element
        StoreM.array a.moved.element (a.moved.items ++ added.toArray)) := by
    rw [NativeCall.moved_args, ← List.map_drop]
    have coerced (v : Value) := WorldM.ofStoreM (v.coerce_blind a.element)
    refine .bind (.listMapM (f := moved) coerced _) fun added => ?_
    rw [ArrayObject.moved_items, ← List.map_toArray, ← Array.map_append]
    exact WorldM.ofStoreM (StoreM.array_blind _ _)
  unfold appended
  rw [c.arg_moved]
  cases c.arg 0 with
  | array r =>
    refine .bind WorldM.getStore fun s => .bind (.pure_eq ?_) grows
    exact s.array_moved r
  | nil => exact .bind (.pure_eq (by simp [ArrayObject.moved])) grows
  | _ => exact .bind (NativeCall.refuseValue_blind _ _) grows

theorem deleted_blind : Blind moved (deleted c) (deleted c.moved) := by
  unfold deleted
  rw [c.arg_moved, c.arg_moved]
  cases c.arg 0 with
  | map r => exact .bind (WorldM.ofStoreM (r.delete_blind _)) fun _ => .pure_eq rfl
  | struct r =>
    refine .bind WorldM.getStore fun s => ?_
    rw [Value.display_moved]
    exact .bind (WorldM.ofStoreM (r.delete_blind _)) fun _ => .pure_eq rfl
  | _ => exact NativeCall.refuseValue_blind _ _

theorem instanceFields_blind (model : StructObject) (types : List (String × Ty)) :
    Blind (mapValues moved) (instanceFields model types) (instanceFields model.moved types) := by
  induction types with
  | nil => exact .pure_eq rfl
  | cons e rest ih =>
    have goesOn (v : Value) : Blind (mapValues moved)
        (do pure ((e.1, v) :: (← instanceFields model rest)) : StoreM (List (String × Value)))
        (do pure ((e.1, v.moved) :: (← instanceFields model.moved rest))) :=
      ih.bind fun _ => .pure_eq rfl
    unfold instanceFields
    rw [StructObject.moved_fields, Association.find?_mapValues]
    cases Association.find? e.1 model.fields with
    | none => exact .bind (Value.zero_blind _) goesOn
    | some v => exact .bind v.copy_blind goesOn

theorem copiedFields_blind (fields : List (String × Value)) :
    Blind (mapValues moved) (copiedFields fields) (copiedFields (mapValues moved fields)) := by
  induction fields with
  | nil => exact .pure_eq rfl
  | cons e rest ih =>
    unfold copiedFields
    rw [Association.mapValues_cons]
    dsimp only
    rw [Value.isCallable_moved]
    exact .ite ih (.bind e.2.copy_blind fun _ => ih.bind fun _ => .pure_eq rfl)

theorem newInstance_blind (r : StructRef) : Blind moved (newInstance r) (newInstance r) := by
  refine .bind StoreM.get_blind fun s => ?_
  rw [Store.struct_moved]
  have made (fields : List (String × Value)) := StoreM.struct_blind
    { typeName := (s.struct r).typeName, fieldTypes := (s.struct r).fieldTypes, fields := fields
      parent := some r }
  cases types : (s.struct r).fieldTypes with
  | none =>
    rw [types] at made
    simp only [StructObject.moved_fieldTypes, types]
    exact .bind (copiedFields_blind _) fun fields => made fields
  | some fieldTypes =>
    rw [types] at made
    simp only [StructObject.moved_fieldTypes, types]
    exact .bind (instanceFields_blind _ fieldTypes) fun fields => made fields

theorem newValue_blind (v : Value) : Blind moved (newValue v) (newValue v.moved) := by
  cases v with
  | type t => exact Value.zero_blind t
  | struct r => exact newInstance_blind r
  | _ => exact Value.copy_blind _

theorem zeros_blind (t : Ty) (count : Nat) :
    Blind (Array.map moved) (zeros t count #[]) (zeros t count #[]) := by
  have more (done : Array Value) :
      Blind (Array.map moved) (zeros t count done) (zeros t count (done.map moved)) := by
    induction count generalizing done with
    | zero => exact .pure _ _
    | succ count ih =>
      refine .bind (Value.zero_blind t) fun v => ?_
      rw [← Array.map_push]
      exact ih _
  simpa using more #[]

theorem made_blind : Blind moved (made c) (made c.moved) := by
  unfold made
  rw [c.arg_moved]
  cases c.arg 0 with
  | type t =>
    dsimp only [Value.moved]
    rw [NativeCall.moved_args, List.length_map]
    refine .ite (.bind (c.int_blind _ 1) fun size => ?_) (.bind (.pure id 0) fun size => ?_)
    all_goals
      refine .ite (.throw _ _) ?_
      split
      · refine .bind (WorldM.ofStoreM (zeros_blind _ _)) fun items => ?_
        exact WorldM.ofStoreM (StoreM.array_blind _ items)
      · exact WorldM.ofStoreM (StoreM.map_blind { keyType := _, valueType := _ })
      · exact WorldM.ofStoreM (StoreM.channel_blind _ _)
      · exact WorldM.ofStoreM (Value.zero_blind t)
  | _ => exact NativeCall.refuseValue_blind _ _

theorem position_blind : Blind moved (position c) (position c.moved) := by
  refine .bind WorldM.getStore fun s => ?_
  rw [c.arg_moved, c.arg_moved]
  cases c.arg 0 with
  | string text =>
    refine .pure_eq ?_
    rw [Value.display_moved]
    rfl
  | array r =>
    refine .pure_eq ?_
    simp only [Store.array_moved, ArrayObject.moved_items, Array.findIdx?_map,
      Function.comp_def, Value.equal_moved]
    rfl
  | map r =>
    exact .bind (WorldM.ofStoreM (r.contains_blind _)) fun found => .pure_eq rfl
  | _ => exact NativeCall.refuseValue_blind _ _

/-! ### Sorting -/

theorem measured_moved (s : Store) (a b : Value) :
    (if a.moved.kind.isNumeric && b.moved.kind.isNumeric then
      match a.moved.asFloat?, b.moved.asFloat? with
      | some x, some y => !(y < x)
      | _, _ => true
    else !(b.moved.display s.moved < a.moved.display s.moved)) =
      if a.kind.isNumeric && b.kind.isNumeric then
        match a.asFloat?, b.asFloat? with
        | some x, some y => !(y < x)
        | _, _ => true
      else !(b.display s < a.display s) := by
  simp only [Value.kind_moved, Value.asFloat?_moved, Value.display_moved]

theorem inOrder_moved (s : Store) (a b : Value) :
    inOrder s.moved a.moved b.moved = inOrder s a b := by
  have same := measured_moved s a b
  cases a with
  | string x =>
    cases b with
    | string y => rfl
    | _ => exact same
  | _ => exact same

theorem insertReversed_moved {le le' : Value → Value → Bool}
    (h : ∀ a b, le' a.moved b.moved = le a b) (v : Value) (items : List Value) :
    insertReversed le' v.moved (items.map moved) = (insertReversed le v items).map moved := by
  induction items with
  | nil => rfl
  | cons x rest ih =>
    simp only [List.map_cons, insertReversed, h, ih]
    split <;> rfl

theorem insertionSort_moved {le le' : Value → Value → Bool}
    (h : ∀ a b, le' a.moved b.moved = le a b) (items : List Value) :
    insertionSort le' (items.map moved) = (insertionSort le items).map moved := by
  have sorted (done : List Value) :
      (items.map moved).foldl (fun done v => insertReversed le' v done) (done.map moved) =
        (items.foldl (fun done v => insertReversed le v done) done).map moved := by
    induction items generalizing done with
    | nil => rfl
    | cons v rest ih => simp only [List.map_cons, List.foldl_cons, insertReversed_moved h, ih]
  rw [insertionSort, insertionSort, List.map_reverse]
  exact congrArg List.reverse (sorted [])

theorem sortItems_moved (s : Store) (items : List Value) :
    sortItems s.moved (items.map moved) = (sortItems s items).map moved := by
  unfold sortItems
  rw [List.length_map]
  split
  · exact insertionSort_moved (inOrder_moved s) items
  · exact (List.map_mergeSort fun a _ b _ => (inOrder_moved s a b).symm).symm

theorem sorted_blind : Blind Answer.moved (sorted c) (sorted c.moved) := by
  unfold sorted
  rw [c.arg_moved]
  cases c.arg 0 with
  | array r =>
    refine .bind WorldM.getStore fun s => ?_
    rw [Store.array_moved, c.arg?_moved]
    cases c.arg? 1 with
    | none =>
      refine .bind (f := moved) ?_ fun _ => .pure_eq rfl
      simp only [ArrayObject.moved_items, Array.toList_map, sortItems_moved]
      rw [← List.map_toArray]
      exact WorldM.ofStoreM (StoreM.array_blind _ _)
    | some less =>
      refine .bind (f := id) ?_ fun scope => .pure_eq rfl
      rintro ⟨w, s⟩
      exact ⟨congrArg (fun p => (Except.ok p.1, w.moved, p.2)) (s.newBoundary_moved c.caller "sort"),
        rfl⟩
  | _ => exact NativeCall.refuseValue_blind _ _

/-! ### Functions and ranges -/

theorem launched_blind : Blind moved (launched c) (launched c.moved) := by
  unfold launched
  rw [c.arg_moved]
  dsimp only
  rw [Value.isCallable_moved]
  refine .ite (.bind WorldM.getStore fun s => ?_) (.bind (f := id) ?_ fun _ => .pure_eq rfl)
  · rw [Value.typeName_moved]
    exact .throw _ _
  · rintro ⟨w, s⟩
    refine ⟨?_, rfl⟩
    simp [Stateful.run, Relocatable.moved, World.launch, World.launching_moved, Launch.moved,
      Except.map]

theorem rangeKeysOf_blind (v : Value) : Blind moved (rangeKeysOf v) (rangeKeysOf v.moved) := by
  refine .bind WorldM.getStore fun s => ?_
  have built (keys : Array Value) : Blind moved
      (liftM (StoreM.array .interface keys) : WorldM Value)
      (liftM (StoreM.array .interface (keys.map moved))) :=
    WorldM.ofStoreM (StoreM.array_blind _ keys)
  have counted (n : Nat) : indices n = (indices n).map moved := by
    simp only [indices, Array.map_map]
    rfl
  have other : Blind moved
      (if v.kind.isInteger then do
          let keys ← pure (indices ((v.asInt?.getD 0).toInt.toNat))
          StoreM.array .interface keys
        else do
          let keys ← throw (.about .invalidType (v.typeName s))
          StoreM.array .interface keys : WorldM Value)
      (if v.moved.kind.isInteger then do
          let keys ← pure (indices ((v.moved.asInt?.getD 0).toInt.toNat))
          StoreM.array .interface keys
        else do
          let keys ← throw (.about .invalidType (v.moved.typeName s.moved))
          StoreM.array .interface keys) := by
    rw [Value.kind_moved, Value.asInt?_moved, Value.typeName_moved]
    exact .ite (.bind (.pure_eq (counted _)) built) (.bind (.throw _ _) built)
  cases v with
  | array r => exact .bind (.pure_eq (by simp [← counted])) built
  | string text => exact .bind (.pure_eq (counted _)) built
  | map r => exact .bind (.pure_eq (by simp [MapObject.keys, Function.comp_def, MapKey.moved_toValue])) built
  | struct r => exact .bind (.pure_eq (by simp [Function.comp_def])) built
  | nil => exact .bind (.pure_eq Array.map_empty.symm) built
  | _ => exact other

theorem setAtRoot_blind : Blind moved (setAtRoot c) (setAtRoot c.moved) := by
  refine .bind WorldM.getStore fun s => .bind WorldM.getWorld fun w => ?_
  rw [c.arg_moved, c.arg_moved, Value.display_moved]
  refine .bind (f := id) ?_ fun _ => .pure_eq rfl
  rintro ⟨w', s'⟩
  exact ⟨congrArg (fun s => (Except.ok (), w'.moved, s)) (w.root.setAlways_moved _ _ s'), rfl⟩

theorem run_blind (f : RootFn) : Blind Answer.moved (f.run c) (f.run c.moved) := by
  cases f with
  | len =>
    simp only [run, c.arg_moved]
    exact .map (lengthOf_blind _) fun _ => rfl
  | append => exact .map (appended_blind c) fun _ => rfl
  | delete => exact .map (deleted_blind c) fun _ => rfl
  | new =>
    simp only [run, c.arg_moved]
    exact .map (WorldM.ofStoreM (newValue_blind _)) fun _ => rfl
  | make => exact .map (made_blind c) fun _ => rfl
  | typeof =>
    refine .bind WorldM.getStore fun s => .pure_eq ?_
    rw [c.arg_moved, Value.typeOf_moved]
    rfl
  | index => exact .map (position_blind c) fun _ => rfl
  | close =>
    simp only [run, c.arg_moved]
    cases c.arg 0 with
    | channel r => exact .map (WorldM.ofStoreM (Method.closeChannel_blind r)) fun _ => rfl
    | _ => exact NativeCall.refuseValue_blind _ _
  | sort => exact sorted_blind c
  | go => exact .map (launched_blind c) fun _ => rfl
  | rangeKeys =>
    simp only [run, c.arg_moved]
    exact .map (rangeKeysOf_blind _) fun _ => rfl
  | setGlobal => exact .map (setAtRoot_blind c) fun _ => rfl

end RootFn

/-! ## Every builtin -/

/-- A builtin does not see the addresses that frames return to. -/
theorem Native.run_blind (f : Native) (c : NativeCall) :
    Blind Answer.moved (f.run c) (f.run c.moved) := by
  cases f with
  | root f => exact RootFn.run_blind c f
  | strings f => exact .map (f.run_blind c) fun _ => rfl
  | math f => exact .map (f.run_blind c) fun _ => rfl
  | time f => exact f.run_blind c
  | profile f => exact .map (f.run_blind c) fun _ => rfl
  | json f => exact .map (f.run_blind c) fun _ => rfl
  | newError => exact .bind (c.text_blind 0) fun _ => .pure_eq rfl
  | strconv f => exact .map (f.run_blind c) fun _ => rfl
  | os f => exact .map (f.run_blind c) fun _ => rfl
  | util f => exact f.run_blind c
  | method m _ => exact Method.run_blind c m

end StackScript
