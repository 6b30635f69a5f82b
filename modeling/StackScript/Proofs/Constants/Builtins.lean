import StackScript.Proofs.Constants.Holding
import StackScript.Builtin.Table

/-!
# Builtins keep constants

No builtin binds a name, but for the one that binds at the root. Each is a chain of steps that
read, make objects or change them.

Main statements: `RootFn.setAtRoot_holding` (a name at the root is bound whatever it is) and
`Native.run_holding`.
-/
namespace StackScript

open StoreM (Sparing)
open WorldM (getStore_holding getWorld_holding holding_of_sparing)

variable {kept : String → Prop} {α : Type} (c : NativeCall)

/-! ## Arguments -/

namespace NativeCall

theorem refuse_holding (name : String) : Holding kept (refuse name : WorldM α) := .throw _

theorem refuseValue_holding (v : Value) : Holding kept (refuseValue v : WorldM α) :=
  .bind getStore_holding fun _ => .throw _

theorem wrongReceiver_holding (v : Value) : Holding kept (wrongReceiver v : WorldM α) :=
  .bind getStore_holding fun _ => .throw _

theorem int_holding (name : String) (index : Nat) : Holding kept (c.int name index) := by
  unfold int
  split
  · exact .pure _
  · exact refuse_holding name

theorem float_holding (name : String) (index : Nat) : Holding kept (c.float name index) := by
  unfold float
  split
  · exact .pure _
  · exact refuse_holding name

theorem text_holding (index : Nat) : Holding kept (c.text index) := by
  unfold text
  split
  · exact .bind getStore_holding fun _ => .pure _
  · exact .pure _

theorem receiverValue_holding : Holding kept c.receiverValue := by
  unfold receiverValue
  split
  · exact .pure _
  · exact .throw _

theorem texts_holding (items : List String) : Holding kept (texts items) :=
  holding_of_sparing (.array _ _)

end NativeCall

/-! ## Packages -/

theorem StringsFn.renderArg_holding : Holding kept (renderArg c) := by
  unfold renderArg
  dsimp only
  split
  · exact holding_of_sparing (Template.render_sparing _ _)
  · split
    · exact holding_of_sparing (Template.render_sparing _ _)
    · exact .throw _
  · exact NativeCall.refuseValue_holding _

theorem StringsFn.joined_holding : Holding kept (joined c) := by
  refine .bind getStore_holding fun s => ?_
  split
  · exact .bind (c.text_holding 1) fun _ => .pure _
  · exact NativeCall.refuseValue_holding _

theorem StringsFn.run_holding (f : StringsFn) : Holding kept (f.run c) := by
  cases f with
  | upper | lower | length => exact .bind (c.text_holding 0) fun _ => .pure _
  | trim =>
    refine .bind (c.text_holding 0) fun text => ?_
    split
    · exact .bind getStore_holding fun _ => .pure _
    · exact .pure _
  | left | right =>
    exact .bind (c.text_holding 0) fun _ => .bind (c.int_holding _ 1) fun _ => .pure _
  | substring =>
    exact .bind (c.text_holding 0) fun _ => .bind (c.int_holding _ 1) fun _ =>
      .ite (.bind (.map (c.int_holding _ 2) _) fun _ => .pure _) (.bind (.pure _) fun _ => .pure _)
  | index | contains =>
    exact .bind (c.text_holding 0) fun _ => .bind (c.text_holding 1) fun _ => .pure _
  | split =>
    exact .bind (c.text_holding 0) fun _ =>
      .ite (.bind (c.text_holding 1) fun _ => NativeCall.texts_holding _)
        (.bind (.pure _) fun _ => NativeCall.texts_holding _)
  | join => exact .map (joined_holding c) _
  | format => exact .bind getStore_holding fun _ => .bind (c.text_holding 0) fun _ => .pure _
  | template => exact .map (renderArg_holding c) _
  | pattern =>
    refine .bind (c.text_holding 1) fun source => ?_
    split
    · exact .bind (c.text_holding 0) fun _ => .pure _
    · exact .throw _

namespace MathFn

theorem numberOf_holding (v : Value) : Holding kept (numberOf v) := by
  unfold numberOf
  split
  · exact .pure _
  · exact NativeCall.refuseValue_holding v

theorem extremeFrom_holding (better : Float → Float → Bool) (values : List Value)
    (best : Option (Value × Float)) : Holding kept (extremeFrom better best values) := by
  induction values generalizing best with
  | nil =>
    cases best with
    | none => exact .throw _
    | some b => exact .pure _
  | cons v rest ih =>
    cases best with
    | none => exact .bind (numberOf_holding v) fun _ => ih _
    | some b => exact .bind (numberOf_holding v) fun _ => .ite (ih _) (ih _)

theorem sumOf_holding (values : List Value) : Holding kept (sumOf values) :=
  .ite (.pure _) (.bind (.listMapM numberOf_holding values) fun _ => .pure _)

theorem absOf_holding : Holding kept (absOf c) := by
  unfold absOf
  split
  · exact .pure _
  · exact .pure _
  · exact .ite (.bind (c.int_holding _ 0) fun _ => .pure _) (NativeCall.refuseValue_holding _)

theorem draw_holding : Holding kept World.draw := by
  have draws (w : World) (s : Store) : ∃ bits state,
      World.draw w s = ((.ok bits, { w with entropy := state }), s) := by
    unfold World.draw
    exact ⟨_, _, rfl⟩
  refine WorldM.changing_holding (fun w s => ?_) fun w s => ?_
  all_goals
    obtain ⟨bits, state, drawn⟩ := draws w s
    rw [drawn]
  exact .of_same rfl rfl rfl rfl

theorem randomOf_holding : Holding kept (randomOf c) :=
  .ite (.bind draw_holding fun _ => .pure _) <| .bind (c.int_holding _ 0) fun _ =>
    .ite (NativeCall.refuse_holding _) (.bind draw_holding fun _ => .pure _)

theorem run_holding (f : MathFn) : Holding kept (f.run c) := by
  cases f with
  | abs => exact absOf_holding c
  | min | max => exact .bind getStore_holding fun _ => extremeFrom_holding _ _ none
  | sqrt | floor | ceil | log => exact .bind (c.float_holding _ 0) fun _ => .pure _
  | pow => exact .bind (c.float_holding _ 0) fun _ => .bind (c.float_holding _ 1) fun _ => .pure _
  | round =>
    exact .bind (c.float_holding _ 0) fun _ =>
      .ite (.bind (c.int_holding _ 1) fun _ => .pure _) (.bind (.pure _) fun _ => .pure _)
  | sum => exact .bind getStore_holding fun _ => sumOf_holding _
  | random => exact randomOf_holding c

end MathFn

theorem TimeFn.written_holding (millis : Int64) (layout : String) : Holding kept
    (TimeFn.written millis layout) := by
  unfold TimeFn.written
  split
  · split <;> exact .pure _
  · exact .throw _

theorem TimeFn.formatted_holding : Holding kept (formatted c) :=
  .bind (c.int_holding _ 0) fun millis =>
    .ite (.bind (c.text_holding 1) (written_holding millis)) (.bind (.pure _) (written_holding millis))

theorem TimeFn.run_holding (f : TimeFn) : Holding kept (f.run c) := by
  refine .bind getWorld_holding fun w => ?_
  cases f with
  | now | unix => exact .pure _
  | sleep | since => exact .bind (c.int_holding _ 0) fun _ => .pure _
  | format => exact formatted_holding c

namespace JsonFn

theorem membersOf_sparing {part : Value → StoreM JsonValue} (hp : ∀ v, Sparing (part v))
    (fields : List (String × Value)) : Sparing (membersOf part fields) :=
  .bind (.listMapM (fun (_, v) => .bind (hp v) fun _ => .pure _) fields) fun _ => .pure _

theorem fractionOf_sparing (x : Float) : Sparing (fractionOf x) := .ite (.pure _) (.throw rfl)

theorem toJsonTo_sparing (depth : Nat) (v : Value) : Sparing (toJsonTo depth v) := by
  induction depth generalizing v with
  | zero => exact .pure _
  | succ depth ih =>
    refine .bind .get fun s => ?_
    split
    · exact .pure _
    · exact .pure _
    · exact fractionOf_sparing _
    · exact fractionOf_sparing _
    · exact .pure _
    · exact .bind (.listMapM ih _) fun _ => .pure _
    · exact membersOf_sparing ih _
    · exact membersOf_sparing ih _
    · exact .pure _
    · exact .throw rfl
    · exact .ite (.pure _) (.pure _)

mutual
theorem ofJson_sparing : (json : JsonValue) → Sparing (ofJson json)
  | .null => by rw [ofJson]; exact .pure _
  | .bool _ => by rw [ofJson]; exact .pure _
  | .whole _ => by rw [ofJson]; exact .ite (.pure _) (.pure _)
  | .fraction _ => by rw [ofJson]; exact .pure _
  | .string _ => by rw [ofJson]; exact .pure _
  | .array items => by rw [ofJson]; exact .bind (ofJsonItems_sparing items) fun _ => .array _ _
  | .object members => by
    rw [ofJson]; exact .bind (ofJsonMembers_sparing members) fun _ => .struct _
theorem ofJsonItems_sparing : (items : List JsonValue) → Sparing (ofJsonItems items)
  | [] => by rw [ofJsonItems]; exact .pure _
  | item :: rest => by
    rw [ofJsonItems]
    exact .bind (ofJson_sparing item) fun _ => .bind (ofJsonItems_sparing rest) fun _ => .pure _
theorem ofJsonMembers_sparing : (members : List (String × JsonValue)) →
    Sparing (ofJsonMembers members)
  | [] => by rw [ofJsonMembers]; exact .pure _
  | (_, item) :: rest => by
    rw [ofJsonMembers]
    exact .bind (ofJson_sparing item) fun _ => .bind (ofJsonMembers_sparing rest) fun _ => .pure _
end

theorem unmarshalled_holding : Holding kept (unmarshalled c) := by
  refine .bind (c.text_holding 0) fun text => ?_
  split
  · exact .throw _
  · refine .bind (holding_of_sparing (ofJson_sparing _)) fun v => ?_
    split
    · exact holding_of_sparing (.coerce v _)
    · exact NativeCall.refuseValue_holding _
    · exact .pure _

theorem run_holding (f : JsonFn) : Holding kept (f.run c) := by
  cases f with
  | marshal =>
    exact .bind (holding_of_sparing (.bind .get fun _ => toJsonTo_sparing _ _)) fun _ => .pure _
  | unmarshal => exact unmarshalled_holding c

end JsonFn

theorem StrconvFn.readOr_holding (text : String) (v : Option Value) :
    Holding kept (readOr text v) := by
  cases v with
  | none => exact .throw _
  | some v => exact .pure _

theorem StrconvFn.run_holding (f : StrconvFn) : Holding kept (f.run c) := by
  cases f with
  | atoi | atof => exact .bind (c.text_holding 0) fun _ => readOr_holding _ _
  | itoa => exact .bind (c.int_holding _ 0) fun _ => .pure _
  | ftoa =>
    exact .bind (c.float_holding _ 0) fun _ =>
      .ite (.bind (c.int_holding _ 1) fun _ => .pure _) (.pure _)

theorem OsFn.run_holding (f : OsFn) : Holding kept (f.run c) := by
  cases f with
  | getenv => exact .bind (c.text_holding 0) fun _ => .bind getWorld_holding fun _ => .pure _
  | args => exact .bind getWorld_holding fun _ => NativeCall.texts_holding _
  | exit =>
    have leaves (code : Int64) : Holding kept
        (do World.exit code.toInt32; throw (.of .stop) : WorldM Value) :=
      .bind (WorldM.changing_holding (fun _ _ => .of_same rfl rfl rfl rfl) fun _ _ => rfl)
        fun _ => .throw _
    exact .ite (.bind (.pure _) leaves) (.bind (c.int_holding _ 0) leaves)

theorem ProfileFn.update_holding (f : Profiles → Profiles) : Holding kept (update f) := by
  have changes (f : World → World) (launches : ∀ w, w.Launches (f w)) :
      Holding kept (modifyThe World f : WorldM Unit) :=
    WorldM.changing_holding (fun w _ => launches w) fun _ _ => rfl
  refine .bind (changes _ fun _ => .of_same rfl rfl rfl rfl) fun _ => .bind getWorld_holding fun w => ?_
  split
  · exact changes _ fun _ => .of_same rfl rfl rfl rfl
  · exact .throw _

theorem ProfileFn.run_holding (f : ProfileFn) : Holding kept (f.run c) := by
  refine .bind (c.text_holding 0) fun key => ?_
  cases f with
  | get | has => exact .bind getWorld_holding fun _ => .pure _
  | set => exact .bind (c.text_holding 1) fun _ => .bind (update_holding _) fun _ => .pure _
  | delete => exact .bind getWorld_holding fun _ => .bind (update_holding _) fun _ => .pure _
  | keys => exact .bind getWorld_holding fun _ => NativeCall.texts_holding _

theorem UtilFn.run_holding (f : UtilFn) : Holding kept (f.run c) := by
  cases f with
  | eval => exact .bind (c.text_holding 0) fun _ => .pure _
  | symbols => exact .bind getStore_holding fun _ => .map (NativeCall.texts_holding _) _

/-! ## Methods -/

namespace Method

theorem groupOf_holding : Holding kept (groupOf c) := by
  refine .bind c.receiverValue_holding fun v => ?_
  split
  · exact .pure _
  · exact NativeCall.wrongReceiver_holding _

theorem mutexOf_holding : Holding kept (mutexOf c) := by
  refine .bind c.receiverValue_holding fun v => ?_
  split
  · exact .pure _
  · exact NativeCall.wrongReceiver_holding _

theorem channelOf_holding : Holding kept (channelOf c) := by
  refine .bind c.receiverValue_holding fun v => ?_
  split
  · exact .pure _
  · exact NativeCall.wrongReceiver_holding _

theorem faultOf_holding : Holding kept (faultOf c) := by
  refine .bind c.receiverValue_holding fun v => ?_
  split
  · exact .pure _
  · exact NativeCall.wrongReceiver_holding _

theorem addTo_sparing (r : WaitGroupRef) (delta : Int) : Sparing (addTo r delta) := by
  refine .bind .get fun _ => ?_
  split
  · exact .throw rfl
  · exact .bind (.changing (fun _ => rfl) fun _ => rfl) fun _ => .pure _

theorem release_sparing (r : MutexRef) : Sparing (release r) :=
  .bind .get fun _ => .ite (.bind (.changing (fun _ => rfl) fun _ => rfl) fun _ => .pure _)
    (.throw rfl)

theorem closeChannel_sparing (r : ChannelRef) : Sparing (closeChannel r) :=
  .bind .get fun _ => .ite (.throw rfl) <|
    .bind (.changing (fun _ => rfl) fun _ => rfl) fun _ => .pure _

theorem offer_sparing (r : ChannelRef) (message : Value) : Sparing (offer r message) :=
  .bind .get fun _ => .bind (.coerce message _) fun _ => .bind .get fun _ => .ite (.throw rfl) <|
    .bind (.changing (fun _ => rfl) fun _ => rfl) fun _ => .pure _

theorem run_holding (m : Method) : Holding kept (m.run c) := by
  cases m with
  | add =>
    exact .bind (c.int_holding _ 0) fun _ => .bind (groupOf_holding c) fun _ =>
      .map (holding_of_sparing (addTo_sparing _ _)) _
  | done =>
    exact .bind (groupOf_holding c) fun _ => .map (holding_of_sparing (addTo_sparing _ _)) _
  | wait => exact .bind (groupOf_holding c) fun _ => .pure _
  | lock => exact .bind (mutexOf_holding c) fun _ => .pure _
  | unlock =>
    exact .bind (mutexOf_holding c) fun _ => .map (holding_of_sparing (release_sparing _)) _
  | send => exact .bind (channelOf_holding c) fun _ => holding_of_sparing (offer_sparing _ _)
  | receive => exact .bind (channelOf_holding c) fun _ => .pure _
  | close =>
    exact .bind (channelOf_holding c) fun _ => .map (holding_of_sparing (closeChannel_sparing _)) _
  | len => exact .bind (channelOf_holding c) fun _ => .bind getStore_holding fun _ => .pure _
  | message | unwrap => exact .bind (faultOf_holding c) fun _ => .pure _

end Method

/-! ## Builtins at the root -/

namespace RootFn

theorem lengthOf_holding (v : Value) : Holding kept (lengthOf v) := by
  refine .bind getStore_holding fun s => ?_
  split
  · exact .pure _
  · exact NativeCall.refuseValue_holding v

theorem appended_holding : Holding kept (appended c) := by
  have grows (a : ArrayObject) : Holding kept
      (do
        let added ← (c.args.drop 1).mapM fun v => v.coerce a.element
        StoreM.array a.element (a.items ++ added.toArray) : WorldM Value) :=
    .bind (.listMapM (fun v => holding_of_sparing (.coerce v _)) _) fun _ =>
      holding_of_sparing (.array _ _)
  unfold appended
  split
  · exact .bind getStore_holding fun _ => .bind (.pure _) grows
  · exact .bind (.pure _) grows
  · exact .bind (NativeCall.refuseValue_holding _) grows

theorem deleted_holding : Holding kept (deleted c) := by
  unfold deleted
  split
  · exact .bind (holding_of_sparing (MapRef.delete_sparing _ _)) fun _ => .pure _
  · exact .bind getStore_holding fun _ =>
      .bind (holding_of_sparing (StructRef.delete_sparing _ _)) fun _ => .pure _
  · exact NativeCall.refuseValue_holding _

theorem instanceFields_sparing (model : StructObject) (types : List (String × Ty)) :
    Sparing (instanceFields model types) := by
  induction types with
  | nil => exact .pure _
  | cons e rest ih =>
    unfold instanceFields
    split
    · exact .bind (.copy _) fun _ => .bind ih fun _ => .pure _
    · exact .bind (.zero _) fun _ => .bind ih fun _ => .pure _

theorem copiedFields_sparing (fields : List (String × Value)) : Sparing (copiedFields fields) := by
  induction fields with
  | nil => exact .pure _
  | cons e rest ih => exact .ite ih (.bind (.copy _) fun _ => .bind ih fun _ => .pure _)

theorem newInstance_sparing (r : StructRef) : Sparing (newInstance r) := by
  refine .bind .get fun s => ?_
  dsimp only
  split
  · exact .bind (instanceFields_sparing _ _) fun _ => .struct _
  · exact .bind (copiedFields_sparing _) fun _ => .struct _

theorem newValue_sparing (v : Value) : Sparing (newValue v) := by
  unfold newValue
  split
  · exact .zero _
  · exact newInstance_sparing _
  · exact .copy v

theorem zeros_sparing (t : Ty) (count : Nat) (done : Array Value) :
    Sparing (zeros t count done) := by
  induction count generalizing done with
  | zero => exact .pure _
  | succ count ih => exact .bind (.zero t) fun _ => ih _

theorem made_holding : Holding kept (made c) := by
  unfold made
  split
  · refine .ite (.bind (c.int_holding _ 1) fun size => ?_) (.bind (.pure _) fun size => ?_)
    all_goals
      refine .ite (.throw _) ?_
      dsimp only
      split
      · exact .bind (holding_of_sparing (zeros_sparing _ _ _)) fun _ =>
          holding_of_sparing (.array _ _)
      · exact holding_of_sparing (.newMap _)
      · exact holding_of_sparing (.channel _ _)
      · exact holding_of_sparing (.zero _)
  · exact NativeCall.refuseValue_holding _

theorem position_holding : Holding kept (position c) := by
  refine .bind getStore_holding fun s => ?_
  dsimp only
  split
  · exact .pure _
  · exact .pure _
  · exact .bind (holding_of_sparing (MapRef.contains_sparing _ _)) fun _ => .pure _
  · exact NativeCall.refuseValue_holding _

/-- A sort by a comparison adds a table for its names. -/
theorem sorted_holding : Holding kept (sorted c) := by
  unfold sorted
  split
  · refine .bind getStore_holding fun s => ?_
    dsimp only
    split
    · exact .bind (holding_of_sparing (.array _ _)) fun _ => .pure _
    · exact .bind (fun (w, s) => ⟨.refl w, .of_spares (.newTable s _)⟩) fun _ => .pure _
  · exact NativeCall.refuseValue_holding _

theorem launched_holding : Holding kept (launched c) :=
  .ite (.bind getStore_holding fun _ => .throw _)
    (.bind (WorldM.changing_holding (fun w _ => .launching w _) fun _ _ => rfl) fun _ => .pure _)

theorem rangeKeysOf_holding (v : Value) : Holding kept (rangeKeysOf v) := by
  have built (keys : Array Value) :
      Holding kept (liftM (StoreM.array .interface keys) : WorldM Value) :=
    holding_of_sparing (.array _ keys)
  refine .bind getStore_holding fun s => ?_
  dsimp only
  split
  · exact .bind (.pure _) built
  · exact .bind (.pure _) built
  · exact .bind (.pure _) built
  · exact .bind (.pure _) built
  · exact .bind (.pure _) built
  · exact .ite (.bind (.pure _) built) (.bind (.throw _) built)

/-- A name at the root is bound whatever it is. -/
theorem setAtRoot_holding : Holding kept (setAtRoot c) := by
  rintro ⟨w, s⟩
  exact ⟨.refl w, .setAlways (.inl rfl) _⟩

theorem run_holding (f : RootFn) : Holding kept (f.run c) := by
  cases f with
  | len => exact .map (lengthOf_holding _) _
  | append => exact .map (appended_holding c) _
  | delete => exact .map (deleted_holding c) _
  | new => exact .map (holding_of_sparing (newValue_sparing _)) _
  | make => exact .map (made_holding c) _
  | typeof => exact .bind getStore_holding fun _ => .pure _
  | index => exact .map (position_holding c) _
  | close =>
    unfold run
    dsimp only
    split
    · exact .map (holding_of_sparing (Method.closeChannel_sparing _)) _
    · exact NativeCall.refuseValue_holding _
  | sort => exact sorted_holding c
  | go => exact .map (launched_holding c) _
  | rangeKeys => exact .map (rangeKeysOf_holding _) _
  | setGlobal => exact .map (setAtRoot_holding c) _

end RootFn

/-! ## Every builtin -/

/-- A builtin keeps every constant below the root. -/
theorem Native.run_holding (f : Native) : Holding kept (f.run c) := by
  cases f with
  | root f => exact RootFn.run_holding c f
  | strings f => exact .map (f.run_holding c) _
  | math f => exact .map (MathFn.run_holding c f) _
  | time f => exact f.run_holding c
  | profile f => exact .map (f.run_holding c) _
  | json f => exact .map (JsonFn.run_holding c f) _
  | newError => exact .bind (c.text_holding 0) fun _ => .pure _
  | strconv f => exact .map (f.run_holding c) _
  | os f => exact .map (f.run_holding c) _
  | util f => exact f.run_holding c
  | method m _ => exact Method.run_holding c m

end StackScript
