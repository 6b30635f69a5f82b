import StackScript.Proofs.Debugging.Objects
import StackScript.Builtin.Table

/-!
# Builtins are calm

A builtin that is given ordinary values answers with one, whatever it is; what it launches is given
ordinary values, and it raises no signal and links no structs.

Main statement: `Native.run_calm`.
-/
namespace StackScript

/-! ## Answers -/

/-- A message that is waited with is an ordinary value. -/
def Wait.Ordinary (n : Nat) : Wait → Prop
  | .send _ message => message.Ordinary n
  | _ => True

/-- All that is sorted, and what it is sorted by, is ordinary. -/
structure Sorting.Clear (n : Nat) (o : Sorting) : Prop where
  less : o.less.Ordinary n
  items : ∀ v ∈ o.items, v.Ordinary n

/-- Every value of the answer is ordinary. -/
def Answer.Ordinary (n : Nat) : Answer → Prop
  | .value v => v.Ordinary n
  | .wait w => w.Ordinary n
  | .sort o => o.Clear n
  | .evaluate _ => True

/-- All that a builtin answers is ordinary, and it does not wait if it returns its errors. -/
structure Native.Answers (f : Native) (n : Nat) (answer : Answer) : Prop where
  ordinary : answer.Ordinary n
  prompt : ∀ wait, answer = .wait wait → f.returnsError = false

/-- The arguments and the receiver are ordinary. -/
structure NativeCall.Clear (n : Nat) (c : NativeCall) : Prop where
  args : ∀ v ∈ c.args, v.Ordinary n
  receiver : ∀ v ∈ c.receiver, v.Ordinary n

section

variable {n n' : Nat}

theorem Wait.Ordinary.mono {wait : Wait} (h : wait.Ordinary n) (le : n ≤ n') : wait.Ordinary n' := by
  cases wait with
  | send ch message => exact Value.Ordinary.mono h le
  | _ => trivial

theorem Sorting.Clear.mono {o : Sorting} (h : o.Clear n) (le : n ≤ n') : o.Clear n' :=
  ⟨h.less.mono le, fun v mem => (h.items v mem).mono le⟩

theorem Answer.Ordinary.mono {answer : Answer} (h : answer.Ordinary n) (le : n ≤ n') :
    answer.Ordinary n' := by
  cases answer with
  | value v => exact Value.Ordinary.mono h le
  | wait w => exact Wait.Ordinary.mono h le
  | sort o => exact Sorting.Clear.mono h le
  | evaluate source => trivial

theorem Native.Answers.mono {f : Native} {answer : Answer} (h : f.Answers n answer) (le : n ≤ n') :
    f.Answers n' answer := ⟨h.ordinary.mono le, h.prompt⟩

theorem NativeCall.Clear.mono {c : NativeCall} (h : c.Clear n) (le : n ≤ n') : c.Clear n' :=
  ⟨fun v mem => (h.args v mem).mono le, fun v mem => (h.receiver v mem).mono le⟩

end

variable {L : Links} {n : Nat} {α : Type} {P : Nat → α → Prop} {c : NativeCall} (hc : c.Clear n)

/-! ## The world -/

namespace WorldM

/-- A computation on the store keeps what is to be launched clear. -/
theorem ofStoreM_calmAt {m : StoreM α} {w : World} {s : Store} (hw : w.Clear s.structs.size)
    (h : CalmAt L P m s) : CalmAt L P (liftM m : WorldM α) (w, s) :=
  ⟨⟨hw.mono h.kin.size_le, h.clear⟩, h.kin, h.result, h.ordinary, fun _ => rfl⟩

theorem ofStoreM_calm {m : StoreM α} (h : Calm L n P m) : Calm L n P (liftM m : WorldM α) :=
  fun (_, s) clear size => ofStoreM_calmAt (by exact size.symm ▸ clear.1) (h s clear.2 size)

/-- A step that succeeds, leaves the structs alone and keeps all else clear. -/
theorem still_of {R : α → Prop} {m : WorldM α} (h : ∀ w s, w.Clear n → s.Clear n →
    ∃ a w' s', m w s = ((.ok a, w'), s') ∧ s'.structs = s.structs ∧ w'.Clear n ∧ s'.Clear n ∧ R a) :
    Still L n R m := by
  rintro ⟨w, s⟩ ⟨hw, hs⟩ _
  obtain ⟨a, w', s', ran, same, hw, hs, ha⟩ := h w s hw hs
  have run : Stateful.run m (w, s) = (.ok a, w', s') := by simp only [Stateful.run, ran]
  have size : s'.structs.size = n := hs.size
  constructor <;> rw [run]
  · exact ⟨size.symm ▸ hw, size.symm ▸ hs⟩
  · exact .of_same same
  · rintro _ ⟨⟩
    exact ⟨size, ha⟩
  · exact .ok a
  · exact fun _ => run

theorem getStore_still : Still L n (Store.Clear n) (getThe Store : WorldM Store) :=
  still_of fun w s hw hs => ⟨s, w, s, rfl, rfl, hw, hs, hs⟩

theorem getWorld_still : Still L n (fun _ => True) (getThe World : WorldM World) :=
  still_of fun w s hw hs => ⟨w, w, s, rfl, rfl, hw, hs, trivial⟩

/-- A step that succeeds, leaves the store alone and launches nothing. -/
theorem worldly_still {m : WorldM α}
    (ok : ∀ w s, ∃ a w', m w s = ((.ok a, w'), s) ∧ w'.launched = w.launched) :
    Still L n (fun _ => True) m := by
  refine still_of fun w s hw hs => ?_
  obtain ⟨a, w', ran, launched⟩ := ok w s
  exact ⟨a, w', s, ran, rfl, fun l mem => hw l (launched ▸ mem), hs, trivial⟩

theorem modifyWorld_still {f : World → World} (launched : ∀ w, (f w).launched = w.launched) :
    Still L n (fun _ => True) (modifyThe World f : WorldM Unit) :=
  worldly_still fun w _ => ⟨_, _, rfl, launched w⟩

end WorldM

open WorldM (ofStoreM_calm getStore_still getWorld_still worldly_still modifyWorld_still)

/-! ## Arguments -/

namespace NativeCall

variable (c) in
theorem refuse_calm (name : String) : Calm L n P (refuse name : WorldM α) := .throws rfl (by nofun)

theorem refuseValue_calm (v : Value) : Calm L n P (refuseValue v : WorldM α) :=
  getStore_still.bind fun _ _ => refuse_calm _

theorem wrongReceiver_calm (v : Value) : Calm L n P (wrongReceiver v : WorldM α) :=
  getStore_still.bind fun _ _ => .throws rfl (by nofun)

theorem int_still (c : NativeCall) (name : String) (index : Nat) :
    Still L n (fun _ => True) (c.int name index) := by
  unfold int
  split
  · exact Still.pure trivial
  · exact refuse_calm name

theorem float_still (c : NativeCall) (name : String) (index : Nat) :
    Still L n (fun _ => True) (c.float name index) := by
  unfold float
  split
  · exact Still.pure trivial
  · exact refuse_calm name

theorem text_still (c : NativeCall) (index : Nat) : Still L n (fun _ => True) (c.text index) := by
  unfold text
  split
  · exact getStore_still.bind fun _ _ => Still.pure trivial
  · exact Still.pure trivial

theorem texts_calm (items : List String) : Calm L n Value.Ordinary (texts items) := by
  refine ofStoreM_calm (StoreM.array_calm fun v mem => ?_)
  obtain ⟨text, -, rfl⟩ := List.mem_map.1 (List.mem_toArray.1 mem)
  trivial

include hc

theorem receiverValue_still : Still L n (Value.Ordinary n) c.receiverValue := by
  unfold receiverValue
  split
  · next v given => exact Still.pure (hc.receiver v given)
  · exact .throws rfl (by rintro ⟨⟩)

theorem Clear.arg (index : Nat) : (c.arg index).Ordinary n := by
  rw [NativeCall.arg, List.getD_eq_getElem?_getD]
  cases found : c.args[index]? with
  | none => trivial
  | some v => exact hc.args v (List.mem_of_getElem? found)

end NativeCall

open NativeCall (refuseValue_calm texts_calm wrongReceiver_calm)

/-! ## Packages -/

section
include hc

theorem StringsFn.renderArg_calm : Calm L n (fun _ _ => True) (renderArg c) := by
  unfold renderArg
  dsimp only
  split
  · exact ofStoreM_calm (Template.render_calm _ (hc.arg 1))
  · split
    · exact ofStoreM_calm (Template.render_calm _ (hc.arg 1))
    · next failed => exact .throw (Template.ofSource_ordinary _ _ _ failed)
  · exact refuseValue_calm _

omit hc in
theorem StringsFn.joined_still (c : NativeCall) : Still L n (fun _ => True) (joined c) := by
  refine getStore_still.bind fun s _ => ?_
  split
  · exact (c.text_still 1).bind fun _ _ => Still.pure trivial
  · exact refuseValue_calm _

theorem StringsFn.run_calm (f : StringsFn) : Calm L n Value.Ordinary (f.run c) := by
  cases f with
  | upper | lower | length => exact (c.text_still 0).bind fun _ _ => .pure trivial
  | trim =>
    refine (c.text_still 0).bind fun text _ => ?_
    split
    · exact getStore_still.bind fun _ _ => .pure trivial
    · exact .pure trivial
  | left | right =>
    exact (c.text_still 0).bind fun _ _ => (c.int_still _ 1).bind fun _ _ => .pure trivial
  | substring =>
    exact (c.text_still 0).bind fun _ _ => (c.int_still _ 1).bind fun _ _ => .ite
      (((c.int_still _ 2).map (S := fun _ => True) fun _ _ => trivial).bind fun _ _ => .pure trivial)
      ((Still.pure (R := fun _ => True) trivial).bind fun _ _ => .pure trivial)
  | index | contains =>
    exact (c.text_still 0).bind fun _ _ => (c.text_still 1).bind fun _ _ => .pure trivial
  | split =>
    exact (c.text_still 0).bind fun _ _ => .ite ((c.text_still 1).bind fun _ _ => texts_calm _)
      ((Still.pure (R := fun _ => True) trivial).bind fun _ _ => texts_calm _)
  | join => exact (joined_still c).bind fun _ _ => .pure trivial
  | format => exact getStore_still.bind fun _ _ => (c.text_still 0).bind fun _ _ => .pure trivial
  | template => exact (renderArg_calm hc).map fun _ _ _ => trivial
  | pattern =>
    refine (c.text_still 1).bind fun source _ => ?_
    split
    · exact (c.text_still 0).bind fun _ _ => .pure trivial
    · exact .throws rfl (by rintro ⟨⟩)

end

namespace MathFn

theorem numberOf_still (v : Value) : Still L n (fun _ => True) (numberOf v) := by
  unfold numberOf
  split
  · exact Still.pure trivial
  · exact refuseValue_calm v

theorem operands_ordinary {s : Store} (hs : s.Clear n) {args : List Value}
    (h : ∀ v ∈ args, v.Ordinary n) : ∀ v ∈ operands s args, v.Ordinary n := by
  unfold operands
  split
  · exact fun v mem => hs.array _ v (Array.mem_toList_iff.1 mem)
  · exact h

theorem extremeFrom_calm (better : Float → Float → Bool) {values : List Value}
    {best : Option (Value × Float)} (hv : ∀ v ∈ values, v.Ordinary n)
    (hb : ∀ b ∈ best, b.1.Ordinary n) : Calm L n Value.Ordinary (extremeFrom better best values) := by
  induction values generalizing best with
  | nil =>
    cases best with
    | none => exact .throws rfl (by nofun)
    | some b => exact .pure (hb b rfl)
  | cons v rest ih =>
    obtain ⟨first, later⟩ := List.forall_mem_cons.1 hv
    have takes (v : Value) (hv : v.Ordinary n) (x : Float) :
        Calm L n Value.Ordinary (extremeFrom better (some (v, x)) rest) := by
      refine ih later ?_
      rintro _ ⟨⟩
      exact hv
    cases best with
    | none => exact (numberOf_still v).bind fun x _ => takes v first x
    | some b =>
      exact (numberOf_still v).bind fun x _ => .ite (takes v first x) (takes b.1 (hb b rfl) b.2)

theorem sumOf_calm {values : List Value} (h : ∀ v ∈ values, v.Ordinary n) :
    Calm L n Value.Ordinary (sumOf values) :=
  .ite (.pure trivial) <| (Calm.listMapM (Q := fun _ _ => True) Value.upward (fun _ _ _ h _ => h) h
    fun _ v _ => (numberOf_still v).calm fun _ _ => trivial).bind fun _ _ _ _ => .pure trivial

theorem absOf_calm (c : NativeCall) : Calm L n Value.Ordinary (absOf c) := by
  unfold absOf
  split
  · exact .pure trivial
  · exact .pure trivial
  · exact .ite ((c.int_still _ 0).bind fun _ _ => .pure trivial) (refuseValue_calm _)

theorem draw_still : Still L n (fun _ => True) World.draw := by
  refine worldly_still fun w s => ?_
  unfold World.draw
  exact ⟨_, _, rfl, rfl⟩

theorem randomOf_calm (c : NativeCall) : Calm L n Value.Ordinary (randomOf c) :=
  .ite (draw_still.bind fun _ _ => .pure trivial) <| (c.int_still _ 0).bind fun _ _ =>
    .ite (NativeCall.refuse_calm _) (draw_still.bind fun _ _ => .pure trivial)

include hc in
theorem run_calm (f : MathFn) : Calm L n Value.Ordinary (f.run c) := by
  cases f with
  | abs => exact absOf_calm c
  | min | max =>
    exact getStore_still.bind fun _ hs =>
      extremeFrom_calm _ (operands_ordinary hs hc.args) fun _ mem => by cases mem
  | sqrt | floor | ceil | log => exact (c.float_still _ 0).bind fun _ _ => .pure trivial
  | pow => exact (c.float_still _ 0).bind fun _ _ => (c.float_still _ 1).bind fun _ _ => .pure trivial
  | round =>
    exact (c.float_still _ 0).bind fun _ _ => .ite ((c.int_still _ 1).bind fun _ _ => .pure trivial)
      ((Still.pure (R := fun _ => True) trivial).bind fun _ _ => .pure trivial)
  | sum => exact getStore_still.bind fun _ hs => sumOf_calm (operands_ordinary hs hc.args)
  | random => exact randomOf_calm c

end MathFn

theorem TimeFn.written_calm (millis : Int64) (layout : String) : Calm L n Answer.Ordinary
    (TimeFn.written millis layout) := by
  unfold TimeFn.written
  split
  · split <;> exact .pure trivial
  · exact .throws rfl (by rintro ⟨⟩)

theorem TimeFn.formatted_calm (c : NativeCall) : Calm L n Answer.Ordinary (formatted c) :=
  (c.int_still _ 0).bind fun millis _ => .ite
    ((c.text_still 1).bind fun _ _ => written_calm millis _)
    ((Still.pure (R := fun _ => True) trivial).bind fun _ _ => written_calm millis _)

theorem TimeFn.run_calm (c : NativeCall) (f : TimeFn) : Calm L n Answer.Ordinary (f.run c) := by
  refine getWorld_still.bind fun w _ => ?_
  cases f with
  | now | unix => exact .pure trivial
  | sleep | since => exact (c.int_still _ 0).bind fun _ _ => .pure trivial
  | format => exact formatted_calm c

namespace JsonFn

theorem membersOf_calm {part : Value → StoreM JsonValue}
    (hp : ∀ n v, v.Ordinary n → Calm L n (fun _ _ => True) (part v)) {fields : List (String × Value)}
    (hf : ∀ e ∈ fields, e.2.Ordinary n) : Calm L n (fun _ _ => True) (membersOf part fields) :=
  (Calm.listMapM (P := fun n (e : String × Value) => e.2.Ordinary n) (Q := fun _ _ => True)
    (fun _ _ _ h => h.mono) (fun _ _ _ h _ => h) hf fun n e he =>
      (hp n e.2 he).bind fun _ _ _ _ => .pure trivial).bind
      fun _ _ _ _ => .pure trivial

theorem fractionOf_calm (x : Float) : Calm L n (fun _ _ => True) (fractionOf x) :=
  .ite (.pure trivial) (.throws rfl (by nofun))

theorem toJsonTo_calm (depth : Nat) {v : Value} (hv : v.Ordinary n) :
    Calm L n (fun _ _ => True) (toJsonTo depth v) := by
  induction depth generalizing n v with
  | zero => exact .pure trivial
  | succ depth ih =>
    refine StoreM.get_still.bind fun s hs => ?_
    split
    · exact .pure trivial
    · exact .pure trivial
    · exact fractionOf_calm _
    · exact fractionOf_calm _
    · exact .pure trivial
    · exact (Calm.listMapM Value.upward (fun _ _ _ h _ => h)
        (fun v mem => hs.array _ v (Array.mem_toList_iff.1 mem)) fun _ _ => ih).bind
          fun _ _ _ _ => .pure trivial
    · refine membersOf_calm (fun _ _ => ih) fun e mem => ?_
      obtain ⟨k, -, found⟩ := List.mem_filterMap.1 mem
      obtain ⟨v, here, rfl⟩ := Option.map_eq_some_iff.1 found
      exact (hs.struct _).find? k v here
    · refine membersOf_calm (fun _ _ => ih) fun e mem => ?_
      obtain ⟨entry, inside, rfl⟩ := List.mem_map.1 mem
      exact hs.map _ entry inside
    · exact .pure trivial
    · exact .throws rfl (by nofun)
    · exact .ite (.pure trivial) (.pure trivial)

mutual
theorem ofJson_calm {n : Nat} : (json : JsonValue) → Calm L n Value.Ordinary (ofJson json)
  | .null => by rw [ofJson]; exact .pure trivial
  | .bool _ => by rw [ofJson]; exact .pure trivial
  | .whole _ => by rw [ofJson]; exact .ite (.pure trivial) (.pure trivial)
  | .fraction _ => by rw [ofJson]; exact .pure trivial
  | .string _ => by rw [ofJson]; exact .pure trivial
  | .array items => by
    rw [ofJson]
    exact (ofJsonItems_calm items).bind fun _ _ _ hi =>
      StoreM.array_calm fun v mem => hi v (List.mem_toArray.1 mem)
  | .object members => by
    rw [ofJson]
    exact (ofJsonMembers_calm members).bind fun _ _ _ hm => StoreM.struct_calm ⟨hm, nofun⟩
theorem ofJsonItems_calm {n : Nat} : (items : List JsonValue) →
    Calm L n (fun n items => ∀ v ∈ items, v.Ordinary n) (ofJsonItems items)
  | [] => by rw [ofJsonItems]; exact .pure (List.forall_mem_nil _)
  | item :: rest => by
    rw [ofJsonItems]
    exact (ofJson_calm item).bind fun _ _ _ hv => (ofJsonItems_calm rest).bind fun _ le _ hr =>
      .pure (List.forall_mem_cons.2 ⟨hv.mono le, hr⟩)
theorem ofJsonMembers_calm {n : Nat} : (members : List (String × JsonValue)) →
    Calm L n (fun n members => ∀ e ∈ members, e.2.Ordinary n) (ofJsonMembers members)
  | [] => by rw [ofJsonMembers]; exact .pure (List.forall_mem_nil _)
  | (_, item) :: rest => by
    rw [ofJsonMembers]
    exact (ofJson_calm item).bind fun _ _ _ hv => (ofJsonMembers_calm rest).bind fun _ le _ hr =>
      .pure (List.forall_mem_cons.2 ⟨hv.mono le, hr⟩)
end

theorem unmarshalled_calm (c : NativeCall) : Calm L n Value.Ordinary (unmarshalled c) := by
  refine (c.text_still 0).bind fun text _ => ?_
  split
  · next failed => exact .throw (JsonReader.read_ordinary _ _ failed)
  · refine (ofStoreM_calm (ofJson_calm _)).bind fun _ _ v hv => ?_
    split
    · exact ofStoreM_calm (Value.coerce_calm hv _)
    · exact refuseValue_calm _
    · exact .pure hv

include hc in
theorem run_calm (f : JsonFn) : Calm L n Value.Ordinary (f.run c) := by
  cases f with
  | marshal =>
    have written := ofStoreM_calm (StoreM.get_still.bind fun s _ =>
      toJsonTo_calm (L := L) (s.objectCount + 2) (hc.arg 0))
    exact written.bind fun _ _ _ _ => .pure trivial
  | unmarshal => exact unmarshalled_calm c

end JsonFn

theorem StrconvFn.readOr_calm (text : String) {v : Option Value} (hv : ∀ w ∈ v, w.Ordinary n) :
    Calm L n Value.Ordinary (readOr text v) := by
  cases v with
  | none => exact .throws rfl (by nofun)
  | some v => exact .pure (hv v rfl)

theorem StrconvFn.run_calm (c : NativeCall) (f : StrconvFn) : Calm L n Value.Ordinary (f.run c) := by
  cases f with
  | atoi | atof =>
    refine (c.text_still 0).bind fun _ _ => readOr_calm _ fun v read => ?_
    obtain ⟨x, -, rfl⟩ := Option.map_eq_some_iff.1 read
    trivial
  | itoa => exact (c.int_still _ 0).bind fun _ _ => .pure trivial
  | ftoa =>
    exact (c.float_still _ 0).bind fun _ _ => .ite ((c.int_still _ 1).bind fun _ _ => .pure trivial)
      (.pure trivial)

theorem OsFn.run_calm (c : NativeCall) (f : OsFn) : Calm L n Value.Ordinary (f.run c) := by
  cases f with
  | getenv => exact (c.text_still 0).bind fun _ _ => getWorld_still.bind fun _ _ => .pure trivial
  | args => exact getWorld_still.bind fun _ _ => texts_calm _
  | exit =>
    have leaves (code : Int64) : Calm L n Value.Ordinary
        (do World.exit code.toInt32; throw (.of .stop) : WorldM Value) :=
      (worldly_still fun _ _ => ⟨_, _, rfl, by rfl⟩).bind fun _ _ => .throws rfl (by nofun)
    exact .ite ((Still.pure (R := fun _ => True) trivial).bind fun _ _ => leaves _)
      ((c.int_still _ 0).bind fun _ _ => leaves _)

theorem ProfileFn.update_still (f : Profiles → Profiles) : Still L n (fun _ => True) (update f) := by
  refine (modifyWorld_still fun _ => by rfl).bind fun _ _ => getWorld_still.bind fun w _ => ?_
  split
  · exact modifyWorld_still fun _ => rfl
  · next failed => exact .throw (Profiles.save_ordinary _ _ _ failed)

theorem ProfileFn.run_calm (c : NativeCall) (f : ProfileFn) : Calm L n Value.Ordinary (f.run c) := by
  refine (c.text_still 0).bind fun key _ => ?_
  cases f with
  | get | has => exact getWorld_still.bind fun _ _ => .pure trivial
  | set => exact (c.text_still 1).bind fun _ _ => (update_still _).bind fun _ _ => .pure trivial
  | delete => exact getWorld_still.bind fun _ _ => (update_still _).bind fun _ _ => .pure trivial
  | keys => exact getWorld_still.bind fun _ _ => texts_calm _

theorem UtilFn.run_calm (c : NativeCall) (f : UtilFn) :
    Calm L n (Native.util f).Answers (f.run c) := by
  cases f with
  | eval => exact (c.text_still 0).bind fun _ _ => .pure ⟨trivial, nofun⟩
  | symbols => exact getStore_still.bind fun _ _ => (texts_calm _).map fun _ _ h => ⟨h, nofun⟩

/-! ## Methods -/

namespace Method

section
include hc

theorem groupOf_still : Still L n (fun _ => True) (groupOf c) := by
  refine (NativeCall.receiverValue_still hc).bind fun v _ => ?_
  split
  · exact Still.pure trivial
  · exact wrongReceiver_calm _

theorem mutexOf_still : Still L n (fun _ => True) (mutexOf c) := by
  refine (NativeCall.receiverValue_still hc).bind fun v _ => ?_
  split
  · exact Still.pure trivial
  · exact wrongReceiver_calm _

theorem channelOf_still : Still L n (fun _ => True) (channelOf c) := by
  refine (NativeCall.receiverValue_still hc).bind fun v _ => ?_
  split
  · exact Still.pure trivial
  · exact wrongReceiver_calm _

theorem faultOf_still : Still L n Fault.Ordinary (faultOf c) := by
  refine (NativeCall.receiverValue_still hc).bind fun v hv => ?_
  split
  · exact Still.pure hv
  · exact wrongReceiver_calm _

end

theorem addTo_calm (r : WaitGroupRef) (delta : Int) : Calm L n Value.Ordinary (addTo r delta) := by
  refine StoreM.get_still.bind fun _ _ => ?_
  split
  · exact .throws rfl (by nofun)
  · exact (StoreM.modify_calm (fun _ hs => by exact { hs with }) fun _ => by rfl).bind
      fun _ _ _ _ => .pure (by trivial)

theorem release_calm (r : MutexRef) : Calm L n Value.Ordinary (release r) :=
  StoreM.get_still.bind fun _ _ => .ite
    ((StoreM.modify_calm (fun _ hs => by exact { hs with }) fun _ => by rfl).bind
      fun _ _ _ _ => .pure (by trivial)) (.throws rfl (by nofun))

theorem closeChannel_calm (r : ChannelRef) : Calm L n Value.Ordinary (closeChannel r) :=
  StoreM.get_still.bind fun _ _ => .ite (.throws rfl (by nofun)) <|
    (StoreM.modify_calm (fun _ hs => by exact hs.modifyChannel (fun _ hc => by exact hc) r)
      fun _ => by rfl).bind fun _ _ _ _ => .pure (by trivial)

theorem offer_calm (r : ChannelRef) {message : Value} (hm : message.Ordinary n) :
    Calm L n Answer.Ordinary (offer r message) :=
  StoreM.get_still.bind fun _ _ => (Value.coerce_calm hm _).bind fun _ _ _ hm =>
    StoreM.get_still.bind fun _ _ => .ite (.throws rfl (by nofun)) <|
      (StoreM.modify_calm (fun _ hs => by exact hs.modifyChannel (fun _ hc => by exact hc) r)
        fun _ => by rfl).bind fun _ le _ _ => .pure (by exact hm.mono le)

/-- The cause of a fault that no signal caused is none. -/
theorem unwrapped_ordinary {f : Fault} (hf : f.Ordinary) : (unwrapped f).Ordinary n := by
  unfold unwrapped
  split
  · trivial
  · next causes => exact fun r mem => hf r (List.mem_cons_of_mem _ (causes ▸ mem))

include hc in
theorem run_calm (m : Method) : Calm L n Answer.Ordinary (m.run c) := by
  cases m with
  | add =>
    exact (c.int_still _ 0).bind fun _ _ => (groupOf_still hc).bind fun _ _ =>
      (ofStoreM_calm (addTo_calm _ _)).map fun _ _ => id
  | done => exact (groupOf_still hc).bind fun _ _ => (ofStoreM_calm (addTo_calm _ _)).map fun _ _ => id
  | wait => exact (groupOf_still hc).bind fun _ _ => .pure trivial
  | lock => exact (mutexOf_still hc).bind fun _ _ => .pure trivial
  | unlock =>
    exact (mutexOf_still hc).bind fun _ _ => (ofStoreM_calm (release_calm _)).map fun _ _ => id
  | send => exact (channelOf_still hc).bind fun _ _ => ofStoreM_calm (offer_calm _ (hc.arg 0))
  | receive => exact (channelOf_still hc).bind fun _ _ => .pure trivial
  | close =>
    exact (channelOf_still hc).bind fun _ _ => (ofStoreM_calm (closeChannel_calm _)).map fun _ _ => id
  | len => exact (channelOf_still hc).bind fun _ _ => getStore_still.bind fun _ _ => .pure trivial
  | message => exact (faultOf_still hc).bind fun _ _ => .pure trivial
  | unwrap => exact (faultOf_still hc).bind fun _ hf => .pure (unwrapped_ordinary hf)

end Method

/-! ## Builtins at the root -/

namespace RootFn

theorem lengthOf_calm (v : Value) : Calm L n Value.Ordinary (lengthOf v) := by
  refine getStore_still.bind fun s _ => ?_
  split
  · exact .pure trivial
  · exact refuseValue_calm v

include hc in
theorem appended_calm : Calm L n Value.Ordinary (appended c) := by
  have grows {a : ArrayObject} (ha : a.Clear n) : Calm L n Value.Ordinary
      (do
        let added ← (c.args.drop 1).mapM fun v => v.coerce a.element
        StoreM.array a.element (a.items ++ added.toArray) : WorldM Value) :=
    (Calm.listMapM Value.upward Value.upward (fun v mem => hc.args v (List.mem_of_mem_drop mem))
      fun _ _ hv => ofStoreM_calm (Value.coerce_calm hv _)).bind fun _ le added hadded =>
        ofStoreM_calm (StoreM.array_calm fun v mem => (Array.mem_append.1 mem).elim (ha.mono le v)
          fun new => hadded v (List.mem_toArray.1 new))
  unfold appended
  split
  · exact getStore_still.bind fun _ hs => (Still.pure (hs.array _)).bind fun _ => grows
  · exact (Still.pure (R := ArrayObject.Clear n) (by simp [ArrayObject.Clear])).bind fun _ => grows
  · exact Still.bind (R := ArrayObject.Clear n) (refuseValue_calm _) fun _ => grows

include hc in
theorem deleted_calm : Calm L n Value.Ordinary (deleted c) := by
  unfold deleted
  split
  · exact (ofStoreM_calm (MapRef.delete_calm _ (hc.arg 1))).bind fun _ _ _ _ => .pure trivial
  · exact getStore_still.bind fun _ _ => (ofStoreM_calm (StructRef.delete_calm _ _)).bind
      fun _ _ _ _ => .pure trivial
  · exact refuseValue_calm _

theorem instanceFields_calm {model : StructObject} (hm : model.Clear n) (types : List (String × Ty)) :
    Calm L n (fun n fields => ∀ e ∈ fields, e.2.Ordinary n) (instanceFields model types) := by
  induction types generalizing n with
  | nil => exact .pure (List.forall_mem_nil _)
  | cons e rest ih =>
    unfold instanceFields
    split
    · next found =>
      exact (Value.copy_calm (hm.find? _ _ found)).bind fun _ le _ hv => (ih (hm.mono le)).bind
        fun _ le _ hr => Calm.pure (List.forall_mem_cons.2 ⟨hv.mono le, hr⟩)
    · exact (Value.zero_calm _).bind fun _ le _ hv => (ih (hm.mono le)).bind fun _ le _ hr =>
        Calm.pure (List.forall_mem_cons.2 ⟨hv.mono le, hr⟩)

theorem copiedFields_calm {fields : List (String × Value)} (hf : ∀ e ∈ fields, e.2.Ordinary n) :
    Calm L n (fun n fields => ∀ e ∈ fields, e.2.Ordinary n) (copiedFields fields) := by
  induction fields generalizing n with
  | nil => exact .pure (List.forall_mem_nil _)
  | cons e rest ih =>
    obtain ⟨first, later⟩ := List.forall_mem_cons.1 hf
    exact .ite (ih later) <| (Value.copy_calm first).bind fun _ le _ hv =>
      (ih fun e mem => (later e mem).mono le).bind fun _ le _ hr =>
        .pure (List.forall_mem_cons.2 ⟨hv.mono le, hr⟩)

/-- The parent of a new instance is the struct that it is made from. -/
theorem newInstance_calm {r : StructRef} (hr : r.index < n) :
    Calm L n Value.Ordinary (newInstance r) := by
  have linked {n' : Nat} (le : n ≤ n') : ∀ p ∈ some r, p.index < n' := by
    rintro _ ⟨⟩
    exact Nat.lt_of_lt_of_le hr le
  refine StoreM.get_still.bind fun s hs => ?_
  dsimp only
  split
  · exact (instanceFields_calm (hs.struct r) _).bind fun _ le _ hf =>
      StoreM.struct_calm ⟨hf, linked le⟩
  · exact (copiedFields_calm (hs.struct r).fields).bind fun _ le _ hf =>
      StoreM.struct_calm ⟨hf, linked le⟩

theorem newValue_calm {v : Value} (hv : v.Ordinary n) : Calm L n Value.Ordinary (newValue v) := by
  unfold newValue
  split
  · exact Value.zero_calm _
  · exact newInstance_calm hv
  · exact Value.copy_calm hv

theorem zeros_calm (t : Ty) (count : Nat) {done : Array Value} (hd : ∀ v ∈ done, v.Ordinary n) :
    Calm L n (fun n items => ∀ v ∈ items, v.Ordinary n) (zeros t count done) := by
  induction count generalizing n done with
  | zero => exact .pure hd
  | succ count ih =>
    exact (Value.zero_calm t).bind fun _ le _ hv =>
      ih (Array.forall_push (fun v mem => (hd v mem).mono le) hv)

theorem made_calm (c : NativeCall) : Calm L n Value.Ordinary (made c) := by
  unfold made
  split
  · refine .ite ((c.int_still _ 1).bind fun size _ => ?_)
      ((Still.pure (R := fun _ => True) trivial).bind fun size _ => ?_)
    all_goals
      refine .ite (.throws rfl (by nofun)) ?_
      dsimp only
      split
      · exact (ofStoreM_calm (zeros_calm _ _ (by simp))).bind fun _ _ _ hi =>
          ofStoreM_calm (StoreM.array_calm hi)
      · exact ofStoreM_calm (StoreM.map_calm fun _ mem => by cases mem)
      · exact ofStoreM_calm (StoreM.channel_calm _ _)
      · exact ofStoreM_calm (Value.zero_calm _)
  · exact refuseValue_calm _

include hc in
theorem position_calm : Calm L n Value.Ordinary (position c) := by
  refine getStore_still.bind fun s _ => ?_
  dsimp only
  split
  · exact .pure trivial
  · exact .pure trivial
  · refine (ofStoreM_calm (MapRef.contains_calm _ (hc.arg 1))).bind fun _ _ found _ => .pure ?_
    split <;> trivial
  · exact refuseValue_calm _

/-- Sorting keeps the items. -/
theorem sortItems_ordinary (s : Store) {items : List Value} (h : ∀ v ∈ items, v.Ordinary n) :
    ∀ v ∈ sortItems s items, v.Ordinary n := by
  have inserted (le : Value → Value → Bool) (v : Value) (hv : v.Ordinary n) (done : List Value)
      (hd : ∀ v ∈ done, v.Ordinary n) : ∀ w ∈ insertReversed le v done, w.Ordinary n := by
    induction done with
    | nil => simpa [insertReversed] using hv
    | cons x rest ih =>
      obtain ⟨first, later⟩ := List.forall_mem_cons.1 hd
      unfold insertReversed
      split
      · exact List.forall_mem_cons.2 ⟨hv, hd⟩
      · exact List.forall_mem_cons.2 ⟨first, ih later⟩
  have all (le : Value → Value → Bool) (items done : List Value) (h : ∀ v ∈ items, v.Ordinary n)
      (hd : ∀ v ∈ done, v.Ordinary n) :
      ∀ v ∈ items.foldl (fun done v => insertReversed le v done) done, v.Ordinary n := by
    induction items generalizing done with
    | nil => exact hd
    | cons x rest ih =>
      obtain ⟨first, later⟩ := List.forall_mem_cons.1 h
      exact ih _ later (inserted le x first done hd)
  unfold sortItems
  split
  · exact fun v mem => all _ items [] h (List.forall_mem_nil _) v (List.mem_reverse.1 mem)
  · exact fun v mem => h v (List.mem_mergeSort.1 mem)

include hc in
theorem sorted_calm : Calm L n Answer.Ordinary (sorted c) := by
  unfold sorted
  split
  · refine getStore_still.bind fun s hs => ?_
    dsimp only
    split
    · refine (ofStoreM_calm (StoreM.array_calm fun v mem => ?_)).bind fun _ _ _ hv => .pure hv
      exact sortItems_ordinary s (fun v mem => hs.array _ v (Array.mem_toList_iff.1 mem)) v
        (List.mem_toArray.1 mem)
    · next less given =>
      have opens : @Still WorldM _ _ _ _ _ L n (fun _ => True) fun w s =>
          ((Except.ok (s.newBoundary c.caller "sort").1, w), (s.newBoundary c.caller "sort").2) :=
        WorldM.still_of fun _ _ hw hs => ⟨_, _, _, rfl, rfl, hw, hs.newBelow _ _ _, trivial⟩
      exact opens.bind fun _ _ => .pure ⟨hc.args _ (List.mem_of_getElem? given), hs.array _⟩
  · exact refuseValue_calm _

include hc in
theorem launched_calm : Calm L n Value.Ordinary (launched c) := by
  have clear : (Launch.mk (c.arg 0) (c.args.drop 1) c.receiver).Clear n :=
    ⟨hc.arg 0, fun v mem => hc.args v (List.mem_of_mem_drop mem), hc.receiver⟩
  have launches : Still L n (fun _ => True) (World.launch ⟨c.arg 0, c.args.drop 1, c.receiver⟩) :=
    WorldM.still_of fun w s hw hs => ⟨_, _, _, rfl, rfl, hw.launching clear, hs, trivial⟩
  exact .ite (getStore_still.bind fun _ _ => .throws rfl (by nofun)) <|
    launches.bind fun _ _ => .pure trivial

theorem indices_ordinary (count : Nat) : ∀ v ∈ indices count, v.Ordinary n := by
  intro v mem
  obtain ⟨i, -, rfl⟩ := Array.mem_map.1 mem
  trivial

theorem rangeKeysOf_calm (v : Value) : Calm L n Value.Ordinary (rangeKeysOf v) := by
  have built {keys : Array Value} (h : ∀ v ∈ keys, v.Ordinary n) :
      Calm L n Value.Ordinary (liftM (StoreM.array .interface keys) : WorldM Value) :=
    ofStoreM_calm (StoreM.array_calm h)
  refine getStore_still.bind fun s _ => ?_
  dsimp only
  split
  · exact (Still.pure (indices_ordinary _)).bind fun _ => built
  · exact (Still.pure (indices_ordinary _)).bind fun _ => built
  · refine (Still.pure fun v mem => ?_).bind fun _ => built
    obtain ⟨k, -, rfl⟩ := List.mem_map.1 (List.mem_toArray.1 mem)
    exact MapKey.toValue_ordinary _ k
  · refine (Still.pure fun v mem => ?_).bind fun _ => built
    obtain ⟨k, -, rfl⟩ := List.mem_map.1 (List.mem_toArray.1 mem)
    trivial
  · exact (Still.pure (by simp)).bind fun _ => built
  · exact .ite ((Still.pure (indices_ordinary _)).bind fun _ => built)
      (Still.bind (.throws rfl (by nofun)) fun _ => built)

include hc in
theorem setAtRoot_calm : Calm L n Value.Ordinary (setAtRoot c) := by
  have sets : Still L n (Value.Ordinary n) (setAtRoot c) := WorldM.still_of fun _ _ hw hs =>
    ⟨_, _, _, rfl, rfl, hw, hs.setAlways (hc.arg 1) _ _, trivial⟩
  exact sets.calm fun _ => id

include hc in
theorem run_calm (f : RootFn) : Calm L n Answer.Ordinary (f.run c) := by
  cases f with
  | len => exact (lengthOf_calm _).map fun _ _ => id
  | append => exact (appended_calm hc).map fun _ _ => id
  | delete => exact (deleted_calm hc).map fun _ _ => id
  | new => exact (ofStoreM_calm (newValue_calm (hc.arg 0))).map fun _ _ => id
  | make => exact (made_calm c).map fun _ _ => id
  | typeof => exact getStore_still.bind fun _ _ => .pure trivial
  | index => exact (position_calm hc).map fun _ _ => id
  | close =>
    unfold run
    dsimp only
    split
    · exact (ofStoreM_calm (Method.closeChannel_calm _)).map fun _ _ => id
    · exact refuseValue_calm _
  | sort => exact sorted_calm hc
  | go => exact (launched_calm hc).map fun _ _ => id
  | rangeKeys => exact (rangeKeysOf_calm _).map fun _ _ => id
  | setGlobal => exact (setAtRoot_calm hc).map fun _ _ => id

end RootFn

/-! ## Every builtin -/

include hc in
/-- A builtin that is given no signal answers none and raises none. -/
theorem Native.run_calm (f : Native) : Calm L n f.Answers (f.run c) := by
  have value {f : Native} (n : Nat) (v : Value) (hv : v.Ordinary n) : f.Answers n (.value v) :=
    ⟨hv, nofun⟩
  cases f with
  | root f => exact (RootFn.run_calm hc f).imp fun _ _ h => ⟨h, fun _ _ => rfl⟩
  | strings f => exact (StringsFn.run_calm hc f).map value
  | math f => exact (MathFn.run_calm hc f).map value
  | time f => exact (TimeFn.run_calm c f).imp fun _ _ h => ⟨h, fun _ _ => rfl⟩
  | profile f => exact (ProfileFn.run_calm c f).map value
  | json f => exact (JsonFn.run_calm hc f).map value
  | newError =>
    exact (c.text_still 0).bind fun _ _ =>
      .pure (value _ _ (.of_kind rfl (by nofun) : (Fault.native _).Ordinary))
  | strconv f => exact (StrconvFn.run_calm c f).map value
  | os f => exact (OsFn.run_calm c f).map value
  | util f => exact UtilFn.run_calm c f
  | method m _ => exact (Method.run_calm hc m).imp fun _ _ h => ⟨h, fun _ _ => rfl⟩

end StackScript
