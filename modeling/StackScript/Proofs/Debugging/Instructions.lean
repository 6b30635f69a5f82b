import StackScript.Proofs.Calls.Return
import StackScript.Proofs.Debugging.Builtins

/-!
# Instructions are calm

Every instruction is calm but the one that notes a line, and that one is where the debugger does not
stop. Where it does, it raises a signal with the line noted, just as the instruction leaves it when
nothing stops. Only storing under an index links structs, as the stack says.

Main statements: `perform_calm`, `storeIndex_calm`, `call_calm`, `step_calm` and `step_stops`.
-/
namespace StackScript

namespace Exec

variable {L : Links} {n : Nat} {α : Type} {P : Nat → α → Prop} {R : α → Prop}

/-! ## Parts of the state -/

/-- A computation on the context alone. -/
theorem still_of {m : Exec α} (h : ∀ c w s, c.Clear n → ∃ (r : Except Fault α) (c' : Context),
    m c w s = (((r, c'), w), s) ∧ (∀ g, m (c.dressed g) w s = (((r, c'.dressed g), w), s)) ∧
      c'.Clear n ∧ (∀ a, r = .ok a → R a) ∧ Except.Ordinary r) : Still L n R m := by
  rintro ⟨c, w, s⟩ ⟨hc, hw, hs⟩ size
  obtain ⟨r, c', ran, blind, clear, result, ordinary⟩ := h c w s hc
  have run : Stateful.run m (c, w, s) = (r, c', w, s) := by simp only [Stateful.run, ran]
  have dressed (g : Guise) : Stateful.run m (c.dressed g, w, s) = (r, c'.dressed g, w, s) := by
    simp only [Stateful.run, blind]
  have size : s.structs.size = n := hs.size
  constructor <;> rw [run]
  · exact size.symm ▸ ⟨clear, hw, hs⟩
  · exact .refl s
  · exact fun a ok => ⟨size, result a ok⟩
  · exact ordinary
  · exact dressed

/-- A computation on the world and the store keeps the context clear. -/
theorem ofWorldM_calmAt {m : WorldM α} {c : Context} {w : World} {s : Store}
    (hc : c.Clear s.structs.size) (h : CalmAt L P m (w, s)) :
    CalmAt L P (liftM m : Exec α) (c, w, s) :=
  ⟨⟨hc.mono h.kin.size_le, h.clear⟩, h.kin, h.result, h.ordinary, fun _ => rfl⟩

theorem ofWorldM_calm {m : WorldM α} (h : Calm L n P m) : Calm L n P (liftM m : Exec α) :=
  fun (_, w, s) clear size => ofWorldM_calmAt (by exact size.symm ▸ clear.1) (h (w, s) clear.2 size)

theorem ofStoreM_calm {m : StoreM α} (h : Calm L n P m) : Calm L n P (liftM m : Exec α) :=
  ofWorldM_calm (WorldM.ofStoreM_calm h)

theorem ofContext_still {f : Context → α} (h : ∀ c, c.Clear n → R (f c))
    (same : ∀ g (c : Context), f (c.dressed g) = f c) : Still L n R (ofContext f) :=
  still_of fun c w s hc => ⟨.ok (f c), c, rfl,
    fun g => congrArg (fun a => (((Except.ok a, c.dressed g), w), s)) (same g c), hc,
    fun _ ok => by cases ok; exact h c hc, .ok _⟩

theorem modifyContext_calm {f : Context → Context}
    (same : ∀ g (c : Context), f (c.dressed g) = (f c).dressed g)
    (h : ∀ c, c.Clear n → (f c).Clear n) : Calm L n (fun _ _ => True) (modifyContext f) := by
  have changes : Still L n (fun _ => True) (modifyContext f) := still_of fun c w s hc => ⟨.ok (), f c,
    rfl, fun g => congrArg (fun c => (((Except.ok (), c), w), s)) (same g c), h c hc,
    fun _ _ => trivial, .ok _⟩
  exact changes.calm fun _ => id

theorem ofStore_still {f : Store → α} (h : ∀ s, s.Clear n → R (f s)) : Still L n R (ofStore f) :=
  fun (_, _, s) clear size => by
    refine ⟨by exact size.symm ▸ clear, .refl s, fun _ ok => ?_, .ok _, fun _ => rfl⟩
    cases ok
    exact ⟨size, h s clear.2.2⟩

theorem modifyStore_calm {f : Store → Store} (h : ∀ s, s.Clear n → (f s).Clear n)
    (same : ∀ s, (f s).structs = s.structs) : Calm L n (fun _ _ => True) (modifyStore f) :=
  fun (_, _, s) clear size => by
    have clear' : (f s).Clear n := h s clear.2.2
    exact ⟨by exact clear'.size.symm ▸ ⟨clear.1, clear.2.1, clear'⟩, .of_same (same s),
      fun _ _ => trivial, .ok _, fun _ => rfl⟩

theorem getStore_still : Still L n (Store.Clear n) (getThe Store : Exec Store) :=
  ofStore_still fun _ hs => hs

theorem getWorld_still : Still L n (fun _ => True) (getThe World : Exec World) :=
  fun (_, w, s) clear size =>
    ⟨by exact size.symm ▸ clear, .refl s, fun _ _ => ⟨size, trivial⟩, .ok w, fun _ => rfl⟩

theorem text_still (f : Store → String) : Still L n (fun _ => True) (ofStore f) :=
  ofStore_still fun _ _ => trivial

theorem scope_still : Still L n (fun _ => True) scope :=
  ofContext_still (fun _ _ => trivial) fun _ _ => rfl

theorem strictness_still : Still L n (fun _ => True) (ofContext Context.strictness) :=
  ofContext_still (fun _ _ => trivial) fun _ _ => rfl

/-! ## The stack -/

theorem push_stacked {v : Value} (hv : v.Stacked n) : Calm L n (fun _ _ => True) (push v) :=
  modifyContext_calm (f := fun c => { c with stack := c.stack.push v })
    (fun _ _ => rfl) fun _ hc => { hc with stack := Array.forall_push hc.stack hv }

theorem push_calm {v : Value} (hv : v.Ordinary n) : Calm L n (fun _ _ => True) (push v) :=
  push_stacked hv.stacked

theorem foldl_push_stacked {vs : List Value} {stack : Array Value} (hv : ∀ v ∈ vs, v.Stacked n)
    (hs : ∀ v ∈ stack, v.Stacked n) : ∀ v ∈ vs.foldl Array.push stack, v.Stacked n := by
  induction vs generalizing stack with
  | nil => exact hs
  | cons v rest ih =>
    rw [List.forall_mem_cons] at hv
    exact ih hv.2 (Array.forall_push hs hv.1)

theorem pushAll_calm {vs : List Value} (h : ∀ v ∈ vs, v.Stacked n) :
    Calm L n (fun _ _ => True) (pushAll vs) :=
  modifyContext_calm (f := fun c => { c with stack := vs.foldl Array.push c.stack })
    (fun _ _ => rfl) fun _ hc => { hc with stack := foldl_push_stacked h hc.stack }

theorem back_stacked {stack : Array Value} (h : ∀ v ∈ stack, v.Stacked n) :
    (stack.back?.getD .nil).Stacked n := by
  cases top : stack.back? with
  | none => exact .inr trivial
  | some v => exact h v (Array.mem_of_back? top)

theorem pop_still : Still L n (Value.Stacked n) pop := by
  refine still_of fun c w s hc => ?_
  by_cases low : c.stack.size ≤ c.base
  · exact ⟨_, c, if_pos low, fun _ => if_pos low, hc, (fun _ ok => by cases ok), .of (by nofun)⟩
  · exact ⟨_, _, if_neg low, fun _ => if_neg low, { hc with stack := Array.forall_pop hc.stack },
      fun _ ok => by cases ok; exact back_stacked hc.stack, .ok _⟩

theorem popValue_still : Still L n (Value.Ordinary n) popValue := by
  refine still_of fun c w s hc => ?_
  by_cases low : c.stack.size ≤ c.base
  · exact ⟨_, c, if_pos low, fun _ => if_pos low, hc, (fun _ ok => by cases ok), .of (by nofun)⟩
  have taken : Context.Clear n { c with stack := c.stack.pop } :=
    { hc with stack := Array.forall_pop hc.stack }
  by_cases marker : (c.stack.back?.getD .nil).isMarker = true
  · exact ⟨_, _, (if_neg low).trans (if_pos marker),
      fun _ => (if_neg low).trans (if_pos marker), taken,
      (fun _ ok => by cases ok), .of (by nofun)⟩
  · exact ⟨_, _, (if_neg low).trans (if_neg marker),
      fun _ => (if_neg low).trans (if_neg marker), taken,
      fun _ ok => by cases ok; exact (back_stacked hc.stack).ordinary marker, .ok _⟩

theorem popMany_still (count : Nat) :
    Still L n (fun vs => ∀ v ∈ vs, v.Stacked n) (popMany count) := by
  refine still_of fun c w s hc => ?_
  by_cases low : c.stack.size < c.base + count
  · exact ⟨_, c, if_pos low, fun _ => if_pos low, hc, (fun _ ok => by cases ok),
      .about (by nofun)⟩
  · refine ⟨_, _, if_neg low, fun _ => if_neg low, { hc with stack := Array.forall_shrink hc.stack _ },
      fun _ ok => ?_, .ok _⟩
    cases ok
    exact fun v mem => Array.forall_extract hc.stack _ _ v (Array.mem_toList_iff.1 mem)

theorem refuseMarkers_still {vs : List Value} (h : ∀ v ∈ vs, v.Stacked n) :
    Still L n (fun _ => ∀ v ∈ vs, v.Ordinary n) (refuseMarkers vs) := by
  unfold refuseMarkers
  split
  · exact .throws rfl (by nofun)
  · next none =>
    rw [List.any_eq_true] at none
    exact Still.pure fun v mem => (h v mem).ordinary fun marker => none ⟨v, mem, marker⟩

theorem popValues_still (count : Nat) :
    Still L n (fun vs => ∀ v ∈ vs, v.Ordinary n) (popValues count) :=
  (popMany_still count).bind fun _ hv => (refuseMarkers_still hv).bind fun _ hv => Still.pure hv

theorem peek_still (offset : Nat) : Still L n (Value.Stacked n) (peek offset) := by
  refine still_of fun c w s hc => ?_
  by_cases low : c.stack.size - c.base ≤ offset
  · exact ⟨_, c, if_pos low, fun _ => if_pos low, hc, (fun _ ok => by cases ok),
      .about (by nofun)⟩
  · exact ⟨_, c, if_neg low, fun _ => if_neg low, hc,
      fun _ ok => by
        cases ok
        exact Array.forall_getD hc.stack (show Value.Stacked n .nil from .inr trivial) _, .ok _⟩

/-! ## Operands -/

theorem wrongType_calm (v : Value) : Calm L n P (wrongType v : Exec α) :=
  (text_still _).bind fun _ _ => .throws rfl (by nofun)

theorem wrongOperand_calm {kind : FaultKind} (operand : Operand)
    (h : kind ≠ .debuggerSignal) : Calm L n P (wrongOperand kind operand : Exec α) :=
  (text_still _).bind fun _ _ => .throws rfl h

theorem nameOf_still (operand : Operand) : Still L n (fun _ => True) (nameOf operand) := by
  unfold nameOf
  split
  · exact Still.pure trivial
  · exact wrongOperand_calm _ (by nofun)

theorem typeOf_still (operand : Operand) : Still L n (fun _ => True) (typeOf operand) := by
  unfold typeOf
  split
  · exact Still.pure trivial
  · exact wrongOperand_calm _ (by nofun)

/-- The value that a computation on the store makes goes on the stack. -/
theorem pushMade_calm {m : StoreM Value} (h : Calm L n Value.Ordinary m) :
    Calm L n (fun _ _ => True) (do push (← m) : Exec Unit) :=
  (ofStoreM_calm h).bind fun _ _ _ => push_calm

/-! ## Instructions on the stack -/

theorem pushOperand_calm {operand : Operand} (h : operand.Ordinary n) :
    Calm L n (fun _ _ => True) (pushOperand operand) := by
  unfold pushOperand
  split
  · refine (ofStore_still (R := fun _ => True) fun _ _ => trivial).bind fun unit _ => ?_
    split
    · exact scope_still.bind fun _ _ => push_calm trivial
    · exact push_calm trivial
  · exact push_stacked h
  · exact push_calm trivial
  · exact push_calm trivial
  · exact push_calm trivial
  · exact wrongOperand_calm _ (by nofun)

theorem dropValues_calm (operand : Operand) : Calm L n (fun _ _ => True) (dropValues operand) :=
  (popMany_still _).bind fun _ _ => .pure trivial

theorem dup_calm : Calm L n (fun _ _ => True) dup := (peek_still 0).bind fun _ => push_stacked

theorem swap_calm : Calm L n (fun _ _ => True) swap :=
  pop_still.bind fun _ top => pop_still.bind fun _ next => (push_stacked top).bind fun _ le _ _ =>
    push_stacked (next.mono le)

theorem copyTop_calm : Calm L n (fun _ _ => True) copyTop :=
  popValue_still.bind fun _ hv => pushMade_calm (Value.copy_calm hv)

theorem readStack_calm (operand : Operand) : Calm L n (fun _ _ => True) (readStack operand) :=
  (peek_still _).bind fun _ => push_stacked

theorem flatten_calm : Calm L n (fun _ _ => True) flatten := by
  refine popValue_still.bind fun v _ => ?_
  split
  · exact (ofStore_still fun _ hs => hs.array _).bind fun a ha => .ite (.throws rfl (by nofun))
      ((pushAll_calm fun v mem => (ha v (Array.mem_toList_iff.1 mem)).stacked).bind fun _ _ _ _ =>
        push_calm trivial)
  · exact wrongType_calm _

theorem dropTo_stacked (label : String) (base height : Nat) {stack : Array Value}
    (h : ∀ v ∈ stack, v.Stacked n) : ∀ v ∈ (dropTo label base height stack).1, v.Stacked n := by
  induction height generalizing stack with
  | zero => exact h
  | succ height ih =>
    unfold dropTo
    split
    · exact h
    · split
      · exact Array.forall_pop h
      · exact ih (Array.forall_pop h)

theorem dropToMarker_calm (operand : Operand) : Calm L n (fun _ _ => True) (dropToMarker operand) := by
  have cuts (label : String) : @Still Exec _ _ _ _ Bool L n (fun _ => True) fun c w s =>
      let base := c.base
      let cut := dropTo label base c.stack.size c.stack
      (((.ok cut.2, { c with stack := cut.1 }), w), s) :=
    still_of fun c w s hc => ⟨_, _, rfl, fun _ => rfl,
      { hc with stack := dropTo_stacked label _ _ hc.stack }, fun _ _ => trivial, .ok _⟩
  exact (cuts _).bind fun _ _ => .ite (.throws rfl (by rintro ⟨⟩)) (.pure trivial)

/-! ## Operators -/

theorem binary_calm {f : Value → Value → StoreM Value}
    (hf : ∀ n a b, a.Ordinary n → b.Ordinary n → Calm L n Value.Ordinary (f a b)) :
    Calm L n (fun _ _ => True) (binary f) :=
  popValue_still.bind fun _ hb => popValue_still.bind fun _ ha => strictness_still.bind fun level _ =>
    (ofStoreM_calm (Operator.unify_calm level ha hb)).bind fun n _ (a, b) hab =>
      pushMade_calm (hf n a b hab.1 hab.2)

theorem arithmetic_calm {f : Operator.Arithmetic} (h : Operator.Calms f) :
    Calm L n (fun _ _ => True) (binary f.apply) :=
  binary_calm fun _ a b _ _ => Operator.apply_calm h a b

theorem equality_calm (same : Bool) : Calm L n (fun _ _ => True) (equality same) :=
  binary_calm fun _ _ _ _ _ => StoreM.get_still.bind fun _ _ => .pure trivial

theorem logical_calm (f : Bool → Bool → Bool) : Calm L n (fun _ _ => True) (logical f) :=
  popValue_still.bind fun _ _ => popValue_still.bind fun _ _ => push_calm trivial

theorem negateTop_calm : Calm L n (fun _ _ => True) negateTop :=
  popValue_still.bind fun v _ => pushMade_calm (Operator.negate_calm v)

theorem shiftBelow_calm : Calm L n (fun _ _ => True) shiftBelow :=
  popValue_still.bind fun count _ => popValue_still.bind fun v _ =>
    pushMade_calm (Operator.shift_calm v count)

/-! ## Names -/

/-- Pushing a value that is looked up and may be missing. -/
theorem pushFound_calm {read : Context → Store → Option Value} {f : Fault} (hf : f.Ordinary)
    (h : ∀ c s, s.Clear n → ∀ v ∈ read c s, v.Ordinary n)
    (same : ∀ g c s, read (Context.dressed g c) s = read c s) :
    Calm L n (fun _ _ => True) (do
      let v? : Option Value ← fun c w s => (((.ok (read c s), c), w), s)
      match v? with
      | some v => push v
      | none => throw f : Exec Unit) := by
  have reads : @Still Exec _ _ _ _ (Option Value) L n (fun found => ∀ v ∈ found, v.Ordinary n)
      fun c w s => (((.ok (read c s), c), w), s) := fun (c, w, s) clear size => by
    refine ⟨by exact size.symm ▸ clear, .refl s, fun _ ok => ?_, .ok _,
      fun g => congrArg (fun v => (Except.ok v, c.dressed g, w, s)) (same g c s)⟩
    cases ok
    exact ⟨size, h c s clear.2.2⟩
  refine reads.bind fun found hv => ?_
  cases found with
  | some v => exact push_calm (hv v rfl)
  | none => exact .throw hf

theorem loadName_calm (operand : Operand) : Calm L n (fun _ _ => True) (loadName operand) :=
  (nameOf_still operand).bind fun name _ => pushFound_calm (.of_kind rfl nofun)
    (fun c _ hs => hs.get? c.scope name false) fun _ _ _ => rfl

theorem storeName_calm (operand : Operand) : Calm L n (fun _ _ => True) (storeName operand) :=
  (nameOf_still operand).bind fun name _ => popValue_still.bind fun _ hv => scope_still.bind fun r _ =>
    ofStoreM_calm (r.set_calm name hv)

theorem openScope_calm : Calm L n (fun _ _ => True) openScope := fun (c, _, s) clear size => by
  have opened := clear.2.2.newBelow c.scope "block" false
  exact ⟨by exact opened.size.symm ▸ ⟨{ clear.1 with }, clear.2.1, opened⟩, .of_same rfl,
    fun _ _ => trivial, .ok _, fun _ => rfl⟩

theorem leaveScopes_calm (count : Nat) : Calm L n (fun _ _ => True) (leaveScopes count) := by
  induction count generalizing n with
  | zero => exact .pure trivial
  | succ count ih =>
    refine scope_still.bind fun r _ => (ofStore_still (R := fun _ => True) fun _ _ => trivial).bind
      fun t _ => ?_
    split
    · exact (modifyContext_calm (fun _ _ => by rfl) fun _ hc => by exact { hc with }).bind
        fun _ _ _ _ => ih
    · exact .throws rfl (by nofun)

theorem closeScopes_calm (operand : Operand) : Calm L n (fun _ _ => True) (closeScopes operand) :=
  leaveScopes_calm _

theorem createName_calm (operand : Operand) : Calm L n (fun _ _ => True) (createName operand) :=
  (nameOf_still operand).bind fun name _ => .ite (.pure trivial) <| scope_still.bind fun r _ =>
    ofStoreM_calm (r.create_calm name)

theorem deleteName_calm (operand : Operand) : Calm L n (fun _ _ => True) (deleteName operand) :=
  (nameOf_still operand).bind fun name _ => scope_still.bind fun r _ =>
    ofStoreM_calm (r.delete_calm name true)

theorem declareConstant_calm (operand : Operand) :
    Calm L n (fun _ _ => True) (declareConstant operand) :=
  (nameOf_still operand).bind fun name _ => popValue_still.bind fun _ hv => scope_still.bind fun r _ =>
    ofStoreM_calm (r.setConstant_calm name hv)

theorem bindFields_clear {fields : List (String × Value)} (hf : ∀ e ∈ fields, e.2.Ordinary n)
    (table : TableRef) (keys : List String) {s : Store} (hs : s.Clear n) :
    (keys.foldl (fun s k => match Association.find? k fields with
      | some v => table.setAlways k v s
      | none => s) s).Clear n := by
  induction keys generalizing s with
  | nil => exact hs
  | cons k rest ih =>
    refine ih ?_
    dsimp only
    split
    · next found => exact hs.setAlways (Association.forall_find? (P := Value.Ordinary n) hf _ found) _ _
    · exact hs

theorem bindFields_structs (fields : List (String × Value)) (table : TableRef) (keys : List String)
    (s : Store) : (keys.foldl (fun s k => match Association.find? k fields with
      | some v => table.setAlways k v s
      | none => s) s).structs = s.structs := by
  induction keys generalizing s with
  | nil => rfl
  | cons k rest ih =>
    refine (ih _).trans ?_
    dsimp only
    split <;> rfl

theorem explode_calm : Calm L n (fun _ _ => True) explode := by
  refine popValue_still.bind fun v _ => ?_
  split
  · exact (ofStore_still fun _ hs => hs.struct _).bind fun o ho => scope_still.bind fun table _ =>
      modifyStore_calm (fun _ hs => bindFields_clear ho.fields table _ hs)
        fun s => bindFields_structs _ _ _ s
  · exact wrongType_calm _

/-! ## Aggregates -/

theorem loadIndex_calm : Calm L n (fun _ _ => True) loadIndex :=
  popValue_still.bind fun _ hi => popValue_still.bind fun _ _ => pushMade_calm (Aggregate.item_calm hi)

/-- What an instruction that stores under an index links, as the stack says. -/
def Relinks (c : Context) (s : Store) : Links := fun r parent =>
  ∃ (below : Array Value) (container index v : Value),
    c.stack = ((below.push container).push index).push v ∧ Aggregate.Relinks s container index v r parent

theorem storeIndex_calm {c : Context} {w : World} {s : Store} (hc : c.Clear n) (hw : w.Clear n)
    (hs : s.Clear n) : CalmAt (Relinks c s) (fun _ _ => True) storeIndex (c, w, s) := by
  -- each value that is taken lay on what is left
  have takes {L : Links} {Q : Nat → Unit → Prop} {k : Value → Exec Unit} {c : Context}
      (hc : c.Clear n) (next : ∀ v below, c.stack = below.push v → v.Ordinary n →
        Context.Clear n { c with stack := below } →
          CalmAt L Q (k v) ({ c with stack := below }, w, s)) :
      CalmAt L Q (popValue >>= k) (c, w, s) := by
    have pops := popValue_still (L := L) (c, w, s) ⟨hc, hw, hs⟩ hs.size
    refine pops.bind fun v x ran => ?_
    have hv : v.Ordinary n := (pops.result v (congrArg Prod.fst ran)).2
    have alone : (popValue c w s).1.2 = w ∧ (popValue c w s).2 = s := by
      unfold popValue
      dsimp only
      split
      · exact ⟨rfl, rfl⟩
      · split <;> exact ⟨rfl, rfl⟩
    rcases here : popValue c w s with ⟨⟨⟨r, c'⟩, w'⟩, s'⟩
    simp only [Stateful.run, here, Prod.mk.injEq] at ran alone
    obtain ⟨rfl, rfl⟩ := ran
    obtain ⟨rfl, rfl⟩ := alone
    obtain ⟨below, top, rfl⟩ := popValue_ok here
    have values := hc.stack
    rw [top] at values
    exact next v below top hv
      { hc with stack := fun u mem => values u (Array.mem_push_of_mem v mem) }
  refine takes hc fun v b₁ top₁ hv hc₁ => takes hc₁ fun index b₂ top₂ hi hc₂ =>
    takes hc₂ fun container b₃ top₃ ho hc₃ => ?_
  dsimp only at top₁ top₂ top₃
  refine CalmAt.before (ofWorldM_calmAt (hs.size.symm ▸ hc₃) <|
    WorldM.ofStoreM_calmAt (hs.size.symm ▸ hw) ((Aggregate.setItem_calm hs hi hv).weaken ?_))
    fun _ le _ _ => push_calm (ho.mono (hs.size ▸ le))
  exact fun r parent links => ⟨b₃, container, index, v, by rw [top₁, top₂, top₃], links⟩

theorem loadSlice_calm : Calm L n (fun _ _ => True) loadSlice :=
  popValue_still.bind fun hi _ => popValue_still.bind fun lo _ => popValue_still.bind fun container _ =>
    pushMade_calm (Aggregate.slice_calm container lo hi)

theorem loadMember_calm (operand : Operand) (inherited : Bool) :
    Calm L n (fun _ _ => True) (loadMember operand inherited) :=
  (nameOf_still operand).bind fun name _ => popValue_still.bind fun v _ =>
    pushMade_calm (Aggregate.member_calm v name inherited)

theorem packArray_calm (operand : Operand) : Calm L n (fun _ _ => True) (packArray operand) := by
  have packs {n : Nat} (element : Ty) {items : List Value} (h : ∀ v ∈ items, v.Ordinary n) :
      Calm L n (fun _ _ => True)
        (do push (← (StoreM.array element items.toArray : StoreM Value)) : Exec Unit) :=
    pushMade_calm (StoreM.array_calm fun v mem => h v (List.mem_toArray.1 mem))
  unfold packArray
  dsimp only
  split
  · exact (typeOf_still _).bind fun element _ => (popValues_still _).bind fun items hi =>
      (ofStoreM_calm (Calm.listMapM Value.upward Value.upward hi fun _ _ hv =>
        Value.coerce_calm hv element)).bind fun _ _ _ => packs element
  · exact (popValues_still _).bind fun _ => packs .interface

theorem filled_calm {fill : Value} (hv : fill.Ordinary n) : Calm L n (fun _ _ => True) (do
      let size ← popValue
      match if size.kind.isInteger then size.asInt? else none with
      | some n =>
        if n.toInt < 0 then throw (.about .invalidIndex (Decimal.ofInt n.toInt))
        else
          let items ← (Aggregate.copies fill n.toInt.toNat #[] : StoreM (Array Value))
          push (← (StoreM.array .interface items : StoreM Value))
      | none => throw (.about .invalidIndex (← ofStore size.display)) : Exec Unit) := by
  refine popValue_still.bind fun size _ => ?_
  split
  · exact .ite (.throws rfl (by rintro ⟨⟩)) <|
      (ofStoreM_calm (Aggregate.copies_calm hv _ (by simp))).bind fun _ _ _ hi =>
        pushMade_calm (StoreM.array_calm hi)
  · exact (text_still _).bind fun _ _ => .throws rfl (by rintro ⟨⟩)

theorem makeArray_calm (operand : Operand) : Calm L n (fun _ _ => True) (makeArray operand) :=
  .ite (popValue_still.bind fun _ => filled_calm)
    ((Still.pure (by trivial)).bind fun _ => filled_calm)

theorem packStruct_calm (operand : Operand) : Calm L n (fun _ _ => True) (packStruct operand) := by
  unfold packStruct
  refine (popValues_still _).bind fun vs hv => ?_
  have entries := Aggregate.pairs_ordinary hv
  dsimp only
  split
  · exact pushMade_calm (Aggregate.mapOf_calm entries _)
  · exact pushMade_calm (Aggregate.packageOf_calm entries _)
  · exact pushMade_calm (Aggregate.structOf_calm entries)

theorem coerceTop_calm (operand : Operand) : Calm L n (fun _ _ => True) (coerceTop operand) :=
  (typeOf_still operand).bind fun t _ => popValue_still.bind fun _ hv =>
    pushMade_calm (Value.coerce_calm hv t)

/-! ## Output and checks -/

theorem write_calm (text : String) : Calm L n (fun _ _ => True) (write text) :=
  ofWorldM_calm ((WorldM.worldly_still fun _ _ => ⟨_, _, rfl, by rfl⟩).calm fun _ => id)

theorem print_calm (operand : Operand) : Calm L n (fun _ _ => True) (print operand) :=
  (popValues_still _).bind fun _ _ => getStore_still.bind fun _ _ => write_calm _

theorem say_calm : Calm L n (fun _ _ => True) say :=
  pop_still.bind fun _ _ => .ite (.pure trivial) ((text_still _).bind fun _ _ => write_calm _)

theorem log_calm : Calm L n (fun _ _ => True) log := popValue_still.bind fun _ _ => .pure trivial

theorem makeTemplate_calm (operand : Operand) : Calm L n (fun _ _ => True) (makeTemplate operand) := by
  refine popValue_still.bind fun v _ => ?_
  split
  · split
    · exact push_calm trivial
    · next failed => exact .throw (Template.ofSource_ordinary _ _ _ failed)
  · exact (text_still _).bind fun _ _ => .throws rfl (by nofun)

theorem timer_calm (operand : Operand) : Calm L n (fun _ _ => True) (timer operand) := by
  refine getWorld_still.bind fun w _ =>
    .ite (modifyContext_calm (fun _ _ => rfl) fun _ hc => by exact { hc with }) ?_
  refine (ofContext_still (R := fun _ => True) (fun _ _ => trivial) fun _ _ => rfl).bind
    fun timers _ => ?_
  split
  · exact .throws rfl (by nofun)
  · exact (modifyContext_calm (fun _ _ => by rfl) fun _ hc => by exact { hc with }).bind
      fun _ _ _ _ => push_calm (by trivial)

theorem setReceiver_calm : Calm L n (fun _ _ => True) setReceiver :=
  popValue_still.bind fun _ hv => modifyContext_calm
    (fun _ _ => rfl) fun _ hc => by exact { hc with receivers := Array.forall_push hc.receivers hv }

theorem loadReceiver_calm : Calm L n (fun _ _ => True) loadReceiver := by
  refine scope_still.bind fun r _ => (ofStore_still (R := fun found => ∀ v ∈ found, v.Ordinary n)
    fun _ hs => hs.get? r receiverName false).bind fun found hv => ?_
  cases found with
  | some v => exact push_calm (hv v rfl)
  | none => exact .throws rfl (by nofun)

theorem argumentCount_still : Still L n (fun _ => True) argumentCount :=
  scope_still.bind fun _ _ => ofStore_still fun _ _ => trivial

theorem checkArguments_calm (operand : Operand) : Calm L n (fun _ _ => True) (checkArguments operand) :=
  (argumentCount_still.bind (Q := fun _ _ => True) fun _ _ => .pure trivial).bind fun _ _ _ _ =>
    .ite (.throws rfl (by nofun)) (.pure trivial)

theorem requireType_calm (operand : Operand) : Calm L n (fun _ _ => True) (requireType operand) := by
  refine (typeOf_still operand).bind fun t _ => popValue_still.bind fun v hv =>
    strictness_still.bind fun level _ => ?_
  cases level with
  | strict => exact getStore_still.bind fun _ _ => .ite (.throws rfl (by nofun)) (push_calm hv)
  | dynamic => exact push_calm hv
  | relaxed => exact pushMade_calm (Value.coerce_calm hv t)

theorem setStrictness_calm (operand : Operand) : Calm L n (fun _ _ => True) (setStrictness operand) := by
  unfold setStrictness
  split
  · exact modifyContext_calm (fun _ _ => rfl) fun _ hc => by exact { hc with }
  · exact wrongOperand_calm _ (by nofun)

/-! ## Control -/

theorem addressOf_still (operand : Operand) : Still L n (fun _ => True) (addressOf operand) := by
  refine (ofContext_still (R := fun _ => True) (fun _ _ => trivial) fun _ _ => rfl).bind fun r _ =>
    (ofStore_still (R := fun _ => True) fun _ _ => trivial).bind fun size _ => ?_
  split
  · exact .ite (Still.pure trivial) (wrongOperand_calm _ (by nofun))
  · exact wrongOperand_calm _ (by nofun)

theorem jump_calm (target : Nat) : Calm L n (fun _ _ => True) (jump target) :=
  modifyContext_calm (fun _ _ => rfl) fun _ hc => by exact { hc with }

theorem branch_calm (operand : Operand) : Calm L n (fun _ _ => True) (branch operand) :=
  (addressOf_still operand).bind fun _ _ => jump_calm _

theorem branchIf_calm (taken : Bool) (operand : Operand) :
    Calm L n (fun _ _ => True) (branchIf taken operand) :=
  (addressOf_still operand).bind fun _ _ => popValue_still.bind fun _ _ =>
    .ite (jump_calm _) (.pure trivial)

/-- No value on a clear stack is a signal, so none is raised again. -/
theorem panic_calm : Calm L n (fun _ _ => True) panic := by
  refine popValue_still.bind fun v hv => ?_
  split
  · exact .throw hv
  · exact (text_still _).bind fun _ _ => .throws rfl (by nofun)

theorem enterTry_calm (operand : Operand) : Calm L n (fun _ _ => True) (enterTry operand) :=
  (addressOf_still operand).bind fun _ _ =>
    modifyContext_calm (fun _ _ => rfl) fun _ hc => by exact { hc with }

theorem leaveTry_calm : Calm L n (fun _ _ => True) leaveTry := by
  refine (ofContext_still (R := fun _ => True) (fun _ _ => trivial) fun _ _ => rfl).bind
    fun tries _ => ?_
  split
  · exact .throws rfl (by nofun)
  · exact modifyContext_calm (fun _ _ => rfl) fun _ hc => by exact { hc with }

/-! ## Results -/

theorem pushResults_calm {vs : List Value} (h : ∀ v ∈ vs, v.Stacked n) (multi : Bool) :
    Calm L n (fun _ _ => True) (pushResults vs multi) := by
  unfold pushResults
  split
  · exact push_stacked (.inl rfl)
  · exact push_stacked (h _ List.mem_cons_self)
  · refine .ite (pushAll_calm (List.forall_mem_cons.2 ⟨.inl rfl, fun v mem => ?_⟩))
      (.throws rfl (by nofun))
    exact h v (List.mem_reverse.1 mem)

theorem pushResult_calm {v : Value} (hv : v.Returned n) (multi : Bool) :
    Calm L n (fun _ _ => True) (pushResult v multi) := by
  unfold pushResult
  split
  · exact (ofStore_still fun _ hs => hs.tuple _).bind fun _ hv => pushResults_calm hv multi
  · next single => exact push_calm (hv.resolve_right fun ⟨r, same⟩ => single r same)

theorem pushWithError_calm {v error : Value} (hv : v.Ordinary n) (he : error.Ordinary n) (multi : Bool) :
    Calm L n (fun _ _ => True) (pushWithError v error multi) := by
  have marker : (Value.marker .results).Stacked n := .inl rfl
  refine pushAll_calm ?_
  split
  · simpa using And.intro marker (And.intro he.stacked hv.stacked)
  · simpa using hv.stacked

/-- What a call of a builtin is to be given: an ordinary value, or a group of results if it does not
return its errors; or a fault that is no signal. -/
structure Given (n : Nat) (call : PendingCall) (result : Except Fault Value) : Prop where
  value : ∀ v, result = .ok v → v.Returned n
  single : ∀ r, result = .ok (.tuple r) → call.callee.returnsError = false
  fault : Except.Ordinary result

section

variable {call : PendingCall}

theorem Given.returned {v : Value} (h : v.Returned n) (waits : call.callee.returnsError = false) :
    Given n call (.ok v) :=
  ⟨fun _ same => by cases same; exact h, fun _ _ => waits, .ok v⟩

theorem Given.ok {v : Value} (h : v.Ordinary n) : Given n call (.ok v) :=
  ⟨fun _ same => by cases same; exact .inl h, fun _ same => by cases same; exact h.elim, .ok v⟩

theorem Given.error {f : Fault} (h : f.Ordinary) : Given n call (.error f) :=
  ⟨(fun _ ok => by cases ok), (fun _ ok => by cases ok), .error h⟩

end

theorem complete_calm (call : PendingCall) {result : Except Fault Value} (h : Given n call result) :
    Calm L n (fun _ _ => True) (complete call result) := by
  cases result with
  | ok v =>
    have returned := h.value v rfl
    rw [complete]
    split
    · next erring =>
      have ordinary : v.Ordinary n := returned.resolve_right fun ⟨r, same⟩ =>
        Bool.noConfusion (erring.symm.trans (h.single r (same ▸ rfl)))
      exact pushWithError_calm ordinary (by trivial) _
    · exact pushResult_calm returned _
  | error f =>
    have hf := h.fault f rfl
    have nothing : Value.nil.Ordinary n := trivial
    have carried : (Value.error f).Ordinary n := hf
    exact .ite (.throw hf) <| .ite (pushWithError_calm nothing carried _)
      (.throw (.causedBy (by nofun) hf))

/-! ## Calls -/

theorem calleeScope_clear (unit : Code) (captured : Option TableRef) (caller : TableRef) {s : Store}
    (h : s.Clear n) : (calleeScope unit captured caller s).2.Clear n := by
  unfold calleeScope
  split <;> exact h.newBelow _ _ _

theorem calleeScope_structs (unit : Code) (captured : Option TableRef) (caller : TableRef)
    (s : Store) : (calleeScope unit captured caller s).2.structs = s.structs := by
  unfold calleeScope
  split <;> rfl

theorem callFunction_calm (code : CodeRef) (captured : Option TableRef) {args : List Value}
    {receiver : Option Value} (ha : ∀ v ∈ args, v.Ordinary n) (hr : ∀ v ∈ receiver, v.Ordinary n)
    (multi : Bool) : Calm L n (fun _ _ => True) (callFunction code captured args receiver multi) := by
  have packed : Calm L n Value.Ordinary (StoreM.array .interface args.toArray) :=
    StoreM.array_calm fun v mem => ha v (List.mem_toArray.1 mem)
  refine (ofStoreM_calm packed).bind fun n le args ha => ?_
  rintro ⟨c, w, s⟩ ⟨hc, hw, hs⟩ size
  have opened := (calleeScope_clear (s.code code) captured c.scope hs).setAlways ha
    (calleeScope (s.code code) captured c.scope s).1 argumentsName
  have called {stack : Array Value} {f : Frame} (same : stack = c.stack.push (.frame f)) :
      ∀ v ∈ stack, v.Stacked n := same ▸ Array.forall_push hc.stack (.inr trivial)
  have same := calleeScope_structs (s.code code) captured c.scope s
  cases receiver with
  | none =>
    exact ⟨by exact opened.size.symm ▸ ⟨{ hc with stack := called rfl }, hw, opened⟩, .of_same same,
      fun _ _ => trivial, .ok _, fun _ => rfl⟩
  | some v =>
    have opened := opened.setAlways ((hr v rfl).mono le)
      (calleeScope (s.code code) captured c.scope s).1 receiverName
    exact ⟨by exact opened.size.symm ▸ ⟨{ hc with stack := called rfl }, hw, opened⟩, .of_same same,
      fun _ _ => trivial, .ok _, fun _ => rfl⟩

/-- The outcome of a builtin, which may be a fault, as a result. -/
theorem attempt_calm {m : WorldM α} (h : Calm L n P m) : @Calm Exec _ _ _ _ (Except Fault α) L n
    (fun n r => (∀ a, r = .ok a → P n a) ∧ Except.Ordinary r) fun c w s =>
      let ((r, w), s) := m w s
      (((.ok r, c), w), s) := fun (_, w, s) clear size =>
  let ⟨clear', kin, result, ordinary, _⟩ := h (w, s) clear.2 size
  ⟨⟨clear.1.mono (size ▸ kin.size_le), clear'⟩, kin,
    fun _ ok => by cases ok; exact ⟨result, ordinary⟩, .ok _, fun _ => rfl⟩

/-- A request of a builtin in which all is ordinary. -/
def ClearRequest (n : Nat) (request : Option (PendingCall × Answer)) : Prop :=
  ∀ r ∈ request, r.1.callee.Answers n r.2

theorem ClearRequest.none : ClearRequest n none := fun _ mem => by cases mem

theorem callNative_calm (f : Native) {args : List Value} {receiver : Option Value}
    (ha : ∀ v ∈ args, v.Ordinary n) (hr : ∀ v ∈ receiver, v.Ordinary n) (multi : Bool) :
    Calm L n ClearRequest (callNative f args receiver multi) := by
  unfold callNative
  split
  · next failed =>
    refine .throw ?_
    unfold Native.checkArity at failed
    split at failed
    · cases failed
    · cases failed
      exact .of_kind rfl nofun
  · refine scope_still.bind fun caller _ => ?_
    refine (attempt_calm (Native.run_calm ⟨ha, hr⟩ f)).bind fun n _ answer ⟨result, ordinary⟩ => ?_
    split
    · exact (complete_calm _ (.ok (result _ rfl).ordinary)).bind fun _ _ _ _ => .pure .none
    · refine .pure ?_
      rintro _ ⟨⟩
      exact result _ rfl
    · exact (complete_calm _ (.error (ordinary _ rfl))).bind fun _ _ _ _ => .pure .none

theorem callType_calm (t : Ty) {args : List Value} (ha : ∀ v ∈ args, v.Ordinary n) :
    Calm L n (fun _ _ => True) (callType t args) := by
  unfold callType
  split
  · exact pushMade_calm (Value.zero_calm t)
  · exact pushMade_calm (Value.coerce_calm (ha _ List.mem_cons_self) t)
  · exact Still.bind (R := Value.Ordinary n) (.throws rfl (by nofun)) fun _ => push_calm

theorem readCall_still (operand : Operand) : Still L n (fun _ => True) (readCall operand) := by
  unfold readCall
  split
  · split
    · exact Still.pure trivial
    · exact wrongOperand_calm _ (by nofun)
  · exact Still.pure trivial

theorem spreadCount_still (count : Nat) (flags : CallFlags) :
    Still L n (fun _ => True) (spreadCount count flags) := by
  refine .ite (pop_still.bind fun v _ => ?_) (Still.pure trivial)
  split
  · exact Still.pure trivial
  · exact .throws rfl (by nofun)

theorem receiverOf_still (flags : CallFlags) :
    Still L n (fun receiver => ∀ v ∈ receiver, v.Ordinary n) (receiverOf flags) := by
  refine .ite ?_ (Still.pure fun _ mem => by cases mem)
  exact still_of fun c w s hc => ⟨_, _, rfl, fun _ => rfl,
    { hc with receivers := Array.forall_pop hc.receivers },
    fun _ ok => by cases ok; exact fun v last => hc.receivers v (Array.mem_of_back? last), .ok _⟩

theorem applyValue_calm (callee : Value) {args : List Value} {receiver : Option Value}
    (ha : ∀ v ∈ args, v.Ordinary n) (hr : ∀ v ∈ receiver, v.Ordinary n) (multi : Bool) :
    Calm L n ClearRequest (applyValue callee args receiver multi) := by
  unfold applyValue
  split
  · exact (callFunction_calm _ _ ha hr multi).bind fun _ _ _ _ => .pure .none
  · exact callNative_calm _ ha hr multi
  · exact (callType_calm _ ha).bind fun _ _ _ _ => .pure .none
  · exact (text_still _).bind fun _ _ => .throws rfl (by nofun)

theorem call_calm (operand : Operand) : Calm L n ClearRequest (call operand) := by
  rw [call_eq]
  exact (readCall_still operand).bind fun (count, flags) _ => (spreadCount_still count flags).bind
    fun total _ => (popValues_still total).bind fun args ha => popValue_still.bind fun callee _ =>
    (receiverOf_still flags).bind fun receiver hr => applyValue_calm callee ha hr flags.multi

theorem leave_calm (count : Nat) : Calm L n (fun _ _ => True) (leave count) := by
  refine (ofContext_still (R := fun _ => True) (fun _ _ => trivial) fun _ _ => rfl).bind fun depth _ =>
    .ite (.throws rfl (by nofun)) <| (popMany_still count).bind fun vs hv => ?_
  have takes : Still L n (fun _ => True) takeFrame := still_of fun c w s hc => ⟨_, _, rfl, fun _ => rfl,
    { hc with stack := Array.forall_pop (Array.forall_shrink hc.stack _) }, fun _ _ => trivial, .ok _⟩
  refine takes.bind fun frame _ => ?_
  split
  · exact (modifyContext_calm (fun _ _ => by rfl) fun _ hc => by
      exact { hc with receivers := Array.forall_shrink hc.receivers _ }).bind fun _ le _ _ =>
        pushResults_calm (fun v mem => (hv v mem).mono le) _
  · exact .throws rfl (by nofun)

/-! ## Instructions -/

/-- An instruction that no debugger stops at puts no signal anywhere, and links no structs but where
it stores under an index. -/
theorem perform_calm {i : Instruction} (noLine : i.op ≠ .atLine) (noLink : i.op ≠ .storeIndex)
    (h : i.operand.Ordinary n) : Calm L n (fun _ _ => True) (perform i) := by
  obtain ⟨op, operand⟩ := i
  cases op with
  | noOperation | call => exact .pure trivial
  | push => exact pushOperand_calm h
  | drop => exact dropValues_calm operand
  | dup => exact dup_calm
  | swap => exact swap_calm
  | copy => exact copyTop_calm
  | readStack => exact readStack_calm operand
  | flatten => exact flatten_calm
  | dropToMarker => exact dropToMarker_calm operand
  | load => exact loadName_calm operand
  | store => exact storeName_calm operand
  | loadIndex => exact loadIndex_calm
  | storeIndex => exact absurd rfl noLink
  | loadSlice => exact loadSlice_calm
  | member => exact loadMember_calm operand false
  | classMember => exact loadMember_calm operand true
  | array => exact packArray_calm operand
  | makeArray => exact makeArray_calm operand
  | struct => exact packStruct_calm operand
  | coerce => exact coerceTop_calm operand
  | explode => exact explode_calm
  | add => exact binary_calm fun _ _ _ => Operator.add_calm
  | sub => exact binary_calm fun _ a b _ _ => Operator.subtract_calm a b
  | mul => exact arithmetic_calm Operator.multiplication_calms
  | div => exact arithmetic_calm Operator.division_calms
  | exp => exact arithmetic_calm Operator.power_calms
  | modulo => exact arithmetic_calm Operator.remainder_calms
  | negate => exact negateTop_calm
  | and | or => exact logical_calm _
  | bitAnd | bitOr => exact binary_calm fun _ a b _ _ => Operator.bitwise_calm _ _ a b
  | bitShift => exact shiftBelow_calm
  | equal | notEqual => exact equality_calm _
  | lessThan | lessThanOrEqual | greaterThan | greaterThanOrEqual =>
    exact binary_calm fun _ a b _ _ => Operator.ordered_calm _ a b
  | leave => exact leave_calm _
  | stop | branchLimit => exact .throws rfl (by nofun)
  | panic => exact panic_calm
  | atLine => exact absurd rfl noLine
  | pushScope => exact openScope_calm
  | popScope => exact closeScopes_calm operand
  | symbolCreate => exact createName_calm operand
  | symbolDelete => exact deleteName_calm operand
  | constant => exact declareConstant_calm operand
  | tryPop => exact leaveTry_calm
  | print => exact print_calm operand
  | newline => exact write_calm _
  | say => exact say_calm
  | log => exact log_calm
  | template => exact makeTemplate_calm operand
  | timer => exact timer_calm operand
  | setThis => exact setReceiver_calm
  | loadThis => exact loadReceiver_calm
  | argCheck => exact checkArguments_calm operand
  | requiredType => exact requireType_calm operand
  | staticTyping => exact setStrictness_calm operand
  | tryBlock => exact enterTry_calm operand
  | branch => exact branch_calm operand
  | branchTrue => exact branchIf_calm true operand
  | branchFalse => exact branchIf_calm false operand

end Exec

end StackScript
