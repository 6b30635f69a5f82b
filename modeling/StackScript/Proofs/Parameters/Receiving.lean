import StackScript.Proofs.Assignments.Destinations
import StackScript.Proofs.Copies.Reaching
import StackScript.Proofs.Parameters.Prologue
import StackScript.Proofs.Statements.Running

/-!
# Receiving arguments

What a parameter makes of its argument, as its type and the strictness ask, and what it takes to
bind it in a table where its name is new: objects are added, and no other name is bound anew.

Main statements: `Ty.receive_converts` and `bindName_new`.
-/
namespace StackScript

open StoreM (Within)

/-! ## Conversions -/

/-- A value that is checked, left alone or converted, as the strictness at run time says. -/
def Ty.require (level : Strictness) (t : Ty) (v : Value) : StoreM Value :=
  match level with
  | .strict => do
    let s ← get
    if !(v.typeOf s).compatible t && !v.isNil then throw (Exec.mismatch s v t) else pure v
  | .dynamic => pure v
  | .relaxed => v.coerce t

/-- An argument as a parameter of a type takes it. A function compiled under strict typing converts
it; else the strictness at run time decides. Structs are copied, and functions and pointers are
taken as they are. -/
def Ty.receive (strict : Bool) (level : Strictness) (t : Ty) (v : Value) : StoreM Value :=
  if t.isInterface || t.kind == .function || t.kind == .pointer then pure v
  else if t.kind == .struct then v.copy
  else if strict then v.coerce t
  else t.require level v

/-- The faults of conversions. -/
def Fault.IsConversion (f : Fault) : Prop :=
  f.kind = .invalidConversion ∨ f.kind = .typeMismatch ∨ f.kind = .invalidType ∨ f.kind = .voidReturn

/-- What the computation gives satisfies `P`, and its faults are those of conversions. -/
def StoreM.Converts {α : Type} (P : α → Prop) (m : StoreM α) : Prop := ∀ s,
  match m s with
  | (.ok a, _) => P a
  | (.error f, _) => f.IsConversion

/-- A value that is no marker. -/
def Value.Proper (v : Value) : Prop := v.isMarker = false

namespace StoreM.Converts

variable {α β : Type} {P : α → Prop} {Q : β → Prop} {m : StoreM α} {f : α → StoreM β}

theorem pure {a : α} (h : P a) : Converts P (Pure.pure a) := fun _ => h

theorem throw {f : Fault} (h : f.IsConversion) : Converts P (MonadExcept.throw f) := fun _ => h

theorem get : Converts (fun _ => True) (MonadState.get : StoreM Store) := fun _ => trivial

theorem bind (first : Converts P m) (next : ∀ a, P a → Converts Q (f a)) :
    Converts Q (m >>= f) := by
  intro s
  have here := first s
  rcases ran : m s with ⟨f | a, t⟩ <;> rw [ran] at here
  · rw [bind_of_error ran]
    exact here
  · rw [bind_of_ok ran]
    exact next a here t

theorem ite {p : Prop} [Decidable p] {yes no : StoreM α} (hyes : Converts P yes)
    (hno : Converts P no) : Converts P (if p then yes else no) := by
  split
  · exact hyes
  · exact hno

theorem mapM {f : α → StoreM β} (each : ∀ a, Converts (fun _ => True) (f a)) (items : Array α) :
    Converts (fun _ => True) (items.mapM f) := by
  rw [Array.mapM_eq_foldlM, ← Array.foldlM_toList]
  generalize (#[] : Array β) = start
  induction items.toList generalizing start with
  | nil => exact pure trivial
  | cons a rest ih =>
    rw [List.foldlM_cons]
    exact bind (bind (each a) fun _ _ => pure (P := fun _ => True) trivial) fun _ _ => ih _

theorem weaken (h : Converts P m) : Converts (fun _ => True) m := by
  intro s
  have here := h s
  rcases ran : m s with ⟨f | a, t⟩ <;> rw [ran] at here
  · exact here
  · trivial

theorem array (element : Ty) (items : Array Value) : Converts Value.Proper (StoreM.array element items) :=
  fun _ => rfl

theorem struct (o : StructObject) : Converts Value.Proper (StoreM.struct o) := fun _ => rfl

theorem map (m : MapObject) : Converts Value.Proper (StoreM.map m) := fun _ => rfl

end StoreM.Converts

namespace Value

open StoreM (Converts)

theorem zeroPlain_converts (name : Option String) (kind : Kind) :
    Converts Proper (zeroNamed name (.plain kind)) := by
  cases kind with
  | array => exact .array _ _
  | map => exact .map _
  | struct => exact .struct _
  | waitGroup | mutex => exact fun _ => rfl
  | _ => exact .pure rfl

mutual
theorem zeroNamed_converts : (name : Option String) → (t : Ty) → Converts Proper (zeroNamed name t)
  | name, .named n t => zeroNamed_converts (name.or (some n)) t
  | _, .array _ => .array _ _
  | _, .map _ _ => .map _
  | _, .struct fields => .bind (zeroFields_converts fields) fun _ _ => .struct _
  | _, .pointer _ => .pure rfl
  | _, .channel _ => .pure rfl
  | name, .plain kind => zeroPlain_converts name kind
theorem zeroFields_converts : (fields : List (String × Ty)) →
    Converts (fun _ => True) (zeroFields fields)
  | [] => .pure trivial
  | (_, t) :: rest => .bind (zeroNamed_converts none t) fun _ _ =>
    .bind (zeroFields_converts rest) fun _ _ => .pure trivial
end

theorem conversionFault_converts {P : Value → Prop} (v : Value) (t : Ty) :
    Converts P (conversionFault v t) := .bind .get fun _ _ => .throw (.inl rfl)

theorem toText_converts (v : Value) : Converts Proper (toText v) := by
  refine .bind .get fun s _ => ?_
  split
  · dsimp only
    split <;> exact .pure rfl
  · exact .pure rfl

theorem toBool_converts (v : Value) : Converts Proper (toBool v) := by
  unfold toBool
  split
  · split
    · exact .pure rfl
    · exact .pure rfl
    · exact conversionFault_converts _ _
  · exact .ite (.pure rfl) (conversionFault_converts _ _)

theorem toFloating_converts (kind : Kind) (v : Value) : Converts Proper (toFloating kind v) := by
  unfold toFloating
  dsimp only
  split
  · refine .pure ?_
    split <;> rfl
  · exact conversionFault_converts _ _

theorem toInteger_converts (kind : Kind) (v : Value) : Converts Proper (toInteger kind v) := by
  unfold toInteger
  dsimp only
  split
  · refine .pure ?_
    unfold ofInteger
    split <;> rfl
  · exact conversionFault_converts _ _

theorem coerceScalar_converts (kind : Kind) {v : Value} (proper : v.Proper) :
    Converts Proper (coerceScalar kind v) := by
  refine .ite (.pure proper) <| .ite (.pure ?_) <| .ite (toText_converts v) <|
    .ite (toBool_converts v) <| .ite (toFloating_converts kind v) (toInteger_converts kind v)
  unfold zeroScalar
  split <;> rfl

theorem keyOf_converts (v : Value) : Converts (fun _ => True) (keyOf v) := by
  unfold keyOf
  split
  · exact .pure trivial
  · exact .bind .get fun _ _ => .throw (.inr (.inr (.inl rfl)))

theorem coerceEntries_converts {toKey toItem : Value → StoreM Value}
    (key : ∀ v, Converts (fun _ => True) (toKey v)) (item : ∀ v, Converts (fun _ => True) (toItem v))
    (entries : List (Value × Value)) (done : List (MapKey × Value)) :
    Converts (fun _ => True) (coerceEntries toKey toItem entries done) := by
  induction entries generalizing done with
  | nil => exact .pure trivial
  | cons e rest ih =>
    exact .bind (key e.1) fun _ _ => .bind (keyOf_converts _) fun _ _ => .bind (item e.2) fun _ _ => ih _

section

variable {toKey toItem : Value → StoreM Value} {v : Value} (proper : v.Proper)
include proper

theorem coerceToMap_converts (key : ∀ v, Converts (fun _ => True) (toKey v))
    (item : ∀ v, Converts (fun _ => True) (toItem v)) (whole k t : Ty) :
    Converts Proper (coerceToMap whole k t toKey toItem v) := by
  refine .bind .get fun s _ => ?_
  split
  · exact zeroNamed_converts _ _
  · dsimp only
    refine .ite (.pure rfl) ?_
    exact .bind (coerceEntries_converts key item _ _) fun _ _ => .map _
  · exact .bind (coerceEntries_converts key item _ _) fun _ _ => .map _
  · exact conversionFault_converts _ _

theorem coerceToStruct_converts (whole : Ty) : Converts Proper (coerceToStruct whole v) := by
  unfold coerceToStruct
  split
  · exact zeroNamed_converts _ _
  · exact .pure rfl
  · exact .bind .get fun _ _ => .struct _
  · exact conversionFault_converts _ _

theorem coerceToKind_converts (whole : Ty) (kind : Kind) :
    Converts Proper (coerceToKind whole kind v) := by
  unfold coerceToKind
  split
  · exact zeroNamed_converts _ _
  · exact .pure rfl
  · exact .ite (.pure proper) (conversionFault_converts _ _)

end

theorem unchanged_converts (v : Value) : Converts Proper (unchanged v) := by
  unfold unchanged
  split
  · exact .throw (.inr (.inr (.inr rfl)))
  · rename_i proper
    exact .pure (Bool.eq_false_iff.2 proper)

/-- A marker is converted to nothing. -/
theorem unmarked {v : Value} {m : StoreM Value} (h : v.Proper → Converts Proper m) :
    Converts Proper (if v.isMarker then MonadExcept.throw (Fault.of .voidReturn) else m) := by
  split
  · exact .throw (.inr (.inr (.inr rfl)))
  · rename_i proper
    exact h (Bool.eq_false_iff.2 proper)

theorem coerceAs_converts : (t whole : Ty) → (v : Value) → Converts Proper (coerceAs whole t v)
  | .named _ t, whole, v => unmarked fun _ => coerceAs_converts t whole v
  | .pointer _, _, _ => unmarked fun proper => .pure proper
  | .array element, whole, v => unmarked fun proper => by
    dsimp only
    split
    · exact zeroNamed_converts _ _
    · refine .bind .get fun s _ => .ite (.pure proper) ?_
      exact .bind (.mapM (fun v => (coerceAs_converts element element v).weaken) _) fun _ _ =>
        .array _ _
    · exact .ite (.array _ _) (conversionFault_converts _ _)
    · exact conversionFault_converts _ _
  | .map key value, whole, v => unmarked fun proper =>
    coerceToMap_converts proper (fun v => (coerceAs_converts key key v).weaken)
      (fun v => (coerceAs_converts value value v).weaken) _ _ _
  | .struct _, whole, v => unmarked fun proper => coerceToStruct_converts proper whole
  | .channel _, whole, v => unmarked fun proper => coerceToKind_converts proper whole .channel
  | .plain kind, whole, v => unmarked fun proper => .ite (.pure proper) <|
    .ite (coerceScalar_converts kind proper) <|
    .ite (coerceToMap_converts proper (fun v => (unchanged_converts v).weaken)
      (fun v => (unchanged_converts v).weaken) _ _ _) <|
    .ite (coerceToStruct_converts proper whole) (coerceToKind_converts proper whole kind)

theorem copy_converts {v : Value} (proper : v.Proper) : Converts Proper v.copy := by
  have parts {α : Type} {m : StoreM α} (h : m.Succeeds) : Converts (fun _ => True) m := fun s => by
    obtain ⟨a, t, done⟩ := h s
    rw [done]
    trivial
  refine .bind .get fun s _ => ?_
  cases v
  case array =>
    exact .bind .get fun _ _ => .bind (parts (.mapM (copyTo_succeeds _) _)) fun _ _ => .array _ _
  case struct =>
    exact .bind .get fun _ _ => .bind (parts (copyEntries_succeeds (copyTo_succeeds _) _))
      fun _ _ => .struct _
  case map =>
    exact .bind .get fun _ _ => .bind (parts (copyEntries_succeeds (copyTo_succeeds _) _))
      fun _ _ => .map _
  all_goals exact .pure proper

end Value

namespace Ty

variable (strict : Bool) (level : Strictness) (t : Ty) (v : Value)

/-- An argument is received as a value, unless it is not converted. -/
theorem receive_converts (proper : v.Proper) :
    StoreM.Converts Value.Proper (t.receive strict level v) := by
  refine .ite (.pure proper) <| .ite (Value.copy_converts proper) <|
    .ite (Value.coerceAs_converts t t v) ?_
  cases level with
  | strict => exact .bind .get fun s _ => .ite (.throw (.inr (.inl rfl))) (.pure proper)
  | dynamic => exact .pure proper
  | relaxed => exact Value.coerceAs_converts t t v

/-- What it takes to receive an argument are new objects. -/
theorem receive_within {R : Store → Store → Prop} (h : Store.AddsObjects R) :
    Within R (t.receive strict level v) := by
  refine .ite (.pure h v) <| .ite (v.copy_within h) <| .ite (v.coerce_within h t) ?_
  cases level with
  | strict => exact .bind h (.get h) fun s => .ite (.throw h rfl) (.pure h v)
  | dynamic => exact .pure h v
  | relaxed => exact v.coerce_within h t

end Ty

/-! ## Names -/

/-- Objects are added, and no names but these are bound anew in a table. -/
structure Store.Adds (s s' : Store) (r : TableRef) (names : List String) : Prop where
  grown : s.GrowsTo s'
  codes : s'.codes = s.codes
  size : s'.tables.size = s.tables.size
  others : ∀ other ∉ names, (s'.table r).binding? other = (s.table r).binding? other
  seen : ∀ other ∉ names, r.get? s' other false = r.get? s other false

namespace Store

variable {s s' s'' : Store} {r : TableRef} {name other : String} {names names' : List String}

theorem Adds.refl (s : Store) (r : TableRef) : s.Adds s r [] :=
  ⟨.refl s, rfl, rfl, fun _ _ => rfl, fun _ _ => rfl⟩

theorem Adds.mono (h : s.Adds s' r names) (more : names ⊆ names') : s.Adds s' r names' where
  grown := h.grown
  codes := h.codes
  size := h.size
  others other fresh := h.others other fun mem => fresh (more mem)
  seen other fresh := h.seen other fun mem => fresh (more mem)

theorem Adds.trans (h : s.Adds s' r names) (k : s'.Adds s'' r names') :
    s.Adds s'' r (names ++ names') where
  grown := h.grown.trans k.grown
  codes := k.codes.trans h.codes
  size := k.size.trans h.size
  others other fresh := by
    rw [List.mem_append, not_or] at fresh
    exact (k.others other fresh.2).trans (h.others other fresh.1)
  seen other fresh := by
    rw [List.mem_append, not_or] at fresh
    exact (k.seen other fresh.2).trans (h.seen other fresh.1)

/-- Other names are found where they were when one is bound anew. -/
theorem Rebinds.get?_other {b : Option Binding} (h : s.Rebinds s' r name b) (apart : other ≠ name)
    (q : TableRef) (full : Bool) : q.get? s' other full = q.get? s other full := by
  have same (q : TableRef) : (s'.table q).binding? other = (s.table q).binding? other :=
    h.others (.inr apart)
  have found (q : TableRef) : q.find? s' other full = q.find? s other full := by
    unfold TableRef.find?
    generalize q.index + 1 = bound
    have next (q : TableRef) : (s'.table q).next full = (s.table q).next full := by
      rw [h.shape q]
      rfl
    induction bound generalizing q with
    | zero => rfl
    | succ bound ih => simp only [TableRef.findTo, Table.binds_eq, same, next, ih]
  simp only [TableRef.get?, TableRef.resolve?, found, same]

/-- What only adds objects binds no name. -/
theorem Adds.of_within {α : Type} {m : StoreM α}
    (h : ∀ {R : Store → Store → Prop}, Store.AddsObjects R → Within R m) (s : Store) (r : TableRef) :
    s.Adds (m s).2 r [] := by
  have tables := (h Store.addsObjects_tables).store s
  have same (q : TableRef) : (m s).2.table q = s.table q := table_eq_of_tables tables q
  have found (q : TableRef) (other : String) :
      q.find? (m s).2 other false = q.find? s other false := by
    unfold TableRef.find?
    generalize q.index + 1 = bound
    induction bound generalizing q with
    | zero => rfl
    | succ bound ih => simp only [TableRef.findTo, same, ih]
  refine ⟨(h (addsObjects_keeps _)).store s, (h Store.addsObjects_codes).store s,
    congrArg Array.size tables, fun _ _ => by rw [same], fun _ _ => ?_⟩
  simp only [TableRef.get?, TableRef.resolve?, found, same]

/-- Binding a name anew binds no other. -/
theorem Rebinds.adds {b : Option Binding} (h : s.Rebinds s' r name b) (grown : s.GrowsTo s')
    (codes : s'.codes = s.codes) : s.Adds s' r [name] where
  grown := grown
  codes := codes
  size := h.size
  others _ fresh := h.others (.inr fun same => fresh (List.mem_singleton.2 same))
  seen _ fresh := h.get?_other (fun same => fresh (List.mem_singleton.2 same)) r false

theorem growsTo_modifyTable (s : Store) (r : TableRef) (f : Table → Table) :
    s.GrowsTo (s.modifyTable r f) := ⟨fun p => by cases p <;> exact id, fun p _ _ => by cases p <;> rfl⟩

end Store

/-- A value as it is stored under a name: private names hold copies. -/
def storedUnder (name : String) (v : Value) : StoreM Value := if isPrivate name then v.copy else pure v

variable {s : Store} {r : TableRef} {name : String} {v : Value}

/-- A value is bound to a name that is new. -/
theorem bindName_new (there : r.index < s.tables.size) (fresh : (s.table r).binding? name = none)
    (named : name ≠ "_") (proper : v.Proper) : ∃ s' u u' w,
      bindName r true name v s = (.ok (), s') ∧ s.GrowsTo u ∧
        storedUnder name v u = (.ok w, u') ∧ u'.GrowsTo s' ∧ r.getLocal? s' name = some w ∧
          s.Adds s' r [name] := by
  let blankly : Binding := { value := .nil, constant := isPrivate name, bound := false }
  let u := s.modifyTable r fun t => t.bind name blankly
  have created : r.create name s = (.ok (), u) := by
    rw [TableRef.create, StoreM.bind_of_ok (StoreM.get_eq s), Table.binds_eq, fresh]
    rfl
  have declared : s.Rebinds u r name (some blankly) := .bind there blankly
  have within {R : Store → Store → Prop} (h : Store.AddsObjects R) : Within R (storedUnder name v) :=
    .ite (v.copy_within h) (.pure h v)
  have succeeds : (storedUnder name v).Succeeds := by
    unfold storedUnder
    split
    · exact v.copy_succeeds
    · exact .pure v
  obtain ⟨w, u', stored⟩ := succeeds u
  have added := Store.Adds.of_within within u r
  rw [stored] at added
  have bound : (u'.table r).binding? name = some blankly :=
    (added.others name (List.not_mem_nil)).trans declared.bound
  let full : Binding := { blankly with value := w, bound := true }
  let s' := u'.modifyTable r fun t => t.bind name full
  have rebound : u'.Rebinds s' r name (some full) :=
    .bind (by rw [added.size, declared.size]; exact there) full
  have grown := Store.growsTo_modifyTable s r fun t => t.bind name blankly
  have grown' := Store.growsTo_modifyTable u' r fun t => t.bind name full
  have set : r.set name v u = (.ok (), s') := by
    have found : r.find? u name false = some r :=
      TableRef.find?_of_binds (by rw [Table.binds_eq, declared.bound]; rfl) false
    rw [TableRef.set, StoreM.bind_of_ok (StoreM.get_eq u), found]
    dsimp only
    rw [StoreM.bind_of_ok (StoreM.get_eq u), declared.bound]
    dsimp only
    rw [if_neg (show ¬blankly.locked = true by rintro ⟨⟩)]
    unfold storedUnder at stored
    cases isPrivate : isPrivate name <;> rw [isPrivate] at stored <;> exact StoreM.bind_of_ok stored
  refine ⟨s', u, u', w, ?_, grown, stored, grown', ?_, ?_⟩
  · rw [bindName, if_neg named, if_pos rfl]
    refine (StoreM.bind_of_ok created).trans ?_
    have same : v.unchanged = pure v := by simp [Value.unchanged, show v.isMarker = false from proper]
    rw [same]
    exact set
  · rw [TableRef.getLocal?, rebound.bound]
    rfl
  · exact (((declared.adds grown rfl).trans added).trans (rebound.adds grown' rfl)).mono (by simp)

end StackScript
