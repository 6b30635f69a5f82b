import StackScript.Proofs.Settling.Steady
import StackScript.Proofs.Parameters.Prologue

/-!
# Emitting prologues

A function is compiled in a draft of its own. Up to the statements of its body the draft holds
nothing but the prologue, and the compiler knows the names that this binds.

Main statement: `prologue_yields`.
-/
namespace StackScript

/-! ## What steps yield -/

namespace CompileM

variable {α β : Type}

/-- From compilers with one property, a step comes to compilers with another if it succeeds. -/
def Yields (P : Compiler → Prop) (m : CompileM α) (Q : α → Compiler → Prop) : Prop :=
  ∀ c, P c → ∀ a c', m c = (.ok a, c') → Q a c'

theorem Leads.yields {P : Compiler → Prop} {m : CompileM α} {Q : α → Compiler → Prop}
    (h : Leads P m Q) : Yields P m Q := fun c before => (h c before).2

/-- What a step yields beside what it leads to. -/
theorem Leads.both {P P' : Compiler → Prop} {m : CompileM α} {Q Q' : α → Compiler → Prop}
    (h : Leads P m Q) (k : Yields P' m Q') :
    Leads (fun c => P c ∧ P' c) m fun a c => Q a c ∧ Q' a c :=
  fun c before => ⟨(h c before.1).1, fun a c' run => ⟨h.reaches before.1 run, k c before.2 a c' run⟩⟩

namespace Yields

variable {P : Compiler → Prop} {Q : α → Compiler → Prop} {R : β → Compiler → Prop}
variable {m m' : CompileM α} {f : α → CompileM β} {p : Prop} [Decidable p]

theorem pure {a : α} (h : ∀ c, P c → Q a c) : Yields P (Pure.pure a) Q := by
  rintro c before _ _ ⟨⟩
  exact h c before

theorem bind (first : Yields P m Q) (next : ∀ a, Yields (Q a) (f a) R) : Yields P (m >>= f) R := by
  intro c before b c' run
  obtain ⟨a, c₁, ran, rest⟩ := bind_ok run
  exact next a c₁ (first c before a c₁ ran) b c' rest

theorem read {f : Compiler → CompileM β} (h : ∀ d, Yields (fun c => c = d ∧ P c) (f d) R) :
    Yields P (get >>= f) R := by
  intro c before b c' run
  rw [bind_of_ok (get_eq c)] at run
  exact h c c ⟨rfl, before⟩ b c' run

theorem ite (yes : p → Yields P m Q) (no : ¬p → Yields P m' Q) :
    Yields P (if p then m else m') Q := by
  split
  · exact yes ‹_›
  · exact no ‹_›

theorem refuses (h : Refuses m) : Yields P m Q := Leads.yields (.refuses h)

theorem guarded {f : α → CompileM β} {k : CompileM β} (stop : Refuses m) (rest : ¬p → Yields P k R) :
    Yields P (if p then m >>= f else k) R := ite (fun _ => .refuses (stop.bind f)) rest

theorem after {Q' : α → Compiler → Prop} (h : Yields P m Q) (after : ∀ a c, Q a c → Q' a c) :
    Yields P m Q' := fun c before a c' run => after a c' (h c before a c' run)

theorem before {P' : Compiler → Prop} (before : ∀ c, P' c → P c) (h : Yields P m Q) :
    Yields P' m Q := fun c holds => h c (before c holds)

/-- Steps that only read on keep what does not depend on the cursor. -/
theorem quiet (h : Quiet m) (moved : ∀ c cursor count, P c → P (c.moved cursor count)) :
    Yields P m fun _ => P := by
  intro c before a c' run
  obtain ⟨cursor, count, same, -⟩ := h.moves c
  rw [run] at same
  obtain rfl : c' = c.moved cursor count := same
  exact moved c cursor count before

theorem repeatTurns {σ : Type} {I : σ → Compiler → Prop} {turn : σ → CompileM (Turn σ β)}
    (h : ∀ s, Yields (I s) (turn s) (AfterTurn I R)) (s : σ) :
    Yields (I s) (CompileM.repeatTurns s turn) R := by
  have taken : ∀ bound s, Yields (I s) (turns turn bound s) R := by
    intro bound
    induction bound with
    | zero => exact fun _ => .refuses limit_refuses
    | succ bound ih =>
      refine fun s => (h s).bind fun r => ?_
      cases r with
      | again s => exact ih s
      | done b => exact .pure fun _ => id
  exact fun c before => taken _ s c before

end Yields

end CompileM

/-! ## Drafts -/

/-- The draft of a function that holds these instructions and nothing else, and has declared these
names. -/
structure Compiler.Drafts (is : List Instruction) (names : List String) (strict : Bool)
    (c : Compiler) : Prop where
  instructions : c.draft.code.instructions = is.toArray
  scopes : c.draft.scopes = [(names.filter (· ≠ "_")).reverse]
  distinct : (names.filter (· ≠ "_")).Nodup
  strictness : (c.strictness == .strict) = strict

theorem Compiler.Drafts.moved {is : List Instruction} {names : List String} {strict : Bool} {c : Compiler}
    (cursor : Token.Cursor) (count : Nat) (h : c.Drafts is names strict) :
    (c.moved cursor count).Drafts is names strict :=
  ⟨h.instructions, h.scopes, h.distinct, h.strictness⟩

namespace CompileM

open Compiler (Drafts)

variable {α : Type} {is js : List Instruction} {names : List String} {strict : Bool}

theorem emit_yields (op : Opcode) (operand : Operand) :
    Yields (Drafts is names strict) (emit op operand) fun _ =>
      Drafts (is ++ [⟨op, operand⟩]) names strict := by
  intro c h _ c' run
  obtain ⟨code, emitted, rfl⟩ := editCode_ok run
  unfold Code.emit at emitted
  split at emitted <;> cases emitted
  exact { h with instructions := by simp [Code.push, h.instructions] }

/-- Instructions are emitted one after the other. -/
theorem Yields.emits {m : CompileM α} {R : α → Compiler → Prop} {op : Opcode} {operand : Operand}
    (next : Yields (Drafts (is ++ [⟨op, operand⟩]) names strict) m R) :
    Yields (Drafts is names strict) (emit op operand >>= fun _ => m) R :=
  (emit_yields op operand).bind fun _ => next

/-- Steps that concern neither code nor names. -/
theorem Yields.of_same {m : CompileM α} (code : ∀ c, (m c).2.draft.code = c.draft.code)
    (scopes : ∀ c, (m c).2.draft.scopes = c.draft.scopes)
    (strictness : ∀ c, (m c).2.strictness = c.strictness) :
    Yields (Drafts is names strict) m fun _ => Drafts is names strict := by
  intro c h a c' run
  obtain rfl : (m c).2 = c' := congrArg Prod.snd run
  exact ⟨by rw [code, h.instructions], by rw [scopes, h.scopes], h.distinct,
    by rw [strictness, h.strictness]⟩

/-- A name that is declared is new. -/
theorem declare_yields {name : String} (named : name ≠ "_") :
    Yields (Drafts is names strict) (declare name) fun new c =>
      new = true → c.Drafts is (names ++ [name]) strict := by
  refine .read fun d => ?_
  rintro c ⟨rfl, h⟩ new c' run
  rw [h.scopes] at run
  dsimp only at run
  split at run
  · cases run
    exact nofun
  · rename_i unknown
    cases run
    refine fun _ => ⟨h.instructions, ?_, ?_, h.strictness⟩
    · simp [List.filter_append, named]
    · have fresh : name ∉ names := by simpa [named] using unknown
      simp only [List.filter_append, List.nodup_append]
      refine ⟨h.distinct, by simp [named], fun other mem last there => ?_⟩
      obtain rfl := List.mem_singleton.1 (List.mem_filter.1 there).1
      rintro rfl
      exact fresh (List.mem_filter.1 mem).1

/-- A parameter is bound under a name that is new, unless it has none. -/
theorem createAndStore_yields (name : String) :
    Yields (Drafts is names strict) (createAndStore name) fun _ =>
      Drafts (is ++ storeCode true name) (names ++ [name]) strict := by
  unfold createAndStore storeCode
  by_cases blank : name = "_"
  · rw [if_pos blank, if_pos blank]
    refine (emit_yields _ _).after fun _ c h => ⟨h.instructions, ?_, ?_, h.strictness⟩
    · simpa [List.filter_append, blank] using h.scopes
    · simpa [List.filter_append, blank] using h.distinct
  · rw [if_neg blank, if_neg blank, if_pos rfl]
    refine (declare_yields blank).bind fun new => ?_
    cases new with
    | false => exact .ite (fun _ => .refuses ((failAbout_refuses _ _ (by nofun)).bind _)) (by simp)
    | true =>
      have stores : Yields (Drafts is (names ++ [name]) strict) (do
          emitName .symbolCreate name
          emitName .store name) fun _ =>
            Drafts (is ++ [⟨.symbolCreate, .name name⟩, ⟨.store, .name name⟩])
              (names ++ [name]) strict := by
        have emitted : Yields (Drafts (is ++ [⟨.symbolCreate, .name name⟩]) (names ++ [name]) strict) _ _ :=
          emit_yields .store (.name name)
        rw [List.append_assoc] at emitted
        exact .emits emitted
      have exports : Yields (Drafts is (names ++ [name]) strict) (exportName name) fun _ =>
          Drafts is (names ++ [name]) strict := .of_same (fun _ => rfl) (fun _ => rfl) fun _ => rfl
      refine .before (fun _ h => h rfl) (.ite (by simp) fun _ => ?_)
      exact .bind (.quiet atTopLevel_quiet fun _ => Drafts.moved) fun top =>
        .ite (fun _ => exports.bind fun _ => stores) fun _ => stores

/-! ## Parameters -/

theorem emitTypeCheck_yields (t : Ty) :
    Yields (Drafts is names strict) (emitTypeCheck t) fun _ =>
      Drafts (is ++ t.receiveCode strict) names strict := by
  unfold Ty.receiveCode
  refine .ite (fun free => ?_) fun typed => ?_
  · rw [if_pos free, List.append_nil]
    exact .pure fun _ => id
  · rw [if_neg typed]
    refine .ite (fun aggregate => ?_) fun other => ?_
    · rw [if_pos aggregate]
      exact emit_yields _ _
    · rw [if_neg other]
      refine .read fun d c ⟨same, h⟩ => ?_
      rw [← same, h.strictness]
      exact emit_yields _ _ c h

theorem bindParameter_yields (index : Nat) (p : Parameter) :
    Yields (Drafts is names strict) (bindParameter index p) fun _ =>
      Drafts (is ++ p.code strict false index) (names ++ [p.name]) strict := by
  have code : is ++ p.code strict false index =
      is ++ [⟨.load, .name "_args"⟩] ++ [⟨.push, .value (.int (Int64.ofNat index))⟩] ++
        [⟨.loadIndex, .none⟩] ++ p.type.receiveCode strict ++ storeCode true p.name := by
    simp [Parameter.code, Parameter.target, fetchArgument]
  rw [code]
  exact .emits <| .emits <| .emits <| (emitTypeCheck_yields p.type).bind fun _ =>
    createAndStore_yields p.name

theorem bindRest_yields (index : Nat) (p : Parameter) :
    Yields (Drafts is names strict) (bindRest index p) fun _ =>
      Drafts (is ++ p.code strict true index) (names ++ [p.name]) strict := by
  have code : is ++ p.code strict true index =
      is ++ [⟨.load, .name "_args"⟩] ++ [⟨.push, .value (.int (Int64.ofNat index))⟩] ++
        [⟨.load, .name "len"⟩] ++ [⟨.load, .name "_args"⟩] ++
        [⟨.call, callOperand 1 ({} : CallFlags).toInt⟩] ++ [⟨.loadSlice, .none⟩] ++
        (p.target true).receiveCode strict ++ storeCode true p.name := by
    simp [Parameter.code, fetchRest]
  rw [code]
  refine .emits <| .emits <| .emits <| .emits <| .emits <| .emits ?_
  cases interface : p.type.isInterface with
  | false =>
    have typed : p.target true = .array p.type := by simp [Parameter.target, interface]
    rw [typed]
    exact (emitTypeCheck_yields _).bind fun _ => createAndStore_yields p.name
  | true =>
    have free : (p.target true).receiveCode strict = [] := by
      simp [Parameter.target, Ty.receiveCode, interface]
    rw [free, List.append_nil]
    exact createAndStore_yields p.name

theorem bindParameters_yields (variadic : Bool) (index : Nat) (ps : List Parameter) :
    Yields (Drafts is names strict) (bindParameters variadic index ps) fun _ =>
      Drafts (is ++ parametersCode strict variadic index ps) (names ++ ps.map Parameter.name)
        strict := by
  induction ps generalizing is names index with
  | nil =>
    rw [parametersCode, List.map_nil, List.append_nil, List.append_nil]
    exact .pure fun _ => id
  | cons p rest ih =>
    cases rest with
    | nil =>
      rw [parametersCode, parametersCode, List.append_nil]
      cases variadic with
      | true => exact bindRest_yields index p
      | false => exact bindParameter_yields index p
    | cons q rest =>
      have code : Yields (Drafts (is ++ p.code strict false index) (names ++ [p.name]) strict) _ _ :=
        ih (index + 1)
      rw [parametersCode, List.isEmpty_cons, Bool.and_false, ← List.append_assoc]
      rw [List.append_assoc names] at code
      exact (bindParameter_yields index p).bind fun _ => code

theorem bindReceiver_yields (receiver : Receiver) :
    Yields (Drafts is names strict) (bindReceiver receiver) fun _ =>
      Drafts (is ++ receiverCode (some receiver)) (names ++ [receiver.name]) strict := by
  obtain ⟨name, shared⟩ := receiver
  have code : is ++ receiverCode (some ⟨name, shared⟩) =
      is ++ [⟨.loadThis, .none⟩] ++ (if shared then [] else [⟨.copy, .none⟩]) ++
        storeCode true name := by
    simp [receiverCode]
  rw [code]
  refine .emits ?_
  cases shared with
  | true =>
    rw [if_pos rfl, List.append_nil]
    exact createAndStore_yields name
  | false => exact .emits (createAndStore_yields name)

/-! ## Functions -/

theorem atLine_yields : Yields (Drafts is names strict) atLine fun _ c =>
    ∃ line last, c.Drafts (is ++ lineCode line last) names strict := by
  refine .bind (.quiet current_quiet fun _ => Drafts.moved) fun t => .read fun d =>
    .ite (fun new => ?_) fun same => ?_
  · have noted : lineCode t.line d.draft.lastLine = [⟨.atLine, .int (Int64.ofNat t.line)⟩] :=
      if_pos new
    refine .before (fun _ => And.right) (.after (.emits ?_) fun _ c h =>
      ⟨t.line, d.draft.lastLine, noted ▸ h⟩)
    exact .of_same (fun _ => rfl) (fun _ => rfl) fun _ => rfl
  · have noted : lineCode t.line d.draft.lastLine = [] := if_neg same
    refine .pure fun c h => ⟨t.line, d.draft.lastLine, ?_⟩
    rw [noted, List.append_nil]
    exact h.2

theorem emitArgCheck_yields (d : Declaration) (s : Signature) (parameters : d.parameters = s.parameters)
    (variadic : d.variadic = s.variadic) :
    Yields (Drafts is names strict) (emitArgCheck d.name s) fun _ =>
      Drafts (is ++ [d.checkArity]) names strict := by
  have check : d.checkArity = ⟨.argCheck, .tuple [
      .int (Int64.ofNat (if s.variadic then s.parameters.length - 1 else s.parameters.length)),
      .int (if s.variadic then -1 else Int64.ofNat s.parameters.length), .name d.name]⟩ := by
    rw [Declaration.checkArity, Declaration.minArgs, parameters, variadic]
  rw [check]
  exact emit_yields _ _

end CompileM

/-! ## Prologues that stay -/

/-- No call is the last one of the instructions. -/
def EndsPlain (is : List Instruction) : Prop := ∀ i ∈ is.getLast?, i.op ≠ .call

namespace EndsPlain

variable {is js : List Instruction}

theorem nil : EndsPlain [] := nofun

theorem one {i : Instruction} (noCall : i.op ≠ .call) : EndsPlain [i] := by
  rintro _ ⟨⟩
  exact noCall

theorem append (h : EndsPlain is) (k : EndsPlain js) : EndsPlain (is ++ js) := by
  intro i last
  rw [List.getLast?_append] at last
  cases there : js.getLast? with
  | some j =>
    rw [there] at last
    exact k i (there ▸ last)
  | none =>
    rw [there] at last
    exact h i last

theorem storeCode (isNew : Bool) (name : String) : EndsPlain (storeCode isNew name) := by
  unfold StackScript.storeCode
  split
  · exact one nofun
  · cases isNew
    · exact one nofun
    · exact append (one (i := ⟨.symbolCreate, .name name⟩) nofun) (one nofun)

theorem receiveCode (strict : Bool) (t : Ty) : EndsPlain (t.receiveCode strict) := by
  unfold Ty.receiveCode
  split
  · exact nil
  · split
    · exact one nofun
    · cases strict <;> exact one nofun

theorem parametersCode (strict variadic : Bool) (index : Nat) (ps : List Parameter) :
    EndsPlain (parametersCode strict variadic index ps) := by
  induction ps generalizing index with
  | nil => exact nil
  | cons p rest ih =>
    refine append (append (append ?_ (receiveCode _ _)) (storeCode _ _)) (ih (index + 1))
    split <;> rintro _ ⟨⟩ <;> exact nofun

theorem receiverCode (receiver : Option CompileM.Receiver) : EndsPlain (receiverCode receiver) := by
  cases receiver with
  | none => exact nil
  | some r =>
    refine append (append (one nofun) ?_) (storeCode _ _)
    split
    · exact nil
    · exact one nofun

theorem prologue (d : Declaration) (strict : Bool) (line last : Nat)
    (receiver : Option CompileM.Receiver) : EndsPlain (d.prologue strict line last receiver) := by
  have notes : EndsPlain (lineCode line last) := by
    unfold lineCode
    split
    · exact one nofun
    · exact nil
  exact append (append (append notes (one nofun)) (parametersCode _ _ _ _)) (receiverCode receiver)

end EndsPlain

/-- An outline in which the draft starts with these instructions for good. -/
def Outline.holding (o : Outline) (is : List Instruction) : Outline := o.keeping (is.mapIdx Prod.mk)

namespace Compiler.Fits

variable {o : Outline} {c : Compiler} {is : List Instruction} {names : List String} {strict : Bool}

/-- What a draft without branches holds is there for good. -/
theorem hold (h : c.Fits (o.within [])) (none : o.waiting = []) (drafts : c.Drafts is names strict)
    (last : EndsPlain is) : c.Fits ((o.holding is).within []) := by
  have loops : c.draft.loops = [] := List.map_eq_nil_iff.1 h.loops.1
  have found : ∀ p ∈ is.mapIdx Prod.mk, is[p.1]? = some p.2 := by
    intro p mem
    obtain ⟨j, inside, rfl⟩ := List.mem_mapIdx.1 mem
    exact List.getElem?_eq_getElem inside
  refine { h with kept := ⟨fun p mem => ?_, fun p mem waits => ?_, fun p mem call => ?_⟩ }
  · rw [drafts.instructions, List.getElem?_toArray]
    exact found p mem
  · have waits : p.1 ∈ o.waiting ++ leaving c.draft.loops := waits
    rw [none, loops] at waits
    cases waits
  · rw [Code.size, drafts.instructions, List.size_toArray]
    have there := found p mem
    have inside := (List.getElem?_eq_some_iff.1 there).1
    refine Nat.lt_of_le_of_ne inside fun isLast => last p.2 ?_ call
    rw [List.getLast?_eq_getElem?, ← isLast]
    exact there

/-- What is there for good is found again. -/
theorem held (h : c.Fits ((o.holding is).within [])) : Placed c.draft.code 0 is := by
  intro j i found
  obtain ⟨inside, rfl⟩ := List.getElem?_eq_some_iff.1 found
  rw [Nat.zero_add]
  exact h.kept.found (j, is[j]) (List.mem_mapIdx.2 ⟨j, inside, rfl⟩)

/-- It need not be known what is there for good. -/
theorem forget (h : c.Fits ((o.holding is).within [])) (none : o.kept = []) : c.Fits (o.within []) :=
  { h with kept := none ▸ .nothing _ _ }

end Compiler.Fits

end StackScript
