import StackScript.Json.Read
import StackScript.Template
import StackScript.Profile
import StackScript.Token.Cursor
import StackScript.Code

/-!
# Faults that are no signals

The debugger stops a context by raising a fault of a kind of its own. Whatever else goes wrong
raises another kind, and names no such fault as its cause: here for what reads and writes texts.

Main statements: `Fault.Ordinary` and one lemma for each reader of texts.
-/
namespace StackScript

/-- A fault that is no signal of the debugger, nor caused by one. -/
def Fault.Ordinary (f : Fault) : Prop := ∀ r ∈ f.toReport :: f.causes, r.kind ≠ .debuggerSignal

namespace Fault.Ordinary

variable {f cause : Fault} {kind : FaultKind}

theorem kind_ne (h : f.Ordinary) : f.kind ≠ .debuggerSignal := h _ List.mem_cons_self

theorem of_kind (uncaused : f.causes = []) (kind : f.kind ≠ .debuggerSignal) : f.Ordinary := by
  intro r mem
  rw [uncaused, List.mem_singleton] at mem
  exact mem ▸ kind

/-- What is known of a fault beside its kind does not matter. -/
theorem of_same (h : f.Ordinary) {f' : Fault} (kind : f'.kind = f.kind)
    (causes : f'.causes = f.causes) : f'.Ordinary := by
  intro r mem
  rcases List.mem_cons.1 mem with rfl | behind
  · exact kind ▸ h.kind_ne
  · exact h r (List.mem_cons_of_mem _ (causes ▸ behind))

theorem withContext (h : f.Ordinary) (context : String) : (f.withContext context).Ordinary :=
  h.of_same rfl rfl

theorem causedBy (kind : f.kind ≠ .debuggerSignal) (h : cause.Ordinary) :
    (f.causedBy cause).Ordinary := by
  intro r mem
  rcases List.mem_cons.1 mem with rfl | behind
  · exact kind
  · exact h r behind

theorem positioned (h : f.Ordinary) (line column : Nat) : (f.positioned line column).Ordinary := by
  unfold Fault.positioned
  split
  · exact h.of_same rfl rfl
  · exact h

end Fault.Ordinary

/-- A computation whose fault, if any, is no signal. -/
def Except.Ordinary {α : Type} (r : Except Fault α) : Prop := ∀ f, r = .error f → f.Ordinary

namespace Except.Ordinary

variable {α β : Type} {r : Except Fault α}

theorem fault (h : Ordinary r) {f : Fault} (failed : r = .error f) : f.Ordinary := h f failed

theorem ok (a : α) : Ordinary (.ok a : Except Fault α) := nofun

theorem error {f : Fault} (h : f.Ordinary) : Ordinary (.error f : Except Fault α) := by
  intro f' same
  cases same
  exact h

theorem of {kind : FaultKind} (h : kind ≠ .debuggerSignal) :
    Ordinary (.error (.of kind) : Except Fault α) := error (.of_kind rfl h)

theorem about {kind : FaultKind} {context : String} (h : kind ≠ .debuggerSignal) :
    Ordinary (.error (.about kind context) : Except Fault α) := error (.of_kind rfl h)

theorem ite {p : Prop} [Decidable p] {yes no : Except Fault α} (hyes : Ordinary yes)
    (hno : Ordinary no) : Ordinary (if p then yes else no) := by
  split
  · exact hyes
  · exact hno

theorem map (h : Ordinary r) (f : α → β) : Ordinary (r.map f) := by
  cases r with
  | ok a => exact ok (f a)
  | error e => exact error (h e rfl)

end Except.Ordinary

/-! ## Tokens -/

namespace Token

theorem scanEscape_ordinary (text : List Char) : Except.Ordinary (scanEscape text) := by
  unfold scanEscape
  split
  · exact .of (by nofun)
  · split
    · exact .ok _
    · exact .about (by nofun)
  · exact .about (by nofun)
  · dsimp only
    split
    · exact .ok _
    · exact .about (by nofun)
  · exact .about (by nofun)
  · split
    · exact .ok _
    · exact .about (by nofun)

theorem scanString_ordinary (text : List Char) : Except.Ordinary (scanString text) := by
  fun_induction scanString text with
  | case1 => exact .of (by nofun)
  | case2 => exact .of (by nofun)
  | case3 => exact .ok _
  | case4 rest f failed => exact .error (scanEscape_ordinary rest f failed)
  | case5 rest c n _ f failed ih => exact .error (ih f failed)
  | case6 => exact .ok _
  | case7 c rest _ _ _ f failed ih => exact .error (ih f failed)
  | case8 => exact .ok _

theorem scanNumber_ordinary (text : List Char) : Except.Ordinary (scanNumber text) := by
  have numeral : Except.Ordinary (scanNumeral text) := by
    unfold scanNumeral
    dsimp only
    split
    · exact .ok _
    · split
      · exact .ok _
      · exact .about (by nofun)
  unfold scanNumber
  split
  · split
    · unfold scanRadix
      dsimp only
      split
      · exact .ok _
      · exact .about (by nofun)
    · exact numeral
  · exact numeral

theorem recognize_ordinary (text : List Char) : Except.Ordinary (recognize text) := by
  unfold recognize
  split
  · exact .of (by nofun)
  · exact (scanString_ordinary _).map _
  · split
    · exact .ok _
    · exact .of (by nofun)
  · refine .ite (scanNumber_ordinary _) <| .ite (scanNumber_ordinary _) <| .ite (.ok _) ?_
    unfold scanPunctuation
    split
    · exact .ok _
    · split
      · exact .ite (.ok _) (.about (by nofun))
      · exact .of (by nofun)

theorem scanFrom_ordinary (position : Position) (text : List Char) (f : Fault)
    (failed : (scanFrom position text).fault = some f) : f.Ordinary := by
  fun_induction scanFrom position text with
  | case1 => cases failed
  | case2 position text _ _ start rest f' refused =>
    cases failed
    exact (recognize_ordinary rest f' refused).positioned _ _
  | case3 _ _ _ _ _ _ _ _ _ _ ih => exact ih failed

theorem Cursor.ofSource_ordinary (source : String) : Except.Ordinary (Cursor.ofSource source) := by
  refine .map ?_ _
  unfold scanAll
  refine .ite (.of (by nofun)) ?_
  dsimp only
  split
  · next failed => exact .error (scanFrom_ordinary _ _ _ failed)
  · exact .ok _

end Token

/-! ## Templates -/

namespace Template

theorem pieces_ordinary (text : List Char) : Except.Ordinary (pieces text) := by
  fun_induction pieces text with
  | case1 => exact .ok _
  | case2 => exact .about (by nofun)
  | case3 => exact .error (by solve_by_elim [Except.Ordinary.fault])
  | case4 => exact .ok _

theorem readExpr_ordinary (text : List Char) : Except.Ordinary (readExpr text) := by
  fun_induction readExpr text with
  | case1 _ _ _ _ ih => exact ih.map _
  | case2 text =>
    unfold readOperand
    refine .ite (.ok _) ?_
    split
    · exact .ite (.about (by nofun)) (.ok _)
    · refine .ite (.ok _) ?_
      split
      · exact .ok _
      · exact .about (by nofun)

theorem parseNodes_ordinary (given : List Piece) : Except.Ordinary (parseNodes given) := by
  fun_induction parseNodes given <;> first
    | exact .ok _
    | exact .about (by nofun)
    | exact .error ((readExpr_ordinary _).fault ‹_›)
    | exact .error (by solve_by_elim [Except.Ordinary.fault])

theorem ofSource_ordinary (name source : String) : Except.Ordinary (ofSource name source) := by
  refine .map ?_ _
  unfold parse
  split
  · next failed => exact .error (pieces_ordinary _ _ failed)
  · split
    · next failed => exact .error (parseNodes_ordinary _ _ failed)
    · split
      · exact .ok _
      · exact .about (by rintro ⟨⟩)

end Template

/-! ## The host -/

theorem JsonReader.read_ordinary (text : String) : Except.Ordinary (JsonReader.read text) := by
  unfold read run
  split
  · exact .ok _
  · exact .about (by nofun)

theorem Profiles.save_ordinary (p : Profiles) (files : Files) :
    Except.Ordinary (p.save files) := by
  unfold save
  dsimp only
  split
  · exact .ok _
  · refine .ite (.ok _) ?_
    split
    · exact .ok _
    · exact .about (by nofun)

/-! ## Code -/

namespace Code

variable (c : Code)

theorem emit_ordinary (op : Opcode) (operand : Operand) : Except.Ordinary (c.emit op operand) :=
  .ite (.about (by nofun)) (.ok _)

theorem emitAt_ordinary (address : Nat) (op : Opcode) (operand : Operand) :
    Except.Ordinary (c.emitAt address op operand) := .ite (.about (by nofun)) (.ite (.about (by nofun)) (.ok _))

theorem setAddress_ordinary (address target : Nat) :
    Except.Ordinary (c.setAddress address target) := .ite (.about (by nofun)) (.ok _)

theorem append_ordinary (other : Code) : Except.Ordinary (c.append other) := .ite (.about (by nofun)) (.ok _)

theorem remove_ordinary (address : Nat) : Except.Ordinary (c.remove address) := .ite (.about (by nofun)) (.ok _)

end Code

end StackScript
