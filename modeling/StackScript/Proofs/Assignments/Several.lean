import Mathlib.Data.List.Forall2
import StackScript.Proofs.Assignments.Destinations
import StackScript.Proofs.Assignments.Reading
import StackScript.Proofs.Statements.Running
import StackScript.Proofs.Statements.Compiling

/-!
# Assignments to several targets

Values for several targets come from as many expressions or from one call. Expressions are all
evaluated before anything is stored, and their values are stored from the last one to the first; the
results of a call are stored from the first one to the last. The container and the index of an
element are evaluated when it is stored. Where the targets are different names both orders come to
the same.

Main statements: `Several.compile_stores`, `resultsCode_computes` and `Several.Named.either_order`.
-/
namespace StackScript

open CompileM
open Exec (Does)

/-! ## Trees -/

/-- Where a value is stored. -/
inductive Destination where
  | name (x : String)
  | element (d : Element)

namespace Destination

/-- Store a value, or drop it under the name `_`. -/
def store (σ : Setting) : Destination → Value → StoreM Unit
  | .name x, v => bindName σ.table false (σ.spell x) v
  | .element d, v => d.store σ v

/-- Store values, the first one first. -/
def storeAll (σ : Setting) : List (Destination × Value) → StoreM Unit
  | [] => pure ()
  | (p, v) :: rest => do
    p.store σ v
    storeAll σ rest

/-- Whether every array in a place has so few items that a number counts them. -/
def Short : Destination → Prop
  | .name _ => True
  | .element d => d.Short

theorem store_within (σ : Setting) (p : Destination) (v : Value) :
    StoreM.Within (fun s s' => s'.codes = s.codes) (p.store σ v) := by
  cases p with
  | name x => exact (bindName_within σ.table false (σ.spell x) v).imp Store.Extends.codes
  | element d => exact (d.store_sparing σ v).imp Store.Spares.codes

theorem storeAll_within (σ : Setting) (l : List (Destination × Value)) :
    StoreM.Within (fun s s' => s'.codes = s.codes) (storeAll σ l) := by
  have h := Store.addsObjects_codes
  induction l with
  | nil => exact .pure h ()
  | cons p l ih => exact .bind h (p.1.store_within σ p.2) fun _ => ih

end Destination

/-- An assignment of as many values as there are targets, of which there are several. -/
structure Several where
  targets : List Destination
  values : List Expr
  paired : values.length = targets.length
  several : 1 < targets.length

/-- The effect of an assignment to several targets from expressions. -/
def Several.exec (σ : Setting) (a : Several) : StoreM Unit := do
  let vs ← Expr.evalAll σ a.values
  Destination.storeAll σ (a.targets.zip vs).reverse

/-! ## Code -/

variable (spell : String → String)

/-- The instructions that store the top of the stack. -/
def Destination.code (start : Nat) : Destination → List Instruction
  | .name x => storeCode false (spell x)
  | .element d => d.storeCode spell start

/-- The instructions that store values, the one of the first place on top of the stack. -/
def storesCode (start : Nat) : List Destination → List Instruction
  | [] => []
  | p :: ps => p.code spell start ++ storesCode (start + (p.code spell start).length) ps

/-- The instructions of an assignment to several targets from expressions. -/
def Several.code (start : Nat) (a : Several) : List Instruction :=
  let values : List Instruction :=
    [⟨.push, .value (.marker .values)⟩] ++ Expr.itemsCode spell (start + 1) a.values
  let all := values ++ storesCode spell (start + values.length) a.targets.reverse
  all ++ [⟨.dropToMarker, .name Marker.values.label⟩]

/-- The instructions that store the results of a call. -/
def resultsCode (start : Nat) (ps : List Destination) : List Instruction :=
  storesCode spell start ps ++ [⟨.dropToMarker, .name Marker.values.label⟩]

theorem Destination.code_movable (p : Destination) : Movable fun start => p.code spell start := by
  cases p with
  | name x => exact storeCode_movable false (spell x)
  | element d => exact d.storeCode_movable spell

theorem storesCode_movable (ps : List Destination) :
    Movable fun start => storesCode spell start ps := by
  induction ps with
  | nil => exact .plain nofun
  | cons p ps ih => exact (p.code_movable spell).append ih

theorem Several.code_movable (a : Several) : Movable fun start => a.code spell start := by
  have values : Movable fun start => [⟨.push, .value (.marker .values)⟩] ++
      Expr.itemsCode spell (start + 1) a.values :=
    .append (.one rfl rfl) (Expr.itemsCode_movable spell a.values)
  exact (values.append (storesCode_movable spell a.targets.reverse)).append (.one rfl rfl)

variable {spell} {c : Context} {w : World} {unit : Code} {stack : Array Value} {start : Nat}

theorem Destination.code_computes {p : Destination} (placed : Placed unit start (p.code spell start))
    (short : p.Short) (high : c.base ≤ stack.size) (v : Value) :
    Computes c w unit start (start + (p.code spell start).length) (stack.push v)
      (p.store (c.setting spell) v) fun _ => stack := by
  cases p with
  | name x => exact storeCode_computes placed high v
  | element d => exact Element.store_computes placed short high v

/-- Values on the stack are stored from the top one down. -/
theorem storesCode_computes {ps : List Destination}
    (placed : Placed unit start (storesCode spell start ps)) (short : ∀ p ∈ ps, p.Short)
    (high : c.base ≤ stack.size) {vs : List Value}
    (paired : vs.length = ps.length) :
    Computes c w unit start (start + (storesCode spell start ps).length)
      (stack ++ vs.reverse.toArray) (Destination.storeAll (c.setting spell) (ps.zip vs))
      fun _ => stack := by
  induction ps generalizing start vs with
  | nil =>
    obtain rfl := List.length_eq_zero_iff.1 paired
    exact .refl () (by simp)
  | cons p ps ih =>
    obtain ⟨v, vs, rfl⟩ := List.exists_cons_of_length_eq_add_one paired
    obtain ⟨one, others⟩ := List.forall_mem_cons.1 short
    have top : stack ++ (v :: vs).reverse.toArray = (stack ++ vs.reverse.toArray).push v := by simp
    rw [storesCode, List.length_append, ← Nat.add_assoc, top]
    have above : c.base ≤ (stack ++ vs.reverse.toArray).size := by
      rw [Array.size_append]
      omega
    have stored := Destination.code_computes (c := c) (w := w) placed.left one above v
    exact stored.bind (fun s => ((p.store_within _ v).store s)) fun _ =>
      ih placed.right others (Nat.succ.inj paired)

namespace Exec.Does

variable (high : c.base ≤ stack.size)

theorem pushMarker (m : Marker) (stack : Array Value) :
    Does c w (Exec.pushOperand (.value (.marker m))) stack (pure (.marker m)) stack.push
      fun _ => () := .push (.marker m) stack

/-- The stack is dropped down to a marker that a search finds. -/
theorem dropsTo {m : Marker} {stack rest : Array Value}
    (found : Exec.dropTo m.label c.base stack.size stack = (rest, true)) :
    Does c w (Exec.dropToMarker (.name m.label)) stack (pure ()) (fun _ => rest) fun _ => () := by
  refine of_ok () fun pc s => ?_
  have done : (fun c w s =>
      let cut := Exec.dropTo m.label c.base c.stack.size c.stack
      (((.ok cut.2, { c with stack := cut.1 }), w), s) : Exec Bool) (c.at pc stack) w s =
      (((.ok true, c.at pc rest), w), s) := by
    simp only [Context.at_base, Context.at_stack, found]
    rfl
  exact (Exec.bind_of_ok done).trans rfl

include high in
theorem dropToMarker (m : Marker) :
    Does c w (Exec.dropToMarker (.name m.label)) (stack.push (.marker m)) (pure ())
      (fun _ => stack) fun _ => () := by
  refine dropsTo ?_
  rw [Array.size_push]
  exact Exec.dropTo_pops m.label stack.size high (beq_self_eq_true _)

include high in
/-- Results that lie above their own marker are dropped with it. -/
theorem dropPastResults :
    Does c w (Exec.dropToMarker (.name Marker.values.label))
      ((stack.push (.marker .values)).push (.marker .results)) (pure ()) (fun _ => stack)
      fun _ => () := by
  refine dropsTo ?_
  have below : ¬(stack.push (.marker .values)).size + 1 ≤ c.base := by
    simp only [Array.size_push]
    omega
  rw [Array.size_push, Array.size_push, Exec.dropTo, Array.size_push, if_neg below, Array.back?_push,
    Array.pop_push]
  exact Exec.dropTo_pops Marker.values.label stack.size high rfl

end Exec.Does

/-- Whether every array in an assignment has so few items that a number counts them. -/
def Several.Short (a : Several) : Prop := (∀ p ∈ a.targets, p.Short) ∧ Expr.ShortAll a.values

/-- The results of a call are stored, the first one first, and their marker is dropped. -/
theorem resultsCode_computes {ps : List Destination}
    (placed : Placed unit start (resultsCode spell start ps)) (short : ∀ p ∈ ps, p.Short)
    (high : c.base ≤ stack.size) {vs : List Value} (paired : vs.length = ps.length) :
    Computes c w unit start (start + (resultsCode spell start ps).length)
      ((stack.push (.marker .values)).push (.marker .results) ++ vs.reverse.toArray)
      (Destination.storeAll (c.setting spell) (ps.zip vs)) fun _ => stack := by
  have above : c.base ≤ ((stack.push (.marker .values)).push (.marker .results)).size := by
    rw [Array.size_push, Array.size_push]
    omega
  have stored := storesCode_computes (c := c) (w := w) placed.left short above paired
  have dropped : Computes c w unit _ _ _ (pure ()) _ :=
    .instruction (w := w) placed.right.head (by simp) (.dropPastResults high)
  have both := stored.bind (Destination.storeAll_within _ _).store fun _ => dropped
  rw [resultsCode, List.length_append, ← Nat.add_assoc]
  rwa [bind_pure_unit] at both

/-- Several results of a call lie above their marker, the first one on top. -/
theorem pushResults_several {vs : List Value} (several : 1 < vs.length) (pc : Nat) (s : Store) :
    Exec.pushResults vs true (c.at pc stack) w s =
      (((.ok (), c.at pc (stack.push (.marker .results) ++ vs.reverse.toArray)), w), s) := by
  obtain ⟨v, u, rest, rfl⟩ : ∃ v u rest, vs = v :: u :: rest := by
    match vs, several with
    | v :: u :: rest, _ => exact ⟨v, u, rest, rfl⟩
  have all : stack.push (.marker .results) ++ (v :: u :: rest).reverse.toArray =
      (.marker .results :: (v :: u :: rest).reverse).foldl Array.push stack := by
    rw [List.foldl_cons, List.foldl_push_eq_append']
  rw [all]
  rfl

theorem Several.code_computes {a : Several} (placed : Placed unit start (a.code spell start))
    (short : a.Short) (high : c.base ≤ stack.size) :
    Computes c w unit start (start + (a.code spell start).length) stack (a.exec (c.setting spell))
      fun _ => stack := by
  have drops := placed.right.head
  have stores := placed.left.right
  simp only [code, List.length_append, List.length_cons, List.length_nil, Nat.zero_add,
    ← Nat.add_assoc] at stores drops ⊢
  refine .first (.instruction placed.left.left.head (by simp) (.pushMarker .values stack)) ?_
  have evaluated := Expr.allCompute (c := c) (w := w) spell a.values (start + 1)
    (stack.push (.marker .values)) short.2 placed.left.left.tail (by simp; omega)
  have kept := Expr.evalAll_within Store.addsObjects_codes (c.setting spell) a.values
  refine evaluated.bindOf kept.store fun vs evaluates => ?_
  obtain ⟨s, s', hvs⟩ := evaluates
  have count : vs.length = a.targets.length := (Expr.evalAll_length a.values hvs).trans a.paired
  have zipped : (a.targets.zip vs).reverse = a.targets.reverse.zip vs.reverse :=
    List.reverse_zipWith count.symm
  rw [zipped]
  have above : c.base ≤ (stack.push (.marker .values)).size := by
    rw [Array.size_push]
    omega
  have paired : vs.reverse.length = a.targets.reverse.length := by
    rw [List.length_reverse, List.length_reverse, count]
  have stored := storesCode_computes (c := c) (w := w) stores
    (fun p mem => short.1 p (List.mem_reverse.1 mem)) above paired
  rw [List.reverse_reverse] at stored
  have dropped : Computes c w unit _ _ _ (pure ()) _ :=
    .instruction (w := w) drops (by simp) (.dropToMarker high .values)
  have both := stored.bind (Destination.storeAll_within _ _).store fun _ => dropped
  rwa [bind_pure_unit] at both

/-! ## Writing -/

/-- Tokens that spell a place to store in. -/
inductive Destination.Laid : Destination → List Token → Prop
  | name {t : Token} (tag : t.tag = .identifier) : Laid (.name t.spelling) [t]
  | element {d : Element} {ts : List Token} (h : d.Laid ts) : Laid (.element d) ts

/-- Tokens that spell places with commas between them. -/
inductive TargetsLaid : List Destination → List Token → Prop
  | last {p : Destination} {ts : List Token} (h : p.Laid ts) : TargetsLaid [p] ts
  | more {p : Destination} {ps : List Destination} {t : Token} {ts us : List Token} (first : p.Laid ts)
      (comma : t.word = mark ",") (rest : TargetsLaid ps us) : TargetsLaid (p :: ps) (ts ++ t :: us)

/-- Tokens that spell an assignment to several targets, the targets and the operator on one line. -/
inductive Several.Laid (a : Several) : List Token → Prop
  | intro {t op : Token} {ts us : List Token} (targets : TargetsLaid a.targets (t :: ts))
      (word : op.word = mark "=") (lines : ∀ u ∈ t :: ts ++ [op], u.line = t.line)
      (values : Written (.items a.values) us) : Laid a (t :: ts ++ op :: us)

variable {ts us : List Token} {line : Nat}

theorem Destination.Laid.passedOn {p : Destination} (h : p.Laid ts) (lines : ∀ t ∈ ts, t.line = line) :
    PassedOn line ts := by
  cases h with
  | name tag => exact .name (lines _ (by simp)) tag
  | element h => exact h.passedOn lines

theorem TargetsLaid.passedOn {ps : List Destination} (h : TargetsLaid ps ts)
    (lines : ∀ t ∈ ts, t.line = line) : PassedOn line ts := by
  induction h with
  | last h => exact h.passedOn lines
  | more first comma _ ih =>
    rw [List.forall_mem_append, List.forall_mem_cons] at lines
    exact (first.passedOn lines.1).append
      ((PassedOn.of_word lines.2.1 comma (by decide)).append (ih lines.2.2))

theorem Destination.Laid.first {p : Destination} (h : p.Laid ts) :
    ∃ t rest, ts = t :: rest ∧ t.tag = .identifier := by
  cases h with
  | name tag => exact ⟨_, _, rfl, tag⟩
  | element h =>
    cases h with
    | intro name => exact ⟨_, _, rfl, name⟩

theorem TargetsLaid.first {ps : List Destination} {t : Token} (h : TargetsLaid ps (t :: ts)) :
    t.tag = .identifier := by
  obtain ⟨u, rest, same, tag⟩ : ∃ u rest, t :: ts = u :: rest ∧ u.tag = .identifier := by
    generalize t :: ts = tokens at h
    cases h with
    | last h => exact h.first
    | more first =>
      obtain ⟨u, rest, rfl, tag⟩ := first.first
      exact ⟨u, _, rfl, tag⟩
  obtain ⟨rfl, -⟩ := List.cons.inj same
  exact tag

theorem Destination.Laid.short {p : Destination} (h : p.Laid ts) (few : ts.length < countLimit) :
    p.Short := by
  cases h with
  | name => trivial
  | element h => exact h.short few

theorem TargetsLaid.short {ps : List Destination} (h : TargetsLaid ps ts)
    (few : ts.length < countLimit) : ∀ p ∈ ps, p.Short := by
  induction h with
  | last h => simpa using h.short few
  | more first _ _ ih =>
    rw [List.length_append, List.length_cons] at few
    exact List.forall_mem_cons.2 ⟨first.short (by omega), ih (by omega)⟩

/-- Arrays in an assignment have no more items than there are tokens. -/
theorem Several.Laid.short {a : Several} (h : a.Laid ts) (few : ts.length < countLimit) : a.Short := by
  cases h with
  | intro targets word lines values =>
    simp only [List.length_append, List.length_cons] at few
    exact ⟨targets.short (by simp only [List.length_cons]; omega), values.short (by omega)⟩

theorem TargetsLaid.length_le {ps : List Destination} (h : TargetsLaid ps ts) :
    ps.length ≤ ts.length := by
  induction h with
  | last h =>
    obtain ⟨t, rest, rfl, -⟩ := h.first
    simp
  | more _ _ _ ih =>
    simp only [List.length_cons, List.length_append]
    omega

/-! ## Reading -/

section

variable {package : String → String → Option String → CompileM CodeRef} {depth n : Nat}
variable {c c' : Compiler} {t : Token} {is : List Instruction} {rules : Nested}

/-- A place is kept as what stores in it. -/
inductive Destination.Kept (spell : String → String) : Destination → Target → Prop
  | name (x : String) : Kept spell (.name x) (.name (spell x))
  | element {d : Element} {container index : Code} (h : d.Kept spell container index) :
      Kept spell (.element d) (.element container index)

/-- A place is read from the tokens that spell it. -/
theorem Destination.Laid.target_of {p : Destination} (laid : p.Laid ts)
    (reading : Reading package depth c ts)
    (ends : (c.emitted ts.length []).cursor.isNext "[" = false ∧
      (c.emitted ts.length []).cursor.isNext "." = false) :
    ∃ place, target (rulesTo package (depth + 1)) c = (.ok place, c.emitted ts.length []) ∧
      p.Kept c.spelling place := by
  cases laid with
  | name tag => exact ⟨_, target_name reading.ahead tag ends, .name _⟩
  | element h =>
    obtain ⟨container, index, read, kept⟩ := h.target_of reading ends
    exact ⟨_, read, .element kept⟩

/-- A turn of the reading of targets. -/
def targetTurn (rules : Nested) (targets : List Target) :
    CompileM (Turn (List Target) (List Target)) := do
  if ← accept "," then pure (.again (targets ++ [← target rules])) else pure (.done targets)

/-- Targets are read up to a token that is none of theirs. -/
theorem TargetsLaid.targetTurns_of {ps : List Destination} (laid : TargetsLaid ps ts)
    {c : Compiler} {done : List Destination} {read : List Target} {comma : Token} {left : Nat}
    (kept : List.Forall₂ (Destination.Kept c.spelling) done read) (word : comma.word = mark ",")
    (reading : Reading package depth c (comma :: (ts ++ t :: us)))
    (ends : t.is "[" = false ∧ t.is "." = false ∧ t.is "," = false) (enough : ps.length < left) :
    ∃ places, turns (targetTurn (rulesTo package (depth + 1))) left read c =
        (.ok places, c.emitted (1 + ts.length) []) ∧
      List.Forall₂ (Destination.Kept c.spelling) (done ++ ps) places := by
  induction laid generalizing c done read comma left with
  | @last p ts h =>
    obtain ⟨left, rfl⟩ : ∃ l, left = l + 2 := ⟨left - 2, by simp at enough; omega⟩
    have behind := reading.tail []
    have after := (behind.right []).ahead
    obtain ⟨place, read', kept'⟩ := h.target_of behind.left
      ⟨(after.isNext "[").trans ends.1, (after.isNext ".").trans ends.2.1⟩
    have turned : targetTurn (rulesTo package (depth + 1)) read c =
        (.ok (.again (read ++ [place])), c.emitted (1 + ts.length) []) := by
      refine (bind_of_ok (accept_of reading.ahead (Token.is_of_word word))).trans ?_
      refine (bind_of_ok read').trans ?_
      rw [Compiler.emitted_emitted]
      rfl
    rw [Compiler.emitted_emitted] at after
    have stopped : targetTurn (rulesTo package (depth + 1)) (read ++ [place])
        (c.emitted (1 + ts.length) []) =
        (.ok (.done (read ++ [place])), c.emitted (1 + ts.length) []) :=
      (bind_of_ok (accept_other ((after.isNext ",").trans ends.2.2))).trans rfl
    exact ⟨_, (turns_again turned _).trans (turns_done stopped _),
      List.rel_append kept (.cons kept' .nil)⟩
  | @more p ps comma' ts us' first word' _ ih =>
    obtain ⟨left, rfl⟩ : ∃ l, left = l + 1 := ⟨left - 1, by omega⟩
    rw [List.append_assoc, List.cons_append] at reading
    have behind := reading.tail []
    have after := (behind.right []).ahead
    have other (text : String) (ne : "," ≠ text) : comma'.is text = false :=
      Token.is_other (Token.is_of_word word') ne
    obtain ⟨place, read', kept'⟩ := first.target_of behind.left
      ⟨(after.isNext "[").trans (other _ (by decide)), (after.isNext ".").trans (other _ (by decide))⟩
    have turned : targetTurn (rulesTo package (depth + 1)) read c =
        (.ok (.again (read ++ [place])), c.emitted (1 + ts.length) []) := by
      refine (bind_of_ok (accept_of reading.ahead (Token.is_of_word word))).trans ?_
      refine (bind_of_ok read').trans ?_
      rw [Compiler.emitted_emitted]
      rfl
    have rest := behind.right []
    rw [Compiler.emitted_emitted] at rest
    obtain ⟨places, others, all⟩ := ih (c := c.emitted (1 + ts.length) [])
      (List.rel_append kept (.cons kept' .nil)) word' rest (Nat.lt_of_succ_lt_succ enough)
    refine ⟨places, (turns_again turned _).trans (others.trans ?_), by simpa using all⟩
    rw [Compiler.emitted_emitted, List.length_append, List.length_cons, Nat.add_comm 1 us'.length,
      Nat.add_assoc]
    rfl

/-- Several targets are read from the tokens that spell them. -/
theorem TargetsLaid.targetList_of {ps : List Destination} (laid : TargetsLaid ps ts)
    (reading : Reading package depth c (ts ++ t :: us)) (several : 1 < ps.length)
    (ends : t.is "[" = false ∧ t.is "." = false ∧ t.is "," = false) :
    ∃ places, targetList (rulesTo package (depth + 1)) c =
        (.ok places, c.emitted ts.length []) ∧
      List.Forall₂ (Destination.Kept c.spelling) ps places := by
  cases laid with
  | last h => simp at several
  | @more p ps comma ts us' first word rest =>
    rw [List.append_assoc, List.cons_append] at reading
    have behind := reading.right []
    have other (text : String) (ne : "," ≠ text) : comma.is text = false :=
      Token.is_other (Token.is_of_word word) ne
    obtain ⟨place, read, kept⟩ := first.target_of reading.left
      ⟨(behind.ahead.isNext "[").trans (other _ (by decide)),
        (behind.ahead.isNext ".").trans (other _ (by decide))⟩
    have bound := behind.ahead.bound
    have fewer : ps.length ≤ us'.length := rest.length_le
    simp only [List.length_cons, List.length_append] at bound
    have enough : ps.length < (c.emitted ts.length []).cursor.tokens.size -
        (c.emitted ts.length []).cursor.pos + 2 := by omega
    obtain ⟨places, others, all⟩ := rest.targetTurns_of (c := c.emitted ts.length [])
      (.cons kept .nil) word behind ends enough
    refine ⟨places, (bind_of_ok read).trans (others.trans ?_), all⟩
    rw [Compiler.emitted_emitted, List.length_append, List.length_cons, Nat.add_comm 1]
    rfl

theorem emitStore_kept {p : Destination} {place : Target} (kept : p.Kept spell place)
    (unsealed : c.draft.code.isSealed = false) (n : Nat) (is : List Instruction) :
    emitStore false place (c.emitted n is) =
      (.ok (), c.emitted n (is ++ p.code spell (c.here + is.length))) := by
  cases kept with
  | name x =>
    refine (emitStore_name ((c.emitted_isSealed n is).trans unsealed) false (spell x)).trans ?_
    rw [Compiler.emitted_emitted]
    rfl
  | element h => exact emitStore_of h unsealed n is

/-- Values are stored in the order of the targets. -/
theorem emitStores_of {ps : List Destination} {places : List Target}
    (kept : List.Forall₂ (Destination.Kept spell) ps places)
    (unsealed : c.draft.code.isSealed = false) (n : Nat) (is : List Instruction) :
    emitStores (places.map (·, false)) (c.emitted n is) =
      (.ok (), c.emitted n (is ++ storesCode spell (c.here + is.length) ps)) := by
  induction kept generalizing is with
  | nil =>
    rw [storesCode, List.append_nil]
    rfl
  | @cons p place ps places first _ ih =>
    refine (bind_of_ok (emitStore_kept first unsealed n is)).trans ((ih _).trans ?_)
    rw [List.append_assoc, List.length_append, ← Nat.add_assoc]
    rfl

/-- Values of expressions are stored from the last one to the first. -/
theorem assignSeveral_list {a : Several} {places : List Target}
    (kept : List.Forall₂ (Destination.Kept c.spelling) a.targets places)
    (unsealed : c.draft.code.isSealed = false)
    (reads : expressionList rules (c.emitted 0 [⟨.push, .value (.marker .values)⟩]) =
      (.ok a.values.length, c.emitted n (⟨.push, .value (.marker .values)⟩ ::
        Expr.itemsCode c.spelling (c.here + 1) a.values))) :
    assignSeveral rules (places.map (·, false)) c =
      (.ok (), c.emitted n (a.code c.spelling c.here)) := by
  have several := a.several
  have lengths := kept.length_eq
  have fromList : a.values.length ≠ 1 := by rw [a.paired]; omega
  have paired : ¬a.values.length ≠ (places.map fun p => (p, false)).length := by
    rw [List.length_map, a.paired, lengths]
    simp
  have stores := emitStores_of (c := c) (List.rel_reverse kept) unsealed n
    (⟨.push, .value (.marker .values)⟩ :: Expr.itemsCode c.spelling (c.here + 1) a.values)
  rw [List.map_reverse] at stores
  refine (bind_of_ok (emit_of unsealed .push _)).trans ((bind_of_ok reads).trans ?_)
  dsimp only
  rw [if_neg fromList]
  refine (bind_of_ok (a := false) rfl).trans ?_
  rw [if_neg Bool.false_ne_true, if_neg paired]
  refine (bind_of_ok stores).trans ((emit_emitted unsealed n _ .dropToMarker _).trans ?_)
  rfl

/-- A call that all results are asked of. -/
def Instruction.multiple (operand : Operand) : Instruction :=
  ⟨.call, .tuple [.int (Int64.ofNat (callParts operand).1), .int ((callParts operand).2 ||| 2)]⟩

/-- The last instruction is asked for all results if it is a call. -/
theorem requestMultiple_call (unsealed : c.draft.code.isSealed = false) (n : Nat)
    (is : List Instruction) (operand : Operand) :
    requestMultiple (c.emitted n (is ++ [⟨.call, operand⟩])) =
      (.ok true, c.emitted n (is ++ [.multiple operand])) := by
  obtain ⟨code, hcode⟩ : ∃ code, code = c.draft.code.pushAll (is ++ [⟨.call, operand⟩]) := ⟨_, rfl⟩
  have last : code.instructions.back? = some ⟨.call, operand⟩ := by
    simp [hcode]
  have asked : code.emitAt (code.size - 1) .call
      (.tuple [.int (Int64.ofNat (callParts operand).1), .int ((callParts operand).2 ||| 2)]) =
      .ok (c.draft.code.pushAll (is ++ [.multiple operand])) := by
    subst hcode
    exact Code.emitAt_pushAll unsealed is _ _ _
  refine (bind_of_ok (get_eq _)).trans ?_
  have drafted : (c.emitted n (is ++ [⟨.call, operand⟩])).draft.code = code := hcode.symm
  dsimp only
  rw [drafted, last]
  dsimp only
  rw [if_pos (beq_self_eq_true _)]
  rw [← drafted] at asked ⊢
  exact bind_of_ok (editCode_of asked)

/-- Results of a call are stored from the first one to the last. -/
theorem assignSeveral_call {ps : List Destination} {places : List Target} {operand : Operand}
    (kept : List.Forall₂ (Destination.Kept c.spelling) ps places)
    (unsealed : c.draft.code.isSealed = false)
    (reads : expressionList rules (c.emitted 0 [⟨.push, .value (.marker .values)⟩]) =
      (.ok 1, c.emitted n (is ++ [⟨.call, operand⟩]))) :
    assignSeveral rules (places.map (·, false)) c =
      (.ok (), c.emitted n (is ++ [.multiple operand] ++
        resultsCode c.spelling (c.here + (is ++ [Instruction.multiple operand]).length) ps)) := by
  refine (bind_of_ok (emit_of unsealed .push _)).trans ((bind_of_ok reads).trans ?_)
  dsimp only
  rw [if_pos rfl]
  refine (bind_of_ok (requestMultiple_call unsealed n is operand)).trans ?_
  rw [if_pos rfl]
  refine (bind_of_ok (emitStores_of kept unsealed n _)).trans ?_
  refine (emit_emitted unsealed n _ .dropToMarker _).trans ?_
  rw [resultsCode, List.append_assoc (is ++ _)]

theorem assignValues_several {places : List Target} (several : 1 < places.length) (c : Compiler) :
    assignValues rules places false c = assignSeveral rules (places.map (·, false)) c := by
  match places, several with
  | p :: q :: rest, _ =>
    have zipped : (p :: q :: rest).zip ((p :: q :: rest).map fun _ => false) =
        (p :: q :: rest).map (·, false) := (List.map_prod_left_eq_zip ..).symm
    refine (bind_of_ok (a := (p :: q :: rest).map fun _ => false) rfl).trans ?_
    dsimp only
    rw [zipped]
    rfl

/-- An assignment to several targets is read as its code. -/
theorem Several.Laid.reads {a : Several} (laid : a.Laid ts) (c : Compiler) :
    ReadsAll simpleStatement c.normalize ts fun start => a.code c.spelling start := by
  intro package depth c' reading normalize atEnd
  have spelling : c.spelling = c'.spelling := by
    funext name
    rw [Compiler.spelling, Compiler.spelling, normalize]
  rw [spelling]
  cases laid with
  | @intro t op ts us targets word lines values =>
    have unsealed := reading.ready.unsealed
    have known := classify_of reading.ahead
      (targets.passedOn fun u mem => lines u (List.mem_append_left _ mem)) (lines op (by simp)) word
      (by decide)
    have other (text : String) (ne : "=" ≠ text) : op.is text = false :=
      Token.is_other (Token.is_of_word word) ne
    obtain ⟨places, read, kept⟩ := targets.targetList_of reading a.several
      ⟨other _ (by decide), other _ (by decide), other _ (by decide)⟩
    have behind := (reading.right []).tail []
    rw [Compiler.emitted_emitted] at behind
    obtain ⟨start, hstart⟩ : ∃ c₁, c₁ = c'.emitted ((t :: ts).length + 1) [] := ⟨_, rfl⟩
    have here : start.here = c'.here := by rw [hstart, Compiler.emitted_here]; rfl
    have spelling' : start.spelling = c'.spelling := by rw [hstart]; rfl
    have after : start.emitted us.length [] = c'.emitted (t :: ts ++ op :: us).length [] := by
      rw [hstart, Compiler.emitted_emitted, List.length_append, List.length_cons, Nat.add_assoc,
        Nat.add_comm 1]
      rfl
    have started : c'.emitted ((t :: ts).length + 1) ([] ++ []) = start := hstart.symm
    rw [started] at behind
    -- the values are read behind the marker
    have some : a.values ≠ [] := by
      intro none
      have := a.several
      rw [← a.paired, none] at this
      exact absurd this (by decide)
    have list := expressionList_of values some (behind.start [⟨.push, .value (.marker .values)⟩])
    rw [Compiler.emitted_emitted, Nat.zero_add, Compiler.emitted_emitted, Compiler.emitted_here,
      Nat.zero_add] at list
    have ended : (start.emitted us.length []).cursor.atEnd = true := by rw [after]; exact atEnd
    have last : (start.emitted us.length []).cursor.last.tag = .endOfInput := behind.ready.last
    have reads := list (.emitted (.of_atEnd ended last)) (Compiler.isNext_atEnd ended last ",")
    rw [← spelling'] at kept
    have assigned := assignSeveral_list (c := start) kept behind.ready.unsealed reads
    refine (bind_of_ok known).trans ((bind_of_ok read).trans ?_)
    refine (bind_of_ok (next_of (reading.right []).ahead)).trans ?_
    have equals : op.spelling = "=" := (Prod.mk.inj word).2
    rw [Compiler.emitted_emitted]
    simp only [equals]
    refine (assignValues_several (kept.length_eq ▸ a.several) _).trans ?_
    rw [started, assigned, here, spelling', hstart, Compiler.emitted_emitted, List.length_append,
      List.length_cons, Nat.add_assoc, Nat.add_comm 1]
    rfl

end

/-! ## Both orders -/

/-- All targets are names, different ones but for `_`, that values are stored under as they are. -/
structure Several.Named (spell : String → String) (a : Several) (names : List String) : Prop where
  targets : a.targets = names.map .name
  plainly : ∀ x ∈ names, Plainly (spell x)
  apart : names.Pairwise fun x y => Apart (spell x) (spell y)

theorem storeAll_names (σ : Setting) (l : List (String × Value)) :
    Destination.storeAll σ (l.map fun p => (.name p.1, p.2)) =
      bindAll σ.table (l.map fun p => (σ.spell p.1, p.2)) := by
  induction l with
  | nil => rfl
  | cons p l ih =>
    rw [List.map_cons, List.map_cons, Destination.storeAll, bindAll, ih]
    rfl

/-- Under different names values are stored in either order. -/
theorem Several.Named.either_order {σ : Setting} {a : Several} {names : List String}
    (named : a.Named σ.spell names) {vs : List Value} (count : vs.length = a.targets.length)
    (s s' : Store) :
    Destination.storeAll σ (a.targets.zip vs).reverse s = (.ok (), s') ↔
      Destination.storeAll σ (a.targets.zip vs) s = (.ok (), s') := by
  have zipped : a.targets.zip vs = (names.zip vs).map fun p => (Destination.name p.1, p.2) := by
    rw [named.targets, List.zip_map_left]
    rfl
  have firsts : (names.zip vs).map Prod.fst = names := by
    rw [named.targets, List.length_map] at count
    exact List.map_fst_zip (Nat.le_of_eq count.symm)
  have apart : (names.zip vs).Pairwise fun p q => Apart (σ.spell p.1) (σ.spell q.1) := by
    have := named.apart
    rwa [← firsts, List.pairwise_map] at this
  rw [zipped, ← List.map_reverse, storeAll_names, storeAll_names, List.map_reverse]
  refine bindAll_perm (List.reverse_perm _) ?_ ?_
  · intro p mem
    obtain ⟨q, inside, rfl⟩ := List.mem_map.1 (List.mem_reverse.1 mem)
    exact named.plainly _ (List.of_mem_zip inside).1
  · rw [List.pairwise_reverse, List.pairwise_map]
    exact apart.imp Apart.symm

/-! ## Results of calls -/

/-- The results of a call are stored in several places from the first one to the last. If the values
of an assignment are one call, it is asked for all results, and behind it stands code that stores what
it has pushed above the marker. -/
def Destination.StoresResults (ps : List Destination) : Prop :=
  ∀ (rules : Nested) (b : Compiler) (places : List Target) (n : Nat) (is : List Instruction)
    (operand : Operand), List.Forall₂ (Destination.Kept b.spelling) ps places →
    b.draft.code.isSealed = false →
    expressionList rules (b.emitted 0 [⟨.push, .value (.marker .values)⟩]) =
      (.ok 1, b.emitted n (is ++ [⟨.call, operand⟩])) →
    ∃ behind, assignSeveral rules (places.map (·, false)) b =
        (.ok (), b.emitted n (is ++ [.multiple operand] ++ behind)) ∧
      ∀ (k : Context) (w : World) (s : Store) (unit : Code) (stack : Array Value) (vs : List Value),
        let pc := b.here + (is ++ [Instruction.multiple operand]).length
        Placed unit pc behind → k.base ≤ stack.size → vs.length = ps.length →
        ∃ results, Exec.pushResults vs true (k.at pc (stack.push (.marker .values))) w s =
            (((.ok (), k.at pc results), w), s) ∧
          Computes k w unit pc (pc + behind.length) results
            (Destination.storeAll (k.setting b.spelling) (ps.zip vs)) fun _ => stack

theorem Destination.storesResults {ps : List Destination} (short : ∀ p ∈ ps, p.Short)
    (several : 1 < ps.length) : Destination.StoresResults ps := by
  intro rules b places n is operand kept unsealed reads
  refine ⟨_, assignSeveral_call kept unsealed reads, fun k w s unit stack vs => ?_⟩
  intro pc placed high paired
  have pushed : Exec.pushResults vs true (k.at pc (stack.push (.marker .values))) w s = _ :=
    pushResults_several (paired ▸ several) pc s
  exact ⟨_, pushed, resultsCode_computes placed short high paired⟩

/-! ## Sources -/

namespace Several

theorem exec_within (σ : Setting) (a : Several) :
    StoreM.Within (fun s s' => s'.codes = s.codes) (a.exec σ) := by
  have h := Store.addsObjects_codes
  exact .bind h (Expr.evalAll_within h σ a.values) fun vs =>
    Destination.storeAll_within σ (a.targets.zip vs).reverse

/-- A source that spells an assignment to several targets is compiled and runs as its effect: the values
of the expressions are stored from the last one to the first. The results of a call are stored in the
targets from the first one to the last. Where the targets are different names, both orders come to the
same. -/
theorem compile_stores {source : String} {tokens : List Token} {a : Several}
    (scanned : Token.scanAll source = .ok tokens) (laid : a.Laid tokens)
    (noType : ¬Token.OpensPointers tokens) (few : source.length < countLimit) (c : Compiler) :
    (∃ (code : Code) (c' : Compiler), compile source c = (.ok code, c') ∧
      ∀ (level : Strictness) (table : TableRef) (w : World) (s₀ : Store),
        let (r, s) := s₀.newCode code
        (Context.new s level r table).RunsAs w s (a.exec ⟨level, table, c.spelling⟩) fun _ => #[]) ∧
    Destination.StoresResults a.targets ∧
    ∀ (σ : Setting) (names : List String), a.Named σ.spell names →
      ∀ vs : List Value, vs.length = a.targets.length → ∀ s s' : Store,
        Destination.storeAll σ (a.targets.zip vs).reverse s = (.ok (), s') ↔
          Destination.storeAll σ (a.targets.zip vs) s = (.ok (), s') := by
  have length := Token.scanAll_length scanned
  have short := laid.short (by omega)
  refine ⟨?_, Destination.storesResults short.1 a.several,
    fun σ names named vs count => named.either_order count⟩
  obtain ⟨t, ts, rfl, name⟩ : ∃ t ts, tokens = t :: ts ∧ t.tag = .identifier := by
    cases laid with
    | @intro t _ ts us targets =>
      exact ⟨t, ts ++ _, rfl, targets.first⟩
  refine compile_single scanned name noType (laid.reads c) (a.code_movable c.spelling)
    (fun σ => a.exec_within σ) fun c' w code base placed => ?_
  exact code_computes placed short (Nat.le_of_eq base)

/-- The tokens of two names that swap their values. -/
def swapTokens : List Token :=
  [⟨"x", .identifier, 1, 1⟩, ⟨",", .punctuation, 1, 2⟩, ⟨"y", .identifier, 1, 4⟩,
    ⟨"=", .punctuation, 1, 6⟩, ⟨"y", .identifier, 1, 8⟩, ⟨",", .punctuation, 1, 9⟩,
    ⟨"x", .identifier, 1, 11⟩]

/-- Two names that swap their values. -/
def swap : Several := ⟨[.name "x", .name "y"], [.name "y", .name "x"], rfl, by decide⟩

theorem swap_laid : swap.Laid swapTokens := by
  have place (name : String) (column : Nat) :
      Destination.Laid (.name name) [⟨name, .identifier, 1, column⟩] :=
    .name (t := ⟨name, .identifier, 1, column⟩) rfl
  have read (name : String) (column : Nat) :
      Written (.expr .choice (.name name)) [⟨name, .identifier, 1, column⟩] :=
    Expr.written_of_words _ .choice _ (show ∀ t ∈ _, Token.line t = 1 by simp) rfl
  have targets : TargetsLaid swap.targets (swapTokens.take 3) :=
    .more (place "x" 1) rfl (.last (place "y" 4))
  have values : Written (.items swap.values) (swapTokens.drop 4) :=
    .more (read "y" 8) rfl (.last (read "x" 11)) (by decide)
  exact .intro targets rfl (by decide) values

/-- A store with two variables. -/
def swapStore (x y : Int64) : Store :=
  { tables := #[{ name := "main"
                  bindings := [("x", { value := .int x }), ("y", { value := .int y })] }] }

theorem swap_stored :
    (∀ (σ : Setting) (vs : List Value), σ.spell = id → vs.length = 2 → ∀ s s' : Store,
      Destination.storeAll σ (swap.targets.zip vs).reverse s = (.ok (), s') ↔
        Destination.storeAll σ (swap.targets.zip vs) s = (.ok (), s')) ∧
    ∃ (code : Code) (c' : Compiler), compile "x, y = y, x" (.new "main" {}) = (.ok code, c') ∧
      ∃ final, (Context.new ((swapStore 1 2).newCode code).2 .strict ⟨0⟩ ⟨0⟩).Ends {}
        ((swapStore 1 2).newCode code).2 (.ok ()) final {} ((swapStore 2 1).newCode code).2 := by
  have scanned : Token.scanAll "x, y = y, x" = .ok swapTokens := by decide +kernel
  have noType : ¬Token.OpensPointers swapTokens := by decide
  obtain ⟨⟨code, c', compiled, runs⟩, -, orders⟩ :=
    compile_stores scanned swap_laid noType (by decide) (.new "main" {})
  have run := runs .strict ⟨0⟩ {} (swapStore 1 2)
  obtain ⟨final, ends, -⟩ : ∃ final : Context, _ ∧ final.stack = #[] := run
  refine ⟨fun σ vs plain count => orders σ ["x", "y"] ⟨rfl, ?_, ?_⟩ vs count,
    code, c', compiled, final, ends⟩
  · rw [plain]
    exact fun x mem => .inr (by simp at mem; rcases mem with rfl | rfl <;> decide)
  · rw [plain]
    exact .cons (by simp [Apart]) (.cons (by simp) .nil)

end Several

end StackScript
