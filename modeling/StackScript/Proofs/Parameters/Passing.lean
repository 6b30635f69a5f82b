import StackScript.Proofs.Copies.Storing
import StackScript.Proofs.Parameters.Calling

/-!
# Structs are passed by value

A parameter of a struct type and a receiver that is no pointer are bound to copies. A copy reaches no
object that was there when the function was entered, so whatever is stored through it, the structs of
the caller stay as they are.

Main statements: `Parameter.Receives.passed`, `receiver_binds` and
`Compiler.Unfailed.structs_passed_by_value`.
-/
namespace StackScript

open Store (Avoids Guarded)

variable {s t u : Store} {v x : Value} {r : TableRef} {K : Place → Prop}

/-! ## Values that reach nothing old -/

theorem Store.Avoids.fewer {L : Place → Prop} (h : Avoids K s v) (fewer : ∀ p, L p → K p) : Avoids L s v :=
  fun p reached => ⟨(h p reached).1, fun mem => (h p reached).2 (fewer p mem)⟩

/-- Whatever is stored through the value from the store `t` on, the objects that were there in `s` stay
as they are, as long as they are not put within its reach. -/
def PassedByValue (s t : Store) (x : Value) : Prop :=
  ∀ K : Place → Prop, (∀ p, K p → s.Has p) → ∀ u, Relation.ReflTransGen (Stores K x) t u →
    ∀ p, K p → u.object p = s.object p

/-- A value that reaches nothing old is passed by value. -/
theorem PassedByValue.of_avoids (apart : Avoids s.Has t x) (more : s.GrowsTo t) : PassedByValue s t x := by
  intro K there u changes p mem
  have guarded : Guarded K t := fun q mem => more.has q (there q mem)
  have kept := (Stores.keeps changes guarded (apart.fewer there)).1
  exact (kept.same p (guarded p mem) mem).trans (more.same p (there p mem) trivial)

theorem PassedByValue.earlier {s₀ : Store} (h : PassedByValue s t x) (more : s₀.GrowsTo s) :
    PassedByValue s₀ t x := by
  intro K there u changes p mem
  exact (h K (fun q mem => more.has q (there q mem)) u changes p mem).trans
    (more.same p (there p mem) trivial)

/-- A value is stored under a name without what it does not reach. -/
theorem storedUnder_avoids (guarded : Guarded K s) (h : Avoids K s v) (name : String) :
    StoreM.Gives s (storedUnder name v) (Avoids K) :=
  .ite (.get_bind (Value.copyTo_avoids guarded h _)) (.pure h)

/-- A value that is stored under a name when it has been copied is passed by value. -/
theorem PassedByValue.of_copy {s₀ t₁ t₂ u₁ u₂ : Store} {name : String} {received stored : Value}
    (sound : s.Sound v) (before : s.GrowsTo s₀) (copied : v.copy s₀ = (.ok received, t₁))
    (between : t₁.GrowsTo t₂) (kept : storedUnder name received t₂ = (.ok stored, u₁))
    (after : u₁.GrowsTo u₂) : PassedByValue s u₂ stored := by
  obtain ⟨w, t', run, grown, copy⟩ := Value.copy_isCopy (sound.later before)
  cases copied.symm.trans run
  have fresh : Avoids s.Has t₂ received := (copy.apart.extended between).fewer before.has
  have grows : s.GrowsTo t₂ := before.trans (grown.trans between)
  obtain ⟨grown', apart⟩ := storedUnder_avoids grows.has fresh name _ _ kept
  exact .of_avoids (apart.extended after) (grows.trans (grown'.trans after))

/-! ## Parameters -/

/-- A parameter of a struct type is bound to a copy of its argument. -/
theorem Parameter.Receives.passed {p : Parameter} {strict : Bool} {level : Strictness} {args : List Value}
    {i : Nat} (h : p.Receives strict level false args i r t u) (isStruct : p.type.kind = .struct)
    (found : args[i]? = some v) (sound : t.Sound v) :
    ∃ x, r.getLocal? u p.name = some x ∧ PassedByValue t u x := by
  cases h with
  | @intro w received stored t₁ t₂ u₁ u₂ before offered converted between kept after bound =>
    obtain rfl : v = w := Option.some.inj (found.symm.trans offered)
    have copied : (p.target false).receive strict level v = v.copy := by
      simp [Ty.receive, Parameter.target, Ty.isInterface, isStruct]
    rw [copied] at converted
    exact ⟨stored, bound, .of_copy sound before converted between kept after⟩

/-! ## Receivers -/

namespace CompileM.Receiver

variable (r : Receiver)

/-- The type of a parameter that is bound as the receiver is. -/
def type : Ty := .plain (if r.shared then .interface else .struct)

theorem code_eq : receiverCode (some r) =
    ⟨.loadThis, .none⟩ :: (r.type.receiveCode false ++ storeCode true r.name) := by
  obtain ⟨name, shared⟩ := r
  cases shared <;> rfl

theorem receive_eq (level : Strictness) (v : Value) :
    r.type.receive false level v = if r.shared then pure v else v.copy := by
  obtain ⟨name, shared⟩ := r
  cases shared <;> rfl

end CompileM.Receiver

variable {c : Context} {w : World} {code : Code} {pc : Nat} {stack : Array Value}

/-- The receiver of the current call is pushed. -/
theorem loadReceiver_goes (stack : Array Value) (found : (s.code c.code).instructions[pc]? = some ⟨.loadThis, .none⟩)
    (this : c.scope.getLocal? s Exec.receiverName = some v) :
    Snapshot.Goes ⟨c.at pc stack, w, s⟩ ⟨c.at (pc + 1) (stack.push v), w, s⟩ := by
  have read : c.scope.get? s Exec.receiverName false = some v := TableRef.get?_of_getLocal this
  have loads : Exec.loadReceiver (c.at (pc + 1) stack) w s =
      (((.ok (), c.at (pc + 1) (stack.push v)), w), s) := by
    have finds : Exec.ofStore (fun s => c.scope.get? s Exec.receiverName false) (c.at (pc + 1) stack) w s =
        (((.ok (some v), c.at (pc + 1) stack), w), s) :=
      congrArg (fun found => (((Except.ok found, c.at (pc + 1) stack), w), s)) read
    exact (Exec.bind_of_ok (a := c.scope) rfl).trans (Exec.bind_of_ok finds)
  exact Exec.step_ok found nofun loads

/-- A receiver is bound: a copy, unless it is shared. -/
theorem receiver_binds {receiver : CompileM.Receiver} (here : s.code c.code = code)
    (high : c.base ≤ stack.size) (placed : Placed code pc (receiverCode (some receiver)))
    (there : c.scope.index < s.tables.size) (this : c.scope.getLocal? s Exec.receiverName = some v)
    (proper : v.Proper) (fresh : receiver.name ≠ "_" → (s.table c.scope).binding? receiver.name = none) :
    ∃ n pc' u, Steps n ⟨c.at pc stack, w, s⟩ ⟨c.at pc' stack, w, u⟩ ∧
      s.Adds u c.scope [receiver.name] ∧
      (receiver.name ≠ "_" → receiver.shared = false → s.Sound v →
        ∃ x, c.scope.getLocal? u receiver.name = some x ∧ PassedByValue s u x) := by
  rw [receiver.code_eq] at placed
  have loads := loadReceiver_goes (w := w) stack (here ▸ placed.head) this
  rcases binds_received (w := w) here high placed.tail proper there fresh with
    ⟨n, received, t, u, steps, converted, adds, bound⟩ | ⟨n, f, t, e, -, refused⟩
  · have added := Store.Adds.of_within (fun h => receiver.type.receive_within false c.strictness v h) s c.scope
    rw [converted] at added
    refine ⟨1 + n, _, u, (Steps.one loads).trans steps, added.trans adds, fun named copies sound => ?_⟩
    obtain ⟨u₁, u₂, stored, between, kept, after, found⟩ := bound named
    rw [receiver.receive_eq, copies, if_neg Bool.false_ne_true] at converted
    exact ⟨stored, found, .of_copy sound (.refl s) converted between kept after⟩
  · rw [receiver.receive_eq] at refused
    obtain ⟨a, t', accepted⟩ : ∃ a t', (if receiver.shared then pure v else v.copy : StoreM Value) s =
        (.ok a, t') := by
      split
      · exact ⟨v, s, rfl⟩
      · exact v.copy_succeeds s
    cases accepted.symm.trans refused

/-! ## Calls -/

namespace Declaration

variable {d : Declaration}

/-- When a function has been entered, the structs that fixed parameters are bound to have been passed by
value. -/
def PassesStructs (d : Declaration) (args : List Value) (r : TableRef) (t u : Store) : Prop :=
  ∀ (i : Nat) (p : Parameter) (v : Value), d.parameters[i]? = some p → p.name ≠ "_" →
    p.type.kind = .struct → (d.variadic && i + 1 == d.parameters.length) = false → args[i]? = some v →
      t.Sound v → ∃ x, r.getLocal? u p.name = some x ∧ PassedByValue t u x

theorem Receives.passed {strict : Bool} {level : Strictness} {args : List Value}
    (h : d.Receives strict level args r t u) : d.PassesStructs args r t u := by
  intro i p v at_ named isStruct fixed found sound
  have received := h i p at_ named
  rw [fixed] at received
  exact received.passed isStruct found sound

/-- Structs stay passed by value when other names are bound. -/
theorem PassesStructs.later {args : List Value} {u' : Store} {names : List String}
    (h : d.PassesStructs args r t u) (more : u.Adds u' r names)
    (apart : ∀ p ∈ d.parameters, p.name ≠ "_" → p.name ∉ names) : d.PassesStructs args r t u' := by
  intro i p v at_ named isStruct fixed found sound
  obtain ⟨x, bound, passed⟩ := h i p v at_ named isStruct fixed found sound
  refine ⟨x, ?_, fun K there u'' changes => passed K there u'' (.head (.add more.grown) changes)⟩
  rwa [TableRef.getLocal?, more.others _ (apart p (List.mem_of_getElem? at_) named)]

/-- A receiver that a method can bind. -/
structure Takes (receiver : Option CompileM.Receiver) (this : Option Value) : Prop where
  given : receiver.isSome = true → this.isSome = true
  proper : ∀ v, this = some v → v.Proper
  names : ∀ r, receiver = some r → r.name ≠ Exec.argumentsName ∧ r.name ≠ Exec.receiverName

/-- When a method has been entered, a receiver that is no pointer has been passed by value. -/
def PassesReceiver (receiver : Option CompileM.Receiver) (this : Option Value) (r : TableRef)
    (t u : Store) : Prop :=
  ∀ (q : CompileM.Receiver) (v : Value), receiver = some q → this = some v → q.shared = false →
    q.name ≠ "_" → t.Sound v → ∃ x, r.getLocal? u q.name = some x ∧ PassedByValue t u x

/-- A function is entered with its structs passed by value, unless it does not take its arguments. -/
theorem prologue_passes {code : Code} {strict : Bool} {line last : Nat} {bound : Option CompileM.Receiver}
    (placed : Placed code 0 (d.prologue strict line last bound))
    (distinct : ((d.parameters.map Parameter.name ++ bound.toList.map CompileM.Receiver.name).filter
      (· ≠ "_")).Nodup) {ref : CodeRef} {args : List Value} {this : Option Value} {k e : Context} {w : World}
    (call : FreshCall ref args this k e s t) (here : s.code ref = code) (off : k.debugger = {})
    (regular : d.Regular args this e.scope t) (accepts : d.Accepts args.length)
    (takes : Takes bound this) :
    (∃ n f left, Fails n ⟨e, w, t⟩ f left ∧ d.Refuses strict k.strictness args t f) ∨
    ∃ n pc l u, Steps n ⟨e, w, t⟩ ⟨{ e with pc := pc, line := l }, w, u⟩ ∧
      d.PassesStructs args e.scope t u ∧ PassesReceiver bound this e.scope t u := by
  rw [List.filter_append, List.nodup_append] at distinct
  obtain ⟨parameters, -, apart⟩ := distinct
  rcases prologue_runs (w := w) placed parameters call here off regular with
    ⟨refused, -⟩ | ⟨-, ⟨n, l, u, binds, adds, received⟩ | refuses⟩
  · exact absurd accepts refused
  · right
    cases bound with
    | none => exact ⟨n, _, l, u, binds, received.passed, fun _ _ same => by cases same⟩
    | some q =>
      obtain ⟨v, rfl⟩ := Option.isSome_iff_exists.1 (takes.given rfl)
      obtain ⟨other, other'⟩ := takes.names q rfl
      let c : Context := { e with line := l }
      have inside : u.code c.code = code := by
        rw [← here, Store.code, Store.code, adds.codes, call.codes, call.code]
      have behind : Placed code (d.prologue strict line last none).length (receiverCode (some q)) := by
        have there : (d.prologue strict line last none).length = 0 +
            (lineCode line last ++ [d.checkArity] ++ parametersCode strict d.variadic 0 d.parameters).length := by
          rw [prologue, receiverCode, List.append_nil, Nat.zero_add]
        exact there ▸ placed.right
      have awaits := call.awaits [q.name] (by simpa using other.symm) fun _ => by simpa using other'.symm
      have new : q.name ≠ "_" → q.name ∉ d.parameters.map Parameter.name := fun named mem =>
        apart q.name (List.mem_filter.2 ⟨mem, decide_eq_true named⟩) q.name
          (List.mem_filter.2 ⟨List.mem_singleton_self _, decide_eq_true named⟩) rfl
      have held : e.scope.getLocal? u Exec.receiverName = some v := by
        rw [TableRef.getLocal?, adds.others _ (regular.receiver rfl)]
        exact call.this v rfl
      have fresh : q.name ≠ "_" → (u.table e.scope).binding? q.name = none := fun named =>
        (adds.others _ (new named)).trans (awaits.fresh _ (List.mem_singleton_self _) named)
      obtain ⟨n', pc, u', steps, more, passed⟩ := receiver_binds (c := c) (w := w) inside call.high behind
        (adds.size ▸ awaits.there) held (takes.proper v rfl) fresh
      refine ⟨n + n', pc, l, u', binds.trans steps, ?_, ?_⟩
      · refine received.passed.later more fun p mem named same => ?_
        have same : p.name = q.name := List.mem_singleton.1 same
        exact new (same ▸ named) (same ▸ List.mem_map_of_mem mem)
      · intro _ _ same given copies named sound
        cases same
        cases given
        obtain ⟨x, found, passed⟩ := passed named copies (sound.later adds.grown)
        exact ⟨x, found, passed.earlier adds.grown⟩
  · exact .inl refuses

end Declaration

/-- Structs are passed by value. Whatever the body of a function stores through a fixed parameter of a
struct type, or through a receiver that it copies, the structs that were there when it was entered stay
as they are. -/
theorem Compiler.Unfailed.structs_passed_by_value {c c' : Compiler} {code unit function : Code}
    {source : String} {r : CodeRef} {d : Declaration} (h : c.Unfailed)
    (compiled : CompileM.compile source c = (.ok code, c') ∨
      CompileM.compileExpression source c = (.ok code, c'))
    (part : Code.Part c'.codes code unit) (pushes : unit.Pushes r)
    (found : c'.codes[r.index]? = some function) (declared : function.declaration = some d)
    (lexical : d.scope = .lexical) :
    ∃ (strict : Bool) (line last : Nat) (bound : Option CompileM.Receiver),
      d.receiver = bound.map CompileM.Receiver.name ∧
      Placed function 0 (d.prologue strict line last bound) ∧
      ∀ (ref : CodeRef) (captured : Option TableRef) (args : List Value) (this : Option Value)
        (multi : Bool) (k : Context) (w : World) (s : Store),
        s.code ref = function → k.debugger = {} →
          ∃ e t, Exec.callFunction ref captured args this multi k w s = (((.ok (), e), w), t) ∧
            (d.Regular args this e.scope t → d.Accepts args.length → Declaration.Takes bound this →
              (∃ n f left, Fails n ⟨e, w, t⟩ f left ∧ d.Refuses strict k.strictness args t f) ∨
              ∃ n pc l u, Steps n ⟨e, w, t⟩ ⟨{ e with pc := pc, line := l }, w, u⟩ ∧
                d.PassesStructs args e.scope t u ∧
                Declaration.PassesReceiver bound this e.scope t u) := by
  obtain ⟨level, -, line, last, bound, named, placed, distinct⟩ :=
    h.prepared compiled part pushes found d declared lexical
  refine ⟨level == .strict, line, last, bound, named, placed, fun ref captured args this multi k w s here off => ?_⟩
  obtain ⟨e, t, called⟩ : ∃ e t, Exec.callFunction ref captured args this multi k w s =
      (((.ok (), e), w), t) := ⟨_, _, rfl⟩
  obtain ⟨-, fresh⟩ := callFunction_fresh called
  exact ⟨e, t, called, fun regular accepts takes =>
    Declaration.prologue_passes placed distinct fresh here off regular accepts takes⟩

/-- A method on a struct that takes another struct. -/
def joinSource : String := "type P struct \x7b n int \x7d\nfunc (p P) join(q P) \x7b q.n = p.n \x7d"

/-- What the method declares. -/
def joinDeclaration : Declaration :=
  { name := "P.join", receiver := some "p"
    parameters := [⟨"q", .named "P" (.struct [("n", .plain .int)])⟩] }

/-- A new machine that has the units of the source and two structs. -/
def joinStore : Store :=
  { (Machine.new {}).store with
    codes := (CompileM.compile joinSource (.new "main" {})).2.codes
    structs := #[{ fields := [("n", .int 1)] }, { fields := [("n", .int 2)] }] }

/-- The context that the method is called in. -/
def joinCaller : Context := .new joinStore .relaxed ⟨0⟩ (Machine.new {}).root

set_option maxRecDepth 20000 in
/-- The method is called on one struct with the other one. -/
theorem join_passes : ∃ (function : Code) (bound : Option CompileM.Receiver) (e : Context) (t : Store),
    function.declaration = some joinDeclaration ∧ joinStore.code ⟨0⟩ = function ∧
      Exec.callFunction ⟨0⟩ none [.struct ⟨0⟩] (some (.struct ⟨1⟩)) false joinCaller {} joinStore =
        (((.ok (), e), {}), t) ∧
      ∃ strict : Bool, (∃ n f left, Fails n ⟨e, {}, t⟩ f left ∧
          joinDeclaration.Refuses strict .relaxed [.struct ⟨0⟩] t f) ∨
        ∃ n pc l u, Steps n ⟨e, {}, t⟩ ⟨{ e with pc := pc, line := l }, {}, u⟩ ∧
          joinDeclaration.PassesStructs [.struct ⟨0⟩] e.scope t u ∧
          Declaration.PassesReceiver bound (some (.struct ⟨1⟩)) e.scope t u := by
  obtain ⟨code, c', run, pushes, declarations⟩ := CompileM.exists_compiled joinSource (.new "main" {})
    (fun code c' => code.Pushes ⟨0⟩ ∧ c'.codes.map (·.declaration) = #[some joinDeclaration])
    (by decide +kernel)
  have codes : joinStore.codes = c'.codes := congrArg (·.2.codes) run
  have declared : (c'.codes[0]?).map (·.declaration) = some (some joinDeclaration) := by
    rw [← Array.getElem?_map, declarations]
    rfl
  obtain ⟨function, found, declaration⟩ := Option.map_eq_some_iff.1 declared
  have here : joinStore.code ⟨0⟩ = function := by simp [Store.code, codes, found]
  obtain ⟨strict, line, last, bound, named, -, calls⟩ :=
    Compiler.Unfailed.structs_passed_by_value (.new "main" {}) (.inl run) .whole pushes
      found declaration rfl
  obtain ⟨e, t, called, passes⟩ :=
    calls ⟨0⟩ none [.struct ⟨0⟩] (some (.struct ⟨1⟩)) false joinCaller {} joinStore here rfl
  refine ⟨function, bound, e, t, declaration, here, called, strict, passes ?_ ?_ ?_⟩
  · exact ⟨by decide, by decide, by simp [Value.Proper, Value.isMarker], by decide, by decide, by rintro ⟨⟩⟩
  · exact ⟨by decide, by simp [joinDeclaration, Declaration.maxArgs?]⟩
  · refine ⟨fun _ => rfl, by simp [Value.Proper, Value.isMarker], fun r same => ?_⟩
    rw [same] at named
    have name : "p" = r.name := Option.some.inj named
    rw [← name]
    exact ⟨by decide, by decide⟩

/-- A function whose last parameter takes structs. -/
def sharedSource : String :=
  "type P struct \x7b n int \x7d\nfunc bump(ps ...P) \x7b ps[0].n = 9 \x7d\nq := P\x7bn: 1\x7d\nbump(q)\nprint q.n\n"

/-- The structs that a variadic parameter holds are shared with the caller. -/
theorem rest_shared :
    (fun ended : Except Fault Unit × Machine => (ended.1.mapError (·.kind), ended.2.world.output))
      (CommandLine.runSource {} "test" sharedSource none (Machine.new {})) = (.ok (), "9\n") := by
  decide +kernel

end StackScript
