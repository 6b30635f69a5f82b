import StackScript.Proofs.Rules
import StackScript.Machine.Thread

/-!
# Computations and frames on the stack

The values below the base of the current call belong to its callers. Every operation but a call
and a return leaves them where they are, together with the place of the frame and the number of
active calls (`perform_contained`). All but entering and leaving a protected block leave the
protected blocks alone too.

A computation is contained if its parts are (`Contained.bind`), so of the instructions no more is
looked at than their parts.
-/
namespace StackScript

namespace Context

/-- `c'` differs from `c` only in what the current call may change by itself: the frame, the calls
and the values below the base are the same, and so are the protected blocks. -/
structure Keeps (c c' : Context) : Prop where
  fp : c'.fp = c.fp
  depth : c'.depth = c.depth
  tries : c'.tries = c.tries
  high : c.base ≤ c.stack.size → c'.base ≤ c'.stack.size
  below : ∀ i < c.base, c.base ≤ c.stack.size → c'.stack[i]? = c.stack[i]?

theorem Keeps.base {c c' : Context} (h : c.Keeps c') : c'.base = c.base := by
  simp only [Context.base, h.depth, h.fp]

theorem Keeps.refl (c : Context) : c.Keeps c := ⟨rfl, rfl, rfl, id, fun _ _ _ => rfl⟩

theorem Keeps.trans {a b c : Context} (h : a.Keeps b) (k : b.Keeps c) : a.Keeps c where
  fp := k.fp.trans h.fp
  depth := k.depth.trans h.depth
  tries := k.tries.trans h.tries
  high := fun high => k.high (h.high high)
  below := fun i hi high =>
    (k.below i (h.base ▸ hi) (h.high high)).trans (h.below i hi high)

/-- Anything may change but the stack, the frame, the calls and the protected blocks. -/
theorem Keeps.of_eq {c c' : Context} (stack : c'.stack = c.stack) (fp : c'.fp = c.fp)
    (depth : c'.depth = c.depth) (tries : c'.tries = c.tries) : c.Keeps c' := by
  refine ⟨fp, depth, tries, fun high => ?_, fun i _ _ => by rw [stack]⟩
  simpa only [Context.base, stack, fp, depth] using high

theorem Keeps.at (c : Context) (pc : Nat) : c.Keeps { c with pc := pc } := .of_eq rfl rfl rfl rfl

theorem Keeps.push {c c' : Context} (h : c.Keeps c') (v : Value) :
    c.Keeps { c' with stack := c'.stack.push v } := by
  refine h.trans ⟨rfl, rfl, rfl, fun high => ?_, fun i hi high => ?_⟩
  · simp only [Array.size_push]
    exact Nat.le_succ_of_le high
  · have : i < c'.stack.size := Nat.lt_of_lt_of_le hi high
    simp [Array.getElem?_push, Nat.ne_of_lt this]

theorem Keeps.pushAll {c c' : Context} (h : c.Keeps c') (vs : List Value) :
    c.Keeps { c' with stack := vs.foldl Array.push c'.stack } := by
  induction vs generalizing c' with
  | nil => exact h
  | cons v rest ih => exact ih (h.push v)

/-- Values may be taken down to the base. -/
theorem Keeps.shrink {c : Context} {height : Nat} (h : c.base ≤ height) :
    c.Keeps { c with stack := c.stack.shrink height } := by
  refine ⟨rfl, rfl, rfl, fun high => ?_, fun i hi _ => ?_⟩
  · simp only [Context.base] at h high ⊢
    simp only [Array.size_shrink]
    omega
  · have : i < height := Nat.lt_of_lt_of_le hi h
    simp only [Array.shrink_eq_take, Array.take_eq_extract, Array.getElem?_extract]
    split <;> grind

theorem Keeps.pop {c : Context} (h : c.base < c.stack.size) :
    c.Keeps { c with stack := c.stack.pop } := by
  refine ⟨rfl, rfl, rfl, fun _ => ?_, fun i hi _ => ?_⟩
  · simp only [Context.base] at h ⊢
    simp only [Array.size_pop]
    omega
  · have : i < c.stack.size - 1 := by omega
    simp [this]

end Context

namespace Exec

/-- The context that a computation leaves behind, whether it fails or not. -/
def after {α : Type} (m : Exec α) (c : Context) (w : World) (s : Store) : Context := (m c w s).1.1.2

/-- A computation that takes nothing from the callers, and enters and leaves neither a call nor a
protected block. -/
def Contained {α : Type} (m : Exec α) : Prop :=
  ∀ (c : Context) (w : World) (s : Store), c.Keeps (after m c w s)

namespace Contained

variable {α β : Type}

theorem keeps {m : Exec α} (h : Contained m) {c c' : Context} {w w' : World} {s s' : Store}
    {r : Except Fault α} (e : m c w s = (((r, c'), w'), s')) : c.Keeps c' := by
  have := h c w s
  rwa [after, e] at this

theorem pure (a : α) : Contained (Pure.pure a : Exec α) := fun c _ _ => .refl c

theorem throw (f : Fault) : Contained (MonadExcept.throw f : Exec α) := fun c _ _ => .refl c

theorem bind {m : Exec α} {f : α → Exec β} (hm : Contained m) (hf : ∀ a, Contained (f a)) :
    Contained (m >>= f) := by
  intro c w s
  have first := hm c w s
  simp only [after, Bind.bind, ExceptT.bind, ExceptT.mk, StateT.bind] at first ⊢
  rcases hr : m c w s with ⟨⟨⟨r, c'⟩, w'⟩, s'⟩
  rw [hr] at first
  cases r with
  | error f => exact first
  | ok a => exact first.trans (hf a c' w' s')

theorem map {m : Exec α} (hm : Contained m) (f : α → β) : Contained (f <$> m) := by
  have : f <$> m = m >>= fun a => Pure.pure (f a) := by simp
  rw [this]
  exact hm.bind fun a => pure (f a)

theorem ofStoreM (m : StoreM α) : Contained (liftM m : Exec α) := fun c _ _ => .refl c

theorem ofWorldM (m : WorldM α) : Contained (liftM m : Exec α) := fun c _ _ => .refl c

theorem getWorld : Contained (getThe World : Exec World) := fun c _ _ => .refl c

theorem getStore : Contained (getThe Store : Exec Store) := fun c _ _ => .refl c

theorem ofContext (f : Context → α) : Contained (Exec.ofContext f) := fun c _ _ => .refl c

theorem ofStore (f : Store → α) : Contained (Exec.ofStore f) := fun c _ _ => .refl c

theorem modifyStore (f : Store → Store) : Contained (Exec.modifyStore f) := fun c _ _ => .refl c

theorem modifyContext {f : Context → Context} (h : ∀ c : Context, c.Keeps (f c)) :
    Contained (Exec.modifyContext f) := fun c _ _ => h c

end Contained

/-! ## The stack -/

theorem push_contained (v : Value) : Contained (push v) :=
  fun c _ _ => (Context.Keeps.refl c).push v

theorem pushAll_contained (vs : List Value) : Contained (pushAll vs) :=
  fun c _ _ => (Context.Keeps.refl c).pushAll vs

theorem pop_contained : Contained pop := by
  intro c w s
  simp only [after, pop]
  split
  · exact .refl c
  · exact .pop (by omega)

theorem popValue_contained : Contained popValue := by
  intro c w s
  simp only [after, popValue]
  split
  · exact .refl c
  · split <;> exact .pop (by omega)

theorem popMany_contained (count : Nat) : Contained (popMany count) := by
  intro c w s
  simp only [after, popMany]
  split
  · exact .refl c
  · exact .shrink (by omega)

theorem peek_contained (offset : Nat) : Contained (peek offset) := by
  intro c w s
  simp only [after, peek]
  split <;> exact .refl c

/-- Cutting back to a marker stops at the base. -/
theorem dropTo_keeps (label : String) {c : Context} (height : Nat) {stack : Array Value}
    (h : c.Keeps { c with stack := stack }) :
    c.Keeps { c with stack := (dropTo label c.base height stack).1 } := by
  induction height generalizing stack with
  | zero => exact h
  | succ height ih =>
    unfold dropTo
    split
    · exact h
    · have popped : c.Keeps { c with stack := stack.pop } := by
        refine h.trans (.pop (c := { c with stack := stack }) ?_)
        simp only [Context.base] at *
        omega
      split
      · exact popped
      · exact ih popped

/-! ## Every instruction -/

/-- The parts of instructions are contained. -/
theorem contained_rules : Rules fun _ m => Contained m where
  pure := .pure
  throw := .throw
  bind := .bind
  read _ c _ _ := .refl c
  modifyContext slight :=
    .modifyContext fun c => .of_eq (slight.stack c) (slight.fp c) (slight.depth c) (slight.tries c)
  push := push_contained
  pushAll := pushAll_contained
  pop := pop_contained
  popValue := popValue_contained
  popMany := popMany_contained
  peek := peek_contained
  cut _ c _ _ := dropTo_keeps _ _ (.refl c)
  compute _ c _ _ := .refl c
  set _ _ _ c _ _ := .refl c
  create _ _ c _ _ := .refl c
  setConstant _ _ _ c _ _ := .refl c
  openScope _ _ _ := .of_eq rfl rfl rfl rfl
  write _ c _ _ := .refl c
  takeReceiver _ _ _ := .of_eq rfl rfl rfl rfl
  native _ _ c _ _ := .refl c

theorem explode_contained : Contained explode := by
  refine popValue_contained.bind fun v => ?_
  split
  · exact .bind (.ofStore _) fun _ => .bind (.ofContext _) fun _ => .modifyStore _
  · exact contained_rules.wrongType _

theorem deleteName_contained (operand : Operand) : Contained (deleteName operand) :=
  .bind (contained_rules.nameOf operand) fun _ => .bind (.ofContext _) fun _ => .ofStoreM _

/-- An instruction that enters and leaves nothing is contained. -/
theorem perform_contained {i : Instruction} (plain : delimits i.op = false) :
    Contained (perform i) := by
  cases heeds : overrides i.op with
  | false => exact contained_rules.perform plain heeds
  | true =>
    obtain ⟨op, operand⟩ := i
    cases op <;> cases heeds
    · exact explode_contained
    · exact deleteName_contained operand

end Exec

/-!
## Frames on the stack

A call keeps its caller's state as a frame on the stack that the callee works on. The places of
the frames form a chain: the current frame is at `fp`, and each frame holds the place of the one
below it. `Framed` says that the chain has as many frames as there are active calls, and that every
protected block was entered in a call that is still active.

Main statements: `FramedAt.call`, `FramedAt.leave` and `FramedAt.catch`. A call, a return and a
caught fault keep the frames in order, and keep what lies no higher than the frames of the calls
that stay active (`Linked`).
-/

namespace Exec

variable {α β : Type}

/-- What a sequence comes to: its first part fails, or both are performed. -/
theorem bind_cases {m : Exec α} {f : α → Exec β} {c c' : Context} {w w' : World} {s s' : Store}
    {r : Except Fault β} (h : (m >>= f) c w s = (((r, c'), w'), s')) :
    (∃ fault, r = .error fault ∧ m c w s = (((.error fault, c'), w'), s')) ∨
      ∃ a c₁ w₁ s₁, m c w s = (((.ok a, c₁), w₁), s₁) ∧ f a c₁ w₁ s₁ = (((r, c'), w'), s') := by
  simp only [Bind.bind, ExceptT.bind, ExceptT.mk, StateT.bind] at h
  rcases hm : m c w s with ⟨⟨⟨r, c₁⟩, w₁⟩, s₁⟩
  rw [hm] at h
  cases r with
  | error f =>
    cases h
    exact .inl ⟨f, rfl, rfl⟩
  | ok a => exact .inr ⟨a, c₁, w₁, s₁, rfl, h⟩

theorem bind_ok {m : Exec α} {f : α → Exec β} {c c' : Context} {w w' : World} {s s' : Store} {b : β}
    (h : (m >>= f) c w s = (((.ok b, c'), w'), s')) :
    ∃ a c₁ w₁ s₁, m c w s = (((.ok a, c₁), w₁), s₁) ∧ f a c₁ w₁ s₁ = (((.ok b, c'), w'), s') := by
  rcases bind_cases h with ⟨_, h, _⟩ | h
  · cases h
  · exact h

/-- A sequence whose first part has succeeded goes on with the second. -/
theorem bind_of_ok {m : Exec α} {f : α → Exec β} {c c₁ : Context} {w w₁ : World} {s s₁ : Store}
    {a : α} (h : m c w s = (((.ok a, c₁), w₁), s₁)) : (m >>= f) c w s = f a c₁ w₁ s₁ := by
  simp only [Bind.bind, ExceptT.bind, ExceptT.mk, StateT.bind, h]
  rfl

/-- A sequence whose first part has failed has failed. -/
theorem bind_of_error {m : Exec α} {f : α → Exec β} {c c₁ : Context} {w w₁ : World}
    {s s₁ : Store} {fault : Fault} (h : m c w s = (((.error fault, c₁), w₁), s₁)) :
    (m >>= f) c w s = (((.error fault, c₁), w₁), s₁) := by
  simp only [Bind.bind, ExceptT.bind, ExceptT.mk, StateT.bind, h]
  rfl

end Exec

namespace Context

/-! ## The chain of frames -/

/-- `places` are the places of the frames from the one at `fp` on, the innermost first: each lies
above the one whose place it holds, and the last one holds the bottom. -/
inductive Chain (stack : Array Value) : (fp : Nat) → (places : List Nat) → Prop
  | bottom : Chain stack 0 []
  | frame {fp : Nat} {f : Frame} {rest : List Nat} (here : stack[fp]? = some (.frame f))
      (above : ∀ p ∈ rest, p < fp) (below : Chain stack f.fp rest) : Chain stack fp (fp :: rest)

theorem Chain.congr {stack stack' : Array Value} {fp : Nat} {places : List Nat}
    (h : Chain stack fp places) (same : ∀ p ∈ places, stack'[p]? = stack[p]?) :
    Chain stack' fp places := by
  induction h with
  | bottom => exact .bottom
  | frame here above _ ih =>
    refine .frame ((same _ (by simp)).trans here) above (ih fun p hp => same p ?_)
    exact List.mem_cons_of_mem _ hp

theorem Chain.cons {stack : Array Value} {fp p : Nat} {rest : List Nat}
    (h : Chain stack fp (p :: rest)) :
    ∃ f, stack[fp]? = some (.frame f) ∧ (∀ p ∈ rest, p < fp) ∧ Chain stack f.fp rest := by
  cases h with
  | frame here above below => exact ⟨_, here, above, below⟩

theorem Chain.head {stack : Array Value} {fp : Nat} {places : List Nat}
    (h : Chain stack fp places) : places.headD 0 = fp := by
  cases h <;> rfl

/-- No place of a chain lies above its start. -/
theorem Chain.le {stack : Array Value} {fp : Nat} {places : List Nat} (h : Chain stack fp places)
    {p : Nat} (hp : p ∈ places) : p ≤ fp := by
  cases h with
  | bottom => cases hp
  | frame _ above _ =>
    rcases List.mem_cons.1 hp with rfl | hp
    · exact Nat.le_refl _
    · exact Nat.le_of_lt (above p hp)

theorem Chain.drop {stack : Array Value} {fp : Nat} {places : List Nat}
    (h : Chain stack fp places) (n : Nat) :
    Chain stack ((places.drop n).headD 0) (places.drop n) := by
  induction h generalizing n with
  | bottom => simpa using Chain.bottom
  | frame here above below ih =>
    cases n with
    | zero => exact .frame here above below
    | succ n => exact ih n

/-- What a protected block remembers: it was entered in one of the active calls, whose frames lie
at `places`, above the frame of that call. -/
structure TryWithin (places : List Nat) (r : TryRecord) : Prop where
  active : r.depth ≤ places.length
  fp : r.fp = (places.drop (places.length - r.depth)).headD 0
  high : 0 < r.depth → r.fp < r.height

/-- The frames of a context lie at `places`: there are as many as active calls, the values of the
current call lie above them, and every protected block was entered in an active call, an inner one
in no outer call than the one around it. -/
structure FramedAt (places : List Nat) (c : Context) : Prop where
  chain : Chain c.stack c.fp places
  depth : places.length = c.depth
  high : c.base ≤ c.stack.size
  tries : ∀ r ∈ c.tries, TryWithin places r
  nested : c.tries.Pairwise fun inner outer => outer.depth ≤ inner.depth

/-- The frames of a context are in order. -/
def Framed (c : Context) : Prop := ∃ places, FramedAt places c

/-- `c'` goes on from `c`: it has left some calls of `c`, or is in some more, and the frames of the
calls that both are in, with all that lies below them, are the same. -/
def Linked (places places' : List Nat) (c c' : Context) : Prop :=
  (places <:+ places' ∨ places' <:+ places) ∧
    ∀ p ∈ places, p ∈ places' → ∀ i ≤ p, c'.stack[i]? = c.stack[i]?

theorem FramedAt.lt_base {places : List Nat} {c : Context} (h : FramedAt places c) {p : Nat}
    (hp : p ∈ places) : p < c.base := by
  have some : 0 < c.depth := h.depth ▸ List.length_pos_of_mem hp
  simp only [base, some, if_true]
  exact Nat.lt_succ_of_le (h.chain.le hp)

/-- Inside a call the current frame is where it should be. -/
theorem FramedAt.frame {places : List Nat} {c : Context} (h : FramedAt places c)
    (deep : 0 < c.depth) :
    ∃ place rest, places = place :: rest ∧ ∃ f, c.stack[c.fp]? = some (.frame f) := by
  cases places with
  | nil => exact absurd h.depth (Nat.ne_of_lt deep)
  | cons place rest =>
    obtain ⟨f, here, -, -⟩ := h.chain.cons
    exact ⟨place, rest, rfl, f, here⟩

theorem framed_new (s : Store) (level : Strictness) (code : CodeRef) (scope : TableRef) :
    FramedAt [] (new s level code scope) :=
  ⟨.bottom, rfl, Nat.zero_le _, by simp [new], .nil⟩

/-! ## What keeps the frames -/

theorem FramedAt.keeps {places : List Nat} {c c' : Context} (h : FramedAt places c)
    (k : c.Keeps c') : FramedAt places c' ∧ Linked places places c c' := by
  have same (p : Nat) (hp : p ∈ places) (i : Nat) (hi : i ≤ p) : c'.stack[i]? = c.stack[i]? :=
    k.below i (Nat.lt_of_le_of_lt hi (h.lt_base hp)) h.high
  refine ⟨⟨?_, k.depth ▸ h.depth, k.high h.high, k.tries ▸ h.tries, k.tries ▸ h.nested⟩,
    .inl (List.suffix_refl _), fun p hp _ => same p hp⟩
  exact k.fp ▸ h.chain.congr fun p hp => same p hp p (Nat.le_refl _)

/-- Entering a protected block remembers the current call. -/
theorem FramedAt.enterTry {places : List Nat} {c : Context} (h : FramedAt places c)
    {r : TryRecord} (height : r.height = c.stack.size) (fp : r.fp = c.fp)
    (depth : r.depth = c.depth) : FramedAt places { c with tries := r :: c.tries } := by
  refine ⟨h.chain, h.depth, h.high, ?_, ?_⟩
  · rintro r' hr'
    rcases List.mem_cons.1 hr' with rfl | hr'
    · refine ⟨Nat.le_of_eq (depth.trans h.depth.symm), ?_, fun deep => ?_⟩
      · rw [fp, depth, h.depth, Nat.sub_self, List.drop_zero, h.chain.head]
      · have high := h.high
        simp only [base, ← depth, deep, if_true] at high
        rw [fp, height]
        omega
    · exact h.tries r' hr'
  · refine List.pairwise_cons.2 ⟨fun r' hr' => ?_, h.nested⟩
    rw [depth, ← h.depth]
    exact (h.tries r' hr').active

theorem FramedAt.leaveTry {places : List Nat} {c : Context} {r : TryRecord}
    {rest : List TryRecord} (h : FramedAt places c) (tries : c.tries = r :: rest) :
    FramedAt places { c with tries := rest } := by
  have nested := tries ▸ h.nested
  refine ⟨h.chain, h.depth, h.high, fun r' hr' => h.tries r' ?_, (List.pairwise_cons.1 nested).2⟩
  rw [tries]
  exact List.mem_cons_of_mem _ hr'

/-- A call puts its frame above all others. -/
theorem FramedAt.call {places : List Nat} {c c' : Context} {f : Frame} (h : FramedAt places c)
    (stack : c'.stack = c.stack.push (.frame f)) (saved : f.fp = c.fp)
    (fp : c'.fp = c.stack.size) (depth : c'.depth = c.depth + 1) (tries : c'.tries = c.tries) :
    FramedAt (c.stack.size :: places) c' ∧ Linked places (c.stack.size :: places) c c' := by
  have high := h.high
  have lt (p : Nat) (hp : p ∈ places) : p < c.stack.size := Nat.lt_of_lt_of_le (h.lt_base hp) high
  have same (i : Nat) (hi : i < c.stack.size) : c'.stack[i]? = c.stack[i]? := by
    rw [stack, Array.getElem?_push, if_neg (Nat.ne_of_lt hi)]
  refine ⟨⟨?_, ?_, ?_, ?_, tries ▸ h.nested⟩, .inl (List.suffix_cons _ _),
    fun p hp _ i hi => same i (Nat.lt_of_le_of_lt hi (lt p hp))⟩
  · rw [fp]
    refine .frame (f := f) (by simp [stack]) lt ?_
    rw [saved]
    exact h.chain.congr fun p hp => same p (lt p hp)
  · simp [depth, h.depth]
  · simp [base, depth, fp, stack]
  · intro r hr
    obtain ⟨active, hfp, above⟩ := h.tries r (tries ▸ hr)
    refine ⟨?_, ?_, above⟩
    · exact Nat.le_succ_of_le active
    · rw [hfp]
      have : (c.stack.size :: places).length - r.depth = places.length - r.depth + 1 := by
        simp only [List.length_cons]
        omega
      rw [this, List.drop_succ_cons]

/-- A return leads to the frame below, and forgets the protected blocks of the call it leaves. -/
theorem FramedAt.leave {place : Nat} {places : List Nat} {c c' : Context} {f : Frame}
    (h : FramedAt (place :: places) c) (here : c.stack[c.fp]? = some (.frame f))
    (stack : c'.stack = c.stack.shrink c.fp) (fp : c'.fp = f.fp) (depth : c'.depth = c.depth - 1)
    (tries : c'.tries = c.tries.filter (·.depth ≤ c.depth - 1)) :
    FramedAt places c' ∧ Linked (place :: places) places c c' := by
  have deep : c.depth = places.length + 1 := h.depth.symm
  have high := h.high
  simp only [base, deep, Nat.succ_pos, if_true] at high
  have same (i : Nat) (hi : i < c.fp) : c'.stack[i]? = c.stack[i]? := by
    rw [stack, Array.shrink_eq_take, Array.take_eq_extract, Array.getElem?_extract]
    split <;> grind
  obtain ⟨above, below⟩ : (∀ p ∈ places, p < c.fp) ∧ Chain c.stack f.fp places := by
    obtain ⟨f', here', above, below⟩ := h.chain.cons
    cases Option.some.inj (here.symm.trans here')
    exact ⟨above, below⟩
  refine ⟨⟨?_, ?_, ?_, ?_, ?_⟩, .inr (List.suffix_cons _ _),
    fun p _ hp i hi => same i (Nat.lt_of_le_of_lt hi (above p hp))⟩
  · rw [fp]
    exact below.congr fun p hp => same p (above p hp)
  · simp [depth, deep]
  · simp only [base, depth, deep, fp, stack, Array.size_shrink]
    cases places with
    | nil => simp
    | cons p rest =>
      have := above p (by simp)
      have := below.head
      simp at *
      omega
  · intro r hr
    rw [tries, List.mem_filter] at hr
    obtain ⟨active, hfp, hhigh⟩ := h.tries r hr.1
    have within : r.depth ≤ places.length := by simpa [deep] using hr.2
    refine ⟨within, ?_, hhigh⟩
    rw [hfp]
    have : (place :: places).length - r.depth = places.length - r.depth + 1 := by
      simp only [List.length_cons]
      omega
    rw [this, List.drop_succ_cons]
  · rw [tries]
    exact List.Pairwise.filter _ h.nested

/-- Catching a fault leaves the calls that were made since the protected block was entered. -/
theorem FramedAt.catch {places : List Nat} {c c' : Context} {r r' : TryRecord}
    {rest : List TryRecord} (h : FramedAt places c) (found : r :: rest <:+ c.tries)
    (stack : c'.stack = c.stack.shrink r.height) (fp : c'.fp = r.fp) (depth : c'.depth = r.depth)
    (tries : c'.tries = r' :: rest)
    (used : r'.fp = r.fp ∧ r'.depth = r.depth ∧ r'.height = r.height) :
    ∃ places', places' <:+ places ∧ FramedAt places' c' ∧ Linked places places' c c' := by
  obtain ⟨active, hfp, hhigh⟩ := h.tries r (found.subset (by simp))
  have inner : ∀ r₂ ∈ rest, r₂.depth ≤ r.depth :=
    (List.pairwise_cons.1 (List.Pairwise.sublist found.sublist h.nested)).1
  have length : (places.drop (places.length - r.depth)).length = r.depth := by
    rw [List.length_drop]
    omega
  have chain := h.chain.drop (places.length - r.depth)
  rw [← hfp] at chain
  have mem {p : Nat} (hp : p ∈ places.drop (places.length - r.depth)) : p < r.height := by
    have := chain.le hp
    have := hhigh (length ▸ List.length_pos_of_mem hp)
    omega
  have same {p : Nat} (hp : p ∈ places.drop (places.length - r.depth)) (i : Nat) (hi : i ≤ p) :
      c'.stack[i]? = c.stack[i]? := by
    have := mem hp
    rw [stack, Array.shrink_eq_take, Array.take_eq_extract, Array.getElem?_extract]
    split <;> grind
  have within {r₂ : TryRecord} (hr : r₂.depth ≤ r.depth) (w : TryWithin places r₂) :
      TryWithin (places.drop (places.length - r.depth)) r₂ := by
    refine ⟨Nat.le_trans hr (Nat.le_of_eq length.symm), ?_, w.high⟩
    rw [w.fp, List.drop_drop, length]
    have : places.length - r.depth + (r.depth - r₂.depth) = places.length - r₂.depth := by omega
    rw [this]
  have self : TryWithin places r := ⟨active, hfp, hhigh⟩
  refine ⟨places.drop (places.length - r.depth), List.drop_suffix _ _,
    ⟨?_, length.trans depth.symm, ?_, ?_, ?_⟩, .inr (List.drop_suffix _ _), fun p _ hp => same hp⟩
  · rw [fp]
    exact chain.congr fun p hp => same hp p (Nat.le_refl _)
  · simp only [base, depth, fp, stack, Array.size_shrink]
    split
    · rename_i deep
      have mem : r.fp ∈ places.drop (places.length - r.depth) := by
        rw [← chain.head]
        cases hd : places.drop (places.length - r.depth) with
        | nil => simp [hd] at length; omega
        | cons p rest => simp
      have := h.lt_base (List.mem_of_mem_drop mem)
      have := h.high
      have := hhigh deep
      omega
    · omega
  · rw [tries]
    rintro r₂ hr₂
    rcases List.mem_cons.1 hr₂ with rfl | hr₂
    · have w := within (Nat.le_refl _) self
      exact ⟨used.2.1 ▸ w.active, used.1 ▸ used.2.1 ▸ w.fp, used.1 ▸ used.2.1 ▸ used.2.2 ▸ w.high⟩
    · exact within (inner r₂ hr₂) (h.tries r₂ (found.subset (List.mem_cons_of_mem _ hr₂)))
  · rw [tries]
    refine List.pairwise_cons.2 ⟨fun r₂ hr₂ => used.2.1 ▸ inner r₂ hr₂, ?_⟩
    exact (List.pairwise_cons.1 (List.Pairwise.sublist found.sublist h.nested)).2

/-- The frames of `c'` are in order, and it goes on from `c`, whose frames lie at `places`. -/
def GoesOn (places : List Nat) (c c' : Context) : Prop :=
  ∃ places', FramedAt places' c' ∧ Linked places places' c c'

theorem FramedAt.goesOn {places : List Nat} {c c' : Context} (h : FramedAt places c)
    (k : c.Keeps c') : GoesOn places c c' := ⟨places, h.keeps k⟩

theorem GoesOn.keeps {places : List Nat} {a b c : Context} (h : GoesOn places a b)
    (k : b.Keeps c) : GoesOn places a c := by
  obtain ⟨places', framed, link, same⟩ := h
  obtain ⟨framed', _, same'⟩ := framed.keeps k
  exact ⟨places', framed', link, fun p hp hp' i hi =>
    (same' p hp' hp' i hi).trans (same p hp hp' i hi)⟩

theorem GoesOn.of_keeps {places : List Nat} {a b c : Context} (h : FramedAt places a)
    (k : a.Keeps b) (g : FramedAt places b → GoesOn places b c) : GoesOn places a c := by
  obtain ⟨framed, _, same⟩ := h.keeps k
  obtain ⟨places', framed', link, same'⟩ := g framed
  exact ⟨places', framed', link, fun p hp hp' i hi =>
    (same' p hp hp' i hi).trans (same p hp hp i hi)⟩

/-- Handling a fault may leave calls but enters none. -/
theorem handle_framed {places : List Nat} {c : Context} (h : FramedAt places c) (f : Fault)
    (s : Store) : ∃ places', places' <:+ places ∧ FramedAt places' (c.handle f s).2.1 ∧
      Linked places places' c (c.handle f s).2.1 := by
  have stays {c' : Context} (same : c' = { c with state := c'.state }) :
      ∃ places', places' <:+ places ∧ FramedAt places' c' ∧ Linked places places' c c' := by
    rw [same]
    exact ⟨places, List.suffix_refl _, h.keeps (.of_eq rfl rfl rfl rfl)⟩
  unfold handle
  split
  · exact stays rfl
  · exact stays rfl
  · dsimp only
    split
    · rename_i c' s' hc
      split at hc
      · cases hc
      · unfold catch? at hc
        split at hc
        · cases hc
        · rename_i r rest hd
          split at hc
          · cases hc
          · cases hc
            exact h.catch (hd ▸ List.dropWhile_suffix _) rfl rfl rfl rfl ⟨rfl, rfl, rfl⟩
    · exact stays rfl

theorem GoesOn.handle {places : List Nat} {c c' : Context} (h : GoesOn places c c') (f : Fault)
    (s : Store) : GoesOn places c (c'.handle f s).2.1 := by
  obtain ⟨places', framed, link, same⟩ := h
  obtain ⟨places₂, down, framed₂, -, same₂⟩ := handle_framed framed f s
  refine ⟨places₂, framed₂, ?_, fun p hp hp₂ i hi => ?_⟩
  · rcases link with up | down'
    · exact List.suffix_or_suffix_of_suffix up down
    · exact .inr (down.trans down')
  · exact (same₂ p (down.subset hp₂) hp₂ i hi).trans (same p hp (down.subset hp₂) i hi)

end Context

end StackScript
