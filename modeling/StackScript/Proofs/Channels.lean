import Mathlib.Logic.Relation
import StackScript.Proofs.Objects
import StackScript.Machine.Thread

/-!
# Messages of a channel

Any number of goroutines send to a channel, receive from it and close it, in any order. A sender
calls `Send`, which converts its message and takes a handle, and waits for room; between the two
the others go on, and may close the channel. What has been received, followed by what the channel
holds, is at every moment what was sent, in the order in which the sends were completed.

Main statements: `Traffic.Orderly.move` (what one move keeps) and `Traffic.delivered_in_order`.
-/
namespace StackScript

/-- A value that a conversion to a type has given. -/
def Value.Converted (t : Ty) (v : Value) : Prop := ∃ w s s', Value.coerce w t s = (.ok v, s')

/-! ## Moves -/

/-- What is known of the messages of a channel. -/
structure Traffic where
  store : Store
  /-- Goroutines that hold a handle, with the messages that they wait to send. -/
  held : List (Nat × Value) := []
  /-- Messages whose send is complete, the first one first. -/
  sent : List Value := []
  /-- What receivers were given. -/
  received : List Value := []

/-- What a receiver gets with a message: the message, or a pair if it takes every result. -/
def Wait.Gives (multiple : Bool) (message v : Value) (s : Store) : Prop :=
  if multiple then ∃ pair, v = .tuple pair ∧ s.tuple pair = [message, .bool true] else v = message

/-- What goroutines can do with a channel at once. -/
inductive Traffic.Move (r : ChannelRef) : Traffic → Traffic → Prop
  /-- A goroutine calls `Send` and takes a handle. -/
  | take {t : Traffic} {message : Value} {w w' : World} {s' : Store} (g : Nat) (call : NativeCall)
      (on : call.receiver = some (.channel r))
      (called : Method.run .send call w t.store = ((.ok (.wait (.send r message)), w'), s')) :
      Move r t { t with store := s', held := t.held ++ [(g, message)] }
  /-- A goroutine calls `Send` in vain. -/
  | refuse {t : Traffic} {f : Fault} {w w' : World} {s' : Store} (call : NativeCall)
      (on : call.receiver = some (.channel r))
      (called : Method.run .send call w t.store = ((.error f, w'), s')) :
      Move r t { t with store := s' }
  /-- There is room for the message of a goroutine that holds a handle. -/
  | send {t : Traffic} {g : Nat} {message v : Value} {w : World} {s' : Store}
      (before after : List (Nat × Value)) (held : t.held = before ++ (g, message) :: after)
      (come : (Wait.send r message).poll w t.store = some (v, s')) :
      Move r t { t with store := s', held := before ++ after, sent := t.sent ++ [message] }
  /-- A goroutine is given a message. -/
  | receive {t : Traffic} {message v : Value} {w : World} {s' : Store} (multiple : Bool)
      (waiting : (t.store.channel r).buffer ≠ [])
      (come : (Wait.receive r multiple).poll w t.store = some (v, s'))
      (given : Wait.Gives multiple message v s') :
      Move r t { t with store := s', received := t.received ++ [message] }
  /-- A goroutine is told that there will be no more messages. -/
  | ended {t : Traffic} {v : Value} {w : World} {s' : Store} (multiple : Bool)
      (empty : (t.store.channel r).buffer = [])
      (come : (Wait.receive r multiple).poll w t.store = some (v, s')) :
      Move r t { t with store := s' }
  /-- A goroutine closes the channel, or tries to. -/
  | close {t : Traffic} {result : Except Fault Answer} {w w' : World} {s' : Store}
      (call : NativeCall) (on : call.receiver = some (.channel r))
      (called : Method.run .close call w t.store = ((result, w'), s')) :
      Move r t { t with store := s' }
  /-- Whatever goroutines do that has nothing to do with the channel. -/
  | other {t : Traffic} {s' : Store}
      (same : s'.channels[r.index]? = t.store.channels[r.index]?) : Move r t { t with store := s' }

/-! ## Channels in the store -/

/-- New objects are no channels. -/
theorem Store.channels_addsObjects : Store.AddsObjects fun s s' => s'.channels = s.channels where
  refl _ := rfl
  trans first second := second.trans first
  array _ _ := rfl
  struct _ _ := rfl
  map _ _ := rfl
  waitGroup _ := rfl
  mutex _ := rfl

namespace Store

variable {s : Store} {r : ChannelRef} {c : ChannelObject}

theorem channel_of_some (h : s.channels[r.index]? = some c) : s.channel r = c := by
  simp [channel, Array.getD_eq_getD_getElem?, h]

theorem modifyChannel_some (h : s.channels[r.index]? = some c) (f : ChannelObject → ChannelObject) :
    (s.modifyChannel r f).channels[r.index]? = some (f c) := by
  simp [modifyChannel, Array.getElem?_modify, h]

end Store

/-! ## Calls -/

namespace Method

variable {r : ChannelRef} {c : ChannelObject} {s s' : Store}

/-- A message that is offered is converted, and a handle is taken unless the channel was closed. -/
theorem offer_cases {v : Value} {result : Except Fault Answer}
    (there : s.channels[r.index]? = some c) (offered : offer r v s = (result, s')) :
    (∃ message, result = .ok (.wait (.send r message)) ∧ Value.Converted c.element message ∧
      s'.channels[r.index]? = some { c with handles := c.handles + 1 }) ∨
    (∃ f, result = .error f) ∧ s'.channels[r.index]? = some c := by
  have kept := (Value.coerce_within Store.channels_addsObjects v c.element).store s
  have converts : offer r v s = (Value.coerce v c.element >>= fun message => do
      if ((← get).channel r).closed then throw (.of .channelClosed)
      else
        modify fun s => s.modifyChannel r fun c => { c with handles := c.handles + 1 }
        pure (.wait (.send r message)) : StoreM Answer) s := by
    rw [← Store.channel_of_some there]
    rfl
  rw [converts] at offered
  rcases made : Value.coerce v c.element s with ⟨_ | message, s₁⟩
  all_goals
    rw [made] at kept
    have there₁ : s₁.channels[r.index]? = some c := by rw [← there]; exact congrArg (·[_]?) kept
  · rw [StoreM.bind_of_error made] at offered
    cases offered
    exact .inr ⟨⟨_, rfl⟩, there₁⟩
  · rw [StoreM.bind_of_ok made] at offered
    change (if (s₁.channel r).closed then throw (.of .channelClosed) else _ : StoreM Answer) s₁ = _
      at offered
    split at offered <;> cases offered
    · exact .inr ⟨⟨_, rfl⟩, there₁⟩
    · exact .inl ⟨message, rfl, ⟨v, s, s₁, made⟩, Store.modifyChannel_some there₁ _⟩

/-- Closing a channel changes nothing but that it is closed. -/
theorem closeChannel_some (there : s.channels[r.index]? = some c) :
    ∃ closed, (closeChannel r s).2.channels[r.index]? = some { c with closed := closed } := by
  change ∃ closed, ((if (s.channel r).closed then throw (.of .channelClosed) else _ : StoreM Value)
    s).2.channels[r.index]? = some { c with closed := closed }
  split
  · exact ⟨c.closed, there⟩
  · exact ⟨true, Store.modifyChannel_some there _⟩

variable {call : NativeCall}

theorem run_send (on : call.receiver = some (.channel r)) (w : World) (s : Store) :
    run .send call w s = (((offer r (call.arg 0) s).1, w), (offer r (call.arg 0) s).2) := by
  simp only [run, channelOf, NativeCall.receiverValue, on, pure_bind]
  rfl

theorem run_close (on : call.receiver = some (.channel r)) (w : World) (s : Store) :
    run .close call w s = (((closeChannel r s).1.map Answer.value, w), (closeChannel r s).2) := by
  simp only [run, channelOf, NativeCall.receiverValue, on, pure_bind]
  change (Answer.value <$> (liftM (closeChannel r) : WorldM Value)) w s = _
  have lifted : (liftM (closeChannel r) : WorldM Value) w s =
      (((closeChannel r s).1, w), (closeChannel r s).2) := rfl
  simp only [Functor.map, ExceptT.map, ExceptT.mk, StateT.bind, bind, lifted]
  cases (closeChannel r s).1 <;> rfl

end Method

/-! ## Waits -/

namespace Wait

variable {r : ChannelRef} {c : ChannelObject} {w : World} {s s' : Store} {v : Value}

theorem poll_send {message : Value} (there : s.channels[r.index]? = some c)
    (come : (Wait.send r message).poll w s = some (v, s')) :
    c.buffer.length < c.capacity ∧ s'.channels[r.index]? =
      some { c with buffer := c.buffer ++ [message], handles := c.handles - 1 } := by
  simp only [poll, Store.channel_of_some there] at come
  split at come <;> cases come
  rename_i room
  exact ⟨room, Store.modifyChannel_some there _⟩

theorem received_channels (v : Value) (isMessage multiple : Bool) (s : Store) :
    (received v isMessage multiple s).2.channels = s.channels := by
  cases multiple <;> rfl

/-- A receiver is given the first message, and nothing else. -/
theorem received_gives {message given : Value} {multiple : Bool} {s₁ : Store}
    (gives : Gives multiple given v s') (come : received message true multiple s₁ = (v, s')) :
    given = message := by
  cases multiple with
  | false =>
    cases come
    exact Eq.symm gives
  | true =>
    cases come
    obtain ⟨pair, same, items⟩ := gives
    cases same
    simpa [Store.newTuple, Store.tuple, eq_comm] using items

theorem poll_receive_cons {multiple : Bool} {message : Value} {rest : List Value}
    (there : s.channels[r.index]? = some c) (buffer : c.buffer = message :: rest)
    (come : (Wait.receive r multiple).poll w s = some (v, s')) :
    (∃ s₁, received message true multiple s₁ = (v, s')) ∧
      s'.channels[r.index]? = some { c with buffer := rest } := by
  simp only [poll, Store.channel_of_some there, buffer, Option.some.injEq] at come
  refine ⟨⟨_, come⟩, ?_⟩
  obtain rfl := congrArg Prod.snd come
  rw [received_channels]
  exact Store.modifyChannel_some there _

theorem poll_receive_nil {multiple : Bool} (there : s.channels[r.index]? = some c)
    (buffer : c.buffer = []) (come : (Wait.receive r multiple).poll w s = some (v, s')) :
    c.closed = true ∧ c.handles = 0 ∧ s'.channels = s.channels := by
  have kept := (Value.zeroNamed_within Store.channels_addsObjects none c.element).store s
  change (Value.zero c.element s).2.channels = s.channels at kept
  simp only [poll, Store.channel_of_some there, buffer] at come
  split at come
  · rename_i done
    refine ⟨done.1, done.2, ?_⟩
    rcases made : Value.zero c.element s with ⟨_ | _, s₁⟩
    all_goals
      rw [made] at come kept
      obtain rfl := congrArg Prod.snd (Option.some.inj come)
      exact (received_channels _ _ _ _).trans kept
  · cases come

end Wait

/-! ## Order -/

/-- A channel agrees with what is known of its messages. -/
structure ChannelObject.Orderly (element : Ty) (capacity : Nat) (t : Traffic) (c : ChannelObject) :
    Prop where
  typed : c.element = element
  sized : c.capacity = max capacity 1
  order : t.received ++ c.buffer = t.sent
  room : c.buffer.length ≤ max capacity 1
  handles : c.handles = t.held.length
  sent : ∀ message ∈ t.sent, Value.Converted element message
  held : ∀ g message, (g, message) ∈ t.held → Value.Converted element message

namespace Traffic

variable {element : Ty} {capacity : Nat} {r : ChannelRef} {t t' : Traffic}

/-- The channel is there and agrees with what is known of its messages. -/
def Orderly (element : Ty) (capacity : Nat) (r : ChannelRef) (t : Traffic) : Prop :=
  ∃ c, t.store.channels[r.index]? = some c ∧ c.Orderly element capacity t

/-- No move of a goroutine brings disorder. -/
theorem Orderly.move (h : Orderly element capacity r t) (m : Move r t t') :
    Orderly element capacity r t' := by
  obtain ⟨c, there, order⟩ := h
  cases m with
  | take g call on called =>
    rw [Method.run_send on] at called
    obtain ⟨offered, changed⟩ := Prod.mk.inj called
    rcases Method.offer_cases there (Prod.ext (Prod.mk.inj offered).1 changed) with
      ⟨message, same, converted, there'⟩ | ⟨⟨f, failed⟩, -⟩
    · cases same
      refine ⟨_, there', { order with handles := ?_, held := ?_ }⟩
      · simp [order.handles]
      · intro g' m mem
        rcases List.mem_append.1 mem with old | new
        · exact order.held g' m old
        · simp only [List.mem_singleton, Prod.mk.injEq] at new
          exact new.2 ▸ order.typed ▸ converted
    · cases failed
  | refuse call on called =>
    rw [Method.run_send on] at called
    obtain ⟨offered, changed⟩ := Prod.mk.inj called
    rcases Method.offer_cases there (Prod.ext (Prod.mk.inj offered).1 changed) with
      ⟨message, same, -⟩ | ⟨-, there'⟩
    · cases same
    · exact ⟨c, there', { order with }⟩
  | send before after held come =>
    rename_i g message v w s'
    obtain ⟨room, there'⟩ := Wait.poll_send there come
    have converted := order.held g message (by simp [held])
    refine ⟨_, there', { order with order := ?_, room := ?_, handles := ?_, sent := ?_, held := ?_ }⟩
    · simp [← order.order]
    · rw [order.sized] at room
      simpa [Nat.add_one_le_iff] using room
    · simp [order.handles, held]
    · intro m mem
      rcases List.mem_append.1 mem with old | new
      · exact order.sent m old
      · exact List.mem_singleton.1 new ▸ converted
    · intro g' m mem
      refine order.held g' m ?_
      rw [held]
      exact (List.mem_append.1 mem).elim (List.mem_append_left _) fun last => by simp [last]
  | receive multiple waiting come given =>
    rw [Store.channel_of_some there] at waiting
    obtain ⟨message, rest, buffer⟩ := List.exists_cons_of_ne_nil waiting
    obtain ⟨⟨_, received⟩, there'⟩ := Wait.poll_receive_cons there buffer come
    obtain rfl := Wait.received_gives given received
    refine ⟨_, there', { order with order := ?_, room := ?_ }⟩
    · simp [← order.order, buffer]
    · have room := order.room
      rw [buffer, List.length_cons] at room
      exact Nat.le_of_succ_le room
  | ended multiple empty come =>
    rw [Store.channel_of_some there] at empty
    obtain ⟨-, -, same⟩ := Wait.poll_receive_nil there empty come
    exact ⟨c, by rw [same, there], { order with }⟩
  | close call on called =>
    rw [Method.run_close on] at called
    obtain ⟨-, rfl⟩ := Prod.mk.inj called
    obtain ⟨closed, there'⟩ := Method.closeChannel_some there
    exact ⟨_, there', { order with }⟩
  | other same => exact ⟨c, same.trans there, { order with }⟩

theorem Orderly.moves (h : Orderly element capacity r t) (run : Relation.ReflTransGen (Move r) t t') :
    Orderly element capacity r t' := by
  induction run with
  | refl => exact h
  | tail _ m ih => exact ih.move m

/-- A new channel has no messages. -/
theorem orderly_new {s s₀ : Store} {v : Value}
    (made : StoreM.channel element capacity s = (.ok v, s₀)) :
    ∃ r, v = .channel r ∧ Orderly element capacity r { store := s₀ } := by
  cases made
  refine ⟨_, rfl, { element := element, capacity := max capacity 1 }, ?_, ?_⟩
  · simp
  · exact ⟨rfl, rfl, rfl, Nat.zero_le _, rfl, nofun, nofun⟩

/-- Whatever goroutines do with a new channel, what they have received, followed by what the channel
holds, is what they have sent, in order; all of it was converted to the type of the channel, which
holds no more than it has room for; and a receiver is told that there is no more only when
everything sent was received and nobody is left who could send. -/
theorem delivered_in_order {s s₀ : Store}
    (made : StoreM.channel element capacity s = (.ok (.channel r), s₀))
    (run : Relation.ReflTransGen (Move r) { store := s₀ } t) :
    t.received ++ (t.store.channel r).buffer = t.sent ∧
    (∀ message ∈ t.sent, Value.Converted element message) ∧
    (t.store.channel r).buffer.length ≤ max capacity 1 ∧
    ∀ {multiple : Bool} {w : World} {v : Value} {s' : Store}, (t.store.channel r).buffer = [] →
      (Wait.receive r multiple).poll w t.store = some (v, s') →
        (t.store.channel r).closed = true ∧ t.held = [] ∧ t.received = t.sent := by
  obtain ⟨_, same, orderly⟩ := orderly_new made
  cases same
  obtain ⟨c, there, order⟩ := orderly.moves run
  rw [Store.channel_of_some there]
  refine ⟨order.order, order.sent, order.room, fun {_ _ _ _} empty come => ?_⟩
  obtain ⟨closed, none, -⟩ := Wait.poll_receive_nil there empty come
  refine ⟨closed, List.eq_nil_of_length_eq_zero (order.handles.symm.trans none), ?_⟩
  rw [← order.order, empty, List.append_nil]

/-- A store with one channel, which takes integers and has room for one. -/
def oneChannel (buffer : List Value) (closed : Bool) (handles : Nat) : Store :=
  { channels := #[{ element := .plain .int, buffer := buffer, closed := closed, handles := handles }] }

/-- A call of a method of the channel. -/
def callWith (args : List Value) : NativeCall :=
  { caller := ⟨0⟩, receiver := some (.channel ⟨0⟩), args := args }

/-- Two goroutines took handles, and the channel was closed before either could send. -/
def crossed : Traffic :=
  { store := oneChannel [.int 8] true 0, sent := [.int 7, .int 8], received := [.int 7] }

/-- The messages of both are delivered. -/
theorem both_delivered : crossed.received ++ (crossed.store.channel ⟨0⟩).buffer = crossed.sent ∧
    (∀ message ∈ crossed.sent, Value.Converted (.plain .int) message) ∧
    (crossed.store.channel ⟨0⟩).buffer.length ≤ max 0 1 := by
  let s := oneChannel
  have made : StoreM.channel (.plain .int) 0 {} = (.ok (.channel ⟨0⟩), s [] false 0) := rfl
  have first : Move ⟨0⟩ { store := s [] false 0 }
      { store := s [] false 1, held := [(1, .int 7)] } :=
    .take (w := {}) 1 (callWith [.byte 7]) rfl rfl
  have second : Move ⟨0⟩ { store := s [] false 1, held := [(1, .int 7)] }
      { store := s [] false 2, held := [(1, .int 7), (2, .int 8)] } :=
    .take (w := {}) 2 (callWith [.byte 8]) rfl rfl
  have closes : Move ⟨0⟩ { store := s [] false 2, held := [(1, .int 7), (2, .int 8)] }
      { store := s [] true 2, held := [(1, .int 7), (2, .int 8)] } :=
    .close (w := {}) (callWith []) rfl rfl
  have sends : Move ⟨0⟩ { store := s [] true 2, held := [(1, .int 7), (2, .int 8)] }
      { store := s [.int 7] true 1, held := [(2, .int 8)], sent := [.int 7] } :=
    .send (w := {}) [] _ rfl rfl
  have receives : Move ⟨0⟩
      { store := s [.int 7] true 1, held := [(2, .int 8)], sent := [.int 7] }
      { store := s [] true 1, held := [(2, .int 8)], sent := [.int 7], received := [.int 7] } :=
    .receive (w := {}) false nofun rfl rfl
  have sendsLast : Move ⟨0⟩
      { store := s [] true 1, held := [(2, .int 8)], sent := [.int 7], received := [.int 7] }
      crossed :=
    .send (w := {}) [] _ rfl rfl
  obtain ⟨order, converted, room, -⟩ := delivered_in_order made
    (.head first (.head second (.head closes (.head sends (.head receives (.single sendsLast))))))
  exact ⟨order, converted, room⟩

end Traffic

/-!
## Channels after they are closed

A sender takes its handle before it waits for room. Closing a channel keeps others from taking one,
but a handle that was taken stays good: what enters a closed channel is what goroutines that held
handles at the close wait to send, and nothing else.

Main statement: `Traffic.closed_admits_holders`.
-/

namespace Method

variable {r : ChannelRef} {c : ChannelObject} {s s' : Store}

/-- A call of `Close` that succeeds has closed the channel. -/
theorem closeChannel_ok {v : Value} (there : s.channels[r.index]? = some c)
    (closes : closeChannel r s = (.ok v, s')) :
    s'.channels[r.index]? = some { c with closed := true } := by
  change (if (s.channel r).closed then throw (.of .channelClosed) else _ : StoreM Value) s = _
    at closes
  split at closes <;> cases closes
  exact Store.modifyChannel_some there _

/-- A channel is closed once: another call of `Close` changes nothing. -/
theorem closeChannel_closed (there : s.channels[r.index]? = some c) (closed : c.closed = true) :
    closeChannel r s = (.error (.of .channelClosed), s) := by
  change (if (s.channel r).closed then throw (.of .channelClosed) else _ : StoreM Value) s = _
  rw [Store.channel_of_some there, closed]
  rfl

/-- Nobody takes a handle of a closed channel: once the message is converted, the call fails. -/
theorem offer_closed {v : Value} {result : Except Fault Answer}
    (there : s.channels[r.index]? = some c) (closed : c.closed = true)
    (offered : offer r v s = (result, s')) :
    ∃ f, result = .error f ∧
      (∀ message s₁, Value.coerce v c.element s = (.ok message, s₁) → f = .of .channelClosed) := by
  have kept := (Value.coerce_within Store.channels_addsObjects v c.element).store s
  have converts : offer r v s = (Value.coerce v c.element >>= fun message => do
      if ((← get).channel r).closed then throw (.of .channelClosed)
      else
        modify fun s => s.modifyChannel r fun c => { c with handles := c.handles + 1 }
        pure (.wait (.send r message)) : StoreM Answer) s := by
    rw [← Store.channel_of_some there]
    rfl
  rw [converts] at offered
  rcases made : Value.coerce v c.element s with ⟨f | message, s₁⟩
  all_goals rw [made] at kept
  · rw [StoreM.bind_of_error made] at offered
    cases offered
    exact ⟨f, rfl, fun _ _ same => by cases same⟩
  · have there₁ : s₁.channels[r.index]? = some c := by rw [← there]; exact congrArg (·[_]?) kept
    rw [StoreM.bind_of_ok made] at offered
    change (if (s₁.channel r).closed then throw (.of .channelClosed) else _ : StoreM Answer) s₁ = _
      at offered
    rw [Store.channel_of_some there₁, closed] at offered
    cases offered
    exact ⟨_, rfl, fun _ _ _ => rfl⟩

end Method

namespace Traffic

variable {element : Ty} {capacity : Nat} {r : ChannelRef} {t t₁ t' : Traffic}

/-- The channel was closed. -/
def Closed (r : ChannelRef) (t : Traffic) : Prop :=
  ∃ c, t.store.channels[r.index]? = some c ∧ c.closed = true

/-- What was sent from one moment to the next is what holders of handles waited to send. -/
def Admits (t t' : Traffic) (entered : List (Nat × Value)) : Prop :=
  t'.sent = t.sent ++ entered.map Prod.snd ∧ (entered ++ t'.held).Perm t.held

theorem Admits.refl (t : Traffic) : Admits t t [] := ⟨by simp, List.Perm.refl _⟩

theorem Admits.trans {first second : List (Nat × Value)} (one : Admits t t₁ first)
    (two : Admits t₁ t' second) : Admits t t' (first ++ second) := by
  refine ⟨by simp [two.1, one.1], ?_⟩
  calc first ++ second ++ t'.held
    _ = first ++ (second ++ t'.held) := List.append_assoc ..
    _ |>.Perm (first ++ t₁.held) := two.2.append_left first
    _ |>.Perm t.held := one.2

/-- No move opens a closed channel again or gives anybody a handle of it. -/
theorem Closed.move (h : Closed r t) (m : Move r t t') :
    Closed r t' ∧ ∃ entered, Admits t t' entered := by
  obtain ⟨c, there, closed⟩ := h
  cases m with
  | take g call on called =>
    rw [Method.run_send on] at called
    obtain ⟨offered, changed⟩ := Prod.mk.inj called
    obtain ⟨_, failed, -⟩ :=
      Method.offer_closed there closed (Prod.ext (Prod.mk.inj offered).1 changed)
    cases failed
  | refuse call on called =>
    rw [Method.run_send on] at called
    obtain ⟨offered, changed⟩ := Prod.mk.inj called
    rcases Method.offer_cases there (Prod.ext (Prod.mk.inj offered).1 changed) with
      ⟨message, same, -⟩ | ⟨-, there'⟩
    · cases same
    · exact ⟨⟨c, there', closed⟩, [], .refl t⟩
  | send before after held come =>
    rename_i g message v w s'
    obtain ⟨-, there'⟩ := Wait.poll_send there come
    refine ⟨⟨_, there', closed⟩, [(g, message)], rfl, ?_⟩
    change ((g, message) :: (before ++ after)).Perm t.held
    rw [held]
    exact List.perm_middle.symm
  | receive multiple waiting come given =>
    rw [Store.channel_of_some there] at waiting
    obtain ⟨message, rest, buffer⟩ := List.exists_cons_of_ne_nil waiting
    obtain ⟨-, there'⟩ := Wait.poll_receive_cons there buffer come
    exact ⟨⟨_, there', closed⟩, [], .refl t⟩
  | ended multiple empty come =>
    rw [Store.channel_of_some there] at empty
    obtain ⟨-, -, same⟩ := Wait.poll_receive_nil there empty come
    exact ⟨⟨c, by rw [same, there], closed⟩, [], .refl t⟩
  | close call on called =>
    rw [Method.run_close on] at called
    obtain ⟨-, rfl⟩ := Prod.mk.inj called
    rw [Method.closeChannel_closed there closed]
    exact ⟨⟨c, there, closed⟩, [], .refl t⟩
  | other same => exact ⟨⟨c, same.trans there, closed⟩, [], .refl t⟩

theorem Closed.moves (h : Closed r t) (run : Relation.ReflTransGen (Move r) t t') :
    Closed r t' ∧ ∃ entered, Admits t t' entered := by
  induction run with
  | refl => exact ⟨h, [], .refl t⟩
  | tail _ m ih =>
    obtain ⟨closed, first, earlier⟩ := ih
    obtain ⟨closed', second, last⟩ := closed.move m
    exact ⟨closed', _, earlier.trans last⟩

/-- A goroutine calls `Close`, and the call succeeds. -/
def Closing (r : ChannelRef) (t t₁ : Traffic) : Prop :=
  ∃ call : NativeCall, call.receiver = some (.channel r) ∧ ∃ (answer : Answer) (w w' : World)
    (s' : Store), Method.run .close call w t.store = ((.ok answer, w'), s') ∧
      t₁ = { t with store := s' }

theorem Closing.closes (h : Closing r t t₁)
    (there : ∃ c, t.store.channels[r.index]? = some c) : Move r t t₁ ∧ Closed r t₁ := by
  obtain ⟨call, on, answer, w, w', s', called, rfl⟩ := h
  obtain ⟨c, there⟩ := there
  refine ⟨.close call on called, ?_⟩
  rw [Method.run_close on] at called
  obtain ⟨done, rfl⟩ := Prod.mk.inj called
  rcases closes : Method.closeChannel r t.store with ⟨_ | v, s'⟩ <;> rw [closes] at done
  · cases (Prod.mk.inj done).1
  · exact ⟨_, Method.closeChannel_ok there closes, rfl⟩

/-- Once a goroutine has closed a channel, whatever goroutines do: a call of `Send` fails, with
`channel closed` if its message converts, and what receivers get together with what the channel
still holds is what it held at the close, followed by messages that goroutines with handles waited
to send at the close. -/
theorem closed_admits_holders {s s₀ : Store}
    (made : StoreM.channel element capacity s = (.ok (.channel r), s₀))
    (before : Relation.ReflTransGen (Move r) { store := s₀ } t) (closing : Closing r t t₁)
    (after : Relation.ReflTransGen (Move r) t₁ t') :
    (∃ entered left : List (Nat × Value), (entered ++ left).Perm t.held ∧
      t'.received ++ (t'.store.channel r).buffer =
        t.received ++ (t.store.channel r).buffer ++ entered.map Prod.snd) ∧
    ∀ {call : NativeCall} {result : Except Fault Answer} {w w' : World} {s' : Store},
      call.receiver = some (.channel r) →
      Method.run .send call w t'.store = ((result, w'), s') →
      ∃ f, result = .error f ∧ ∀ message s₁,
        Value.coerce (call.arg 0) element t'.store = (.ok message, s₁) → f = .of .channelClosed := by
  obtain ⟨_, same, orderly⟩ := orderly_new made
  cases same
  obtain ⟨c, there, order⟩ := orderly.moves before
  obtain ⟨move, closed⟩ := closing.closes ⟨c, there⟩
  obtain ⟨c', there', order'⟩ := (Orderly.move ⟨c, there, order⟩ move).moves after
  obtain ⟨⟨_, there'', closed'⟩, entered, sent, left⟩ := closed.moves after
  cases there'.symm.trans there''
  obtain ⟨_, _, _, _, _, _, _, rfl⟩ := closing
  refine ⟨⟨entered, t'.held, left, ?_⟩, fun {call result w w' s'} on called => ?_⟩
  · rw [Store.channel_of_some there, Store.channel_of_some there', order'.order, order.order]
    exact sent
  · rw [Method.run_send on] at called
    obtain ⟨offered, changed⟩ := Prod.mk.inj called
    obtain ⟨f, failed, cause⟩ :=
      Method.offer_closed there' closed' (Prod.ext (Prod.mk.inj offered).1 changed)
    exact ⟨f, failed, order'.typed ▸ cause⟩

/-- A goroutine waits to send 8 while the channel holds 7. -/
def waiting (closed : Bool) : Traffic :=
  { store := oneChannel [.int 7] closed 1, held := [(2, .int 8)], sent := [.int 7] }

theorem waiting_reached :
    Relation.ReflTransGen (Move ⟨0⟩) { store := oneChannel [] false 0 } (waiting false) := by
  let s := oneChannel
  have takes : Move ⟨0⟩ { store := s [] false 0 } { store := s [] false 1, held := [(1, .int 7)] } :=
    .take (w := {}) 1 (callWith [.byte 7]) rfl rfl
  have sends : Move ⟨0⟩ { store := s [] false 1, held := [(1, .int 7)] }
      { store := s [.int 7] false 0, sent := [.int 7] } :=
    .send (w := {}) [] [] rfl rfl
  have waits : Move ⟨0⟩ { store := s [.int 7] false 0, sent := [.int 7] } (waiting false) :=
    .take (w := {}) 2 (callWith [.byte 8]) rfl rfl
  exact .head takes (.head sends (.single waits))

theorem waiting_closing : Closing ⟨0⟩ (waiting false) (waiting true) :=
  ⟨callWith [], rfl, .value .nil, {}, {}, _, rfl, rfl⟩

/-- A receiver makes room, and the goroutine sends its message to the closed channel. -/
theorem waiting_crosses : Relation.ReflTransGen (Move ⟨0⟩) (waiting true) crossed := by
  have receives : Move ⟨0⟩ (waiting true)
      { store := oneChannel [] true 1, held := [(2, .int 8)], sent := [.int 7],
        received := [.int 7] } :=
    .receive (w := {}) false nofun rfl rfl
  have sends : Move ⟨0⟩
      { store := oneChannel [] true 1, held := [(2, .int 8)], sent := [.int 7],
        received := [.int 7] } crossed :=
    .send (w := {}) [] [] rfl rfl
  exact .head receives (.single sends)

/-- Its message is the one that enters, and nobody else may send. -/
theorem holder_enters :
    (∃ entered left : List (Nat × Value), (entered ++ left).Perm [(2, .int 8)] ∧
      crossed.received ++ (crossed.store.channel ⟨0⟩).buffer =
        [.int 7] ++ entered.map Prod.snd) ∧
    Method.run .send (callWith [.byte 9]) {} crossed.store =
      ((.error (.of .channelClosed), {}), crossed.store) := by
  have made : StoreM.channel (.plain .int) 1 {} = (.ok (.channel ⟨0⟩), oneChannel [] false 0) := rfl
  obtain ⟨delivered, refused⟩ :=
    closed_admits_holders made waiting_reached waiting_closing waiting_crosses
  obtain ⟨f, fails, cause⟩ := @refused (callWith [.byte 9]) _ {} _ _ rfl rfl
  refine ⟨delivered, ?_⟩
  rw [← cause (.int 9) crossed.store rfl]
  exact Prod.ext (Prod.ext fails rfl) rfl

/-- Closing a channel does not keep out every message that was not sent by then. -/
theorem closed_not_sealed : ¬ ∀ {s₀ : Store} {t t₁ t' : Traffic},
    StoreM.channel (.plain .int) 1 {} = (.ok (.channel ⟨0⟩), s₀) →
    Relation.ReflTransGen (Move ⟨0⟩) { store := s₀ } t → Closing ⟨0⟩ t t₁ →
    Relation.ReflTransGen (Move ⟨0⟩) t₁ t' → t'.sent = t.sent := by
  intro sealed
  have none := sealed rfl waiting_reached waiting_closing waiting_crosses
  exact absurd (congrArg List.length none) (by decide)

end Traffic

end StackScript
