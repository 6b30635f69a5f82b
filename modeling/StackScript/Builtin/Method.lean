import StackScript.Builtin.Call

/-!
# Methods of builtin values

Wait groups, mutexes, channels and errors have methods. Those that block answer with what they
wait for; the machine completes them.

Main statements: `unwrapped_of` (a fault without causes unwraps to nil).
-/
namespace StackScript.Method

/-- The wait group that a method was called on. -/
def groupOf (c : NativeCall) : WorldM WaitGroupRef := do
  match ← c.receiverValue with
  | .waitGroup r => pure r
  | v => NativeCall.wrongReceiver v

/-- The mutex that a method was called on. -/
def mutexOf (c : NativeCall) : WorldM MutexRef := do
  match ← c.receiverValue with
  | .mutex r => pure r
  | v => NativeCall.wrongReceiver v

/-- The channel that a method was called on. -/
def channelOf (c : NativeCall) : WorldM ChannelRef := do
  match ← c.receiverValue with
  | .channel r => pure r
  | v => NativeCall.wrongReceiver v

/-- The fault that a method was called on. -/
def faultOf (c : NativeCall) : WorldM Fault := do
  match ← c.receiverValue with
  | .error f => pure f
  | v => NativeCall.wrongReceiver v

/-- Change the count of a wait group, which is never negative. -/
def addTo (r : WaitGroupRef) (delta : Int) : StoreM Value := do
  match counted? ((← get).waitGroup r) delta with
  | none => throw (.native "negative wait group counter")
  | some count =>
    modify fun s => s.setWaitGroup r count
    pure .nil

/-- Release a mutex that is held. -/
def release (r : MutexRef) : StoreM Value := do
  if (← get).mutex r then
    modify fun s => s.setMutex r false
    pure .nil
  else throw (.native "unlock of unlocked mutex")

/-- Close a channel; one that was closed cannot be closed again. -/
def closeChannel (r : ChannelRef) : StoreM Value := do
  if ((← get).channel r).closed then throw (.of .channelClosed)
  else
    modify fun s => s.modifyChannel r fun c => { c with closed := true }
    pure .nil

/-- Convert a message to the type of a channel and take a handle to send it by. -/
def offer (r : ChannelRef) (message : Value) : StoreM Answer := do
  let message ← message.coerce ((← get).channel r).element
  if ((← get).channel r).closed then throw (.of .channelClosed)
  else
    modify fun s => s.modifyChannel r fun c => { c with handles := c.handles + 1 }
    pure (.wait (.send r message))

/-- The cause of a fault. -/
def unwrapped (f : Fault) : Value :=
  match f.causes with
  | [] => .nil
  | cause :: rest => .error { cause with causes := rest }

/-- A method of a wait group, a mutex, a channel or an error. -/
def run (m : Method) (c : NativeCall) : WorldM Answer := do
  match m with
  | .add =>
    let delta ← c.int "Add" 0
    .value <$> (addTo (← groupOf c) delta.toInt : StoreM Value)
  | .done => .value <$> (addTo (← groupOf c) (-1) : StoreM Value)
  | .wait => do pure (.wait (.group (← groupOf c)))
  | .lock => do pure (.wait (.lock (← mutexOf c)))
  | .unlock => .value <$> (release (← mutexOf c) : StoreM Value)
  | .send => (offer (← channelOf c) (c.arg 0) : StoreM Answer)
  | .receive => do pure (.wait (.receive (← channelOf c) c.multiple))
  | .close => .value <$> (closeChannel (← channelOf c) : StoreM Value)
  | .len => do
    let r ← channelOf c
    pure (.value (.int (Int64.ofNat ((← getThe Store).channel r).buffer.length)))
  | .message => do pure (.value (.string (← faultOf c).message))
  | .unwrap => do pure (.value (unwrapped (← faultOf c)))

theorem unwrapped_of (kind : FaultKind) : unwrapped (.of kind) = .nil := rfl

end StackScript.Method
