import Dcc.Events.Waiters

/-!
# Event listeners

The lists of listeners of `dcc_event_bus_t`, and `dcc_event_bus_dispatch`.  A dispatch copies the
list of its type under the lock and works on the copy after that, so between its calls anything
may happen to the bus; each of its steps is one step here.  What was retained, released and called
is kept in logs.
-/

namespace Dcc.Events

/-! ## Lists of listeners -/

/-- `dcc_event_listener_t`, its functions and its user data by their addresses. -/
structure Listener where
  id : UInt64
  cb : Nat
  userData : Nat
  retainUserData : Option Nat
  releaseUserData : Option Nat
  deriving DecidableEq

/-- `dcc_event_listener_list_t`; `len` is the length of `items`. -/
structure ListenerList where
  items : List Listener
  cap : Nat
  nextId : UInt64

/-- `sizeof(dcc_event_listener_t)`. -/
def listenerSize : Nat := 40

/-- `dcc_event_next_listener_cap`. -/
def nextListenerCap (current : Nat) : Option Nat :=
  if wordMax / listenerSize < current then none
  else if current ≠ 0 ∧ wordMax / 2 < current then none
  else
    let next := if current = 0 then 4 else current * 2
    if wordMax / listenerSize < next then none else some next

/-- `items[i] = items[len - 1]`, and `len--`. -/
def swapOut (items : List Listener) (i : Nat) : List Listener :=
  match items.getLast? with
  | none => items
  | some last => (items.set i last).dropLast

/-! ## Dispatches -/

/-- Where a dispatch is: before the test of the loop that calls, in a callback, in the loop that
releases, or returned. -/
inductive Phase
  | ready (i : Nat)
  | inside (i : Nat)
  | releasing (i : Nat)
  | finished
  deriving DecidableEq

/-- One call of `dcc_event_bus_dispatch`: what it returns, its event and its snapshot, the
listeners that it called, and the places of those during which the event was cancelled. -/
structure Dispatch where
  status : Status
  event : Event
  snapshot : List Listener
  phase : Phase
  invoked : List Listener
  cancels : List Nat

/-- The next step of a dispatch. -/
def Dispatch.advance (dispatch : Dispatch) : Dispatch :=
  match dispatch.phase with
  | .ready i =>
    match dispatch.snapshot[i]? with
    | some listener =>
      { dispatch with phase := .inside i, invoked := dispatch.invoked ++ [listener] }
    | none => { dispatch with phase := .releasing 0 }
  | .inside i =>
    if dispatch.event.cancelled ≠ 0 then { dispatch with phase := .releasing 0 }
    else { dispatch with phase := .ready (i + 1) }
  | .releasing i =>
    if i < dispatch.snapshot.length then { dispatch with phase := .releasing (i + 1) }
    else { dispatch with phase := .finished }
  | .finished => dispatch

/-- What the next step of a dispatch releases. -/
def Dispatch.releases (dispatch : Dispatch) : List Listener :=
  match dispatch.phase with
  | .releasing i => (dispatch.snapshot[i]?).toList
  | _ => []

/-- `dcc_event_cancel`, from a callback. -/
def Dispatch.cancel (dispatch : Dispatch) : Dispatch :=
  match dispatch.phase with
  | .inside i =>
    { dispatch with
      event := { dispatch.event with cancelled := 1 }
      cancels := dispatch.cancels ++ [i] }
  | _ => dispatch

/-! ## The bus -/

/-- `dcc_event_bus_t`, the calls of `dcc_event_bus_dispatch` on it, and what was retained and
released by the type of its list. -/
structure Bus where
  listeners : Int → ListenerList
  waiters : Option Waiters
  eventsDispatched : UInt64
  dispatches : List Dispatch
  retained : List (Int × Listener)
  released : List (Int × Listener)

/-- `dcc_event_bus_init`. -/
def Bus.init : Bus where
  listeners := fun _ => ⟨[], 0, 1⟩
  waiters := some []
  eventsDispatched := 0
  dispatches := []
  retained := []
  released := []

/-- The bus with another list for a type. -/
def Bus.setList (bus : Bus) (type : Int) (list : ListenerList) : Bus :=
  { bus with listeners := fun other => if other = type then list else bus.listeners other }

/-- The calls of `retain_user_data`. -/
def retains (type : Int) (listeners : List Listener) : List (Int × Listener) :=
  (listeners.filter (·.retainUserData.isSome)).map (type, ·)

/-- The calls of `release_user_data`. -/
def releases (type : Int) (listeners : List Listener) : List (Int × Listener) :=
  (listeners.filter (·.releaseUserData.isSome)).map (type, ·)

/-- What a call on the bus returns. -/
inductive Answer
  | id (id : UInt64)
  | status (status : Status)
  deriving DecidableEq

/-- The list, with room for one more. -/
def reserveListener (list : ListenerList) (memory : Bool) : Option ListenerList :=
  if list.items.length = list.cap then
    match nextListenerCap list.cap with
    | none => none
    | some cap => if memory then some { list with cap := cap } else none
  else some list

/-- `dcc_event_bus_add_owned`. -/
def busAdd (bus : Bus) (type : Int) (cb : Option Nat) (userData : Nat)
    (retain release : Option Nat) (memory : Bool) : Bus × Answer :=
  match cb with
  | none => (bus, .status .invalidArg)
  | some cb =>
    if typeValid type = false ∨ retain.isNone ≠ release.isNone then (bus, .status .invalidArg)
    else
      match reserveListener (bus.listeners type) memory with
      | none => (bus, .status .nomem)
      | some list =>
        if list.nextId = 0 then (bus.setList type list, .status .nomem)
        else
          let listener := ⟨list.nextId, cb, userData, retain, release⟩
          let bus := bus.setList type
            { list with items := list.items ++ [listener], nextId := list.nextId + 1 }
          ({ bus with retained := bus.retained ++ retains type [listener] }, .id list.nextId)

/-- `dcc_event_bus_remove`. -/
def busRemove (bus : Bus) (type : Int) (id : UInt64) : Bus × Answer :=
  if typeValid type = false ∨ id = 0 then (bus, .status .invalidArg)
  else
    let list := bus.listeners type
    match list.items.findIdx? (·.id == id) with
    | none => (bus, .status .invalidArg)
    | some i =>
      let removed := (list.items[i]?).toList
      let bus := bus.setList type { list with items := swapOut list.items i }
      ({ bus with released := bus.released ++ releases type removed }, .status .ok)

/-- `DCC_EVENT_INLINE_SNAPSHOT_CAP`. -/
def inlineSnapshotCap : Nat := 8

/-- `dcc_event_bus_dispatch`, as far as it holds the lock. -/
def busDispatch (bus : Bus) (shardId : UInt32) (event : Event) (memory : Bool)
    (clones : Nat → Bool) : Bus × Answer :=
  if typeValid event.type then
    let event := { event with shardId := shardId, cancelled := 0 }
    let items := (bus.listeners event.type).items
    let bus := { bus with waiters := bus.waiters.bind (signalWaiters event clones) }
    if inlineSnapshotCap < items.length ∧ memory = false then
      ({ bus with dispatches := bus.dispatches ++ [⟨.nomem, event, [], .finished, [], []⟩] },
        .status .nomem)
    else
      ({ bus with
          retained := bus.retained ++ retains event.type items
          eventsDispatched := bus.eventsDispatched + 1
          dispatches := bus.dispatches ++ [⟨.ok, event, items, .ready 0, [], []⟩] },
        .status .ok)
  else (bus, .status .invalidArg)

/-- The next step of one of the dispatches. -/
def busAdvance (bus : Bus) (index : Nat) : Bus :=
  match bus.dispatches[index]? with
  | none => bus
  | some dispatch =>
    { bus with
      dispatches := bus.dispatches.set index dispatch.advance
      released := bus.released ++ releases dispatch.event.type dispatch.releases }

/-- A callback of one of the dispatches cancels its event. -/
def busCancel (bus : Bus) (index : Nat) : Bus :=
  match bus.dispatches[index]? with
  | none => bus
  | some dispatch => { bus with dispatches := bus.dispatches.set index dispatch.cancel }

/-- The body of the loop of `dcc_event_bus_deinit`. -/
def deinitList (bus : Bus) (type : Int) : Bus :=
  let list := bus.listeners type
  let bus := bus.setList type { list with items := [], cap := 0 }
  { bus with released := bus.released ++ releases type list.items }

/-- `dcc_event_bus_deinit`. -/
def busDeinit (bus : Bus) : Bus :=
  { ((List.range eventMax).map Int.ofNat).foldl deinitList bus with waiters := some [] }

/-- What can happen on a bus. -/
inductive Step
  | add (type : Int) (cb : Option Nat) (userData : Nat) (retain release : Option Nat)
      (memory : Bool)
  | remove (type : Int) (id : UInt64)
  | dispatch (shardId : UInt32) (event : Event) (memory : Bool) (clones : Nat → Bool)
  | advance (index : Nat)
  | cancel (index : Nat)
  | wait (address : Nat) (waiter : Waiter)
  | unwait (address : Nat)
  | deinit

/-- One step, and what the call returns. -/
def step (bus : Bus) : Step → Bus × Answer
  | .add type cb userData retain release memory =>
    busAdd bus type cb userData retain release memory
  | .remove type id => busRemove bus type id
  | .dispatch shardId event memory clones => busDispatch bus shardId event memory clones
  | .advance index => (busAdvance bus index, .status .ok)
  | .cancel index => (busCancel bus index, .status .ok)
  | .wait address waiter =>
    ({ bus with waiters := bus.waiters.map ((address, waiter) :: ·) }, .status .ok)
  | .unwait address => ({ bus with waiters := bus.waiters.map (removeWaiter address) }, .status .ok)
  | .deinit => (busDeinit bus, .status .ok)

end Dcc.Events
