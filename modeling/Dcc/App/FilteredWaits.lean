import Dcc.Events.Waiters

/-!
# Filtered waits

`dcc_app_wait_for_interaction_filtered`, `dcc_app_wait_for_component_filtered` and
`dcc_app_wait_for_message_filtered`.  Each is a loop: it registers a waiter that completes at the
first event of its types, waits for it, takes the waiter off the bus and only then looks at the
filter.  Between any two of these steps time passes and events are dispatched.
-/

namespace Dcc.App

open Dcc.Events

/-! ## Filters -/

/-- `dcc_app_wait_filter_t`. -/
structure WaitFilter where
  size : Nat
  userId : UInt64
  channelId : UInt64
  guildId : UInt64
  customId : Option Bytes
  customIdPrefix : Option Bytes
  deriving DecidableEq

/-- `sizeof(dcc_app_wait_filter_t)`. -/
def waitFilterSize : Nat := 48

/-- `dcc_app_wait_filter_init`. -/
def waitFilterInit : WaitFilter := ⟨waitFilterSize, 0, 0, 0, none, none⟩

/-- `dcc_app_wait_filter_prepare`. -/
def waitFilterPrepare (filter : Option WaitFilter) : Except Status WaitFilter :=
  match filter with
  | none => .ok waitFilterInit
  | some filter =>
    if filter.size < waitFilterSize ∨
        (filter.customId.isSome = true ∧ filter.customIdPrefix.isSome = true) then
      .error .invalidArg
    else .ok { filter with size := waitFilterSize }

/-- A field of a filter: zero is any. -/
def waitIdMatches (wanted value : UInt64) : Bool := wanted == 0 || value == wanted

/-- `dcc_app_wait_interaction_matches`. -/
def waitInteractionMatches (interaction : Events.Interaction) (filter : WaitFilter) : Bool :=
  waitIdMatches filter.userId interaction.userId &&
    waitIdMatches filter.channelId interaction.channelId &&
    waitIdMatches filter.guildId interaction.guildId &&
    (match filter.customId with
      | none => true
      | some wanted => interaction.customId == some wanted) &&
    (match filter.customIdPrefix with
      | none => true
      | some wanted =>
        match interaction.customId with
        | none => false
        | some customId => wanted.isPrefixOf customId)

/-- `dcc_app_wait_message_matches`. -/
def waitMessageMatches (message : Message) (filter : WaitFilter) : Bool :=
  waitIdMatches filter.userId message.authorId &&
    waitIdMatches filter.channelId message.channelId &&
    waitIdMatches filter.guildId message.guildId

/-! ## The three waits -/

/-- Which of the functions is called, with its type. -/
inductive WaitCall
  | interaction (type : Int)
  | component
  | message (type : Int)

/-- `DCC_EVENT_BUTTON_CLICK` and `DCC_EVENT_SELECT_CLICK`. -/
def componentTypes : List Int := [7, 9]

/-- What the function makes of its filter. -/
def WaitCall.prepare (call : WaitCall) (filter : Option WaitFilter) : Except Status WaitFilter :=
  match waitFilterPrepare filter with
  | .error status => .error status
  | .ok filter =>
    match call with
    | .message _ =>
      if filter.customId.isSome = true ∨ filter.customIdPrefix.isSome = true then
        .error .invalidArg
      else .ok filter
    | _ => .ok filter

/-- The waiter of a `dcc_client_wait_for_event_owned` of one type. -/
def singleWaiter (type : Int) (kind : WaitKind) : Except Status Waiter :=
  if typeValid type then .ok { Waiter.zero with type := type, kind := kind }
  else .error .invalidArg

/-- The waiter that an iteration puts on the bus. -/
def WaitCall.waiter : WaitCall → Except Status Waiter
  | .interaction type => singleWaiter type .interaction
  | .message type => singleWaiter type .message
  | .component =>
    match setTypes Waiter.zero (some componentTypes) with
    | .error status => .error status
    | .ok waiter => .ok { waiter with kind := .interaction }

/-- The object that a wait brought matches the filter. -/
def ownedMatches (filter : WaitFilter) : Option Owned → Bool
  | some (.interaction interaction) => waitInteractionMatches interaction filter
  | some (.message message) => waitMessageMatches message filter
  | _ => false

/-- The arguments of a call.  `outSize` is the size in the result that the caller passes. -/
structure WaitArgs where
  call : WaitCall
  filter : Option WaitFilter
  timeoutMs : UInt32
  outSize : Option Nat
  clientThere : Bool
  initialized : Bool

/-- `sizeof(dcc_app_wait_result_t)`. -/
def waitResultSize : Nat := 256

/-- `dcc_app_wait_result_prepare`. -/
def resultPrepare (outSize : Option Nat) : Except Status Nat :=
  match outSize with
  | none => .error .invalidArg
  | some size =>
    if size ≠ 0 ∧ size < waitResultSize then .error .invalidArg else .ok waitResultSize

/-- `dcc_app_wait_remaining_timeout`; zero is no limit. -/
def remainingTimeout (started now timeoutMs : Nat) : Except Status Nat :=
  if timeoutMs = 0 then .ok 0
  else
    let elapsed := if started ≤ now then now - started else 0
    if timeoutMs ≤ elapsed then .error .timeout
    else
      let remaining := timeoutMs - elapsed
      let out := if 2 ^ 32 - 1 < remaining then 2 ^ 32 - 1 else remaining
      .ok (if out = 0 then 1 else out)

/-! ## A call -/

/-- Where a call is. -/
inductive WaitPhase
  | entering
  | checking (filter : WaitFilter) (started : Nat)
  | registering (filter : WaitFilter) (started remaining : Nat)
  | waiting (filter : WaitFilter) (started since remaining : Nat) (waiter : Waiter)
  | woken (filter : WaitFilter) (started : Nat) (status : Status) (waiter : Waiter)
  | returned (status : Status) (owned : Option Owned)

/-- The clock in milliseconds, and the call. -/
structure WaitState where
  clock : Nat
  phase : WaitPhase

/-- How `dcc_event_waiter_wait_channel` ends. -/
inductive Wake
  | received
  | expired
  | failed (status : Status)

/-- What can happen during a call.  `register` tells whether there is a channel for the waiter. -/
inductive WaitStep
  | tick (ms : Nat)
  | dispatch (event : Event) (memory : Bool)
  | enter
  | check
  | register (channel : Option Status)
  | wake (wake : Wake)
  | collect

/-- The filter, and the clock. -/
def waitEnter (args : WaitArgs) (clock : Nat) : WaitPhase :=
  match args.call.prepare args.filter with
  | .error status => .returned status none
  | .ok filter => .checking filter clock

/-- The top of the loop, up to the waiter. -/
def waitCheck (args : WaitArgs) (filter : WaitFilter) (started clock : Nat) : WaitPhase :=
  match remainingTimeout started clock args.timeoutMs.toNat with
  | .error status => .returned status none
  | .ok remaining =>
    match resultPrepare args.outSize with
    | .error status => .returned status none
    | .ok _ =>
      if args.clientThere then .registering filter started remaining
      else .returned .invalidArg none

/-- The waiter goes on the bus. -/
def waitRegister (args : WaitArgs) (filter : WaitFilter) (started remaining clock : Nat)
    (channel : Option Status) : WaitPhase :=
  match args.call.waiter with
  | .error status => .returned status none
  | .ok waiter =>
    if args.initialized then
      match channel with
      | some status => .returned status none
      | none => .waiting filter started clock remaining waiter
    else .returned .state none

/-- The waiter is off the bus: what became of it, and the filter. -/
def waitCollect (filter : WaitFilter) (started : Nat) (status : Status) (waiter : Waiter) :
    WaitPhase :=
  let status := if waiter.completed = true ∧ status = .timeout then .ok else status
  if status = .ok then
    if waiter.completed = true ∧ waiter.ownedStatus ≠ .ok then .returned waiter.ownedStatus none
    else
      let owned := if waiter.completed then waiter.owned else none
      if ownedMatches filter owned then .returned .ok owned else .checking filter started
  else .returned status none

/-- One step.  A step that is not the next one of the call does nothing, and so does a wake that
cannot be: one without a value in the channel, one before its deadline, and a failure with a status
that is none. -/
def waitStep (args : WaitArgs) (state : WaitState) : WaitStep → WaitState
  | .tick ms => { state with clock := state.clock + ms }
  | .dispatch event memory =>
    match state.phase with
    | .waiting filter started since remaining waiter =>
      match signalWaiter waiter event memory with
      | some waiter =>
        { state with phase := .waiting filter started since remaining waiter }
      | none => state
    | .woken filter started status waiter =>
      match signalWaiter waiter event memory with
      | some waiter => { state with phase := .woken filter started status waiter }
      | none => state
    | _ => state
  | .enter =>
    match state.phase with
    | .entering => { state with phase := waitEnter args state.clock }
    | _ => state
  | .check =>
    match state.phase with
    | .checking filter started =>
      { state with phase := waitCheck args filter started state.clock }
    | _ => state
  | .register channel =>
    match state.phase with
    | .registering filter started remaining =>
      if channel = some .ok then state
      else
        { state with
          phase := waitRegister args filter started remaining state.clock channel }
    | _ => state
  | .wake wake =>
    match state.phase with
    | .waiting filter started since remaining waiter =>
      match wake with
      | .received =>
        if waiter.completed then { state with phase := .woken filter started .ok waiter }
        else state
      | .expired =>
        if remaining ≠ 0 ∧ since + remaining ≤ state.clock then
          { state with phase := .woken filter started .timeout waiter }
        else state
      | .failed status =>
        if status ≠ .ok ∧ status ≠ .timeout then
          { state with phase := .woken filter started status waiter }
        else state
    | _ => state
  | .collect =>
    match state.phase with
    | .woken filter started status waiter =>
      { state with phase := waitCollect filter started status waiter }
    | _ => state

end Dcc.App
