import Dcc.Basic

/-!
# Event waiters

The waiters of `dcc_event_bus_t`: their nodes, the functions that set one up for a policy, and
`dcc_event_bus_signal_waiters_locked`, which shows an event to every waiter.  A waiter writes
snapshots into an array of its caller; where it would write past the end of the array, or into a
slot that is too small, the model has no result.
-/

namespace Dcc.Events

/-! ## Events and snapshots -/

/-- `DCC_EVENT_MAX`. -/
def eventMax : Nat := 103

/-- `dcc_event_type_valid`. -/
def typeValid (type : Int) : Bool := 0 ≤ type && type < eventMax

/-- `dcc_event_type_names`. -/
def eventTypeNames : List String :=
  ["READY", "RESUMED", "MESSAGE_CREATE", "MESSAGE_UPDATE", "MESSAGE_DELETE",
    "INTERACTION_CREATE", "SLASH_COMMAND", "BUTTON_CLICK", "AUTOCOMPLETE", "SELECT_CLICK",
    "MESSAGE_CONTEXT_MENU", "USER_CONTEXT_MENU", "FORM_SUBMIT", "GUILD_CREATE", "GUILD_DELETE",
    "VOICE_STATE_UPDATE", "__LOG__", "__RAW__", "SOCKET_CLOSE", "RATE_LIMITED",
    "APPLICATION_COMMAND_PERMISSIONS_UPDATE", "AUTO_MODERATION_RULE_CREATE",
    "AUTO_MODERATION_RULE_UPDATE", "AUTO_MODERATION_RULE_DELETE",
    "AUTO_MODERATION_ACTION_EXECUTION", "CHANNEL_CREATE", "CHANNEL_UPDATE", "CHANNEL_DELETE",
    "CHANNEL_INFO", "CHANNEL_PINS_UPDATE", "THREAD_CREATE", "THREAD_UPDATE", "THREAD_DELETE",
    "THREAD_LIST_SYNC", "THREAD_MEMBER_UPDATE", "THREAD_MEMBERS_UPDATE", "ENTITLEMENT_CREATE",
    "ENTITLEMENT_UPDATE", "ENTITLEMENT_DELETE", "GUILD_UPDATE", "GUILD_AUDIT_LOG_ENTRY_CREATE",
    "GUILD_BAN_ADD", "GUILD_BAN_REMOVE", "GUILD_EMOJIS_UPDATE", "GUILD_STICKERS_UPDATE",
    "GUILD_INTEGRATIONS_UPDATE", "GUILD_MEMBER_ADD", "GUILD_MEMBER_REMOVE",
    "GUILD_MEMBER_UPDATE", "GUILD_MEMBERS_CHUNK", "GUILD_ROLE_CREATE", "GUILD_ROLE_UPDATE",
    "GUILD_ROLE_DELETE", "GUILD_SCHEDULED_EVENT_CREATE", "GUILD_SCHEDULED_EVENT_UPDATE",
    "GUILD_SCHEDULED_EVENT_DELETE", "GUILD_SCHEDULED_EVENT_USER_ADD",
    "GUILD_SCHEDULED_EVENT_USER_REMOVE", "GUILD_SOUNDBOARD_SOUND_CREATE",
    "GUILD_SOUNDBOARD_SOUND_UPDATE", "GUILD_SOUNDBOARD_SOUND_DELETE",
    "GUILD_SOUNDBOARD_SOUNDS_UPDATE", "SOUNDBOARD_SOUNDS", "INTEGRATION_CREATE",
    "INTEGRATION_UPDATE", "INTEGRATION_DELETE", "INVITE_CREATE", "INVITE_DELETE",
    "MESSAGE_DELETE_BULK", "MESSAGE_REACTION_ADD", "MESSAGE_REACTION_REMOVE",
    "MESSAGE_REACTION_REMOVE_ALL", "MESSAGE_REACTION_REMOVE_EMOJI", "MESSAGE_POLL_VOTE_ADD",
    "MESSAGE_POLL_VOTE_REMOVE", "PRESENCE_UPDATE", "STAGE_INSTANCE_CREATE",
    "STAGE_INSTANCE_UPDATE", "STAGE_INSTANCE_DELETE", "SUBSCRIPTION_CREATE",
    "SUBSCRIPTION_UPDATE", "SUBSCRIPTION_DELETE", "TYPING_START", "USER_UPDATE",
    "VOICE_CHANNEL_EFFECT_SEND", "VOICE_CHANNEL_START_TIME_UPDATE",
    "VOICE_CHANNEL_STATUS_UPDATE", "VOICE_SERVER_UPDATE", "VOICE_BUFFER_SEND", "VOICE_READY",
    "VOICE_RECEIVE", "VOICE_RECEIVE_COMBINED", "VOICE_TRACK_MARKER", "VOICE_CLIENT_SPEAKING",
    "VOICE_CLIENT_DISCONNECT", "VOICE_CLIENT_PLATFORM", "WEBHOOKS_UPDATE",
    "GUILD_JOIN_REQUEST_DELETE", "GUILD_JOIN_REQUEST_UPDATE",
    "GUILD_APPLICATION_COMMAND_COUNTS_UPDATE", "GUILD_APPLICATION_COMMAND_INDEX_UPDATE",
    "EMBEDDED_ACTIVITY_UPDATE", "CHANNEL_TOPIC_UPDATE"]

/-- `dcc_event_type_name`. -/
def eventTypeName (type : Int) : Option Bytes :=
  if typeValid type then (eventTypeNames[type.toNat]?).map asciiText else none

/-- `dcc_event_wait_kind_t`. -/
inductive WaitKind
  | snapshot
  | gatewayData
  | message
  | guild
  | channel
  | interaction
  | interactionOrClose
  | voiceState
  | member
  | role
  | user
  deriving DecidableEq

/-- What the filters read of a `dcc_interaction_t`. -/
structure Interaction where
  userId : UInt64
  channelId : UInt64
  guildId : UInt64
  customId : Option Bytes
  deriving DecidableEq

/-- What the filters read of a `dcc_message_t`. -/
structure Message where
  authorId : UInt64
  channelId : UInt64
  guildId : UInt64
  deriving DecidableEq

/-- An object that a waiter can own a copy of. -/
inductive Owned
  | interaction (interaction : Interaction)
  | message (message : Message)
  | other (kind : WaitKind)
  deriving DecidableEq

/-- `dcc_event_t`, with what its accessors find in it. -/
structure Event where
  type : Int
  shardId : UInt32
  cancelled : UInt8
  rawType : Int
  rawSequence : UInt64
  rawJsonLen : Nat
  rawName : Option Bytes
  interaction : Option Interaction
  message : Option Message
  others : List WaitKind
  deriving DecidableEq

/-- An event of a type, and nothing else. -/
def eventOf (type : Int) : Event := ⟨type, 0, 0, 0, 0, 0, none, none, none, []⟩

/-- `dcc_event_snapshot_t`. -/
structure Snapshot where
  size : Nat
  type : Int
  shardId : UInt32
  cancelled : UInt8
  rawType : Int
  rawSequence : UInt64
  rawJsonLen : Nat
  name : Bytes
  rawName : Bytes
  deriving DecidableEq

/-- `sizeof(dcc_event_snapshot_t)`. -/
def snapshotSize : Nat := 232

/-- What `memset` leaves of a snapshot. -/
def Snapshot.zero : Snapshot := ⟨0, 0, 0, 0, 0, 0, 0, [], []⟩

/-- `dcc_event_copy_text` into 96 bytes. -/
def copyText (value : Option Bytes) : Bytes := (value.getD []).take 95

/-- `dcc_event_snapshot_fill`. -/
def snapshotFill (event : Event) : Snapshot where
  size := snapshotSize
  type := event.type
  shardId := event.shardId
  cancelled := event.cancelled
  rawType := event.rawType
  rawSequence := event.rawSequence
  rawJsonLen := event.rawJsonLen
  name := copyText (event.rawName.or (eventTypeName event.type))
  rawName := copyText event.rawName

/-- `dcc_event_snapshot_copy` where the slot is large enough. -/
def store (out : Snapshot) (event : Event) : Snapshot :=
  { snapshotFill event with size := out.size }

/-- The snapshot of an event in a slot of an array: `none` past the end of the array, and where the
slot has room for a part of it only. -/
def writeSlot (slots : List Snapshot) (index : Nat) (event : Event) : Option (List Snapshot) :=
  match slots[index]? with
  | none => none
  | some out => if out.size < snapshotSize then none else some (slots.set index (store out event))

/-! ## Masks -/

/-- The words of a mask of types. -/
abbrev Mask := Nat → BitVec 64

/-- `dcc_event_waiter_mask_has`. -/
def maskHas (mask : Mask) (type : Int) : Bool :=
  if typeValid type then ((mask (type.toNat / 64) >>> (type.toNat % 64)) &&& 1#64) != 0#64
  else false

/-- `dcc_event_waiter_mask_add`. -/
def maskAdd (mask : Mask) (type : Int) : Mask :=
  if typeValid type then fun word =>
    if word = type.toNat / 64 then mask word ||| (1#64 <<< (type.toNat % 64)) else mask word
  else mask

/-! ## Waiters -/

/-- `dcc_event_waiter_node_t`.  `sent` counts what was sent on `done`. -/
structure Waiter where
  type : Int
  typeMask : Mask
  setSeenMask : Mask
  sequence : Option (List Int)
  sequenceIndex : Nat
  sequenceSnapshots : List Snapshot
  setTypes : List Int
  setCompleted : Nat
  setSnapshots : List Snapshot
  countTarget : Nat
  countCompleted : Nat
  countSnapshots : List Snapshot
  kind : WaitKind
  sent : Nat
  snapshot : Snapshot
  owned : Option Owned
  ownedStatus : Status
  matchAny : Bool
  matchSequence : Bool
  matchSet : Bool
  matchCount : Bool
  matchQuorum : Bool
  completed : Bool

/-- What `memset` leaves of a node. -/
def Waiter.zero : Waiter where
  type := 0
  typeMask := fun _ => 0
  setSeenMask := fun _ => 0
  sequence := none
  sequenceIndex := 0
  sequenceSnapshots := []
  setTypes := []
  setCompleted := 0
  setSnapshots := []
  countTarget := 0
  countCompleted := 0
  countSnapshots := []
  kind := .snapshot
  sent := 0
  snapshot := .zero
  owned := none
  ownedStatus := .ok
  matchAny := false
  matchSequence := false
  matchSet := false
  matchCount := false
  matchQuorum := false
  completed := false

/-! ## Setting a waiter up -/

/-- The loop that adds types, of `dcc_event_waiter_set_types` and of the count. -/
def addTypes (mask : Mask) : List Int → Option Mask
  | [] => some mask
  | type :: rest => if typeValid type then addTypes (maskAdd mask type) rest else none

/-- The loop that adds types and refuses one that is there already. -/
def addDistinctTypes (mask : Mask) : List Int → Option Mask
  | [] => some mask
  | type :: rest =>
    if typeValid type = false ∨ maskHas mask type = true then none
    else addDistinctTypes (maskAdd mask type) rest

/-- The slots that a waiter will use are large enough. -/
def slotsLarge (slots : List Snapshot) (count : Nat) : Bool :=
  (slots.take count).all fun slot => snapshotSize ≤ slot.size

/-- `dcc_event_waiter_set_types`. -/
def setTypes (waiter : Waiter) (types : Option (List Int)) : Except Status Waiter :=
  match types with
  | some (type :: rest) =>
    match addTypes waiter.typeMask (type :: rest) with
    | some mask => .ok { waiter with matchAny := true, typeMask := mask }
    | none => .error .invalidArg
  | _ => .error .invalidArg

/-- `dcc_event_waiter_set_sequence`. -/
def setSequence (waiter : Waiter) (types : Option (List Int)) (slots : Option (List Snapshot)) :
    Except Status Waiter :=
  match types, slots with
  | some types, some slots =>
    if types = [] ∨ slots.length < types.length then .error .invalidArg
    else if types.all typeValid && slotsLarge slots types.length then
      .ok { waiter with
        matchSequence := true
        sequence := some types
        sequenceIndex := 0
        sequenceSnapshots := slots }
    else .error .invalidArg
  | _, _ => .error .invalidArg

/-- `dcc_event_waiter_set_event_set`. -/
def setEventSet (waiter : Waiter) (types : Option (List Int)) (slots : Option (List Snapshot)) :
    Except Status Waiter :=
  match types, slots with
  | some types, some slots =>
    if types = [] ∨ slots.length < types.length then .error .invalidArg
    else
      match addDistinctTypes waiter.typeMask types with
      | some mask =>
        if slotsLarge slots types.length then
          .ok { waiter with
            typeMask := mask
            matchSet := true
            setTypes := types
            setCompleted := 0
            setSnapshots := slots }
        else .error .invalidArg
      | none => .error .invalidArg
  | _, _ => .error .invalidArg

/-- `dcc_event_waiter_set_event_count`. -/
def setEventCount (waiter : Waiter) (types : Option (List Int)) (target : Nat)
    (slots : Option (List Snapshot)) : Except Status Waiter :=
  match types, slots with
  | some types, some slots =>
    if types = [] ∨ target = 0 ∨ slots.length < target then .error .invalidArg
    else
      match addTypes waiter.typeMask types with
      | some mask =>
        if slotsLarge slots target then
          .ok { waiter with
            typeMask := mask
            matchCount := true
            countTarget := target
            countCompleted := 0
            countSnapshots := slots }
        else .error .invalidArg
      | none => .error .invalidArg
  | _, _ => .error .invalidArg

/-- `dcc_event_waiter_set_event_quorum`. -/
def setEventQuorum (waiter : Waiter) (types : Option (List Int)) (target : Nat)
    (slots : Option (List Snapshot)) : Except Status Waiter :=
  match types, slots with
  | some types, some slots =>
    if types = [] ∨ target = 0 ∨ types.length < target ∨ slots.length < target then
      .error .invalidArg
    else
      match addDistinctTypes waiter.typeMask types with
      | some mask =>
        if slotsLarge slots target then
          .ok { waiter with
            typeMask := mask
            matchQuorum := true
            countTarget := target
            countCompleted := 0
            countSnapshots := slots }
        else .error .invalidArg
      | none => .error .invalidArg
  | _, _ => .error .invalidArg

/-! ## Showing an event to the waiters -/

/-- `dcc_event_waiter_matches`. -/
def waiterMatches (waiter : Waiter) (type : Int) : Bool :=
  if typeValid type then
    if waiter.matchAny then maskHas waiter.typeMask type else waiter.type == type
  else false

/-- `DCC_EVENT_SOCKET_CLOSE`. -/
def socketClose : Int := 18

/-- A clone of an object, where there is one and memory for it. -/
def cloneObject (object : Option Owned) (memory : Bool) : Option Owned × Status :=
  match object with
  | none => (none, .state)
  | some object => if memory then (some object, .ok) else (none, .nomem)

/-- `dcc_event_waiter_clone_owned`. -/
def cloneOwned (kind : WaitKind) (event : Event) (memory : Bool) : Option Owned × Status :=
  match kind with
  | .snapshot => (none, .ok)
  | .message => cloneObject (event.message.map .message) memory
  | .interaction => cloneObject (event.interaction.map .interaction) memory
  | .interactionOrClose =>
    if event.type = socketClose then (none, .ok)
    else cloneObject (event.interaction.map .interaction) memory
  | kind => cloneObject (if kind ∈ event.others then some (.other kind) else none) memory

/-- `completed`, and the send on `done`. -/
def complete (waiter : Waiter) : Waiter :=
  { waiter with completed := true, sent := waiter.sent + 1 }

/-- The quorum of `dcc_event_bus_signal_waiters_locked`. -/
def signalQuorum (waiter : Waiter) (event : Event) : Option Waiter :=
  if maskHas waiter.typeMask event.type = true ∧ maskHas waiter.setSeenMask event.type = false ∧
      waiter.countCompleted < waiter.countTarget then
    match writeSlot waiter.countSnapshots waiter.countCompleted event with
    | none => none
    | some slots =>
      let waiter := { waiter with
        countSnapshots := slots
        setSeenMask := maskAdd waiter.setSeenMask event.type
        countCompleted := waiter.countCompleted + 1 }
      some (if waiter.countTarget ≤ waiter.countCompleted then complete waiter else waiter)
  else some waiter

/-- The count. -/
def signalCount (waiter : Waiter) (event : Event) : Option Waiter :=
  if maskHas waiter.typeMask event.type = true ∧ waiter.countCompleted < waiter.countTarget then
    match writeSlot waiter.countSnapshots waiter.countCompleted event with
    | none => none
    | some slots =>
      let waiter := { waiter with
        countSnapshots := slots
        countCompleted := waiter.countCompleted + 1 }
      some (if waiter.countTarget ≤ waiter.countCompleted then complete waiter else waiter)
  else some waiter

/-- The loop over the types of a set. -/
def signalSetLoop (waiter : Waiter) (event : Event) : Option Waiter :=
  match waiter.setTypes.findIdx? (· == event.type) with
  | none => some waiter
  | some index =>
    match writeSlot waiter.setSnapshots index event with
    | none => none
    | some slots =>
      some { waiter with
        setSnapshots := slots
        setSeenMask := maskAdd waiter.setSeenMask event.type
        setCompleted := waiter.setCompleted + 1 }

/-- The set. -/
def signalSet (waiter : Waiter) (event : Event) : Option Waiter :=
  if maskHas waiter.typeMask event.type = true ∧ maskHas waiter.setSeenMask event.type = false then
    match signalSetLoop waiter event with
    | none => none
    | some waiter =>
      some (if waiter.setTypes.length ≤ waiter.setCompleted then complete waiter else waiter)
  else some waiter

/-- The sequence. -/
def signalSequence (waiter : Waiter) (event : Event) : Option Waiter :=
  match waiter.sequence with
  | none => some waiter
  | some types =>
    if types[waiter.sequenceIndex]? = some event.type then
      match writeSlot waiter.sequenceSnapshots waiter.sequenceIndex event with
      | none => none
      | some slots =>
        let waiter := { waiter with
          sequenceSnapshots := slots
          sequenceIndex := waiter.sequenceIndex + 1 }
        some (if types.length ≤ waiter.sequenceIndex then complete waiter else waiter)
    else some waiter

/-- The body of the loop of `dcc_event_bus_signal_waiters_locked`. -/
def signalWaiter (waiter : Waiter) (event : Event) (memory : Bool) : Option Waiter :=
  if waiter.completed then some waiter
  else if waiter.matchQuorum then signalQuorum waiter event
  else if waiter.matchCount then signalCount waiter event
  else if waiter.matchSet then signalSet waiter event
  else if waiter.matchSequence then signalSequence waiter event
  else if waiterMatches waiter event.type then
    let cloned := cloneOwned waiter.kind event memory
    some (complete { waiter with
      snapshot := snapshotFill event
      owned := cloned.1
      ownedStatus := cloned.2 })
  else some waiter

/-! ## The waiters of a bus -/

/-- `bus->waiters`, by the addresses of the nodes. -/
abbrev Waiters := List (Nat × Waiter)

/-- `dcc_event_bus_signal_waiters_locked`. -/
def signalWaiters (event : Event) (memory : Nat → Bool) : Waiters → Option Waiters
  | [] => some []
  | (address, waiter) :: rest =>
    match signalWaiter waiter event (memory address) with
    | none => none
    | some waiter =>
      match signalWaiters event memory rest with
      | none => none
      | some rest => some ((address, waiter) :: rest)

/-- `dcc_event_waiter_remove_locked`. -/
def removeWaiter (address : Nat) : Waiters → Waiters
  | [] => []
  | entry :: rest => if entry.1 = address then rest else entry :: removeWaiter address rest

/-- What happens to the waiters of a bus. -/
inductive BusStep
  | wait (address : Nat) (waiter : Waiter)
  | remove (address : Nat)
  | dispatch (event : Event) (memory : Nat → Bool)

/-- One step. -/
def busStep (waiters : Waiters) : BusStep → Option Waiters
  | .wait address waiter => some ((address, waiter) :: waiters)
  | .remove address => some (removeWaiter address waiters)
  | .dispatch event memory => signalWaiters event memory waiters

/-- A run. -/
def busRun (waiters : Waiters) : List BusStep → Option Waiters
  | [] => some waiters
  | step :: steps =>
    match busStep waiters step with
    | none => none
    | some waiters => busRun waiters steps

end Dcc.Events
