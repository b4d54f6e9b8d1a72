import Dcc.Basic

/-!
# One gateway connection

After the HELLO of the server two tasks share a connection: the gateway task, which
receives messages until it leaves its loop, stops the heartbeat and decides what comes
next, and the heartbeat task, which sends a heartbeat in every interval.  `Live` is the
state of both, and `step` is one move of either of them, or the passing of time.

The control flags of the client may change at any moment, so what a step reads of them
is part of its input, `Flags`.  A task does not move where the source would not let it:
such an event changes nothing.

Besides the state of the source, `Live` records which heartbeats were sent and whether
an acknowledgement came after them (`beats`), whether the answer to a request of the
server is still on its way (`unsent`), what was known when the connection was declared
dead (`verdict`), the close frame with the flags that were read then (`closed`), and the
flags and the verdict of the heartbeat task when it was joined (`joined`).
-/

namespace Dcc.Gateway

/-! ## The messages of the server -/

/-- `dcc_event_type_t`, as far as the session distinguishes it. -/
inductive EventType
  | ready
  | resumed
  | other
  deriving DecidableEq

/-- `dcc_gateway_event_type_from_name`. -/
def eventTypeFromName (name : Bytes) : EventType :=
  if name = asciiText "READY" then .ready
  else if name = asciiText "RESUMED" then .resumed
  else .other

/-- `dcc_json_gateway_payload_t`, as far as the session reads it; a member that the message
does not have is `none`. -/
structure Payload where
  op : Option Int
  seq : Option UInt64
  eventName : Option Bytes
  sessionId : Option Bytes
  resumeGatewayUrl : Option Bytes
  invalidSessionResumable : Option Bool
  deriving DecidableEq

/-- The pointer is set and the text is not empty. -/
def isText (text : Option Bytes) : Bool := text.getD [] != []

/-- What the allocator says to the two copies of `dcc_gateway_store_ready`. -/
structure ReadyMemory where
  sessionId : Bool
  resumeUrl : Bool

/-- What the handling of a message meets: the memory for the texts of READY, the status of
the handlers that an event is given to, and the jitter of an invalid session. -/
structure Handling where
  memory : ReadyMemory
  emitted : Status
  jitterMs : Nat

/-- The message is a dispatch. -/
def Payload.isDispatch (payload : Payload) : Bool := payload.op == some 0

/-- The message is a READY. -/
def Payload.isReady (payload : Payload) : Bool :=
  payload.isDispatch && payload.eventName.map eventTypeFromName == some .ready

/-! ## What the server has told -/

/-- A session of the server: what its READY said, and the number of its last dispatch. -/
structure SessionInfo where
  sessionId : Option Bytes
  resumeUrl : Option Bytes
  lastSeq : Option UInt64
  deriving DecidableEq

/-- A record of the messages, for the statements about them: the session of the last READY,
whether the connection belongs to it, and whether all messages so far were orderly. -/
structure Tracker where
  current : Option SessionInfo
  joined : Bool
  orderly : Bool
  deriving DecidableEq

/-- What a message tells: a READY begins a session, and a dispatch of the session has the
next number. -/
def Tracker.see (tracker : Tracker) (payload : Payload) : Tracker :=
  if payload.isReady then
    { tracker with
      current := some ⟨payload.sessionId, payload.resumeGatewayUrl, payload.seq⟩
      joined := true }
  else if payload.isDispatch && tracker.joined then
    { tracker with
      current := tracker.current.map fun info =>
        { info with lastSeq := payload.seq.or info.lastSeq } }
  else tracker

/-! ## What the client keeps for a resume -/

/-- `dcc_gateway_next_t`. -/
inductive Next
  | stop
  | fatal
  | reconnectIdentify
  | reconnectResume
  deriving DecidableEq, Repr

/-- The gateway fields of `dcc_client_t`, with the record of the messages. -/
structure Client where
  url : Option Bytes
  cachedUrl : Option Bytes
  sessionId : Option Bytes
  resumeUrl : Option Bytes
  seq : UInt64
  hasSeq : Bool
  resumable : Bool
  identifyDelayMs : Nat
  tracker : Tracker
  deriving DecidableEq

/-- A client before its first connection, with the URL that it was given. -/
def Client.new (url : Option Bytes) : Client where
  url := url
  cachedUrl := none
  sessionId := none
  resumeUrl := none
  seq := 0
  hasSeq := false
  resumable := false
  identifyDelayMs := 0
  tracker := ⟨none, false, true⟩

/-- A message is orderly when a READY carries a session id, a sequence number and, unless no
resume URL is stored, a resume URL, and finds memory for them; when no other dispatch comes
with a sequence number before the READY of a new session; and when only dispatches carry
sequence numbers. -/
def orderlyMessage (client : Client) (payload : Payload) (memory : ReadyMemory) : Bool :=
  if payload.isReady then
    isText payload.sessionId && payload.seq.isSome && memory.sessionId && memory.resumeUrl &&
      (isText payload.resumeGatewayUrl || !isText client.resumeUrl)
  else payload.seq.isNone || (payload.isDispatch && client.tracker.joined)

/-- The record of one more message. -/
def Client.record (client : Client) (payload : Payload) (memory : ReadyMemory) : Client :=
  { client with
    tracker :=
      { client.tracker.see payload with
        orderly := client.tracker.orderly && orderlyMessage client payload memory } }

/-- What a step reads of the control flags: `dcc_gateway_should_stop`,
`dcc_gateway_reconnect_requested` and `gateway_reconnect_resume`. -/
structure Flags where
  stop : Bool
  reconnect : Bool
  reconnectResume : Bool
  deriving DecidableEq

/-- No request of the application. -/
def Flags.clear : Flags := ⟨false, false, false⟩

/-- `dcc_gateway_can_resume`. -/
def canResume (client : Client) : Bool :=
  client.resumable && isText client.sessionId && client.hasSeq

/-- `dcc_gateway_clear_resume`. -/
def clearResume (client : Client) : Client :=
  { client with
    sessionId := none
    resumeUrl := none
    seq := 0
    hasSeq := false
    resumable := false }

/-- `dcc_gateway_store_ready`. -/
def storeReady (client : Client) (memory : ReadyMemory) (sessionId resumeUrl : Option Bytes) :
    Client × Status :=
  if isText sessionId = false then (client, .discord)
  else if memory.sessionId = false then (client, .nomem)
  else
    let client := { client with sessionId := sessionId }
    if isText resumeUrl = false then ({ client with resumable := client.hasSeq }, .ok)
    else if memory.resumeUrl = false then (client, .nomem)
    else ({ client with resumeUrl := resumeUrl, resumable := client.hasSeq }, .ok)

/-- `dcc_gateway_reconnect_next`. -/
def reconnectNext (client : Client) : Next :=
  if canResume client then .reconnectResume else .reconnectIdentify

/-- `dcc_gateway_take_reconnect_request`. -/
def takeReconnectRequest (client : Client) (flags : Flags) : Client × Next :=
  if flags.reconnectResume && canResume client then (client, .reconnectResume)
  else (clearResume client, .reconnectIdentify)

/-- `dcc_gateway_next_for_close`. -/
def nextForClose (client : Client) (code : Nat) : Client × Next :=
  match code with
  | 4007 | 4009 => (clearResume client, .reconnectIdentify)
  | 4004 | 4010 | 4011 | 4012 | 4013 | 4014 => (client, .fatal)
  | 4008 => ({ client with identifyDelayMs := 5000 }, reconnectNext client)
  | _ => (client, reconnectNext client)

/-- The close codes after which a connection cannot come back. -/
def FatalClose (code : Nat) : Prop :=
  code = 4004 ∨ 4010 ≤ code ∧ code ≤ 4014

instance (code : Nat) : Decidable (FatalClose code) :=
  inferInstanceAs (Decidable (_ ∨ _))

/-- `dcc_gateway_heartbeat_state_t`. -/
structure Heartbeat where
  intervalMs : Nat
  waitingAck : Bool
  failed : Bool
  hasSeq : Bool
  seq : UInt64

/-- `dcc_gateway_session_t`, with the client that it points to. -/
structure Session where
  client : Client
  seq : UInt64
  hasSeq : Bool
  resume : Bool
  next : Next
  heartbeat : Heartbeat
  heartbeatFailed : Bool

/-- `dcc_gateway_update_seq`. -/
def updateSeq (session : Session) (payload : Payload) : Session :=
  match payload.seq with
  | none => session
  | some seq =>
    { session with
      seq := seq
      hasSeq := true
      client := { session.client with seq := seq, hasSeq := true }
      heartbeat := { session.heartbeat with seq := seq, hasSeq := true } }

/-- `dcc_gateway_handle_dispatch`; what the other events do is the status of their handlers. -/
def handleDispatch (session : Session) (payload : Payload) (env : Handling) : Session × Status :=
  match payload.eventName with
  | none => (session, .ok)
  | some name =>
    match eventTypeFromName name with
    | .ready =>
      match storeReady session.client env.memory payload.sessionId payload.resumeGatewayUrl with
      | (client, .ok) => ({ session with client := client }, env.emitted)
      | (client, status) => ({ session with client := client }, status)
    | .resumed =>
      ({ session with client := { session.client with resumable := true } }, env.emitted)
    | .other => (session, env.emitted)

/-- `dcc_gateway_invalid_session_next`. -/
def invalidSessionNext (client : Client) (payload : Payload) (env : Handling) : Client × Next :=
  if payload.invalidSessionResumable = some true && canResume client then
    (client, .reconnectResume)
  else
    ({ clearResume client with identifyDelayMs := 1000 + env.jitterMs % 4000 }, .reconnectIdentify)

/-- How the handling of a message ends: with a status, or with a heartbeat to be sent. -/
inductive Handled
  | done (status : Status)
  | reply
  deriving DecidableEq

/-- `dcc_gateway_session_handle_payload`; the heartbeat that the server asks for is marked
here and sent by the next step of the gateway task. -/
def handlePayload (session : Session) (payload : Payload) (env : Handling) : Session × Handled :=
  let session := updateSeq session payload
  match payload.op with
  | none => (session, .done .ok)
  | some op =>
    if op = 0 then
      match handleDispatch session payload env with
      | (session, .ok) => (session, .done .ok)
      | (session, status) => ({ session with next := .fatal }, .done status)
    else if op = 1 then
      ({ session with heartbeat := { session.heartbeat with waitingAck := true } }, .reply)
    else if op = 7 then
      ({ session with next := reconnectNext session.client }, .done .discord)
    else if op = 9 then
      let (client, next) := invalidSessionNext session.client payload env
      ({ session with client := client, next := next }, .done .discord)
    else if op = 11 then
      ({ session with heartbeat := { session.heartbeat with waitingAck := false } }, .done .ok)
    else (session, .done .ok)

/-- `dcc_gateway_session_finalize_receive`. -/
def finalizeReceive (session : Session) (flags : Flags) (status : Status) : Session × Status :=
  if flags.stop then ({ session with next := .stop }, .ok)
  else if flags.reconnect then
    let (client, next) := takeReconnectRequest session.client flags
    ({ session with client := client, next := next }, .canceled)
  else if session.heartbeatFailed then
    ({ session with next := reconnectNext session.client }, .discord)
  else if session.next = .fatal ∧ status ≠ .ok then (session, status)
  else if session.next = .fatal then
    ({ session with next := reconnectNext session.client }, status)
  else (session, status)

/-! ## Both tasks -/

/-- A heartbeat on the wire: when it was sent, whether the server had asked for it, and
whether an acknowledgement came afterwards. -/
structure Beat where
  sentAt : Nat
  requested : Bool
  acked : Bool
  deriving DecidableEq

/-- Where the gateway task is: in its loop, sending the heartbeat that the server asked for,
out of the loop, or past the end of the connection. -/
inductive Receiver
  | receiving
  | replying
  | left (status : Status)
  | ended (status : Status)
  deriving DecidableEq

/-- Where the heartbeat task is. -/
inductive Beater
  | sleeping (wakeAt : Nat)
  | sending
  | ended
  deriving DecidableEq

/-- A connection with its two tasks; the time counts milliseconds. -/
structure Live where
  session : Session
  wsOpen : Bool
  now : Nat
  receiver : Receiver
  beater : Beater
  beats : List Beat
  unsent : Bool
  verdict : Option (Nat × List Beat)
  closed : Option (Nat × Flags)
  joined : Option (Flags × Bool)

/-- What `dcc_ws_recv` and the parser bring: a close frame (code 0 where the connection ended
without one), another failure, no memory for the payload, a text that is no JSON, or a
message. -/
inductive Received
  | closed (code : Nat)
  | failed (status : Status)
  | noScratch
  | badJson (status : Status)
  | message (payload : Payload) (env : Handling)

/-- One move. -/
inductive Event
  | elapse (ms : Nat)
  | wake
  | beatSent (status : Status)
  | receive (received : Received) (flags : Flags)
  | replySent (status : Status)
  | interrupt
  | join (flags : Flags)

/-- `dcc_ws_send_text`: a closed connection sends nothing. -/
def sendText (wsOpen : Bool) (status : Status) : Status := if wsOpen then status else .invalidArg

/-- The heartbeat failed: the task says so, aborts the connection and ends. -/
def Live.beatFails (live : Live) : Live :=
  { live with
    session :=
      { live.session with heartbeat := { live.session.heartbeat with failed := true } }
    wsOpen := false
    beater := .ended }

/-- `dcc_gateway_heartbeat_task` wakes up: it gives up when the last heartbeat was not
acknowledged, and else marks the next one. -/
def Live.wake (live : Live) : Live :=
  match live.beater with
  | .sleeping wakeAt =>
    if live.now < wakeAt then live
    else if live.session.heartbeat.waitingAck then
      { live.beatFails with verdict := some (live.now, live.beats) }
    else
      { live with
        session :=
          { live.session with heartbeat := { live.session.heartbeat with waitingAck := true } }
        beater := .sending }
  | _ => live

/-- The heartbeat task has sent its heartbeat, or failed to. -/
def Live.beatSent (live : Live) (status : Status) : Live :=
  match live.beater with
  | .sending =>
    if sendText live.wsOpen status = .ok then
      { live with
        beater := .sleeping (live.now + live.session.heartbeat.intervalMs)
        beats := ⟨live.now, false, false⟩ :: live.beats }
    else live.beatFails
  | _ => live

/-- The loop of the gateway task is left. -/
def Live.leave (live : Live) (session : Session) (status : Status) : Live :=
  { live with session := session, receiver := .left status }

/-- An acknowledgement answers every heartbeat before it. -/
def ackBeats (payload : Payload) (beats : List Beat) : List Beat :=
  if payload.op = some 11 then beats.map fun beat => { beat with acked := true } else beats

/-- The gateway task handles a message. -/
def Live.handle (live : Live) (payload : Payload) (env : Handling) : Live :=
  let live := { live with beats := ackBeats payload live.beats }
  let session := { live.session with client := live.session.client.record payload env.memory }
  match handlePayload session payload env with
  | (session, .reply) => { live with session := session, receiver := .replying, unsent := true }
  | (session, .done .ok) => { live with session := session }
  | (session, .done status) => live.leave session status

/-- One round of `dcc_gateway_session_receive_loop`. -/
def Live.receive (live : Live) (received : Received) (flags : Flags) : Live :=
  match received with
  | .closed code =>
    let live := { live with wsOpen := false, closed := some (code, flags) }
    if flags.stop then live.leave { live.session with next := .stop } .ok
    else if flags.reconnect then
      let (client, next) := takeReconnectRequest live.session.client flags
      live.leave { live.session with client := client, next := next } .canceled
    else
      let (client, next) := nextForClose live.session.client code
      live.leave { live.session with client := client, next := next } .canceled
  | .failed status =>
    if flags.reconnect then
      let (client, next) := takeReconnectRequest live.session.client flags
      live.leave { live.session with client := client, next := next } status
    else
      live.leave { live.session with next := reconnectNext live.session.client } status
  | .noScratch => live.leave { live.session with next := .fatal } .nomem
  | .badJson status => live.leave { live.session with next := .reconnectIdentify } status
  | .message payload env => live.handle payload env

/-- The gateway task has sent the heartbeat that the server asked for, or failed to. -/
def Live.replySent (live : Live) (status : Status) : Live :=
  if sendText live.wsOpen status = .ok then
    { live with
      receiver := .receiving
      beats := ⟨live.now, true, false⟩ :: live.beats
      unsent := false }
  else
    live.leave { live.session with next := reconnectNext live.session.client }
      (sendText live.wsOpen status)

/-- `dcc_gateway_session_stop_heartbeat`, then `dcc_gateway_session_finalize_receive`. -/
def Live.join (live : Live) (flags : Flags) (status : Status) : Live :=
  let session := { live.session with heartbeatFailed := live.session.heartbeat.failed }
  match finalizeReceive session flags status with
  | (session, status) =>
    { live with
      session := session
      wsOpen := false
      receiver := .ended status
      beater := .ended
      joined := some (flags, live.session.heartbeat.failed) }

/-- One move of a connection. -/
def step (live : Live) : Event → Live
  | .elapse ms => { live with now := live.now + ms }
  | .wake => live.wake
  | .beatSent status => live.beatSent status
  | .receive received flags =>
    match live.receiver with
    | .receiving => live.receive received flags
    | _ => live
  | .replySent status =>
    match live.receiver with
    | .replying => live.replySent status
    | _ => live
  | .interrupt =>
    match live.receiver with
    | .receiving => live.leave live.session .ok
    | _ => live
  | .join flags =>
    match live.receiver with
    | .left status => live.join flags status
    | _ => live

/-- `dcc_gateway_session_init`; a connection that resumes belongs to the session it resumes. -/
def sessionInit (client : Client) (resume : Bool) (intervalMs : Nat) : Session where
  client :=
    { client with tracker := { client.tracker with joined := resume && canResume client } }
  seq := client.seq
  hasSeq := client.hasSeq
  resume := resume && canResume client
  next := .fatal
  heartbeat :=
    { intervalMs := if intervalMs = 0 then 45000 else intervalMs
      waitingAck := false
      failed := false
      hasSeq := client.hasSeq
      seq := client.seq }
  heartbeatFailed := false

/-- The connection when its heartbeat task starts; the first sleep is a random part of the
interval. -/
def Live.start (client : Client) (resume : Bool) (intervalMs jitterMs : Nat) : Live :=
  let session := sessionInit client resume intervalMs
  { session := session
    wsOpen := true
    now := 0
    receiver := .receiving
    beater := .sleeping (jitterMs % session.heartbeat.intervalMs)
    beats := []
    unsent := false
    verdict := none
    closed := none
    joined := none }

end Dcc.Gateway
