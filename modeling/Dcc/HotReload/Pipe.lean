import Dcc.HotReload.Worker
import Dcc.Lib.LittleEndian

/-!
# The pipes of a worker

A worker reads requests from one pipe and writes its answers into another one.  The parent sends
an event or asks for the health of a worker, and reads the answer, under a lock; the worker runs
its event loop.  Both are programs whose calls are the reads and the writes, the allocations, and
in the worker the handling of an event.

* `sendEventDirect`, `healthcheckDirect` — the parent;
* `childFrame` — one round of the event loop of the worker;
* `Link` — the two pipes with the exchange that holds the lock and what the worker does.
-/

namespace Dcc.HotReload

/-! ## Calls -/

/-- What the code tells apart of `errno`. -/
inductive Errno
  | timedOut
  | noMem
  | other
  deriving DecidableEq

/-- The calls of the two parties of a pipe. -/
inductive IoCall
  /-- `dcc_hot_reload_worker_write_all_timeout`. -/
  | write (data : Bytes)
  /-- `dcc_hot_reload_worker_read_all_timeout`, or without the time limit. -/
  | read (size : Nat)
  | allocate (size : Nat)
  /-- The handlers of the worker run for an event, and their requests are captured. -/
  | handle (event : Event)
  /-- `dcc_hot_reload_generation`. -/
  | generation

/-- The reply to a call. -/
@[reducible] def IoReply : IoCall → Type
  | .write _ => Except Errno Unit
  | .read _ => Except Errno Bytes
  | .allocate _ => Bool
  | .handle _ => ResultSet
  | .generation => UInt64

/-- The programs of the two parties. -/
abbrev Io := Program IoCall IoReply

/-- The program that makes one call. -/
abbrev io (call : IoCall) : Io (IoReply call) := Program.perform call

/-- Several writes, up to the first one that fails. -/
def writePieces : List Bytes → Io (Except Errno Unit)
  | [] => return .ok ()
  | piece :: pieces => do
      match ← io (.write piece) with
      | .error errno => return .error errno
      | .ok () => writePieces pieces

/-! ## Records -/

/-- `DCC_HOT_RELOAD_WORKER_MAGIC`. -/
def magic : Nat := 0x44434357

/-- `DCC_HOT_RELOAD_WORKER_VERSION`. -/
def version : Nat := 1

/-- `dcc_hot_reload_worker_msg_t`. -/
inductive Message
  | ready
  | event
  | eventResult
  | stop
  | health
  | healthResult

/-- The number of a message. -/
def Message.kind : Message → Nat
  | .ready => 1
  | .event => 2
  | .eventResult => 3
  | .stop => 4
  | .health => 5
  | .healthResult => 6

/-- `DCC_HOT_RELOAD_WORKER_MAX_REST_COUNT`. -/
def maxRestCount : Nat := 128

/-- `DCC_HOT_RELOAD_WORKER_MAX_METHOD_LEN`. -/
def maxMethodLen : Nat := 32

/-- `DCC_HOT_RELOAD_WORKER_MAX_PATH_LEN`. -/
def maxPathLen : Nat := 8192

/-- `DCC_HOT_RELOAD_WORKER_MAX_CONTENT_TYPE_LEN`. -/
def maxContentTypeLen : Nat := 128

/-- `DCC_HOT_RELOAD_WORKER_MAX_BODY_LEN`. -/
def maxBodyLen : Nat := 16777216

/-- `DCC_HOT_RELOAD_WORKER_MAX_EVENT_JSON_LEN`. -/
def maxEventJsonLen : Nat := 16777216

/-- `DCC_EVENT_MAX`. -/
def eventMax : Nat := 103

/-- `dcc_hot_reload_worker_header_t`. -/
structure Header where
  kind : Nat
  size : Nat

/-- The bytes of a header. -/
def headerBytes (message : Message) (size : Nat) : Bytes :=
  littleEndian 4 magic ++ (littleEndian 2 version ++
    (littleEndian 2 message.kind ++ littleEndian 4 size))

/-- The bytes of a `dcc_hot_reload_worker_event_t`. -/
def eventBytes (event : Event) : Bytes :=
  littleEndian 4 event.type.toNat ++ (littleEndian 4 event.shardId.toNat ++
    littleEndian 8 event.rawJson.length)

/-- The bytes of a `dcc_hot_reload_worker_result_t`. -/
def resultBytes (result : ResultSet) : Bytes :=
  littleEndian 4 result.status.toNat ++ littleEndian 4 result.items.length

/-- The bytes of a `dcc_hot_reload_worker_health_t`. -/
def healthBytes (generation : UInt64) : Bytes :=
  littleEndian 8 generation.toNat ++ (littleEndian 4 Status.ok.code.toNat ++ littleEndian 4 0)

/-- The bytes of a `dcc_hot_reload_worker_rest_t`, with those that align its last field. -/
def restBytes (entry : RestEntry) : Bytes :=
  littleEndian 4 entry.method.length ++ (littleEndian 4 entry.path.length ++
    (littleEndian 4 entry.contentType.length ++ (littleEndian 4 0 ++
      littleEndian 8 entry.body.length)))

/-- The header of a message, where the magic and the version are right. -/
def parseHeader (header : Bytes) : Except Errno Header :=
  if field header 0 4 ≠ magic ∨ field header 4 2 ≠ version then .error .other
  else .ok { kind := field header 6 2, size := field header 8 4 }

/-- `dcc_hot_reload_worker_read_header`. -/
def readHeader : Io (Except Errno Header) := do
  match ← io (.read 12) with
  | .error errno => return .error errno
  | .ok header => return parseHeader header

/-! ## The parent -/

/-- `dcc_worker_ipc_status_from_errno`. -/
def ipcStatusFromErrno : Errno → Status
  | .timedOut => .timeout
  | .noMem => .nomem
  | .other => .runtime

/-- The status of a request that could not be written. -/
def writeStatus : Errno → Status
  | .timedOut => .timeout
  | _ => .runtime

/-- `dcc_worker_read_text`. -/
def readText (len : Nat) : Io (Except Errno Bytes) := do
  if wordMax - 1 < len then return .error .other
  else if ← io (.allocate (len + 1)) then
    if len ≠ 0 then io (.read len) else return .ok []
  else return .error .noMem

/-- The `errno` of the last text that could not be read. -/
def lastErrno : List (Except Errno Bytes) → Errno → Errno
  | [], errno => errno
  | .error errno :: texts, _ => lastErrno texts errno
  | .ok _ :: texts, errno => lastErrno texts errno

/-- The lengths of an entry are refused. -/
def restRefused (methodLen pathLen contentTypeLen bodyLen : Nat) : Bool :=
  methodLen == 0 || pathLen == 0 || maxMethodLen < methodLen || maxPathLen < pathLen ||
    maxContentTypeLen < contentTypeLen || maxBodyLen < bodyLen

/-- `dcc_worker_read_rest_entry`. -/
def readRestEntry : Io (Except Status RestEntry) := do
  match ← io (.read 24) with
  | .error errno => return .error (ipcStatusFromErrno errno)
  | .ok rest =>
    if restRefused (field rest 0 4) (field rest 4 4) (field rest 8 4) (field rest 16 8) then
      return .error .runtime
    else do
      let method ← readText (field rest 0 4)
      let path ← readText (field rest 4 4)
      let contentType ← readText (field rest 8 4)
      let body ← readText (field rest 16 8)
      match method, path, contentType, body with
      | .ok method, .ok path, .ok contentType, .ok body =>
        return .ok { method, path, contentType, body }
      | _, _, _, _ =>
        return .error (ipcStatusFromErrno (lastErrno [method, path, contentType, body] .other))

/-- The loop over the entries of a result set, after the ones that it has read. -/
def readRestEntries : Nat → List RestEntry → Io (Except Status (List RestEntry))
  | 0, items => return .ok items
  | count + 1, items => do
      match ← readRestEntry with
      | .error status => return .error status
      | .ok entry => readRestEntries count (items ++ [entry])

/-- `dcc_hot_reload_worker_result_set_read`. -/
def resultSetRead : Io (Except Status ResultSet) := do
  match ← readHeader with
  | .error errno => return .error (ipcStatusFromErrno errno)
  | .ok header =>
    if header.kind ≠ Message.eventResult.kind ∨ header.size ≠ 8 then return .error .runtime
    else
      match ← io (.read 8) with
      | .error errno => return .error (ipcStatusFromErrno errno)
      | .ok result =>
        let status := UInt32.ofNat (field result 0 4)
        let count := field result 4 4
        if count = 0 then return .ok { status, items := [] }
        else if maxRestCount < count then return .error .runtime
        else if ← io (.allocate (count * 40)) then
          match ← readRestEntries count [] with
          | .error status => return .error status
          | .ok items => return .ok { status, items }
        else return .error .nomem

/-- An event that `dcc_worker_send_event_direct` does not refuse. -/
def sendable (event : Event) : Bool :=
  event.rawJson.length != 0 && decide (event.rawJson.length ≤ maxEventJsonLen)

/-- The writes of `dcc_worker_send_event_direct`. -/
def eventPieces (event : Event) : List Bytes :=
  [headerBytes .event 16, eventBytes event, event.rawJson]

/-- What `dcc_worker_send_event_direct` does after its writes. -/
def awaitResult : Except Errno Unit → Io (Except Status ResultSet)
  | .error errno => return .error (writeStatus errno)
  | .ok () => resultSetRead

/-- `dcc_worker_send_event_direct` under the lock. -/
def sendEventDirect (event : Event) : Io (Except Status ResultSet) := do
  awaitResult (← writePieces (eventPieces event))

/-- What `dcc_worker_healthcheck_direct` does after its write: the status, and the generation
that it stores. -/
def awaitHealth : Except Errno Unit → Io (UInt32 × Option UInt64)
  | .error errno => return ((writeStatus errno).code, none)
  | .ok () => do
      match ← readHeader with
      | .error errno => return ((writeStatus errno).code, none)
      | .ok header =>
        if header.kind ≠ Message.healthResult.kind ∨ header.size ≠ 16 then
          return (Status.runtime.code, none)
        else
          match ← io (.read 16) with
          | .error errno => return ((writeStatus errno).code, none)
          | .ok health =>
            let generation := UInt64.ofNat (field health 0 8)
            return (UInt32.ofNat (field health 8 4),
              if generation ≠ 0 then some generation else none)

/-- `dcc_worker_healthcheck_direct` under the lock. -/
def healthcheckDirect : Io (UInt32 × Option UInt64) := do
  awaitHealth (← writePieces [headerBytes .health 0])

/-! ## The worker -/

/-- The writes of an entry, in `dcc_hot_reload_worker_capture_send_result`. -/
def restPieces (entry : RestEntry) : List Bytes :=
  [restBytes entry, entry.method, entry.path, entry.contentType, entry.body]

/-- The loop of `dcc_hot_reload_worker_capture_send_result`: whether it succeeded. -/
def sendRestEntries : List RestEntry → Io Bool
  | [] => return true
  | entry :: items => do
      if restRefused entry.method.length entry.path.length entry.contentType.length
          entry.body.length then return false
      else
        match ← writePieces (restPieces entry) with
        | .error _ => return false
        | .ok () => sendRestEntries items

/-- `dcc_hot_reload_worker_capture_send_result`. -/
def captureSendResult (result : ResultSet) : Io Bool := do
  if maxRestCount < result.items.length then return false
  else
    match ← writePieces [headerBytes .eventResult 8, resultBytes result] with
    | .error _ => return false
    | .ok () => sendRestEntries result.items

/-- `dcc_worker_send_health`. -/
def sendHealth : Io Bool := do
  let generation ← io .generation
  match ← writePieces [headerBytes .healthResult 16, healthBytes generation] with
  | .error _ => return false
  | .ok () => return true

/-- `dcc_worker_dispatch_event` of the worker: whether it succeeded. -/
def workerDispatchEvent (type shardId : UInt32) (jsonLen : Nat) : Io Bool := do
  if ← io (.allocate (jsonLen + 1)) then
    match ← io (.read jsonLen) with
    | .error _ => return false
    | .ok rawJson =>
      let result ← io (.handle { type, shardId, rawJson })
      captureSendResult result
  else return false

/-- One round of `dcc_hot_reload_worker_child_event_loop`: whether there is another one. -/
def childFrame : Io Bool := do
  match ← readHeader with
  | .error _ => return false
  | .ok header =>
    if header.kind = Message.stop.kind ∧ header.size = 0 then return false
    else if header.kind = Message.health.kind ∧ header.size = 0 then sendHealth
    else if header.kind ≠ Message.event.kind ∨ header.size ≠ 16 then return false
    else
      match ← io (.read 16) with
      | .error _ => return false
      | .ok message =>
        let jsonLen := field message 8 8
        if eventMax ≤ field message 0 4 ∨ maxEventJsonLen < jsonLen ∨ wordMax - 1 < jsonLen then
          return false
        else
          workerDispatchEvent (UInt32.ofNat (field message 0 4))
            (UInt32.ofNat (field message 4 4)) jsonLen

/-! ## The link -/

/-- How a call ends, as far as the caller does not decide it. -/
inductive IoOutcome
  /-- A read or a write moves all its bytes. -/
  | done
  /-- A read or a write fails after some bytes. -/
  | failed (errno : Errno) (moved : Nat)
  | allocated (success : Bool)
  | answered (result : ResultSet)
  | generation (generation : UInt64)

/-- One call of a party with the bytes that it can read: what is left of its program, how many
bytes it took, and the bytes that it wrote. -/
def ioStep {α : Type} : Io α → IoOutcome → Bytes → Option (Io α × Nat × Bytes)
  | .call (.write data) next, .done, _ => some (next (.ok ()), 0, data)
  | .call (.write data) next, .failed errno moved, _ =>
    some (next (.error errno), 0, data.take moved)
  | .call (.read size) next, .done, input =>
    if size ≤ input.length then some (next (.ok (input.take size)), size, []) else none
  | .call (.read size) next, .failed errno moved, _ =>
    if moved < size then some (next (.error errno), moved, []) else none
  | .call (.allocate _) next, .allocated success, _ => some (next success, 0, [])
  | .call (.handle _) next, .answered result, _ => some (next result, 0, [])
  | .call .generation next, .generation generation, _ => some (next generation, 0, [])
  | _, _, _ => none

/-- A request to a worker. -/
inductive Request
  | event (event : Event)
  | health

/-- What a request returns. -/
@[reducible] def Request.Answer : Request → Type
  | .event _ => Except Status ResultSet
  | .health => UInt32 × Option UInt64

/-- What the worker has to say to a request. -/
@[reducible] def Request.Reply : Request → Type
  | .event _ => ResultSet
  | .health => UInt64

/-- The program of a request, unless it is refused. -/
def Request.program : (request : Request) → Option (Io request.Answer)
  | .event e => if sendable e then some (sendEventDirect e) else none
  | .health => some healthcheckDirect

/-- The reply that a request returns as the answer of the worker, with the status `DCC_OK`. -/
def Request.taken : (request : Request) → request.Answer → Option request.Reply
  | .event _, .ok result => some result
  | .event _, .error _ => none
  | .health, (status, generation) =>
    if status = Status.ok.code then some (generation.getD 0) else none

/-- The generation of the worker after a request. -/
def Request.stored : (request : Request) → request.Answer → UInt64 → UInt64
  | .event _, _, old => old
  | .health, (_, generation), old => generation.getD old

/-- The request that holds the lock, with what is left of its program. -/
structure Exchange where
  number : Nat
  request : Request
  rest : Io request.Answer

/-- The worker: the exchange that the frame it reads began in, and what is left of the round. -/
structure Child where
  frame : Option Nat
  rest : Io Bool

/-- The worker at the start of a round. -/
def Child.start : Child := { frame := none, rest := childFrame }

/-- The worker after a call: a round that ends is followed by the next one, or by none. -/
def Child.next (frame : Option Nat) : Io Bool → Option Child
  | .ret true => some .start
  | .ret false => none
  | rest => some { frame, rest }

/-- A reply to the request of an exchange. -/
structure Answered where
  number : Nat
  request : Request
  reply : request.Reply

/-- A worker with its pipes.  The bytes to the worker carry the number of their exchange, which
no program reads. -/
structure Link where
  toChild : List (Nat × UInt8)
  fromChild : Bytes
  exchange : Option Exchange
  /-- The number of exchanges so far. -/
  count : Nat
  /-- The worker, as long as it runs. -/
  child : Option Child
  /-- `worker->generation`. -/
  generation : UInt64
  /-- What the worker had to say. -/
  handled : List Answered
  /-- What was returned with the status `DCC_OK`. -/
  results : List Answered

/-- A worker that has reported that it is ready. -/
def Link.start (generation : UInt64) : Link :=
  { toChild := [], fromChild := [], exchange := none, count := 0, child := some .start, generation
    handled := [], results := [] }

/-- What can happen next. -/
inductive Move
  /-- A caller takes the lock for a request. -/
  | begin (request : Request)
  /-- The caller with the lock makes its next call. -/
  | parent (outcome : IoOutcome)
  /-- The caller with the lock returns. -/
  | finish
  /-- The worker makes its next call. -/
  | child (outcome : IoOutcome)
  /-- The worker dies. -/
  | kill

/-- What the worker says in a call. -/
def handledBy (child : Child) (outcome : IoOutcome) : List Answered :=
  match child.frame, child.rest, outcome with
  | some number, .call (.handle event) _, .answered result =>
    [{ number, request := .event event, reply := result }]
  | some number, .call .generation _, .generation generation =>
    [{ number, request := .health, reply := generation }]
  | _, _, _ => []

/-- The caller with the lock returns. -/
def Link.finished (link : Link) (exchange : Exchange) : Link :=
  match exchange.rest with
  | .ret answer =>
    { link with
      exchange := none
      generation := exchange.request.stored answer link.generation
      results := link.results ++ ((exchange.request.taken answer).map fun reply =>
        { number := exchange.number, request := exchange.request, reply }).toList }
  | .call _ _ => link

/-- One step.  A step that is not possible changes nothing. -/
def Link.step (link : Link) : Move → Link
  | .begin request =>
    match link.exchange, request.program with
    | none, some program =>
      { link with exchange := some { number := link.count, request, rest := program }
                  count := link.count + 1 }
    | _, _ => link
  | .parent outcome =>
    match link.exchange with
    | none => link
    | some exchange =>
      match ioStep exchange.rest outcome link.fromChild with
      | none => link
      | some (rest, taken, written) =>
        { link with exchange := some { exchange with rest }
                    fromChild := link.fromChild.drop taken
                    toChild := link.toChild ++ written.map (Prod.mk exchange.number) }
  | .finish =>
    match link.exchange with
    | none => link
    | some exchange => link.finished exchange
  | .child outcome =>
    match link.child with
    | none => link
    | some child =>
      match ioStep child.rest outcome (link.toChild.map Prod.snd) with
      | none => link
      | some (rest, taken, written) =>
        let frame := child.frame.or ((link.toChild.take taken).head?.map Prod.fst)
        { link with child := Child.next frame rest
                    toChild := link.toChild.drop taken
                    fromChild := link.fromChild ++ written
                    handled := link.handled ++ handledBy child outcome }
  | .kill => { link with child := none }

end Dcc.HotReload
