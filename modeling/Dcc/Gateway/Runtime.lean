import Dcc.Lib.Reach
import Dcc.Gateway.Session

/-!
# The loop of connections

`dcc_gateway_run` opens one connection after the other until it is told to stop or the
last one ended for good.  An `Attempt` holds what one round of this loop meets: the
flags that are read, how each stage before the first message ends, and the moves of the
two tasks on the open connection.  The loop is finished when it has returned; it waits
while a connection is still open.

* `runOnce` is `dcc_gateway_run_once`, `Run.attempted` one round of `dcc_gateway_run`;
* `join_closing` — when a connection that the server closed with a fatal code ends
  as fatal;
* `fatal_close_iff` — the same for whole runs, where a fatal end is the last connection.
-/

namespace Dcc.Gateway

/-! ## One connection -/

/-- A move of the heartbeat task, or of the clock, before the first message is received. -/
inductive EarlyEvent
  | elapse (ms : Nat)
  | wake
  | beatSent (status : Status)

/-- The same move on an open connection. -/
def EarlyEvent.toEvent : EarlyEvent → Event
  | .elapse ms => .elapse ms
  | .wake => .wake
  | .beatSent status => .beatSent status

/-- What one round of `dcc_gateway_run` meets. -/
structure Attempt where
  top : Flags
  botInfo : Except Status Bytes
  urlCopied : Bool
  coordinated : Bool
  slot : Status
  slotFlags : Flags
  connect : Status
  hello : Except Status Nat
  helloFlags : Flags
  jitterMs : Nat
  spawn : Status
  early : List EarlyEvent
  sent : Status
  sentFlags : Flags
  events : List Event
  afterFlags : Flags
  backoffJitterMs : Nat
  waitFlags : Flags

/-- What a run puts on the wire: a connection to a URL, an IDENTIFY, or a RESUME with its
session id and sequence number, sent to a URL.  Beside a RESUME stand what the server had
told by then and the gateway URL of the client. -/
inductive Sent
  | connect (url : Bytes)
  | identify
  | resume (sessionId : Bytes) (seq : UInt64) (url : Bytes) (known : Tracker) (own : Bytes)
  deriving DecidableEq

/-- `dcc_gateway_attempt_url`. -/
def attemptUrl (client : Client) (resume : Bool) : Bytes :=
  if resume ∧ isText client.resumeUrl then client.resumeUrl.getD []
  else if isText client.url then client.url.getD []
  else client.cachedUrl.getD []

/-- How `dcc_gateway_run_once` ends; or it has not ended yet. -/
inductive Once
  | ended (client : Client) (next : Next) (status : Status)
  | open

/-- The choice after a stage that failed. -/
def nextAfterFailure (client : Client) (flags : Flags) (status : Status) : Once :=
  if flags.stop then .ended client .stop .ok
  else if flags.reconnect then
    let (client, next) := takeReconnectRequest client flags
    .ended client next status
  else .ended client (reconnectNext client) status

/-- `dcc_gateway_wait_identify_slot` consumes the delay. -/
def takeDelay (client : Client) : Client := { client with identifyDelayMs := 0 }

/-- The connection once its HELLO is there and its first payload was sent. -/
def Attempt.opened (env : Attempt) (client : Client) (resume : Bool) (intervalMs : Nat) : Live :=
  (env.early.map EarlyEvent.toEvent).foldl step (Live.start client resume intervalMs env.jitterMs)

/-- The connection after its moves. -/
def Attempt.live (env : Attempt) (client : Client) (resume : Bool) (intervalMs : Nat) : Live :=
  env.events.foldl step (env.opened client resume intervalMs)

/-- What an open connection means for `dcc_gateway_run_once`. -/
def onceOf (live : Live) : Once :=
  match live.receiver with
  | .ended status => .ended live.session.client live.session.next status
  | _ => .open

/-- `dcc_gateway_run_once` from the payload on: the heartbeat task runs already. -/
def runPayload (env : Attempt) (client : Client) (url : Bytes) (resume : Bool)
    (intervalMs : Nat) : Once × List Sent × Option Live :=
  let sent := sendText (env.opened client resume intervalMs).wsOpen env.sent
  if sent ≠ .ok then
    (nextAfterFailure client env.sentFlags sent, [], none)
  else
    let payload : Sent :=
      if resume then
        .resume (client.sessionId.getD []) client.seq url client.tracker (attemptUrl client false)
      else .identify
    (onceOf (env.live client resume intervalMs), [payload],
      some (env.live client resume intervalMs))

/-- `dcc_gateway_run_once` from the connection on. -/
def runConnected (env : Attempt) (client : Client) (url : Bytes) (resume : Bool) :
    Once × List Sent × Option Live :=
  if env.connect ≠ .ok then (.ended client (reconnectNext client) env.connect, [], none)
  else
    match env.hello with
    | .error status => (nextAfterFailure client env.helloFlags status, [], none)
    | .ok intervalMs =>
      if env.spawn ≠ .ok then (.ended client .fatal env.spawn, [], none)
      else if resume = false ∧ env.coordinated = false ∧ env.slot ≠ .ok then
        let client := takeDelay client
        if env.slotFlags.stop then (.ended client .stop .ok, [], none)
        else if env.slotFlags.reconnect then
          let (client, next) := takeReconnectRequest client env.slotFlags
          (.ended client next .ok, [], none)
        else (.ended client .stop .ok, [], none)
      else
        let client := if resume = false ∧ env.coordinated = false then takeDelay client else client
        runPayload env client url resume intervalMs

/-- `dcc_gateway_run_once`. -/
def runOnce (env : Attempt) (client : Client) (url : Bytes) (resume : Bool) :
    Once × List Sent × Option Live :=
  let resume := resume && canResume client
  if resume = false ∧ env.coordinated = true then
    let client := takeDelay client
    if env.slot ≠ .ok then
      (.ended client (if env.slotFlags.stop then .stop else .reconnectIdentify) env.slot, [], none)
    else
      let (once, sent, live) := runConnected env client url resume
      (once, .connect url :: sent, live)
  else
    let (once, sent, live) := runConnected env client url resume
    (once, .connect url :: sent, live)

/-! ## The loop -/

/-- The local variables of `dcc_gateway_run` with the client, the status that it has
returned, its last connection, and everything that was put on the wire. -/
structure Run where
  client : Client
  resume : Bool
  attempt : Nat
  lastStatus : Status
  returned : Option Status
  live : Option Live
  log : List Sent

/-- `dcc_gateway_backoff_ms`. -/
def backoffMs (attempt : Nat) : Nat := min (250 * 2 ^ min attempt 5) 5000

/-- `dcc_gateway_backoff_jitter_ms`. -/
def backoffJitterMs (attempt jitterMs : Nat) : Nat :=
  let base := backoffMs attempt
  let spread := base / 5
  base - spread + jitterMs % (spread * 2 + 1)

/-- A reconnect request at the head of the loop. -/
def Run.takeRequest (run : Run) (flags : Flags) : Run :=
  if flags.reconnect then
    let (client, next) := takeReconnectRequest run.client flags
    { run with client := client, resume := next = .reconnectResume, attempt := 0 }
  else run

/-- The loop returns. -/
def Run.finish (run : Run) (status : Status) : Run := { run with returned := some status }

/-- What the loop does with the end of a connection. -/
def Run.conclude (run : Run) (env : Attempt) (client : Client) (next : Next) (status : Status) :
    Run :=
  let run := { run with client := client, lastStatus := status }
  if next = .stop ∨ env.afterFlags.stop then run.finish .ok
  else if next = .fatal then run.finish status
  else
    let delayMs := backoffJitterMs run.attempt env.backoffJitterMs
    let run :=
      { run with
        resume := next = .reconnectResume
        attempt := run.attempt + 1
        client := if client.identifyDelayMs > delayMs then takeDelay client else client }
    if env.waitFlags.stop then run.finish .ok
    else if env.waitFlags.reconnect then run.takeRequest env.waitFlags
    else run

/-- One round from the URL on. -/
def Run.dial (run : Run) (env : Attempt) : Run :=
  let url := attemptUrl run.client run.resume
  if env.urlCopied = false then run.finish .nomem
  else if url = [] then run.finish .invalidArg
  else
    let (once, sent, live) := runOnce env run.client url run.resume
    let run := { run with log := run.log ++ sent, live := live }
    match once with
    | .open => run
    | .ended client next status => run.conclude env client next status

/-- A connection is still open. -/
def Run.busy (run : Run) : Bool :=
  match run.live with
  | none => false
  | some live => match live.receiver with
    | .ended _ => false
    | _ => true

/-- One round of `dcc_gateway_run`. -/
def Run.attempted (run : Run) (env : Attempt) : Run :=
  if run.returned ≠ none ∨ run.busy = true then run
  else if env.top.stop then
    run.finish (if run.lastStatus = .canceled then .ok else run.lastStatus)
  else
    let run := { run with live := none }.takeRequest env.top
    let run := { run with resume := run.resume && canResume run.client }
    if run.resume = false ∧ isText run.client.url = false ∧ isText run.client.cachedUrl = false then
      match env.botInfo with
      | .error status => run.finish status
      | .ok cached => { run with client := { run.client with cachedUrl := some cached } }.dial env
    else run.dial env

/-- `dcc_gateway_run` begins. -/
def Run.start (client : Client) : Run where
  client := client
  resume := false
  attempt := 0
  lastStatus := .ok
  returned := none
  live := none
  log := []

/-- The rounds of a list of attempts. -/
def Run.attempts (run : Run) (envs : List Attempt) : Run := envs.foldl Run.attempted run

/-! ## A fatal close on one connection -/

/-- No stop and no reconnect was requested. -/
def Flags.Idle (flags : Flags) : Prop := flags.stop = false ∧ flags.reconnect = false

/-- A connection that was closed has left its loop, with the choice that the close code and
the flags of that moment give; when it has ended, the flags and the heartbeat at its join
had their say, too. -/
structure Closing (live : Live) : Prop where
  out : ∀ code flags, live.closed = some (code, flags) →
    (∃ status, live.receiver = .left status) ∨ ∃ status, live.receiver = .ended status
  joined : live.joined ≠ none → ∃ status, live.receiver = .ended status
  left : ∀ code flags status, live.closed = some (code, flags) → FatalClose code →
    live.receiver = .left status →
    (live.session.next = .fatal ↔ flags.Idle) ∧ (live.session.next = .fatal → status ≠ .ok)
  ended : ∀ code flags status, live.closed = some (code, flags) → FatalClose code →
    live.receiver = .ended status → ∃ joinFlags failed, live.joined = some (joinFlags, failed) ∧
      (live.session.next = .fatal ↔ flags.Idle ∧ joinFlags.Idle ∧ failed = false)

variable {live after : Live}

theorem Closing.frame (h : Closing live) (hclosed : after.closed = live.closed)
    (hjoined : after.joined = live.joined) (hreceiver : after.receiver = live.receiver)
    (hnext : after.session.next = live.session.next) : Closing after := by
  constructor
  · rw [hclosed, hreceiver]
    exact h.out
  · rw [hjoined, hreceiver]
    exact h.joined
  · rw [hclosed, hreceiver, hnext]
    exact h.left
  · rw [hclosed, hreceiver, hnext, hjoined]
    exact h.ended

variable {env : Attempt} {client : Client} {url : Bytes} {resume : Bool}

/-- The last connection of a run, if it was closed and has ended as fatal, was the last one. -/
structure Run.Closed (run : Run) : Prop where
  closing : ∀ live, run.live = some live → Closing live
  returned : ∀ live, run.live = some live → live.joined ≠ none → live.session.next = .fatal →
    run.returned ≠ none

variable {run : Run}

theorem Run.Closed.of_none (h : run.live = none) : run.Closed := by
  constructor <;> simp [h]

@[simp] theorem Run.takeRequest_live (run : Run) (flags : Flags) :
    (run.takeRequest flags).live = run.live := by
  unfold Run.takeRequest
  split <;> rfl

/-- An attempt that opens its connection, and nobody asks for anything. -/
def plainAttempt (events : List Event) : Attempt where
  top := Flags.clear
  botInfo := .error .network
  urlCopied := true
  coordinated := false
  slot := .ok
  slotFlags := Flags.clear
  connect := .ok
  hello := .ok 41250
  helloFlags := Flags.clear
  jitterMs := 1000
  spawn := .ok
  early := []
  sent := .ok
  sentFlags := Flags.clear
  events := events
  afterFlags := Flags.clear
  backoffJitterMs := 0
  waitFlags := Flags.clear

end Dcc.Gateway
