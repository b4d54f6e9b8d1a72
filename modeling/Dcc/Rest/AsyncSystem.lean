import Dcc.Rest.AsyncQueue

/-!
# The asynchronous requests of a client, with everything that works on them

The parties are the callers that submit, cancel and wait, the workers that the
drain starts (`rest_async_worker.c`, one for an active request), and the calls
that cancel a detached list of requests (`rest_async_cancel_pending.c`).  They
meet in the client, under the REST lock, and in the request handles, whose
terminal flag is claimed by compare-and-swap (`rest_request_handle.c`).

`AsyncSystem.step` is one step of one party: a critical section under the REST
lock, or a piece of code between two points where another party may come in.
A run is any list of steps; a step whose party is not there does nothing.

What a step reads from outside is part of it: clock readings, the stop flag
(which may change at any time), resource counters, the outcome of allocations
and spawns, and the outcome of the request itself.  A request is known by its
address, which is not used again; its handle is kept under the same address.
-/

namespace Dcc.Rest

open Function

/-- What the capture callback of a worker has recorded. -/
structure Captured where
  called : Bool
  copyError : Status
  status : Nat
  error : Status

/-- The record before the callback has been called. -/
def Captured.zero : Captured := { called := false, copyError := .ok, status := 0, error := .ok }

/-- How far `dcc_rest_request_handle_finalize` has come: before the terminal flag
is claimed, before the delivery, before the result is published, returned. -/
inductive FinalStage
  | claim
  | deliver
  | publish
  | returned
  deriving DecidableEq, Repr

/-- How far `dcc_rest_async_worker_task` has come: before the request is
performed, before and after the cancel flag is read again, before a retry is
queued, inside the finalization, before `dcc_rest_async_complete`, and before
the request is freed, once the canceler it may have started is through. -/
inductive WorkerPc
  | start
  | performed (status : Status) (captured : Captured)
  | judged (status : Status) (captured : Captured)
  | retrying (notBeforeMs : Nat)
  | finalizing (status : Status) (stage : FinalStage)
  | completing
  | freeing (canceler : Option Nat)

/-- A call of `dcc_rest_async_cancel_pending_list`: the rest of its list and the
request it has in hand. -/
structure Canceler where
  chain : Option Addr
  current : Option (Addr × FinalStage)

/-- A call that is through. -/
def Canceler.idle : Canceler := { chain := none, current := none }

/-- Whether a call is through. -/
def Canceler.isIdle (canceler : Canceler) : Bool := canceler.chain.isNone && canceler.current.isNone

/-- The fields of `dcc_rest_request` that decide the delivery; `result` is the
transport status of the result it holds. -/
structure Handle where
  terminalClaimed : Bool
  completed : Bool
  hasCallback : Bool
  result : Option Status

/-- A new handle. -/
def Handle.new (hasCallback : Bool) : Handle :=
  { terminalClaimed := false, completed := false, hasCallback := hasCallback, result := none }

/-- The client with all parties.  `accepted` are the requests whose submission
has succeeded, `finished` those that have been freed; `callbacks` and
`terminals` count how often the callback of a request has been invoked and how
often its handle has become terminal; `marks` are the results of all calls of
the drain that mark a route active. -/
structure AsyncSystem where
  client : AsyncClient
  handles : Addr → Handle
  workers : Addr → Option WorkerPc
  cancelers : Nat → Canceler
  calls : Nat
  closed : Bool
  accepted : List Addr
  finished : List Addr
  callbacks : Addr → Nat
  terminals : Addr → Nat
  marks : List Status

namespace AsyncSystem

/-- A new client. -/
def init (restConcurrency : Nat) (resourceLimits : ResourceLimits) : AsyncSystem :=
  { client := AsyncClient.init restConcurrency resourceLimits
    handles := fun _ => Handle.new false
    workers := fun _ => none
    cancelers := fun _ => Canceler.idle
    calls := 0
    closed := false
    accepted := []
    finished := []
    callbacks := fun _ => 0
    terminals := fun _ => 0
    marks := [] }

def setWorker (s : AsyncSystem) (a : Addr) (pc : Option WorkerPc) : AsyncSystem :=
  { s with workers := update s.workers a pc }

def setCanceler (s : AsyncSystem) (k : Nat) (canceler : Canceler) : AsyncSystem :=
  { s with cancelers := update s.cancelers k canceler }

/-- A write to a request. -/
def modify (s : AsyncSystem) (a : Addr) (f : AsyncRequest → AsyncRequest) : AsyncSystem :=
  { s with client := s.client.modify a f }

/-- The system after a drain: its workers are at their start. -/
def drained (s : AsyncSystem) (r : AsyncClient.DrainResult) : AsyncSystem :=
  { s with
    client := r.client
    workers := fun a => if a ∈ r.spawned then some .start else s.workers a
    marks := s.marks ++ r.marks }

/-- A request leaves the active list, and its worker with it. -/
def finishActive (s : AsyncSystem) (a : Addr) : AsyncSystem :=
  { s with client := s.client.finishActiveLocked a }.setWorker a none

/-- All pending requests go to a new call of `dcc_rest_async_cancel_pending_list`. -/
def detachPending (s : AsyncSystem) : AsyncSystem :=
  { s with
    client := s.client.detachPendingAllLocked.1
    cancelers :=
      update s.cancelers s.calls { chain := s.client.detachPendingAllLocked.2, current := none }
    calls := s.calls + 1 }

/-- `dcc_rest_async_request_free` with the counters it finds. -/
def free (s : AsyncSystem) (a : Addr) (stats : RuntimeStats) : AsyncSystem :=
  { s.modify a fun request =>
      { request with resource := (releaseRequest stats request.resource request.cancelRequested).2 }
    with finished := a :: s.finished }

/-! ## Delivery -/

/-- One stage of `dcc_rest_request_handle_finalize` with a completion of
transport status `status`.  The callback is invoked inside a terminal frame,
which a closed client does not open. -/
def finalizeStep (s : AsyncSystem) (a : Addr) (status : Status) :
    FinalStage → AsyncSystem × FinalStage
  | .claim =>
    if (s.handles a).terminalClaimed then (s, .returned)
    else
      ({ s with
          handles := update s.handles a
            { s.handles a with terminalClaimed := true, result := some status } }, .deliver)
  | .deliver =>
    if s.closed || !(s.handles a).hasCallback then (s, .publish)
    else ({ s with callbacks := update s.callbacks a (s.callbacks a + 1) }, .publish)
  | .publish =>
    ({ s with
        handles := update s.handles a { s.handles a with completed := true }
        terminals := update s.terminals a (s.terminals a + 1) }, .returned)
  | .returned => (s, .returned)

/-- One step of `dcc_rest_async_cancel_pending_list`. -/
def cancelerStep (s : AsyncSystem) (k : Nat) (stats : RuntimeStats) : AsyncSystem :=
  match (s.cancelers k).current with
  | none =>
    match (s.cancelers k).chain with
    | none => s
    | some a =>
      { s with client := s.client.setNext a none }.setCanceler k
        { chain := (s.client.requests a).next, current := some (a, .claim) }
  | some (a, .returned) =>
    (s.free a stats).setCanceler k { chain := (s.cancelers k).chain, current := none }
  | some (a, stage) =>
    (s.finalizeStep a .canceled stage).1.setCanceler k
      { chain := (s.cancelers k).chain
        current := some (a, (s.finalizeStep a .canceled stage).2) }

/-! ## Workers -/

/-- `DCC_REST_MAX_RATE_LIMIT_RETRIES`. -/
def maxRateLimitRetries : Nat := 3

/-- What a worker step reads from outside. -/
structure WorkerInput where
  status : Status
  captured : Captured
  now : Nat
  wakeAllocated : Bool
  stopping : Bool
  stats : RuntimeStats
  drainInputs : Nat → AsyncClient.DrainInput
  againInputs : Nat → AsyncClient.DrainInput

/-- The status of a worker after the cancel flag has been read again. -/
def judge (canceled : Bool) (status : Status) (captured : Captured) : Status :=
  let status := if canceled then .canceled else status
  let status :=
    if status = .ok && captured.called && captured.copyError != .ok then captured.copyError
    else status
  if status = .ok && captured.called && captured.status == 0 then
    if captured.error ≠ .ok then captured.error else .runtime
  else status

/-- `dcc_rest_async_retry_not_before_ms`; the table is not changed by it. -/
def retryNotBeforeMs (client : AsyncClient) (a : Addr) (now : Nat) : Nat :=
  let routeWaitMs := (routeWaitMsLocked client.limits (client.requests a).route now false).2
  addMs now (if 1 < routeWaitMs then routeWaitMs else 1)

/-- The part of the worker that finalizes, unless the callback is marked called. -/
def settle (s : AsyncSystem) (a : Addr) (status : Status) : AsyncSystem :=
  if (s.client.requests a).callbackCalled then s.setWorker a (some .completing)
  else
    (s.modify a fun request => { request with callbackCalled := true }).setWorker a
      (some (.finalizing status .claim))

/-- The critical section of `dcc_rest_async_requeue_retry`. -/
def requeueRetry (s : AsyncSystem) (a : Addr) (notBeforeMs : Nat) (input : WorkerInput) :
    AsyncSystem :=
  let s₁ := (s.finishActive a).modify a fun request =>
    { request with
      resource := (requeue input.stats request.resource).2
      notBeforeMs := notBeforeMs
      callbackCalled := false }
  let s₂ := { s₁ with client := s₁.client.pushTailLocked a }
  s₂.drained (s₂.client.drainLocked input.drainInputs)

/-- `dcc_rest_async_complete`. -/
def complete (s : AsyncSystem) (a : Addr) (input : WorkerInput) : AsyncSystem :=
  let s₁ := s.finishActive a
  if input.stopping then s₁.detachPending.setWorker a (some (.freeing (some s.calls)))
  else
    (s₁.drained (s₁.client.drainTwiceLocked input.drainInputs input.againInputs)).setWorker a
      (some (.freeing none))

/-- Whether the worker may free its request: the canceler it started is through. -/
def mayFree (s : AsyncSystem) : Option Nat → Bool
  | none => true
  | some k => (s.cancelers k).isIdle

/-- One step of `dcc_rest_async_worker_task`. -/
def workerStep (s : AsyncSystem) (a : Addr) (input : WorkerInput) : AsyncSystem :=
  match s.workers a with
  | none => s
  | some .start =>
    if (s.client.requests a).cancelRequested then
      s.setWorker a (some (.performed .canceled Captured.zero))
    else s.setWorker a (some (.performed input.status input.captured))
  | some (.performed status captured) =>
    s.setWorker a
      (some (.judged (judge (s.client.requests a).cancelRequested status captured) captured))
  | some (.judged status captured) =>
    if status = .ok && captured.called && captured.error = .rateLimited &&
        decide ((s.client.requests a).retryAttempt < maxRateLimitRetries) &&
        !(s.client.requests a).cancelRequested then
      (s.modify a fun request => { request with retryAttempt := request.retryAttempt + 1 }).setWorker a
        (some (.retrying (retryNotBeforeMs s.client a input.now)))
    else s.settle a (if status = .ok && !captured.called then .runtime else status)
  | some (.retrying notBeforeMs) =>
    if !input.wakeAllocated || input.stopping then s.settle a .canceled
    else s.requeueRetry a notBeforeMs input
  | some (.finalizing _ .returned) => s.setWorker a (some .completing)
  | some (.finalizing status stage) =>
    (s.finalizeStep a status stage).1.setWorker a
      (some (.finalizing status (s.finalizeStep a status stage).2))
  | some .completing => s.complete a input
  | some (.freeing canceler) =>
    if s.mayFree canceler then (s.free a input.stats).setWorker a none else s

/-! ## Callers -/

/-- A submission. -/
structure Submission where
  priority : Priority
  route : RouteKey
  charge : Nat
  hasCallback : Bool
  canceled : Bool
  drainInputs : Nat → AsyncClient.DrainInput

/-- The request of a submission, in fresh memory and with its handle. -/
def create (s : AsyncSystem) (submission : Submission) : AsyncSystem :=
  let a := s.client.allocated
  { s with
    client :=
      { s.client with
        requests := update s.client.requests a
          { AsyncRequest.new submission.priority submission.route submission.charge with
            cancelRequested := submission.canceled }
        allocated := a + 1 }
    handles := update s.handles a (Handle.new submission.hasCallback)
    callbacks := update s.callbacks a 0
    terminals := update s.terminals a 0 }

/-- `dcc_rest_submit_core` from the allocation of the request on; it returns the
status of the drain.  A request that the drain hands back is gone. -/
def submit (s : AsyncSystem) (submission : Submission) : AsyncSystem :=
  if s.closed then s
  else
    let a := s.client.allocated
    let s₁ := s.create submission
    let s₂ := { s₁ with client := s₁.client.pushTailLocked a }
    let r := s₂.client.drainImplLocked (some a) submission.drainInputs
    if r.status = .ok then { s₂.drained r with accepted := a :: s.accepted } else s₂.drained r

/-- The critical section of `dcc_rest_request_cancel` on the handle of `a`. -/
def requestCancel (s : AsyncSystem) (a : Addr)
    (drainInputs againInputs : Nat → AsyncClient.DrainInput) : AsyncSystem :=
  if (s.handles a).terminalClaimed then s
  else if s.client.isPendingLocked a then
    let s₁ := { s with client := s.client.cancelRequest a }
    s₁.drained (s₁.client.drainTwiceLocked drainInputs againInputs)
  else if s.client.isActiveLocked a then { s with client := s.client.cancelRequest a }
  else s

/-- Whether nothing of the asynchronous requests is under way: what
`dcc_client_prepare_destroy` waits for and checks, and what callers have to see
to before they destroy a client. -/
def quiescent (s : AsyncSystem) : Bool :=
  s.client.active == 0 && s.client.activeHead.isNone &&
    [Priority.low, .normal, .high].all (fun p => (s.client.heads p).isNone) &&
    (List.range s.client.allocated).all (fun a => (s.workers a).isNone) &&
    (List.range s.calls).all fun k => (s.cancelers k).isIdle

/-- The steps of the system. -/
inductive Action
  | submit (submission : Submission)
  | drain (inputs : Nat → AsyncClient.DrainInput)
  | response (route : RouteKey) (response : Response) (now : Nat)
  | requestCancel (a : Addr) (drainInputs againInputs : Nat → AsyncClient.DrainInput)
  | cancelPending
  | cancelActive
  | cancelAll
  | worker (a : Addr) (input : WorkerInput)
  | canceler (k : Nat) (stats : RuntimeStats)
  | close

/-- One step.  `drain` is the wake-up of a retry and a round of
`dcc_rest_async_wait`; `response` records a response of any request; `close` is
`dcc_client_close_rest`, which follows `dcc_client_prepare_destroy`. -/
def step (s : AsyncSystem) : Action → AsyncSystem
  | .submit submission => s.submit submission
  | .drain inputs => s.drained (s.client.drainLocked inputs)
  | .response route response now =>
    { s with
      client := { s.client with limits := updateRateLimit s.client.limits route response now } }
  | .requestCancel a drainInputs againInputs => s.requestCancel a drainInputs againInputs
  | .cancelPending => s.detachPending
  | .cancelActive => { s with client := s.client.cancelActiveLocked }
  | .cancelAll => { s with client := s.client.cancelActiveLocked }.detachPending
  | .worker a input => s.workerStep a input
  | .canceler k stats => s.cancelerStep k stats
  | .close => if s.quiescent then { s with closed := true } else s

/-- A run from a new client. -/
def run (restConcurrency : Nat) (resourceLimits : ResourceLimits) (actions : List Action) :
    AsyncSystem :=
  actions.foldl step (init restConcurrency resourceLimits)

end AsyncSystem

end Dcc.Rest
