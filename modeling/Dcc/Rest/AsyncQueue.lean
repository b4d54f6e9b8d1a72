import Mathlib.Logic.Function.Basic
import Dcc.Rest.RateLimit
import Dcc.Rest.Resource

/-!
# The queues of asynchronous requests

An asynchronous request is a cell of memory that is linked into one of three
pending lists, by priority, or into the list of active requests.  The functions
here are those of `rest_async_queue.c`, `rest_async_pending_queue.c`,
`rest_async_active_queue.c`, `rest_async_routes.c` and `rest_async_drain.c`;
each runs under the REST lock, on the links as the code has them.

* `takeNextLocked` looks for the first request that may run and links it out;
* `restoreLocked` puts it back where it was;
* `drainImplLocked` makes requests active until the configured concurrency is
  reached, nothing may run, or a worker cannot be started.

A walk over a list takes one more step than there are allocated requests as
its fuel, which no list exceeds.  What a call reads from outside the lock is
an input of the call: the clock, the stop flag, the resource counters and
whether the runtime accepts a worker task.
-/

namespace Dcc.Rest

/-- The address of an asynchronous request. -/
abbrev Addr := Nat

/-- `dcc_rest_priority_t`. -/
inductive Priority
  | low
  | normal
  | high
  deriving DecidableEq, Repr

/-- The fields of `dcc_rest_async_request` that the queues use. -/
structure AsyncRequest where
  priority : Priority
  route : RouteKey
  resource : ResourceTag
  callbackCalled : Bool
  retryAttempt : Nat
  notBeforeMs : Nat
  routeClaimed : Bool
  cancelRequested : Bool
  next : Option Addr
  activeNext : Option Addr

/-- A request as `dcc_rest_async_request_new` and the submission leave it. -/
def AsyncRequest.new (priority : Priority) (route : RouteKey) (charge : Nat) : AsyncRequest :=
  { priority := priority
    route := route
    resource := { resourceCharge := charge, resourceState := .queued, countCompletion := true }
    callbackCalled := false
    retryAttempt := 0
    notBeforeMs := 0
    routeClaimed := false
    cancelRequested := false
    next := none
    activeNext := none }

/-- The part of `dcc_client_t` that schedules asynchronous requests, with the
memory their cells live in; `allocated` is the first address never used. -/
structure AsyncClient where
  requests : Addr → AsyncRequest
  allocated : Nat
  heads : Priority → Option Addr
  tails : Priority → Option Addr
  activeHead : Option Addr
  activeRoutes : List RouteKey
  active : Nat
  limits : RateLimits
  restConcurrency : Nat
  resourceLimits : ResourceLimits

/-- The state `dcc_rest_init` makes. -/
def AsyncClient.init (restConcurrency : Nat) (resourceLimits : ResourceLimits) : AsyncClient :=
  { requests := fun _ => AsyncRequest.new .low RouteKey.empty 0
    allocated := 0
    heads := fun _ => none
    tails := fun _ => none
    activeHead := none
    activeRoutes := []
    active := 0
    limits := RateLimits.init
    restConcurrency := restConcurrency
    resourceLimits := resourceLimits }

namespace AsyncClient

/-- `dcc_rest_async_concurrency`. -/
def concurrency (c : AsyncClient) : Nat :=
  let concurrency := if c.restConcurrency ≠ 0 then c.restConcurrency else 1
  if bucketCap < concurrency then bucketCap else concurrency

/-- A write to the request at an address. -/
def modify (c : AsyncClient) (a : Addr) (f : AsyncRequest → AsyncRequest) : AsyncClient :=
  { c with requests := Function.update c.requests a (f (c.requests a)) }

/-- `request->next = next`. -/
def setNext (c : AsyncClient) (a : Addr) (next : Option Addr) : AsyncClient :=
  c.modify a fun request => { request with next := next }

/-- `request->active_next = next`. -/
def setActiveNext (c : AsyncClient) (a : Addr) (next : Option Addr) : AsyncClient :=
  c.modify a fun request => { request with activeNext := next }

def setHead (c : AsyncClient) (priority : Priority) (head : Option Addr) : AsyncClient :=
  { c with heads := Function.update c.heads priority head }

def setTail (c : AsyncClient) (priority : Priority) (tail : Option Addr) : AsyncClient :=
  { c with tails := Function.update c.tails priority tail }

/-- The link after `previous`, or the head of the list where there is none. -/
def linkAfter (c : AsyncClient) (priority : Priority) (previous next : Option Addr) : AsyncClient :=
  match previous with
  | some b => c.setNext b next
  | none => c.setHead priority next

/-! ## Pending requests -/

/-- `dcc_rest_async_push_tail_locked`. -/
def pushTailLocked (c : AsyncClient) (a : Addr) : AsyncClient :=
  let priority := (c.requests a).priority
  ((c.setNext a none).linkAfter priority (c.tails priority) (some a)).setTail priority (some a)

/-- `dcc_rest_async_route_active_locked`. -/
def routeActive (activeRoutes : List RouteKey) (route : RouteKey) : Bool :=
  route != RouteKey.empty && activeRoutes.contains route

/-- `dcc_rest_async_request_wait_ms_locked`, with the table it leaves. -/
def requestWaitMsLocked (limits : RateLimits) (request : AsyncRequest) (now : Nat)
    (resetExpired : Bool) : RateLimits × Nat :=
  let r := routeWaitMsLocked limits request.route now resetExpired
  if now < request.notBeforeMs ∧ r.2 < request.notBeforeMs - now then
    (r.1, request.notBeforeMs - now)
  else r

/-- The inner loop of `dcc_rest_async_take_next_locked` from `request`, after
`previous`: the rate-limit table it leaves, and the request it stops at with
the one before it. -/
def scanPending (c : AsyncClient) (now : Nat) :
    Nat → RateLimits → Option Addr → Option Addr → RateLimits × Option (Option Addr × Addr)
  | 0, limits, _, _ => (limits, none)
  | _ + 1, limits, _, none => (limits, none)
  | fuel + 1, limits, previous, some a =>
    let request := c.requests a
    if request.cancelRequested then (limits, some (previous, a))
    else if routeActive c.activeRoutes request.route then
      scanPending c now fuel limits (some a) request.next
    else
      let r := requestWaitMsLocked limits request now true
      if r.2 = 0 then (r.1, some (previous, a))
      else scanPending c now fuel r.1 (some a) request.next

/-- `dcc_rest_async_queue_position_t`. -/
structure QueuePosition where
  priority : Priority
  previous : Option Addr
  next : Option Addr
  deriving DecidableEq

/-- The splice of `dcc_rest_async_take_next_locked`. -/
def unlinkPending (c : AsyncClient) (priority : Priority) (previous : Option Addr) (a : Addr) :
    AsyncClient :=
  let c₁ := c.linkAfter priority previous (c.requests a).next
  let c₂ := if c.tails priority = some a then c₁.setTail priority previous else c₁
  c₂.setNext a none

/-- The outer loop of `dcc_rest_async_take_next_locked`. -/
def takeFrom (now : Nat) : List Priority → AsyncClient → AsyncClient × Option (Addr × QueuePosition)
  | [], c => (c, none)
  | priority :: priorities, c =>
    let r := c.scanPending now (c.allocated + 1) c.limits none (c.heads priority)
    let c' := { c with limits := r.1 }
    match r.2 with
    | none => takeFrom now priorities c'
    | some (previous, a) =>
      (c'.unlinkPending priority previous a,
        some (a, { priority := priority, previous := previous, next := (c.requests a).next }))

/-- `dcc_rest_async_take_next_locked` with the clock reading `now`. -/
def takeNextLocked (c : AsyncClient) (now : Nat) : AsyncClient × Option (Addr × QueuePosition) :=
  takeFrom now [.high, .normal, .low] c

/-- `dcc_rest_async_restore_locked`. -/
def restoreLocked (c : AsyncClient) (a : Addr) (position : QueuePosition) : AsyncClient :=
  let c' := (c.setNext a position.next).linkAfter position.priority position.previous (some a)
  if position.next = none then c'.setTail position.priority (some a) else c'

/-- The inner loop of `dcc_rest_async_detach_pending_all_locked`: it appends the
requests from `request` on to the list from `head` to `tail`. -/
def detachLoop : Nat → AsyncClient → Option Addr → Option Addr → Option Addr →
    AsyncClient × Option Addr × Option Addr
  | 0, c, head, tail, _ => (c, head, tail)
  | _ + 1, c, head, tail, none => (c, head, tail)
  | fuel + 1, c, head, tail, some a =>
    let next := (c.requests a).next
    let c₁ := c.setNext a none
    match tail with
    | some b => detachLoop fuel (c₁.setNext b (some a)) head (some a) next
    | none => detachLoop fuel c₁ (some a) (some a) next

/-- One round of the outer loop of `dcc_rest_async_detach_pending_all_locked`. -/
def detachPriority (r : AsyncClient × Option Addr × Option Addr) (priority : Priority) :
    AsyncClient × Option Addr × Option Addr :=
  detachLoop (r.1.allocated + 1) ((r.1.setHead priority none).setTail priority none) r.2.1 r.2.2
    (r.1.heads priority)

/-- `dcc_rest_async_detach_pending_all_locked`: the client and the head of the
detached list. -/
def detachPendingAllLocked (c : AsyncClient) : AsyncClient × Option Addr :=
  let r := [Priority.low, .normal, .high].foldl detachPriority (c, none, none)
  (r.1, r.2.1)

/-- Whether a walk along `next` from a cell meets `target`. -/
def walkMeets (next : Addr → Option Addr) (target : Addr) : Nat → Option Addr → Bool
  | 0, _ => false
  | _ + 1, none => false
  | fuel + 1, some a => a == target || walkMeets next target fuel (next a)

/-- `dcc_rest_request_is_pending_locked`. -/
def isPendingLocked (c : AsyncClient) (target : Addr) : Bool :=
  [Priority.low, .normal, .high].any fun priority =>
    walkMeets (fun a => (c.requests a).next) target (c.allocated + 1) (c.heads priority)

/-! ## Active requests -/

/-- `dcc_rest_async_push_active_locked`. -/
def pushActiveLocked (c : AsyncClient) (a : Addr) : AsyncClient :=
  { c.setActiveNext a c.activeHead with activeHead := some a }

/-- The write through the cursor of `dcc_rest_async_remove_active_locked`, which
is at the link after `previous`. -/
def linkActiveAfter (c : AsyncClient) (previous next : Option Addr) : AsyncClient :=
  match previous with
  | some b => c.setActiveNext b next
  | none => { c with activeHead := next }

/-- The loop of `dcc_rest_async_remove_active_locked`, with the cursor at the
link after `previous`. -/
def removeActiveLoop (c : AsyncClient) (a : Addr) : Nat → Option Addr → Option Addr → AsyncClient
  | 0, _, _ => c
  | _ + 1, _, none => c
  | fuel + 1, previous, some b =>
    if b = a then (c.linkActiveAfter previous (c.requests a).activeNext).setActiveNext a none
    else removeActiveLoop c a fuel (some b) (c.requests b).activeNext

/-- `dcc_rest_async_remove_active_locked`. -/
def removeActiveLocked (c : AsyncClient) (a : Addr) : AsyncClient :=
  c.removeActiveLoop a (c.allocated + 1) none c.activeHead

/-- `dcc_rest_request_is_active_locked`. -/
def isActiveLocked (c : AsyncClient) (target : Addr) : Bool :=
  walkMeets (fun a => (c.requests a).activeNext) target (c.allocated + 1) c.activeHead

/-- `dcc_rest_async_request_cancel`: the flag of the request. -/
def cancelRequest (c : AsyncClient) (a : Addr) : AsyncClient :=
  c.modify a fun request => { request with cancelRequested := true }

/-- The loop of `dcc_rest_async_cancel_active_locked`. -/
def cancelActiveLoop : Nat → AsyncClient → Option Addr → AsyncClient
  | 0, c, _ => c
  | _ + 1, c, none => c
  | fuel + 1, c, some a => cancelActiveLoop fuel (c.cancelRequest a) (c.requests a).activeNext

/-- `dcc_rest_async_cancel_active_locked`. -/
def cancelActiveLocked (c : AsyncClient) : AsyncClient :=
  cancelActiveLoop (c.allocated + 1) c c.activeHead

/-! ## Active routes -/

/-- `dcc_rest_async_mark_route_active_locked`. -/
def markRouteActive (activeRoutes : List RouteKey) (route : RouteKey) : Status × List RouteKey :=
  if route = RouteKey.empty then (.ok, activeRoutes)
  else if routeActive activeRoutes route then (.ok, activeRoutes)
  else if bucketCap ≤ activeRoutes.length then (.state, activeRoutes)
  else (.ok, activeRoutes ++ [route])

/-- `dcc_rest_async_unmark_route_active_locked`: the last route takes the place
of the removed one. -/
def unmarkRouteActive (activeRoutes : List RouteKey) (route : RouteKey) : List RouteKey :=
  if route = RouteKey.empty then activeRoutes
  else
    match activeRoutes.findIdx? (· = route), activeRoutes.getLast? with
    | some i, some last => (activeRoutes.set i last).dropLast
    | _, _ => activeRoutes

/-- The route of a request that has claimed it, given back. -/
def releaseRoute (c : AsyncClient) (a : Addr) : AsyncClient :=
  if (c.requests a).routeClaimed then
    { c with activeRoutes := unmarkRouteActive c.activeRoutes (c.requests a).route }.modify a
      fun request => { request with routeClaimed := false }
  else c

/-- `dcc_rest_async_finish_active_locked`. -/
def finishActiveLocked (c : AsyncClient) (a : Addr) : AsyncClient :=
  ({ c with active := if 0 < c.active then c.active - 1 else c.active }.removeActiveLocked a).releaseRoute a

/-! ## Draining -/

/-- What one round of the drain loop reads from outside the lock. -/
structure DrainInput where
  stopping : Bool
  now : Nat
  activateStats : RuntimeStats
  requeueStats : RuntimeStats
  spawns : Bool

/-- The outcome of a drain: `spawned` are the requests whose workers have been
started, `marks` the results of marking routes active. -/
structure DrainResult where
  client : AsyncClient
  status : Status
  rejected : Option Addr
  spawned : List Addr
  marks : List Status

/-- A drain that ends with no request in hand. -/
def DrainResult.done (c : AsyncClient) : DrainResult :=
  { client := c, status := .ok, rejected := none, spawned := [], marks := [] }

/-- A drain that goes on after the worker of `a` has been started. -/
def DrainResult.afterSpawn (a : Addr) (marks : List Status) (r : DrainResult) : DrainResult :=
  { r with spawned := a :: r.spawned, marks := marks ++ r.marks }

/-- The part of the drain that marks the route of a request active; a canceled
request marks none. -/
def markRequest (c : AsyncClient) (a : Addr) : Status × List RouteKey :=
  if (c.requests a).cancelRequested then (.ok, c.activeRoutes)
  else markRouteActive c.activeRoutes (c.requests a).route

/-- The part of the drain that makes a request active, once its route has been
marked. -/
def claimActive (c : AsyncClient) (a : Addr) (activeRoutes : List RouteKey) : AsyncClient :=
  let claimed := !(c.requests a).cancelRequested && (c.requests a).route != RouteKey.empty
  ({ c with activeRoutes := activeRoutes, active := c.active + 1 }.modify a
    fun request => { request with routeClaimed := claimed }).pushActiveLocked a

/-- The undoing of `claimActive` after a failed spawn. -/
def undoActive (c : AsyncClient) (a : Addr) : AsyncClient :=
  let c' := (c.removeActiveLocked a).releaseRoute a
  { c' with active := c'.active - 1 }

/-- The end of a drain whose request could not be started: a request that is
being admitted is handed back, any other returns to its place. -/
def giveBack (c : AsyncClient) (admission : Option Addr) (a : Addr) (position : QueuePosition)
    (requeueStats : RuntimeStats) (status : Status) (marks : List Status) : DrainResult :=
  if admission = some a then
    { client := c, status := status, rejected := some a, spawned := [], marks := marks }
  else
    let c' := c.modify a fun request =>
      { request with resource := (requeue requeueStats request.resource).2 }
    { client := c'.restoreLocked a position
      status := if admission.isSome then .ok else status
      rejected := none
      spawned := []
      marks := marks }

/-- The round of the drain loop with the request `a` in hand; `rest` are the
rounds after it. -/
def dispatch (c : AsyncClient) (admission : Option Addr) (a : Addr) (position : QueuePosition)
    (input : DrainInput) (rest : AsyncClient → DrainResult) : DrainResult :=
  let activation := activate c.resourceLimits input.activateStats (c.requests a).resource
  if activation.2.2 = false then .done (c.restoreLocked a position)
  else
    let c₁ := c.modify a fun request =>
      { request with resource := activation.2.1, routeClaimed := false }
    let mark := c₁.markRequest a
    let marks := if (c₁.requests a).cancelRequested then [] else [mark.1]
    if mark.1 ≠ .ok then giveBack c₁ admission a position input.requeueStats mark.1 marks
    else
      let c₂ := c₁.claimActive a mark.2
      if input.spawns then (rest c₂).afterSpawn a marks
      else giveBack (c₂.undoActive a) admission a position input.requeueStats .runtime marks

/-- The loop of `dcc_rest_async_drain_impl_locked`; the first argument is how
far the active count is below the concurrency. -/
def drainLoop (admission : Option Addr) : Nat → (Nat → DrainInput) → AsyncClient → DrainResult
  | 0, _, c => .done c
  | room + 1, inputs, c =>
    if (inputs 0).stopping then .done c
    else
      let r := c.takeNextLocked (inputs 0).now
      match r.2 with
      | none => .done r.1
      | some (a, position) =>
        r.1.dispatch admission a position (inputs 0)
          (drainLoop admission room fun n => inputs (n + 1))

/-- `dcc_rest_async_drain_impl_locked` on an initialized runtime. -/
def drainImplLocked (c : AsyncClient) (admission : Option Addr) (inputs : Nat → DrainInput) :
    DrainResult :=
  drainLoop admission (c.concurrency - c.active) inputs c

/-- `dcc_rest_async_drain_locked`. -/
def drainLocked (c : AsyncClient) (inputs : Nat → DrainInput) : DrainResult :=
  c.drainImplLocked none inputs

/-- `dcc_rest_async_drain_locked`, called once more where it fails. -/
def drainTwiceLocked (c : AsyncClient) (inputs againInputs : Nat → DrainInput) : DrainResult :=
  let r := c.drainLocked inputs
  if r.status = .ok then r
  else
    let r' := r.client.drainLocked againInputs
    { r' with spawned := r.spawned ++ r'.spawned, marks := r.marks ++ r'.marks }

end AsyncClient

end Dcc.Rest
