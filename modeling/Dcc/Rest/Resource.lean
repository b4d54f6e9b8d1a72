import Mathlib.Data.List.Basic
import Dcc.Basic

/-!
# Resource accounting of asynchronous requests

A client bounds what its asynchronous requests may hold: the number and the
bytes of queued requests, the bytes of active ones, and the bytes of responses
that have been copied but not delivered.  Every function here is one of
`rest_resource.c`, on the counters of the client and on the resource fields of
one request; each runs under the resource lock, so it is one step.

Counters are words: additions wrap at `2 ^ 64` and so do the subtractions of
the limit checks.
-/

namespace Dcc.Rest

/-- The limits of a client, as `dcc_client_create` accepts them. -/
structure ResourceLimits where
  maxQueuedRequests : Nat
  maxRequestBytes : Nat
  maxQueuedBytes : Nat
  maxActiveBytes : Nat
  maxResponseBytes : Nat
  queued_lt : maxQueuedBytes < wordSize
  active_lt : maxActiveBytes < wordSize
  request_le_queued : maxRequestBytes ≤ maxQueuedBytes
  request_add_response_le_active : maxRequestBytes + maxResponseBytes ≤ maxActiveBytes

/-- A limit option: zero asks for the default. -/
def limitValue (value default : Nat) : Nat := if value ≠ 0 then value else default

/-- The part of `dcc_client_create` that settles the resource limits. -/
def resourceLimitsOf (maxQueuedRequests maxRequestBytes maxQueuedBytes maxActiveBytes
    maxResponseBytes : Fin wordSize) : Option ResourceLimits :=
  let queuedRequests := limitValue maxQueuedRequests 4096
  let request := limitValue maxRequestBytes (32 * 1024 * 1024)
  let queued := limitValue maxQueuedBytes (128 * 1024 * 1024)
  let active := limitValue maxActiveBytes (128 * 1024 * 1024)
  let response := limitValue maxResponseBytes (32 * 1024 * 1024)
  if h : queued < wordSize ∧ active < wordSize ∧ request ≤ queued ∧ request + response ≤ active then
    some
      { maxQueuedRequests := queuedRequests
        maxRequestBytes := request
        maxQueuedBytes := queued
        maxActiveBytes := active
        maxResponseBytes := response
        queued_lt := h.1
        active_lt := h.2.1
        request_le_queued := h.2.2.1
        request_add_response_le_active := h.2.2.2 }
  else none

/-- The REST counters of `dcc_rest_runtime_stats_t`. -/
structure RuntimeStats where
  queuedRequests : Nat
  queuedRequestsHighWater : Nat
  activeRequests : Nat
  activeRequestsHighWater : Nat
  completedRequests : Nat
  canceledRequests : Nat
  retriedRequests : Nat
  rateLimitedRequests : Nat
  admissionRejections : Nat
  queuedRequestBytes : Nat
  queuedRequestBytesHighWater : Nat
  activeRequestBytes : Nat
  activeRequestBytesHighWater : Nat
  responseBytes : Nat
  responseBytesHighWater : Nat
  rejectedQueuedRequests : Nat
  rejectedRequestBytes : Nat
  rejectedQueuedBytes : Nat
  rejectedActiveBytes : Nat
  rejectedResponseBytes : Nat
  deriving DecidableEq, Repr

/-- The counters of a new client. -/
def RuntimeStats.zero : RuntimeStats :=
  ⟨0, 0, 0, 0, 0, 0, 0, 0, 0, 0, 0, 0, 0, 0, 0, 0, 0, 0, 0, 0⟩

/-- `high_water`. -/
def highWater (value watermark : Nat) : Nat := if watermark < value then value else watermark

/-- A counter lowered by one, where it is not zero. -/
def decrementOne (value : Nat) : Nat := if value ≠ 0 then value - 1 else value

/-- A byte counter lowered by a charge, where it covers the charge. -/
def decrementBytes (value charge : Nat) : Nat := if charge ≤ value then value - charge else value

/-- `resource_state` of a request: 0, 1, 2. -/
inductive ResourceState
  | released
  | queued
  | active
  deriving DecidableEq, Repr

/-- The resource fields of a request. -/
structure ResourceTag where
  resourceCharge : Nat
  resourceState : ResourceState
  countCompletion : Bool
  deriving DecidableEq, Repr

/-- `dcc_rest_resource_reserve_queued`. -/
def reserveQueued (limits : ResourceLimits) (stats : RuntimeStats) (charge : Nat) :
    Status × RuntimeStats :=
  if charge = 0 then (.invalidArg, stats)
  else if limits.maxRequestBytes < charge then
    (.resourceLimit, { stats with
        rejectedRequestBytes := increment stats.rejectedRequestBytes
        admissionRejections := increment stats.admissionRejections })
  else if limits.maxQueuedRequests ≤ stats.queuedRequests then
    (.resourceLimit, { stats with
        rejectedQueuedRequests := increment stats.rejectedQueuedRequests
        admissionRejections := increment stats.admissionRejections })
  else if wordSub limits.maxQueuedBytes stats.queuedRequestBytes < charge then
    (.resourceLimit, { stats with
        rejectedQueuedBytes := increment stats.rejectedQueuedBytes
        admissionRejections := increment stats.admissionRejections })
  else
    let requests := wordAdd stats.queuedRequests 1
    let bytes := wordAdd stats.queuedRequestBytes charge
    (.ok, { stats with
        queuedRequests := requests
        queuedRequestBytes := bytes
        queuedRequestsHighWater := highWater requests stats.queuedRequestsHighWater
        queuedRequestBytesHighWater := highWater bytes stats.queuedRequestBytesHighWater })

/-- `dcc_rest_resource_release_unpublished`. -/
def releaseUnpublished (stats : RuntimeStats) (charge : Nat) : RuntimeStats :=
  if charge = 0 then stats
  else
    { stats with
      queuedRequests := decrementOne stats.queuedRequests
      queuedRequestBytes := decrementBytes stats.queuedRequestBytes charge }

/-- `dcc_rest_resource_activate`. -/
def activate (limits : ResourceLimits) (stats : RuntimeStats) (tag : ResourceTag) :
    RuntimeStats × ResourceTag × Bool :=
  if tag.resourceState ≠ .queued then (stats, tag, false)
  else if wordSub limits.maxActiveBytes stats.activeRequestBytes < tag.resourceCharge then
    ({ stats with rejectedActiveBytes := increment stats.rejectedActiveBytes }, tag, false)
  else
    let requests := wordAdd stats.activeRequests 1
    let bytes := wordAdd stats.activeRequestBytes tag.resourceCharge
    ({ stats with
        queuedRequests := decrementOne stats.queuedRequests
        queuedRequestBytes := decrementBytes stats.queuedRequestBytes tag.resourceCharge
        activeRequests := requests
        activeRequestBytes := bytes
        activeRequestsHighWater := highWater requests stats.activeRequestsHighWater
        activeRequestBytesHighWater := highWater bytes stats.activeRequestBytesHighWater },
      { tag with resourceState := .active }, true)

/-- `dcc_rest_resource_requeue`: no limit is looked at. -/
def requeue (stats : RuntimeStats) (tag : ResourceTag) : RuntimeStats × ResourceTag :=
  if tag.resourceState ≠ .active then (stats, tag)
  else
    ({ stats with
        activeRequests := decrementOne stats.activeRequests
        activeRequestBytes := decrementBytes stats.activeRequestBytes tag.resourceCharge
        queuedRequests := wordAdd stats.queuedRequests 1
        queuedRequestBytes := wordAdd stats.queuedRequestBytes tag.resourceCharge
        retriedRequests := increment stats.retriedRequests },
      { tag with resourceState := .queued })

/-- The completion counters of `dcc_rest_resource_release_request`. -/
def countRelease (stats : RuntimeStats) (tag : ResourceTag) (cancelRequested : Bool) :
    RuntimeStats :=
  if tag.countCompletion then
    { stats with
      completedRequests := increment stats.completedRequests
      canceledRequests :=
        if cancelRequested then increment stats.canceledRequests else stats.canceledRequests }
  else stats

/-- `dcc_rest_resource_release_request`. -/
def releaseRequest (stats : RuntimeStats) (tag : ResourceTag) (cancelRequested : Bool) :
    RuntimeStats × ResourceTag :=
  match tag.resourceState with
  | .released => (stats, tag)
  | .queued =>
    (countRelease
      { stats with
        queuedRequests := decrementOne stats.queuedRequests
        queuedRequestBytes := decrementBytes stats.queuedRequestBytes tag.resourceCharge }
      tag cancelRequested,
      { tag with resourceState := .released })
  | .active =>
    (countRelease
      { stats with
        activeRequests := decrementOne stats.activeRequests
        activeRequestBytes := decrementBytes stats.activeRequestBytes tag.resourceCharge }
      tag cancelRequested,
      { tag with resourceState := .released })

/-- `dcc_rest_resource_reserve_response`. -/
def reserveResponse (limits : ResourceLimits) (stats : RuntimeStats) (bytes : Nat) :
    Status × RuntimeStats :=
  if bytes = 0 then (.ok, stats)
  else if limits.maxResponseBytes < bytes ∨
      wordSub limits.maxActiveBytes stats.activeRequestBytes < bytes then
    (.resourceLimit, { stats with rejectedResponseBytes := increment stats.rejectedResponseBytes })
  else
    let response := wordAdd stats.responseBytes bytes
    let active := wordAdd stats.activeRequestBytes bytes
    (.ok, { stats with
        responseBytes := response
        activeRequestBytes := active
        responseBytesHighWater := highWater response stats.responseBytesHighWater
        activeRequestBytesHighWater := highWater active stats.activeRequestBytesHighWater })

/-- `dcc_rest_resource_release_response`. -/
def releaseResponse (stats : RuntimeStats) (bytes : Nat) : RuntimeStats :=
  if bytes = 0 then stats
  else
    { stats with
      responseBytes := decrementBytes stats.responseBytes bytes
      activeRequestBytes := decrementBytes stats.activeRequestBytes bytes }

/-- `dcc_rest_resource_record_rate_limit`. -/
def recordRateLimit (stats : RuntimeStats) : RuntimeStats :=
  { stats with rateLimitedRequests := increment stats.rateLimitedRequests }

end Dcc.Rest
