import Mathlib.Data.List.Basic
import Dcc.Basic

/-!
# The rate-limit table of a client

A client keeps what the server said about its rate limits in a table of 128
buckets, one for a route key, together with the end of a global limit.  A
bucket may carry the bucket hash of the server; routes whose buckets carry one
hash share one limit.

* `updateRateLimit` is `dcc_rest_update_rate_limit`: it finds or makes the
  bucket of the route, writes what the response says, and copies the result to
  the buckets with the same hash;
* `routeWaitMsLocked` is `dcc_rest_route_wait_ms_locked`: the time a request of
  the route has to wait, and the table with expired limits lifted.

A response is given by the headers the two functions read, already parsed:
`resetAfterMs` is the larger of `Retry-After` and `X-RateLimit-Reset-After`,
rounded to milliseconds.
-/

namespace Dcc.Rest

/-- `DCC_REST_BUCKET_CAP`. -/
def bucketCap : Nat := 128

/-- `DCC_REST_ROUTE_KEY_CAP`, the size of the buffers for route keys and bucket
hashes. -/
def routeKeyCap : Nat := 160

/-- The C string in a buffer: the bytes before the first NUL. -/
def cString (buf : Bytes) : Bytes := buf.takeWhile (· != 0)

/-- A route key, as `dcc_rest_route_key` leaves it in its buffer. -/
structure RouteKey where
  text : Bytes
  fits : text.length < routeKeyCap
  noNul : (0 : UInt8) ∉ text
  deriving DecidableEq

/-- The key of a zeroed buffer; requests without one run on no route. -/
def RouteKey.empty : RouteKey := ⟨[], by decide, by decide⟩

/-- `dcc_rest_bucket_t`. -/
structure Bucket where
  route : RouteKey
  bucket : Bytes
  remaining : Nat
  resetAtMs : Nat
  active : Bool
  deriving DecidableEq

/-- A bucket after `memset`. -/
def Bucket.zero : Bucket :=
  { route := RouteKey.empty, bucket := [], remaining := 0, resetAtMs := 0, active := false }

/-- The rate-limit part of `dcc_client_t`. -/
structure RateLimits where
  buckets : List Bucket
  globalResetAtMs : Nat
  size_eq : buckets.length = bucketCap

/-- The table of a new client. -/
def RateLimits.init : RateLimits :=
  { buckets := List.replicate bucketCap Bucket.zero
    globalResetAtMs := 0
    size_eq := List.length_replicate }

/-- The headers of a response that bear on rate limits. -/
structure Response where
  status : Nat
  remaining : Option Nat
  resetAfterMs : Nat
  bucketHash : Option Bytes
  isGlobal : Bool
  deriving DecidableEq

/-! ## Looking up a bucket -/

/-- The local variables of the search: the first free slot, and the bucket with
the earliest reset time with that time. -/
structure Slots where
  freeSlot : Option Nat
  oldest : Nat
  oldestReset : Nat

/-- The slot a new bucket is made in. -/
def Slots.victim (slots : Slots) : Nat := slots.freeSlot.getD slots.oldest

/-- What the search comes back with. -/
inductive Lookup
  | found (index : Nat)
  | missing (slots : Slots)

/-- The loop of `dcc_rest_find_bucket_locked`, with `index` the position of the
first bucket of the list. -/
def findLoop (route : RouteKey) : List Bucket → Nat → Slots → Lookup
  | [], _, slots => .missing slots
  | b :: bs, index, slots =>
    if b.active then
      if b.route = route then .found index
      else if b.resetAtMs < slots.oldestReset then
        findLoop route bs (index + 1) { slots with oldest := index, oldestReset := b.resetAtMs }
      else findLoop route bs (index + 1) slots
    else if slots.freeSlot = none then
      findLoop route bs (index + 1) { slots with freeSlot := some index }
    else findLoop route bs (index + 1) slots

/-- The search of `dcc_rest_find_bucket_locked`; `oldest` starts at the first
bucket. -/
def lookup (route : RouteKey) (buckets : List Bucket) : Lookup :=
  findLoop route buckets 0
    { freeSlot := none, oldest := 0, oldestReset := (buckets.headD Bucket.zero).resetAtMs }

/-- A bucket made for a route. -/
def Bucket.fresh (route : RouteKey) : Bucket :=
  { Bucket.zero with route := route, remaining := 1, active := true }

/-- `dcc_rest_find_bucket_locked` without creation. -/
def findBucket (route : RouteKey) (buckets : List Bucket) : Option Nat :=
  match lookup route buckets with
  | .found index => some index
  | .missing _ => none

/-- `dcc_rest_find_bucket_locked` with creation: the table and the position of
the route's bucket in it. -/
def findOrCreateBucket (route : RouteKey) (buckets : List Bucket) : List Bucket × Nat :=
  match lookup route buckets with
  | .found index => (buckets, index)
  | .missing slots => (buckets.set slots.victim (Bucket.fresh route), slots.victim)

/-! ## Responses -/

/-- `dcc_rest_bucket_set_hash`. -/
def Bucket.setHash (b : Bucket) (hash : Option Bytes) : Bucket :=
  match hash with
  | none => b
  | some h => if h = [] then b else { b with bucket := cString (h.take (routeKeyCap - 1)) }

/-- `dcc_rest_bucket_hash_matches`. -/
def Bucket.hashMatches (b : Bucket) (hash : Bytes) : Bool := hash != [] && b.bucket == hash

/-- The limit a response leaves in a bucket. -/
def Bucket.setLimit (b : Bucket) (response : Response) (resetAtMs : Nat) : Bucket :=
  if response.status = 429 then { b with remaining := 0, resetAtMs := resetAtMs }
  else
    match response.remaining with
    | none => b
    | some remaining =>
      if remaining = 0 ∧ resetAtMs ≠ 0 then
        { b with remaining := remaining, resetAtMs := resetAtMs }
      else if 0 < remaining then { b with remaining := remaining, resetAtMs := 0 }
      else { b with remaining := remaining }

/-- The limit of `source`, copied to a bucket with the same hash. -/
def Bucket.follow (source related : Bucket) : Bucket :=
  if related.active && related.hashMatches source.bucket then
    { related with remaining := source.remaining, resetAtMs := source.resetAtMs }
  else related

/-- The loop of `dcc_rest_update_rate_limit` over the related buckets. -/
def propagate (index : Nat) (source : Bucket) (buckets : List Bucket) : List Bucket :=
  buckets.mapIdx fun i related => if i = index then related else source.follow related

/-- The reset time a response announces, zero where it announces none. -/
def Response.resetAtMs (response : Response) (now : Nat) : Nat :=
  if response.resetAfterMs ≠ 0 then addMs now response.resetAfterMs else 0

/-- Whether a response says anything about its route's bucket. -/
def Response.concernsBucket (response : Response) (now : Nat) : Bool :=
  response.status == 429 || response.remaining.isSome || response.resetAtMs now != 0 ||
    response.bucketHash.isSome

/-- What a response of `route` writes to the buckets. -/
def recordBuckets (route : RouteKey) (response : Response) (now : Nat) (buckets : List Bucket) :
    List Bucket :=
  let (table, index) := findOrCreateBucket route buckets
  match table[index]? with
  | none => table
  | some b =>
    let source := (b.setHash response.bucketHash).setLimit response (response.resetAtMs now)
    propagate index source (table.set index source)

theorem length_findOrCreateBucket (route : RouteKey) (buckets : List Bucket) :
    (findOrCreateBucket route buckets).1.length = buckets.length := by
  unfold findOrCreateBucket
  split
  · rfl
  · exact List.length_set

theorem length_recordBuckets (route : RouteKey) (response : Response) (now : Nat)
    (buckets : List Bucket) :
    (recordBuckets route response now buckets).length = buckets.length := by
  have hlen := length_findOrCreateBucket route buckets
  unfold recordBuckets
  simp only
  split
  · exact hlen
  · simp only [propagate, List.length_mapIdx, List.length_set, hlen]

/-- `dcc_rest_update_rate_limit` with the clock reading `now`. -/
def updateRateLimit (limits : RateLimits) (route : RouteKey) (response : Response) (now : Nat) :
    RateLimits :=
  { buckets :=
      if response.concernsBucket now then recordBuckets route response now limits.buckets
      else limits.buckets
    globalResetAtMs :=
      if response.isGlobal && response.resetAtMs now != 0 then response.resetAtMs now
      else limits.globalResetAtMs
    size_eq := by
      split
      · rw [length_recordBuckets, limits.size_eq]
      · exact limits.size_eq }

/-! ## Waiting -/

/-- The wait `dcc_rest_bucket_collect_wait` adds to `waitMs`. -/
def Bucket.waitMs (b : Bucket) (now waitMs : Nat) : Nat :=
  if b.remaining = 0 ∧ now < b.resetAtMs ∧ waitMs < b.resetAtMs - now then b.resetAtMs - now
  else waitMs

/-- What `dcc_rest_bucket_collect_wait` leaves of the bucket: an expired limit
is lifted where the caller asks for it. -/
def Bucket.lift (b : Bucket) (now : Nat) (resetExpired : Bool) : Bucket :=
  if b.remaining = 0 ∧ b.resetAtMs ≤ now ∧ resetExpired then
    { b with remaining := 1, resetAtMs := 0 }
  else b

/-- The loop of `dcc_rest_route_wait_ms_locked` over the related buckets. -/
def collectRelated (hash : Bytes) (now : Nat) (resetExpired : Bool) :
    List Bucket → Nat → List Bucket × Nat
  | [], waitMs => ([], waitMs)
  | b :: bs, waitMs =>
    if b.active && b.hashMatches hash then
      let r := collectRelated hash now resetExpired bs (b.waitMs now waitMs)
      (b.lift now resetExpired :: r.1, r.2)
    else
      let r := collectRelated hash now resetExpired bs waitMs
      (b :: r.1, r.2)

/-- The wait for the end of the global limit. -/
def RateLimits.globalWaitMs (limits : RateLimits) (now : Nat) : Nat :=
  if now < limits.globalResetAtMs then limits.globalResetAtMs - now else 0

/-- The buckets and the wait of `dcc_rest_route_wait_ms_locked`, from a wait of
`waitMs`. -/
def collectWait (route : RouteKey) (now : Nat) (resetExpired : Bool) (buckets : List Bucket)
    (waitMs : Nat) : List Bucket × Nat :=
  match findBucket route buckets with
  | none => (buckets, waitMs)
  | some index =>
    match buckets[index]? with
    | none => (buckets, waitMs)
    | some b =>
      let table := buckets.set index (b.lift now resetExpired)
      if b.bucket ≠ [] then collectRelated b.bucket now resetExpired table (b.waitMs now waitMs)
      else (table, b.waitMs now waitMs)

theorem length_collectRelated (hash : Bytes) (now : Nat) (resetExpired : Bool) :
    ∀ (buckets : List Bucket) (waitMs : Nat),
      (collectRelated hash now resetExpired buckets waitMs).1.length = buckets.length
  | [], _ => rfl
  | b :: bs, waitMs => by
      simp only [collectRelated]
      split
      · simp only [List.length_cons, length_collectRelated hash now resetExpired bs]
      · simp only [List.length_cons, length_collectRelated hash now resetExpired bs]

theorem length_collectWait (route : RouteKey) (now : Nat) (resetExpired : Bool)
    (buckets : List Bucket) (waitMs : Nat) :
    (collectWait route now resetExpired buckets waitMs).1.length = buckets.length := by
  unfold collectWait
  split
  · rfl
  · split
    · rfl
    · simp only
      split
      · rw [length_collectRelated, List.length_set]
      · exact List.length_set

/-- `dcc_rest_route_wait_ms_locked`: the table afterwards and the wait. -/
def routeWaitMsLocked (limits : RateLimits) (route : RouteKey) (now : Nat) (resetExpired : Bool) :
    RateLimits × Nat :=
  ({ buckets :=
       (collectWait route now resetExpired limits.buckets (limits.globalWaitMs now)).1
     globalResetAtMs := limits.globalResetAtMs
     size_eq := by rw [length_collectWait, limits.size_eq] },
   (collectWait route now resetExpired limits.buckets (limits.globalWaitMs now)).2)

end Dcc.Rest
