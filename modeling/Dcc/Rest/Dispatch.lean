import Mathlib.Data.List.Nodup
import Mathlib.Data.List.Perm.Subperm
import Dcc.Rest.AsyncDelivery
import Dcc.Rest.LimitHeld

/-!
# Limited routes are not dispatched

`takeNextLocked` passes over the requests of a limited bucket.  It asks the table
for the wait of one pending request after another and stops at the first that is
canceled or does not have to wait:

* `takeFrom_spec` says so, and that a take does nothing to the table but wait;
* `dispatch_waits`: while the responses spare a limit, no take before its end
  returns a request of the route, or of a route that shares its bucket, unless
  the request is canceled;
* `limit_forgotten`: the ways in which a table forgets a limit before its end;
* `limits_sound`: the table of the client is one of such calls, and keeps their invariants.
-/

namespace Dcc.Rest

variable {limits : RateLimits} {route route' : RouteKey} {now resetAtMs : Nat} {response : Response}

/-! ## Takes -/

namespace AsyncClient

variable {client client' : AsyncClient} {a : Addr} {position : QueuePosition}

/-- The waits that a take at `now` asks for. -/
def waits (now : Nat) (routes : List RouteKey) : List RateOp :=
  routes.map fun route => .wait route now true

theorem runOps_waits_append (limits : RateLimits) (now : Nat) (routes routes' : List RouteKey) :
    runOps limits (waits now (routes ++ routes')) =
      runOps (runOps limits (waits now routes)) (waits now routes') := by
  rw [waits, List.map_append, runOps, List.foldl_append]
  rfl

theorem requestWaitMsLocked_fst (limits : RateLimits) (request : AsyncRequest) (now : Nat)
    (resetExpired : Bool) :
    (requestWaitMsLocked limits request now resetExpired).1 =
      (routeWaitMsLocked limits request.route now resetExpired).1 := by
  unfold requestWaitMsLocked
  simp only
  split <;> rfl

theorem routeWait_of_requestWait {request : AsyncRequest} {resetExpired : Bool}
    (h : (requestWaitMsLocked limits request now resetExpired).2 = 0) :
    (routeWaitMsLocked limits request.route now resetExpired).2 = 0 := by
  unfold requestWaitMsLocked at h
  simp only at h
  split at h
  · omega
  · exact h

/-- **What the inner loop of a take does**: it asks for waits, and stops at a
request that is canceled or was told not to wait. -/
theorem scanPending_spec (client : AsyncClient) (now fuel : Nat) (limits : RateLimits)
    (previous link : Option Addr) :
    ∃ routes, (client.scanPending now fuel limits previous link).1 =
        runOps limits (waits now routes) ∧
      ∀ previous' a, (client.scanPending now fuel limits previous link).2 = some (previous', a) →
        (client.requests a).cancelRequested = false →
        ∃ routes, (routeWaitMsLocked (runOps limits (waits now routes))
          (client.requests a).route now true).2 = 0 := by
  induction fuel generalizing limits previous link with
  | zero => exact ⟨[], rfl, fun _ _ hfound => by cases hfound⟩
  | succ fuel ih =>
    cases link with
    | none => exact ⟨[], rfl, fun _ _ hfound => by cases hfound⟩
    | some b =>
      simp only [scanPending]
      split
      · rename_i hcanceled
        refine ⟨[], rfl, fun previous' a ha hlive => ?_⟩
        cases ha
        rw [hcanceled] at hlive
        cases hlive
      · split
        · exact ih limits (some b) (client.requests b).next
        · have htable : (requestWaitMsLocked limits (client.requests b) now true).1 =
              runOps limits (waits now [(client.requests b).route]) :=
            requestWaitMsLocked_fst _ _ _ _
          split
          · rename_i hready
            refine ⟨_, htable, fun previous' a ha _ => ⟨[], ?_⟩⟩
            cases ha
            exact routeWait_of_requestWait hready
          · obtain ⟨routes, hroutes, hready⟩ :=
              ih (requestWaitMsLocked limits (client.requests b) now true).1 (some b)
                (client.requests b).next
            rw [htable] at hroutes hready
            refine ⟨(client.requests b).route :: routes, ?_, fun previous' a ha hlive => ?_⟩
            · rw [htable, hroutes]
              exact (runOps_waits_append _ _ [_] _).symm
            · rw [htable] at ha
              obtain ⟨routes', hroutes'⟩ := hready previous' a ha hlive
              refine ⟨(client.requests b).route :: routes', ?_⟩
              rw [← hroutes']
              exact congrArg (fun limits => (routeWaitMsLocked limits _ now true).2)
                (runOps_waits_append _ _ [_] _)

theorem linkAfter_limits (client : AsyncClient) (priority : Priority) (previous next : Option Addr) :
    (client.linkAfter priority previous next).limits = client.limits := by
  unfold linkAfter
  split <;> rfl

theorem unlinkPending_limits (client : AsyncClient) (priority : Priority) (previous : Option Addr)
    (a : Addr) : (client.unlinkPending priority previous a).limits = client.limits := by
  have hlimits := linkAfter_limits client priority previous (client.requests a).next
  unfold unlinkPending
  simp only
  split
  · exact hlimits
  · exact hlimits

theorem takeFrom_spec (now : Nat) (priorities : List Priority) (client : AsyncClient) :
    (∃ routes, (takeFrom now priorities client).1.limits =
        runOps client.limits (waits now routes)) ∧
      ∀ a position, (takeFrom now priorities client).2 = some (a, position) →
        (client.requests a).cancelRequested = false →
        ∃ routes, (routeWaitMsLocked (runOps client.limits (waits now routes))
          (client.requests a).route now true).2 = 0 := by
  induction priorities generalizing client with
  | nil => exact ⟨⟨[], rfl⟩, nofun⟩
  | cons priority priorities ih =>
    obtain ⟨routes, hroutes, hready⟩ := scanPending_spec client now (client.allocated + 1)
      client.limits none (client.heads priority)
    simp only [takeFrom]
    split
    · obtain ⟨⟨routes', hroutes'⟩, hready'⟩ := ih { client with limits :=
        (client.scanPending now (client.allocated + 1) client.limits none
          (client.heads priority)).1 }
      simp only [hroutes, ← runOps_waits_append] at hroutes' hready'
      refine ⟨⟨routes ++ routes', ?_⟩, fun a position ha hlive => ?_⟩
      · simpa only [hroutes] using hroutes'
      · simp only [hroutes] at ha
        obtain ⟨routes'', hwait⟩ := hready' a position ha hlive
        exact ⟨routes ++ routes'', hwait⟩
    · rename_i previous b hfound
      refine ⟨⟨routes, ?_⟩, fun a position ha hlive => ?_⟩
      · rw [unlinkPending_limits]
        exact hroutes
      · cases ha
        exact hready previous b hfound hlive

theorem limitHeld_waits (h : LimitHeld limits route resetAtMs) (hnow : now < resetAtMs)
    (routes : List RouteKey) :
    LimitHeld (runOps limits (waits now routes)) route resetAtMs ∧
      ∀ route', (runOps limits (waits now routes)).shares route' route =
        limits.shares route' route := by
  induction routes generalizing limits with
  | nil => exact ⟨h, fun _ => rfl⟩
  | cons waiting routes ih =>
    have hspares : limits.Spares route resetAtMs (.wait waiting now true) := trivial
    obtain ⟨hheld, hshares⟩ := ih (h.apply hspares hnow)
    refine ⟨hheld, fun route' => ?_⟩
    exact (hshares route').trans (shares_wait h.distinct _ _)

/-- The routes `1`, `2` and so on, up to 255 of them. -/
def numbered (i : Nat) : RouteKey where
  text := [UInt8.ofNat (i % 255 + 1)]
  fits := by simp [routeKeyCap]
  noNul := by
    intro hzero
    have hval := congrArg UInt8.toNat (List.mem_singleton.mp hzero)
    simp at hval
    omega

/-- **Limited routes are not dispatched.**  A response says that `route` is used
up until a reset time.  Whatever the calls on the table before and after it are,
as long as the later ones spare the limit and the clock does not run backwards,
a take before the reset time returns no request of `route`, and none of a route
that shares its bucket, unless the request is canceled. -/
theorem dispatch_waits (before after : List RateOp) (route : RouteKey) (response : Response)
    (recordedAt : Nat) (client : AsyncClient) (now : Nat) (hlimit : response.isLimit = true)
    (hreset : response.resetAtMs recordedAt ≠ 0)
    (hspared : Spared route (response.resetAtMs recordedAt)
      (updateRateLimit (runOps RateLimits.init before) route response recordedAt) after)
    (hclient : client.limits =
      runOps (updateRateLimit (runOps RateLimits.init before) route response recordedAt) after)
    (hclock : ∀ op ∈ after, op.reading ≤ now) (hnow : now < response.resetAtMs recordedAt) :
    ∀ a position, (client.takeNextLocked now).2 = some (a, position) →
      (client.requests a).cancelRequested = false →
      client.limits.shares (client.requests a).route route = false := by
  intro a position ha hlive
  have hdistinct := distinct_runOps distinct_init before
  have hrecorded : LimitHeld
      (updateRateLimit (runOps RateLimits.init before) route response recordedAt) route
      (response.resetAtMs recordedAt) :=
    ⟨coherent_apply (coherent_runOps coherent_init before) (.update route response recordedAt),
      distinct_apply hdistinct (.update route response recordedAt),
      limitedUntil_record hdistinct hlimit hreset⟩
  have hheld := hrecorded.run hspared fun op hop => Nat.lt_of_le_of_lt (hclock op hop) hnow
  rw [← hclient] at hheld
  obtain ⟨routes, hwait⟩ := (takeFrom_spec now _ client).2 a position ha hlive
  obtain ⟨hheld', hshares⟩ := limitHeld_waits hheld hnow routes
  by_contra hshared
  rw [Bool.not_eq_false, ← hshares] at hshared
  have hpos := hheld'.wait_pos hnow hshared true
  omega

/-- Two requests are pending, of a route that is limited until 1000 and of
another: the second one is taken. -/
theorem dispatch_waits_two_routes :
    let limits := runOps
      (updateRateLimit RateLimits.init (numbered 0) ⟨429, none, 1000, some [0x68], false⟩ 0)
      [.update (numbered 1) ⟨200, some 3, 50, some [0x69], false⟩ 5, .wait (numbered 0) 6 true]
    let client := { AsyncClient.init 1 ⟨1, 1, 1, 2, 1, by decide, by decide, by decide, by decide⟩ with
      requests := fun a =>
        { AsyncRequest.new .normal (numbered a) 1 with next := if a = 0 then some 1 else none }
      allocated := 2
      heads := fun priority => if priority = Priority.normal then some 0 else none
      tails := fun priority => if priority = Priority.normal then some 1 else none
      limits := limits }
    (client.takeNextLocked 10).2 = some (1, ⟨.normal, some 0, none⟩) ∧
      limits.shares (numbered 1) (numbered 0) = false := by
  intro limits client
  have htaken : (client.takeNextLocked 10).2 = some (1, ⟨.normal, some 0, none⟩) := by decide +kernel
  refine ⟨htaken, ?_⟩
  exact dispatch_waits []
    [.update (numbered 1) ⟨200, some 3, 50, some [0x69], false⟩ 5, .wait (numbered 0) 6 true]
    (numbered 0) ⟨429, none, 1000, some [0x68], false⟩ 0 client 10 rfl (by decide)
    (by decide +kernel) rfl (by decide) (by decide) 1 _ htaken rfl

/-! ## Limits that are forgotten -/

/-- A client with the table `limits` and one request, of `route`, that is pending. -/
def waiting (route : RouteKey) (limits : RateLimits) : AsyncClient :=
  { AsyncClient.init 1 ⟨1, 1, 1, 2, 1, by decide, by decide, by decide, by decide⟩ with
    requests := fun _ => AsyncRequest.new .normal route 1
    allocated := 1
    limits := limits }.pushTailLocked 0

theorem take_waiting (h : (routeWaitMsLocked limits route now true).2 = 0) :
    ((waiting route limits).takeNextLocked now).2 = some (0, ⟨.normal, none, none⟩) := by
  have hrequest : (waiting route limits).requests 0 = AsyncRequest.new .normal route 1 := by
    simp [waiting, pushTailLocked, linkAfter, setNext, setHead, setTail, modify, AsyncClient.init,
      AsyncRequest.new]
  have hwait : (requestWaitMsLocked limits (AsyncRequest.new .normal route 1) now true).2 = 0 := by
    simpa [requestWaitMsLocked, AsyncRequest.new] using h
  have hhigh : (waiting route limits).heads .high = none := rfl
  have hnormal : (waiting route limits).heads .normal = some 0 := rfl
  have hlimits : (waiting route limits).limits = limits := rfl
  have hroutes : (waiting route limits).activeRoutes = [] := rfl
  have hlive : (AsyncRequest.new .normal route 1).cancelRequested = false := rfl
  have hnext : (AsyncRequest.new .normal route 1).next = none := rfl
  simp [takeNextLocked, takeFrom, hhigh, scanPending, hnormal, hrequest, hlive, hlimits, hroutes,
    routeActive, hwait, hnext]

theorem length_le_bucketCap {routes : List RouteKey} (hnodup : routes.Nodup)
    (hroutes : ∀ route ∈ routes, limits.bucketOf route ≠ none) : routes.length ≤ bucketCap := by
  have hsubset : routes ⊆ limits.buckets.map Bucket.route := by
    intro route hroute
    obtain ⟨b, hb⟩ := Option.ne_none_iff_exists'.mp (hroutes route hroute)
    obtain ⟨i, -, hget, -, heq⟩ := bucketOf_some hb
    exact List.mem_map.mpr ⟨b, List.mem_of_getElem? hget, heq⟩
  have hlength := (hnodup.subperm hsubset).length_le
  rwa [List.length_map, limits.size_eq] at hlength

theorem routeWait_of_none (h : limits.bucketOf route = none) (resetExpired : Bool) :
    (routeWaitMsLocked limits route now resetExpired).2 = limits.globalWaitMs now := by
  have hfind : findBucket route limits.buckets = none := by
    cases hfind : findBucket route limits.buckets with
    | none => rfl
    | some index =>
      obtain ⟨b, hb, -⟩ := findBucket_some hfind
      simp [RateLimits.bucketOf, hfind, hb] at h
  simp [routeWaitMsLocked, collectWait, hfind]

theorem numbered_injOn {i j : Nat} (hi : i < 255) (hj : j < 255) (h : numbered i = numbered j) :
    i = j := by
  have hval := congrArg (fun route => (route.text.headD 0).toNat) h
  simp [numbered] at hval
  omega

/-- Responses that say that each of the given routes is limited until 1000. -/
def limitAll (routes : List RouteKey) : List RateOp :=
  routes.map fun route => .update route ⟨429, none, 1000, none, false⟩ 0

theorem globalResetAtMs_limitAll (routes : List RouteKey) :
    (runOps limits (limitAll routes)).globalResetAtMs = limits.globalResetAtMs := by
  induction routes generalizing limits with
  | nil => rfl
  | cons route routes ih => exact ih.trans (by simp [RateOp.apply, updateRateLimit])

theorem forgotten_of_full :
    ∃ route ∈ (List.range 129).map numbered, ((waiting route (runOps RateLimits.init
        (limitAll ((List.range 129).map numbered)))).takeNextLocked 200).2 =
          some (0, ⟨.normal, none, none⟩) := by
  by_contra hnone
  push Not at hnone
  have hnodup : ((List.range 129).map numbered).Nodup := by
    refine List.Nodup.map_on (fun i hi j hj => ?_) List.nodup_range
    rw [List.mem_range] at hi hj
    exact numbered_injOn (by omega) (by omega)
  have hlength := length_le_bucketCap hnodup fun route hroute hmissing => by
    refine hnone route hroute (take_waiting ?_)
    rw [routeWait_of_none hmissing, RateLimits.globalWaitMs, globalResetAtMs_limitAll]
    rfl
  simp [bucketCap] at hlength

/-- **The table forgets limits.**  A route limited until 1000 is taken at 200
after a second limit of the same bucket that ends at 150; after a response
without a limit that makes a new route share its bucket; and, of 129 routes that
are limited at the same time, one is taken because its bucket was evicted. -/
theorem limit_forgotten :
    ((waiting (numbered 0) (runOps RateLimits.init
        [.update (numbered 0) ⟨429, none, 1000, none, false⟩ 0,
          .update (numbered 0) ⟨429, none, 100, none, false⟩ 50])).takeNextLocked 200).2 =
      some (0, ⟨.normal, none, none⟩) ∧
    ((waiting (numbered 0) (runOps RateLimits.init
        [.update (numbered 0) ⟨429, none, 1000, some [0x68], false⟩ 0,
          .update (numbered 1) ⟨200, none, 0, some [0x68], false⟩ 50])).takeNextLocked 200).2 =
      some (0, ⟨.normal, none, none⟩) ∧
    (∃ route ∈ (List.range 129).map numbered, ((waiting route (runOps RateLimits.init
        (limitAll ((List.range 129).map numbered)))).takeNextLocked 200).2 =
          some (0, ⟨.normal, none, none⟩)) ∧
    ∀ route limits, ((waiting route limits).requests 0).route = route ∧
      ((waiting route limits).requests 0).cancelRequested = false := by
  refine ⟨take_waiting (by decide +kernel), take_waiting (by decide +kernel), forgotten_of_full,
    fun route limits => ⟨rfl, rfl⟩⟩

/-! ## The tables of a run -/

/-- What an operation of the client does to the table: nothing but waits. -/
def Waits (client client' : AsyncClient) : Prop :=
  ∃ ops, client'.limits = runOps client.limits ops ∧
    ∀ op ∈ ops, ∃ route now, op = .wait route now true

theorem Waits.of_eq (h : client'.limits = client.limits) : Waits client client' :=
  ⟨[], h, nofun⟩

theorem Waits.trans {client'' : AsyncClient} (h : Waits client client')
    (h' : Waits client' client'') : Waits client client'' := by
  obtain ⟨ops, hlimits, hops⟩ := h
  obtain ⟨ops', hlimits', hops'⟩ := h'
  refine ⟨ops ++ ops', ?_, fun op hop => ?_⟩
  · rw [hlimits', hlimits, runOps, runOps, runOps, List.foldl_append]
  · rcases List.mem_append.mp hop with hop | hop
    · exact hops op hop
    · exact hops' op hop

theorem waits_takeNext (client : AsyncClient) (now : Nat) :
    Waits client (client.takeNextLocked now).1 := by
  obtain ⟨⟨routes, hroutes⟩, -⟩ := takeFrom_spec now [.high, .normal, .low] client
  refine ⟨waits now routes, hroutes, fun op hop => ?_⟩
  obtain ⟨route, -, rfl⟩ := List.mem_map.mp hop
  exact ⟨route, now, rfl⟩

theorem restoreLocked_limits (client : AsyncClient) (a : Addr) (position : QueuePosition) :
    (client.restoreLocked a position).limits = client.limits := by
  have hlimits := linkAfter_limits (client.setNext a position.next) position.priority
    position.previous (some a)
  unfold restoreLocked
  simp only
  split
  · exact hlimits
  · exact hlimits

theorem pushTailLocked_limits (client : AsyncClient) (a : Addr) :
    (client.pushTailLocked a).limits = client.limits :=
  linkAfter_limits (client.setNext a none) _ _ _

theorem removeActiveLocked_limits (client : AsyncClient) (a : Addr) :
    (client.removeActiveLocked a).limits = client.limits := by
  unfold removeActiveLocked
  generalize client.allocated + 1 = fuel
  generalize client.activeHead = link
  generalize (none : Option Addr) = previous
  induction fuel generalizing previous link with
  | zero => rfl
  | succ fuel ih =>
    cases link with
    | none => rfl
    | some b =>
      rw [removeActiveLoop]
      split
      · cases previous <;> rfl
      · exact ih _ _

theorem releaseRoute_limits (client : AsyncClient) (a : Addr) :
    (client.releaseRoute a).limits = client.limits := by
  unfold releaseRoute
  split <;> rfl

theorem finishActiveLocked_limits (client : AsyncClient) (a : Addr) :
    (client.finishActiveLocked a).limits = client.limits :=
  (releaseRoute_limits _ a).trans (removeActiveLocked_limits _ a)

theorem undoActive_limits (client : AsyncClient) (a : Addr) :
    (client.undoActive a).limits = client.limits :=
  (releaseRoute_limits _ a).trans (removeActiveLocked_limits _ a)

theorem giveBack_limits (client : AsyncClient) (admission : Option Addr) (a : Addr)
    (position : QueuePosition) (requeueStats : RuntimeStats) (status : Status)
    (marks : List Status) :
    (client.giveBack admission a position requeueStats status marks).client.limits =
      client.limits := by
  unfold giveBack
  split
  · rfl
  · exact restoreLocked_limits _ a position

theorem waits_dispatch {admission : Option Addr} {input : DrainInput}
    {rest : AsyncClient → DrainResult} (hrest : ∀ client, Waits client (rest client).client)
    (client : AsyncClient) (a : Addr) (position : QueuePosition) :
    Waits client (client.dispatch admission a position input rest).client := by
  unfold dispatch
  simp only
  split
  · exact .of_eq (restoreLocked_limits _ _ _)
  · split
    · exact .of_eq (giveBack_limits _ _ _ _ _ _ _)
    · split
      · exact Waits.trans (.of_eq rfl) (hrest _)
      · exact .of_eq ((giveBack_limits _ _ _ _ _ _ _).trans (undoActive_limits _ a))

theorem waits_drainLoop (admission : Option Addr) (room : Nat) (inputs : Nat → DrainInput)
    (client : AsyncClient) : Waits client (drainLoop admission room inputs client).client := by
  induction room generalizing inputs client with
  | zero => exact .of_eq rfl
  | succ room ih =>
    rw [drainLoop]
    split
    · exact .of_eq rfl
    · simp only
      split
      · exact waits_takeNext client _
      · exact (waits_takeNext client _).trans (waits_dispatch (ih _) _ _ _)

theorem waits_drain (client : AsyncClient) (admission : Option Addr) (inputs : Nat → DrainInput) :
    Waits client (client.drainImplLocked admission inputs).client :=
  waits_drainLoop admission _ inputs client

theorem waits_drainTwice (client : AsyncClient) (inputs againInputs : Nat → DrainInput) :
    Waits client (client.drainTwiceLocked inputs againInputs).client := by
  unfold drainTwiceLocked
  simp only
  split
  · exact waits_drain client none inputs
  · exact (waits_drain client none inputs).trans (waits_drain _ none againInputs)

theorem detachPendingAllLocked_limits (client : AsyncClient) :
    client.detachPendingAllLocked.1.limits = client.limits := by
  have hloop : ∀ (fuel : Nat) (client : AsyncClient) (head tail link : Option Addr),
      (detachLoop fuel client head tail link).1.limits = client.limits := by
    intro fuel
    induction fuel with
    | zero => exact fun _ _ _ _ => rfl
    | succ fuel ih =>
      intro client head tail link
      cases link with
      | none => rfl
      | some a =>
        cases tail with
        | none => exact ih _ _ _ _
        | some b => exact ih _ _ _ _
  exact (hloop _ _ _ _ _).trans ((hloop _ _ _ _ _).trans (hloop _ _ _ _ _))

theorem cancelActiveLocked_limits (client : AsyncClient) :
    client.cancelActiveLocked.limits = client.limits := by
  unfold cancelActiveLocked
  generalize client.allocated + 1 = fuel
  generalize client.activeHead = link
  induction fuel generalizing client link with
  | zero => rfl
  | succ fuel ih =>
    cases link with
    | none => rfl
    | some a => exact ih _ _

end AsyncClient

namespace AsyncSystem

open AsyncClient

theorem waits_workerStep (s : AsyncSystem) (a : Addr) (input : WorkerInput) :
    Waits s.client (s.workerStep a input).client := by
  have hsettle : ∀ status, (s.settle a status).client.limits = s.client.limits := by
    intro status
    unfold settle
    split <;> rfl
  unfold workerStep
  split
  · exact .of_eq rfl
  · split <;> exact .of_eq rfl
  · exact .of_eq rfl
  · split
    · exact .of_eq rfl
    · exact .of_eq (hsettle _)
  · split
    · exact .of_eq (hsettle _)
    · refine Waits.trans (.of_eq ?_) (waits_drain _ none input.drainInputs)
      exact (pushTailLocked_limits _ a).trans (finishActiveLocked_limits _ a)
  · exact .of_eq rfl
  · rename_i status stage _ _
    exact .of_eq (congrArg AsyncClient.limits (sameElse_finalizeStep s a status stage).client)
  · unfold complete
    simp only
    split
    · exact .of_eq ((detachPendingAllLocked_limits _).trans (finishActiveLocked_limits _ a))
    · exact Waits.trans (.of_eq (finishActiveLocked_limits _ a)) (waits_drainTwice _ _ _)
  · split <;> exact .of_eq rfl

theorem waits_cancelerStep (s : AsyncSystem) (k : Nat) (stats : RuntimeStats) :
    Waits s.client (s.cancelerStep k stats).client := by
  unfold cancelerStep
  split
  · split <;> exact .of_eq rfl
  · exact .of_eq rfl
  · rename_i a stage _ _
    exact .of_eq (congrArg AsyncClient.limits (sameElse_finalizeStep s a .canceled stage).client)

theorem waits_submit (s : AsyncSystem) (submission : Submission) :
    Waits s.client (s.submit submission).client := by
  have hdrained := Waits.trans (.of_eq (pushTailLocked_limits (s.create submission).client
    s.client.allocated)) (waits_drain _ (some s.client.allocated) submission.drainInputs)
  unfold submit
  split
  · exact .of_eq rfl
  · simp only
    split <;> exact hdrained

theorem waits_requestCancel (s : AsyncSystem) (a : Addr)
    (drainInputs againInputs : Nat → DrainInput) :
    Waits s.client (s.requestCancel a drainInputs againInputs).client := by
  unfold requestCancel
  split
  · exact .of_eq rfl
  · split
    · exact Waits.trans (.of_eq rfl) (waits_drainTwice (s.client.cancelRequest a) _ _)
    · split <;> exact .of_eq rfl

/-- **A step waits or records**: all it does to the table are waits, and the
response of a step that brings one. -/
theorem limits_step (s : AsyncSystem) (action : Action) :
    ∃ ops, (s.step action).client.limits = runOps s.client.limits ops ∧
      ∀ route response now, .update route response now ∈ ops →
        action = .response route response now := by
  have hwaits : ∀ s' : AsyncSystem, Waits s.client s'.client →
      ∃ ops, s'.client.limits = runOps s.client.limits ops ∧
        ∀ route response now, .update route response now ∈ ops →
          action = .response route response now := by
    rintro s' ⟨ops, hlimits, hops⟩
    refine ⟨ops, hlimits, fun route response now hmem => ?_⟩
    obtain ⟨route', now', hwait⟩ := hops _ hmem
    exact absurd hwait nofun
  cases action with
  | submit submission => exact hwaits _ (waits_submit s submission)
  | drain inputs => exact hwaits (s.step (.drain inputs)) (waits_drain s.client none inputs)
  | response route response now =>
    refine ⟨[.update route response now], rfl, fun route' response' now' hmem => ?_⟩
    cases List.mem_singleton.mp hmem
    rfl
  | requestCancel a drainInputs againInputs =>
    exact hwaits _ (waits_requestCancel s a drainInputs againInputs)
  | cancelPending =>
    exact hwaits (s.step .cancelPending) (.of_eq (detachPendingAllLocked_limits _))
  | cancelActive =>
    exact hwaits (s.step .cancelActive) (.of_eq (cancelActiveLocked_limits _))
  | cancelAll =>
    exact hwaits (s.step .cancelAll)
      (.of_eq ((detachPendingAllLocked_limits _).trans (cancelActiveLocked_limits _)))
  | worker a input => exact hwaits _ (waits_workerStep s a input)
  | canceler k stats => exact hwaits _ (waits_cancelerStep s k stats)
  | close =>
    refine hwaits _ (.of_eq ?_)
    rw [step]
    split <;> rfl

/-- **The table of a run** is one that its responses and waits leave, so what
holds of all tables of `runOps` holds of the client at every moment. -/
theorem limits_run (restConcurrency : Nat) (resourceLimits : ResourceLimits)
    (actions : List Action) :
    ∃ ops, (run restConcurrency resourceLimits actions).client.limits = runOps RateLimits.init ops ∧
      ∀ route response now, .update route response now ∈ ops →
        .response route response now ∈ actions := by
  have hfrom : ∀ (actions : List Action) (s : AsyncSystem),
      ∃ ops, (actions.foldl step s).client.limits = runOps s.client.limits ops ∧
        ∀ route response now, .update route response now ∈ ops →
          .response route response now ∈ actions := by
    intro actions
    induction actions with
    | nil => exact fun s => ⟨[], rfl, fun _ _ _ hmem => absurd hmem (by simp)⟩
    | cons action actions ih =>
      intro s
      obtain ⟨ops, hlimits, hops⟩ := limits_step s action
      obtain ⟨ops', hlimits', hops'⟩ := ih (s.step action)
      refine ⟨ops ++ ops', ?_, fun route response now hmem => ?_⟩
      · rw [List.foldl_cons, hlimits', hlimits, runOps, runOps, runOps, List.foldl_append]
      · rcases List.mem_append.mp hmem with hmem | hmem
        · rw [← hops route response now hmem]
          exact List.mem_cons_self
        · exact List.mem_cons_of_mem _ (hops' route response now hmem)
  exact hfrom actions (init restConcurrency resourceLimits)

/-- **The limits of the client.**  At every moment of every run of the asynchronous client, the
table of rate limits is one that the responses received so far and the waits of the scheduler
leave; no route has two buckets in it, and the buckets that share a hash have one limit. -/
theorem limits_sound (restConcurrency : Nat) (resourceLimits : ResourceLimits)
    (actions : List Action) :
    let limits := (run restConcurrency resourceLimits actions).client.limits
    (∃ ops, limits = runOps RateLimits.init ops ∧
      ∀ route response now, .update route response now ∈ ops →
        .response route response now ∈ actions) ∧
      Distinct limits.buckets ∧ Coherent limits.buckets := by
  obtain ⟨ops, hlimits, hops⟩ := limits_run restConcurrency resourceLimits actions
  refine ⟨⟨ops, hlimits, hops⟩, ?_, ?_⟩
  · rw [hlimits]
    exact distinct_runOps distinct_init ops
  · rw [hlimits]
    exact coherent_runOps coherent_init ops

end AsyncSystem

end Dcc.Rest
