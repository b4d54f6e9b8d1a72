import Dcc.Rest.BucketSlots

/-!
# How long a limit lasts

A response that says a route is used up until some time limits the bucket of the
route.  The table is a cache of 128 buckets in which the latest word of the
server stands, so how long the limit lasts depends on what follows:

* `Spares` says of a response that it takes the limit from no bucket: it does
  not evict the bucket, and what it says of a bucket with the same hash does not
  end before the limit;
* `LimitHeld.run`: until its end, a limit that all responses spare stays;
* `LimitHeld.wait_pos`: a limited route has to wait, and so have the routes that
  share its bucket.
-/

namespace Dcc.Rest

variable {limits : RateLimits} {route route' : RouteKey} {b : Bucket} {now resetAtMs : Nat}
  {response : Response}

/-! ## Limits that last -/

/-- The route is limited, until `resetAtMs` at least. -/
def RateLimits.limitedUntil (limits : RateLimits) (route : RouteKey) (resetAtMs : Nat) : Bool :=
  (limits.bucketOf route).any fun b => b.remaining == 0 && decide (resetAtMs ≤ b.resetAtMs)

/-- The bucket hash of a route, empty where the server gave none. -/
def RateLimits.hashOf (limits : RateLimits) (route : RouteKey) : Bytes :=
  ((limits.bucketOf route).map Bucket.bucket).getD []

/-- Whether `route'` is `route` or its bucket shares the hash of the bucket of `route`. -/
def RateLimits.shares (limits : RateLimits) (route' route : RouteKey) : Bool :=
  route' == route || limits.hashOf route != [] && limits.hashOf route' == limits.hashOf route

/-- Whether a response of `route'` is one of the bucket of `route`: with the
hash the response gives, the two share a bucket. -/
def RateLimits.sameBucket (limits : RateLimits) (route' : RouteKey) (response : Response)
    (route : RouteKey) : Bool :=
  route' == route || limits.hashOf route != [] &&
    ((limits.bucketFor route').setHash response.bucketHash).bucket == limits.hashOf route

/-- A response that says its bucket is used up. -/
def Response.isLimit (response : Response) : Bool :=
  response.status == 429 || response.remaining == some 0

/-- A response that leaves the reset time of its bucket and a count of zero alone. -/
def Response.isSilent (response : Response) (now : Nat) : Bool :=
  response.status != 429 &&
    (response.remaining.isNone || response.remaining == some 0 && response.resetAtMs now == 0)

/-- **A call spares the limit** of `route` until `resetAtMs`.  A wait does.  A
response does that evicts another bucket, if any, and, where it is one of the
same bucket, announces a limit that lasts as long, or announces nothing for a
route that is itself limited as long. -/
def RateLimits.Spares (limits : RateLimits) (route : RouteKey) (resetAtMs : Nat) : RateOp → Prop
  | .wait _ _ _ => True
  | .update route' response now =>
    response.concernsBucket now = true → limits.evicted route' ≠ some route ∧
      (limits.sameBucket route' response route = true →
        (response.isLimit = true ∧ resetAtMs ≤ response.resetAtMs now) ∨
        (response.isSilent now = true ∧ limits.limitedUntil route' resetAtMs = true))

/-- All calls of a sequence spare the limit. -/
def Spared (route : RouteKey) (resetAtMs : Nat) : RateLimits → List RateOp → Prop
  | _, [] => True
  | limits, op :: ops =>
    limits.Spares route resetAtMs op ∧ Spared route resetAtMs (op.apply limits) ops

/-- The clock reading of a call. -/
def RateOp.reading : RateOp → Nat
  | .update _ _ now => now
  | .wait _ now _ => now

instance (op : RateOp) : Decidable (limits.Spares route resetAtMs op) :=
  match op with
  | .wait _ _ _ => .isTrue trivial
  | .update _ _ _ => inferInstanceAs (Decidable (_ → _ ∧ (_ → _ ∨ _)))

instance decidableSpared : (limits : RateLimits) → (ops : List RateOp) →
    Decidable (Spared route resetAtMs limits ops)
  | _, [] => .isTrue trivial
  | limits, op :: ops =>
    haveI := decidableSpared (op.apply limits) ops
    inferInstanceAs (Decidable (_ ∧ _))

theorem limitedUntil_iff : limits.limitedUntil route resetAtMs = true ↔
    ∃ b, limits.bucketOf route = some b ∧ b.remaining = 0 ∧ resetAtMs ≤ b.resetAtMs := by
  unfold RateLimits.limitedUntil
  cases limits.bucketOf route with
  | none => simp
  | some b => simp

theorem setLimit_limited (hreset : resetAtMs ≠ 0)
    (h : (response.isLimit = true ∧ resetAtMs ≤ response.resetAtMs now) ∨
      (response.isSilent now = true ∧ b.remaining = 0 ∧ resetAtMs ≤ b.resetAtMs)) :
    (b.setLimit response (response.resetAtMs now)).remaining = 0 ∧
      resetAtMs ≤ (b.setLimit response (response.resetAtMs now)).resetAtMs := by
  unfold Bucket.setLimit
  by_cases hstatus : response.status = 429
  · rw [if_pos hstatus]
    refine ⟨rfl, ?_⟩
    rcases h with ⟨-, hlater⟩ | ⟨hsilent, -⟩
    · exact hlater
    · simp [Response.isSilent, hstatus] at hsilent
  · rw [if_neg hstatus]
    cases hremaining : response.remaining with
    | none =>
      rcases h with ⟨hlimit, -⟩ | ⟨-, hb⟩
      · simp [Response.isLimit, hstatus, hremaining] at hlimit
      · exact hb
    | some remaining =>
      have hzero : remaining = 0 := by
        rcases h with ⟨hlimit, -⟩ | ⟨hsilent, -⟩
        · simpa [Response.isLimit, hstatus, hremaining] using hlimit
        · simp only [Response.isSilent, hremaining] at hsilent
          grind
      subst hzero
      by_cases hnow : response.resetAtMs now = 0
      · rcases h with ⟨-, hlater⟩ | ⟨-, -, hb⟩
        · omega
        · simpa [hnow] using hb
      · rcases h with ⟨-, hlater⟩ | ⟨hsilent, -⟩
        · simpa [hnow] using hlater
        · simp [Response.isSilent, hremaining, hnow] at hsilent

theorem limitedUntil_of_slot {i : Nat} (h : Distinct limits.buckets)
    (hb : limits.buckets[i]? = some b) (hactive : b.active = true) (hroute : b.route = route)
    (hlimit : b.remaining = 0 ∧ resetAtMs ≤ b.resetAtMs) :
    limits.limitedUntil route resetAtMs = true :=
  limitedUntil_iff.mpr ⟨b, (bucketOf_iff h).mpr ⟨i, hb, hactive, hroute⟩, hlimit⟩

theorem recorded_limited (hreset : resetAtMs ≠ 0)
    (h : (response.isLimit = true ∧ resetAtMs ≤ response.resetAtMs now) ∨
      (response.isSilent now = true ∧ limits.limitedUntil route resetAtMs = true)) :
    (limits.recorded route response now).remaining = 0 ∧
      resetAtMs ≤ (limits.recorded route response now).resetAtMs := by
  refine setLimit_limited hreset ?_
  rcases h with hlimit | ⟨hsilent, hlimited⟩
  · exact Or.inl hlimit
  · obtain ⟨b, hb, hlimit⟩ := limitedUntil_iff.mp hlimited
    have hfor : limits.bucketFor route = b := by simp [RateLimits.bucketFor, hb]
    refine Or.inr ⟨hsilent, ?_⟩
    simpa [hfor] using hlimit

theorem limitedUntil_record (h : Distinct limits.buckets) (hlimit : response.isLimit = true)
    (hreset : response.resetAtMs now ≠ 0) :
    (updateRateLimit limits route response now).limitedUntil route (response.resetAtMs now) =
      true := by
  have hconcerns : response.concernsBucket now = true := by
    simp [Response.concernsBucket, hreset]
  have hdistinct := distinct_apply h (.update route response now)
  obtain ⟨index, hslot, -, -⟩ := recordBuckets_slots limits route response now
  obtain ⟨hactive, hroute⟩ := recorded_route limits route response now
  have hslot' : (updateRateLimit limits route response now).buckets[index]? =
      some (limits.recorded route response now) := by
    simpa [updateRateLimit, hconcerns] using hslot
  exact limitedUntil_of_slot hdistinct hslot' hactive hroute
    (recorded_limited hreset (Or.inl ⟨hlimit, Nat.le_refl _⟩))

theorem limitedUntil_update (h : Distinct limits.buckets) (hreset : resetAtMs ≠ 0)
    (hlimited : limits.limitedUntil route resetAtMs = true)
    (hspares : limits.Spares route resetAtMs (.update route' response now)) :
    (updateRateLimit limits route' response now).limitedUntil route resetAtMs = true := by
  by_cases hconcerns : response.concernsBucket now = true
  · obtain ⟨hkept, hsame⟩ := hspares hconcerns
    have hdistinct := distinct_apply h (.update route' response now)
    obtain ⟨b, hb, hlimit⟩ := limitedUntil_iff.mp hlimited
    obtain ⟨i, -, hget, hactive, hroute⟩ := bucketOf_some hb
    obtain ⟨index, hslot, hothers, hown⟩ := recordBuckets_slots limits route' response now
    have hbuckets : (updateRateLimit limits route' response now).buckets =
        recordBuckets route' response now limits.buckets := by
      simp [updateRateLimit, hconcerns]
    rw [← hbuckets] at hslot hothers
    by_cases hi : i = index
    · -- the slot of the response is the slot of the route, so the routes are the same
      subst hi
      have heq : route' = route := by
        rcases hown b hget hactive with hown | hevicted
        · exact hown.symm.trans hroute
        · exact absurd (hroute ▸ hevicted) hkept
      subst heq
      have hrecorded := recorded_limited hreset (hsame (by simp [RateLimits.sameBucket]))
      obtain ⟨hactive', hroute'⟩ := recorded_route limits route' response now
      exact limitedUntil_of_slot hdistinct hslot hactive' hroute' hrecorded
    · -- the bucket stays, or follows the one of the response, which is the same bucket
      refine limitedUntil_of_slot hdistinct (hothers i b hi hget) (by simpa using hactive)
        (by simpa using hroute) ?_
      unfold Bucket.follow
      split
      · rename_i hmatch
        rw [hactive, Bool.true_and, hashMatches_iff] at hmatch
        refine recorded_limited hreset (hsame ?_)
        have hhash : limits.hashOf route = b.bucket := by simp [RateLimits.hashOf, hb]
        have hrecorded : ((limits.bucketFor route').setHash response.bucketHash).bucket =
            b.bucket := by
          rw [hmatch.2, RateLimits.recorded, setLimit_bucket]
        simp [RateLimits.sameBucket, hhash, hrecorded, hmatch.2 ▸ hmatch.1]
      · exact hlimit
  · simpa [updateRateLimit, hconcerns, RateLimits.limitedUntil, RateLimits.bucketOf] using hlimited

theorem limitedUntil_wait {resetExpired : Bool} (h : Distinct limits.buckets) (hnow : now < resetAtMs)
    (hlimited : limits.limitedUntil route resetAtMs = true) :
    (routeWaitMsLocked limits route' now resetExpired).1.limitedUntil route resetAtMs = true := by
  have hdistinct := distinct_apply h (.wait route' now resetExpired)
  obtain ⟨b, hb, hlimit⟩ := limitedUntil_iff.mp hlimited
  obtain ⟨i, -, hget, hactive, hroute⟩ := bucketOf_some hb
  have hlift : b.lift now resetExpired = b := by
    unfold Bucket.lift
    rw [if_neg]
    omega
  have hslot := getElem?_collectWait hget route' now resetExpired (limits.globalWaitMs now)
  rw [hlift, or_self] at hslot
  exact limitedUntil_of_slot hdistinct hslot hactive hroute hlimit

theorem hashOf_wait (h : Distinct limits.buckets) (route' : RouteKey) (now : Nat)
    (resetExpired : Bool) (route : RouteKey) :
    (routeWaitMsLocked limits route' now resetExpired).1.hashOf route = limits.hashOf route := by
  have hdistinct := distinct_apply h (.wait route' now resetExpired)
  have hslot : ∀ {i : Nat} {b : Bucket}, limits.buckets[i]? = some b →
      ∃ b', (routeWaitMsLocked limits route' now resetExpired).1.buckets[i]? = some b' ∧
        b'.active = b.active ∧ b'.route = b.route ∧ b'.bucket = b.bucket := by
    intro i b hb
    rcases getElem?_collectWait hb route' now resetExpired (limits.globalWaitMs now) with heq | heq
    · exact ⟨b, heq, rfl, rfl, rfl⟩
    · exact ⟨_, heq, by simp, by simp, by simp⟩
  unfold RateLimits.hashOf
  cases hb : limits.bucketOf route with
  | some b =>
    obtain ⟨i, -, hget, hactive, hroute⟩ := bucketOf_some hb
    obtain ⟨b', hb', hactive', hroute', hhash⟩ := hslot hget
    have hfound : (routeWaitMsLocked limits route' now resetExpired).1.bucketOf route = some b' :=
      (bucketOf_iff hdistinct).mpr ⟨i, hb', hactive'.trans hactive, hroute'.trans hroute⟩
    rw [hfound]
    exact hhash
  | none =>
    cases hb' : (routeWaitMsLocked limits route' now resetExpired).1.bucketOf route with
    | none => rfl
    | some b' =>
      obtain ⟨i, -, hget', hactive', hroute'⟩ := bucketOf_some hb'
      have hlt := (List.getElem?_eq_some_iff.mp hget').1
      have hlen : i < limits.buckets.length := by
        rw [limits.size_eq]
        rwa [RateLimits.size_eq] at hlt
      obtain ⟨b'', hget'', hactive, hroute, -⟩ := hslot (List.getElem?_eq_getElem hlen)
      rw [hget'] at hget''
      cases hget''
      have hsome : limits.bucketOf route = some limits.buckets[i] :=
        (bucketOf_iff h).mpr ⟨i, List.getElem?_eq_getElem hlen, hactive ▸ hactive',
          hroute ▸ hroute'⟩
      rw [hb] at hsome
      exact absurd hsome nofun

theorem shares_wait (h : Distinct limits.buckets) (route₁ route₂ : RouteKey) :
    (routeWaitMsLocked limits route now true).1.shares route₁ route₂ =
      limits.shares route₁ route₂ := by
  simp only [RateLimits.shares, hashOf_wait h]

/-! ## Runs of the table -/

/-- The table holds a limit of `route` until `resetAtMs`. -/
structure LimitHeld (limits : RateLimits) (route : RouteKey) (resetAtMs : Nat) : Prop where
  coherent : Coherent limits.buckets
  distinct : Distinct limits.buckets
  limited : limits.limitedUntil route resetAtMs = true

/-- **One call that spares a limit leaves it**, before the end of the limit. -/
theorem LimitHeld.apply {op : RateOp} (h : LimitHeld limits route resetAtMs)
    (hspares : limits.Spares route resetAtMs op) (hreading : op.reading < resetAtMs) :
    LimitHeld (op.apply limits) route resetAtMs := by
  refine ⟨coherent_apply h.coherent op, distinct_apply h.distinct op, ?_⟩
  cases op with
  | update route' response now =>
    exact limitedUntil_update h.distinct (Nat.ne_of_gt (Nat.zero_lt_of_lt hreading)) h.limited
      hspares
  | wait route' now resetExpired => exact limitedUntil_wait h.distinct hreading h.limited

/-- **Calls that spare a limit leave it.** -/
theorem LimitHeld.run {ops : List RateOp} (h : LimitHeld limits route resetAtMs)
    (hspared : Spared route resetAtMs limits ops)
    (hreadings : ∀ op ∈ ops, op.reading < resetAtMs) :
    LimitHeld (runOps limits ops) route resetAtMs := by
  induction ops generalizing limits with
  | nil => exact h
  | cons op ops ih =>
    rw [List.forall_mem_cons] at hreadings
    exact ih (h.apply hspared.1 hreadings.1) hspared.2 hreadings.2

/-- A limited route has to wait, and so have the routes that share its bucket. -/
theorem LimitHeld.wait_pos (h : LimitHeld limits route resetAtMs) (hnow : now < resetAtMs)
    (hshares : limits.shares route' route = true) (resetExpired : Bool) :
    0 < (routeWaitMsLocked limits route' now resetExpired).2 := by
  obtain ⟨b, hb, hlimit⟩ := limitedUntil_iff.mp h.limited
  obtain ⟨i, -, hget, hactive, -⟩ := bucketOf_some hb
  have hhold : 0 < b.holdMs now := by
    unfold Bucket.holdMs
    rw [if_pos hlimit.1]
    omega
  simp only [RateLimits.shares, Bool.or_eq_true, beq_iff_eq, Bool.and_eq_true, bne_iff_ne] at hshares
  rcases hshares with rfl | ⟨hne, heq⟩
  · rw [routeWait_eq h.coherent hb]
    omega
  · have hhash : limits.hashOf route = b.bucket := by simp [RateLimits.hashOf, hb]
    rw [hhash] at hne heq
    cases hc : limits.bucketOf route' with
    | none =>
      rw [RateLimits.hashOf, hc] at heq
      exact absurd heq.symm hne
    | some c =>
      obtain ⟨j, -, hget', hactive', -⟩ := bucketOf_some hc
      have heq' : b.bucket = c.bucket := by simpa [RateLimits.hashOf, hc] using heq.symm
      have hsame := h.coherent b (List.mem_of_getElem? hget) c (List.mem_of_getElem? hget') hactive
        hactive' hne heq'
      rw [routeWait_eq h.coherent hc, ← hsame.holdMs_eq now]
      omega

end Dcc.Rest
