import Dcc.Rest.Dispatch

/-!
# Responses without a limit of their own

A response that is no 429 and does not say how many requests remain writes no limit.  It still
touches the table: its route gets a bucket, which may take the slot of another one; its hash is
noted, and the buckets that carry it follow; and it may announce a global limit.

* `holdMs_update` — what such a response does to the wait for the bucket of a route;
* `wait_not_lowered` — so it lowers no wait, a bucket it evicts, a global limit it replaces and
  a hash that is new to its route apart.
-/

namespace Dcc.Rest

variable {limits : RateLimits} {route route' : RouteKey} {response : Response} {now : Nat}

/-- A response that is no 429 and has no `X-RateLimit-Remaining`. -/
structure Response.NoLimit (response : Response) : Prop where
  status : response.status ≠ 429
  remaining : response.remaining = none

/-- The hash of the bucket of `route` once the response is recorded. -/
def RateLimits.hashAfter (limits : RateLimits) (route : RouteKey) (response : Response) : Bytes :=
  ((limits.bucketFor route).setHash response.bucketHash).bucket

/-- The response gives `route` a hash that its bucket does not carry yet, but that of `route'`
does. -/
def RateLimits.joins (limits : RateLimits) (route : RouteKey) (response : Response)
    (route' : RouteKey) : Bool :=
  limits.hashAfter route response != [] && limits.hashOf route != limits.hashAfter route response &&
    limits.hashOf route' == limits.hashAfter route response

/-- The bucket of `route'` makes room for one of `route`. -/
def RateLimits.drops (limits : RateLimits) (route : RouteKey) (response : Response) (now : Nat)
    (route' : RouteKey) : Bool :=
  response.concernsBucket now && limits.evicted route == some route'

/-- The response announces a global limit that ends before the one in place. -/
def RateLimits.shortensGlobal (limits : RateLimits) (response : Response) (now : Nat) : Bool :=
  response.isGlobal && response.resetAtMs now != 0 &&
    decide (response.resetAtMs now < limits.globalResetAtMs)

/-- The time the bucket of a route holds its requests back. -/
def RateLimits.holdMs (limits : RateLimits) (route : RouteKey) (now : Nat) : Nat :=
  ((limits.bucketOf route).map fun b => b.holdMs now).getD 0

theorem routeWait_eq_max (h : Coherent limits.buckets) (route : RouteKey) (now : Nat)
    (resetExpired : Bool) :
    (routeWaitMsLocked limits route now resetExpired).2 =
      max (limits.globalWaitMs now) (limits.holdMs route now) := by
  cases hb : limits.bucketOf route with
  | none => simp [AsyncClient.routeWait_of_none hb, RateLimits.holdMs, hb]
  | some b => simp [routeWait_eq h hb, RateLimits.holdMs, hb]

theorem sameLimit_recorded (h : response.NoLimit) :
    SameLimit (limits.recorded route response now) (limits.bucketFor route) := by
  simp [SameLimit, RateLimits.recorded, Bucket.setLimit, h.status, h.remaining]

/-- **A response without a limit leaves the wait for a bucket** that it does not evict and
whose hash is not new to its route. -/
theorem holdMs_update (hcoherent : Coherent limits.buckets) (hdistinct : Distinct limits.buckets)
    (h : response.NoLimit) (hdrops : limits.drops route response now route' = false)
    (hjoins : limits.joins route response route' = false) (t : Nat) :
    limits.holdMs route' t ≤ (updateRateLimit limits route response now).holdMs route' t := by
  cases hb : limits.bucketOf route' with
  | none => simp [RateLimits.holdMs, hb]
  | some b =>
    obtain ⟨i, -, hget, hactive, hroute⟩ := bucketOf_some hb
    by_cases hconcerns : response.concernsBucket now = true
    · have hbuckets : (updateRateLimit limits route response now).buckets =
          recordBuckets route response now limits.buckets := by
        simp [updateRateLimit, hconcerns]
      obtain ⟨index, hslot, hothers, hown⟩ := recordBuckets_slots limits route response now
      rw [← hbuckets] at hslot hothers
      -- the slot of the route holds a bucket of the route with the same limit
      obtain ⟨b', hget', hactive', hroute', hsame⟩ :
          ∃ b', (updateRateLimit limits route response now).buckets[i]? = some b' ∧
            b'.active = true ∧ b'.route = route' ∧ SameLimit b' b := by
        by_cases hi : i = index
        · subst hi
          have heq : route = route' := by
            rcases hown b hget hactive with hown | hevicted
            · exact hown.symm.trans hroute
            · simp [RateLimits.drops, hconcerns, hevicted, hroute] at hdrops
          subst heq
          obtain ⟨hra, hrr⟩ := recorded_route limits route response now
          have hrecorded : SameLimit (limits.recorded route response now)
              (limits.bucketFor route) := sameLimit_recorded h
          rw [RateLimits.bucketFor, hb, Option.getD_some] at hrecorded
          exact ⟨_, hslot, hra, hrr, hrecorded⟩
        · refine ⟨_, hothers i b hi hget, by simpa using hactive, by simpa using hroute, ?_⟩
          unfold Bucket.follow
          split
          · rename_i hmatch
            rw [hactive, Bool.true_and, hashMatches_iff] at hmatch
            have hafter : limits.hashAfter route response = b.bucket := by
              rw [hmatch.2, RateLimits.recorded, setLimit_bucket, RateLimits.hashAfter]
            have hne : b.bucket ≠ [] := hmatch.2 ▸ hmatch.1
            have hcarried : limits.hashOf route = b.bucket := by
              by_contra hnew
              have hof : limits.hashOf route' = b.bucket := by simp [RateLimits.hashOf, hb]
              simp [RateLimits.joins, hafter, hne, hnew, hof] at hjoins
            -- so the route of the response has a bucket with that hash, and with that limit
            cases hc : limits.bucketOf route with
            | none =>
              rw [RateLimits.hashOf, hc] at hcarried
              exact absurd hcarried.symm hne
            | some c =>
              obtain ⟨j, -, hgetc, hactivec, -⟩ := bucketOf_some hc
              have hhash : b.bucket = c.bucket := by
                rw [← hcarried, RateLimits.hashOf, hc]
                rfl
              have hlimit := hcoherent c (List.mem_of_getElem? hgetc) b
                (List.mem_of_getElem? hget) hactivec hactive (hhash ▸ hne) hhash.symm
              have hrecorded : SameLimit (limits.recorded route response now)
                  (limits.bucketFor route) := sameLimit_recorded h
              rw [RateLimits.bucketFor, hc, Option.getD_some] at hrecorded
              exact ⟨hrecorded.1.trans hlimit.1, hrecorded.2.trans hlimit.2⟩
          · exact ⟨rfl, rfl⟩
      have hafter := distinct_apply hdistinct (.update route response now)
      have hbucket : (updateRateLimit limits route response now).bucketOf route' = some b' :=
        (bucketOf_iff hafter).mpr ⟨i, hget', hactive', hroute'⟩
      simp [RateLimits.holdMs, hb, hbucket, hsame.holdMs_eq]
    · have hsame : (updateRateLimit limits route response now).bucketOf route' =
          limits.bucketOf route' := by
        simp [updateRateLimit, hconcerns, RateLimits.bucketOf]
      simp [RateLimits.holdMs, hsame]

theorem globalWaitMs_update (hglobal : limits.shortensGlobal response now = false) (t : Nat) :
    limits.globalWaitMs t ≤ (updateRateLimit limits route response now).globalWaitMs t := by
  have hend : limits.globalResetAtMs ≤
      (updateRateLimit limits route response now).globalResetAtMs := by
    simp only [updateRateLimit]
    split
    · rename_i hannounced
      simp only [RateLimits.shortensGlobal, hannounced, Bool.true_and, decide_eq_false_iff_not]
        at hglobal
      omega
    · exact Nat.le_refl _
  unfold RateLimits.globalWaitMs
  split_ifs <;> omega

/-- **A response without a limit lowers no wait.**  In every table that responses and waits
leave, such a response leaves each route at least as long a wait, at every time: unless it evicts
the bucket of the route, gives its own route the hash of that bucket, or announces a global limit
with an earlier end.  Only a full table evicts, and then a bucket that resets first; and what
an eviction or a global limit does not touch still counts. -/
theorem wait_not_lowered (ops : List RateOp) (route : RouteKey) {response : Response}
    (h : response.NoLimit) (now : Nat) :
    let limits := runOps RateLimits.init ops
    let after := updateRateLimit limits route response now
    (∀ (route' : RouteKey) (t : Nat) (resetExpired : Bool),
      limits.drops route response now route' = false → limits.joins route response route' = false →
      limits.shortensGlobal response now = false →
      (routeWaitMsLocked limits route' t resetExpired).2 ≤
        (routeWaitMsLocked after route' t resetExpired).2) ∧
    (∀ (route' : RouteKey) (t : Nat) (resetExpired : Bool),
      limits.drops route response now route' = false → limits.joins route response route' = false →
      limits.holdMs route' t ≤ (routeWaitMsLocked after route' t resetExpired).2) ∧
    (∀ (route' : RouteKey) (t : Nat) (resetExpired : Bool),
      limits.shortensGlobal response now = false →
      limits.globalWaitMs t ≤ (routeWaitMsLocked after route' t resetExpired).2) ∧
    ∀ (route' : RouteKey) (b : Bucket), limits.drops route response now route' = true →
      limits.bucketOf route' = some b →
      ∀ c ∈ limits.buckets, c.active = true ∧ b.resetAtMs ≤ c.resetAtMs := by
  intro limits after
  have hcoherent : Coherent limits.buckets := coherent_runOps coherent_init ops
  have hdistinct : Distinct limits.buckets := distinct_runOps distinct_init ops
  have hafter : Coherent after.buckets := coherent_apply hcoherent (.update route response now)
  have hhold : ∀ (route' : RouteKey) (t : Nat) (resetExpired : Bool),
      limits.drops route response now route' = false → limits.joins route response route' = false →
      limits.holdMs route' t ≤ (routeWaitMsLocked after route' t resetExpired).2 := by
    intro route' t resetExpired hdrops hjoins
    rw [routeWait_eq_max hafter]
    exact Nat.le_trans (holdMs_update hcoherent hdistinct h hdrops hjoins t) (Nat.le_max_right _ _)
  have hglobal : ∀ (route' : RouteKey) (t : Nat) (resetExpired : Bool),
      limits.shortensGlobal response now = false →
      limits.globalWaitMs t ≤ (routeWaitMsLocked after route' t resetExpired).2 := by
    intro route' t resetExpired hshortens
    rw [routeWait_eq_max hafter]
    exact Nat.le_trans (globalWaitMs_update hshortens t) (Nat.le_max_left _ _)
  refine ⟨fun route' t resetExpired hdrops hjoins hshortens => ?_, hhold, hglobal,
    fun route' b hdrops hb => ?_⟩
  · rw [routeWait_eq_max hcoherent]
    exact Nat.max_le.mpr ⟨hglobal route' t resetExpired hshortens,
      hhold route' t resetExpired hdrops hjoins⟩
  · simp only [RateLimits.drops, Bool.and_eq_true, beq_iff_eq] at hdrops
    exact evicted_earliest hdistinct hdrops.2 hb

open AsyncClient in
/-- Route 0 is limited until 1000 in the bucket `h`, which route 1 has too; a response of route 1
that repeats the hash leaves the wait of route 0. -/
theorem wait_not_lowered_same_hash :
    (routeWaitMsLocked (runOps RateLimits.init
        [.update (numbered 1) ⟨200, some 3, 0, some [0x68], false⟩ 0,
          .update (numbered 0) ⟨429, none, 1000, some [0x68], false⟩ 0]) (numbered 0) 200 true).2 ≤
      (routeWaitMsLocked (updateRateLimit (runOps RateLimits.init
        [.update (numbered 1) ⟨200, some 3, 0, some [0x68], false⟩ 0,
          .update (numbered 0) ⟨429, none, 1000, some [0x68], false⟩ 0]) (numbered 1)
            ⟨200, none, 0, some [0x68], false⟩ 50) (numbered 0) 200 true).2 :=
  (wait_not_lowered _ (numbered 1) ⟨by decide, rfl⟩ 50).1 (numbered 0) 200 true (by decide +kernel)
    (by decide +kernel) (by decide +kernel)

/-- A response with a reset time only. -/
def resetOnly : Response := ⟨200, none, 1000, none, false⟩

open AsyncClient in
/-- Responses of the first `n` routes: each gets a bucket, and is then limited until 1000. -/
def fillOps : Nat → List RateOp
  | 0 => []
  | n + 1 => fillOps n ++
      [.update (numbered n) resetOnly 0, .update (numbered n) ⟨429, none, 1000, none, false⟩ 0]

theorem evicted_of_bucketOf {b : Bucket} (h : limits.bucketOf route = some b) :
    limits.evicted route = none := by
  unfold RateLimits.evicted
  split
  · rfl
  · rename_i hlookup
    simp [RateLimits.bucketOf, findBucket, hlookup] at h

theorem bucketOf_update (h : Distinct limits.buckets)
    (hconcerns : response.concernsBucket now = true) :
    (updateRateLimit limits route response now).bucketOf route =
      some (limits.recorded route response now) := by
  obtain ⟨index, hslot, -, -⟩ := recordBuckets_slots limits route response now
  obtain ⟨hactive, hroute⟩ := recorded_route limits route response now
  refine (bucketOf_iff (distinct_apply h (.update route response now))).mpr
    ⟨index, ?_, hactive, hroute⟩
  simpa [RateOp.apply, updateRateLimit, hconcerns] using hslot

theorem globalResetAtMs_fillOps (n : Nat) :
    (runOps RateLimits.init (fillOps n)).globalResetAtMs = 0 := by
  induction n with
  | zero => rfl
  | succ n ih =>
    have hrun : runOps RateLimits.init (fillOps (n + 1)) = runOps (runOps RateLimits.init (fillOps n))
        [.update (AsyncClient.numbered n) resetOnly 0,
          .update (AsyncClient.numbered n) ⟨429, none, 1000, none, false⟩ 0] := by
      simp [fillOps, runOps]
    rw [hrun]
    simp [runOps, RateOp.apply, updateRateLimit, resetOnly] at ih ⊢
    exact ih

open AsyncClient in
/-- Where no response lowers a wait, all routes stay limited. -/
theorem limited_fillOps {n : Nat} (h : ∀ k < n, ∀ route,
      (routeWaitMsLocked (runOps RateLimits.init (fillOps k)) route 200 false).2 ≤
        (routeWaitMsLocked (updateRateLimit (runOps RateLimits.init (fillOps k)) (numbered k)
          resetOnly 0) route 200 false).2) :
    ∀ k < n, (runOps RateLimits.init (fillOps n)).limitedUntil (numbered k) 1000 = true := by
  induction n with
  | zero => intro k hk; omega
  | succ n ih =>
    intro k hk
    let limits := runOps RateLimits.init (fillOps n)
    let seen := updateRateLimit limits (numbered n) resetOnly 0
    have hrun : runOps RateLimits.init (fillOps (n + 1)) =
        updateRateLimit seen (numbered n) ⟨429, none, 1000, none, false⟩ 0 := by
      simp [fillOps, runOps, RateOp.apply, seen, limits]
    have hcoherent : Coherent limits.buckets := coherent_runOps coherent_init _
    have hdistinct : Distinct limits.buckets := distinct_runOps distinct_init _
    have hseen : Coherent seen.buckets := coherent_apply hcoherent (.update _ resetOnly 0)
    have hseen' : Distinct seen.buckets := distinct_apply hdistinct (.update _ resetOnly 0)
    rw [hrun]
    by_cases hlast : k = n
    · rw [hlast]
      exact limitedUntil_record hseen' rfl (by decide)
    · have hlimited := ih (fun j hj => h j (by omega)) k (by omega)
      obtain ⟨b, hb, hzero, hreset⟩ := limitedUntil_iff.mp hlimited
      have hwait := h n (Nat.lt_succ_self n) (numbered k)
      have hhold : 800 ≤ b.holdMs 200 := by
        rw [Bucket.holdMs, if_pos hzero]
        omega
      have hglobal : seen.globalWaitMs 200 = 0 := by
        have hend : seen.globalResetAtMs = 0 := globalResetAtMs_fillOps n
        rw [RateLimits.globalWaitMs, hend, if_neg (by omega)]
      rw [routeWait_eq hcoherent hb, routeWait_eq_max hseen, hglobal, Nat.zero_max] at hwait
      -- so the route is still limited, and the second response takes no slot
      have hkept : seen.limitedUntil (numbered k) 1000 = true := by
        cases hc : seen.bucketOf (numbered k) with
        | none =>
          rw [RateLimits.holdMs, hc] at hwait
          simp at hwait
          omega
        | some c =>
          have hheld : 800 ≤ c.holdMs 200 := by
            rw [RateLimits.holdMs, hc, Option.map_some, Option.getD_some] at hwait
            omega
          refine limitedUntil_iff.mpr ⟨c, hc, ?_⟩
          rw [Bucket.holdMs] at hheld
          split_ifs at hheld with hremaining
          · exact ⟨hremaining, by omega⟩
          · omega
      refine limitedUntil_update hseen' (by decide) hkept fun _ => ⟨?_, fun _ => Or.inl ?_⟩
      · rw [evicted_of_bucketOf (bucketOf_update hdistinct (by decide))]
        simp
      · decide

open AsyncClient in
/-- **Waits are lowered**: the slots being taken by limited routes, the response of another route
takes one of them; a global limit replaces one that ends later; and a route that is new to a
hash lifts the limit of the routes that carry it. -/
theorem wait_lowered :
    resetOnly.NoLimit ∧
    (∃ k < 129, ∃ route,
      (routeWaitMsLocked (updateRateLimit (runOps RateLimits.init (fillOps k)) (numbered k)
          resetOnly 0) route 200 false).2 <
        (routeWaitMsLocked (runOps RateLimits.init (fillOps k)) route 200 false).2) ∧
    (routeWaitMsLocked (updateRateLimit (runOps RateLimits.init
        [.update (numbered 0) ⟨429, none, 1000, none, true⟩ 0]) (numbered 1)
          ⟨200, none, 100, none, true⟩ 50) (numbered 1) 200 false).2 <
      (routeWaitMsLocked (runOps RateLimits.init
        [.update (numbered 0) ⟨429, none, 1000, none, true⟩ 0]) (numbered 1) 200 false).2 ∧
    (routeWaitMsLocked (updateRateLimit (runOps RateLimits.init
        [.update (numbered 0) ⟨429, none, 1000, some [0x68], false⟩ 0]) (numbered 1)
          ⟨200, none, 0, some [0x68], false⟩ 50) (numbered 0) 200 false).2 <
      (routeWaitMsLocked (runOps RateLimits.init
        [.update (numbered 0) ⟨429, none, 1000, some [0x68], false⟩ 0]) (numbered 0) 200 false).2 := by
  refine ⟨⟨by decide, rfl⟩, ?_, by decide +kernel, by decide +kernel⟩
  by_contra hnone
  have hlimited := limited_fillOps fun k hk route =>
    Nat.not_lt.mp fun hlowered => hnone ⟨k, hk, route, hlowered⟩
  have hnodup : ((List.range 129).map numbered).Nodup := by
    refine List.Nodup.map_on (fun i hi j hj => ?_) List.nodup_range
    rw [List.mem_range] at hi hj
    exact numbered_injOn (by omega) (by omega)
  have hlength := length_le_bucketCap hnodup fun route hroute => by
    obtain ⟨k, hk, rfl⟩ := List.mem_map.mp hroute
    obtain ⟨b, hb, -⟩ := limitedUntil_iff.mp (hlimited k (List.mem_range.mp hk))
    rw [hb]
    exact nofun
  simp [bucketCap] at hlength

end Dcc.Rest
