import Mathlib.Data.List.Basic
import Mathlib.Tactic.SplitIfs
import Dcc.Rest.RateLimit

/-!
# Buckets that share a hash

Routes whose buckets carry one bucket hash share one limit, but the table holds
a copy of the limit in each bucket.  The copies agree in every reachable table:

* `Coherent` says so of a list of buckets; `recordBuckets` and `collectWait`
  keep it, whatever the response or the clock reading;
* `coherent_runOps` is the run: any sequence of responses and waits over any
  routes and hashes;
* `sharedBucket_law` adds what follows for the waits: two routes of one shared
  bucket are told the same wait.
-/

namespace Dcc.Rest

/-! ## The search -/

variable {route : RouteKey}

theorem findLoop_found :
    ∀ {buckets : List Bucket} {start index : Nat} {slots : Slots},
      findLoop route buckets start slots = .found index →
      ∃ j b, index = start + j ∧ buckets[j]? = some b ∧ b.active = true ∧ b.route = route
  | [], start, index, slots, h => by cases h
  | c :: cs, start, index, slots, h => by
      have hnext : ∀ {slots' : Slots}, findLoop route cs (start + 1) slots' = .found index →
          ∃ j b, index = start + j ∧ (c :: cs)[j]? = some b ∧ b.active = true ∧
            b.route = route := by
        intro slots' hfound
        obtain ⟨j, b, hj, hb, hactive, hroute⟩ := findLoop_found hfound
        exact ⟨j + 1, b, by omega, by simpa using hb, hactive, hroute⟩
      simp only [findLoop] at h
      split_ifs at h with hactive hroute
      · cases h
        exact ⟨0, c, rfl, rfl, hactive, hroute⟩
      · exact hnext h
      · exact hnext h
      · exact hnext h
      · exact hnext h

theorem findLoop_missing :
    ∀ {buckets : List Bucket} {start : Nat} {slots slots' : Slots},
      findLoop route buckets start slots = .missing slots' →
      ∀ b ∈ buckets, b.active = true → b.route ≠ route
  | [], _, _, _, _ => by simp
  | c :: cs, start, slots, slots', h => by
      simp only [findLoop] at h
      rw [List.forall_mem_cons]
      split_ifs at h with hactive hroute
      · exact ⟨fun _ => hroute, findLoop_missing h⟩
      · exact ⟨fun _ => hroute, findLoop_missing h⟩
      · exact ⟨fun h' => absurd h' hactive, findLoop_missing h⟩
      · exact ⟨fun h' => absurd h' hactive, findLoop_missing h⟩

variable {buckets : List Bucket}

variable {index : Nat}

theorem lookup_found (h : lookup route buckets = .found index) :
    ∃ b, buckets[index]? = some b ∧ b.active = true ∧ b.route = route := by
  obtain ⟨j, b, hj, hb, hactive, hroute⟩ := findLoop_found h
  rw [Nat.zero_add] at hj
  exact ⟨b, by rwa [hj], hactive, hroute⟩

theorem findBucket_some (h : findBucket route buckets = some index) :
    ∃ b, buckets[index]? = some b ∧ b.active = true ∧ b.route = route := by
  unfold findBucket at h
  split at h
  · next hlookup =>
    cases h
    exact lookup_found hlookup
  · cases h

theorem findBucket_none
    (h : findBucket route buckets = none) : ∀ b ∈ buckets, b.active = true → b.route ≠ route := by
  unfold findBucket at h
  split at h
  · cases h
  · next hlookup => exact findLoop_missing hlookup

/-! ## Coherent tables -/

/-- Two buckets with the same limit. -/
def SameLimit (b c : Bucket) : Prop := b.remaining = c.remaining ∧ b.resetAtMs = c.resetAtMs

/-- Active buckets that carry one non-empty hash agree on their limit. -/
def Coherent (buckets : List Bucket) : Prop :=
  ∀ b ∈ buckets, ∀ c ∈ buckets, b.active = true → c.active = true →
    b.bucket ≠ [] → b.bucket = c.bucket → SameLimit b c

theorem coherent_init : Coherent RateLimits.init.buckets := by
  intro b hb c hc hactive
  rw [List.eq_of_mem_replicate hb] at hactive
  cases hactive

theorem Coherent.set_fresh (h : Coherent buckets) (index : Nat)
    (route : RouteKey) : Coherent (buckets.set index (Bucket.fresh route)) := by
  intro b hb c hc hbActive hcActive hne heq
  rcases List.mem_or_eq_of_mem_set hb with hb | rfl
  · rcases List.mem_or_eq_of_mem_set hc with hc | rfl
    · exact h b hb c hc hbActive hcActive hne heq
    · exact absurd heq hne
  · exact absurd rfl hne

theorem Coherent.findOrCreate (h : Coherent buckets) (route : RouteKey) :
    Coherent (findOrCreateBucket route buckets).1 := by
  unfold findOrCreateBucket
  split
  · exact h
  · exact h.set_fresh _ route

/-! ## Responses keep the table coherent -/

variable {b : Bucket}

theorem hashMatches_iff {hash : Bytes} :
    b.hashMatches hash = true ↔ hash ≠ [] ∧ b.bucket = hash := by
  simp [Bucket.hashMatches]

@[simp] theorem follow_bucket (source related : Bucket) :
    (source.follow related).bucket = related.bucket := by
  unfold Bucket.follow
  split <;> rfl

@[simp] theorem follow_active (source related : Bucket) :
    (source.follow related).active = related.active := by
  unfold Bucket.follow
  split <;> rfl

@[simp] theorem follow_route (source related : Bucket) :
    (source.follow related).route = related.route := by
  unfold Bucket.follow
  split <;> rfl

variable {source related : Bucket}

theorem sameLimit_follow (hactive : related.active = true)
    (hne : related.bucket ≠ []) (heq : related.bucket = source.bucket) :
    SameLimit (source.follow related) source := by
  have hmatch : (related.active && related.hashMatches source.bucket) = true := by
    rw [hactive, Bool.true_and, hashMatches_iff]
    exact ⟨heq ▸ hne, heq⟩
  simp [Bucket.follow, hmatch, SameLimit]

theorem follow_of_ne (hne : related.bucket ≠ source.bucket) :
    source.follow related = related := by
  have hmatch : ¬ (related.active && related.hashMatches source.bucket) = true := by
    rw [Bool.and_eq_true, hashMatches_iff]
    exact fun h => hne h.2.2
  simp [Bucket.follow, hmatch]

theorem mem_propagate {source b : Bucket}
    (hb : b ∈ propagate index source (buckets.set index source)) :
    b = source ∨ ∃ old ∈ buckets, b = source.follow old := by
  obtain ⟨i, hi⟩ := List.mem_iff_getElem?.mp hb
  simp only [propagate, List.getElem?_mapIdx, Option.map_eq_some_iff] at hi
  obtain ⟨c, hc, rfl⟩ := hi
  split
  · next hindex =>
    subst hindex
    left
    rw [List.getElem?_set] at hc
    split_ifs at hc with hlt
    · exact (Option.some.inj hc).symm
    · exact absurd rfl hlt
  · next hindex =>
    right
    rw [List.getElem?_set_ne (Ne.symm hindex)] at hc
    exact ⟨c, List.mem_of_getElem? hc, rfl⟩

theorem Coherent.propagate (h : Coherent buckets) (index : Nat)
    (source : Bucket) : Coherent (propagate index source (buckets.set index source)) := by
  -- a bucket with the hash of the source holds the limit of the source
  have hsource : ∀ b ∈ Rest.propagate index source (buckets.set index source),
      b.active = true → b.bucket ≠ [] → b.bucket = source.bucket → SameLimit b source := by
    intro b hb hactive hne heq
    rcases mem_propagate hb with rfl | ⟨old, _, rfl⟩
    · exact ⟨rfl, rfl⟩
    · rw [follow_active] at hactive
      rw [follow_bucket] at hne heq
      exact sameLimit_follow hactive hne heq
  -- any other bucket is as it was before
  have hother : ∀ b ∈ Rest.propagate index source (buckets.set index source),
      b.bucket ≠ source.bucket → b ∈ buckets := by
    intro b hb hne
    rcases mem_propagate hb with rfl | ⟨old, hold, rfl⟩
    · exact absurd rfl hne
    · rw [follow_bucket] at hne
      rwa [follow_of_ne hne]
  intro b hb c hc hbActive hcActive hne heq
  by_cases hb' : b.bucket = source.bucket
  · obtain ⟨hbRemaining, hbReset⟩ := hsource b hb hbActive hne hb'
    obtain ⟨hcRemaining, hcReset⟩ := hsource c hc hcActive (heq ▸ hne) (heq ▸ hb')
    exact ⟨hbRemaining.trans hcRemaining.symm, hbReset.trans hcReset.symm⟩
  · exact h b (hother b hb hb') c (hother c hc (heq ▸ hb')) hbActive hcActive hne heq

theorem Coherent.recordBuckets (h : Coherent buckets) (route : RouteKey)
    (response : Response) (now : Nat) : Coherent (recordBuckets route response now buckets) := by
  have htable := h.findOrCreate route
  unfold Rest.recordBuckets
  simp only
  split
  · exact htable
  · exact htable.propagate _ _

/-! ## Waits keep the table coherent -/

@[simp] theorem lift_bucket (b : Bucket) (now : Nat) (resetExpired : Bool) :
    (b.lift now resetExpired).bucket = b.bucket := by
  unfold Bucket.lift
  split <;> rfl

@[simp] theorem lift_active (b : Bucket) (now : Nat) (resetExpired : Bool) :
    (b.lift now resetExpired).active = b.active := by
  unfold Bucket.lift
  split <;> rfl

@[simp] theorem lift_route (b : Bucket) (now : Nat) (resetExpired : Bool) :
    (b.lift now resetExpired).route = b.route := by
  unfold Bucket.lift
  split <;> rfl

theorem lift_lift (b : Bucket) (now : Nat) (resetExpired : Bool) :
    (b.lift now resetExpired).lift now resetExpired = b.lift now resetExpired := by
  unfold Bucket.lift
  split_ifs <;> simp_all

theorem SameLimit.lift {b c : Bucket} (h : SameLimit b c) (now : Nat) (resetExpired : Bool) :
    SameLimit (b.lift now resetExpired) (c.lift now resetExpired) := by
  obtain ⟨hremaining, hreset⟩ := h
  unfold Bucket.lift
  rw [hremaining, hreset]
  split
  · exact ⟨rfl, rfl⟩
  · exact ⟨hremaining, hreset⟩

/-- The related buckets lose an expired limit; the others stay. -/
def liftRelated (hash : Bytes) (now : Nat) (resetExpired : Bool) (b : Bucket) : Bucket :=
  if b.active && b.hashMatches hash then b.lift now resetExpired else b

theorem collectRelated_fst (hash : Bytes) (now : Nat) (resetExpired : Bool) :
    ∀ (buckets : List Bucket) (waitMs : Nat),
      (collectRelated hash now resetExpired buckets waitMs).1 =
        buckets.map (liftRelated hash now resetExpired)
  | [], _ => rfl
  | b :: bs, waitMs => by
      simp only [collectRelated, List.map_cons, liftRelated]
      split
      · simp only [collectRelated_fst hash now resetExpired bs]
      · simp only [collectRelated_fst hash now resetExpired bs]

theorem map_liftRelated_set
    (hb : buckets[index]? = some b) (hactive : b.active = true) (hne : b.bucket ≠ []) (now : Nat)
    (resetExpired : Bool) :
    (buckets.set index (b.lift now resetExpired)).map (liftRelated b.bucket now resetExpired) =
      buckets.map (liftRelated b.bucket now resetExpired) := by
  have hmatch : (b.active && b.hashMatches b.bucket) = true := by
    rw [hactive, Bool.true_and, hashMatches_iff]
    exact ⟨hne, rfl⟩
  have hlift : liftRelated b.bucket now resetExpired (b.lift now resetExpired) =
      liftRelated b.bucket now resetExpired b := by
    have hmatch' : ((b.lift now resetExpired).active &&
        (b.lift now resetExpired).hashMatches b.bucket) = true := by
      simpa [Bucket.hashMatches] using hmatch
    rw [liftRelated, liftRelated, if_pos hmatch, if_pos hmatch', lift_lift]
  rw [List.map_set, hlift]
  refine List.ext_getElem? fun i => ?_
  by_cases hi : index = i
  · subst hi
    rw [List.getElem?_set, if_pos rfl, List.getElem?_map, hb, List.length_map]
    obtain ⟨hlt, _⟩ := List.getElem?_eq_some_iff.mp hb
    rw [if_pos hlt]
    rfl
  · rw [List.getElem?_set_ne hi]

theorem collectWait_fst (now : Nat) (resetExpired : Bool) (waitMs : Nat) :
    (collectWait route now resetExpired buckets waitMs).1 = buckets ∨
      ∃ index b, buckets[index]? = some b ∧ b.active = true ∧ b.route = route ∧
        ((b.bucket = [] ∧ (collectWait route now resetExpired buckets waitMs).1 =
            buckets.set index (b.lift now resetExpired)) ∨
          (b.bucket ≠ [] ∧ (collectWait route now resetExpired buckets waitMs).1 =
            buckets.map (liftRelated b.bucket now resetExpired))) := by
  unfold collectWait
  cases hfind : findBucket route buckets with
  | none => exact Or.inl rfl
  | some index =>
    obtain ⟨b, hb, hactive, hroute⟩ := findBucket_some hfind
    right
    refine ⟨index, b, hb, hactive, hroute, ?_⟩
    simp only [hb]
    by_cases hne : b.bucket = []
    · left
      simp [hne]
    · right
      simp only [hne, ne_eq, not_false_eq_true, if_true, true_and, collectRelated_fst]
      exact map_liftRelated_set hb hactive hne now resetExpired

theorem Coherent.set_lift (h : Coherent buckets)
    (hempty : b.bucket = []) (now : Nat) (resetExpired : Bool) :
    Coherent (buckets.set index (b.lift now resetExpired)) := by
  intro c hc d hd hcActive hdActive hne heq
  rcases List.mem_or_eq_of_mem_set hc with hc | rfl
  · rcases List.mem_or_eq_of_mem_set hd with hd | rfl
    · exact h c hc d hd hcActive hdActive hne heq
    · rw [lift_bucket, hempty] at heq
      exact absurd heq hne
  · rw [lift_bucket, hempty] at hne
    exact absurd rfl hne

theorem liftRelated_bucket (hash : Bytes) (now : Nat) (resetExpired : Bool) (b : Bucket) :
    (liftRelated hash now resetExpired b).bucket = b.bucket := by
  unfold liftRelated
  split <;> simp

theorem liftRelated_active (hash : Bytes) (now : Nat) (resetExpired : Bool) (b : Bucket) :
    (liftRelated hash now resetExpired b).active = b.active := by
  unfold liftRelated
  split <;> simp

theorem Coherent.map_liftRelated (h : Coherent buckets) (hash : Bytes)
    (now : Nat) (resetExpired : Bool) :
    Coherent (buckets.map (liftRelated hash now resetExpired)) := by
  intro c hc d hd hcActive hdActive hne heq
  obtain ⟨b, hb, rfl⟩ := List.mem_map.mp hc
  obtain ⟨e, he, rfl⟩ := List.mem_map.mp hd
  simp only [liftRelated_bucket, liftRelated_active] at hcActive hdActive hne heq
  have hsame := h b hb e he hcActive hdActive hne heq
  -- the two carry one hash, so both are related or neither is
  have hmatch : e.hashMatches hash = b.hashMatches hash := by
    simp [Bucket.hashMatches, heq]
  unfold liftRelated
  rw [hcActive, hdActive, hmatch]
  split
  · exact hsame.lift now resetExpired
  · exact hsame

theorem Coherent.collectWait (h : Coherent buckets) (route : RouteKey)
    (now : Nat) (resetExpired : Bool) (waitMs : Nat) :
    Coherent (collectWait route now resetExpired buckets waitMs).1 := by
  rcases collectWait_fst now resetExpired waitMs with heq | ⟨index, b, _, _, _, hcase⟩
  · rw [heq]
    exact h
  · rcases hcase with ⟨hempty, heq⟩ | ⟨_, heq⟩
    · rw [heq]
      exact h.set_lift hempty now resetExpired
    · rw [heq]
      exact h.map_liftRelated b.bucket now resetExpired

/-! ## Runs -/

/-- One call on the rate-limit table, with the clock reading it makes. -/
inductive RateOp
  | update (route : RouteKey) (response : Response) (now : Nat)
  | wait (route : RouteKey) (now : Nat) (resetExpired : Bool)

/-- The table after one call. -/
def RateOp.apply (limits : RateLimits) : RateOp → RateLimits
  | .update route response now => updateRateLimit limits route response now
  | .wait route now resetExpired => (routeWaitMsLocked limits route now resetExpired).1

/-- The table after a sequence of calls. -/
def runOps (limits : RateLimits) (ops : List RateOp) : RateLimits := ops.foldl RateOp.apply limits

section Invariant

variable {P : List Bucket → Prop} {limits : RateLimits}

theorem buckets_apply (hrecord : ∀ {buckets}, P buckets → ∀ route response now,
      P (recordBuckets route response now buckets))
    (hwait : ∀ {buckets}, P buckets → ∀ route now resetExpired waitMs,
      P (collectWait route now resetExpired buckets waitMs).1)
    (h : P limits.buckets) (op : RateOp) : P (op.apply limits).buckets := by
  cases op with
  | update route response now =>
    simp only [RateOp.apply, updateRateLimit]
    split
    · exact hrecord h route response now
    · exact h
  | wait route now resetExpired => exact hwait h route now resetExpired _

/-- **What a call keeps of the buckets, a sequence of calls keeps.** -/
theorem buckets_runOps
    (happly : ∀ {limits : RateLimits}, P limits.buckets → ∀ op : RateOp, P (op.apply limits).buckets)
    (h : P limits.buckets) (ops : List RateOp) : P (runOps limits ops).buckets := by
  induction ops generalizing limits with
  | nil => exact h
  | cons op ops ih => exact ih (happly h op)

end Invariant

theorem coherent_apply {limits : RateLimits} (h : Coherent limits.buckets) (op : RateOp) :
    Coherent (op.apply limits).buckets :=
  buckets_apply Coherent.recordBuckets Coherent.collectWait h op

theorem coherent_runOps {limits : RateLimits} (h : Coherent limits.buckets) (ops : List RateOp) :
    Coherent (runOps limits ops).buckets := buckets_runOps coherent_apply h ops

/-! ## The wait of a shared bucket -/

/-- The time a bucket still holds its requests back. -/
def Bucket.holdMs (b : Bucket) (now : Nat) : Nat := if b.remaining = 0 then b.resetAtMs - now else 0

theorem waitMs_eq_max (b : Bucket) (now waitMs : Nat) :
    b.waitMs now waitMs = max waitMs (b.holdMs now) := by
  unfold Bucket.waitMs Bucket.holdMs
  split_ifs with h1 h2
  · omega
  · omega
  · omega
  · omega

theorem SameLimit.holdMs_eq {b c : Bucket} (h : SameLimit b c) (now : Nat) :
    b.holdMs now = c.holdMs now := by
  simp [Bucket.holdMs, h.1, h.2]

theorem holdMs_lift (b : Bucket) (now : Nat) (resetExpired : Bool) :
    (b.lift now resetExpired).holdMs now = b.holdMs now := by
  unfold Bucket.lift Bucket.holdMs
  split_ifs with h1 <;> simp_all

theorem collectRelated_snd {hash : Bytes} {now : Nat} {resetExpired : Bool} {waitMs : Nat} :
    ∀ {buckets : List Bucket},
      (∀ b ∈ buckets, b.active = true → b.hashMatches hash = true → b.holdMs now ≤ waitMs) →
      (collectRelated hash now resetExpired buckets waitMs).2 = waitMs
  | [], _ => rfl
  | b :: bs, h => by
      rw [List.forall_mem_cons] at h
      simp only [collectRelated]
      split
      · next hmatch =>
        rw [Bool.and_eq_true] at hmatch
        rw [waitMs_eq_max, Nat.max_eq_left (h.1 hmatch.1 hmatch.2)]
        exact collectRelated_snd h.2
      · exact collectRelated_snd h.2

theorem collectWait_snd (hcoherent : Coherent buckets)
    (hfind : findBucket route buckets = some index)
    (hb : buckets[index]? = some b) (hactive : b.active = true) (now : Nat) (resetExpired : Bool)
    (waitMs : Nat) :
    (collectWait route now resetExpired buckets waitMs).2 = max waitMs (b.holdMs now) := by
  have hmem : b ∈ buckets := List.mem_of_getElem? hb
  simp only [collectWait, hfind, hb]
  split
  · rw [waitMs_eq_max]
    refine collectRelated_snd fun c hc hcActive hmatch => ?_
    obtain ⟨hne, heq⟩ := hashMatches_iff.mp hmatch
    have hsame : c.holdMs now = b.holdMs now := by
      rcases List.mem_or_eq_of_mem_set hc with hc | rfl
      · exact (hcoherent c hc b hmem hcActive hactive (heq ▸ hne) heq).holdMs_eq now
      · exact holdMs_lift b now resetExpired
    rw [hsame]
    exact Nat.le_max_right _ _
  · exact waitMs_eq_max b now waitMs

/-- The bucket a route is served from. -/
def RateLimits.bucketOf (limits : RateLimits) (route : RouteKey) : Option Bucket :=
  (findBucket route limits.buckets).bind fun index => limits.buckets[index]?

theorem bucketOf_some {limits : RateLimits} (h : limits.bucketOf route = some b) :
    ∃ index, findBucket route limits.buckets = some index ∧ limits.buckets[index]? = some b ∧
      b.active = true ∧ b.route = route := by
  obtain ⟨index, hfind, hb⟩ := Option.bind_eq_some_iff.mp h
  obtain ⟨c, hc, hactive, hroute⟩ := findBucket_some hfind
  rw [hb] at hc
  cases hc
  exact ⟨index, hfind, hb, hactive, hroute⟩

theorem routeWait_eq {limits : RateLimits} (hcoherent : Coherent limits.buckets)
    (h : limits.bucketOf route = some b) (now : Nat) (resetExpired : Bool) :
    (routeWaitMsLocked limits route now resetExpired).2 =
      max (limits.globalWaitMs now) (b.holdMs now) := by
  obtain ⟨index, hfind, hb, hactive, _⟩ := bucketOf_some h
  exact collectWait_snd hcoherent hfind hb hactive now resetExpired _

/-- **Shared buckets are coherent.**  In every table that a sequence of
responses and waits can leave, active buckets with one non-empty hash agree on
the remaining count and the reset time, and two routes with such buckets are
told the same wait at every time. -/
theorem sharedBucket_law (ops : List RateOp) :
    (∀ b ∈ (runOps RateLimits.init ops).buckets, ∀ c ∈ (runOps RateLimits.init ops).buckets,
      b.active = true → c.active = true → b.bucket ≠ [] → b.bucket = c.bucket →
        b.remaining = c.remaining ∧ b.resetAtMs = c.resetAtMs) ∧
    (∀ (route route' : RouteKey) (b c : Bucket) (now : Nat) (resetExpired resetExpired' : Bool),
      (runOps RateLimits.init ops).bucketOf route = some b →
      (runOps RateLimits.init ops).bucketOf route' = some c →
      b.bucket ≠ [] → b.bucket = c.bucket →
        (routeWaitMsLocked (runOps RateLimits.init ops) route now resetExpired).2 =
          (routeWaitMsLocked (runOps RateLimits.init ops) route' now resetExpired').2) := by
  have hcoherent := coherent_runOps coherent_init ops
  refine ⟨hcoherent, fun route route' b c now resetExpired resetExpired' hb hc hne heq => ?_⟩
  rw [routeWait_eq hcoherent hb, routeWait_eq hcoherent hc]
  obtain ⟨_, _, hbGet, hbActive, _⟩ := bucketOf_some hb
  obtain ⟨_, _, hcGet, hcActive, _⟩ := bucketOf_some hc
  have hsame := hcoherent b (List.mem_of_getElem? hbGet) c (List.mem_of_getElem? hcGet) hbActive
    hcActive hne heq
  rw [SameLimit.holdMs_eq hsame]

/-- Two routes, `a` and `b`, that the server serves from the bucket `h`. -/
theorem sharedBucket_law_two_routes :
    let a : RouteKey := ⟨[0x61], by decide, by decide⟩
    let b : RouteKey := ⟨[0x62], by decide, by decide⟩
    let limits := runOps RateLimits.init
      [.update a ⟨200, some 4, 500, some [0x68], false⟩ 10,
        .update b ⟨429, none, 900, some [0x68], false⟩ 20]
    (routeWaitMsLocked limits a 100 true).2 = 820 ∧
      (routeWaitMsLocked limits a 100 true).2 = (routeWaitMsLocked limits b 100 false).2 := by
  intro a b limits
  refine ⟨by decide +kernel, ?_⟩
  exact (sharedBucket_law _).2 a b ⟨a, [0x68], 0, 920, true⟩ ⟨b, [0x68], 0, 920, true⟩ 100 true
    false (by decide +kernel) (by decide +kernel) (by decide) rfl

end Dcc.Rest
