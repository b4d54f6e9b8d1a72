import Dcc.Rest.SharedBucket

/-!
# The slots of the rate-limit table

Responses and waits write to slots of the table.  What they do to a slot, and
which slot a new bucket takes:

* `Distinct` says that a route has one bucket, so a response and a wait look at
  the same one; every call on the table keeps it;
* `recordBuckets_slots` is a response: its own slot holds what it says, the
  buckets with the same hash follow, the other buckets stay;
* `evicted_earliest`: only a full table evicts, and then a bucket that resets
  first.
-/

namespace Dcc.Rest

variable {buckets buckets' : List Bucket} {limits : RateLimits} {route route' : RouteKey}
  {b : Bucket} {now : Nat}

/-! ## One bucket for a route -/

/-- No two active buckets are of one route. -/
def Distinct (buckets : List Bucket) : Prop :=
  ∀ (i j : Nat) (b c : Bucket), buckets[i]? = some b → buckets[j]? = some c →
    b.active = true → c.active = true → b.route = c.route → i = j

theorem distinct_init : Distinct RateLimits.init.buckets := by
  intro i j b c hb _ hactive
  rw [List.eq_of_mem_replicate (List.mem_of_getElem? hb)] at hactive
  exact absurd hactive nofun

theorem Distinct.of_slots (h : Distinct buckets)
    (hslots : ∀ (i : Nat) (b' : Bucket), buckets'[i]? = some b' → b'.active = true →
      ∃ b, buckets[i]? = some b ∧ b.active = true ∧ b.route = b'.route) : Distinct buckets' := by
  intro i j b' c' hb' hc' hbActive hcActive heq
  obtain ⟨b, hb, hb1, hb2⟩ := hslots i b' hb' hbActive
  obtain ⟨c, hc, hc1, hc2⟩ := hslots j c' hc' hcActive
  exact h i j b c hb hc hb1 hc1 (hb2.trans (heq.trans hc2.symm))

theorem Distinct.set_fresh (h : Distinct buckets)
    (hmissing : ∀ b ∈ buckets, b.active = true → b.route ≠ route) (index : Nat) :
    Distinct (buckets.set index (Bucket.fresh route)) := by
  have hslot : ∀ (i : Nat) (b : Bucket), (buckets.set index (Bucket.fresh route))[i]? = some b →
      (i = index ∧ b = Bucket.fresh route) ∨ (i ≠ index ∧ buckets[i]? = some b) := by
    intro i b hb
    by_cases hi : i = index
    · subst hi
      rw [List.getElem?_set, if_pos rfl] at hb
      split at hb
      · exact Or.inl ⟨rfl, (Option.some.inj hb).symm⟩
      · exact absurd hb nofun
    · rw [List.getElem?_set_ne (Ne.symm hi)] at hb
      exact Or.inr ⟨hi, hb⟩
  intro i j b c hb hc hbActive hcActive heq
  rcases hslot i b hb with ⟨hi, rfl⟩ | ⟨-, hb⟩
  · rcases hslot j c hc with ⟨hj, rfl⟩ | ⟨-, hc⟩
    · rw [hi, hj]
    · exact absurd heq.symm (hmissing c (List.mem_of_getElem? hc) hcActive)
  · rcases hslot j c hc with ⟨hj, rfl⟩ | ⟨-, hc⟩
    · exact absurd heq (hmissing b (List.mem_of_getElem? hb) hbActive)
    · exact h i j b c hb hc hbActive hcActive heq

theorem Distinct.findOrCreate (h : Distinct buckets) (route : RouteKey) :
    Distinct (findOrCreateBucket route buckets).1 := by
  unfold findOrCreateBucket
  split
  · exact h
  · rename_i slots hlookup
    exact h.set_fresh (findLoop_missing hlookup) _

theorem bucketOf_iff (h : Distinct limits.buckets) :
    limits.bucketOf route = some b ↔
      ∃ i : Nat, limits.buckets[i]? = some b ∧ b.active = true ∧ b.route = route := by
  constructor
  · intro hb
    obtain ⟨i, -, hget, hactive, hroute⟩ := bucketOf_some hb
    exact ⟨i, hget, hactive, hroute⟩
  · rintro ⟨i, hget, hactive, hroute⟩
    cases hfind : findBucket route limits.buckets with
    | none => exact absurd hroute (findBucket_none hfind b (List.mem_of_getElem? hget) hactive)
    | some j =>
      obtain ⟨c, hc, hcActive, hcRoute⟩ := findBucket_some hfind
      obtain rfl : i = j := h i j b c hget hc hactive hcActive (hroute.trans hcRoute.symm)
      simp [RateLimits.bucketOf, hfind, hget]

/-! ## What the calls do to a slot -/

@[simp] theorem setHash_route (b : Bucket) (hash : Option Bytes) :
    (b.setHash hash).route = b.route := by
  unfold Bucket.setHash
  split
  · rfl
  · split <;> rfl

@[simp] theorem setHash_active (b : Bucket) (hash : Option Bytes) :
    (b.setHash hash).active = b.active := by
  unfold Bucket.setHash
  split
  · rfl
  · split <;> rfl

@[simp] theorem setHash_remaining (b : Bucket) (hash : Option Bytes) :
    (b.setHash hash).remaining = b.remaining := by
  unfold Bucket.setHash
  split
  · rfl
  · split <;> rfl

@[simp] theorem setHash_resetAtMs (b : Bucket) (hash : Option Bytes) :
    (b.setHash hash).resetAtMs = b.resetAtMs := by
  unfold Bucket.setHash
  split
  · rfl
  · split <;> rfl

@[simp] theorem setLimit_route (b : Bucket) (response : Response) (resetAtMs : Nat) :
    (b.setLimit response resetAtMs).route = b.route := by
  unfold Bucket.setLimit
  split
  · rfl
  · split
    · rfl
    · split_ifs <;> rfl

@[simp] theorem setLimit_active (b : Bucket) (response : Response) (resetAtMs : Nat) :
    (b.setLimit response resetAtMs).active = b.active := by
  unfold Bucket.setLimit
  split
  · rfl
  · split
    · rfl
    · split_ifs <;> rfl

@[simp] theorem setLimit_bucket (b : Bucket) (response : Response) (resetAtMs : Nat) :
    (b.setLimit response resetAtMs).bucket = b.bucket := by
  unfold Bucket.setLimit
  split
  · rfl
  · split
    · rfl
    · split_ifs <;> rfl

theorem getElem?_propagate (index : Nat) (source : Bucket) (buckets : List Bucket) (i : Nat) :
    (propagate index source (buckets.set index source))[i]? =
      if i = index then (buckets[i]?).map fun _ => source else (buckets[i]?).map source.follow := by
  simp only [propagate, List.getElem?_mapIdx]
  by_cases hi : i = index
  · subst hi
    simp only [List.getElem?_set, if_true]
    split
    · rename_i hlt
      simp [hlt]
    · rename_i hlt
      simp [List.getElem?_eq_none (Nat.le_of_not_lt hlt)]
  · simp [List.getElem?_set_ne (Ne.symm hi), hi]

theorem getElem?_collectWait {i : Nat} (hb : buckets[i]? = some b) (route : RouteKey) (now : Nat)
    (resetExpired : Bool) (waitMs : Nat) :
    (collectWait route now resetExpired buckets waitMs).1[i]? = some b ∨
      (collectWait route now resetExpired buckets waitMs).1[i]? =
        some (b.lift now resetExpired) := by
  rcases collectWait_fst now resetExpired waitMs with heq | ⟨index, c, hc, -, -, hcase⟩
  · rw [heq]
    exact Or.inl hb
  · rcases hcase with ⟨-, heq⟩ | ⟨-, heq⟩
    · rw [heq]
      by_cases hi : i = index
      · subst hi
        obtain rfl : b = c := Option.some.inj (hb.symm.trans hc)
        right
        obtain ⟨hlt, -⟩ := List.getElem?_eq_some_iff.mp hb
        rw [List.getElem?_set, if_pos rfl, if_pos hlt]
      · left
        rw [List.getElem?_set_ne (Ne.symm hi)]
        exact hb
    · rw [heq, List.getElem?_map, hb, Option.map_some, liftRelated]
      split
      · exact Or.inr rfl
      · exact Or.inl rfl

theorem Distinct.recordBuckets (h : Distinct buckets) (route : RouteKey) (response : Response)
    (now : Nat) : Distinct (recordBuckets route response now buckets) := by
  have htable := h.findOrCreate route
  unfold Rest.recordBuckets
  simp only
  split
  · exact htable
  · rename_i c hc
    refine htable.of_slots fun i b' hb' hactive => ?_
    rw [getElem?_propagate] at hb'
    split at hb'
    · rename_i hi
      rw [hi, hc, Option.map_some, Option.some.injEq] at hb'
      subst hb'
      exact ⟨c, hi ▸ hc, by simpa using hactive, by simp⟩
    · obtain ⟨b, hb, rfl⟩ := Option.map_eq_some_iff.mp hb'
      exact ⟨b, hb, by simpa using hactive, by simp⟩

theorem Distinct.collectWait (h : Distinct buckets) (route : RouteKey) (now : Nat)
    (resetExpired : Bool) (waitMs : Nat) :
    Distinct (collectWait route now resetExpired buckets waitMs).1 := by
  refine h.of_slots fun i b' hb' hactive => ?_
  obtain ⟨hlt, -⟩ := List.getElem?_eq_some_iff.mp hb'
  rw [length_collectWait] at hlt
  have hb := List.getElem?_eq_getElem hlt
  refine ⟨_, hb, ?_⟩
  rcases getElem?_collectWait hb route now resetExpired waitMs with heq | heq
  · rw [heq] at hb'
    cases hb'
    exact ⟨hactive, rfl⟩
  · rw [heq] at hb'
    cases hb'
    exact ⟨by simpa using hactive, by simp⟩

theorem distinct_apply (h : Distinct limits.buckets) (op : RateOp) :
    Distinct (op.apply limits).buckets :=
  buckets_apply Distinct.recordBuckets Distinct.collectWait h op

theorem distinct_runOps (h : Distinct limits.buckets) (ops : List RateOp) :
    Distinct (runOps limits ops).buckets := buckets_runOps distinct_apply h ops

/-! ## Eviction -/

/-- The route whose bucket makes room for a bucket of `route`. -/
def RateLimits.evicted (limits : RateLimits) (route : RouteKey) : Option RouteKey :=
  match lookup route limits.buckets with
  | .found _ => none
  | .missing slots =>
    (limits.buckets[slots.victim]?).bind fun b => if b.active then some b.route else none

/-- What the search knows of the slots before `index` of a table. -/
structure Seen (buckets : List Bucket) (index : Nat) (slots : Slots) : Prop where
  free : ∀ i, slots.freeSlot = some i → ∃ b, buckets[i]? = some b ∧ b.active = false
  full : slots.freeSlot = none → ∀ i b, i < index → buckets[i]? = some b → b.active = true
  oldest : ∃ b, buckets[slots.oldest]? = some b ∧ b.resetAtMs = slots.oldestReset
  earliest : ∀ i b, i < index → buckets[i]? = some b → b.active = true →
    slots.oldestReset ≤ b.resetAtMs

theorem Seen.findLoop {start : Nat} {slots slots' : Slots} {rest : List Bucket}
    (h : Seen buckets start slots) (hrest : buckets.drop start = rest)
    (hmissing : findLoop route rest start slots = .missing slots') :
    Seen buckets buckets.length slots' := by
  induction rest generalizing start slots with
  | nil =>
    cases hmissing
    have hlen : buckets.length ≤ start := List.drop_eq_nil_iff.mp hrest
    exact ⟨h.free, fun hfree i b hi => h.full hfree i b (by omega), h.oldest,
      fun i b hi => h.earliest i b (by omega)⟩
  | cons c cs ih =>
    have hc : buckets[start]? = some c := by
      rw [← List.head?_drop, hrest, List.head?_cons]
    have hcs : buckets.drop (start + 1) = cs := by
      rw [← List.drop_drop, hrest, List.drop_one, List.tail_cons]
    -- what holds of the slots before `start + 1` is what holds before `start` and of `c`
    have hslot : ∀ (i : Nat) (b : Bucket), i < start + 1 → buckets[i]? = some b →
        i < start ∨ b = c := by
      intro i b hi hb
      by_cases his : i = start
      · subst his
        exact Or.inr (Option.some.inj (hb.symm.trans hc))
      · exact Or.inl (by omega)
    simp only [Rest.findLoop] at hmissing
    split_ifs at hmissing with hactive hroute holder hfree
    · refine ih ?_ hcs hmissing
      refine ⟨h.free, fun hnone i b hi hb => ?_, ⟨c, hc, rfl⟩, fun i b hi hb hb' => ?_⟩
      · rcases hslot i b hi hb with hlt | rfl
        · exact h.full hnone i b hlt hb
        · exact hactive
      · rcases hslot i b hi hb with hlt | rfl
        · exact Nat.le_trans (Nat.le_of_lt holder) (h.earliest i b hlt hb hb')
        · exact Nat.le_refl _
    · refine ih ?_ hcs hmissing
      refine ⟨h.free, fun hnone i b hi hb => ?_, h.oldest, fun i b hi hb hb' => ?_⟩
      · rcases hslot i b hi hb with hlt | rfl
        · exact h.full hnone i b hlt hb
        · exact hactive
      · rcases hslot i b hi hb with hlt | rfl
        · exact h.earliest i b hlt hb hb'
        · omega
    · refine ih ?_ hcs hmissing
      refine ⟨fun i hi => ?_, fun hnone => absurd hnone (by simp), h.oldest,
        fun i b hi hb hb' => ?_⟩
      · cases hi
        exact ⟨c, hc, by simpa using hactive⟩
      · rcases hslot i b hi hb with hlt | rfl
        · exact h.earliest i b hlt hb hb'
        · exact absurd hb' hactive
    · refine ih ?_ hcs hmissing
      refine ⟨h.free, fun hnone => absurd hnone hfree, h.oldest, fun i b hi hb hb' => ?_⟩
      rcases hslot i b hi hb with hlt | rfl
      · exact h.earliest i b hlt hb hb'
      · exact absurd hb' hactive

theorem seen_lookup {slots : Slots} (h : lookup route limits.buckets = .missing slots) :
    Seen limits.buckets limits.buckets.length slots := by
  have hlen := limits.size_eq
  obtain ⟨first, rest, hcons⟩ : ∃ first rest, limits.buckets = first :: rest := by
    cases hbuckets : limits.buckets with
    | nil => simp [hbuckets, bucketCap] at hlen
    | cons first rest => exact ⟨first, rest, rfl⟩
  refine Seen.findLoop ⟨fun i hi => absurd hi (by simp),
    fun _ i b hi => absurd hi (Nat.not_lt_zero i), ?_,
    fun i b hi => absurd hi (Nat.not_lt_zero i)⟩ (List.drop_zero ..) h
  exact ⟨first, by simp [hcons], by simp [hcons]⟩

theorem victim_lt {slots : Slots} (h : lookup route limits.buckets = .missing slots) :
    slots.victim < limits.buckets.length := by
  have hseen := seen_lookup h
  unfold Slots.victim
  cases hfree : slots.freeSlot with
  | none =>
    obtain ⟨b, hb, -⟩ := hseen.oldest
    exact (List.getElem?_eq_some_iff.mp hb).1
  | some i =>
    obtain ⟨b, hb, -⟩ := hseen.free i hfree
    exact (List.getElem?_eq_some_iff.mp hb).1

/-- **Only a full table evicts**, and then a bucket that no other bucket resets
before. -/
theorem evicted_earliest (h : Distinct limits.buckets) (hevicted : limits.evicted route = some route')
    (hb : limits.bucketOf route' = some b) :
    ∀ c ∈ limits.buckets, c.active = true ∧ b.resetAtMs ≤ c.resetAtMs := by
  unfold RateLimits.evicted at hevicted
  split at hevicted
  · exact absurd hevicted nofun
  · rename_i slots hlookup
    have hseen := seen_lookup hlookup
    obtain ⟨v, hv, hroute⟩ := Option.bind_eq_some_iff.mp hevicted
    split at hroute
    · rename_i hactive
      obtain rfl : v.route = route' := Option.some.inj hroute
      have hnone : slots.freeSlot = none := by
        cases hfree : slots.freeSlot with
        | none => rfl
        | some i =>
          obtain ⟨c, hc, hinactive⟩ := hseen.free i hfree
          rw [Slots.victim, hfree, Option.getD_some, hc] at hv
          obtain rfl : c = v := Option.some.inj hv
          exact absurd hactive (by simp [hinactive])
      obtain ⟨o, ho, hreset⟩ := hseen.oldest
      rw [Slots.victim, hnone, Option.getD_none, ho] at hv
      obtain rfl : o = v := Option.some.inj hv
      have hbo : limits.bucketOf o.route = some o := (bucketOf_iff h).mpr ⟨_, ho, hactive, rfl⟩
      rw [hb] at hbo
      cases hbo
      intro c hc
      obtain ⟨i, hi⟩ := List.mem_iff_getElem?.mp hc
      have hlt := (List.getElem?_eq_some_iff.mp hi).1
      have hcActive := hseen.full hnone i c hlt hi
      exact ⟨hcActive, hreset ▸ hseen.earliest i c hlt hi hcActive⟩
    · exact absurd hroute nofun

/-! ## What a response writes -/

/-- The bucket of a route as it is found or made for a response. -/
def RateLimits.bucketFor (limits : RateLimits) (route : RouteKey) : Bucket :=
  (limits.bucketOf route).getD (Bucket.fresh route)

/-- What a response of `route` leaves in its own bucket. -/
def RateLimits.recorded (limits : RateLimits) (route : RouteKey) (response : Response) (now : Nat) :
    Bucket :=
  ((limits.bucketFor route).setHash response.bucketHash).setLimit response (response.resetAtMs now)

/-- **What a response does to the slots**: its own slot holds what it leaves
there, the other slots follow; an active bucket in its slot was of its route or
is evicted. -/
theorem recordBuckets_slots (limits : RateLimits) (route : RouteKey) (response : Response)
    (now : Nat) :
    ∃ index : Nat, (recordBuckets route response now limits.buckets)[index]? =
        some (limits.recorded route response now) ∧
      (∀ (i : Nat) (b : Bucket), i ≠ index → limits.buckets[i]? = some b →
        (recordBuckets route response now limits.buckets)[i]? =
          some ((limits.recorded route response now).follow b)) ∧
      ∀ b, limits.buckets[index]? = some b → b.active = true →
        b.route = route ∨ limits.evicted route = some b.route := by
  cases hlookup : lookup route limits.buckets with
  | found index =>
    obtain ⟨c, hc, hactive, hroute⟩ := lookup_found hlookup
    have hfor : limits.bucketFor route = c := by
      simp [RateLimits.bucketFor, RateLimits.bucketOf, findBucket, hlookup, hc]
    refine ⟨index, ?_, fun i b hi hb => ?_, fun b hb _ => Or.inl ?_⟩
    · simp [recordBuckets, findOrCreateBucket, hlookup, hc, getElem?_propagate,
        RateLimits.recorded, hfor]
    · simp [recordBuckets, findOrCreateBucket, hlookup, hc, getElem?_propagate, hi, hb,
        RateLimits.recorded, hfor]
    · rw [hc] at hb
      cases hb
      exact hroute
  | missing slots =>
    have hlt := victim_lt hlookup
    have hfor : limits.bucketFor route = Bucket.fresh route := by
      simp [RateLimits.bucketFor, RateLimits.bucketOf, findBucket, hlookup]
    have hslot : (limits.buckets.set slots.victim (Bucket.fresh route))[slots.victim]? =
        some (Bucket.fresh route) := by
      rw [List.getElem?_set, if_pos rfl, if_pos hlt]
    refine ⟨slots.victim, ?_, fun i b hi hb => ?_, fun b hb hactive => Or.inr ?_⟩
    · simp only [recordBuckets, findOrCreateBucket, hlookup, hslot, getElem?_propagate,
        RateLimits.recorded, hfor, if_true, Option.map_some]
    · simp only [recordBuckets, findOrCreateBucket, hlookup, hslot, getElem?_propagate,
        RateLimits.recorded, hfor, hi, if_false, List.getElem?_set_ne (Ne.symm hi), hb,
        Option.map_some]
    · simp [RateLimits.evicted, hlookup, hb, hactive]

theorem recorded_route (limits : RateLimits) (route : RouteKey) (response : Response) (now : Nat) :
    (limits.recorded route response now).active = true ∧
      (limits.recorded route response now).route = route := by
  simp only [RateLimits.recorded, setLimit_active, setLimit_route, setHash_active, setHash_route,
    RateLimits.bucketFor]
  cases hb : limits.bucketOf route with
  | none => exact ⟨rfl, rfl⟩
  | some b =>
    obtain ⟨-, -, -, hactive, hroute⟩ := bucketOf_some hb
    exact ⟨hactive, hroute⟩

end Dcc.Rest
