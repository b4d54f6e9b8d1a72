import Mathlib.Logic.Function.Basic
import Dcc.Basic
import Dcc.Lib.Reach

/-!
# IDENTIFY slots of a cluster

The shards of a cluster take IDENTIFY slots from one coordinator, which keeps the budget of
the session limit, the time of its reset and, for each bucket, the time of its next slot.
Each try of a shard happens under the lock of the coordinator; a shard that has to wait
sleeps and tries again.  The coordinator gets its numbers from the first shard, which
fetched them.

* `slots_spaced_and_budgeted` — slots of one bucket are five seconds apart and the budget is
  kept, in every run in which the numbers are refreshed only while no bucket waits and
  account for the slots granted since the reset, and in which no shard asks once the budget
  is used up and no reset time is known;
* `slots_too_close_and_too_many` — without these, both parts fail.
-/

namespace Dcc.Identify

/-- `UINT32_MAX`. -/
def uint32Max : Nat := 2 ^ 32 - 1

/-- `DCC_CLUSTER_IDENTIFY_BUCKET_CAP`. -/
def identifyBucketCap : Nat := 64

/-- The fields of a shard's `dcc_client_t` that deal with IDENTIFY. -/
structure Shard where
  shardId : Nat
  gatewayMaxConcurrency : Nat
  gatewayRemainingIdentifies : Nat
  gatewaySessionTotalIdentifies : Nat
  gatewaySessionResetAfterMs : Nat
  gatewaySessionResetAtMs : Nat
  gatewayIdentifyDelayMs : Nat

/-- `dcc_cluster_identify_coordinator_t`. -/
structure Coordinator where
  maxConcurrency : Nat
  remaining : Nat
  total : Nat
  resetAtMs : Nat
  bucketNextMs : Nat → Nat
  waits : Nat
  reservations : Nat

/-- `dcc_cluster_t`, as far as IDENTIFY reads it. -/
structure Cluster where
  shards : List Shard
  gatewayMaxConcurrency : Nat
  coordinator : Coordinator

/-- The numbers of a `GET /gateway/bot` response, each where it is there and a number. -/
structure BotInfo where
  total : Option Nat
  maxConcurrency : Option Nat
  remaining : Option Nat
  resetAfter : Option Nat

/-- `dcc_gateway_now_ms` at a reading of `llam_now_ns`. -/
def gatewayNowMs (nowNs : UInt64) : Nat := nowNs.toNat / 1000000

/-- `dcc_gateway_apply_bot_info`, of a response with a URL. -/
def applyBotInfo (nowMs : Nat) (info : BotInfo) (shard : Shard) : Shard :=
  let shard := match info.total with
    | some value =>
      if value ≤ uint32Max then { shard with gatewaySessionTotalIdentifies := value } else shard
    | none => shard
  let shard := match info.maxConcurrency with
    | some value =>
      if value > 0 ∧ value ≤ uint32Max then { shard with gatewayMaxConcurrency := value }
      else shard
    | none => shard
  let shard := match info.remaining with
    | some value =>
      if value ≤ uint32Max then { shard with gatewayRemainingIdentifies := value } else shard
    | none => shard
  match info.resetAfter with
  | some value =>
    { shard with
      gatewaySessionResetAfterMs := value
      gatewaySessionResetAtMs := addMs nowMs value }
  | none => shard

/-- `dcc_gateway_refresh_identify_limit`. -/
def refreshIdentifyLimit (nowMs : Nat) (shard : Shard) : Shard :=
  if shard.gatewayRemainingIdentifies ≠ 0 ∨ shard.gatewaySessionResetAtMs = 0 ∨
      nowMs < shard.gatewaySessionResetAtMs then shard
  else
    { shard with
      gatewayRemainingIdentifies :=
        if shard.gatewaySessionTotalIdentifies ≠ 0 then shard.gatewaySessionTotalIdentifies else 1
      gatewaySessionResetAtMs := 0 }

/-- The start of `dcc_gateway_wait_identify_slot`: the delay before the coordinator is
asked. -/
def waitIdentifySlot (nowMs : Nat) (shard : Shard) : Nat × Shard :=
  let delayMs := shard.gatewayIdentifyDelayMs
  let shard := refreshIdentifyLimit nowMs { shard with gatewayIdentifyDelayMs := 0 }
  if shard.gatewayRemainingIdentifies = 0 ∧ shard.gatewaySessionResetAtMs ≠ 0 ∧
      nowMs < shard.gatewaySessionResetAtMs then
    let resetDelay := shard.gatewaySessionResetAtMs - nowMs
    (if resetDelay > delayMs then resetDelay else delayMs, shard)
  else (delayMs, shard)

/-- The session limit is due for its reset. -/
def Coordinator.resetDue (c : Coordinator) (nowMs : Nat) : Bool :=
  decide (c.remaining = 0 ∧ c.resetAtMs ≠ 0 ∧ nowMs ≥ c.resetAtMs)

/-- The budget after a reset. -/
def Coordinator.limit (c : Coordinator) : Nat := if c.total ≠ 0 then c.total else 1

/-- The reset of a try of `dcc_gateway_wait_cluster_identify_slot`. -/
def Coordinator.reset (c : Coordinator) (nowMs : Nat) : Coordinator :=
  if c.resetDue nowMs then { c with remaining := c.limit, resetAtMs := 0 } else c

/-- The bucket of a shard. -/
def Coordinator.bucket (c : Coordinator) (shardId : Nat) : Nat :=
  let concurrency := if c.maxConcurrency ≠ 0 then c.maxConcurrency else 1
  let concurrency := if concurrency > identifyBucketCap then identifyBucketCap else concurrency
  shardId % concurrency

/-- How long a shard has to wait. -/
def Coordinator.delay (c : Coordinator) (shardId nowMs : Nat) : Nat :=
  let delayMs := if c.remaining = 0 ∧ c.resetAtMs > nowMs then c.resetAtMs - nowMs else 0
  let next := c.bucketNextMs (c.bucket shardId)
  if next > nowMs then
    let bucketDelay := next - nowMs
    if bucketDelay > delayMs then bucketDelay else delayMs
  else delayMs

/-- The slot is taken. -/
def Coordinator.take (c : Coordinator) (shardId nowMs : Nat) : Coordinator :=
  { c with
    bucketNextMs := Function.update c.bucketNextMs (c.bucket shardId) (wordAdd nowMs 5000)
    remaining := if c.remaining > 0 then c.remaining - 1 else c.remaining
    reservations := wordAdd c.reservations 1 }

/-- One round of the loop of `dcc_gateway_wait_cluster_identify_slot`, under the lock: the
delay, 0 for a slot, and the coordinator. -/
def Coordinator.attempt (c : Coordinator) (shardId nowMs : Nat) : Nat × Coordinator :=
  let c := c.reset nowMs
  let delayMs := c.delay shardId nowMs
  if delayMs = 0 then (0, c.take shardId nowMs)
  else (delayMs, { c with waits := wordAdd c.waits 1 })

/-- A round of the shard at `index`, which learns the budget with its slot. -/
def Cluster.attempt (cluster : Cluster) (index nowMs : Nat) : Cluster :=
  match cluster.shards[index]? with
  | none => cluster
  | some shard =>
    let (delayMs, coordinator) := cluster.coordinator.attempt shard.shardId nowMs
    let shards :=
      if delayMs = 0 then
        cluster.shards.set index
          { shard with gatewayRemainingIdentifies := coordinator.remaining }
      else cluster.shards
    { cluster with shards, coordinator }

/-- `dcc_cluster_identify_delay`. -/
def identifyDelay (index maxConcurrency : Nat) : Option Nat :=
  let maxConcurrency := if maxConcurrency = 0 then 1 else maxConcurrency
  let delay := index / maxConcurrency * 5000
  if delay > uint32Max then none else some delay

/-- The loop of `dcc_cluster_apply_identify_delays`, from `index`; it stops at a delay that is
out of range. -/
def applyIdentifyDelays (maxConcurrency : Nat) : List Shard → Nat → List Shard
  | [], _ => []
  | shard :: shards, index =>
    match identifyDelay index maxConcurrency with
    | none => shard :: shards
    | some delayMs =>
      { shard with gatewayIdentifyDelayMs := delayMs } ::
        applyIdentifyDelays maxConcurrency shards (index + 1)

/-- The numbers of `source` in another shard. -/
def copyShard (source shard : Shard) : Shard :=
  { shard with
    gatewayMaxConcurrency := source.gatewayMaxConcurrency
    gatewayRemainingIdentifies := source.gatewayRemainingIdentifies
    gatewaySessionTotalIdentifies := source.gatewaySessionTotalIdentifies
    gatewaySessionResetAfterMs := source.gatewaySessionResetAfterMs
    gatewaySessionResetAtMs := source.gatewaySessionResetAtMs }

/-- `dcc_cluster_copy_gateway_info_from_first`, where the URLs could be copied. -/
def Cluster.copyGatewayInfoFromFirst (cluster : Cluster) : Cluster :=
  match cluster.shards with
  | [] => cluster
  | source :: targets =>
    let maxConcurrency :=
      if source.gatewayMaxConcurrency ≠ 0 then source.gatewayMaxConcurrency
      else cluster.gatewayMaxConcurrency
    { shards :=
        applyIdentifyDelays maxConcurrency (source :: targets.map (copyShard source)) 0
      gatewayMaxConcurrency := maxConcurrency
      coordinator :=
        { cluster.coordinator with
          maxConcurrency
          remaining := source.gatewayRemainingIdentifies
          total := source.gatewaySessionTotalIdentifies
          resetAtMs := source.gatewaySessionResetAtMs
          bucketNextMs := fun _ => 0 } }

/-! ## Runs -/

/-- What the tasks of a cluster do: the first shard fetches the numbers, they are copied to
the coordinator, a shard begins to wait for a slot, and a shard tries to take one. -/
inductive Op
  | fetch (nowNs : UInt64) (info : BotInfo)
  | copy (nowNs : UInt64)
  | enter (nowNs : UInt64) (index : Nat)
  | attempt (nowNs : UInt64) (index : Nat)

/-- The reading of the clock. -/
def Op.nowMs : Op → Nat
  | .fetch nowNs _ | .copy nowNs | .enter nowNs _ | .attempt nowNs _ => gatewayNowMs nowNs

/-- A slot that was granted. -/
structure Grant where
  bucket : Nat
  nowMs : Nat

/-- A cluster with its history: the slots that were granted, the last one first, how many of
them since the reset of the session limit, whether a session limit is known, and when the
numbers were refreshed. -/
structure System where
  cluster : Cluster
  grants : List Grant
  sinceReset : Nat
  known : Bool
  refreshedMs : Nat

/-- The slots that count against the numbers that a refresh brings: those since the reset,
unless no limit was known or its reset time has come. -/
def System.counted (s : System) (nowMs : Nat) : Nat :=
  let c := s.cluster.coordinator
  if s.known && !decide (c.resetAtMs ≠ 0 ∧ nowMs ≥ c.resetAtMs) then s.sinceReset else 0

/-- The numbers tell a session limit. -/
def Shard.knowsLimit (shard : Shard) : Bool :=
  decide (shard.gatewaySessionTotalIdentifies ≠ 0 ∨ shard.gatewaySessionResetAtMs ≠ 0 ∨
    shard.gatewayRemainingIdentifies ≠ 0)

/-- A shard's try, with the history. -/
def System.attempt (s : System) (index nowMs : Nat) : System :=
  match s.cluster.shards[index]? with
  | none => s
  | some shard =>
    let c := s.cluster.coordinator
    let since := if c.resetDue nowMs then 0 else s.sinceReset
    if (c.attempt shard.shardId nowMs).1 = 0 then
      { s with
        cluster := s.cluster.attempt index nowMs
        grants := ⟨c.bucket shard.shardId, nowMs⟩ :: s.grants
        sinceReset := since + 1 }
    else { s with cluster := s.cluster.attempt index nowMs, sinceReset := since }

/-- The numbers of the first shard are copied, with the history. -/
def System.copy (s : System) (nowMs : Nat) : System :=
  match s.cluster.shards with
  | [] => s
  | source :: _ =>
    { s with
      cluster := s.cluster.copyGatewayInfoFromFirst
      sinceReset := s.counted nowMs
      known := source.knowsLimit
      refreshedMs := nowMs }

/-- One operation. -/
def System.step (s : System) (op : Op) : System :=
  match op with
  | .fetch _ info =>
    { s with cluster := { s.cluster with
        shards := s.cluster.shards.modify 0 (applyBotInfo op.nowMs info) } }
  | .copy _ => s.copy op.nowMs
  | .enter _ index =>
    { s with cluster := { s.cluster with
        shards := s.cluster.shards.modify index fun shard => (waitIdentifySlot op.nowMs shard).2 } }
  | .attempt _ index => s.attempt index op.nowMs

/-- The clock does not go back behind a refresh. -/
def System.Timed (s : System) (op : Op) : Prop := s.refreshedMs ≤ op.nowMs

instance (s : System) (op : Op) : Decidable (s.Timed op) :=
  inferInstanceAs (Decidable (s.refreshedMs ≤ op.nowMs))

/-- The numbers are refreshed while no bucket waits and account for the slots since the
reset; a shard does not ask when the budget is used up and no reset time is known. -/
def System.Careful (s : System) (op : Op) : Prop :=
  let c := s.cluster.coordinator
  match op with
  | .copy _ =>
    (∀ bucket, c.bucketNextMs bucket ≤ op.nowMs) ∧
      ∀ source ∈ s.cluster.shards.head?, source.knowsLimit = true →
        s.counted op.nowMs + source.gatewayRemainingIdentifies ≤
          max source.gatewaySessionTotalIdentifies 1
  | .attempt _ _ => ¬ (s.known = true ∧ c.remaining = 0 ∧ c.resetAtMs = 0)
  | _ => True

/-- What a run has to meet. -/
def System.Allows (s : System) (op : Op) : Prop := s.Timed op ∧ s.Careful op

/-! ## The coordinator -/

section Coordinator

variable {c : Coordinator} {shardId nowMs : Nat}

theorem limit_eq : c.limit = max c.total 1 := by
  rw [Coordinator.limit]
  split <;> omega

@[simp] theorem reset_bucketNextMs : (c.reset nowMs).bucketNextMs = c.bucketNextMs := by
  rw [Coordinator.reset]
  split <;> rfl

@[simp] theorem reset_total : (c.reset nowMs).total = c.total := by
  rw [Coordinator.reset]
  split <;> rfl

@[simp] theorem reset_bucket : (c.reset nowMs).bucket shardId = c.bucket shardId := by
  rw [Coordinator.reset]
  split <;> rfl

theorem delay_eq_zero_iff :
    c.delay shardId nowMs = 0 ↔
      c.bucketNextMs (c.bucket shardId) ≤ nowMs ∧ ¬ (c.remaining = 0 ∧ c.resetAtMs > nowMs) := by
  simp only [Coordinator.delay]
  split_ifs <;> omega

theorem attempt_fst_eq_zero_iff :
    (c.attempt shardId nowMs).1 = 0 ↔ (c.reset nowMs).delay shardId nowMs = 0 := by
  simp only [Coordinator.attempt]
  split <;> simp_all

theorem attempt_of_granted (h : (c.attempt shardId nowMs).1 = 0) :
    (c.attempt shardId nowMs).2 = (c.reset nowMs).take shardId nowMs := by
  rw [attempt_fst_eq_zero_iff] at h
  simp only [Coordinator.attempt, h, ↓reduceIte]

theorem attempt_of_refused (h : (c.attempt shardId nowMs).1 ≠ 0) :
    (c.attempt shardId nowMs).2 =
      { c.reset nowMs with waits := wordAdd (c.reset nowMs).waits 1 } := by
  rw [ne_eq, attempt_fst_eq_zero_iff] at h
  simp only [Coordinator.attempt, h, ↓reduceIte]

theorem resetDue_of_granted (h : (c.attempt shardId nowMs).1 = 0) (hnone : c.remaining = 0)
    (hreset : c.resetAtMs ≠ 0) : c.resetDue nowMs = true := by
  by_contra hdue
  have hsame : c.reset nowMs = c := by rw [Coordinator.reset, if_neg hdue]
  rw [attempt_fst_eq_zero_iff, hsame, delay_eq_zero_iff] at h
  simp only [Coordinator.resetDue, decide_eq_true_eq] at hdue
  omega

end Coordinator

/-! ## The invariant -/

/-- Slots of one bucket are five seconds apart. -/
def Spaced (grants : List Grant) : Prop :=
  grants.Pairwise fun later earlier =>
    later.bucket = earlier.bucket → earlier.nowMs + 5000 ≤ later.nowMs

/-- What every permitted step keeps. -/
structure System.Good (s : System) : Prop where
  spaced : Spaced s.grants
  pending (g : Grant) : g ∈ s.grants → g.nowMs + 5000 ≤ s.refreshedMs ∨
      g.nowMs + 5000 ≤ s.cluster.coordinator.bucketNextMs g.bucket
  budget : s.known = true →
    s.sinceReset + s.cluster.coordinator.remaining ≤ s.cluster.coordinator.limit

section Steps

variable {s : System} {nowNs : UInt64} {index : Nat}

theorem wordAdd_nowMs (nowNs : UInt64) :
    wordAdd (gatewayNowMs nowNs) 5000 = gatewayNowMs nowNs + 5000 := by
  have hword := nowNs.toNat_lt
  refine wordAdd_of_lt ?_
  simp only [gatewayNowMs, wordSize]
  omega

variable {shard : Shard}

theorem cluster_attempt_coordinator {cluster : Cluster} {nowMs : Nat}
    (hshard : cluster.shards[index]? = some shard) :
    (cluster.attempt index nowMs).coordinator =
      (cluster.coordinator.attempt shard.shardId nowMs).2 := by
  simp only [Cluster.attempt, hshard]

theorem reset_budget {c : Coordinator} {since : Nat} (nowMs : Nat)
    (h : since + c.remaining ≤ c.limit) :
    (if c.resetDue nowMs then 0 else since) + (c.reset nowMs).remaining ≤ c.limit := by
  rw [Coordinator.reset]
  by_cases hdue : c.resetDue nowMs = true
  · simp [hdue]
  · simpa [hdue] using h

theorem System.Good.grant (h : s.Good) (hshard : s.cluster.shards[index]? = some shard)
    (htimed : s.Timed (.attempt nowNs index)) (hcareful : s.Careful (.attempt nowNs index))
    (hgranted : (s.cluster.coordinator.attempt shard.shardId (gatewayNowMs nowNs)).1 = 0) :
    (s.attempt index (gatewayNowMs nowNs)).Good := by
  set c := s.cluster.coordinator with hc
  set nowMs := gatewayNowMs nowNs
  have hfree : c.bucketNextMs (c.bucket shard.shardId) ≤ nowMs := by
    have hdelay := attempt_fst_eq_zero_iff.mp hgranted
    rw [delay_eq_zero_iff] at hdelay
    simpa using hdelay.1
  have hafter : (s.cluster.attempt index nowMs).coordinator =
      (c.reset nowMs).take shard.shardId nowMs := by
    rw [cluster_attempt_coordinator hshard, attempt_of_granted hgranted]
  have hearlier : ∀ g ∈ s.grants, c.bucket shard.shardId = g.bucket → g.nowMs + 5000 ≤ nowMs := by
    intro g hg hbucket
    rcases h.pending g hg with hpast | hpast
    · exact Nat.le_trans hpast htimed
    · rw [← hc, ← hbucket] at hpast
      exact Nat.le_trans hpast hfree
  simp only [System.attempt, hshard, ← hc, hgranted, ↓reduceIte]
  refine ⟨List.pairwise_cons.mpr ⟨hearlier, h.spaced⟩, ?_, ?_⟩
  · intro g hg
    simp only [hafter, Coordinator.take, reset_bucket, reset_bucketNextMs]
    rcases List.mem_cons.mp hg with rfl | hg
    · refine Or.inr ?_
      simp only [Function.update_self]
      exact Nat.le_of_eq (wordAdd_nowMs nowNs).symm
    · refine (h.pending g hg).imp id fun hpast => ?_
      by_cases hbucket : g.bucket = c.bucket shard.shardId
      · rw [hbucket, Function.update_self, wordAdd_nowMs]
        have hbefore := hearlier g hg hbucket.symm
        omega
      · rw [Function.update_of_ne hbucket]
        exact hpast
  · intro hknown
    have hbudget := reset_budget nowMs (h.budget hknown)
    have hsome : (c.reset nowMs).remaining ≠ 0 := by
      intro hnone
      by_cases hdue : c.resetDue nowMs = true
      · rw [Coordinator.reset, if_pos hdue] at hnone
        have hlimit := limit_eq (c := c)
        simp only at hnone
        omega
      · rw [Coordinator.reset, if_neg hdue] at hnone
        refine hdue (resetDue_of_granted hgranted hnone ?_)
        exact fun hreset => hcareful ⟨hknown, hnone, hreset⟩
    simp only [hafter, Coordinator.take, Coordinator.limit, reset_total] at hbudget ⊢
    rw [← hc] at hbudget
    split_ifs at hbudget ⊢ <;> omega

theorem System.Good.refuse (h : s.Good) {nowMs : Nat}
    (hshard : s.cluster.shards[index]? = some shard)
    (hrefused : (s.cluster.coordinator.attempt shard.shardId nowMs).1 ≠ 0) :
    (s.attempt index nowMs).Good := by
  set c := s.cluster.coordinator with hc
  have hafter : (s.cluster.attempt index nowMs).coordinator =
      { c.reset nowMs with waits := wordAdd (c.reset nowMs).waits 1 } := by
    rw [cluster_attempt_coordinator hshard, attempt_of_refused hrefused]
  simp only [System.attempt, hshard, ← hc, hrefused, ↓reduceIte]
  refine ⟨h.spaced, ?_, ?_⟩
  · intro g hg
    simp only [hafter, reset_bucketNextMs]
    exact h.pending g hg
  · intro hknown
    have hbudget := reset_budget nowMs (h.budget hknown)
    simpa only [hafter, Coordinator.limit, reset_total] using hbudget

theorem System.Good.copy (h : s.Good) (htimed : s.Timed (.copy nowNs))
    (hcareful : s.Careful (.copy nowNs)) : (s.copy (gatewayNowMs nowNs)).Good := by
  obtain ⟨hquiet, hcounted⟩ := hcareful
  cases hshards : s.cluster.shards with
  | nil =>
    simp only [System.copy, hshards]
    exact h
  | cons source targets =>
    simp only [System.copy, hshards]
    refine ⟨h.spaced, ?_, ?_⟩
    · intro g hg
      refine Or.inl ?_
      rcases h.pending g hg with hpast | hpast
      · exact Nat.le_trans hpast htimed
      · exact Nat.le_trans hpast (hquiet g.bucket)
    · intro hknown
      have hsum : s.counted (gatewayNowMs nowNs) + source.gatewayRemainingIdentifies ≤
          max source.gatewaySessionTotalIdentifies 1 :=
        hcounted source (by simp [hshards]) hknown
      simpa [Cluster.copyGatewayInfoFromFirst, hshards, limit_eq] using hsum

theorem System.Good.withShards (h : s.Good) (shards : List Shard) :
    ({ s with cluster := { s.cluster with shards } } : System).Good :=
  ⟨h.spaced, h.pending, h.budget⟩

theorem good_step {op : Op} (h : s.Good) (hok : s.Allows op) : (s.step op).Good := by
  cases op with
  | fetch nowNs info => exact h.withShards _
  | enter nowNs index => exact h.withShards _
  | copy nowNs => exact h.copy hok.1 hok.2
  | attempt nowNs index =>
    show (s.attempt index (gatewayNowMs nowNs)).Good
    cases hshard : s.cluster.shards[index]? with
    | none =>
      simp only [System.attempt, hshard]
      exact h
    | some shard =>
      by_cases hgranted :
          (s.cluster.coordinator.attempt shard.shardId (gatewayNowMs nowNs)).1 = 0
      · exact h.grant hshard hok.1 hok.2 hgranted
      · exact h.refuse hshard hgranted

theorem good_run {ops : List Op} (h : s.Good)
    (hok : Machine.Permitted System.step System.Allows s ops) :
    (ops.foldl System.step s).Good := by
  induction ops generalizing s with
  | nil => exact h
  | cons op ops ih => exact ih (good_step h hok.1) hok.2

end Steps

/-- A cluster before any slot was granted. -/
def System.start (cluster : Cluster) : System := ⟨cluster, [], 0, false, 0⟩

theorem start_good (cluster : Cluster) : (System.start cluster).Good where
  spaced := List.Pairwise.nil
  pending := by simp [System.start]
  budget := by simp [System.start]

/-- **IDENTIFY admission.**  In every run whose steps are careful, slots of one bucket are
five seconds apart, no slot is granted on a used-up budget before the reset of the session
limit, and at most the total is granted since the last reset. -/
theorem slots_spaced_and_budgeted (cluster : Cluster) (ops : List Op)
    (hok : Machine.Permitted System.step System.Allows (System.start cluster) ops) :
    let s := ops.foldl System.step (System.start cluster)
    let c := s.cluster.coordinator
    Spaced s.grants ∧ (∀ nowNs index shard, s.Allows (.attempt nowNs index) →
        s.cluster.shards[index]? = some shard → s.known = true → c.remaining = 0 →
        (c.attempt shard.shardId (gatewayNowMs nowNs)).1 = 0 →
          c.resetAtMs ≠ 0 ∧ c.resetAtMs ≤ gatewayNowMs nowNs) ∧
      (s.known = true → s.sinceReset ≤ max c.total 1) := by
  intro s c
  have hgood : s.Good := good_run (start_good cluster) hok
  refine ⟨hgood.spaced, ?_, ?_⟩
  · intro nowNs index shard hallowed hshard hknown hnone hgranted
    have hreset : c.resetAtMs ≠ 0 := fun hreset => hallowed.2 ⟨hknown, hnone, hreset⟩
    have hdue := resetDue_of_granted hgranted hnone hreset
    simp only [Coordinator.resetDue, decide_eq_true_eq] at hdue
    exact ⟨hreset, hdue.2.2⟩
  · intro hknown
    have hbudget : s.sinceReset + c.remaining ≤ c.limit := hgood.budget hknown
    rw [limit_eq] at hbudget
    omega

/-- One shard that knows nothing yet. -/
def sampleCluster : Cluster where
  shards := [⟨0, 0, 0, 0, 0, 0, 0⟩]
  gatewayMaxConcurrency := 1
  coordinator := ⟨1, 0, 0, 0, fun _ => 0, 0, 0⟩

/-- A fetch at time 0 that tells a budget of one, to be reset after a second. -/
def sampleFetch : List Op :=
  [.fetch 0 ⟨some 1, some 1, some 1, some 1000⟩, .copy 0]

/-- A slot, a refresh and another slot. -/
def refreshedBetween : System :=
  [Op.attempt 0 0, .copy 1000000, .attempt 2000000 0].foldl System.step
    (System.start sampleCluster)

/-- A budget of one is used, reset and used again. -/
def usedAgain : System :=
  (sampleFetch ++ [Op.attempt 0 0, .attempt 5000000000 0]).foldl System.step
    (System.start sampleCluster)

/-- A refresh between two tries lets two slots of a bucket through within 2 ms; and after the
first reset a slot is granted with no budget left: two of them since the reset, where the
total is one. -/
theorem slots_too_close_and_too_many :
    ¬ Spaced refreshedBetween.grants ∧
      usedAgain.known = true ∧ usedAgain.cluster.coordinator.remaining = 0 ∧
      usedAgain.cluster.coordinator.resetAtMs = 0 ∧
      (usedAgain.cluster.coordinator.attempt 0 (gatewayNowMs 10000000000)).1 = 0 ∧
      (usedAgain.step (.attempt 10000000000 0)).sinceReset = 2 ∧
      (usedAgain.step (.attempt 10000000000 0)).cluster.coordinator.total = 1 := by
  refine ⟨?_, by decide +kernel⟩
  intro hspaced
  have hfirst := List.pairwise_cons.mp hspaced
  exact absurd (hfirst.1 ⟨0, 0⟩ (List.mem_singleton.mpr rfl) rfl) (by decide)

/-- A shard takes its slot, waits out the spacing and takes one after the reset. -/
theorem slots_spaced_and_budgeted_twice :
    Spaced ((sampleFetch ++ [Op.attempt 0 0, .attempt 1000000000 0, .attempt 5000000000 0]).foldl
      System.step (System.start sampleCluster)).grants := by
  refine (slots_spaced_and_budgeted sampleCluster _ ?_).1
  refine ⟨⟨by decide, trivial⟩, ⟨by decide, ?_, ?_⟩,
    ⟨by decide, fun h => absurd h.2.1 (by decide +kernel)⟩,
    ⟨by decide, fun h => absurd h.2.2 (by decide +kernel)⟩,
    ⟨by decide, fun h => absurd h.2.1 (by decide +kernel)⟩, trivial⟩
  · intro bucket
    exact Nat.zero_le _
  · intro source hsource _
    obtain rfl := Option.some.inj hsource
    decide

end Dcc.Identify
