import Mathlib.Data.List.Nodup
import Mathlib.Logic.Function.Basic
import Dcc.Basic
import Dcc.Lib.Reach
import Dcc.Lib.Slots

/-!
# The registry of interaction flows

A client keeps the flows it is answering in a table, and for each flow it has finished a
tombstone with the digest of the token, so that an interaction that is delivered again is
refused while its flow lives and for some time after.  Both tables have a fixed size.

SHA-256 is OpenSSL's, so the digest is a parameter: a function of the token, about which
nothing is assumed.
-/

namespace Dcc.Flow

variable {δ : Type}

/-- Address of a `dcc_interaction_flow_t`. -/
abbrev Addr := Nat

/-- The fields of `dcc_interaction_t` that identify a delivery. -/
structure Identity where
  applicationId : Nat
  id : Nat
  token : Bytes
  deriving DecidableEq

/-- `dcc_interaction_flow_t`, as far as the registry reads it. -/
structure FlowRecord where
  interaction : Identity
  registered : Bool

/-- `dcc_interaction_tombstone_t`; a slot whose `used` is 0 is `none`. -/
structure Tombstone (δ : Type) where
  applicationId : Nat
  interactionId : Nat
  tokenDigest : δ
  expiryMs : Nat

/-- The counters of `rest_runtime_stats` that the registry writes. -/
structure Stats where
  interactionLiveQueues : Nat
  interactionLiveQueuesHighWater : Nat
  interactionTombstones : Nat
  interactionTombstonesHighWater : Nat
  interactionDuplicateDeliveries : Nat
  interactionRejectedLiveQueues : Nat
  interactionRejectedTombstones : Nat
  admissionRejections : Nat

/-- The fields of `dcc_client_t` that belong to the registry, and the flows in memory.
`interaction_max_live_queues` and `interaction_max_tombstones` are the lengths of the two
tables. -/
structure Registry (δ : Type) where
  tombstoneTtlMs : Nat
  heap : Addr → Option FlowRecord
  liveEntries : List (Option Addr)
  tombstones : List (Option (Tombstone δ))
  stats : Stats

/-- `sizeof(dcc_interaction_live_entry_t)`. -/
def liveEntrySize : Nat := 8

/-- `sizeof(dcc_interaction_tombstone_t)`: two ids, the digest, the expiry and the padded flag. -/
def tombstoneSize : Nat := 64

/-- `dcc_app_interaction_registry_init` in a fresh client, where the memory is there. -/
def registryInit (maxLiveQueues maxTombstones ttlMs : Nat) : Option (Registry δ) :=
  if maxLiveQueues = 0 ∨ maxTombstones = 0 ∨ maxLiveQueues > wordMax / liveEntrySize ∨
      maxTombstones > wordMax / tombstoneSize then none
  else some
    { tombstoneTtlMs := ttlMs
      heap := fun _ => none
      liveEntries := List.replicate maxLiveQueues none
      tombstones := List.replicate maxTombstones none
      stats := ⟨0, 0, 0, 0, 0, 0, 0, 0⟩ }

/-- `dcc_rest_now_ms` at a reading of `llam_now_ns`. -/
def restNowMs (nowNs : UInt64) : Nat := nowNs.toNat / 1000000

/-- The loop of `dcc_registry_expire_locked`, with the counter of tombstones. -/
def expireLocked (nowMs : Nat) :
    List (Option (Tombstone δ)) → Nat → List (Option (Tombstone δ)) × Nat
  | [], counter => ([], counter)
  | none :: items, counter =>
    let (items, counter) := expireLocked nowMs items counter
    (none :: items, counter)
  | some item :: items, counter =>
    if nowMs ≥ item.expiryMs then
      let counter := if counter ≠ 0 then counter - 1 else counter
      let (items, counter) := expireLocked nowMs items counter
      (none :: items, counter)
    else
      let (items, counter) := expireLocked nowMs items counter
      (some item :: items, counter)

/-- A tombstone outlives an expiry before its time. -/
def Tombstone.stays (nowMs : Nat) (item : Tombstone δ) : Bool := decide (nowMs < item.expiryMs)

theorem expireLocked_held (nowMs : Nat) (items : List (Option (Tombstone δ))) (counter : Nat) :
    (expireLocked nowMs items counter).1.reduceOption =
      items.reduceOption.filter (Tombstone.stays nowMs) := by
  fun_induction expireLocked nowMs items counter <;>
    simp_all [List.reduceOption_cons_of_some, List.reduceOption_cons_of_none, Tombstone.stays]

theorem expireLocked_length (nowMs : Nat) (items : List (Option (Tombstone δ))) (counter : Nat) :
    (expireLocked nowMs items counter).1.length = items.length := by
  fun_induction expireLocked nowMs items counter <;> simp_all

theorem expireLocked_counter (nowMs : Nat) (items : List (Option (Tombstone δ)))
    (counter other : Nat) (h : counter = items.reduceOption.length + other) :
    (expireLocked nowMs items counter).2 =
      (expireLocked nowMs items counter).1.reduceOption.length + other := by
  fun_induction expireLocked nowMs items counter generalizing other with
  | case1 counter => exact h
  | case2 items counter items' counter' heq ih =>
    simp only [List.reduceOption_cons_of_none] at h ⊢
    simpa [heq] using ih other h
  | case3 item items counter hdue counter' items' counter'' heq ih =>
    simp only [List.reduceOption_cons_of_none, List.reduceOption_cons_of_some,
      List.length_cons] at h ⊢
    have hcounter : counter' = items.reduceOption.length + other := by
      show (if counter ≠ 0 then counter - 1 else counter) = _
      rw [if_pos (by omega)]
      omega
    simpa [heq] using ih other hcounter
  | case4 item items counter hdue items' counter' heq ih =>
    simp only [List.reduceOption_cons_of_some, List.length_cons] at h ⊢
    have hrest := ih (other + 1) (by omega)
    simp only [heq] at hrest
    omega

variable [DecidableEq δ]

/-- A tombstone carries the identity. -/
def Tombstone.names (digest : Bytes → δ) (interaction : Identity) (item : Tombstone δ) : Bool :=
  item.applicationId == interaction.applicationId && item.interactionId == interaction.id &&
    item.tokenDigest == digest interaction.token

/-- The first loop of `dcc_app_interaction_registry_register`: the number of tombstones, or
`none` at the first one that carries the identity. -/
def scanTombstones (digest : Bytes → δ) (interaction : Identity) :
    List (Option (Tombstone δ)) → Nat → Option Nat
  | [], count => some count
  | none :: items, count => scanTombstones digest interaction items count
  | some item :: items, count =>
    if item.names digest interaction then none
    else scanTombstones digest interaction items (count + 1)

/-- The second loop: the first free index and the number of live flows, or `none` at the
first flow with the identity. -/
def scanLive (heap : Addr → Option FlowRecord) (interaction : Identity) :
    List (Option Addr) → Nat → Option Nat → Nat → Option (Option Nat × Nat)
  | [], _, freeIndex, count => some (freeIndex, count)
  | none :: entries, index, freeIndex, count =>
    scanLive heap interaction entries (index + 1)
      (if freeIndex = none then some index else freeIndex) count
  | some flow :: entries, index, freeIndex, count =>
    if (heap flow).map FlowRecord.interaction = some interaction then none
    else scanLive heap interaction entries (index + 1) freeIndex (count + 1)

/-- A refused delivery is counted. -/
def Stats.duplicate (stats : Stats) : Stats :=
  { stats with interactionDuplicateDeliveries := increment stats.interactionDuplicateDeliveries }

/-- A registration without a free entry is counted. -/
def Stats.rejectLiveQueue (stats : Stats) : Stats :=
  { stats with
    interactionRejectedLiveQueues := increment stats.interactionRejectedLiveQueues
    admissionRejections := increment stats.admissionRejections }

/-- A registration without room for its tombstone is counted. -/
def Stats.rejectTombstone (stats : Stats) : Stats :=
  { stats with
    interactionRejectedTombstones := increment stats.interactionRejectedTombstones
    admissionRejections := increment stats.admissionRejections }

/-- A live flow is counted. -/
def Stats.addLive (stats : Stats) : Stats :=
  let live := wordAdd stats.interactionLiveQueues 1
  { stats with
    interactionLiveQueues := live
    interactionLiveQueuesHighWater := max live stats.interactionLiveQueuesHighWater }

/-- A tombstone is counted. -/
def Stats.addTombstone (stats : Stats) : Stats :=
  let tombstones := wordAdd stats.interactionTombstones 1
  { stats with
    interactionTombstones := tombstones
    interactionTombstonesHighWater := max tombstones stats.interactionTombstonesHighWater }

/-- A live flow is no longer counted. -/
def Stats.dropLive (stats : Stats) : Stats :=
  { stats with
    interactionLiveQueues :=
      if stats.interactionLiveQueues ≠ 0 then stats.interactionLiveQueues - 1
      else stats.interactionLiveQueues }

/-- The registry after `dcc_registry_expire_locked`. -/
def Registry.expire {δ : Type} (r : Registry δ) (nowMs : Nat) : Registry δ :=
  let (tombstones, counter) := expireLocked nowMs r.tombstones r.stats.interactionTombstones
  { r with tombstones, stats := { r.stats with interactionTombstones := counter } }

/-- `dcc_app_interaction_registry_register`. -/
def Registry.register (digest : Bytes → δ) (r : Registry δ) (nowNs : UInt64) (flow : Addr) :
    Status × Registry δ :=
  match r.heap flow with
  | none => (.invalidArg, r)
  | some record =>
    let r := r.expire (restNowMs nowNs)
    match scanTombstones digest record.interaction r.tombstones 0 with
    | none => (.state, { r with stats := r.stats.duplicate })
    | some tombstoneCount =>
      match scanLive r.heap record.interaction r.liveEntries 0 none 0 with
      | none => (.state, { r with stats := r.stats.duplicate })
      | some (none, _) => (.resourceLimit, { r with stats := r.stats.rejectLiveQueue })
      | some (some freeIndex, liveCount) =>
        if tombstoneCount ≥ r.tombstones.length ∨
            liveCount ≥ r.tombstones.length - tombstoneCount then
          (.resourceLimit, { r with stats := r.stats.rejectTombstone })
        else
          (.ok, { r with
            liveEntries := r.liveEntries.set freeIndex (some flow)
            stats := r.stats.addLive
            heap := Function.update r.heap flow (some { record with registered := true }) })

/-- The loop of `dcc_app_interaction_registry_retire` over the tombstones: the first free
slot is taken and counted. -/
def bury (item : Tombstone δ) (tombstones : List (Option (Tombstone δ))) (stats : Stats) :
    List (Option (Tombstone δ)) × Stats :=
  if tombstones.any Option.isNone then (Slots.fill item tombstones, stats.addTombstone)
  else (tombstones, stats)

/-- The tombstone that a flow gets. -/
def Identity.tombstone (digest : Bytes → δ) (interaction : Identity) (expiryMs : Nat) :
    Tombstone δ :=
  { applicationId := interaction.applicationId
    interactionId := interaction.id
    tokenDigest := digest interaction.token
    expiryMs }

/-- `dcc_app_interaction_registry_retire`. -/
def Registry.retire (digest : Bytes → δ) (r : Registry δ) (nowNs : UInt64) (flow : Addr) :
    Registry δ :=
  match r.heap flow with
  | none => r
  | some record =>
    if !record.registered then r
    else
      let expiryMs := addMs (restNowMs nowNs) r.tombstoneTtlMs
      let (tombstones, stats) :=
        bury (record.interaction.tombstone digest expiryMs) r.tombstones r.stats
      { r with
        liveEntries := Slots.clear flow r.liveEntries
        tombstones
        stats := stats.dropLive
        heap := Function.update r.heap flow (some { record with registered := false }) }

/-- `dcc_flow_free_storage` of a flow that owns its interaction. -/
def Registry.freeStorage (digest : Bytes → δ) (r : Registry δ) (nowNs : UInt64) (flow : Addr) :
    Registry δ :=
  let r := r.retire digest nowNs flow
  { r with heap := Function.update r.heap flow none }

/-- `dcc_app_interaction_queue_finalize`, which the last reference to the queue of a flow
runs. -/
def Registry.finalize (digest : Bytes → δ) (r : Registry δ) (nowNs : UInt64) (flow : Addr) :
    Registry δ :=
  (r.retire digest nowNs flow).freeStorage digest nowNs flow

/-- `dcc_flow_create`: `flow` is where `calloc` puts it, and `prepared` the status of the
steps before the registration (the charge of the identity, the memory, the queue). -/
def Registry.flowCreate (digest : Bytes → δ) (r : Registry δ) (nowNs : UInt64) (flow : Addr)
    (interaction : Identity) (prepared : Status) : Status × Registry δ :=
  if interaction.id = 0 ∨ interaction.applicationId = 0 ∨ interaction.token = [] then
    (.invalidArg, r)
  else if prepared ≠ .ok then (prepared, r)
  else
    let r := { r with heap := Function.update r.heap flow (some ⟨interaction, false⟩) }
    let (status, r) := r.register digest nowNs flow
    if status ≠ .ok then (status, r.finalize digest nowNs flow) else (status, r)

/-- What is done to a registry, each with a reading of the clock. -/
inductive Op
  | create (nowNs : UInt64) (flow : Addr) (interaction : Identity) (prepared : Status)
  | finalize (nowNs : UInt64) (flow : Addr)

/-- The reading of the clock. -/
def Op.nowMs : Op → Nat
  | .create nowNs _ _ _ => restNowMs nowNs
  | .finalize nowNs _ => restNowMs nowNs

/-- A registry and the last reading of the clock. -/
structure System (δ : Type) where
  registry : Registry δ
  clock : Nat

/-- One operation. -/
def System.step (digest : Bytes → δ) (s : System δ) (op : Op) : System δ :=
  match op with
  | .create nowNs flow interaction prepared =>
    ⟨(s.registry.flowCreate digest nowNs flow interaction prepared).2, op.nowMs⟩
  | .finalize nowNs flow => ⟨s.registry.finalize digest nowNs flow, op.nowMs⟩

/-- The clock does not go back, memory for a flow is not in use, and what is finalized is a
flow in memory. -/
def System.Allows (s : System δ) (op : Op) : Prop :=
  s.clock ≤ op.nowMs ∧ match op with
    | .create _ flow _ _ => s.registry.heap flow = none
    | .finalize _ flow => s.registry.heap flow ≠ none

/-! ## The loops -/

theorem scanTombstones_eq (digest : Bytes → δ) (interaction : Identity)
    (items : List (Option (Tombstone δ))) (count : Nat) :
    scanTombstones digest interaction items count =
      if items.reduceOption.any (Tombstone.names digest interaction) then none
      else some (count + items.reduceOption.length) := by
  fun_induction scanTombstones digest interaction items count with
  | case1 count => simp
  | case2 items count ih => simpa [List.reduceOption_cons_of_none] using ih
  | case3 item items count hnames => simp [List.reduceOption_cons_of_some, hnames]
  | case4 item items count hnames ih =>
    rw [ih, List.reduceOption_cons_of_some, List.any_cons, List.length_cons,
      show count + 1 + items.reduceOption.length = count + (items.reduceOption.length + 1) by
        omega]
    simp [hnames]

/-- A flow in memory carries the identity. -/
def carries (heap : Addr → Option FlowRecord) (interaction : Identity) (flow : Addr) : Bool :=
  decide ((heap flow).map FlowRecord.interaction = some interaction)

theorem scanLive_none_iff (heap : Addr → Option FlowRecord) (interaction : Identity)
    (entries : List (Option Addr)) (index : Nat) (freeIndex : Option Nat) (count : Nat) :
    scanLive heap interaction entries index freeIndex count = none ↔
      ∃ flow ∈ entries.reduceOption, carries heap interaction flow := by
  fun_induction scanLive heap interaction entries index freeIndex count <;>
    simp_all [List.reduceOption_cons_of_some, List.reduceOption_cons_of_none, carries]

theorem scanLive_some {heap : Addr → Option FlowRecord} {interaction : Identity}
    {entries : List (Option Addr)} {index : Nat} {freeIndex free : Option Nat} {count live : Nat}
    (h : scanLive heap interaction entries index freeIndex count = some (free, live)) :
    live = count + entries.reduceOption.length ∧
      (free = freeIndex ∨ ∃ i, free = some (index + i) ∧ entries[i]? = some none) := by
  fun_induction scanLive heap interaction entries index freeIndex count with
  | case1 index freeIndex count =>
    obtain ⟨rfl, rfl⟩ : freeIndex = free ∧ count = live := by simpa using h
    exact ⟨rfl, Or.inl rfl⟩
  | case2 entries index freeIndex count ih =>
    obtain ⟨hlive, hfree⟩ := ih h
    refine ⟨by simpa [List.reduceOption_cons_of_none] using hlive, ?_⟩
    rcases hfree with hfree | ⟨i, hi, hentry⟩
    · by_cases hnone : freeIndex = none
      · rw [if_pos hnone] at hfree
        exact Or.inr ⟨0, hfree, rfl⟩
      · rw [if_neg hnone] at hfree
        exact Or.inl hfree
    · exact Or.inr ⟨i + 1, by rw [hi]; congr 1; omega, by simpa using hentry⟩
  | case3 flow entries index freeIndex count hsame => cases h
  | case4 flow entries index freeIndex count hother ih =>
    obtain ⟨hlive, hfree⟩ := ih h
    refine ⟨by rw [hlive, List.reduceOption_cons_of_some, List.length_cons]; omega, ?_⟩
    rcases hfree with hfree | ⟨i, hi, hentry⟩
    · exact Or.inl hfree
    · exact Or.inr ⟨i + 1, by rw [hi]; congr 1; omega, by simpa using hentry⟩

end Dcc.Flow
