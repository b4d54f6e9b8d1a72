import Mathlib.Algebra.BigOperators.Group.List.Basic
import Mathlib.Algebra.Order.BigOperators.Group.List
import Mathlib.Algebra.Order.Group.Nat
import Mathlib.Tactic.SplitIfs
import Dcc.Lib.Reach
import Dcc.Rest.Resource

/-!
# What the resource counters count

A ledger is the counters of a client together with what they stand for: the
charges reserved for requests that are still being built, the resource fields
of the requests, and the response bytes that are held.  The operations come in
any order and on any request.

* `Exact` ties every counter to the ledger; `Exact.apply` keeps it as long as a
  sum of charges does not wrap;
* `resource_accounting_exact`: the counters are exact in every reachable
  ledger, no decrement meets a counter that is too small, and with everything
  released all counters are zero;
* `queueBudget_of_requeues_within`: the queue budget is kept as long as every
  requeue fits into it; `requeue_over_budget` is a run where one does not.
-/

namespace Dcc.Rest

open Machine (Reach)

/-- The counters and what they count. -/
structure Ledger where
  stats : RuntimeStats
  reservations : List Nat
  requests : List ResourceTag
  responses : List Nat

/-- The ledger of a new client. -/
def Ledger.empty : Ledger := ⟨RuntimeStats.zero, [], [], []⟩

/-- One call on the resource counters.  Reservations, requests and responses are
named by their position. -/
inductive ResourceOp
  | reserve (charge : Nat)
  | releaseUnpublished (index : Nat)
  | publish (index : Nat)
  | activate (index : Nat)
  | requeue (index : Nat)
  | dropCompletion (index : Nat)
  | release (index : Nat) (cancelRequested : Bool)
  | reserveResponse (bytes : Nat)
  | releaseResponse (index : Nat)
  | recordRateLimit

/-- The ledger after one call; a call on something that is not there is not
made. -/
def Ledger.apply (limits : ResourceLimits) (ledger : Ledger) : ResourceOp → Ledger
  | .reserve charge =>
    let (status, stats) := reserveQueued limits ledger.stats charge
    if status = .ok then
      { ledger with stats := stats, reservations := ledger.reservations ++ [charge] }
    else { ledger with stats := stats }
  | .releaseUnpublished index =>
    match ledger.reservations[index]? with
    | none => ledger
    | some charge =>
      { ledger with
        stats := releaseUnpublished ledger.stats charge
        reservations := ledger.reservations.eraseIdx index }
  | .publish index =>
    match ledger.reservations[index]? with
    | none => ledger
    | some charge =>
      { ledger with
        reservations := ledger.reservations.eraseIdx index
        requests := ledger.requests ++ [⟨charge, .queued, true⟩] }
  | .activate index =>
    match ledger.requests[index]? with
    | none => ledger
    | some tag =>
      let (stats, tag, _) := activate limits ledger.stats tag
      { ledger with stats := stats, requests := ledger.requests.set index tag }
  | .requeue index =>
    match ledger.requests[index]? with
    | none => ledger
    | some tag =>
      let (stats, tag) := requeue ledger.stats tag
      { ledger with stats := stats, requests := ledger.requests.set index tag }
  | .dropCompletion index =>
    match ledger.requests[index]? with
    | none => ledger
    | some tag =>
      { ledger with requests := ledger.requests.set index { tag with countCompletion := false } }
  | .release index cancelRequested =>
    match ledger.requests[index]? with
    | none => ledger
    | some tag =>
      let (stats, tag) := releaseRequest ledger.stats tag cancelRequested
      { ledger with stats := stats, requests := ledger.requests.set index tag }
  | .reserveResponse bytes =>
    let (status, stats) := reserveResponse limits ledger.stats bytes
    if status = .ok then
      { ledger with stats := stats, responses := ledger.responses ++ [bytes] }
    else { ledger with stats := stats }
  | .releaseResponse index =>
    match ledger.responses[index]? with
    | none => ledger
    | some bytes =>
      { ledger with
        stats := releaseResponse ledger.stats bytes
        responses := ledger.responses.eraseIdx index }
  | .recordRateLimit => { ledger with stats := recordRateLimit ledger.stats }

/-! ## Sums over a ledger -/

/-- The charges of the requests in one resource state. -/
def chargesOf (state : ResourceState) (requests : List ResourceTag) : List Nat :=
  (requests.filter fun tag => tag.resourceState = state).map ResourceTag.resourceCharge

/-- The charges the queued counters stand for. -/
def Ledger.queuedCharges (ledger : Ledger) : List Nat :=
  ledger.reservations ++ chargesOf .queued ledger.requests

/-- The charges of the active requests. -/
def Ledger.activeCharges (ledger : Ledger) : List Nat := chargesOf .active ledger.requests

/-- The counters are what the ledger holds, and every request has a charge. -/
structure Exact (limits : ResourceLimits) (ledger : Ledger) : Prop where
  queuedRequests : ledger.stats.queuedRequests = ledger.queuedCharges.length
  queuedBytes : ledger.stats.queuedRequestBytes = ledger.queuedCharges.sum
  activeRequests : ledger.stats.activeRequests = ledger.activeCharges.length
  activeBytes : ledger.stats.activeRequestBytes = ledger.activeCharges.sum + ledger.responses.sum
  responseBytes : ledger.stats.responseBytes = ledger.responses.sum
  reserved_pos : ∀ charge ∈ ledger.reservations, 0 < charge
  charge_pos : ∀ tag ∈ ledger.requests, 0 < tag.resourceCharge
  queued_lt : ledger.stats.queuedRequestBytes < wordSize
  active_le : ledger.stats.activeRequestBytes ≤ limits.maxActiveBytes

@[simp] theorem chargesOf_append (state : ResourceState) (l m : List ResourceTag) :
    chargesOf state (l ++ m) = chargesOf state l ++ chargesOf state m := by
  simp [chargesOf]

variable {limits : ResourceLimits} {ledger : Ledger} {tag : ResourceTag}

variable {state : ResourceState}

theorem chargesOf_cons_of_eq (h : tag.resourceState = state) (l : List ResourceTag) :
    chargesOf state (tag :: l) = tag.resourceCharge :: chargesOf state l := by
  simp [chargesOf, h]

theorem chargesOf_cons_of_ne (h : tag.resourceState ≠ state) (l : List ResourceTag) :
    chargesOf state (tag :: l) = chargesOf state l := by
  simp [chargesOf, h]

variable {charge : Nat}

theorem mem_of_mem_chargesOf {requests : List ResourceTag} (h : charge ∈ chargesOf state requests) :
    ∃ tag ∈ requests, tag.resourceCharge = charge := by
  obtain ⟨tag, htag, rfl⟩ := List.mem_map.mp h
  exact ⟨tag, List.mem_of_mem_filter htag, rfl⟩

variable {index : Nat}

theorem exists_split {α : Type} {l : List α} {a : α} (h : l[index]? = some a) :
    ∃ pre post, l = pre ++ a :: post ∧ (∀ b, l.set index b = pre ++ b :: post) ∧
      l.eraseIdx index = pre ++ post := by
  obtain ⟨hlt, rfl⟩ := List.getElem?_eq_some_iff.mp h
  refine ⟨l.take index, l.drop (index + 1), ?_, fun b => ?_, ?_⟩
  · rw [List.getElem_cons_drop, List.take_append_drop]
  · rw [List.set_eq_take_append_cons_drop, if_pos hlt]
  · exact List.eraseIdx_eq_take_drop_succ l index

section Positive

variable (h : Exact limits ledger)

include h

theorem Exact.queuedCharges_pos : ∀ charge ∈ ledger.queuedCharges, 0 < charge := by
  intro charge hmem
  rcases List.mem_append.mp hmem with hmem | hmem
  · exact h.reserved_pos charge hmem
  · obtain ⟨tag, htag, rfl⟩ := mem_of_mem_chargesOf hmem
    exact h.charge_pos tag htag

theorem Exact.queuedRequests_le : ledger.stats.queuedRequests ≤ ledger.stats.queuedRequestBytes := by
  rw [h.queuedRequests, h.queuedBytes]
  exact List.length_le_sum_of_one_le _ h.queuedCharges_pos

theorem Exact.activeRequests_le : ledger.stats.activeRequests ≤ ledger.stats.activeRequestBytes := by
  have hle : ledger.activeCharges.length ≤ ledger.activeCharges.sum := by
    refine List.length_le_sum_of_one_le _ fun charge hmem => ?_
    obtain ⟨tag, htag, rfl⟩ := mem_of_mem_chargesOf hmem
    exact h.charge_pos tag htag
  rw [h.activeRequests, h.activeBytes]
  omega

end Positive

/-! ## One call keeps the counters exact -/

/-- The counters a ledger is measured by. -/
structure SameCounters (stats stats' : RuntimeStats) : Prop where
  queuedRequests : stats'.queuedRequests = stats.queuedRequests
  queuedBytes : stats'.queuedRequestBytes = stats.queuedRequestBytes
  activeRequests : stats'.activeRequests = stats.activeRequests
  activeBytes : stats'.activeRequestBytes = stats.activeRequestBytes
  responseBytes : stats'.responseBytes = stats.responseBytes

variable {stats : RuntimeStats}

section

variable (h : Exact limits ledger)
include h

theorem Exact.of_sameCounters (hsame : SameCounters ledger.stats stats) :
    Exact limits { ledger with stats := stats } :=
  ⟨hsame.queuedRequests.trans h.queuedRequests, hsame.queuedBytes.trans h.queuedBytes,
    hsame.activeRequests.trans h.activeRequests, hsame.activeBytes.trans h.activeBytes,
    hsame.responseBytes.trans h.responseBytes, h.reserved_pos, h.charge_pos,
    hsame.queuedBytes.trans_lt h.queued_lt, hsame.activeBytes.trans_le h.active_le⟩

theorem Exact.covers_queued (hmem : tag ∈ ledger.requests) (hstate : tag.resourceState = .queued) :
    0 < ledger.stats.queuedRequests ∧ tag.resourceCharge ≤ ledger.stats.queuedRequestBytes := by
  have hcharge : tag.resourceCharge ∈ ledger.queuedCharges :=
    List.mem_append_right _ (List.mem_map_of_mem (List.mem_filter.mpr ⟨hmem, by simp [hstate]⟩))
  rw [h.queuedRequests, h.queuedBytes]
  exact ⟨List.length_pos_of_mem hcharge, List.le_sum_of_mem hcharge⟩

theorem Exact.covers_active (hmem : tag ∈ ledger.requests) (hstate : tag.resourceState = .active) :
    0 < ledger.stats.activeRequests ∧
      tag.resourceCharge + ledger.responses.sum ≤ ledger.stats.activeRequestBytes := by
  have hcharge : tag.resourceCharge ∈ ledger.activeCharges :=
    List.mem_map_of_mem (List.mem_filter.mpr ⟨hmem, by simp [hstate]⟩)
  have hle := List.le_sum_of_mem hcharge
  rw [h.activeRequests, h.activeBytes]
  exact ⟨List.length_pos_of_mem hcharge, by omega⟩

theorem Exact.covers_reservation (hmem : charge ∈ ledger.reservations) :
    0 < ledger.stats.queuedRequests ∧ charge ≤ ledger.stats.queuedRequestBytes := by
  have hcharge : charge ∈ ledger.queuedCharges := List.mem_append_left _ hmem
  rw [h.queuedRequests, h.queuedBytes]
  exact ⟨List.length_pos_of_mem hcharge, List.le_sum_of_mem hcharge⟩

theorem Exact.covers_response {bytes : Nat} (hmem : bytes ∈ ledger.responses) :
    bytes ≤ ledger.stats.responseBytes ∧ bytes ≤ ledger.stats.activeRequestBytes := by
  have hle := List.le_sum_of_mem hmem
  rw [h.responseBytes, h.activeBytes]
  omega

end

/-- The share of one request in the count of a resource state. -/
def ResourceTag.one (tag : ResourceTag) (state : ResourceState) : Nat :=
  if tag.resourceState = state then 1 else 0

/-- The share of one request in the bytes of a resource state. -/
def ResourceTag.bytes (tag : ResourceTag) (state : ResourceState) : Nat :=
  if tag.resourceState = state then tag.resourceCharge else 0

theorem length_chargesOf_cons (state : ResourceState) (tag : ResourceTag) (l : List ResourceTag) :
    (chargesOf state (tag :: l)).length = tag.one state + (chargesOf state l).length := by
  unfold ResourceTag.one
  split
  · next heq =>
    rw [chargesOf_cons_of_eq heq, List.length_cons]
    omega
  · next hne =>
    rw [chargesOf_cons_of_ne hne]
    omega

theorem sum_chargesOf_cons (state : ResourceState) (tag : ResourceTag) (l : List ResourceTag) :
    (chargesOf state (tag :: l)).sum = tag.bytes state + (chargesOf state l).sum := by
  unfold ResourceTag.bytes
  split
  · next heq => rw [chargesOf_cons_of_eq heq, List.sum_cons]
  · next hne =>
    rw [chargesOf_cons_of_ne hne]
    omega

theorem Exact.move (h : Exact limits ledger) {tag tag' : ResourceTag}
    (hget : ledger.requests[index]? = some tag) (hcharge : tag'.resourceCharge = tag.resourceCharge)
    (hqueued : stats.queuedRequests + tag.one .queued =
      ledger.stats.queuedRequests + tag'.one .queued)
    (hqueuedBytes : stats.queuedRequestBytes + tag.bytes .queued =
      ledger.stats.queuedRequestBytes + tag'.bytes .queued)
    (hactive : stats.activeRequests + tag.one .active =
      ledger.stats.activeRequests + tag'.one .active)
    (hactiveBytes : stats.activeRequestBytes + tag.bytes .active =
      ledger.stats.activeRequestBytes + tag'.bytes .active)
    (hresponse : stats.responseBytes = ledger.stats.responseBytes)
    (hlt : stats.queuedRequestBytes < wordSize)
    (hle : stats.activeRequestBytes ≤ limits.maxActiveBytes) :
    Exact limits { ledger with stats := stats, requests := ledger.requests.set index tag' } := by
  obtain ⟨pre, post, hsplit, hset, _⟩ := exists_split hget
  have h1 := h.queuedRequests
  have h2 := h.queuedBytes
  have h3 := h.activeRequests
  have h4 := h.activeBytes
  simp only [Ledger.queuedCharges, Ledger.activeCharges, hsplit, chargesOf_append,
    List.length_append, List.sum_append, length_chargesOf_cons, sum_chargesOf_cons] at h1 h2 h3 h4
  refine ⟨?_, ?_, ?_, ?_, hresponse.trans h.responseBytes, h.reserved_pos, ?_, hlt, hle⟩
  · simp only [Ledger.queuedCharges, hset, chargesOf_append, List.length_append,
      length_chargesOf_cons]
    omega
  · simp only [Ledger.queuedCharges, hset, chargesOf_append, List.sum_append, sum_chargesOf_cons]
    omega
  · simp only [Ledger.activeCharges, hset, chargesOf_append, List.length_append,
      length_chargesOf_cons]
    omega
  · simp only [Ledger.activeCharges, hset, chargesOf_append, List.sum_append, sum_chargesOf_cons]
    omega
  · intro t ht
    rcases List.mem_or_eq_of_mem_set ht with ht | rfl
    · exact h.charge_pos t ht
    · rw [hcharge]
      exact h.charge_pos tag (List.mem_of_getElem? hget)

/-! ## One call keeps the counters exact -/

/-- No sum of queued bytes wraps in this call. -/
def NoWrap (limits : ResourceLimits) (ledger : Ledger) : ResourceOp → Prop
  | .reserve charge =>
    (reserveQueued limits ledger.stats charge).1 = .ok →
      ledger.stats.queuedRequestBytes + charge < wordSize
  | .requeue index =>
    ∀ tag, ledger.requests[index]? = some tag → tag.resourceState = .active →
      ledger.stats.queuedRequestBytes + tag.resourceCharge < wordSize
  | _ => True

theorem reserveQueued_ok (h : (reserveQueued limits stats charge).1 = .ok) :
    charge ≠ 0 ∧ charge ≤ wordSub limits.maxQueuedBytes stats.queuedRequestBytes ∧
      (reserveQueued limits stats charge).2.queuedRequests = wordAdd stats.queuedRequests 1 ∧
      (reserveQueued limits stats charge).2.queuedRequestBytes =
        wordAdd stats.queuedRequestBytes charge := by
  unfold reserveQueued at h ⊢
  split_ifs at h ⊢ with h0 h1 h2 h3
  exact ⟨h0, Nat.not_lt.mp h3, rfl, rfl⟩

theorem reserveQueued_frame (limits : ResourceLimits) (stats : RuntimeStats) (charge : Nat) :
    (reserveQueued limits stats charge).2.activeRequests = stats.activeRequests ∧
      (reserveQueued limits stats charge).2.activeRequestBytes = stats.activeRequestBytes ∧
      (reserveQueued limits stats charge).2.responseBytes = stats.responseBytes := by
  unfold reserveQueued
  split_ifs <;> exact ⟨rfl, rfl, rfl⟩

theorem reserveQueued_refused (h : (reserveQueued limits stats charge).1 ≠ .ok) :
    SameCounters stats (reserveQueued limits stats charge).2 := by
  unfold reserveQueued at h ⊢
  split_ifs at h ⊢
  all_goals first
    | exact ⟨rfl, rfl, rfl, rfl, rfl⟩
    | exact absurd rfl h

theorem Exact.reserve (h : Exact limits ledger) (hwrap : NoWrap limits ledger (.reserve charge)) :
    Exact limits (ledger.apply limits (.reserve charge)) := by
  obtain ⟨hframe1, hframe2, hframe3⟩ := reserveQueued_frame limits ledger.stats charge
  by_cases hok : (reserveQueued limits ledger.stats charge).1 = .ok
  · obtain ⟨hne, _, hrequests, hbytes⟩ := reserveQueued_ok hok
    have hlt := hwrap hok
    have hle := h.queuedRequests_le
    rw [wordAdd_of_lt (by omega)] at hrequests
    rw [wordAdd_of_lt hlt] at hbytes
    simp only [Ledger.apply, hok, if_true]
    constructor
    case queuedRequests =>
      simp only [hrequests, h.queuedRequests, Ledger.queuedCharges, List.length_append,
        List.length_singleton]
      omega
    case queuedBytes =>
      simp only [hbytes, h.queuedBytes, Ledger.queuedCharges, List.sum_append, List.sum_singleton]
      omega
    case activeRequests => exact hframe1.trans h.activeRequests
    case activeBytes => exact hframe2.trans h.activeBytes
    case responseBytes => exact hframe3.trans h.responseBytes
    case reserved_pos =>
      intro c hc
      rcases List.mem_append.mp hc with hc | hc
      · exact h.reserved_pos c hc
      · rw [List.mem_singleton.mp hc]
        exact Nat.pos_of_ne_zero hne
    case charge_pos => exact h.charge_pos
    case queued_lt =>
      simp only [hbytes]
      exact hlt
    case active_le => exact hframe2.trans_le h.active_le
  · simp only [Ledger.apply, hok, if_false]
    exact h.of_sameCounters (reserveQueued_refused hok)

theorem decrementOne_of_pos {value : Nat} (h : 0 < value) : decrementOne value = value - 1 :=
  if_pos (Nat.ne_of_gt h)

theorem decrementBytes_of_le {value charge : Nat} (h : charge ≤ value) :
    decrementBytes value charge = value - charge := if_pos h

section

variable (h : Exact limits ledger)
include h

theorem Exact.releaseUnpublished (index : Nat) :
    Exact limits (ledger.apply limits (.releaseUnpublished index)) := by
  simp only [Ledger.apply]
  cases hget : ledger.reservations[index]? with
  | none => exact h
  | some charge =>
    obtain ⟨pre, post, hsplit, _, herase⟩ := exists_split hget
    have hmem : charge ∈ ledger.reservations := List.mem_of_getElem? hget
    obtain ⟨hpos, hle⟩ := h.covers_reservation hmem
    have hne : charge ≠ 0 := Nat.ne_of_gt (h.reserved_pos charge hmem)
    have h1 := h.queuedRequests
    have h2 := h.queuedBytes
    have hlt := h.queued_lt
    simp only [Ledger.queuedCharges, hsplit, List.length_append, List.sum_append,
      List.length_cons, List.sum_cons] at h1 h2
    simp only [Rest.releaseUnpublished, hne, if_false, decrementOne_of_pos hpos,
      decrementBytes_of_le hle]
    refine ⟨?_, ?_, h.activeRequests, h.activeBytes, h.responseBytes, fun c hc => ?_,
      h.charge_pos, ?_, h.active_le⟩
    · simp only [Ledger.queuedCharges, herase, List.length_append]
      omega
    · simp only [Ledger.queuedCharges, herase, List.sum_append]
      omega
    · exact h.reserved_pos c (List.mem_of_mem_eraseIdx hc)
    · simp only
      omega

theorem Exact.publish (index : Nat) : Exact limits (ledger.apply limits (.publish index)) := by
  simp only [Ledger.apply]
  cases hget : ledger.reservations[index]? with
  | none => exact h
  | some charge =>
    obtain ⟨pre, post, hsplit, _, herase⟩ := exists_split hget
    have hmem : charge ∈ ledger.reservations := List.mem_of_getElem? hget
    have h1 := h.queuedRequests
    have h2 := h.queuedBytes
    simp only [Ledger.queuedCharges, hsplit, List.length_append, List.sum_append,
      List.length_cons, List.sum_cons] at h1 h2
    have hqueued : chargesOf .queued [⟨charge, .queued, true⟩] = [charge] := rfl
    have hactive : chargesOf .active [⟨charge, .queued, true⟩] = [] := rfl
    refine ⟨?_, ?_, ?_, ?_, h.responseBytes, fun c hc => ?_, fun t ht => ?_, h.queued_lt,
      h.active_le⟩
    · simp only [Ledger.queuedCharges, herase, chargesOf_append, hqueued, List.length_append,
        List.length_singleton]
      omega
    · simp only [Ledger.queuedCharges, herase, chargesOf_append, hqueued, List.sum_append,
        List.sum_singleton]
      omega
    · simp only [Ledger.activeCharges, chargesOf_append, hactive, List.append_nil]
      exact h.activeRequests
    · simp only [Ledger.activeCharges, chargesOf_append, hactive, List.append_nil]
      exact h.activeBytes
    · exact h.reserved_pos c (List.mem_of_mem_eraseIdx hc)
    · rcases List.mem_append.mp ht with ht | ht
      · exact h.charge_pos t ht
      · rw [List.mem_singleton.mp ht]
        exact h.reserved_pos charge hmem

theorem Exact.activate (index : Nat) : Exact limits (ledger.apply limits (.activate index)) := by
  simp only [Ledger.apply]
  cases hget : ledger.requests[index]? with
  | none => exact h
  | some tag =>
    have hmem : tag ∈ ledger.requests := List.mem_of_getElem? hget
    have hsame : ledger.requests.set index tag = ledger.requests := by
      obtain ⟨hlt, rfl⟩ := List.getElem?_eq_some_iff.mp hget
      exact List.set_getElem_self hlt
    simp only [Rest.activate]
    split_ifs with hstate hover
    · simp only [hsame]
      exact h
    · simp only [hsame]
      exact h.of_sameCounters ⟨rfl, rfl, rfl, rfl, rfl⟩
    · have hstate : tag.resourceState = .queued := Classical.not_not.mp hstate
      obtain ⟨hpos, hle⟩ := h.covers_queued hmem hstate
      have hactive := h.active_le
      have hfits := limits.active_lt
      have hcount := h.activeRequests_le
      have hcharge := h.charge_pos tag hmem
      have hlt := h.queued_lt
      rw [wordSub_of_le hactive hfits, Nat.not_lt] at hover
      simp only [decrementOne_of_pos hpos, decrementBytes_of_le hle,
        wordAdd_of_lt (show ledger.stats.activeRequests + 1 < wordSize by omega),
        wordAdd_of_lt (show ledger.stats.activeRequestBytes + tag.resourceCharge < wordSize by
          omega)]
      refine h.move hget rfl ?_ ?_ ?_ ?_ rfl ?_ ?_ <;>
        simp only [ResourceTag.one, ResourceTag.bytes, hstate, reduceCtorEq, if_true,
          if_false] <;> omega

theorem Exact.requeue (hwrap : NoWrap limits ledger (.requeue index)) :
    Exact limits (ledger.apply limits (.requeue index)) := by
  simp only [Ledger.apply]
  cases hget : ledger.requests[index]? with
  | none => exact h
  | some tag =>
    have hmem : tag ∈ ledger.requests := List.mem_of_getElem? hget
    simp only [Rest.requeue]
    split_ifs with hstate
    · obtain ⟨hlt, rfl⟩ := List.getElem?_eq_some_iff.mp hget
      simp only [List.set_getElem_self]
      exact h
    · have hstate : tag.resourceState = .active := Classical.not_not.mp hstate
      obtain ⟨hpos, hle⟩ := h.covers_active hmem hstate
      have hactive := h.active_le
      have hcount := h.queuedRequests_le
      have hcharge := h.charge_pos tag hmem
      have hlt := hwrap tag hget hstate
      simp only [decrementOne_of_pos hpos,
        decrementBytes_of_le (show tag.resourceCharge ≤ ledger.stats.activeRequestBytes by omega),
        wordAdd_of_lt (show ledger.stats.queuedRequests + 1 < wordSize by omega),
        wordAdd_of_lt hlt]
      refine h.move hget rfl ?_ ?_ ?_ ?_ rfl ?_ ?_ <;>
        simp only [ResourceTag.one, ResourceTag.bytes, hstate, reduceCtorEq, if_true,
          if_false] <;> omega

theorem Exact.dropCompletion (index : Nat) :
    Exact limits (ledger.apply limits (.dropCompletion index)) := by
  simp only [Ledger.apply]
  cases hget : ledger.requests[index]? with
  | none => exact h
  | some tag => exact h.move hget rfl rfl rfl rfl rfl rfl h.queued_lt h.active_le

end

theorem countRelease_sameCounters (stats : RuntimeStats) (tag : ResourceTag)
    (cancelRequested : Bool) : SameCounters stats (countRelease stats tag cancelRequested) := by
  unfold countRelease
  split <;> exact ⟨rfl, rfl, rfl, rfl, rfl⟩

section

variable (h : Exact limits ledger)
include h

theorem Exact.release (index : Nat) (cancelRequested : Bool) :
    Exact limits (ledger.apply limits (.release index cancelRequested)) := by
  simp only [Ledger.apply]
  cases hget : ledger.requests[index]? with
  | none => exact h
  | some tag =>
    have hmem : tag ∈ ledger.requests := List.mem_of_getElem? hget
    have hlt := h.queued_lt
    have hle' := h.active_le
    have hcount := fun stats => countRelease_sameCounters stats tag cancelRequested
    have hqueued := fun stats => (hcount stats).queuedRequests
    have hqueuedBytes := fun stats => (hcount stats).queuedBytes
    have hactive := fun stats => (hcount stats).activeRequests
    have hactiveBytes := fun stats => (hcount stats).activeBytes
    have hresponse := fun stats => (hcount stats).responseBytes
    simp only [releaseRequest]
    cases hstate : tag.resourceState with
    | released =>
      obtain ⟨hlt, rfl⟩ := List.getElem?_eq_some_iff.mp hget
      simp only [List.set_getElem_self]
      exact h
    | queued =>
      obtain ⟨hpos, hle⟩ := h.covers_queued hmem hstate
      simp only [decrementOne_of_pos hpos, decrementBytes_of_le hle]
      refine h.move hget rfl ?_ ?_ ?_ ?_ (hresponse _) ?_ ?_ <;>
        simp only [hqueued, hqueuedBytes, hactive, hactiveBytes, ResourceTag.one,
          ResourceTag.bytes, hstate, reduceCtorEq, if_true, if_false] <;> omega
    | active =>
      obtain ⟨hpos, hle⟩ := h.covers_active hmem hstate
      simp only [decrementOne_of_pos hpos, decrementBytes_of_le
        (show tag.resourceCharge ≤ ledger.stats.activeRequestBytes by omega)]
      refine h.move hget rfl ?_ ?_ ?_ ?_ (hresponse _) ?_ ?_ <;>
        simp only [hqueued, hqueuedBytes, hactive, hactiveBytes, ResourceTag.one,
          ResourceTag.bytes, hstate, reduceCtorEq, if_true, if_false] <;> omega

theorem Exact.reserveResponse (bytes : Nat) :
    Exact limits (ledger.apply limits (.reserveResponse bytes)) := by
  by_cases hzero : bytes = 0
  · subst hzero
    simp only [Ledger.apply, Rest.reserveResponse, if_true]
    refine ⟨h.queuedRequests, h.queuedBytes, h.activeRequests, ?_, ?_, h.reserved_pos,
      h.charge_pos, h.queued_lt, h.active_le⟩
    · rw [List.sum_append, List.sum_singleton, Nat.add_zero]
      exact h.activeBytes
    · rw [List.sum_append, List.sum_singleton, Nat.add_zero]
      exact h.responseBytes
  by_cases hover : limits.maxResponseBytes < bytes ∨
      wordSub limits.maxActiveBytes ledger.stats.activeRequestBytes < bytes
  · simp only [Ledger.apply, Rest.reserveResponse, hzero, hover, if_true, if_false, reduceCtorEq]
    exact h.of_sameCounters ⟨rfl, rfl, rfl, rfl, rfl⟩
  · have hactive := h.active_le
    have hfits := limits.active_lt
    have hbytes := h.activeBytes
    have hresponse := h.responseBytes
    have hroom := (not_or.mp hover).2
    rw [wordSub_of_le hactive hfits, Nat.not_lt] at hroom
    simp only [Ledger.apply, Rest.reserveResponse, hzero, hover, if_true, if_false,
      wordAdd_of_lt (show ledger.stats.responseBytes + bytes < wordSize by omega),
      wordAdd_of_lt (show ledger.stats.activeRequestBytes + bytes < wordSize by omega)]
    refine ⟨h.queuedRequests, h.queuedBytes, h.activeRequests, ?_, ?_, h.reserved_pos,
      h.charge_pos, h.queued_lt, ?_⟩
    · simp only [Ledger.activeCharges, List.sum_append, List.sum_singleton] at hbytes ⊢
      omega
    · simp only [List.sum_append, List.sum_singleton]
      omega
    · simp only
      omega

theorem Exact.releaseResponse (index : Nat) :
    Exact limits (ledger.apply limits (.releaseResponse index)) := by
  simp only [Ledger.apply]
  cases hget : ledger.responses[index]? with
  | none => exact h
  | some bytes =>
    obtain ⟨pre, post, hsplit, _, herase⟩ := exists_split hget
    obtain ⟨hresponse, hactive⟩ := h.covers_response (List.mem_of_getElem? hget)
    have hle := h.active_le
    have h4 := h.activeBytes
    have h5 := h.responseBytes
    simp only [Ledger.activeCharges, hsplit, List.sum_append, List.sum_cons] at h4 h5
    simp only [Rest.releaseResponse]
    split_ifs with hzero
    · refine ⟨h.queuedRequests, h.queuedBytes, h.activeRequests, ?_, ?_, h.reserved_pos,
        h.charge_pos, h.queued_lt, hle⟩
      · simp only [Ledger.activeCharges, herase, List.sum_append]
        omega
      · simp only [herase, List.sum_append]
        omega
    · simp only [decrementBytes_of_le hresponse, decrementBytes_of_le hactive]
      refine ⟨h.queuedRequests, h.queuedBytes, h.activeRequests, ?_, ?_, h.reserved_pos,
        h.charge_pos, h.queued_lt, ?_⟩
      · simp only [Ledger.activeCharges, herase, List.sum_append]
        omega
      · simp only [herase, List.sum_append]
        omega
      · simp only
        omega

/-- **The step.**  A call in which no sum of queued bytes wraps keeps every
counter exact. -/
theorem Exact.apply {op : ResourceOp} (hwrap : NoWrap limits ledger op) :
    Exact limits (ledger.apply limits op) := by
  cases op with
  | reserve charge => exact h.reserve hwrap
  | releaseUnpublished index => exact h.releaseUnpublished index
  | publish index => exact h.publish index
  | activate index => exact h.activate index
  | requeue index => exact h.requeue hwrap
  | dropCompletion index => exact h.dropCompletion index
  | release index cancelRequested => exact h.release index cancelRequested
  | reserveResponse bytes => exact h.reserveResponse bytes
  | releaseResponse index => exact h.releaseResponse index
  | recordRateLimit => exact h.of_sameCounters ⟨rfl, rfl, rfl, rfl, rfl⟩

end

theorem exact_empty (limits : ResourceLimits) : Exact limits Ledger.empty :=
  ⟨rfl, rfl, rfl, rfl, rfl, by simp [Ledger.empty], by simp [Ledger.empty], by decide,
    Nat.zero_le _⟩

/-! ## Memory bounds the charges -/

/-- The charges of all requests that are reserved, queued or active. -/
def Ledger.chargesAlive (ledger : Ledger) : Nat :=
  ledger.queuedCharges.sum + ledger.activeCharges.sum

/-- A charge counts the bytes of the request's own objects.  The objects of all
requests exist side by side, so their bytes together fit the address space. -/
def FitsMemory (ledger : Ledger) : ResourceOp → Prop
  | .reserve charge => ledger.chargesAlive + charge < wordSize
  | _ => True

/-- The bytes a call can add to the charges alive. -/
def ResourceOp.newCharge : ResourceOp → Nat
  | .reserve charge => charge
  | _ => 0

theorem chargesAlive_set_le {tag tag' : ResourceTag} (hget : ledger.requests[index]? = some tag)
    (hle : tag'.bytes .queued + tag'.bytes .active ≤ tag.bytes .queued + tag.bytes .active) :
    Ledger.chargesAlive { ledger with stats := stats, requests := ledger.requests.set index tag' } ≤
      ledger.chargesAlive := by
  obtain ⟨pre, post, hsplit, hset, _⟩ := exists_split hget
  simp only [Ledger.chargesAlive, Ledger.queuedCharges, Ledger.activeCharges, hset]
  simp only [hsplit, chargesOf_append, List.sum_append, sum_chargesOf_cons]
  omega

theorem bytes_add_le (tag : ResourceTag) :
    tag.bytes .queued + tag.bytes .active ≤ tag.resourceCharge := by
  cases hstate : tag.resourceState <;> simp [ResourceTag.bytes, hstate]

theorem bytes_add_of_queued (h : tag.resourceState = .queued) :
    tag.bytes .queued + tag.bytes .active = tag.resourceCharge := by
  simp [ResourceTag.bytes, h]

theorem bytes_add_of_active (h : tag.resourceState = .active) :
    tag.bytes .queued + tag.bytes .active = tag.resourceCharge := by
  simp [ResourceTag.bytes, h]

theorem chargesAlive_apply_le (limits : ResourceLimits) (ledger : Ledger) (op : ResourceOp) :
    (ledger.apply limits op).chargesAlive ≤ ledger.chargesAlive + op.newCharge := by
  cases op with
  | reserve charge =>
    simp only [Ledger.apply, ResourceOp.newCharge]
    split
    · simp only [Ledger.chargesAlive, Ledger.queuedCharges, Ledger.activeCharges,
        List.sum_append, List.sum_singleton]
      omega
    · exact Nat.le_add_right _ _
  | releaseUnpublished index =>
    simp only [Ledger.apply]
    cases hget : ledger.reservations[index]? with
    | none => exact Nat.le_refl _
    | some charge =>
      obtain ⟨pre, post, hsplit, _, herase⟩ := exists_split hget
      simp only [Ledger.chargesAlive, Ledger.queuedCharges, Ledger.activeCharges, herase]
      simp only [hsplit, List.sum_append, List.sum_cons]
      omega
  | publish index =>
    simp only [Ledger.apply]
    cases hget : ledger.reservations[index]? with
    | none => exact Nat.le_refl _
    | some charge =>
      obtain ⟨pre, post, hsplit, _, herase⟩ := exists_split hget
      have hqueued : chargesOf .queued [⟨charge, .queued, true⟩] = [charge] := rfl
      have hactive : chargesOf .active [⟨charge, .queued, true⟩] = [] := rfl
      simp only [Ledger.chargesAlive, Ledger.queuedCharges, Ledger.activeCharges, herase]
      simp only [hsplit, chargesOf_append, hqueued, hactive, List.sum_append, List.sum_cons,
        List.sum_nil]
      omega
  | activate index =>
    simp only [Ledger.apply]
    cases hget : ledger.requests[index]? with
    | none => exact Nat.le_refl _
    | some tag =>
      refine chargesAlive_set_le hget ?_
      unfold activate
      split_ifs with hstate hover
      · exact Nat.le_refl _
      · exact Nat.le_refl _
      · rw [bytes_add_of_queued (Classical.not_not.mp hstate)]
        exact bytes_add_le _
  | requeue index =>
    simp only [Ledger.apply]
    cases hget : ledger.requests[index]? with
    | none => exact Nat.le_refl _
    | some tag =>
      refine chargesAlive_set_le hget ?_
      unfold requeue
      split_ifs with hstate
      · exact Nat.le_refl _
      · rw [bytes_add_of_active (Classical.not_not.mp hstate)]
        exact bytes_add_le _
  | dropCompletion index =>
    simp only [Ledger.apply]
    cases hget : ledger.requests[index]? with
    | none => exact Nat.le_refl _
    | some tag =>
      exact chargesAlive_set_le hget (Nat.le_refl _)
  | release index cancelRequested =>
    simp only [Ledger.apply]
    cases hget : ledger.requests[index]? with
    | none => exact Nat.le_refl _
    | some tag =>
      refine chargesAlive_set_le hget ?_
      unfold releaseRequest
      split
      · exact Nat.le_refl _
      · simp [ResourceTag.bytes]
      · simp [ResourceTag.bytes]
  | reserveResponse bytes =>
    simp only [Ledger.apply]
    split
    · exact Nat.le_refl _
    · exact Nat.le_refl _
  | releaseResponse index =>
    simp only [Ledger.apply]
    cases hget : ledger.responses[index]? with
    | none => exact Nat.le_refl _
    | some bytes => exact Nat.le_refl _
  | recordRateLimit => exact Nat.le_refl _

theorem noWrap_of_fitsMemory (h : Exact limits ledger) (halive : ledger.chargesAlive < wordSize)
    {op : ResourceOp}
    (hfits : FitsMemory ledger op) : NoWrap limits ledger op := by
  have hbytes := h.queuedBytes
  cases op with
  | reserve charge =>
    intro _
    simp only [FitsMemory, Ledger.chargesAlive] at hfits
    omega
  | requeue index =>
    intro tag hget hstate
    have hcharge : tag.resourceCharge ≤ ledger.activeCharges.sum :=
      List.le_sum_of_mem (List.mem_map_of_mem
        (List.mem_filter.mpr ⟨List.mem_of_getElem? hget, by simp [hstate]⟩))
    simp only [Ledger.chargesAlive] at halive
    omega
  | _ => trivial

/-- **The accounting is exact.**  Whatever the order of reserving, publishing,
activating, requeueing, failing, completing and releasing, the queued and the
active counters are the number and the byte sum of what is queued and active,
response bytes included; every decrement meets a counter that covers it; and
when everything is released all of them are zero. -/
theorem resource_accounting_exact (limits : ResourceLimits) (ledger : Ledger)
    (h : Reach (Ledger.apply limits) FitsMemory Ledger.empty ledger) :
    (ledger.stats.queuedRequests = ledger.queuedCharges.length ∧
      ledger.stats.queuedRequestBytes = ledger.queuedCharges.sum ∧
      ledger.stats.activeRequests = ledger.activeCharges.length ∧
      ledger.stats.activeRequestBytes = ledger.activeCharges.sum + ledger.responses.sum ∧
      ledger.stats.responseBytes = ledger.responses.sum) ∧
    ((∀ charge ∈ ledger.reservations,
        0 < ledger.stats.queuedRequests ∧ charge ≤ ledger.stats.queuedRequestBytes) ∧
      (∀ tag ∈ ledger.requests, tag.resourceState = .queued → 0 < ledger.stats.queuedRequests ∧
          tag.resourceCharge ≤ ledger.stats.queuedRequestBytes) ∧
      (∀ tag ∈ ledger.requests, tag.resourceState = .active → 0 < ledger.stats.activeRequests ∧
          tag.resourceCharge ≤ ledger.stats.activeRequestBytes) ∧
      (∀ bytes ∈ ledger.responses,
        bytes ≤ ledger.stats.responseBytes ∧ bytes ≤ ledger.stats.activeRequestBytes)) ∧
    (ledger.reservations = [] → (∀ tag ∈ ledger.requests, tag.resourceState = .released) →
      ledger.responses = [] →
      ledger.stats.queuedRequests = 0 ∧ ledger.stats.queuedRequestBytes = 0 ∧
        ledger.stats.activeRequests = 0 ∧ ledger.stats.activeRequestBytes = 0 ∧
        ledger.stats.responseBytes = 0) := by
  have hinv : Exact limits ledger ∧ ledger.chargesAlive < wordSize := by
    refine Reach.invariant (P := fun l => Exact limits l ∧ l.chargesAlive < wordSize)
      ⟨exact_empty limits, by decide⟩ (fun l op ⟨hexact, halive⟩ hfits => ?_) h
    refine ⟨hexact.apply (noWrap_of_fitsMemory hexact halive hfits), ?_⟩
    refine Nat.lt_of_le_of_lt (chargesAlive_apply_le limits l op) ?_
    cases op with
    | reserve charge => exact hfits
    | _ => exact halive
  have hexact := hinv.1
  refine ⟨⟨hexact.queuedRequests, hexact.queuedBytes, hexact.activeRequests, hexact.activeBytes,
    hexact.responseBytes⟩, ⟨fun charge => hexact.covers_reservation,
    fun tag => hexact.covers_queued, fun tag htag hstate => ?_,
    fun bytes => hexact.covers_response⟩, fun hreserved hreleased hresponses => ?_⟩
  · obtain ⟨hpos, hle⟩ := hexact.covers_active htag hstate
    exact ⟨hpos, by omega⟩
  · have hnone : ∀ state, state ≠ .released → chargesOf state ledger.requests = [] := by
      intro state hstate
      rw [chargesOf, List.filter_eq_nil_iff.mpr, List.map_nil]
      intro tag htag
      simp [hreleased tag htag, Ne.symm hstate]
    have hqueued : ledger.queuedCharges = [] := by
      rw [Ledger.queuedCharges, hreserved, hnone .queued (by decide), List.append_nil]
    have hactive : ledger.activeCharges = [] := hnone .active (by decide)
    rw [hexact.queuedRequests, hexact.queuedBytes, hexact.activeRequests, hexact.activeBytes,
      hexact.responseBytes, hqueued, hactive, hresponses]
    exact ⟨rfl, rfl, rfl, rfl, rfl⟩

/-! ## The queue budget -/

/-- A requeue for which the queue has room. -/
def RequeueWithin (limits : ResourceLimits) (ledger : Ledger) : ResourceOp → Prop
  | .requeue index =>
    ∀ tag, ledger.requests[index]? = some tag → tag.resourceState = .active →
      ledger.stats.queuedRequestBytes + tag.resourceCharge ≤ limits.maxQueuedBytes
  | _ => True

theorem reserveQueued_within (hle : stats.queuedRequestBytes ≤ limits.maxQueuedBytes)
    (hok : (reserveQueued limits stats charge).1 = .ok) :
    stats.queuedRequestBytes + charge ≤ limits.maxQueuedBytes := by
  obtain ⟨_, hroom, _⟩ := reserveQueued_ok hok
  rw [wordSub_of_le hle limits.queued_lt] at hroom
  omega

theorem decrementBytes_le (value charge : Nat) : decrementBytes value charge ≤ value := by
  unfold decrementBytes
  split <;> omega

theorem queuedBytes_apply_le (hle : ledger.stats.queuedRequestBytes ≤ limits.maxQueuedBytes)
    {op : ResourceOp}
    (hop : RequeueWithin limits ledger op) :
    (ledger.apply limits op).stats.queuedRequestBytes ≤ limits.maxQueuedBytes := by
  have hfits := limits.queued_lt
  cases op with
  | reserve charge =>
    simp only [Ledger.apply]
    split
    · next hok =>
      obtain ⟨_, _, _, hbytes⟩ := reserveQueued_ok hok
      have hroom := reserveQueued_within hle hok
      simp only [hbytes]
      rwa [wordAdd_of_lt (by omega)]
    · next hok =>
      simp only [(reserveQueued_refused hok).queuedBytes]
      exact hle
  | releaseUnpublished index =>
    simp only [Ledger.apply]
    split
    · exact hle
    · simp only [releaseUnpublished]
      split
      · exact hle
      · exact Nat.le_trans (decrementBytes_le _ _) hle
  | publish index =>
    simp only [Ledger.apply]
    split <;> exact hle
  | activate index =>
    simp only [Ledger.apply]
    split
    · exact hle
    · simp only [activate]
      split_ifs
      · exact hle
      · exact hle
      · exact Nat.le_trans (decrementBytes_le _ _) hle
  | requeue index =>
    simp only [Ledger.apply]
    split
    · exact hle
    · next tag hget =>
      simp only [requeue]
      split_ifs with hstate
      · exact hle
      · have hroom := hop tag hget (Classical.not_not.mp hstate)
        exact (wordAdd_of_lt (Nat.lt_of_le_of_lt hroom hfits)).trans_le hroom
  | dropCompletion index =>
    simp only [Ledger.apply]
    split <;> exact hle
  | release index cancelRequested =>
    simp only [Ledger.apply]
    split
    · exact hle
    · next tag _ =>
      simp only [releaseRequest]
      split
      · exact hle
      · rw [(countRelease_sameCounters _ tag cancelRequested).queuedBytes]
        exact Nat.le_trans (decrementBytes_le _ _) hle
      · rw [(countRelease_sameCounters _ tag cancelRequested).queuedBytes]
        exact hle
  | reserveResponse bytes =>
    have hsame : (reserveResponse limits ledger.stats bytes).2.queuedRequestBytes =
        ledger.stats.queuedRequestBytes := by
      unfold reserveResponse
      split_ifs <;> rfl
    simp only [Ledger.apply]
    split <;> exact hsame.trans_le hle
  | releaseResponse index =>
    simp only [Ledger.apply]
    split
    · exact hle
    · simp only [releaseResponse]
      split <;> exact hle
  | recordRateLimit => exact hle

theorem noWrap_of_requeueWithin (hle : ledger.stats.queuedRequestBytes ≤ limits.maxQueuedBytes)
    {op : ResourceOp}
    (hop : RequeueWithin limits ledger op) : NoWrap limits ledger op := by
  have hfits := limits.queued_lt
  cases op with
  | reserve charge => exact fun hok => Nat.lt_of_le_of_lt (reserveQueued_within hle hok) hfits
  | requeue index =>
    exact fun tag hget hstate => Nat.lt_of_le_of_lt (hop tag hget hstate) hfits
  | _ => trivial

/-- **The queue budget, where requeues fit.**  In every run whose requeues all
find room in the queue, the queued bytes stay within the limit, the subtraction
of the admission check does not wrap, and a request is admitted only if the
queued bytes and its own stay within the limit. -/
theorem queueBudget_of_requeues_within (limits : ResourceLimits) (ledger : Ledger)
    (h : Reach (Ledger.apply limits) (RequeueWithin limits) Ledger.empty ledger) :
    ledger.stats.queuedRequestBytes ≤ limits.maxQueuedBytes ∧
      wordSub limits.maxQueuedBytes ledger.stats.queuedRequestBytes =
        limits.maxQueuedBytes - ledger.stats.queuedRequestBytes ∧
      ∀ charge, (reserveQueued limits ledger.stats charge).1 = .ok →
        ledger.queuedCharges.sum + charge ≤ limits.maxQueuedBytes := by
  have hinv : Exact limits ledger ∧ ledger.stats.queuedRequestBytes ≤ limits.maxQueuedBytes := by
    refine Reach.invariant
      (P := fun l => Exact limits l ∧ l.stats.queuedRequestBytes ≤ limits.maxQueuedBytes)
      ⟨exact_empty limits, Nat.zero_le _⟩ (fun l op ⟨hexact, hle⟩ hop => ?_) h
    exact ⟨hexact.apply (noWrap_of_requeueWithin hle hop), queuedBytes_apply_le hle hop⟩
  obtain ⟨hexact, hle⟩ := hinv
  refine ⟨hle, wordSub_of_le hle limits.queued_lt, fun charge hok => ?_⟩
  rw [← hexact.queuedBytes]
  exact reserveQueued_within hle hok

/-- Limits of one request of 1024 bytes in the queue. -/
def oneRequestLimits : ResourceLimits :=
  { maxQueuedRequests := 4096
    maxRequestBytes := 1024
    maxQueuedBytes := 1024
    maxActiveBytes := 2048
    maxResponseBytes := 1024
    queued_lt := by decide
    active_lt := by decide
    request_le_queued := by decide
    request_add_response_le_active := by decide }

/-- A request of 1024 bytes is queued and becomes active, and a second one takes
its place in the queue. -/
def refilledQueue : List ResourceOp := [.reserve 1024, .publish 0, .activate 0, .reserve 1024]

/-- The budget theorem on a run without a requeue. -/
theorem queueBudget_refilledQueue :
    let ledger := refilledQueue.foldl (Ledger.apply oneRequestLimits) Ledger.empty
    ledger.stats.queuedRequestBytes ≤ 1024 ∧
      (reserveQueued oneRequestLimits ledger.stats 1).1 = .resourceLimit := by
  intro ledger
  have hreach : Reach (Ledger.apply oneRequestLimits) (RequeueWithin oneRequestLimits)
      Ledger.empty ledger :=
    Reach.start.run ⟨trivial, trivial, trivial, trivial, trivial⟩
  exact ⟨(queueBudget_of_requeues_within oneRequestLimits ledger hreach).1, by decide⟩

/-- The accounting theorem on the same run. -/
theorem resource_accounting_refilledQueue :
    let ledger := refilledQueue.foldl (Ledger.apply oneRequestLimits) Ledger.empty
    ledger.stats.queuedRequestBytes = 1024 ∧ ledger.stats.activeRequestBytes = 1024 := by
  intro ledger
  have hreach : Reach (Ledger.apply oneRequestLimits) FitsMemory Ledger.empty ledger :=
    Reach.start.run ⟨show 0 + 1024 < wordSize by decide, trivial, trivial,
      show 1024 + 1024 < wordSize by decide, trivial⟩
  obtain ⟨⟨_, hqueued, _, hactive, _⟩, _⟩ :=
    resource_accounting_exact oneRequestLimits ledger hreach
  exact ⟨hqueued.trans (by decide), hactive.trans (by decide)⟩

/-- The first request comes back on a retry: 2048 bytes are queued under a limit
of 1024, the subtraction wraps, and a third request is admitted. -/
theorem requeue_over_budget :
    ¬ ∀ (limits : ResourceLimits) (ops : List ResourceOp),
      (ops.foldl (Ledger.apply limits) Ledger.empty).stats.queuedRequestBytes ≤
          limits.maxQueuedBytes ∧
        ∀ charge,
          (reserveQueued limits (ops.foldl (Ledger.apply limits) Ledger.empty).stats charge).1 =
            .ok →
          (ops.foldl (Ledger.apply limits) Ledger.empty).queuedCharges.sum + charge ≤
            limits.maxQueuedBytes := by
  intro hall
  have hadmitted := (hall oneRequestLimits (refilledQueue ++ [.requeue 0])).2 1024
    (by decide +kernel)
  exact absurd hadmitted (by decide +kernel)

end Dcc.Rest
