import Mathlib.Data.List.Basic
import Mathlib.Tactic.SplitIfs
import Dcc.Basic

/-!
# The REST firewall

The firewall counts invalid responses (401, 403, 429) over a window and delays
or rejects requests when there are too many.  The window is rolled lazily, by
whichever call comes first after its end, and the calls bring their own clock
readings, in any order.

The abstract side is the list of calls: `currentWindow` cuts it into windows by
the calls' times alone, without any counter.

* `window_refines`: the counter of the state is the number of invalid responses
  in the current window of the calls, up to the largest word;
* `firewall_window_law`: that, and the rejection of every check between the
  call that brings the count to the hard limit and the end of the window.
-/

namespace Dcc.Rest

/-- `dcc_rest_firewall_hard_limit_action_t`. -/
inductive HardLimitAction
  | rejectNoncritical
  | rejectAll
  | delay
  deriving DecidableEq, Repr

/-- `dcc_rest_firewall_decision_t`. -/
inductive Decision
  | allow
  | delay
  | reject
  deriving DecidableEq, Repr

/-- `dcc_rest_firewall_reason_t`. -/
inductive Reason
  | none
  | softInvalidRequestLimit
  | hardInvalidRequestLimit
  deriving DecidableEq, Repr

/-- `dcc_rest_firewall_options_t`. -/
structure FirewallOptions where
  size : Nat
  invalidRequestSoftLimit : Nat
  invalidRequestHardLimit : Nat
  invalidRequestWindowMs : Nat
  softLimitDelayMs : Nat
  onHardLimit : HardLimitAction
  deriving DecidableEq, Repr

/-- The size of the options up to and with `on_hard_limit`. -/
def firewallOptionsBaseSize : Nat := 32

/-- `dcc_rest_firewall_options_validate`. -/
def FirewallOptions.validate (options : FirewallOptions) : Status :=
  if options.size < firewallOptionsBaseSize ∨ options.invalidRequestWindowMs = 0 ∨
      options.invalidRequestHardLimit = 0 ∨
      (options.invalidRequestSoftLimit ≠ 0 ∧
        options.invalidRequestHardLimit < options.invalidRequestSoftLimit) then
    .invalidArg
  else .ok

/-- `dcc_rest_firewall_options_init`. -/
def FirewallOptions.init : FirewallOptions :=
  { size := firewallOptionsBaseSize
    invalidRequestSoftLimit := 8000
    invalidRequestHardLimit := 9500
    invalidRequestWindowMs := 600000
    softLimitDelayMs := 1000
    onHardLimit := .rejectNoncritical }

/-- `dcc_rest_firewall_state_t`; its options have passed validation. -/
structure FirewallState where
  options : FirewallOptions
  windowStartedAtMs : Nat
  invalidRequestCount : Nat
  totalRequests : Nat
  totalInvalidRequests : Nat
  totalDelayedRequests : Nat
  totalRejectedRequests : Nat
  windowActive : Bool
  attached : Bool
  options_valid : options.validate = .ok

/-- A state after `calloc`, with its options. -/
def FirewallState.blank (options : FirewallOptions) (attached : Bool)
    (hvalid : options.validate = .ok) : FirewallState :=
  { options := options
    windowStartedAtMs := 0
    invalidRequestCount := 0
    totalRequests := 0
    totalInvalidRequests := 0
    totalDelayedRequests := 0
    totalRejectedRequests := 0
    windowActive := false
    attached := attached
    options_valid := hvalid }

/-- `dcc_rest_firewall_state_new`; without options the defaults are taken. -/
def firewallStateNew (options : Option FirewallOptions) (attached : Bool) : Option FirewallState :=
  let effective := options.getD FirewallOptions.init
  if hvalid : effective.validate = .ok then some (FirewallState.blank effective attached hvalid)
  else none

/-- The end of the state's window. -/
def FirewallState.windowEnd (state : FirewallState) : Nat :=
  addMs state.windowStartedAtMs state.options.invalidRequestWindowMs

/-- `dcc_rest_firewall_state_normalize_window`. -/
def normalizeWindow (state : FirewallState) (nowMs : Nat) : FirewallState :=
  if !state.windowActive then
    { state with windowStartedAtMs := nowMs, invalidRequestCount := 0, windowActive := true }
  else if state.windowEnd ≤ nowMs then
    { state with windowStartedAtMs := nowMs, invalidRequestCount := 0 }
  else state

/-- `dcc_firewall_soft_exceeded`. -/
def FirewallState.softExceeded (state : FirewallState) : Bool :=
  state.options.invalidRequestSoftLimit != 0 &&
    decide (state.options.invalidRequestSoftLimit ≤ state.invalidRequestCount)

/-- `dcc_firewall_hard_exceeded`. -/
def FirewallState.hardExceeded (state : FirewallState) : Bool :=
  decide (state.options.invalidRequestHardLimit ≤ state.invalidRequestCount)

/-- `dcc_rest_firewall_status_is_invalid`. -/
def statusIsInvalid (status : Nat) : Bool := status == 401 || status == 403 || status == 429

/-- `/interactions/` -/
def interactionsPrefix : Bytes :=
  [0x2f, 0x69, 0x6e, 0x74, 0x65, 0x72, 0x61, 0x63, 0x74, 0x69, 0x6f, 0x6e, 0x73, 0x2f]

/-- `/webhooks/` -/
def webhooksPrefix : Bytes := [0x2f, 0x77, 0x65, 0x62, 0x68, 0x6f, 0x6f, 0x6b, 0x73, 0x2f]

/-- `dcc_rest_firewall_request_is_critical`; the method is not looked at. -/
def requestIsCritical (path : Option Bytes) : Bool :=
  path.any fun p => interactionsPrefix.isPrefixOf p || webhooksPrefix.isPrefixOf p

/-- `dcc_rest_firewall_request_t`. -/
structure FirewallRequest where
  size : Nat
  path : Option Bytes
  nowMs : Nat
  critical : Bool
  deriving DecidableEq, Repr

/-- The size of a request up to and with `critical`. -/
def firewallRequestBaseSize : Nat := 33

/-- `dcc_rest_firewall_result_t`. -/
structure FirewallResult where
  decision : Decision
  reason : Reason
  delayMs : Nat
  critical : Bool
  deriving DecidableEq, Repr

/-- The part of `dcc_rest_firewall_state_check` after the window is rolled. -/
def decideRequest (state : FirewallState) (critical : Bool) : FirewallState × FirewallResult :=
  let delayed := { state with
    totalDelayedRequests := increment state.totalDelayedRequests }
  let rejected := { state with
    totalRejectedRequests := increment state.totalRejectedRequests }
  let soft :=
    if state.softExceeded && state.options.softLimitDelayMs != 0 then
      (delayed, ⟨.delay, .softInvalidRequestLimit, state.options.softLimitDelayMs, critical⟩)
    else (state, ⟨.allow, .none, 0, critical⟩)
  if state.hardExceeded then
    if state.options.onHardLimit = .delay then
      (delayed, ⟨.delay, .hardInvalidRequestLimit, state.options.softLimitDelayMs, critical⟩)
    else if state.options.onHardLimit = .rejectAll ∨ critical = false then
      (rejected, ⟨.reject, .hardInvalidRequestLimit, 0, critical⟩)
    else soft
  else soft

/-- The request counted in the totals. -/
def FirewallState.countRequest (state : FirewallState) : FirewallState :=
  { state with totalRequests := increment state.totalRequests }

/-- `dcc_rest_firewall_state_check`: no result where the request is refused as
malformed. -/
def stateCheck (state : FirewallState) (request : FirewallRequest) :
    Status × FirewallState × Option FirewallResult :=
  if request.size < firewallRequestBaseSize then (.invalidArg, state, none)
  else
    let decided := decideRequest (normalizeWindow state request.nowMs).countRequest
      (request.critical || requestIsCritical request.path)
    (.ok, decided.1, some decided.2)

/-- `dcc_rest_firewall_state_record_response`. -/
def recordResponse (state : FirewallState) (status nowMs : Nat) : FirewallState :=
  let rolled := normalizeWindow state nowMs
  if !statusIsInvalid status then rolled
  else
    { rolled with
      invalidRequestCount := increment rolled.invalidRequestCount
      totalInvalidRequests := increment rolled.totalInvalidRequests }

/-- `dcc_rest_firewall_snapshot_t`, without the status of the asynchronous
queue. -/
structure FirewallSnapshot where
  options : FirewallOptions
  windowStartedAtMs : Nat
  windowEndsAtMs : Nat
  invalidRequestCount : Nat
  totalRequests : Nat
  totalInvalidRequests : Nat
  totalDelayedRequests : Nat
  totalRejectedRequests : Nat
  softLimitExceeded : Bool
  hardLimitExceeded : Bool
  attached : Bool

/-- `dcc_rest_firewall_snapshot_from_state`. -/
def snapshotFromState (state : FirewallState) (nowMs : Nat) : FirewallSnapshot :=
  let started := if state.windowActive then state.windowStartedAtMs else nowMs
  { options := state.options
    windowStartedAtMs := started
    windowEndsAtMs := addMs started state.options.invalidRequestWindowMs
    invalidRequestCount := state.invalidRequestCount
    totalRequests := state.totalRequests
    totalInvalidRequests := state.totalInvalidRequests
    totalDelayedRequests := state.totalDelayedRequests
    totalRejectedRequests := state.totalRejectedRequests
    softLimitExceeded := state.softExceeded
    hardLimitExceeded := state.hardExceeded
    attached := state.attached }

/-- `dcc_rest_firewall_state_snapshot`: the window is rolled first. -/
def stateSnapshot (state : FirewallState) (nowMs : Nat) : FirewallState × FirewallSnapshot :=
  let rolled := normalizeWindow state nowMs
  (rolled, snapshotFromState rolled nowMs)

/-! ## Calls and windows -/

/-- One call on a firewall. -/
inductive FirewallOp
  | check (request : FirewallRequest)
  | record (status nowMs : Nat)
  | snapshot (nowMs : Nat)
  deriving DecidableEq, Repr

namespace FirewallOp

/-- The clock reading of a call. -/
def nowMs : FirewallOp → Nat
  | .check request => request.nowMs
  | .record _ nowMs => nowMs
  | .snapshot nowMs => nowMs

/-- A call that is refused as malformed does not reach the state. -/
def accepted : FirewallOp → Bool
  | .check request => decide (firewallRequestBaseSize ≤ request.size)
  | .record _ _ => true
  | .snapshot _ => true

/-- Whether a call records an invalid response. -/
def recordsInvalid : FirewallOp → Bool
  | .record status _ => statusIsInvalid status
  | _ => false

/-- The state after one call. -/
def apply (state : FirewallState) : FirewallOp → FirewallState
  | .check request => (stateCheck state request).2.1
  | .record status nowMs => recordResponse state status nowMs
  | .snapshot nowMs => (stateSnapshot state nowMs).1

end FirewallOp

/-- The state after a sequence of calls. -/
def runFirewall (state : FirewallState) (ops : List FirewallOp) : FirewallState :=
  ops.foldl FirewallOp.apply state

/-- A window of calls: the time it starts at and the calls made in it. -/
structure CallWindow where
  startMs : Nat
  calls : List FirewallOp

/-- How the next accepted call falls: into the window, or into a new one that
it opens. -/
def CallWindow.extend (windowMs : Nat) (window : Option CallWindow) (op : FirewallOp) :
    Option CallWindow :=
  match window with
  | none => some ⟨op.nowMs, [op]⟩
  | some w =>
    if addMs w.startMs windowMs ≤ op.nowMs then some ⟨op.nowMs, [op]⟩
    else some ⟨w.startMs, w.calls ++ [op]⟩

/-- The window that is current after a sequence of calls. -/
def currentWindow (windowMs : Nat) (ops : List FirewallOp) : Option CallWindow :=
  (ops.filter FirewallOp.accepted).foldl (CallWindow.extend windowMs) none

/-- The invalid responses recorded in a window. -/
def invalidRecorded (window : Option CallWindow) : Nat :=
  match window with
  | none => 0
  | some w => w.calls.countP FirewallOp.recordsInvalid

/-- A state shows a window: it is active where there is one, with its start and
its number of invalid responses. -/
def Shows (state : FirewallState) (window : Option CallWindow) : Prop :=
  state.windowActive = window.isSome ∧
    (∀ w, window = some w → state.windowStartedAtMs = w.startMs) ∧
    state.invalidRequestCount = min wordMax (invalidRecorded window)

/-! ## One call -/

@[simp] theorem normalizeWindow_options (state : FirewallState) (nowMs : Nat) :
    (normalizeWindow state nowMs).options = state.options := by
  unfold normalizeWindow
  split_ifs <;> rfl

variable {state : FirewallState}

theorem normalizeWindow_opens {nowMs : Nat}
    (h : state.windowActive = false ∨ state.windowEnd ≤ nowMs) :
    (normalizeWindow state nowMs).windowActive = true ∧
      (normalizeWindow state nowMs).windowStartedAtMs = nowMs ∧
      (normalizeWindow state nowMs).invalidRequestCount = 0 := by
  unfold normalizeWindow
  cases hactive : state.windowActive with
  | false => exact ⟨rfl, rfl, rfl⟩
  | true =>
    have hpast : state.windowEnd ≤ nowMs := h.resolve_left (by simp [hactive])
    simp [hpast]

theorem normalizeWindow_of_lt {nowMs : Nat}
    (hactive : state.windowActive = true) (h : nowMs < state.windowEnd) :
    normalizeWindow state nowMs = state := by
  simp [normalizeWindow, hactive, Nat.not_le.mpr h]

theorem decideRequest_window (state : FirewallState) (critical : Bool) :
    (decideRequest state critical).1.options = state.options ∧
      (decideRequest state critical).1.windowActive = state.windowActive ∧
      (decideRequest state critical).1.windowStartedAtMs = state.windowStartedAtMs ∧
      (decideRequest state critical).1.invalidRequestCount = state.invalidRequestCount := by
  unfold decideRequest
  split_ifs <;> exact ⟨rfl, rfl, rfl, rfl⟩

/-- What a call does to the window: it rolls it, and a recorded invalid
response adds one. -/
structure WindowEffect (state : FirewallState) (op : FirewallOp) (after : FirewallState) :
    Prop where
  options : after.options = state.options
  active : after.windowActive = (normalizeWindow state op.nowMs).windowActive
  started : after.windowStartedAtMs = (normalizeWindow state op.nowMs).windowStartedAtMs
  count : after.invalidRequestCount = if op.recordsInvalid then
      increment (normalizeWindow state op.nowMs).invalidRequestCount
    else (normalizeWindow state op.nowMs).invalidRequestCount

variable {op : FirewallOp}

theorem apply_windowEffect (state : FirewallState) (hop : op.accepted = true) :
    WindowEffect state op (op.apply state) := by
  cases op with
  | check request =>
    have hsize : ¬ request.size < firewallRequestBaseSize := by
      simpa [FirewallOp.accepted] using hop
    simp only [FirewallOp.apply, stateCheck, if_neg hsize]
    obtain ⟨h1, h2, h3, h4⟩ := decideRequest_window
      (normalizeWindow state request.nowMs).countRequest
      (request.critical || requestIsCritical request.path)
    exact ⟨h1.trans (normalizeWindow_options state request.nowMs), h2, h3, h4⟩
  | record status nowMs =>
    simp only [FirewallOp.apply, recordResponse]
    by_cases hinvalid : statusIsInvalid status = true
    · simp only [hinvalid, Bool.not_true, Bool.false_eq_true, if_false]
      exact ⟨normalizeWindow_options state nowMs, rfl, rfl,
        by simp [FirewallOp.recordsInvalid, FirewallOp.nowMs, hinvalid]⟩
    · simp only [hinvalid, Bool.not_false, if_true]
      exact ⟨normalizeWindow_options state nowMs, rfl, rfl,
        by simp [FirewallOp.recordsInvalid, FirewallOp.nowMs, hinvalid]⟩
  | snapshot nowMs =>
    exact ⟨normalizeWindow_options state nowMs, rfl, rfl, rfl⟩

theorem apply_of_not_accepted (state : FirewallState)
    (hop : op.accepted = false) : op.apply state = state := by
  cases op with
  | check request =>
    have hsize : request.size < firewallRequestBaseSize := by
      simpa [FirewallOp.accepted] using hop
    simp [FirewallOp.apply, stateCheck, hsize]
  | _ => cases hop

theorem apply_options (state : FirewallState) (op : FirewallOp) :
    (op.apply state).options = state.options := by
  by_cases hop : op.accepted = true
  · exact (apply_windowEffect state hop).options
  · rw [apply_of_not_accepted state (Bool.not_eq_true _ ▸ hop)]

/-! ## Runs -/

theorem runFirewall_options (state : FirewallState) (ops : List FirewallOp) :
    (runFirewall state ops).options = state.options := by
  induction ops generalizing state with
  | nil => rfl
  | cons op ops ih =>
    calc (runFirewall state (op :: ops)).options
        = (op.apply state).options := ih (op.apply state)
      _ = state.options := apply_options state op

theorem increment_min (n : Nat) :
    increment (min wordMax n) = min wordMax (n + 1) := by
  unfold increment
  split_ifs <;> omega

theorem min_wordMax_of_bool (b : Bool) :
    (if b then increment 0 else 0) = min wordMax (if b then 1 else 0) := by
  have hpos : 1 ≤ wordMax := by decide
  have hzero : (0 : Nat) ≠ wordMax := by decide
  cases b with
  | true => simp [increment, hzero, Nat.min_eq_right hpos]
  | false => simp

variable {window : Option CallWindow}

theorem Shows.apply (h : Shows state window) (hop : op.accepted = true) :
    Shows (op.apply state)
      (CallWindow.extend state.options.invalidRequestWindowMs window op) := by
  obtain ⟨hactive, hstart, hcount⟩ := h
  obtain ⟨_, heActive, heStarted, heCount⟩ := apply_windowEffect state hop
  -- a window that the call opens holds the call alone
  have hfresh : state.windowActive = false ∨ state.windowEnd ≤ op.nowMs →
      Shows (op.apply state) (some ⟨op.nowMs, [op]⟩) := by
    intro hroll
    obtain ⟨hrActive, hrStarted, hrCount⟩ := normalizeWindow_opens hroll
    refine ⟨?_, fun w hw => ?_, ?_⟩
    · rw [heActive, hrActive]
      rfl
    · cases hw
      rw [heStarted, hrStarted]
    · rw [heCount, hrCount, min_wordMax_of_bool]
      simp [invalidRecorded, List.countP_cons]
  cases window with
  | none => exact hfresh (Or.inl (by simpa using hactive))
  | some w =>
    have hon : state.windowActive = true := by simpa using hactive
    have hstarted : state.windowStartedAtMs = w.startMs := hstart w rfl
    have hend : state.windowEnd = addMs w.startMs state.options.invalidRequestWindowMs := by
      rw [FirewallState.windowEnd, hstarted]
    simp only [CallWindow.extend, ← hend]
    split
    · next hpast => exact hfresh (Or.inr hpast)
    · next hpast =>
      have hsame := normalizeWindow_of_lt hon (Nat.not_le.mp hpast)
      refine ⟨?_, fun w' hw => ?_, ?_⟩
      · rw [heActive, hsame, hon]
        rfl
      · cases hw
        rw [heStarted, hsame, hstarted]
      · rw [heCount, hsame, hcount]
        simp only [invalidRecorded, List.countP_append, List.countP_singleton]
        split
        · exact increment_min _
        · rfl

theorem Shows.run (h : Shows state window) (ops : List FirewallOp) :
    Shows (runFirewall state ops)
      ((ops.filter FirewallOp.accepted).foldl
        (CallWindow.extend state.options.invalidRequestWindowMs) window) := by
  induction ops generalizing state window with
  | nil => exact h
  | cons op ops ih =>
    by_cases hop : op.accepted = true
    · have hnext := ih (h.apply hop)
      rw [apply_options] at hnext
      rw [List.filter_cons_of_pos hop]
      exact hnext
    · have hskip : op.apply state = state :=
        apply_of_not_accepted state (Bool.not_eq_true _ ▸ hop)
      rw [List.filter_cons_of_neg hop]
      simpa only [runFirewall, List.foldl_cons, hskip] using ih h

/-- **The state refines the windows of the calls.** -/
theorem window_refines {options : FirewallOptions} (hvalid : options.validate = .ok)
    (attached : Bool) (ops : List FirewallOp) :
    Shows (runFirewall (FirewallState.blank options attached hvalid) ops)
      (currentWindow options.invalidRequestWindowMs ops) := by
  refine Shows.run ⟨rfl, fun w hw => ?_, ?_⟩ ops
  · cases hw
  · simp [FirewallState.blank, invalidRecorded]

/-! ## The hard limit -/

theorem decideRequest_reject
    (hpolicy : state.options.onHardLimit = .rejectAll) (hhard : state.hardExceeded = true)
    (critical : Bool) : (decideRequest state critical).2.decision = .reject := by
  simp [decideRequest, hhard, hpolicy]

/-- A full window: active, and with a count at the hard limit or above. -/
def Full (state : FirewallState) : Prop :=
  state.windowActive = true ∧ state.hardExceeded = true

theorem Full.apply (h : Full state) (hbefore : op.nowMs < state.windowEnd) :
    Full (op.apply state) ∧ (op.apply state).windowEnd = state.windowEnd := by
  by_cases hop : op.accepted = true
  · obtain ⟨heOptions, heActive, heStarted, heCount⟩ := apply_windowEffect state hop
    rw [normalizeWindow_of_lt h.1 hbefore] at heActive heStarted heCount
    have hle : state.invalidRequestCount ≤ (op.apply state).invalidRequestCount := by
      rw [heCount]
      unfold increment
      split_ifs <;> omega
    have hhard : state.options.invalidRequestHardLimit ≤ state.invalidRequestCount := by
      simpa [FirewallState.hardExceeded] using h.2
    refine ⟨⟨heActive.trans h.1, ?_⟩, ?_⟩
    · simp only [FirewallState.hardExceeded, heOptions, decide_eq_true_eq]
      exact Nat.le_trans hhard hle
    · simp only [FirewallState.windowEnd, heOptions, heStarted]
  · rw [apply_of_not_accepted state (Bool.not_eq_true _ ▸ hop)]
    exact ⟨h, rfl⟩

theorem Full.run (h : Full state) {ops : List FirewallOp}
    (hbefore : ∀ op ∈ ops, op.nowMs < state.windowEnd) :
    Full (runFirewall state ops) ∧ (runFirewall state ops).windowEnd = state.windowEnd := by
  induction ops generalizing state with
  | nil => exact ⟨h, rfl⟩
  | cons op ops ih =>
    rw [List.forall_mem_cons] at hbefore
    obtain ⟨hnext, hend⟩ := h.apply hbefore.1
    obtain ⟨hfull, hend'⟩ := ih hnext (by rw [hend]; exact hbefore.2)
    exact ⟨hfull, hend'.trans hend⟩

theorem stateCheck_of_full (h : Full state)
    (hpolicy : state.options.onHardLimit = .rejectAll) {request : FirewallRequest}
    (hbefore : request.nowMs < state.windowEnd) {result : FirewallResult}
    (hresult : (stateCheck state request).2.2 = some result) : result.decision = .reject := by
  unfold stateCheck at hresult
  split_ifs at hresult
  rw [normalizeWindow_of_lt h.1 hbefore] at hresult
  cases hresult
  have hpolicy' : state.countRequest.options.onHardLimit = .rejectAll := hpolicy
  exact decideRequest_reject hpolicy' h.2 _

/-- **The window law of the firewall.**  After any calls with any times, the
counter is the number of invalid responses recorded in the current window, up
to the largest word; and under the policy that rejects every request, once the
counter has reached the hard limit, no check allows or delays a request before
a call with a time at or past the end of the window. -/
theorem firewall_window_law {options : FirewallOptions} (hvalid : options.validate = .ok)
    (attached : Bool) (ops : List FirewallOp) :
    (runFirewall (FirewallState.blank options attached hvalid) ops).invalidRequestCount =
        min wordMax (invalidRecorded (currentWindow options.invalidRequestWindowMs ops)) ∧
      (options.onHardLimit = .rejectAll →
        (runFirewall (FirewallState.blank options attached hvalid) ops).hardExceeded = true →
        ∀ (more : List FirewallOp) (request : FirewallRequest) (result : FirewallResult),
          (∀ op ∈ more, op.nowMs <
            (runFirewall (FirewallState.blank options attached hvalid) ops).windowEnd) →
          request.nowMs <
            (runFirewall (FirewallState.blank options attached hvalid) ops).windowEnd →
          (stateCheck (runFirewall (FirewallState.blank options attached hvalid) (ops ++ more))
            request).2.2 = some result →
          result.decision = .reject) := by
  obtain ⟨hactive, _, hcount⟩ := window_refines hvalid attached ops
  have hoptions := runFirewall_options (FirewallState.blank options attached hvalid) ops
  refine ⟨hcount, fun hpolicy hhard more request result hmore hrequest hresult => ?_⟩
  -- a window that is not active has counted nothing, and the hard limit is not zero
  have hfull : Full (runFirewall (FirewallState.blank options attached hvalid) ops) := by
    refine ⟨?_, hhard⟩
    cases hwindow : currentWindow options.invalidRequestWindowMs ops with
    | some w => rw [hactive, hwindow]; rfl
    | none =>
      have hzero : options.invalidRequestHardLimit ≤ 0 := by
        rw [FirewallState.hardExceeded, decide_eq_true_eq, hoptions, hcount, hwindow] at hhard
        exact Nat.le_trans hhard (Nat.min_le_right _ _)
      have hpos : options.invalidRequestHardLimit ≠ 0 := by
        intro h0
        simp [FirewallOptions.validate, h0] at hvalid
      exact absurd (Nat.le_zero.mp hzero) hpos
  obtain ⟨hstill, hend⟩ := hfull.run hmore
  rw [runFirewall, List.foldl_append] at hresult
  refine stateCheck_of_full hstill ?_ (by rw [hend]; exact hrequest) hresult
  rw [runFirewall_options, hoptions]
  exact hpolicy

/-- The law with a hard limit of two: after two 429 responses at 5 and 7 a check
at 900 is rejected. -/
theorem firewall_window_law_two_invalid :
    let options : FirewallOptions := ⟨32, 0, 2, 1000, 0, .rejectAll⟩
    let state := runFirewall (FirewallState.blank options true (by decide))
      [.record 429 5, .record 429 7]
    state.invalidRequestCount = 2 ∧
      ∃ result, (stateCheck (runFirewall state [.snapshot 100]) ⟨33, none, 900, true⟩).2.2 =
        some result ∧ result.decision = .reject := by
  intro options state
  obtain ⟨hcount, hreject⟩ := firewall_window_law (show options.validate = .ok by decide)
    true [.record 429 5, .record 429 7]
  refine ⟨hcount.trans (by decide), _, rfl, ?_⟩
  exact hreject rfl (by decide) [.snapshot 100] ⟨33, none, 900, true⟩ _ (by decide) (by decide) rfl

end Dcc.Rest
