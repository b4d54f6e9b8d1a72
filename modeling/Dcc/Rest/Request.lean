import Dcc.Rest.RateLimit
import Dcc.Rest.Firewall

/-!
# One synchronous request

`dcc_rest_request_raw_impl` asks the firewall, prepares the request, and then
makes attempts: each waits for the route, goes out, and has its answer recorded
in the rate-limit table and in the firewall; a 429 is tried again while retries
are left.  The firewall is asked once, before the loop, so a retry goes out
without a check.

The surroundings of a request (clock readings, the time an attempt goes out,
the answers) are its inputs.  A request leaves the trace of the attempts it has
made, each with the firewall it went out under.

* `firstAttempt_gated`: the check covers the first attempt;
* `attempts_gated_iff`: over any sequence of requests, every attempt goes out
  under the hard limit exactly when no 429 that brings the window to the hard
  limit is tried again before the end of that window.
-/

namespace Dcc.Rest

/-- The parts of `dcc_client_t` a synchronous request works on. -/
structure RestClient where
  limits : RateLimits
  firewall : Option FirewallState
  restIntercept : Bool
  lastError : Option String

/-- An HTTP response with the clock readings of the two calls that record it. -/
structure Answer where
  response : Response
  updateMs : Nat
  recordMs : Nat

/-- What an attempt meets: the clock readings while it waits for its route, the
time it goes out, and what comes back. -/
structure AttemptInput where
  waitReadings : List Nat
  issuedAtMs : Nat
  outcome : Except Status Answer

/-- The arguments of `dcc_rest_request_raw_impl` and what the request meets. -/
structure RequestInput where
  path : Bytes
  route : RouteKey
  maxRateLimitRetries : Nat
  waitForRoute : Bool
  checkMs : Nat
  prepareStatus : Status
  attempts : List AttemptInput

/-- An attempt that has gone out. -/
structure Attempt where
  firewall : Option FirewallState
  issuedAtMs : Nat

/-- `sizeof(dcc_rest_firewall_request_t)`. -/
def firewallRequestSize : Nat := 40

/-- `dcc_rest_firewall_before_request`; a delay only lets time pass. -/
def firewallBeforeRequest (client : RestClient) (path : Bytes) (nowMs : Nat) :
    RestClient × Status :=
  match client.firewall with
  | none => (client, .ok)
  | some state =>
    match stateCheck state ⟨firewallRequestSize, some path, nowMs, false⟩ with
    | (.ok, checked, some result) =>
      if result.decision = .reject then
        ({ client with
            firewall := some checked
            lastError := some "REST firewall rejected noncritical request" }, .state)
      else ({ client with firewall := some checked }, .ok)
    | (status, checked, _) => ({ client with firewall := some checked }, status)

/-- `dcc_rest_wait_for_route` over the clock readings it makes; it has not come
back while the readings so far all leave a wait. -/
def waitForRoute (limits : RateLimits) (route : RouteKey) : List Nat → Option RateLimits
  | [] => none
  | now :: readings =>
    let (waited, waitMs) := routeWaitMsLocked limits route now true
    if waitMs = 0 then some waited else waitForRoute waited route readings

/-- The table an attempt goes out with, where it goes out. -/
def readyToIssue (client : RestClient) (request : RequestInput) (input : AttemptInput) :
    Option RestClient :=
  if request.waitForRoute then
    (waitForRoute client.limits request.route input.waitReadings).map fun limits =>
      { client with limits := limits }
  else some client

/-- `dcc_rest_request_update_response_limits` and
`dcc_rest_firewall_after_response`. -/
def recordAnswer (client : RestClient) (route : RouteKey) (answer : Answer) : RestClient :=
  { client with
    limits := updateRateLimit client.limits route answer.response answer.updateMs
    firewall := client.firewall.map fun state =>
      recordResponse state answer.response.status answer.recordMs }

/-- The attempt loop with `retries` retries left: the client, the attempts made
and the status, where the loop has come to its end. -/
def attemptLoop (request : RequestInput) :
    Nat → RestClient → List AttemptInput → RestClient × List Attempt × Option Status
  | _, client, [] => (client, [], none)
  | retries, client, input :: inputs =>
    match readyToIssue client request input with
    | none => (client, [], none)
    | some ready =>
      let attempt : Attempt := ⟨ready.firewall, input.issuedAtMs⟩
      match input.outcome with
      | .error status =>
        ({ ready with lastError := some (statusString status) }, [attempt], some status)
      | .ok answer =>
        let recorded := recordAnswer ready request.route answer
        if answer.response.status = 429 then
          match retries with
          | 0 =>
            ({ recorded with lastError := some (statusString .rateLimited) }, [attempt], some .ok)
          | retries + 1 =>
            let (after, more, status) := attemptLoop request retries recorded inputs
            (after, attempt :: more, status)
        else (recorded, [attempt], some .ok)

/-- `dcc_rest_request_raw_impl`: the client, the attempts made and the status.
A client with an interceptor makes no attempts. -/
def requestRawImpl (client : RestClient) (request : RequestInput) :
    RestClient × List Attempt × Option Status :=
  if client.restIntercept then (client, [], some .ok)
  else
    match firewallBeforeRequest client request.path request.checkMs with
    | (checked, .ok) =>
      if request.prepareStatus ≠ .ok then (checked, [], some request.prepareStatus)
      else attemptLoop request request.maxRateLimitRetries checked request.attempts
    | (checked, status) => (checked, [], some status)

/-- Requests one after the other, with the attempts of all of them. -/
def runRequests (client : RestClient) : List RequestInput → RestClient × List Attempt
  | [] => (client, [])
  | request :: requests =>
    let (after, attempts, _) := requestRawImpl client request
    let (last, more) := runRequests after requests
    (last, attempts ++ more)

/-! ## Attempts under the hard limit -/

/-- The count of the window that is current when the attempt goes out is below
the hard limit. -/
def Attempt.Gated (attempt : Attempt) : Prop :=
  ∀ state, attempt.firewall = some state →
    (normalizeWindow state attempt.issuedAtMs).invalidRequestCount <
      state.options.invalidRequestHardLimit

/-- A 429 that brings its window to the hard limit is not tried again before
the end of that window. -/
def RetriesHeld (request : RequestInput) : Nat → RestClient → List AttemptInput → Prop
  | _, _, [] => True
  | 0, _, _ => True
  | retries + 1, client, input :: inputs =>
    ∀ ready answer, readyToIssue client request input = some ready → input.outcome = .ok answer →
      answer.response.status = 429 →
      let recorded := recordAnswer ready request.route answer
      (∀ state next, recorded.firewall = some state → inputs.head? = some next →
        (readyToIssue recorded request next).isSome →
        state.hardExceeded = true → state.windowEnd ≤ next.issuedAtMs) ∧
      RetriesHeld request retries recorded inputs

instance (attempt : Attempt) : Decidable attempt.Gated :=
  match h : attempt.firewall with
  | none => isTrue fun state hstate => by rw [h] at hstate; cases hstate
  | some state =>
    decidable_of_iff ((normalizeWindow state attempt.issuedAtMs).invalidRequestCount <
      state.options.invalidRequestHardLimit)
      ⟨fun hlt _ hstate => by rw [h] at hstate; cases hstate; exact hlt, fun hall => hall state h⟩

/-- `RetriesHeld` for every request of a sequence that gets as far as the
attempt loop. -/
def RunHeld (client : RestClient) : List RequestInput → Prop
  | [] => True
  | request :: requests =>
    (∀ checked, client.restIntercept = false →
      firewallBeforeRequest client request.path request.checkMs = (checked, .ok) →
      request.prepareStatus = .ok →
      RetriesHeld request request.maxRateLimitRetries checked request.attempts) ∧
    RunHeld (requestRawImpl client request).1 requests

theorem hardLimit_pos (state : FirewallState) : 0 < state.options.invalidRequestHardLimit := by
  refine Nat.pos_of_ne_zero fun hzero => ?_
  have hvalid := state.options_valid
  simp [FirewallOptions.validate, hzero] at hvalid

variable {state : FirewallState}

theorem hardExceeded_eq_false_iff :
    state.hardExceeded = false ↔
      state.invalidRequestCount < state.options.invalidRequestHardLimit := by
  simp [FirewallState.hardExceeded]

theorem gated_iff_lt {t : Nat} :
    Attempt.Gated ⟨some state, t⟩ ↔
      (normalizeWindow state t).invalidRequestCount < state.options.invalidRequestHardLimit := by
  simp [Attempt.Gated]

theorem gated_of_not_hardExceeded (h : state.hardExceeded = false)
    (t : Nat) : Attempt.Gated ⟨some state, t⟩ := by
  rw [gated_iff_lt]
  by_cases hroll : state.windowActive = false ∨ state.windowEnd ≤ t
  · rw [(normalizeWindow_opens hroll).2.2]
    exact hardLimit_pos state
  · rw [not_or] at hroll
    rw [normalizeWindow_of_lt (by simpa using hroll.1) (Nat.not_le.mp hroll.2)]
    exact hardExceeded_eq_false_iff.mp h

theorem gated_iff (hactive : state.windowActive = true) (t : Nat) :
    Attempt.Gated ⟨some state, t⟩ ↔ (state.hardExceeded = true → state.windowEnd ≤ t) := by
  cases hhard : state.hardExceeded with
  | false => simp [gated_of_not_hardExceeded hhard]
  | true =>
    rw [gated_iff_lt]
    by_cases hpast : state.windowEnd ≤ t
    · rw [(normalizeWindow_opens (Or.inr hpast)).2.2]
      simp [hpast, hardLimit_pos state]
    · rw [normalizeWindow_of_lt hactive (Nat.not_le.mp hpast), ← hardExceeded_eq_false_iff, hhard]
      simp [hpast]

theorem recordResponse_windowActive (state : FirewallState) (status nowMs : Nat) :
    (recordResponse state status nowMs).windowActive = true := by
  have hactive : (normalizeWindow state nowMs).windowActive = true := by
    by_cases hroll : state.windowActive = false ∨ state.windowEnd ≤ nowMs
    · exact (normalizeWindow_opens hroll).1
    · rw [not_or] at hroll
      rw [normalizeWindow_of_lt (by simpa using hroll.1) (Nat.not_le.mp hroll.2)]
      simpa using hroll.1
  unfold recordResponse
  simp only
  split
  · exact hactive
  · exact hactive

/-! ## The check before the loop -/

theorem decideRequest_not_hardExceeded {critical : Bool}
    (hpolicy : state.options.onHardLimit = .rejectAll)
    (h : (decideRequest state critical).2.decision ≠ .reject) : state.hardExceeded = false := by
  cases hhard : state.hardExceeded with
  | false => rfl
  | true => exact absurd (decideRequest_reject hpolicy hhard critical) h

theorem firewallBeforeRequest_ok {client checked : RestClient}
    {path : Bytes} {nowMs : Nat} (hfirewall : client.firewall = some state)
    (hpolicy : state.options.onHardLimit = .rejectAll)
    (h : firewallBeforeRequest client path nowMs = (checked, .ok)) :
    ∃ state', checked.firewall = some state' ∧ state'.options = state.options ∧
      state'.hardExceeded = false := by
  have hsize : ¬ firewallRequestSize < firewallRequestBaseSize := by decide
  simp only [firewallBeforeRequest, hfirewall, stateCheck, hsize, if_false] at h
  split at h
  · cases h
  · next hreject =>
    cases h
    obtain ⟨hoptions, _, _, hcount⟩ := decideRequest_window
      (normalizeWindow state nowMs).countRequest (false || requestIsCritical (some path))
    have hoptions' := hoptions.trans (normalizeWindow_options state nowMs)
    refine ⟨_, rfl, hoptions', ?_⟩
    have hbelow := decideRequest_not_hardExceeded
      (show (normalizeWindow state nowMs).countRequest.options.onHardLimit = .rejectAll by
        rw [← hpolicy]
        exact congrArg FirewallOptions.onHardLimit (normalizeWindow_options state nowMs))
      hreject
    rw [hardExceeded_eq_false_iff] at hbelow ⊢
    rw [hcount, hoptions]
    exact hbelow

variable {client : RestClient}

theorem firewallBeforeRequest_firewall
    (hfirewall : client.firewall = some state) (path : Bytes) (nowMs : Nat) :
    ∃ state', (firewallBeforeRequest client path nowMs).1.firewall = some state' ∧
      state'.options = state.options := by
  have hsize : ¬ firewallRequestSize < firewallRequestBaseSize := by decide
  have hoptions := (decideRequest_window (normalizeWindow state nowMs).countRequest
    (false || requestIsCritical (some path))).1.trans (normalizeWindow_options state nowMs)
  simp only [firewallBeforeRequest, hfirewall, stateCheck, hsize, if_false]
  split
  · exact ⟨_, rfl, hoptions⟩
  · exact ⟨_, rfl, hoptions⟩

/-! ## The loop -/

variable {request : RequestInput}

theorem readyToIssue_firewall {client ready : RestClient}
    {input : AttemptInput} (h : readyToIssue client request input = some ready) :
    ready.firewall = client.firewall := by
  unfold readyToIssue at h
  split at h
  · obtain ⟨limits, _, rfl⟩ := Option.map_eq_some_iff.mp h
    rfl
  · cases h
    rfl

/-- The next attempt of a client, if it goes out, is gated. -/
def FirstGated (request : RequestInput) (client : RestClient) (inputs : List AttemptInput) : Prop :=
  ∀ next, inputs.head? = some next → (readyToIssue client request next).isSome →
    Attempt.Gated ⟨client.firewall, next.issuedAtMs⟩

theorem firstGated_of_forall {retries : Nat} {inputs : List AttemptInput}
    (h : ∀ a ∈ (attemptLoop request retries client inputs).2.1, a.Gated) :
    FirstGated request client inputs := by
  intro next hnext hready
  cases inputs with
  | nil => cases hnext
  | cons input inputs =>
    cases hnext
    obtain ⟨ready, hready⟩ := Option.isSome_iff_exists.mp hready
    rw [← readyToIssue_firewall hready]
    refine h _ ?_
    simp only [attemptLoop, hready]
    split
    · exact List.mem_singleton_self _
    · split
      · split
        · exact List.mem_singleton_self _
        · exact List.mem_cons_self
      · exact List.mem_singleton_self _

theorem firstGated_recordAnswer (request : RequestInput) {ready : RestClient}
    (hfirewall : ready.firewall = some state) (answer : Answer)
    (inputs : List AttemptInput) :
    FirstGated request (recordAnswer ready request.route answer) inputs ↔
      ∀ state next, (recordAnswer ready request.route answer).firewall = some state →
        inputs.head? = some next →
        (readyToIssue (recordAnswer ready request.route answer) request next).isSome →
        state.hardExceeded = true → state.windowEnd ≤ next.issuedAtMs := by
  have hrecorded : (recordAnswer ready request.route answer).firewall =
      some (recordResponse state answer.response.status answer.recordMs) := by
    simp [recordAnswer, hfirewall]
  have hactive := recordResponse_windowActive state answer.response.status answer.recordMs
  constructor
  · intro h state' next hstate hnext hready
    rw [hrecorded] at hstate
    cases hstate
    have hgated := h next hnext hready
    rw [hrecorded] at hgated
    exact (gated_iff hactive next.issuedAtMs).mp hgated
  · intro h next hnext hready
    rw [hrecorded]
    exact (gated_iff hactive next.issuedAtMs).mpr (h _ next hrecorded hnext hready)

theorem attemptLoop_gated_iff :
    ∀ {inputs : List AttemptInput} {retries : Nat} {client : RestClient} {state : FirewallState},
      client.firewall = some state → FirstGated request client inputs →
      ((∀ a ∈ (attemptLoop request retries client inputs).2.1, a.Gated) ↔
        RetriesHeld request retries client inputs) := by
  intro inputs
  induction inputs with
  | nil =>
    intro retries client state hfirewall hfirst
    simp [attemptLoop, RetriesHeld]
  | cons input inputs ih =>
    intro retries client state hfirewall hfirst
    cases hready : readyToIssue client request input with
    | none =>
      cases retries with
      | zero => simp [attemptLoop, RetriesHeld, hready]
      | succ retries => simp [attemptLoop, RetriesHeld, hready]
    | some ready =>
      have hfirewall' : ready.firewall = some state :=
        (readyToIssue_firewall hready).trans hfirewall
      have hgated : Attempt.Gated ⟨ready.firewall, input.issuedAtMs⟩ := by
        rw [readyToIssue_firewall hready]
        exact hfirst input rfl (by rw [hready]; rfl)
      cases houtcome : input.outcome with
      | error status =>
        cases retries with
        | zero => simp [attemptLoop, RetriesHeld, hready, houtcome, hgated]
        | succ retries => simp [attemptLoop, RetriesHeld, hready, houtcome, hgated]
      | ok answer =>
        cases retries with
        | zero =>
          by_cases hlimited : answer.response.status = 429
          · simp [attemptLoop, RetriesHeld, hready, houtcome, hgated, hlimited]
          · simp [attemptLoop, RetriesHeld, hready, houtcome, hgated, hlimited]
        | succ retries =>
          by_cases hlimited : answer.response.status = 429
          · have hrecorded : (recordAnswer ready request.route answer).firewall =
                some (recordResponse state answer.response.status answer.recordMs) := by
              simp [recordAnswer, hfirewall']
            have hiff := firstGated_recordAnswer request hfirewall' answer inputs
            simp only [attemptLoop, RetriesHeld, hready, houtcome, hlimited, if_true,
              List.forall_mem_cons, hgated, true_and, Option.some.injEq, Except.ok.injEq]
            constructor
            · rintro h _ _ rfl rfl _
              have hnext := firstGated_of_forall h
              exact ⟨hiff.mp hnext, (ih hrecorded hnext).mp h⟩
            · intro h
              obtain ⟨hcond, hheld⟩ := h ready answer rfl rfl hlimited
              exact (ih hrecorded (hiff.mpr hcond)).mpr hheld
          · simp [attemptLoop, RetriesHeld, hready, houtcome, hgated, hlimited]

theorem attemptLoop_firewall :
    ∀ {inputs : List AttemptInput} {retries : Nat} {client : RestClient} {state : FirewallState},
      client.firewall = some state →
      ∃ state', (attemptLoop request retries client inputs).1.firewall = some state' ∧
        state'.options = state.options := by
  intro inputs
  induction inputs with
  | nil =>
    intro retries client state hfirewall
    exact ⟨state, by rw [attemptLoop]; exact hfirewall, rfl⟩
  | cons input inputs ih =>
    intro retries client state hfirewall
    simp only [attemptLoop]
    split
    · exact ⟨state, hfirewall, rfl⟩
    · next ready hready =>
      have hfirewall' := (readyToIssue_firewall hready).trans hfirewall
      split
      · exact ⟨state, hfirewall', rfl⟩
      · next answer _ =>
        have hrecorded : (recordAnswer ready request.route answer).firewall =
            some (recordResponse state answer.response.status answer.recordMs) := by
          simp [recordAnswer, hfirewall']
        have hoptions : (recordResponse state answer.response.status
            answer.recordMs).options = state.options :=
          apply_options state (.record answer.response.status answer.recordMs)
        split
        · split
          · exact ⟨_, hrecorded, hoptions⟩
          · obtain ⟨state', hstate', hoptions'⟩ := ih hrecorded
            exact ⟨state', hstate', hoptions'.trans hoptions⟩
        · exact ⟨_, hrecorded, hoptions⟩

/-! ## Sequences of requests -/

theorem requestRawImpl_firewall (request : RequestInput)
    (hfirewall : client.firewall = some state) :
    ∃ state', (requestRawImpl client request).1.firewall = some state' ∧
      state'.options = state.options := by
  obtain ⟨checked, hchecked, hoptions⟩ := firewallBeforeRequest_firewall hfirewall
    request.path request.checkMs
  unfold requestRawImpl
  split
  · exact ⟨state, hfirewall, rfl⟩
  · split
    · next heq =>
      rw [heq] at hchecked
      split
      · exact ⟨checked, hchecked, hoptions⟩
      · obtain ⟨state', hstate', hoptions'⟩ := attemptLoop_firewall hchecked
        exact ⟨state', hstate', hoptions'.trans hoptions⟩
    · next heq =>
      rw [heq] at hchecked
      exact ⟨checked, hchecked, hoptions⟩

/-- **The check covers the first attempt.** -/
theorem firstAttempt_gated {client checked : RestClient} (hfirewall : client.firewall = some state)
    (hpolicy : state.options.onHardLimit = .rejectAll)
    (hcheck : firewallBeforeRequest client request.path request.checkMs = (checked, .ok)) :
    FirstGated request checked request.attempts := by
  obtain ⟨state', hstate', _, hbelow⟩ := firewallBeforeRequest_ok hfirewall hpolicy hcheck
  intro next _ _
  rw [hstate']
  exact gated_of_not_hardExceeded hbelow next.issuedAtMs

theorem requestRawImpl_gated_iff (hfirewall : client.firewall = some state)
    (hpolicy : state.options.onHardLimit = .rejectAll) :
    (∀ a ∈ (requestRawImpl client request).2.1, a.Gated) ↔ ∀ checked, client.restIntercept = false →
        firewallBeforeRequest client request.path request.checkMs = (checked, .ok) →
        request.prepareStatus = .ok →
        RetriesHeld request request.maxRateLimitRetries checked request.attempts := by
  cases hintercept : client.restIntercept with
  | true => simp [requestRawImpl, hintercept]
  | false =>
    rcases hcheck : firewallBeforeRequest client request.path request.checkMs with
      ⟨checked, status⟩
    by_cases hstatus : status = .ok
    · subst hstatus
      obtain ⟨state', hstate', _, _⟩ := firewallBeforeRequest_ok hfirewall hpolicy hcheck
      have hfirst := firstAttempt_gated hfirewall hpolicy hcheck
      by_cases hprepare : request.prepareStatus = .ok
      · simp only [requestRawImpl, hintercept, hcheck, hprepare, Bool.false_eq_true, if_false,
          ne_eq, not_true_eq_false, Prod.mk.injEq, and_true]
        rw [attemptLoop_gated_iff hstate' hfirst]
        constructor
        · rintro h _ _ rfl _
          exact h
        · intro h
          exact h checked trivial rfl trivial
      · simp [requestRawImpl, hintercept, hcheck, hprepare]
    · simp [requestRawImpl, hintercept, hcheck, hstatus]

/-- **Which attempts the firewall gates.**  Over any sequence of requests with
any answers, under a firewall that rejects every request at its hard limit, no
attempt goes out while the count of the current window is at the hard limit
exactly when no 429 that brings its window to the hard limit is tried again
before the end of that window. -/
theorem attempts_gated_iff (client : RestClient) (requests : List RequestInput)
    (state : FirewallState) (hfirewall : client.firewall = some state)
    (hpolicy : state.options.onHardLimit = .rejectAll) :
    (∀ a ∈ (runRequests client requests).2, a.Gated) ↔ RunHeld client requests := by
  induction requests generalizing client state with
  | nil => simp [runRequests, RunHeld]
  | cons request requests ih =>
    obtain ⟨state', hstate', hoptions⟩ := requestRawImpl_firewall request hfirewall
    have hnext := ih (requestRawImpl client request).1 state' hstate' (by rw [hoptions, hpolicy])
    simp only [runRequests, RunHeld, List.forall_mem_append]
    rw [requestRawImpl_gated_iff hfirewall hpolicy, hnext]

/-- A client whose firewall rejects every request after one invalid response in
a window of a second. -/
def limitOneClient : RestClient :=
  { limits := RateLimits.init
    firewall := some (FirewallState.blank ⟨32, 0, 1, 1000, 0, .rejectAll⟩ true (by decide))
    restIntercept := false
    lastError := none }

/-- A request for `/x` that is answered 429 at 2 and, tried again at `retryMs`,
200. -/
def retriedRequest (retryMs : Nat) : RequestInput :=
  { path := [0x2f, 0x78]
    route := ⟨[0x61], by decide, by decide⟩
    maxRateLimitRetries := 3
    waitForRoute := true
    checkMs := 0
    prepareStatus := .ok
    attempts :=
      [⟨[1], 1, .ok ⟨⟨429, none, 5, none, false⟩, 2, 2⟩⟩,
        ⟨[3, retryMs], retryMs, .ok ⟨⟨200, none, 0, none, false⟩, retryMs, retryMs⟩⟩] }

/-- The theorem on a retry that goes out after the end of the window. -/
theorem attempts_gated_late_retry :
    (∀ a ∈ (runRequests limitOneClient [retriedRequest 1200]).2, a.Gated) ∧
      RunHeld limitOneClient [retriedRequest 1200] := by
  have hgated : ∀ a ∈ (runRequests limitOneClient [retriedRequest 1200]).2, a.Gated := by
    decide +kernel
  exact ⟨hgated, (attempts_gated_iff limitOneClient _ _ rfl rfl).mp hgated⟩

/-- A retry at 10 goes out although the window, which lasts until 1000, has
reached its hard limit. -/
theorem early_retry_not_gated :
    ¬ ∀ (client : RestClient) (requests : List RequestInput) (state : FirewallState),
      client.firewall = some state → state.options.onHardLimit = .rejectAll →
      ∀ a ∈ (runRequests client requests).2, a.Gated := by
  intro hall
  have hgated := hall limitOneClient [retriedRequest 10] _ rfl rfl
  exact absurd hgated (by decide +kernel)

end Dcc.Rest
