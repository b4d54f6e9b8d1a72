import Dcc.Lib.Decimal
import Dcc.Commands.Plan

/-!
# Applying a plan

`dcc_command_registry_apply` copies the diffs of a plan that are no no-ops and starts
`dcc_command_registry_operation_main`, which sends their requests one after the other
and stops at the first one that fails, or when it sees that the operation was canceled.

What the outside does in one round is an input, `Round`: whether a cancel comes before
the round and while its request is on its way, and how the request ends.  The model
also keeps which diffs were submitted and which succeeded.

* `runLegs_outcome` — where a run stops, and what it reports there;
* `apply_report_iff` — the report is right exactly when no cancel is noticed before an
  action that has a no-op in front of it.
-/

namespace Dcc.Commands

/-! ## The operation -/

/-- `dcc_command_registry_owned_diff_t`. -/
structure OwnedDiff where
  action : Action
  remoteId : UInt64
  json : Option Bytes
  planIndex : Nat
  deriving DecidableEq

/-- `dcc_rest_auth_mode_t`. -/
inductive AuthMode
  | default
  | bot
  | bearer
  | unknown
  deriving DecidableEq

/-- `dcc_command_registry_operation_options_t`; `complete` says that its size and version
are those of this library. -/
structure OperationOptions where
  complete : Bool
  priority : Nat
  authMode : AuthMode
  authToken : Option Bytes

/-- `DCC_COMMAND_REGISTRY_OPERATION_OPTIONS_INIT`; 1 is `DCC_REST_PRIORITY_NORMAL`. -/
def OperationOptions.init : OperationOptions where
  complete := true
  priority := 1
  authMode := .default
  authToken := none

/-- `dcc_command_registry_operation_t` before its thread runs. -/
structure Operation where
  applicationId : UInt64
  guildId : UInt64
  diffs : List OwnedDiff
  dryRun : Bool
  priority : Nat
  authMode : AuthMode
  authToken : Option Bytes
  noopCount : Nat

/-- The copy of one diff. -/
def own (diff : Diff) (index : Nat) : OwnedDiff where
  action := diff.action
  remoteId := diff.remoteId
  json := if diff.action = .deleteStale then none else diff.localJson
  planIndex := index

/-- The loop of `dcc_command_registry_apply` that copies the diffs, from the plan index
`index` on. -/
def ownDiffs (memory : Nat → Bool) : Nat → List Diff → Except Status (List OwnedDiff)
  | _, [] => .ok []
  | index, diff :: rest =>
    if diff.action = .noop then ownDiffs memory (index + 1) rest
    else if diff.action ≠ .deleteStale ∧ diff.localJson = none then .error .invalidArg
    else if diff.action ≠ .deleteStale ∧ memory index = false then .error .nomem
    else
      match ownDiffs memory (index + 1) rest with
      | .error status => .error status
      | .ok owned => .ok (own diff index :: owned)

/-- What `dcc_command_registry_apply` meets: the memory for the operation, its token and its
array, the memory for the text of each diff, and the thread. -/
structure ApplyMemory where
  operation : Bool
  token : Bool
  array : Bool
  texts : Nat → Bool
  thread : Bool

/-- `dcc_command_registry_apply`. -/
def apply (memory : ApplyMemory) (applicationId : UInt64) (plan : Plan)
    (options : Option OperationOptions) : Except Status Operation :=
  let given := options.getD OperationOptions.init
  if applicationId = 0 then .error .invalidArg
  else if given.complete = false then .error .invalidArg
  else if given.authMode = .unknown then .error .invalidArg
  else if given.authMode = .bearer ∧ given.authToken.getD [] = [] then .error .invalidArg
  else if memory.operation = false then .error .nomem
  else if given.authToken ≠ none ∧ memory.token = false then .error .nomem
  else if plan.diffs ≠ [] ∧ memory.array = false then .error .nomem
  else
    match ownDiffs memory.texts 0 plan.diffs with
    | .error status => .error status
    | .ok owned =>
      if memory.thread then
        .ok
          { applicationId := applicationId
            guildId := plan.guildId
            diffs := owned
            dryRun := plan.dryRun
            priority := given.priority
            authMode := given.authMode
            authToken := given.authToken
            noopCount := plan.noopCount }
      else .error .runtime

/-! ## One request -/

/-- `dcc_rest_method_t`, as far as the registry uses it. -/
inductive Method
  | post
  | patch
  | delete
  deriving DecidableEq

/-- The path of the commands of an application, or of a guild. -/
def commandsPath (operation : Operation) : Bytes :=
  if operation.guildId ≠ 0 then
    asciiText "/applications/" ++ Decimal.decimalText operation.applicationId.toNat ++
      asciiText "/guilds/" ++ Decimal.decimalText operation.guildId.toNat ++ asciiText "/commands"
  else
    asciiText "/applications/" ++ Decimal.decimalText operation.applicationId.toNat ++
      asciiText "/commands"

/-- The path of one command. -/
def commandPath (operation : Operation) (remoteId : UInt64) : Bytes :=
  commandsPath operation ++ asciiText "/" ++ Decimal.decimalText remoteId.toNat

/-- The path must fit into the buffer of `dcc_command_registry_operation_main`. -/
def fitPath (method : Method) (path : Bytes) : Except Status (Method × Bytes) :=
  if path.length ≥ 192 then .error .invalidArg else .ok (method, path)

/-- `dcc_command_registry_leg_path`. -/
def legPath (operation : Operation) (action : Action) (remoteId : UInt64) :
    Except Status (Method × Bytes) :=
  match action with
  | .create => fitPath .post (commandsPath operation)
  | .update =>
    if remoteId = 0 then .error .invalidArg
    else fitPath .patch (commandPath operation remoteId)
  | .deleteStale =>
    if remoteId = 0 then .error .invalidArg
    else fitPath .delete (commandPath operation remoteId)
  | .noop => .error .invalidArg

/-- The request of a diff, as `dcc_rest_submit` gets it; a body goes as
`application/json`. -/
structure LegRequest where
  method : Method
  path : Bytes
  body : Option Bytes
  priority : Nat
  authMode : AuthMode
  authToken : Option Bytes
  deriving DecidableEq

/-- The request of a diff, from its method and path. -/
def legRequest (operation : Operation) (diff : OwnedDiff) (leg : Method × Bytes) : LegRequest where
  method := leg.1
  path := leg.2
  body := if diff.action ≠ .deleteStale then diff.json else none
  priority := operation.priority
  authMode := operation.authMode
  authToken := operation.authToken

theorem fitPath_error {method : Method} {path : Bytes} {status : Status}
    (h : fitPath method path = .error status) : status = .invalidArg := by
  unfold fitPath at h
  split at h
  · exact (Except.error.inj h).symm
  · cases h

theorem legPath_error {operation : Operation} {action : Action} {remoteId : UInt64}
    {status : Status} (h : legPath operation action remoteId = .error status) :
    status = .invalidArg := by
  unfold legPath at h
  cases action with
  | noop => exact (Except.error.inj h).symm
  | create => exact fitPath_error h
  | update =>
    simp only at h
    split at h
    · exact (Except.error.inj h).symm
    · exact fitPath_error h
  | deleteStale =>
    simp only at h
    split at h
    · exact (Except.error.inj h).symm
    · exact fitPath_error h

/-- A `dcc_rest_result_t`, of which only the status is read here. -/
structure RestResult where
  status : Status
  deriving DecidableEq

/-- What one round of `dcc_command_registry_operation_main` meets: whether
`dcc_command_registry_operation_cancel` is called before the check at its top, how the
submission ends, whether a cancel comes before the flag is read again, what the wait for
the request brings, and whether the result of a failure can be copied. -/
structure Round where
  cancelBefore : Bool
  submit : Status
  cancelDuring : Bool
  wait : Except Status RestResult
  cloned : Bool

/-- The status of a request after the wait. -/
def Round.status (round : Round) : Status :=
  match round.wait with
  | .error status => status
  | .ok result => result.status

/-- `dcc_command_registry_operation_result_t`; `none` is the index `SIZE_MAX`. -/
structure OperationResult where
  status : Status
  plannedCount : Nat
  submittedCount : Nat
  succeededCount : Nat
  createCompleted : Nat
  updateCompleted : Nat
  deleteStaleCompleted : Nat
  noopCount : Nat
  failedPlanIndex : Option Nat
  failedAction : Action
  failedRestResult : Option RestResult

/-- The operation while its thread runs, with the requests that were submitted and the plan
indices of the diffs that succeeded. -/
structure Progress where
  cancelRequested : Bool
  result : OperationResult
  submitted : List (Nat × LegRequest)
  succeeded : List Nat

/-- The operation when its thread starts. -/
def Operation.start (operation : Operation) : Progress where
  cancelRequested := false
  result :=
    { status := .ok
      plannedCount := operation.diffs.length
      submittedCount := 0
      succeededCount := 0
      createCompleted := 0
      updateCompleted := 0
      deleteStaleCompleted := 0
      noopCount := operation.noopCount
      failedPlanIndex := none
      failedAction := .noop
      failedRestResult := none }
  submitted := []
  succeeded := []

/-- `dcc_command_registry_complete`. -/
def Progress.complete (progress : Progress) (status : Status) (failedIndex : Option Nat)
    (failedAction : Action) (failedResult : Option RestResult) : Progress :=
  { progress with
    result :=
      { progress.result with
        status := status
        failedPlanIndex := failedIndex
        failedAction := failedAction
        failedRestResult := failedResult } }

/-- The request is on its way, and the cancel flag was read again. -/
def Progress.submit (progress : Progress) (round : Round) (planIndex : Nat)
    (request : LegRequest) : Progress :=
  { progress with
    cancelRequested := progress.cancelRequested || round.cancelDuring
    result := { progress.result with submittedCount := progress.result.submittedCount + 1 }
    submitted := progress.submitted ++ [(planIndex, request)] }

/-- The request succeeded. -/
def Progress.succeed (progress : Progress) (action : Action) (planIndex : Nat) : Progress :=
  { progress with
    result :=
      { progress.result with
        succeededCount := progress.result.succeededCount + 1
        createCompleted := progress.result.createCompleted + if action = .create then 1 else 0
        updateCompleted := progress.result.updateCompleted + if action = .update then 1 else 0
        deleteStaleCompleted := progress.result.deleteStaleCompleted +
          if action ≠ .create ∧ action ≠ .update then 1 else 0 }
    succeeded := progress.succeeded ++ [planIndex] }

/-- One round of the loop; the flag says whether the loop goes on. -/
def runLeg (operation : Operation) (round : Round) (index : Nat) (diff : OwnedDiff)
    (progress : Progress) : Progress × Bool :=
  let progress := { progress with cancelRequested := progress.cancelRequested || round.cancelBefore }
  if progress.cancelRequested then
    -- the index in the filtered copy, where every other report has the plan index
    (progress.complete .canceled (some index) diff.action none, false)
  else
    match legPath operation diff.action diff.remoteId with
    | .error status => (progress.complete status (some diff.planIndex) diff.action none, false)
    | .ok leg =>
      if round.submit ≠ .ok then
        (progress.complete round.submit (some diff.planIndex) diff.action none, false)
      else
        let progress := progress.submit round diff.planIndex (legRequest operation diff leg)
        if round.status ≠ .ok then
          (progress.complete
            (if progress.cancelRequested ∨ round.status = .canceled then .canceled
              else round.status)
            (some diff.planIndex) diff.action
            (if round.cloned then round.wait.toOption else none), false)
        else (progress.succeed diff.action diff.planIndex, true)

/-- The loop of `dcc_command_registry_operation_main`, from the diff at `index` on. -/
def runLegs (operation : Operation) (rounds : Nat → Round) :
    Nat → List OwnedDiff → Progress → Progress
  | _, [], progress => progress.complete .ok none .noop none
  | index, diff :: rest, progress =>
    match runLeg operation (rounds index) index diff progress with
    | (progress, true) => runLegs operation rounds (index + 1) rest progress
    | (progress, false) => progress

/-- `dcc_command_registry_operation_main`. -/
def operationMain (operation : Operation) (rounds : Nat → Round) : Progress :=
  if operation.dryRun ∨ operation.diffs = [] then
    operation.start.complete .ok none .noop none
  else runLegs operation rounds 0 operation.diffs operation.start

/-! ## The actions of a plan -/

/-- The diffs of a plan that are no no-ops, with their indices. -/
def planActions (index : Nat) (diffs : List Diff) : List (Diff × Nat) :=
  (diffs.zipIdx index).filter fun entry => entry.1.action ≠ .noop

theorem planActions_cons (index : Nat) (diff : Diff) (rest : List Diff) :
    planActions index (diff :: rest) = if diff.action = .noop then planActions (index + 1) rest
      else (diff, index) :: planActions (index + 1) rest := by
  by_cases hnoop : diff.action = .noop <;> simp [planActions, hnoop]

theorem ownDiffs_ok {memory : Nat → Bool} {index : Nat} {diffs : List Diff}
    {owned : List OwnedDiff} (h : ownDiffs memory index diffs = .ok owned) :
    owned = (planActions index diffs).map fun entry => own entry.1 entry.2 := by
  induction diffs generalizing index owned with
  | nil =>
    cases h
    rfl
  | cons diff rest ih =>
    rw [ownDiffs] at h
    rw [planActions_cons]
    split at h
    · rename_i hnoop
      rw [if_pos hnoop]
      exact ih h
    · rename_i hnoop
      rw [if_neg hnoop]
      split at h
      · cases h
      · split at h
        · cases h
        · split at h
          · cases h
          · rename_i tail htail
            cases h
            rw [ih htail, List.map_cons]

/-- The action at a place of the filtered list: its diff stands at its index in the plan,
and its place is the number of actions before it. -/
theorem planActions_getElem {index place planIndex : Nat} {diffs : List Diff} {diff : Diff}
    (h : (planActions index diffs)[place]? = some (diff, planIndex)) :
    index ≤ planIndex ∧ diffs[planIndex - index]? = some diff ∧ diff.action ≠ .noop ∧
      ((diffs.take (planIndex - index)).countP fun other => other.action ≠ .noop) = place := by
  induction diffs generalizing index place with
  | nil => simp [planActions] at h
  | cons head rest ih =>
    rw [planActions_cons] at h
    by_cases hnoop : head.action = .noop
    · rw [if_pos hnoop] at h
      obtain ⟨hle, hdiff, haction, hcount⟩ := ih h
      have hsub : planIndex - index = (planIndex - (index + 1)) + 1 := by omega
      refine ⟨by omega, by rw [hsub]; simpa using hdiff, haction, ?_⟩
      rw [hsub, List.take_succ_cons, List.countP_cons_of_neg (by simp [hnoop])]
      exact hcount
    · rw [if_neg hnoop] at h
      cases place with
      | zero =>
        obtain ⟨rfl, rfl⟩ : head = diff ∧ index = planIndex := by simpa using h
        simp [hnoop]
      | succ place =>
        obtain ⟨hle, hdiff, haction, hcount⟩ := ih (by simpa using h)
        have hsub : planIndex - index = (planIndex - (index + 1)) + 1 := by omega
        refine ⟨by omega, by rw [hsub]; simpa using hdiff, haction, ?_⟩
        rw [hsub, List.take_succ_cons, List.countP_cons_of_pos (by simpa using hnoop), hcount]

theorem exists_planActions_place {diffs : List Diff} {planIndex : Nat} {diff : Diff}
    (hdiff : diffs[planIndex]? = some diff) (haction : diff.action ≠ .noop) :
    ∃ place : Nat, (planActions 0 diffs)[place]? = some (diff, planIndex) := by
  refine List.mem_iff_getElem?.mp (List.mem_filter.mpr ⟨?_, by simpa using haction⟩)
  exact List.mem_zipIdx_iff_getElem?.mpr hdiff

theorem planActions_place_lt_iff {diffs : List Diff} {place place' planIndex planIndex' : Nat}
    {diff diff' : Diff} (h : (planActions 0 diffs)[place]? = some (diff, planIndex))
    (h' : (planActions 0 diffs)[place']? = some (diff', planIndex')) :
    planIndex < planIndex' ↔ place < place' := by
  have hmono : ∀ {i j p q : Nat} {d e : Diff}, (planActions 0 diffs)[i]? = some (d, p) →
      (planActions 0 diffs)[j]? = some (e, q) → p < q → i < j := by
    intro i j p q d e hi hj hlt
    obtain ⟨_, hd, hdaction, hcount⟩ := planActions_getElem hi
    obtain ⟨_, _, _, hcount'⟩ := planActions_getElem hj
    simp only [Nat.sub_zero] at hd hcount hcount'
    have hsucc : ((diffs.take (p + 1)).countP fun other => other.action ≠ .noop) = i + 1 := by
      rw [List.take_add_one, hd, List.countP_append, hcount]
      simp [hdaction]
    have hsub : List.Sublist (diffs.take (p + 1)) (diffs.take q) :=
      List.take_sublist_take_left (by omega)
    have hle := hsub.countP_le (p := fun other : Diff => other.action ≠ .noop)
    omega
  refine ⟨hmono h h', ?_⟩
  intro hlt
  rcases Nat.lt_trichotomy planIndex planIndex' with hless | heq | hmore
  · exact hless
  · obtain ⟨_, _, _, hcount⟩ := planActions_getElem h
    obtain ⟨_, _, _, hcount'⟩ := planActions_getElem h'
    rw [heq] at hcount
    omega
  · have hback := hmono h' h hmore
    omega

theorem planActions_place_eq_iff {diffs : List Diff} {place planIndex : Nat} {diff : Diff}
    (h : (planActions 0 diffs)[place]? = some (diff, planIndex)) :
    place = planIndex ↔ ∀ other ∈ diffs.take planIndex, other.action ≠ .noop := by
  obtain ⟨_, hdiff, _, hcount⟩ := planActions_getElem h
  simp only [Nat.sub_zero] at hdiff hcount
  have hlen : (diffs.take planIndex).length = planIndex := by
    have hlt := (List.getElem?_eq_some_iff.mp hdiff).1
    rw [List.length_take]
    omega
  rw [← hcount]
  nth_rewrite 2 [← hlen]
  rw [List.countP_eq_length]
  simp

/-! ## Where a run stops -/

/-- The request of a diff goes out and comes back well. -/
def LegSucceeds (operation : Operation) (round : Round) (diff : Diff) : Prop :=
  (∃ leg, legPath operation diff.action diff.remoteId = .ok leg) ∧ round.submit = .ok ∧
    round.status = .ok

/-- A cancel came before the round `index`, at its top or earlier. -/
def CancelSeen (rounds : Nat → Round) (index : Nat) : Prop :=
  (rounds index).cancelBefore = true ∨
    ∃ earlier < index, (rounds earlier).cancelBefore = true ∨ (rounds earlier).cancelDuring = true

/-- The first `count` rounds see no cancel, and their requests succeed. -/
def RunsThrough (operation : Operation) (rounds : Nat → Round) (diffs : List Diff)
    (count : Nat) : Prop :=
  ∀ place < count, ¬ CancelSeen rounds place ∧
    ∀ diff planIndex, (planActions 0 diffs)[place]? = some (diff, planIndex) →
      LegSucceeds operation (rounds place) diff

/-- The state of the operation at the top of the round `index`. -/
structure Progress.At (progress : Progress) (rounds : Nat → Round) (diffs : List Diff)
    (index : Nat) : Prop where
  canceled : progress.cancelRequested = true ↔
    ∃ earlier < index, (rounds earlier).cancelBefore = true ∨ (rounds earlier).cancelDuring = true
  succeeded : progress.succeeded = ((planActions 0 diffs).take index).map Prod.snd
  submitted : progress.submitted.map Prod.fst = ((planActions 0 diffs).take index).map Prod.snd
  count : progress.result.succeededCount = progress.succeeded.length
  completed : progress.result.succeededCount = progress.result.createCompleted +
    progress.result.updateCompleted + progress.result.deleteStaleCompleted

/-- What the operation reports when it stops at the round `index`. -/
structure Progress.StoppedAt (progress : Progress) (operation : Operation) (rounds : Nat → Round)
    (diffs : List Diff) (index : Nat) (diff : Diff) (planIndex : Nat) : Prop where
  status : progress.result.status ≠ .ok
  action : progress.result.failedAction = diff.action
  succeeded : progress.succeeded = ((planActions 0 diffs).take index).map Prod.snd
  submitted : ∀ other ∈ progress.submitted.map Prod.fst,
    other ∈ ((planActions 0 diffs).take (index + 1)).map Prod.snd
  count : progress.result.succeededCount = progress.succeeded.length
  completed : progress.result.succeededCount = progress.result.createCompleted +
    progress.result.updateCompleted + progress.result.deleteStaleCompleted
  reported : (CancelSeen rounds index ∧ progress.result.failedPlanIndex = some index) ∨
    (¬ CancelSeen rounds index ∧ ¬ LegSucceeds operation (rounds index) diff ∧
      progress.result.failedPlanIndex = some planIndex)

section Run

variable {operation : Operation} {rounds : Nat → Round} {diffs : List Diff}
  {progress : Progress} {index planIndex : Nat} {diff : Diff}

theorem Progress.At.canceled_iff (h : progress.At rounds diffs index) :
    (progress.cancelRequested || (rounds index).cancelBefore) = true ↔ CancelSeen rounds index := by
  rw [Bool.or_eq_true, h.canceled, CancelSeen, or_comm]

theorem take_succ_planIndex (hplace : (planActions 0 diffs)[index]? = some (diff, planIndex)) :
    ((planActions 0 diffs).take (index + 1)).map Prod.snd =
      ((planActions 0 diffs).take index).map Prod.snd ++ [planIndex] := by
  rw [List.take_add_one, hplace, List.map_append]
  rfl

theorem runLeg_canceled (hflag : (progress.cancelRequested || (rounds index).cancelBefore) = true) :
    runLeg operation (rounds index) index (own diff planIndex) progress =
      (({ progress with cancelRequested := true } : Progress).complete .canceled (some index)
        diff.action none, false) := by
  simp only [runLeg, hflag, if_true]
  rfl

theorem flag_unchanged (hflag : (progress.cancelRequested || (rounds index).cancelBefore) = false) :
    ({ progress with cancelRequested := progress.cancelRequested || (rounds index).cancelBefore } :
      Progress) = progress := by
  have hold : progress.cancelRequested = false := (Bool.or_eq_false_iff.mp hflag).1
  rw [hflag, ← hold]

theorem runLeg_failed (planIndex : Nat)
    (hflag : (progress.cancelRequested || (rounds index).cancelBefore) = false)
    (hfails : ¬ LegSucceeds operation (rounds index) diff) :
    ∃ sent status result, runLeg operation (rounds index) index (own diff planIndex) progress =
        (Progress.complete sent status (some planIndex) diff.action result, false) ∧
      status ≠ .ok ∧
      (sent = progress ∨ ∃ request, sent = progress.submit (rounds index) planIndex request) := by
  have hold : progress.cancelRequested = false := (Bool.or_eq_false_iff.mp hflag).1
  unfold runLeg
  rw [flag_unchanged hflag]
  simp only [hold, Bool.false_eq_true, if_false]
  cases hleg : legPath operation (own diff planIndex).action (own diff planIndex).remoteId with
  | error status =>
    refine ⟨progress, status, none, rfl, ?_, .inl rfl⟩
    rw [legPath_error hleg]
    simp
  | ok leg =>
    by_cases hsubmit : (rounds index).submit = .ok
    · have hstatus : (rounds index).status ≠ .ok := by
        intro hok
        exact hfails ⟨⟨leg, hleg⟩, hsubmit, hok⟩
      simp only [hsubmit, ne_eq, not_true, if_false, hstatus, not_false_iff, if_true]
      refine ⟨_, _, _, rfl, ?_, .inr ⟨_, rfl⟩⟩
      split
      · simp
      · exact hstatus
    · simp only [ne_eq, hsubmit, not_false_iff, if_true]
      exact ⟨progress, _, none, rfl, hsubmit, .inl rfl⟩

theorem runLeg_succeeds (planIndex : Nat)
    (hflag : (progress.cancelRequested || (rounds index).cancelBefore) = false)
    (hsucceeds : LegSucceeds operation (rounds index) diff) :
    ∃ request, runLeg operation (rounds index) index (own diff planIndex) progress =
      ((progress.submit (rounds index) planIndex request).succeed diff.action planIndex, true) := by
  have hold : progress.cancelRequested = false := (Bool.or_eq_false_iff.mp hflag).1
  obtain ⟨⟨leg, hleg⟩, hsubmit, hstatus⟩ := hsucceeds
  have hleg' : legPath operation (own diff planIndex).action (own diff planIndex).remoteId =
      .ok leg := hleg
  refine ⟨legRequest operation (own diff planIndex) leg, ?_⟩
  unfold runLeg
  rw [flag_unchanged hflag]
  simp only [hold, Bool.false_eq_true, if_false, hleg', hsubmit, hstatus, ne_eq, not_true]
  rfl

theorem Progress.At.succeed (h : progress.At rounds diffs index)
    (hplace : (planActions 0 diffs)[index]? = some (diff, planIndex))
    (hnone : ¬ CancelSeen rounds index) (request : LegRequest) :
    ((progress.submit (rounds index) planIndex request).succeed diff.action planIndex).At rounds
      diffs (index + 1) where
  canceled := by
    have hold : progress.cancelRequested = false := by
      rw [← Bool.not_eq_true, h.canceled]
      exact fun hearlier => hnone (.inr hearlier)
    have hnow : (rounds index).cancelBefore = false := by
      rw [← Bool.not_eq_true]
      exact fun hbefore => hnone (.inl hbefore)
    simp only [Progress.submit, Progress.succeed, hold, Bool.false_or]
    constructor
    · intro hduring
      exact ⟨index, Nat.lt_succ_self index, .inr hduring⟩
    · rintro ⟨earlier, hlt, hcancel⟩
      rcases Nat.lt_succ_iff_lt_or_eq.mp hlt with hless | rfl
      · exact absurd (.inr ⟨earlier, hless, hcancel⟩) hnone
      · simpa [hnow] using hcancel
  succeeded := by
    rw [take_succ_planIndex hplace, ← h.succeeded]
    rfl
  submitted := by
    rw [take_succ_planIndex hplace, ← h.submitted]
    simp [Progress.submit, Progress.succeed]
  count := by
    simp [Progress.submit, Progress.succeed, h.count]
  completed := by
    have hcompleted := h.completed
    have hnoop : diff.action ≠ .noop := (planActions_getElem hplace).2.2.1
    simp only [Progress.submit, Progress.succeed]
    cases haction : diff.action <;> simp <;> omega

theorem runLeg_spec (operation : Operation) (h : progress.At rounds diffs index)
    (hplace : (planActions 0 diffs)[index]? = some (diff, planIndex)) :
    (∃ next, runLeg operation (rounds index) index (own diff planIndex) progress = (next, true) ∧
      next.At rounds diffs (index + 1) ∧ ¬ CancelSeen rounds index ∧
      LegSucceeds operation (rounds index) diff) ∨
    ∃ final, runLeg operation (rounds index) index (own diff planIndex) progress = (final, false) ∧
      final.StoppedAt operation rounds diffs index diff planIndex := by
  have hsub : ∀ other ∈ progress.submitted.map Prod.fst,
      other ∈ ((planActions 0 diffs).take (index + 1)).map Prod.snd := by
    intro other hother
    rw [take_succ_planIndex hplace]
    exact List.mem_append_left _ (h.submitted ▸ hother)
  by_cases hcancel : CancelSeen rounds index
  · refine .inr ⟨_, runLeg_canceled (h.canceled_iff.mpr hcancel), ?_⟩
    exact ⟨by simp [Progress.complete], rfl, h.succeeded, hsub, h.count, h.completed,
      .inl ⟨hcancel, rfl⟩⟩
  · have hflag : (progress.cancelRequested || (rounds index).cancelBefore) = false := by
      rw [← Bool.not_eq_true, h.canceled_iff]
      exact hcancel
    by_cases hsucceeds : LegSucceeds operation (rounds index) diff
    · obtain ⟨request, hrun⟩ := runLeg_succeeds planIndex hflag hsucceeds
      exact .inl ⟨_, hrun, h.succeed hplace hcancel request, hcancel, hsucceeds⟩
    · obtain ⟨sent, status, result, hrun, hstatus, hsent⟩ :=
        runLeg_failed planIndex hflag hsucceeds
      refine .inr ⟨_, hrun, hstatus, rfl, ?_, ?_, ?_, ?_, .inr ⟨hcancel, hsucceeds, rfl⟩⟩
      · rcases hsent with rfl | ⟨request, rfl⟩ <;> exact h.succeeded
      · rcases hsent with rfl | ⟨request, rfl⟩
        · exact hsub
        · intro other hother
          simp only [Progress.complete, Progress.submit, List.map_append, List.map_singleton,
            List.mem_append, List.mem_singleton] at hother
          rcases hother with hold | rfl
          · exact hsub other hold
          · rw [take_succ_planIndex hplace]
            exact List.mem_append_right _ (List.mem_singleton.mpr rfl)
      · rcases hsent with rfl | ⟨request, rfl⟩ <;> exact h.count
      · rcases hsent with rfl | ⟨request, rfl⟩ <;> exact h.completed

/-- **Where a run stops**: it goes through to the end of the plan, or it stops at the first
round that sees a cancel or whose request fails. -/
theorem runLegs_outcome {rest : List (Diff × Nat)} (h : progress.At rounds diffs index)
    (hrest : (planActions 0 diffs).drop index = rest)
    (hthrough : RunsThrough operation rounds diffs index) :
    ((runLegs operation rounds index (rest.map fun entry => own entry.1 entry.2)
        progress).result.status = .ok ∧
      RunsThrough operation rounds diffs (planActions 0 diffs).length) ∨
    ∃ place diff planIndex, (planActions 0 diffs)[place]? = some (diff, planIndex) ∧
      RunsThrough operation rounds diffs place ∧
      (runLegs operation rounds index (rest.map fun entry => own entry.1 entry.2)
        progress).StoppedAt operation rounds diffs place diff planIndex := by
  induction rest generalizing index progress with
  | nil =>
    refine .inl ⟨rfl, ?_⟩
    intro place hplace
    have hlen : (planActions 0 diffs).length ≤ index := by simpa using hrest
    exact hthrough place (by omega)
  | cons entry rest ih =>
    obtain ⟨diff, planIndex⟩ := entry
    have hplace : (planActions 0 diffs)[index]? = some (diff, planIndex) := by
      have hhead : ((planActions 0 diffs).drop index)[0]? = some (diff, planIndex) := by
        rw [hrest]
        rfl
      simpa using hhead
    have hdrop : (planActions 0 diffs).drop (index + 1) = rest := by
      rw [← List.drop_drop, hrest]
      rfl
    rw [List.map_cons, runLegs]
    rcases runLeg_spec operation h hplace with
      ⟨next, hrun, hnext, hcancel, hsucceeds⟩ | ⟨final, hrun, hstopped⟩
    · simp only [hrun]
      refine ih hnext hdrop ?_
      intro place hlt
      rcases Nat.lt_succ_iff_lt_or_eq.mp hlt with hless | rfl
      · exact hthrough place hless
      · refine ⟨hcancel, ?_⟩
        intro other otherIndex hother
        obtain ⟨rfl, rfl⟩ : diff = other ∧ planIndex = otherIndex := by
          simpa [hplace] using hother
        exact hsucceeds
    · simp only [hrun]
      exact .inr ⟨index, diff, planIndex, hplace, hthrough, hstopped⟩

end Run

/-! ## The report -/

/-- What the report of a failure says: it names the index in the plan and the action of a
diff that did not succeed, all actions before it succeeded, none after it was submitted,
and the counters are those of the actions that succeeded. -/
def Progress.Reported (progress : Progress) (plan : Plan) : Prop :=
  progress.result.status ≠ .ok → ∃ index diff, progress.result.failedPlanIndex = some index ∧
      plan.diffs[index]? = some diff ∧ diff.action ≠ .noop ∧
      progress.result.failedAction = diff.action ∧ index ∉ progress.succeeded ∧
      (∀ earlier other, earlier < index → plan.diffs[earlier]? = some other →
        other.action ≠ .noop → earlier ∈ progress.succeeded) ∧
      (∀ later, index < later → later ∉ progress.submitted.map Prod.fst) ∧
      progress.result.succeededCount = progress.succeeded.length ∧
      progress.result.succeededCount = progress.result.createCompleted +
        progress.result.updateCompleted + progress.result.deleteStaleCompleted

/-- All requests before an action succeed, a cancel is noticed at the top of its round, and
a no-op stands before it in the plan. -/
def CancelPastNoop (operation : Operation) (rounds : Nat → Round) (diffs : List Diff) : Prop :=
  ∃ (place : Nat) (diff : Diff) (planIndex : Nat),
    (planActions 0 diffs)[place]? = some (diff, planIndex) ∧
      RunsThrough operation rounds diffs place ∧ CancelSeen rounds place ∧
      ∃ other ∈ diffs.take planIndex, other.action = .noop

section Report

variable {operation : Operation} {rounds : Nat → Round} {plan : Plan} {progress : Progress}
  {place planIndex : Nat} {diff : Diff}

theorem mem_take_planActions {count : Nat}
    (h : (planActions 0 plan.diffs)[place]? = some (diff, planIndex)) :
    planIndex ∈ ((planActions 0 plan.diffs).take count).map Prod.snd ↔ place < count := by
  constructor
  · intro hmem
    obtain ⟨⟨other, otherIndex⟩, hother, heq⟩ := List.mem_map.mp hmem
    obtain ⟨at', hat⟩ := List.mem_iff_getElem?.mp hother
    rw [List.getElem?_take] at hat
    split at hat
    · rename_i hlt
      obtain rfl : otherIndex = planIndex := heq
      have hno := planActions_place_lt_iff hat h
      have hno' := planActions_place_lt_iff h hat
      omega
    · cases hat
  · intro hlt
    refine List.mem_map.mpr ⟨(diff, planIndex), List.mem_iff_getElem?.mpr ⟨place, ?_⟩, rfl⟩
    rw [List.getElem?_take, if_pos hlt, h]

section

variable (h : progress.StoppedAt operation rounds plan.diffs place diff planIndex)
  (hplace : (planActions 0 plan.diffs)[place]? = some (diff, planIndex))
include h hplace

theorem Progress.StoppedAt.reported_of_planIndex
    (hindex : progress.result.failedPlanIndex = some planIndex) : progress.Reported plan := by
  intro _
  obtain ⟨_, hdiff, haction, _⟩ := planActions_getElem hplace
  simp only [Nat.sub_zero] at hdiff
  refine ⟨planIndex, diff, hindex, hdiff, haction, h.action, ?_, ?_, ?_, h.count, h.completed⟩
  · rw [h.succeeded, mem_take_planActions hplace]
    exact Nat.lt_irrefl place
  · intro earlier other hlt hother hotherAction
    obtain ⟨otherPlace, hotherPlace⟩ := exists_planActions_place hother hotherAction
    rw [h.succeeded, mem_take_planActions hotherPlace]
    exact (planActions_place_lt_iff hotherPlace hplace).mp hlt
  · intro later hlt hmem
    have htake := h.submitted later hmem
    obtain ⟨⟨other, otherIndex⟩, hother, rfl⟩ := List.mem_map.mp htake
    obtain ⟨otherPlace, hat⟩ := List.mem_iff_getElem?.mp (List.mem_of_mem_take hother)
    have hle := (mem_take_planActions hat).mp htake
    have hgt := (planActions_place_lt_iff hplace hat).mp hlt
    omega

theorem Progress.StoppedAt.place_eq_of_reported
    (hindex : progress.result.failedPlanIndex = some place) (hreported : progress.Reported plan) :
    place = planIndex := by
  obtain ⟨index, found, hfailed, hfound, haction, _, hnot, _⟩ := hreported h.status
  obtain rfl : place = index := by simpa [hindex] using hfailed
  obtain ⟨otherPlace, hother⟩ := exists_planActions_place hfound haction
  -- the reported diff is an action, and it did not succeed
  have hge : place ≤ otherPlace := by
    rw [h.succeeded, mem_take_planActions hother] at hnot
    omega
  have hle : otherPlace ≤ place := by
    obtain ⟨_, _, _, hcount⟩ := planActions_getElem hother
    rw [← hcount]
    refine le_trans List.countP_le_length ?_
    rw [List.length_take]
    omega
  obtain rfl : otherPlace = place := by omega
  have hsame : some (found, otherPlace) = some (diff, planIndex) := hother.symm.trans hplace
  exact congrArg (fun entry => entry.2) (Option.some.inj hsame)

end

theorem RunsThrough.place_le {other : Nat}
    (hthrough : RunsThrough operation rounds plan.diffs other) (hcancel : CancelSeen rounds place) :
    other ≤ place := by
  by_contra hlt
  exact (hthrough place (by omega)).1 hcancel

end Report

theorem apply_ok {memory : ApplyMemory} {applicationId : UInt64} {plan : Plan}
    {options : Option OperationOptions} {operation : Operation}
    (h : apply memory applicationId plan options = .ok operation) :
    operation.diffs = ((planActions 0 plan.diffs).map fun entry => own entry.1 entry.2) ∧
      operation.dryRun = plan.dryRun := by
  unfold apply at h
  simp only at h
  repeat' split at h
  all_goals cases h
  rename_i owned howned _
  exact ⟨ownDiffs_ok howned, rfl⟩

theorem Operation.start_at (operation : Operation) (rounds : Nat → Round) (diffs : List Diff) :
    operation.start.At rounds diffs 0 where
  canceled := by simp [Operation.start]
  succeeded := rfl
  submitted := rfl
  count := rfl
  completed := rfl

/-- **When the report of an operation is right**: for every plan and every course of the
requests, the failure that is reported is the right one, unless a cancel is noticed at the
top of the round of an action that has a no-op before it in the plan. -/
theorem apply_report_iff {memory : ApplyMemory} {applicationId : UInt64} {plan : Plan}
    {options : Option OperationOptions} {operation : Operation}
    (h : apply memory applicationId plan options = .ok operation) (rounds : Nat → Round) :
    (operationMain operation rounds).Reported plan ↔
      (plan.dryRun = true ∨ ¬ CancelPastNoop operation rounds plan.diffs) := by
  obtain ⟨hdiffs, hdry⟩ := apply_ok h
  by_cases hidle : operation.dryRun ∨ operation.diffs = []
  · have hmain : (operationMain operation rounds).Reported plan := by
      intro hstatus
      simp [operationMain, hidle, Progress.complete] at hstatus
    refine iff_of_true hmain ?_
    rcases hidle with hdryRun | hempty
    · exact .inl (hdry ▸ hdryRun)
    · refine .inr ?_
      rintro ⟨place, diff, planIndex, hplace, _⟩
      have hnil : planActions 0 plan.diffs = [] := by
        rw [hdiffs] at hempty
        exact List.map_eq_nil_iff.mp hempty
      simp [hnil] at hplace
  · have hdryRun : plan.dryRun ≠ true := by
      rw [← hdry]
      exact fun hdryRun => hidle (.inl hdryRun)
    have hmain : operationMain operation rounds = runLegs operation rounds 0
        ((planActions 0 plan.diffs).map fun entry => own entry.1 entry.2) operation.start := by
      rw [operationMain, if_neg hidle, hdiffs]
    rw [hmain, or_iff_right hdryRun]
    rcases runLegs_outcome (operation.start_at rounds plan.diffs) rfl
      (fun place hlt => absurd hlt (Nat.not_lt_zero place)) with
      ⟨hok, hthrough⟩ | ⟨place, diff, planIndex, hplace, hthrough, hstopped⟩
    · refine iff_of_true (fun hstatus => absurd hok hstatus) ?_
      rintro ⟨place, diff, planIndex, hplace, _, hcancel, _⟩
      exact (hthrough place (List.getElem?_eq_some_iff.mp hplace).1).1 hcancel
    · constructor
      · rintro hreported ⟨other, otherDiff, otherIndex, hother, hotherThrough, hcancel, hnoop⟩
        have hle := hthrough.place_le hcancel
        rcases hstopped.reported with ⟨hseen, hindex⟩ | ⟨hunseen, hfails, _⟩
        · have hge := hotherThrough.place_le hseen
          obtain rfl : other = place := by omega
          obtain ⟨rfl, rfl⟩ : otherDiff = diff ∧ otherIndex = planIndex := by
            simpa [hother] using hplace
          have hsame := hstopped.place_eq_of_reported hother hindex hreported
          obtain ⟨found, hmem, haction⟩ := hnoop
          exact (planActions_place_eq_iff hother).mp hsame found hmem haction
        · rcases Nat.lt_or_eq_of_le hle with hlt | rfl
          · exact hfails ((hotherThrough place hlt).2 diff planIndex hplace)
          · exact hunseen hcancel
      · intro hnone
        rcases hstopped.reported with ⟨hseen, hindex⟩ | ⟨_, _, hindex⟩
        · have hsame : place = planIndex := by
            rw [planActions_place_eq_iff hplace]
            intro other hmem haction
            exact hnone ⟨place, diff, planIndex, hplace, hthrough, hseen, other, hmem, haction⟩
          exact hstopped.reported_of_planIndex hplace (hsame ▸ hindex)
        · exact hstopped.reported_of_planIndex hplace hindex

/-- A no-op for `a`, then a create for `b`. -/
def noopThenCreate : Plan where
  diffs :=
    [{ action := .noop, name := [97], type := 1, remoteId := 7, localIndex := some 0,
       remoteIndex := some 0, localJson := some [123, 125], remoteJson := some [123, 125] },
     { action := .create, name := [98], type := 1, remoteId := 0, localIndex := some 1,
       remoteIndex := none, localJson := some [123, 125], remoteJson := none }]
  diffCap := 8
  createCount := 1
  updateCount := 0
  deleteStaleCount := 0
  noopCount := 1
  guildId := 0
  deleteStale := false
  dryRun := false

/-- The memory and the thread are there. -/
def plentyMemory : ApplyMemory where
  operation := true
  token := true
  array := true
  texts _ := true
  thread := true

/-- Every request succeeds; a cancel comes before the rounds where `canceled` holds. -/
def courseWith (canceled : Nat → Bool) (index : Nat) : Round where
  cancelBefore := canceled index
  submit := .ok
  cancelDuring := false
  wait := .ok ⟨.ok⟩
  cloned := true

theorem apply_report_iff_noopThenCreate :
    ∃ operation, apply plentyMemory 5 noopThenCreate none = .ok operation ∧
      ((operationMain operation (courseWith fun _ => false)).Reported noopThenCreate ↔
        (noopThenCreate.dryRun = true ∨
          ¬ CancelPastNoop operation (courseWith fun _ => false) noopThenCreate.diffs)) :=
  ⟨_, rfl, apply_report_iff (show apply plentyMemory 5 noopThenCreate none = .ok _ from rfl) _⟩

/-- Canceled before its first request, the operation reports the create as failed at the
index of the no-op. -/
theorem cancel_reports_noop :
    ∃ operation, apply plentyMemory 5 noopThenCreate none = .ok operation ∧
      (operationMain operation (courseWith fun _ => true)).result.failedPlanIndex = some 0 ∧
      (operationMain operation (courseWith fun _ => true)).result.failedAction = .create ∧
      ¬ (operationMain operation (courseWith fun _ => true)).Reported noopThenCreate := by
  refine ⟨_, rfl, rfl, rfl, ?_⟩
  intro hreported
  obtain ⟨index, diff, hindex, hdiff, hnoop, _⟩ := hreported (by decide)
  obtain rfl : 0 = index := Option.some.inj hindex
  cases hdiff
  exact hnoop rfl

end Dcc.Commands
