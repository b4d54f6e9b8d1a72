import Dcc.Flow.QueueDelivery
import Dcc.Rest.ResourceAccounting

/-!
# The budgets of the response queues

A client bounds what the answers to its interactions may hold.  Every queue is charged for the
identity of its interaction and for each answer that it has admitted, and both levels count: the
queue its actions and bytes, the client those of all its queues.  Three functions admit an answer.
Each charges it before it gets its request handle, appends and projects it before it is submitted,
and takes all that back by itself where a later part fails.

The lock of a queue is held over a whole admission, but the counters of the client are under a
lock of their own, so other queues charge and release in between.  An admission is therefore two
steps here: up to the charge, and from the handle on.

* `ChargedQueue` — a queue with its counters and with the charges of its actions;
* `ChargedQueue.enter` and `ChargedQueue.finish` — the two parts of an admission;
* `Client.step` — one step of any party on any queue of a client;
* `operate_eq` — without the counters, the two parts together are the operation on the queue.
-/

namespace Dcc.Flow

open Rest (highWater decrementOne decrementBytes)

/-! ## The counters -/

/-- The limits of a client on its interactions, as `dcc_client_create` accepts them, and the
bytes of an action with its request handle. -/
structure BudgetLimits where
  maxActionsPerQueue : Nat
  maxReservedBytesPerQueue : Nat
  maxReservedBytesTotal : Nat
  /-- `sizeof(*action) + sizeof(dcc_rest_request_t)`. -/
  storageSize : Nat
  total_lt : maxReservedBytesTotal < wordSize
  perQueue_le_total : maxReservedBytesPerQueue ≤ maxReservedBytesTotal
  storage_pos : 0 < storageSize
  storage_lt : storageSize < wordSize

/-- The counters of the interactions in `dcc_rest_runtime_stats_t`. -/
structure BudgetCounters where
  interactionReservedBytes : Nat
  interactionReservedBytesHighWater : Nat
  interactionActions : Nat
  interactionActionsHighWater : Nat
  rejectedActionsPerQueue : Nat
  rejectedBytesPerQueue : Nat
  rejectedBytesTotal : Nat
  admissionRejections : Nat
  deriving DecidableEq

/-- The counters of a new client. -/
def BudgetCounters.zero : BudgetCounters := ⟨0, 0, 0, 0, 0, 0, 0, 0⟩

/-- The function that admits an action. -/
inductive Admitter
  | enqueue
  | initialResponse
  | deleteOriginal
  deriving DecidableEq

/-- An action that one of the functions has made, with the state it projects. -/
structure Entry where
  admitter : Admitter
  action : Action
  projectedState : FlowState
  deriving DecidableEq

/-- An entry that was charged: its `reserved_bytes`. -/
structure Admission where
  entry : Entry
  reservedBytes : Nat
  deriving DecidableEq

/-- A queue that is being created, one that is there, and one that was freed. -/
inductive Stage
  | opening
  | live
  | gone
  deriving DecidableEq

/-- `dcc_app_interaction_queue_t` with its counters. -/
structure ChargedQueue where
  stage : Stage
  queue : Queue
  identityCharge : Nat
  actionCount : Nat
  reservedBytes : Nat
  /-- The `reserved_bytes` of the actions that were admitted, in the order of their numbers. -/
  charges : List Nat
  /-- The admission that holds the lock of the queue. -/
  admission : Option Admission
  /-- The dependent whose result a hook has delivered, and whose charge it has still to release. -/
  settling : Option Action

/-- `dcc_app_interaction_action_reserve`. -/
def actionReserve (limits : BudgetLimits) (c : BudgetCounters) (q : ChargedQueue) (bytes : Nat) :
    Status × BudgetCounters × ChargedQueue :=
  if limits.maxActionsPerQueue ≤ q.actionCount then
    (.resourceLimit,
      { c with
        rejectedActionsPerQueue := increment c.rejectedActionsPerQueue
        admissionRejections := increment c.admissionRejections }, q)
  else if wordSub limits.maxReservedBytesPerQueue q.reservedBytes < bytes then
    (.resourceLimit,
      { c with
        rejectedBytesPerQueue := increment c.rejectedBytesPerQueue
        admissionRejections := increment c.admissionRejections }, q)
  else if wordSub limits.maxReservedBytesTotal c.interactionReservedBytes < bytes then
    (.resourceLimit,
      { c with
        rejectedBytesTotal := increment c.rejectedBytesTotal
        admissionRejections := increment c.admissionRejections }, q)
  else
    let reserved := wordAdd c.interactionReservedBytes bytes
    let actions := wordAdd c.interactionActions 1
    (.ok,
      { c with
        interactionReservedBytes := reserved
        interactionReservedBytesHighWater := highWater reserved c.interactionReservedBytesHighWater
        interactionActions := actions
        interactionActionsHighWater := highWater actions c.interactionActionsHighWater },
      { q with
        actionCount := wordAdd q.actionCount 1
        reservedBytes := wordAdd q.reservedBytes bytes })

/-- `dcc_app_interaction_action_release`. -/
def actionRelease (c : BudgetCounters) (q : ChargedQueue) (bytes : Nat) :
    BudgetCounters × ChargedQueue :=
  ({ c with
      interactionReservedBytes := decrementBytes c.interactionReservedBytes bytes
      interactionActions := decrementOne c.interactionActions },
    { q with
      actionCount := decrementOne q.actionCount
      reservedBytes := decrementBytes q.reservedBytes bytes })

/-- The lengths of the path and the body of a request. -/
structure RequestSizes where
  pathLen : Nat
  bodyLen : Option Nat

/-- The bytes of a body with its terminator, where there is one. -/
def RequestSizes.bodyBytes (sizes : RequestSizes) : Nat :=
  match sizes.bodyLen with
  | some bodyLen => wordAdd bodyLen 1
  | none => 0

/-- `dcc_app_interaction_action_measure`, for an action with a path. -/
def actionMeasure (limits : BudgetLimits) (sizes : RequestSizes) : Except Status Nat :=
  let charge := limits.storageSize
  let pathBytes := wordAdd sizes.pathLen 1
  let bodyBytes := sizes.bodyBytes
  if wordSub wordMax charge < pathBytes ∨
      wordSub (wordSub wordMax charge) pathBytes < bodyBytes then
    .error .resourceLimit
  else .ok (wordAdd (wordAdd charge pathBytes) bodyBytes)

/-! ## The three functions that admit an action -/

/-- `dcc_app_interaction_queue_enqueue`, up to the charge. -/
def Queue.prepareEnqueue (q : Queue) (kind : Option Kind) (projectedState : FlowState)
    (message : Bool) (env : Environment) : Except Status Entry :=
  if !env.optionsValid then .error .invalidArg
  else if !env.allocated then .error .nomem
  else if q.failed || q.ownerDestroyed then .error .state
  else
    let (kind, projectedState) := q.resolve kind projectedState
    if (kind.isInitial && q.initialAdmitted) ||
        (kind == .editOriginal && !q.projectedOriginalExists) ||
        (kind == .followup && !q.initialAdmitted) || (!message && kind.needsMessage) then
      .error (if !message && kind.needsMessage then .invalidArg else .state)
    else if env.built ≠ .ok then .error env.built
    else
      .ok
        { admitter := .enqueue
          action := q.enqueueAction kind projectedState
          projectedState }

/-- `dcc_app_interaction_queue_initial_response`, up to the charge. -/
def Queue.prepareInitialResponse (q : Queue) (type : ResponseType) (terminalState : FlowState)
    (env : Environment) : Except Status Entry :=
  if q.initialAdmitted then .error .state
  else if !env.allocated then .error .nomem
  else if env.built ≠ .ok then .error env.built
  else if q.failed || q.ownerDestroyed || q.initialAdmitted then .error .state
  else
    .ok
      { admitter := .initialResponse
        action :=
          { number := q.admitted.length
            method := .post
            path := .callback
            body := .response type
            kind := .response
            isInitial := true
            terminalState
            terminalOriginalExists := decide (type ≠ .autocomplete ∧ type ≠ .modal) }
        projectedState := terminalState }

/-- `dcc_app_interaction_queue_delete_original`, up to the charge. -/
def Queue.prepareDeleteOriginal (q : Queue) (env : Environment) : Except Status Entry :=
  if !env.allocated then .error .nomem
  else if q.failed || q.ownerDestroyed || !q.projectedOriginalExists then .error .state
  else if env.built ≠ .ok then .error env.built
  else
    .ok
      { admitter := .deleteOriginal
        action :=
          { number := q.admitted.length
            method := .delete
            path := .original
            body := .none
            kind := .deleteOriginal
            isInitial := false
            terminalState := q.projectedState
            terminalOriginalExists := false }
        projectedState := q.projectedState }

/-- An operation, up to the charge. -/
def Queue.prepare (q : Queue) (env : Environment) : Operation → Except Status Entry
  | .reply message => q.prepareEnqueue none .ready message env
  | .editOriginal message => q.prepareEnqueue (some .editOriginal) .originalEdited message env
  | .followup message => q.prepareEnqueue (some .followup) .followedUp message env
  | .defer ephemeral update =>
    q.prepareEnqueue
      (some (if update then .deferUpdate else if ephemeral then .deferEphemeral else .defer))
      (if update then .deferredUpdate else if ephemeral then .deferredEphemeral else .deferred)
      false env
  | .updateMessage => q.prepareInitialResponse .updateMessage .replied env
  | .showModal => q.prepareInitialResponse .modal .modal env
  | .replyAutocomplete => q.prepareInitialResponse .autocomplete .replied env
  | .deleteOriginal => q.prepareDeleteOriginal env

/-- The end of `dcc_app_interaction_queue_enqueue`, from the list on. -/
def Queue.finishEnqueue (q : Queue) (action : Action) (projectedState : FlowState)
    (submit : Status) : Status × Queue :=
  let previous := q.projectedState
  let previousOriginalExists := q.projectedOriginalExists
  let (status, q) := { q with
    actions := q.actions ++ [action]
    projectedState
    projectedOriginalExists := action.terminalOriginalExists }.submitHead submit
  if status ≠ .ok then
    (status, { q with
      actions := []
      projectedState := previous
      projectedOriginalExists := previousOriginalExists })
  else
    (status, { q with
      initialAdmitted := if action.isInitial then true else q.initialAdmitted
      admitted := q.admitted ++ [action] })

/-- The end of `dcc_app_interaction_queue_initial_response`. -/
def Queue.finishInitialResponse (q : Queue) (action : Action) (terminalState : FlowState)
    (submit : Status) : Status × Queue :=
  let previous := q.projectedState
  let previousOriginalExists := q.projectedOriginalExists
  let (status, q) := { q with
    actions := q.actions ++ [action]
    projectedState := terminalState
    projectedOriginalExists := action.terminalOriginalExists }.submitHead submit
  if status = .ok then
    (status, { q with initialAdmitted := true, admitted := q.admitted ++ [action] })
  else
    (status, { q with
      actions := []
      projectedState := previous
      projectedOriginalExists := previousOriginalExists })

/-- The end of `dcc_app_interaction_queue_delete_original`: the projected state stays as it is,
and the original message is there again after a failure. -/
def Queue.finishDeleteOriginal (q : Queue) (action : Action) (submit : Status) : Status × Queue :=
  let (status, q) := { q with
    actions := q.actions ++ [action]
    projectedOriginalExists := false }.submitHead submit
  if status ≠ .ok then (status, { q with actions := [], projectedOriginalExists := true })
  else (status, { q with admitted := q.admitted ++ [action] })

/-- The end of the function that has made an entry. -/
def Queue.finish (q : Queue) (entry : Entry) (submit : Status) : Status × Queue :=
  match entry.admitter with
  | .enqueue => q.finishEnqueue entry.action entry.projectedState submit
  | .initialResponse => q.finishInitialResponse entry.action entry.projectedState submit
  | .deleteOriginal => q.finishDeleteOriginal entry.action submit

/-- The first part of an admission: everything up to the charge. -/
def ChargedQueue.enter (limits : BudgetLimits) (c : BudgetCounters) (q : ChargedQueue)
    (env : Environment) (operation : Operation) (sizes : RequestSizes) :
    Status × BudgetCounters × ChargedQueue :=
  match q.queue.prepare env operation with
  | .error status => (status, c, q)
  | .ok entry =>
    match actionMeasure limits sizes with
    | .error status => (status, c, q)
    | .ok bytes =>
      let (status, c, q) := actionReserve limits c q bytes
      if status ≠ .ok then (status, c, q)
      else (status, c, { q with admission := some { entry, reservedBytes := bytes } })

/-- The second part of an admission: the request handle, the list and the submission; `storage`
is the status of the handle. -/
def ChargedQueue.finish (c : BudgetCounters) (q : ChargedQueue) (admission : Admission)
    (storage submit : Status) : Status × BudgetCounters × ChargedQueue :=
  if storage ≠ .ok then
    let (c, q) := actionRelease c q admission.reservedBytes
    (storage, c, { q with admission := none })
  else
    let (status, queue) := q.queue.finish admission.entry submit
    if status ≠ .ok then
      let (c, q) := actionRelease c { q with queue } admission.reservedBytes
      (status, c, { q with admission := none })
    else
      (status, c,
        { q with queue, charges := q.charges ++ [admission.reservedBytes], admission := none })

/-! ## Steps -/

/-- The bytes that are charged for an action. -/
def ChargedQueue.charge (q : ChargedQueue) (action : Action) : Nat :=
  q.charges.getD action.number 0

/-- What can happen next to a queue. -/
inductive QueueMove
  /-- The rest of `dcc_app_interaction_queue_create`, with the storage and the mutex. -/
  | created (status : Status)
  | enter (env : Environment) (operation : Operation) (sizes : RequestSizes)
  | finish (storage submit : Status)
  /-- A step of the queue other than an admission. -/
  | move (move : Move)
  /-- A hook releases the charge of the dependent it has failed. -/
  | settle
  /-- `dcc_app_interaction_queue_finalize`. -/
  | finalize

/-- A cancellation, which does not take the lock of the queue. -/
def Move.isCancel : Move → Bool
  | .cancel _ => true
  | _ => false

/-- A step of the queue other than an admission: the hook after a result releases the charge of
the action at once, and the charges of the dependents one after the other. -/
def ChargedQueue.move (c : BudgetCounters) (q : ChargedQueue) (move : Move) :
    BudgetCounters × ChargedQueue :=
  match move with
  | .operate _ _ => (c, q)
  | .post index _ =>
    match q.queue.outstanding[index]? with
    | some { action, result := some _ } =>
      actionRelease c { q with queue := q.queue.step move } (q.charge action)
    | _ => (c, q)
  | .deliver index =>
    match q.queue.hooks[index]? with
    | some { dependents := action :: _, .. } =>
      if q.settling.isSome then (c, q)
      else (c, { q with queue := q.queue.step move, settling := some action })
    | _ => (c, q)
  | .leave index =>
    match q.queue.hooks[index]? with
    | some { flushed, .. } =>
      if flushed && q.settling.isSome then (c, q)
      else (c, { q with queue := q.queue.step move })
    | _ => (c, q)
  | _ => (c, { q with queue := q.queue.step move })

/-- `dcc_app_interaction_queue_finalize`: the actions that are left and the identity. -/
def ChargedQueue.finalize (c : BudgetCounters) (q : ChargedQueue) :
    BudgetCounters × ChargedQueue :=
  let (c, q) := q.queue.actions.foldl
    (fun (c, q) action => actionRelease c q (q.charge action)) (c, q)
  ({ c with
      interactionReservedBytes := decrementBytes c.interactionReservedBytes q.identityCharge },
    { q with stage := .gone })

/-- One step of a queue.  A step that is not possible changes nothing; while an admission is under
way, that is every step that takes the lock of the queue. -/
def ChargedQueue.step (limits : BudgetLimits) (c : BudgetCounters) (q : ChargedQueue) :
    QueueMove → BudgetCounters × ChargedQueue
  | .created status =>
    if q.stage ≠ .opening then (c, q)
    else if status ≠ .ok then
      ({ c with
          interactionReservedBytes := wordSub c.interactionReservedBytes q.identityCharge },
        { q with stage := .gone })
    else (c, { q with stage := .live, reservedBytes := q.identityCharge })
  | .enter env operation sizes =>
    if q.stage = .live ∧ q.queue.finalized = 0 ∧ q.admission = none then
      (q.enter limits c env operation sizes).2
    else (c, q)
  | .finish storage submit =>
    match q.admission with
    | some admission => (q.finish c admission storage submit).2
    | none => (c, q)
  | .move move =>
    if q.stage = .live ∧ q.queue.finalized = 0 ∧ (q.admission = none ∨ move.isCancel) then
      q.move c move
    else (c, q)
  | .settle =>
    match q.settling, q.admission with
    | some action, none =>
      let (c, q) := actionRelease c q (q.charge action)
      (c, { q with settling := none })
    | _, _ => (c, q)
  | .finalize => if q.stage = .live ∧ q.queue.finalized ≠ 0 then q.finalize c else (c, q)

/-- A queue whose identity was charged, before it has its storage. -/
def ChargedQueue.opening (identityCharge : Nat) : ChargedQueue where
  stage := .opening
  queue := Queue.create
  identityCharge
  actionCount := 0
  reservedBytes := 0
  charges := []
  admission := none
  settling := none

/-- A client: its counters, and its queues in the order of their creation. -/
structure Client where
  counters : BudgetCounters
  queues : List ChargedQueue

/-- A new client. -/
def Client.create : Client := ⟨.zero, []⟩

/-- The first part of `dcc_app_interaction_queue_create`: the charge for the identity. -/
def Client.openQueue (limits : BudgetLimits) (s : Client) (identityCharge : Nat) :
    Status × Client :=
  let c := s.counters
  if identityCharge = 0 then (.invalidArg, s)
  else if limits.maxReservedBytesPerQueue < identityCharge ∨
      wordSub limits.maxReservedBytesTotal c.interactionReservedBytes < identityCharge then
    (.resourceLimit, { s with counters :=
      if limits.maxReservedBytesPerQueue < identityCharge then
        { c with
          rejectedBytesPerQueue := increment c.rejectedBytesPerQueue
          admissionRejections := increment c.admissionRejections }
      else
        { c with
          rejectedBytesTotal := increment c.rejectedBytesTotal
          admissionRejections := increment c.admissionRejections } })
  else
    let reserved := wordAdd c.interactionReservedBytes identityCharge
    (.ok,
      { counters :=
          { c with
            interactionReservedBytes := reserved
            interactionReservedBytesHighWater :=
              highWater reserved c.interactionReservedBytesHighWater }
        queues := s.queues ++ [.opening identityCharge] })

/-- What can happen next to a client. -/
inductive ClientMove
  | openQueue (identityCharge : Nat)
  | queue (index : Nat) (move : QueueMove)

/-- One step of a client. -/
def Client.step (limits : BudgetLimits) (s : Client) : ClientMove → Client
  | .openQueue identityCharge => (s.openQueue limits identityCharge).2
  | .queue index move =>
    match s.queues[index]? with
    | some q =>
      let (counters, q) := q.step limits s.counters move
      { counters, queues := s.queues.set index q }
    | none => s

/-! ## The three functions do the same to a queue -/

theorem submitHead_projectedState (q : Queue) (submit : Status) :
    (q.submitHead submit).2.projectedState = q.projectedState := by
  rw [Queue.submitHead]
  split
  · rfl
  · split_ifs <;> rfl

/-- What an entry has by the function that made it. -/
def Entry.Fits (entry : Entry) (q : Queue) : Prop :=
  match entry.admitter with
  | .enqueue => True
  | .initialResponse => entry.action.isInitial = true
  | .deleteOriginal =>
    entry.action.isInitial = false ∧ entry.action.terminalOriginalExists = false ∧
      entry.projectedState = q.projectedState ∧ q.projectedOriginalExists = true

/-- **The ends of the three functions agree**, with their three ways to take an action back. -/
theorem finish_eq_push {q : Queue} {entry : Entry} (h : entry.Fits q) (submit : Status) :
    q.finish entry submit = q.push entry.action entry.projectedState submit := by
  obtain ⟨admitter, action, projectedState⟩ := entry
  cases admitter with
  | enqueue =>
    cases hinitial : action.isInitial <;>
      simp [Queue.finish, Queue.finishEnqueue, Queue.push, hinitial]
  | initialResponse =>
    have hinitial : action.isInitial = true := h
    simp only [Queue.finish, Queue.finishInitialResponse, Queue.push, hinitial, Bool.or_true]
    split_ifs <;> first | rfl | contradiction
  | deleteOriginal =>
    obtain ⟨hinitial, hafter, hstate, hexists⟩ := h
    simp only at hinitial hafter hstate
    subst hstate
    have hkept := submitHead_projectedState
      { q with actions := q.actions ++ [action], projectedOriginalExists := false } submit
    simp only [Queue.finish, Queue.finishDeleteOriginal, Queue.push, hinitial, hafter, hexists,
      Bool.or_false]
    generalize Queue.submitHead _ submit = outcome at hkept ⊢
    split_ifs
    · rw [← hkept]
    · rfl

/-- What follows on a first part, without the counters. -/
def Queue.complete (q : Queue) (env : Environment) (prepared : Except Status Entry) :
    Status × Queue :=
  match prepared with
  | .error status => (status, q)
  | .ok entry =>
    if env.storage ≠ .ok then (env.storage, q)
    else q.push entry.action entry.projectedState env.submit

theorem enqueue_eq (q : Queue) (kind : Option Kind) (projectedState : FlowState) (message : Bool)
    (env : Environment) : q.enqueue kind projectedState message env =
      q.complete env (q.prepareEnqueue kind projectedState message env) := by
  simp only [Queue.enqueue, Queue.prepareEnqueue]
  split_ifs <;> simp_all [Queue.complete]

theorem initialResponse_eq (q : Queue) (type : ResponseType) (terminalState : FlowState)
    (env : Environment) : q.initialResponse type terminalState env =
      q.complete env (q.prepareInitialResponse type terminalState env) := by
  simp only [Queue.initialResponse, Queue.prepareInitialResponse]
  split_ifs <;> simp_all [Queue.complete]

theorem deleteOriginal_eq (q : Queue) (env : Environment) :
    q.deleteOriginal env = q.complete env (q.prepareDeleteOriginal env) := by
  simp only [Queue.deleteOriginal, Queue.prepareDeleteOriginal]
  split_ifs <;> simp_all [Queue.complete]

/-- **An operation is its two parts**: what it does to a queue where its storage is charged. -/
theorem operate_eq (q : Queue) (env : Environment) (operation : Operation) :
    q.operate env operation = q.complete env (q.prepare env operation) := by
  cases operation with
  | reply message => exact enqueue_eq q none .ready message env
  | editOriginal message => exact enqueue_eq q (some .editOriginal) .originalEdited message env
  | followup message => exact enqueue_eq q (some .followup) .followedUp message env
  | defer ephemeral update => exact enqueue_eq q (some _) _ false env
  | updateMessage => exact initialResponse_eq q .updateMessage .replied env
  | showModal => exact initialResponse_eq q .modal .modal env
  | replyAutocomplete => exact initialResponse_eq q .autocomplete .replied env
  | deleteOriginal => exact deleteOriginal_eq q env

end Dcc.Flow
