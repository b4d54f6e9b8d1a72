import Dcc.Basic
import Dcc.Lib.Reach
import Mathlib.Data.List.Count
import Mathlib.Data.List.Perm.Basic

/-!
# The response queue of an interaction

Everything an application answers to one interaction goes through a queue: one request at a time
is with the REST runtime, and the others wait.  An answer is admitted by what the queue will have
done by then, the projected state.  A request that fails takes those that wait with it.

What the code does under the lock of the queue is one step here.  Callers admit answers, timers
and the owner hold references, and the REST runtime delivers the results; the hook that runs after
a result submits the next request, or delivers failures to all the others.

* `Queue` — the queue with the requests and hooks that are on their way;
* `Queue.step` — one step of any party;
* `phase_step` — at most one request is with the runtime, and it is the head of the queue.
-/

namespace Dcc.Flow

/-- `dcc_interaction_flow_state_t`. -/
inductive FlowState
  | ready
  | deferred
  | deferredEphemeral
  | deferredUpdate
  | replied
  | originalEdited
  | followedUp
  | modal
  | failed
  | initialQueued
  | deferredQueued
  deriving DecidableEq

/-- `dcc_interaction_response_type_t`. -/
inductive ResponseType
  | pong
  | channelMessage
  | deferredChannelMessage
  | deferredUpdateMessage
  | updateMessage
  | autocomplete
  | modal
  | premiumRequired
  | launchActivity
  deriving DecidableEq

/-- The kinds of actions, in the order of their numbers. -/
inductive Kind
  | message
  | editOriginal
  | followup
  | defer
  | deferEphemeral
  | deferUpdate
  | response
  | deleteOriginal
  deriving DecidableEq

/-- The methods of the requests. -/
inductive Method
  | post
  | patch
  | delete
  deriving DecidableEq

/-- The paths of the requests: the callback of the interaction, its original message, and its
webhook. -/
inductive Path
  | callback
  | original
  | webhook
  deriving DecidableEq

/-- What the body of a request says. -/
inductive Body
  | none
  | message
  | response (type : ResponseType)
  deriving DecidableEq

/-- `dcc_app_interaction_action_t`, with the number of its admission. -/
structure Action where
  number : Nat
  method : Method
  path : Path
  body : Body
  kind : Kind
  isInitial : Bool
  terminalState : FlowState
  terminalOriginalExists : Bool
  deriving DecidableEq

/-- A request that the REST runtime has, and its result once that was delivered. -/
structure Outstanding where
  action : Action
  result : Option Status
  deriving DecidableEq

/-- A hook that runs after a result: the actions it has to fail with the status of the next one,
and whether it began with any. -/
structure Hook where
  dependents : List Action
  status : Status
  flushed : Bool
  deriving DecidableEq

/-- A terminal result that was delivered for an action. -/
structure Delivery where
  number : Nat
  status : Status
  synthetic : Bool
  deriving DecidableEq

/-- `dcc_app_interaction_queue_t`, with the requests and hooks that are on their way, and what
was admitted, submitted and delivered so far. -/
structure Queue where
  actions : List Action
  active : Bool
  failed : Bool
  ownerDestroyed : Bool
  initialAdmitted : Bool
  committedOriginalExists : Bool
  projectedOriginalExists : Bool
  committedState : FlowState
  projectedState : FlowState
  references : Nat
  /-- The timers that have not released their reference. -/
  timers : Nat
  /-- The actions whose cancellation was requested. -/
  canceled : List Nat
  outstanding : List Outstanding
  hooks : List Hook
  admitted : List Action
  submitted : List Action
  delivered : List Delivery
  /-- How often the queue was finalized. -/
  finalized : Nat

/-- `dcc_app_interaction_queue_create`, where there is room. -/
def Queue.create : Queue where
  actions := []
  active := false
  failed := false
  ownerDestroyed := false
  initialAdmitted := false
  committedOriginalExists := false
  projectedOriginalExists := false
  committedState := .ready
  projectedState := .ready
  references := 1
  timers := 0
  canceled := []
  outstanding := []
  hooks := []
  admitted := []
  submitted := []
  delivered := []
  finalized := 0

/-! ## Admission -/

/-- `dcc_app_interaction_queue_submit_head`; `submit` is what the REST runtime says to the
request. -/
def Queue.submitHead (q : Queue) (submit : Status) : Status × Queue :=
  match q.actions with
  | [] => (.ok, q)
  | action :: _ =>
    if q.active then (.ok, q)
    else if q.canceled.contains action.number then (.canceled, q)
    else if submit = .ok then
      (.ok, { q with
        active := true
        outstanding := q.outstanding ++ [{ action, result := none }]
        submitted := q.submitted ++ [action] })
    else (submit, q)

/-- The end of the three functions that admit an action: it is appended and projected, and all
that is taken back where it cannot be submitted. -/
def Queue.push (q : Queue) (action : Action) (projectedState : FlowState) (submit : Status) :
    Status × Queue :=
  let queued := { q with
    actions := q.actions ++ [action]
    projectedState
    projectedOriginalExists := action.terminalOriginalExists }
  let (status, queued) := queued.submitHead submit
  if status ≠ .ok then
    (status, { queued with
      actions := []
      projectedState := q.projectedState
      projectedOriginalExists := q.projectedOriginalExists })
  else
    (status, { queued with
      initialAdmitted := queued.initialAdmitted || action.isInitial
      admitted := queued.admitted ++ [action] })

/-- What the rest of the library says to an action: whether its options are valid and there is
memory, and the statuses of its path and body, of the storage for it, and of its submission. -/
structure Environment where
  optionsValid : Bool
  allocated : Bool
  built : Status
  storage : Status
  submit : Status

/-- Nothing stands in the way of an action. -/
def Environment.fine : Environment where
  optionsValid := true
  allocated := true
  built := .ok
  storage := .ok
  submit := .ok

/-- The kind of an action and the state that it projects; a reply has none before. -/
def Queue.resolve (q : Queue) (kind : Option Kind) (projectedState : FlowState) :
    Kind × FlowState :=
  match kind with
  | some kind => (kind, projectedState)
  | none =>
    if !q.initialAdmitted then (.message, .replied)
    else if (q.projectedState = .deferred ∨ q.projectedState = .deferredEphemeral ∨
        q.projectedState = .deferredUpdate) ∧ q.projectedOriginalExists then
      (.editOriginal, .originalEdited)
    else (.followup, .followedUp)

/-- The actions that answer the interaction for the first time. -/
def Kind.isInitial : Kind → Bool
  | .editOriginal | .followup => false
  | _ => true

/-- The actions that carry a message. -/
def Kind.needsMessage : Kind → Bool
  | .message | .editOriginal | .followup => true
  | _ => false

/-- The path of an action, in `dcc_app_interaction_queue_path`. -/
def Kind.path : Kind → Path
  | .editOriginal | .deleteOriginal => .original
  | .followup => .webhook
  | _ => .callback

/-- What the body of an action says. -/
def Kind.body : Kind → Body
  | .message => .response .channelMessage
  | .editOriginal | .followup => .message
  | .defer | .deferEphemeral => .response .deferredChannelMessage
  | _ => .response .deferredUpdateMessage

/-- The action that `dcc_app_interaction_queue_enqueue` makes. -/
def Queue.enqueueAction (q : Queue) (kind : Kind) (projectedState : FlowState) : Action where
  number := q.admitted.length
  method := if kind = .editOriginal then .patch else .post
  path := kind.path
  body := kind.body
  kind := kind
  isInitial := kind.isInitial
  terminalState := projectedState
  terminalOriginalExists := if kind.isInitial then true else q.projectedOriginalExists

/-- `dcc_app_interaction_queue_enqueue`; the kind of a reply is `none`. -/
def Queue.enqueue (q : Queue) (kind : Option Kind) (projectedState : FlowState) (message : Bool)
    (env : Environment) : Status × Queue :=
  if !env.optionsValid then (.invalidArg, q)
  else if !env.allocated then (.nomem, q)
  else if q.failed || q.ownerDestroyed then (.state, q)
  else
    let (kind, projectedState) := q.resolve kind projectedState
    if (kind.isInitial && q.initialAdmitted) ||
        (kind == .editOriginal && !q.projectedOriginalExists) ||
        (kind == .followup && !q.initialAdmitted) || (!message && kind.needsMessage) then
      (if !message && kind.needsMessage then .invalidArg else .state, q)
    else if env.built ≠ .ok then (env.built, q)
    else if env.storage ≠ .ok then (env.storage, q)
    else q.push (q.enqueueAction kind projectedState) projectedState env.submit

/-- `dcc_app_interaction_queue_initial_response`. -/
def Queue.initialResponse (q : Queue) (type : ResponseType) (terminalState : FlowState)
    (env : Environment) : Status × Queue :=
  if q.initialAdmitted then (.state, q)
  else if !env.allocated then (.nomem, q)
  else if env.built ≠ .ok then (env.built, q)
  else if q.failed || q.ownerDestroyed || q.initialAdmitted then (.state, q)
  else if env.storage ≠ .ok then (env.storage, q)
  else
    q.push
      { number := q.admitted.length
        method := .post
        path := .callback
        body := .response type
        kind := .response
        isInitial := true
        terminalState
        terminalOriginalExists := decide (type ≠ .autocomplete ∧ type ≠ .modal) }
      terminalState env.submit

/-- `dcc_app_interaction_queue_delete_original`. -/
def Queue.deleteOriginal (q : Queue) (env : Environment) : Status × Queue :=
  if !env.allocated then (.nomem, q)
  else if q.failed || q.ownerDestroyed || !q.projectedOriginalExists then (.state, q)
  else if env.built ≠ .ok then (env.built, q)
  else if env.storage ≠ .ok then (env.storage, q)
  else
    q.push
      { number := q.admitted.length
        method := .delete
        path := .original
        body := .none
        kind := .deleteOriginal
        isInitial := false
        terminalState := q.projectedState
        terminalOriginalExists := false }
      q.projectedState env.submit

/-- The operations of an interaction. -/
inductive Operation
  /-- `dcc_app_interaction_queue_reply`. -/
  | reply (message : Bool)
  /-- `dcc_app_interaction_queue_edit_original`. -/
  | editOriginal (message : Bool)
  /-- `dcc_app_interaction_queue_followup`. -/
  | followup (message : Bool)
  /-- `dcc_app_interaction_queue_defer`; the timer that defers an interaction by itself makes it
  too, and releases its reference afterwards. -/
  | defer (ephemeral update : Bool)
  /-- `dcc_ctx_update_message`. -/
  | updateMessage
  /-- `dcc_flow_show_modal`. -/
  | showModal
  /-- `dcc_ctx_reply_autocomplete`. -/
  | replyAutocomplete
  /-- `dcc_ctx_delete_original`. -/
  | deleteOriginal

/-- An operation on the queue. -/
def Queue.operate (q : Queue) (env : Environment) : Operation → Status × Queue
  | .reply message => q.enqueue none .ready message env
  | .editOriginal message => q.enqueue (some .editOriginal) .originalEdited message env
  | .followup message => q.enqueue (some .followup) .followedUp message env
  | .defer ephemeral update =>
    q.enqueue
      (some (if update then .deferUpdate else if ephemeral then .deferEphemeral else .defer))
      (if update then .deferredUpdate else if ephemeral then .deferredEphemeral else .deferred)
      false env
  | .updateMessage => q.initialResponse .updateMessage .replied env
  | .showModal => q.initialResponse .modal .modal env
  | .replyAutocomplete => q.initialResponse .autocomplete .replied env
  | .deleteOriginal => q.deleteOriginal env

/-! ## Results -/

/-- `dcc_app_interaction_queue_result`: the states follow the result of an action, and its
callback gets the result. -/
def Queue.result (q : Queue) (action : Action) (status : Status) (synthetic : Bool) : Queue :=
  let delivered := q.delivered ++ [{ number := action.number, status, synthetic }]
  if status ≠ .ok then
    { q with failed := true, committedState := .failed, projectedState := .failed, delivered }
  else
    { q with committedState := action.terminalState
             committedOriginalExists := action.terminalOriginalExists, delivered }

section ResultFields

variable (q : Queue) (action : Action) (status : Status) (synthetic : Bool)

@[simp] theorem result_outstanding :
    (q.result action status synthetic).outstanding = q.outstanding := by
  rw [Queue.result]
  split <;> rfl

@[simp] theorem result_actions :
    (q.result action status synthetic).actions = q.actions := by
  rw [Queue.result]
  split <;> rfl

@[simp] theorem result_active :
    (q.result action status synthetic).active = q.active := by
  rw [Queue.result]
  split <;> rfl

@[simp] theorem result_hooks :
    (q.result action status synthetic).hooks = q.hooks := by
  rw [Queue.result]
  split <;> rfl

@[simp] theorem result_submitted :
    (q.result action status synthetic).submitted = q.submitted := by
  rw [Queue.result]
  split <;> rfl

@[simp] theorem result_admitted :
    (q.result action status synthetic).admitted = q.admitted := by
  rw [Queue.result]
  split <;> rfl

@[simp] theorem result_references :
    (q.result action status synthetic).references = q.references := by
  rw [Queue.result]
  split <;> rfl

@[simp] theorem result_timers :
    (q.result action status synthetic).timers = q.timers := by
  rw [Queue.result]
  split <;> rfl

@[simp] theorem result_ownerDestroyed :
    (q.result action status synthetic).ownerDestroyed = q.ownerDestroyed := by
  rw [Queue.result]
  split <;> rfl

@[simp] theorem result_finalized :
    (q.result action status synthetic).finalized = q.finalized := by
  rw [Queue.result]
  split <;> rfl

@[simp] theorem result_delivered :
    (q.result action status synthetic).delivered =
      q.delivered ++ [{ number := action.number, status, synthetic }] := by
  rw [Queue.result]
  split <;> rfl

@[simp] theorem result_failed :
    (q.result action status synthetic).failed = (q.failed || decide (status ≠ .ok)) := by
  rw [Queue.result]
  by_cases hstatus : status = .ok <;> simp [hstatus]

end ResultFields

/-- The end of everything that drops a reference: the queue is finalized where it was the last
one and nothing is left to do. -/
def Queue.finalizeUnused (q : Queue) : Queue :=
  if q.references = 0 ∧ q.active = false ∧ q.actions = [] then
    { q with finalized := q.finalized + 1 }
  else q

/-- The status of the first action that a failed one takes with it. -/
def dependentStatus (terminal : Status) : Status :=
  if terminal = .canceled then .canceled else .state

/-- The first section of `dcc_app_interaction_queue_post_result`, for the action of a result. -/
def Queue.postResult (q : Queue) (action : Action) (terminal submit : Status) : Queue :=
  let rest := if q.actions.head? = some action then q.actions.tail else q.actions
  let q := { q with references := q.references + 1, actions := rest, active := false }
  if terminal ≠ .ok then
    { q with
      actions := []
      active := !rest.isEmpty
      hooks :=
        { dependents := rest, status := dependentStatus terminal, flushed := !rest.isEmpty } ::
          q.hooks }
  else if rest ≠ [] ∧ q.failed = false then
    let (admission, q) := q.submitHead submit
    if admission ≠ .ok then
      { q with
        failed := true
        actions := []
        active := true
        hooks := { dependents := rest, status := admission, flushed := true } :: q.hooks }
    else { q with hooks := { dependents := [], status := .state, flushed := false } :: q.hooks }
  else { q with hooks := { dependents := [], status := .state, flushed := false } :: q.hooks }

/-- The last section of `dcc_app_interaction_queue_post_result`. -/
def Queue.leaveHook (q : Queue) (flushed : Bool) : Queue :=
  { q with active := if flushed then false else q.active
           references := q.references - 1 }.finalizeUnused

/-- `dcc_app_interaction_queue_mark`. -/
def Queue.mark (q : Queue) (state : FlowState) (status : Status) (initial : Bool) : Queue :=
  let next := if status = .ok then state else .failed
  let q := { q with committedState := next, projectedState := next }
  if status ≠ .ok then { q with failed := true }
  else
    let q := { q with initialAdmitted := q.initialAdmitted || initial }
    if state = .deferred ∨ state = .deferredEphemeral ∨ state = .deferredUpdate ∨
        state = .replied ∨ state = .originalEdited then
      { q with committedOriginalExists := true, projectedOriginalExists := true }
    else q

/-- `dcc_app_interaction_queue_release_owner`. -/
def Queue.releaseOwner (q : Queue) : Queue :=
  if q.ownerDestroyed then q.finalizeUnused
  else { q with ownerDestroyed := true, references := q.references - 1 }.finalizeUnused

/-- `dcc_app_interaction_queue_retain_timer`. -/
def Queue.retainTimer (q : Queue) : Status × Queue :=
  if q.ownerDestroyed ∨ q.references = wordMax then (.state, q)
  else (.ok, { q with references := q.references + 1, timers := q.timers + 1 })

/-- `dcc_app_interaction_queue_release_timer`, by a timer with a reference. -/
def Queue.releaseTimer (q : Queue) : Queue :=
  { q with references := q.references - 1, timers := q.timers - 1 }.finalizeUnused

/-! ## Steps -/

/-- What can happen next. -/
inductive Move
  | operate (env : Environment) (operation : Operation)
  /-- `dcc_rest_request_cancel` for an action. -/
  | cancel (number : Nat)
  | mark (state : FlowState) (status : Status) (initial : Bool)
  | releaseOwner
  | retainTimer
  | releaseTimer
  /-- The REST runtime has the result of a request. -/
  | result (index : Nat) (status : Status)
  /-- The hook begins after the result of a request. -/
  | post (index : Nat) (submit : Status)
  /-- A hook fails the next of its dependents. -/
  | deliver (index : Nat)
  /-- A hook ends. -/
  | leave (index : Nat)

/-- One step of a queue.  A step that is not possible changes nothing. -/
def Queue.move (q : Queue) : Move → Queue
  | .operate env operation => (q.operate env operation).2
  | .cancel number =>
    if number < q.admitted.length then { q with canceled := number :: q.canceled } else q
  | .mark state status initial => q.mark state status initial
  | .releaseOwner => q.releaseOwner
  | .retainTimer => q.retainTimer.2
  | .releaseTimer => if q.timers = 0 then q else q.releaseTimer
  | .result index status =>
    match q.outstanding[index]? with
    | some { action, result := none } =>
      { q with outstanding :=
          { action, result := some status } :: q.outstanding.eraseIdx index }.result
        action status false
    | _ => q
  | .post index submit =>
    match q.outstanding[index]? with
    | some { action, result := some terminal } =>
      { q with outstanding := q.outstanding.eraseIdx index }.postResult action terminal submit
    | _ => q
  | .deliver index =>
    match q.hooks[index]? with
    | some { dependents := action :: dependents, status, flushed } =>
      { q with hooks :=
          { dependents, status := .state, flushed } :: q.hooks.eraseIdx index }.result
        action status true
    | _ => q
  | .leave index =>
    match q.hooks[index]? with
    | some { dependents := [], flushed, .. } =>
      { q with hooks := q.hooks.eraseIdx index }.leaveHook flushed
    | _ => q

/-- One step, as long as the queue is there. -/
def Queue.step (q : Queue) (move : Move) : Queue := if q.finalized ≠ 0 then q else q.move move

/-! ## One request at a time -/

/-- The hooks that began with actions to fail. -/
def Queue.flushes (q : Queue) : Nat := q.hooks.countP Hook.flushed

/-- What the queue is doing. -/
inductive Phase (q : Queue) : Prop
  /-- Nothing is admitted that was not submitted and answered. -/
  | idle (houtstanding : q.outstanding = []) (hactions : q.actions = [])
      (hactive : q.active = false) (hflushes : q.flushes = 0) (hsubmitted : q.submitted = q.admitted)
  /-- The head of the queue is with the REST runtime, and the others wait. -/
  | busy (o : Outstanding) (waiting : List Action) (houtstanding : q.outstanding = [o])
      (hactions : q.actions = o.action :: waiting) (hactive : q.active = true)
      (hflushes : q.flushes = 0) (hsubmitted : q.submitted ++ waiting = q.admitted)
      (hresult : ∀ status, o.result = some status → status ≠ .ok → q.failed = true)
  /-- A request has failed, and nothing is submitted any more. -/
  | broken (houtstanding : q.outstanding = []) (hfailed : q.failed = true)
      (hflushes : q.flushes = q.active.toNat) (hsubmitted : q.submitted <+: q.admitted)

theorem getElem?_singleton {α : Type} {a b : α} {i : Nat} (h : [a][i]? = some b) :
    i = 0 ∧ a = b := by
  cases i with
  | zero => exact ⟨rfl, by simpa using h⟩
  | succ i => simp at h

theorem Phase.of_outstanding {q : Queue} (h : Phase q) {index : Nat} {o : Outstanding}
    (hget : q.outstanding[index]? = some o) :
    ∃ waiting, index = 0 ∧ q.outstanding = [o] ∧ q.actions = o.action :: waiting ∧
      q.active = true ∧ q.flushes = 0 ∧ q.submitted ++ waiting = q.admitted ∧
      ∀ status, o.result = some status → status ≠ .ok → q.failed = true := by
  cases h with
  | idle ho => simp [ho] at hget
  | broken ho => simp [ho] at hget
  | busy o' waiting ho ha hact hfl hs hr =>
    have hsame := hget
    rw [ho] at hsame
    obtain ⟨rfl, rfl⟩ := getElem?_singleton hsame
    exact ⟨waiting, rfl, ho, ha, hact, hfl, hs, hr⟩

/-- An action that is admitted. -/
def Queue.admitAction (q : Queue) (action : Action) (projectedState : FlowState) : Queue :=
  { q with
    actions := q.actions ++ [action]
    active := true
    initialAdmitted := q.initialAdmitted || action.isInitial
    projectedOriginalExists := action.terminalOriginalExists
    projectedState
    outstanding :=
      if q.active then q.outstanding else q.outstanding ++ [{ action, result := none }]
    submitted := if q.active then q.submitted else q.submitted ++ [action]
    admitted := q.admitted ++ [action] }

theorem push_cases {q : Queue} (h : Phase q) (hfailed : q.failed = false) (action : Action)
    (projectedState : FlowState) (submit : Status) :
    (∃ status, status ≠ .ok ∧ q.push action projectedState submit = (status, q)) ∨
      q.push action projectedState submit = (.ok, q.admitAction action projectedState) := by
  cases h with
  | broken houtstanding hbroken => simp [hfailed] at hbroken
  | busy o waiting houtstanding hactions hactive hflushes hsubmitted hresult =>
    right
    simp [Queue.push, Queue.submitHead, Queue.admitAction, hactions, hactive]
  | idle houtstanding hactions hactive hflushes hsubmitted =>
    obtain ⟨actions, active, failed, ownerDestroyed, initialAdmitted, committed, projected,
      committedState, state, references, timers, canceled, outstanding, hooks, admitted,
      submitted, delivered, finalized⟩ := q
    simp only at hactions hactive
    subst hactions hactive
    by_cases hcanceled : action.number ∈ canceled
    · left
      exact ⟨.canceled, by decide, by simp [Queue.push, Queue.submitHead, hcanceled]⟩
    · by_cases hsubmit : submit = .ok
      · right
        simp [Queue.push, Queue.submitHead, Queue.admitAction, hcanceled, hsubmit]
      · left
        exact ⟨submit, hsubmit, by simp [Queue.push, Queue.submitHead, hcanceled, hsubmit]⟩

/-! ## What is admitted -/

/-- A response that leaves an original message behind. -/
def ResponseType.hasOriginal : ResponseType → Bool
  | .channelMessage | .deferredChannelMessage | .deferredUpdateMessage | .updateMessage => true
  | _ => false

/-- The original message exists after an action, where it did or did not before. -/
def Action.originalAfter (action : Action) (before : Bool) : Bool :=
  match action.path, action.method, action.body with
  | .callback, _, .response type => type.hasOriginal
  | .original, .delete, _ => false
  | _, _, _ => before

/-- An action that the queue may admit. -/
structure Admissible (q : Queue) (action : Action) : Prop where
  notFailed : q.failed = false
  owned : q.ownerDestroyed = false
  number : action.number = q.admitted.length
  isInitial : action.isInitial = decide (action.path = .callback)
  initial : action.path = .callback → q.initialAdmitted = false
  followup : action.path = .webhook → q.initialAdmitted = true
  original : action.path = .original → q.projectedOriginalExists = true
  after : action.terminalOriginalExists = action.originalAfter q.projectedOriginalExists

/-- What an operation does: an action is admitted, or nothing changes. -/
def Admits (q : Queue) (outcome : Status × Queue) : Prop :=
  (∃ status, status ≠ .ok ∧ outcome = (status, q)) ∨
    ∃ action projectedState, Admissible q action ∧ outcome = (.ok, q.admitAction action projectedState)

theorem Admits.refused {q : Queue} {status : Status} (h : status ≠ .ok) : Admits q (status, q) :=
  Or.inl ⟨status, h, rfl⟩

theorem Admits.push {q : Queue} (h : Phase q) {action : Action} (hadmissible : Admissible q action)
    (projectedState : FlowState) (submit : Status) :
    Admits q (q.push action projectedState submit) := by
  rcases push_cases h hadmissible.notFailed action projectedState submit with hrefused | hadmitted
  · exact Or.inl hrefused
  · exact Or.inr ⟨action, projectedState, hadmissible, hadmitted⟩

/-- The kinds that `enqueue` makes. -/
def Kind.enqueued (kind : Kind) : Prop := kind ≠ .response ∧ kind ≠ .deleteOriginal

theorem resolve_enqueued (q : Queue) {kind : Option Kind} (projectedState : FlowState)
    (h : ∀ k, kind = some k → k.enqueued) : (q.resolve kind projectedState).1.enqueued := by
  cases kind with
  | some kind => exact h kind rfl
  | none =>
    rw [Queue.resolve]
    split_ifs <;> exact ⟨by decide, by decide⟩

section

variable {q : Queue} (h : Phase q)
include h

theorem enqueue_admits (kind : Option Kind) (projectedState : FlowState)
    (message : Bool) (env : Environment) (hkind : ∀ k, kind = some k → k.enqueued) :
    Admits q (q.enqueue kind projectedState message env) := by
  have hresolved := resolve_enqueued q projectedState hkind
  simp only [Queue.enqueue]
  generalize q.resolve kind projectedState = resolved at hresolved
  obtain ⟨kind, projectedState⟩ := resolved
  split_ifs with hoptions hmemory hstate hrefused hmessage hbuilt hstorage
  · exact .refused (by decide)
  · exact .refused (by decide)
  · exact .refused (by decide)
  · exact .refused (by decide)
  · exact .refused (by decide)
  · exact .refused hbuilt
  · exact .refused hstorage
  · refine .push h ?_ projectedState env.submit
    obtain ⟨hfailed, howner⟩ : q.failed = false ∧ q.ownerDestroyed = false := by simpa using hstate
    obtain ⟨hne, hne'⟩ := hresolved
    cases kind <;>
      constructor <;>
        simp_all [Queue.enqueueAction, Kind.isInitial, Kind.path, Kind.body,
          Action.originalAfter, ResponseType.hasOriginal]

theorem initialResponse_admits (type : ResponseType) (terminalState : FlowState) (env : Environment)
    (htype : type.hasOriginal = decide (type ≠ .autocomplete ∧ type ≠ .modal)) :
    Admits q (q.initialResponse type terminalState env) := by
  rw [Queue.initialResponse]
  split_ifs with hinitial hmemory hbuilt hstate hstorage
  · exact .refused (by decide)
  · exact .refused (by decide)
  · exact .refused hbuilt
  · exact .refused (by decide)
  · exact .refused hstorage
  · refine .push h ?_ terminalState env.submit
    constructor <;> simp_all [Action.originalAfter]

theorem deleteOriginal_admits (env : Environment) :
    Admits q (q.deleteOriginal env) := by
  rw [Queue.deleteOriginal]
  split_ifs with hmemory hstate hbuilt hstorage
  · exact .refused (by decide)
  · exact .refused (by decide)
  · exact .refused hbuilt
  · exact .refused hstorage
  · refine .push h ?_ q.projectedState env.submit
    constructor <;> simp_all [Action.originalAfter]

/-- **What an operation does**: an action is admitted, or nothing changes. -/
theorem operate_admits (env : Environment) (operation : Operation) :
    Admits q (q.operate env operation) := by
  cases operation with
  | reply message =>
    refine enqueue_admits h none .ready message env ?_
    intro k hk
    cases hk
  | editOriginal message =>
    refine enqueue_admits h (some .editOriginal) .originalEdited message env ?_
    intro k hk
    cases hk
    exact ⟨by decide, by decide⟩
  | followup message =>
    refine enqueue_admits h (some .followup) .followedUp message env ?_
    intro k hk
    cases hk
    exact ⟨by decide, by decide⟩
  | defer ephemeral update =>
    simp only [Queue.operate]
    refine enqueue_admits h (some _) _ false env ?_
    intro k hk
    cases hk
    cases update <;> cases ephemeral <;> exact ⟨by decide, by decide⟩
  | updateMessage => exact initialResponse_admits h .updateMessage .replied env (by decide)
  | showModal => exact initialResponse_admits h .modal .modal env (by decide)
  | replyAutocomplete => exact initialResponse_admits h .autocomplete .replied env (by decide)
  | deleteOriginal => exact deleteOriginal_admits h env

end

/-! ## Steps -/

theorem Phase.congr {q q' : Queue} (h : Phase q) (houtstanding : q'.outstanding = q.outstanding)
    (hactions : q'.actions = q.actions) (hactive : q'.active = q.active)
    (hflushes : q'.flushes = q.flushes) (hsubmitted : q'.submitted = q.submitted)
    (hadmitted : q'.admitted = q.admitted) (hfailed : q.failed = true → q'.failed = true) :
    Phase q' := by
  cases h with
  | idle ho ha hact hfl hs =>
    exact .idle (houtstanding.trans ho) (hactions.trans ha) (hactive.trans hact)
      (hflushes.trans hfl) (by rw [hsubmitted, hadmitted, hs])
  | busy o waiting ho ha hact hfl hs hr =>
    exact .busy o waiting (houtstanding.trans ho) (hactions.trans ha) (hactive.trans hact)
      (hflushes.trans hfl) (by rw [hsubmitted, hadmitted, hs])
      (fun status hst hne => hfailed (hr status hst hne))
  | broken ho hf hfl hs =>
    exact .broken (houtstanding.trans ho) (hfailed hf) (by rw [hflushes, hactive, hfl])
      (by rw [hsubmitted, hadmitted]; exact hs)

theorem Phase.finalizeUnused {q : Queue} (h : Phase q) : Phase q.finalizeUnused := by
  rw [Queue.finalizeUnused]
  split
  · exact h.congr rfl rfl rfl rfl rfl rfl id
  · exact h

theorem Phase.admitAction {q : Queue} (h : Phase q) {action : Action} (projectedState : FlowState)
    (hfailed : q.failed = false) : Phase (q.admitAction action projectedState) := by
  cases h with
  | idle ho ha hact hfl hs =>
    refine .busy { action, result := none } [] ?_ ?_ rfl hfl ?_ ?_
    · simp [Queue.admitAction, hact, ho]
    · simp [Queue.admitAction, ha]
    · simp [Queue.admitAction, hact, hs]
    · intro status hnone
      cases hnone
  | busy o waiting ho ha hact hfl hs hr =>
    refine .busy o (waiting ++ [action]) ?_ ?_ rfl hfl ?_ hr
    · simp [Queue.admitAction, hact, ho]
    · simp [Queue.admitAction, ha]
    · simp [Queue.admitAction, hact, ← hs]
  | broken ho hf hfl hs => simp [hfailed] at hf

theorem perm_eraseIdx {α : Type} {l : List α} {i : Nat} {a : α} (h : l[i]? = some a) :
    l.Perm (a :: l.eraseIdx i) := by
  obtain ⟨hi, rfl⟩ := List.getElem?_eq_some_iff.mp h
  exact (List.getElem_cons_eraseIdx_perm hi).symm

theorem Phase.result {q : Queue} (h : Phase q) (action : Action) (status : Status)
    (synthetic : Bool) : Phase (q.result action status synthetic) := by
  refine h.congr (by simp) (by simp) (by simp) (by simp [Queue.flushes]) (by simp) (by simp) ?_
  intro hfailed
  simp [hfailed]

theorem phase_mark {q : Queue} (h : Phase q) (state : FlowState) (status : Status)
    (initial : Bool) : Phase (q.mark state status initial) := by
  by_cases hstatus : status = .ok
  · simp only [Queue.mark, hstatus, ne_eq, not_true_eq_false, if_false]
    split
    · exact h.congr rfl rfl rfl rfl rfl rfl id
    · exact h.congr rfl rfl rfl rfl rfl rfl id
  · simp only [Queue.mark, hstatus, ne_eq, not_false_eq_true, if_true]
    exact h.congr rfl rfl rfl rfl rfl rfl fun _ => rfl

theorem phase_move_result {q : Queue} (h : Phase q) (index : Nat) (status : Status) :
    Phase (q.move (.result index status)) := by
  simp only [Queue.move]
  split
  next action hget =>
    obtain ⟨waiting, rfl, ho, ha, hact, hfl, hs, hr⟩ := h.of_outstanding hget
    rw [Queue.result, ho]
    split_ifs with hstatus
    · exact .busy _ waiting rfl ha hact hfl hs fun _ _ _ => rfl
    · refine .busy _ waiting rfl ha hact hfl hs fun status' hst hne => ?_
      cases hst
      exact absurd hne hstatus
  next => exact h

/-- The queue after the first section of a hook. -/
def Queue.posted (q : Queue) (outstanding : List Outstanding) (actions : List Action)
    (active failed : Bool) (submitted : List Action) (hook : Hook) : Queue :=
  { q with references := q.references + 1, outstanding, actions, active, failed, submitted
           hooks := hook :: q.hooks }

/-- A hook that has nothing to fail. -/
def Hook.quiet : Hook := { dependents := [], status := .state, flushed := false }

/-- A hook that fails some actions. -/
def Hook.flush (dependents : List Action) (status : Status) : Hook :=
  { dependents, status, flushed := !dependents.isEmpty }

/-- **The hook after a result** leaves the queue empty, submits the next action, fails all the
others, or leaves them where they are in a queue that was marked as failed. -/
theorem postResult_cases {q : Queue} {action : Action} {rest : List Action} {terminal : Status}
    (hactions : q.actions = action :: rest) (houtstanding : q.outstanding = [])
    (hfailed : terminal ≠ .ok → q.failed = true) (submit : Status) :
    (rest = [] ∧ terminal = .ok ∧ q.postResult action terminal submit =
        q.posted [] [] false q.failed q.submitted .quiet) ∨
      (∃ next waiting, rest = next :: waiting ∧ terminal = .ok ∧ q.failed = false ∧
        q.postResult action terminal submit = q.posted [{ action := next, result := none }] rest
          true false (q.submitted ++ [next]) .quiet) ∨
      (∃ status, status ≠ .ok ∧ q.postResult action terminal submit =
        q.posted [] [] (!rest.isEmpty) true q.submitted (.flush rest status)) ∨
      (rest ≠ [] ∧ terminal = .ok ∧ q.failed = true ∧ q.postResult action terminal submit =
        q.posted [] rest false true q.submitted .quiet) := by
  obtain ⟨actions, active, failed, ownerDestroyed, initialAdmitted, committed, projected,
    committedState, state, references, timers, canceled, outstanding, hooks, admitted, submitted,
    delivered, finalized⟩ := q
  simp only at hactions houtstanding hfailed
  subst hactions houtstanding
  by_cases hterminal : terminal = .ok
  · cases rest with
    | nil =>
      left
      simp [Queue.postResult, Queue.posted, Hook.quiet, hterminal]
    | cons next waiting =>
      right
      cases failed with
      | true =>
        right
        right
        simp [Queue.postResult, Queue.posted, Hook.quiet, hterminal]
      | false =>
        by_cases hcanceled : next.number ∈ canceled
        · right
          left
          refine ⟨.canceled, by decide, ?_⟩
          simp [Queue.postResult, Queue.submitHead, Queue.posted, Hook.flush, hterminal, hcanceled]
        · by_cases hsubmit : submit = .ok
          · left
            refine ⟨next, waiting, rfl, hterminal, rfl, ?_⟩
            simp [Queue.postResult, Queue.submitHead, Queue.posted, Hook.quiet, hterminal,
              hcanceled, hsubmit]
          · right
            left
            refine ⟨submit, hsubmit, ?_⟩
            simp [Queue.postResult, Queue.submitHead, Queue.posted, Hook.flush, hterminal,
              hcanceled, hsubmit]
  · right
    right
    left
    refine ⟨dependentStatus terminal, ?_, ?_⟩
    · rw [dependentStatus]
      split <;> decide
    · simp [Queue.postResult, Queue.posted, Hook.flush, hterminal, hfailed hterminal]

theorem phase_move_post {q : Queue} (h : Phase q) (index : Nat) (submit : Status) :
    Phase (q.move (.post index submit)) := by
  simp only [Queue.move]
  split
  next action terminal hget =>
    obtain ⟨rest, rfl, ho, ha, hact, hfl, hs, hr⟩ := h.of_outstanding hget
    have hpre : q.submitted <+: q.admitted := ⟨rest, hs⟩
    have hflushes : q.hooks.countP Hook.flushed = 0 := hfl
    rw [ho, List.eraseIdx_cons_zero]
    rcases postResult_cases (q := { q with outstanding := [] }) ha rfl (hr terminal rfl) submit
      with ⟨rfl, -, heq⟩ | ⟨next, waiting, rfl, -, -, heq⟩ | ⟨status, -, heq⟩ | ⟨-, -, hf, heq⟩
    · rw [heq]
      exact .idle rfl rfl rfl hflushes (by simpa [Queue.posted] using hs)
    · rw [heq]
      refine .busy _ waiting rfl rfl rfl hflushes ?_ (fun status hnone => by cases hnone)
      simpa [Queue.posted] using hs
    · rw [heq]
      refine .broken rfl rfl ?_ hpre
      simp only [Queue.flushes, Queue.posted, Hook.flush, List.countP_cons, hflushes]
      cases rest <;> rfl
    · rw [heq]
      exact .broken rfl rfl hflushes hpre
  next => exact h

theorem flushes_perm {q : Queue} {index : Nat} {hook : Hook} (hget : q.hooks[index]? = some hook) :
    q.flushes = (q.hooks.eraseIdx index).countP Hook.flushed + hook.flushed.toNat := by
  rw [Queue.flushes, (perm_eraseIdx hget).countP_eq, List.countP_cons]
  cases hook.flushed <;> rfl

theorem phase_move_deliver {q : Queue} (h : Phase q) (index : Nat) :
    Phase (q.move (.deliver index)) := by
  simp only [Queue.move]
  split
  next action dependents status flushed hget =>
    refine Phase.result ?_ action status true
    refine h.congr rfl rfl rfl ?_ rfl rfl id
    rw [flushes_perm hget, Queue.flushes, List.countP_cons]
    cases flushed <;> rfl
  next => exact h

theorem phase_move_leave {q : Queue} (h : Phase q) (index : Nat) :
    Phase (q.move (.leave index)) := by
  simp only [Queue.move]
  split
  next status flushed hget =>
    have hflushes := flushes_perm hget
    refine Phase.finalizeUnused ?_
    cases flushed with
    | false => exact h.congr rfl rfl rfl hflushes.symm rfl rfl id
    | true =>
      cases h with
      | idle ho ha hact hfl hs => simp [hfl] at hflushes
      | busy o waiting ho ha hact hfl hs hr => simp [hfl] at hflushes
      | broken ho hf hfl hs =>
        refine .broken ho hf ?_ hs
        have hle : q.active.toNat ≤ 1 := Bool.toNat_le q.active
        simp only [Bool.toNat_true] at hflushes
        show (q.hooks.eraseIdx index).countP Hook.flushed = 0
        omega
  next => exact h

theorem Phase.create : Phase Queue.create := .idle rfl rfl rfl rfl rfl

/-- **At most one request is with the runtime, and it is the head of the queue**: every step of
every party keeps it so. -/
theorem phase_step {q : Queue} (h : Phase q) (move : Move) : Phase (q.step move) := by
  rw [Queue.step]
  split
  · exact h
  cases move with
  | operate env operation =>
    rcases operate_admits h env operation with ⟨status, -, heq⟩ | ⟨action, state, hadm, heq⟩
    · simpa [Queue.move, heq] using h
    · simpa [Queue.move, heq] using h.admitAction state hadm.notFailed
  | cancel number =>
    simp only [Queue.move]
    split
    · exact h.congr rfl rfl rfl rfl rfl rfl id
    · exact h
  | mark state status initial => exact phase_mark h state status initial
  | releaseOwner =>
    simp only [Queue.move, Queue.releaseOwner]
    split
    · exact h.finalizeUnused
    · exact Phase.finalizeUnused (h.congr rfl rfl rfl rfl rfl rfl id)
  | retainTimer =>
    simp only [Queue.move, Queue.retainTimer]
    split
    · exact h
    · exact h.congr rfl rfl rfl rfl rfl rfl id
  | releaseTimer =>
    simp only [Queue.move, Queue.releaseTimer]
    split
    · exact h
    · exact Phase.finalizeUnused (h.congr rfl rfl rfl rfl rfl rfl id)
  | result index status => exact phase_move_result h index status
  | post index submit => exact phase_move_post h index submit
  | deliver index => exact phase_move_deliver h index
  | leave index => exact phase_move_leave h index

end Dcc.Flow
