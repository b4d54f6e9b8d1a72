import Dcc.Basic
import Dcc.Lib.Program

/-!
# Isolated workers

With hot reload in isolated mode the handlers of a bot run in worker processes.  The parent keeps
three of them: the active one, the last one that was good, and a candidate that gets a part of
the events.  Three procedures of the parent handle workers: `dispatchEvent` here, the
supervision cycle and the reload.

A procedure is a program whose calls are what it does under the lock, to a worker, or with a
REST request; a section under the lock is one call, since it is atomic.

Statuses are the numbers that go over the pipe, `0` for `DCC_OK`.
-/

namespace Dcc

/-- The number of a status. -/
def Status.code (status : Status) : UInt32 := UInt32.ofNat status.ctorIdx

end Dcc

namespace Dcc.HotReload

/-- The address of a `dcc_hot_reload_worker_process_t`. -/
abbrev Worker := Nat

/-- What a dispatch reads of a `dcc_event_t`. -/
structure Event where
  type : UInt32
  shardId : UInt32
  rawJson : Bytes
  deriving DecidableEq

/-- `dcc_hot_reload_worker_rest_entry_t`. -/
structure RestEntry where
  method : Bytes
  path : Bytes
  contentType : Bytes
  body : Bytes
  deriving DecidableEq

/-- `dcc_hot_reload_worker_result_set_t`. -/
structure ResultSet where
  status : UInt32
  items : List RestEntry
  deriving DecidableEq

/-- The slots as a procedure reads them. -/
structure Slots where
  active : Option Worker
  lastGood : Option Worker
  candidate : Option Worker

/-- What a dispatch reads: the slots, and whether the event goes to the candidate. -/
structure Routing extends Slots where
  routed : Bool
  routed_candidate : routed = true → candidate ≠ none

/-- The workers that a supervision cycle takes out of the slots. -/
structure Retired where
  active : Option Worker
  lastGood : Option Worker
  candidate : Option Worker
  promotedLastGood : Option Worker

/-- The calls of the procedures. -/
inductive Call
  /-- Enter a call and read the slots, in `dcc_hot_reload_worker_dispatch_event`. -/
  | enter (event : Event)
  /-- `dcc_hot_reload_worker_process_is_alive`. -/
  | alive (worker : Worker)
  /-- `dcc_hot_reload_worker_process_send_event`. -/
  | send (worker : Worker) (event : Event)
  /-- `dcc_rest_request_raw`. -/
  | request (entry : RestEntry)
  /-- `dcc_hot_reload_worker_canary_record`. -/
  | recordCanary (worker : Worker) (success : Bool)
  /-- The decision about the candidate: the last good worker of a promotion, or the candidate of
  a rollback. -/
  | decideCanary (worker : Worker)
  /-- `dcc_hot_reload_worker_dispatch_promote_last_good_after_failure`. -/
  | promoteLastGood (failed lastGood : Worker)
  /-- `dcc_hot_reload_worker_dispatch_retire_active_after_failure`. -/
  | retireActive (failed : Worker)
  /-- `dcc_hot_reload_worker_process_stop`. -/
  | stop (worker : Worker)
  | free (worker : Worker)
  /-- `dcc_hot_reload_worker_dispatch_send_temp_interaction_error`. -/
  | temporaryError (event : Event)
  /-- `dcc_hot_reload_worker_dispatch_record_unrecovered_failure`. -/
  | recordFailure (status : UInt32) (activeFailed temporarySent : Bool)
  /-- `dcc_hot_reload_leave_active_call_locked`. -/
  | leave
  /-- The first section of `dcc_hot_reload_worker_supervise_once`. -/
  | superviseEnter
  /-- `dcc_hot_reload_worker_process_healthcheck`. -/
  | health (worker : Worker)
  /-- The second section of `dcc_hot_reload_worker_supervise_once`, with what it has read and
  the probes. -/
  | superviseDecide (slots : Slots) (activeAlive lastGoodAlive candidateAlive : Bool)
  /-- The first section of `dcc_hot_reload_worker_reload`. -/
  | reloadBegin
  /-- The allocation of a worker. -/
  | allocate
  /-- `dcc_hot_reload_worker_process_spawn`: the types of the handlers. -/
  | spawn (worker : Worker) (generation : UInt64)
  /-- The section of a reload that failed. -/
  | reloadFail (status : UInt32)
  /-- `dcc_hot_reload_install_trampoline`. -/
  | install (handler : UInt32)
  /-- The section of a reload that puts the new worker into a slot: the workers it replaces, and
  whether no call is in progress. -/
  | swap (worker : Worker) (generation : UInt64)
  /-- The wait until no call is in progress. -/
  | drain

/-- The reply to a call. -/
@[reducible] def Reply : Call → Type
  | .enter _ => Except UInt32 Routing
  | .alive _ => Bool
  | .send _ _ => Except UInt32 ResultSet
  | .request _ => UInt32
  | .recordCanary _ _ => Unit
  | .decideCanary _ => Option Worker × Option Worker
  | .promoteLastGood _ _ => Option Worker
  | .retireActive _ => Option Worker
  | .stop _ => Unit
  | .free _ => Unit
  | .temporaryError _ => UInt32
  | .recordFailure _ _ _ => Unit
  | .leave => Unit
  | .superviseEnter => Option Slots
  | .health _ => UInt32
  | .superviseDecide _ _ _ _ => Retired
  | .reloadBegin => Except UInt32 UInt64
  | .allocate => Option Worker
  | .spawn _ _ => Except UInt32 (List UInt32)
  | .reloadFail _ => Unit
  | .install _ => UInt32
  | .swap _ _ => Option Worker × Option Worker × Bool
  | .drain => Unit

/-- The procedures of the parent. -/
abbrev Procedure := Program Call Reply

/-- The procedure that makes one call. -/
abbrev make (call : Call) : Procedure (Reply call) := Program.perform call

/-! ## Dispatching an event -/

/-- `dcc_worker_execute_rest`, from the status so far. -/
def executeRest : UInt32 → List RestEntry → Procedure UInt32
  | status, [] => return status
  | status, entry :: items => do
      let restStatus ← make (.request entry)
      executeRest (if status = Status.ok.code ∧ restStatus ≠ Status.ok.code then restStatus else status)
        items

/-- `dcc_hot_reload_worker_dispatch_try_event`: the status, and whether the worker failed. -/
def tryEvent (worker : Worker) (event : Event) : Procedure (UInt32 × Bool) := do
  let alive ← make (.alive worker)
  if !alive then return (Status.runtime.code, true)
  else
    match ← make (.send worker event) with
    | .error status => return (status, true)
    | .ok result => return (← executeRest result.status result.items, false)

/-- The local variables of `dcc_hot_reload_worker_dispatch_event`. -/
structure Dispatch where
  status : UInt32
  activeFailed : Bool
  retireFailed : Option Worker
  retireRetry : Option Worker
  retireCanary : Option Worker
  retirePromoted : Option Worker

/-- The first try of a dispatch, where there is a worker. -/
def tryFirst (primary : Option Worker) (event : Event) : Procedure (UInt32 × Bool) :=
  match primary with
  | some worker => tryEvent worker event
  | none => return (Status.state.code, false)

/-- The first worker that is tried. -/
def dispatchPrimary (routing : Routing) (event : Event) : Procedure Dispatch := do
  let (status, activeFailed) ← tryFirst
    (if routing.routed then routing.candidate else routing.active) event
  return { status, activeFailed, retireFailed := none, retireRetry := none, retireCanary := none
           retirePromoted := none }

/-- After the candidate: the canary is judged, and the active worker is tried where the
candidate did not do. -/
def dispatchFallback (routing : Routing) (event : Event) (d : Dispatch) : Procedure Dispatch := do
  match routing.routed, routing.candidate with
  | true, some candidate =>
    make (.recordCanary candidate (d.status == Status.ok.code))
    let (retirePromoted, retireCanary) ← make (.decideCanary candidate)
    match routing.active with
    | some active =>
      if d.status ≠ Status.ok.code ∧ active ≠ candidate then do
        let (status, activeFailed) ← tryEvent active event
        return { d with status, activeFailed, retirePromoted, retireCanary }
      else return { d with activeFailed := false, retirePromoted, retireCanary }
    | none => return { d with activeFailed := false, retirePromoted, retireCanary }
  | _, _ => return d

/-- After the active worker: the last good one is tried where the active one failed. -/
def dispatchLastGood (slots : Slots) (event : Event) (d : Dispatch) : Procedure Dispatch := do
  match slots.active, slots.lastGood with
  | some active, some lastGood =>
    if d.status ≠ Status.ok.code ∧ d.activeFailed ∧ lastGood ≠ active then do
      let retireFailed ← make (.promoteLastGood active lastGood)
      let (status, lastGoodFailed) ← tryEvent lastGood event
      if status ≠ Status.ok.code ∧ lastGoodFailed then do
        let retireRetry ← make (.retireActive lastGood)
        return { d with status, retireFailed, retireRetry }
      else return { d with status, retireFailed }
    else return d
  | _, _ => return d

/-- An active worker that failed leaves its slot. -/
def dispatchRetire (slots : Slots) (d : Dispatch) : Procedure Dispatch := do
  match slots.active with
  | some active =>
    if d.status ≠ Status.ok.code ∧ d.activeFailed ∧ d.retireFailed = none then do
      let retireFailed ← make (.retireActive active)
      return { d with retireFailed }
    else return d
  | none => return d

/-- A worker that left the slots is stopped and freed. -/
def retire : Option Worker → Procedure Unit
  | none => return ()
  | some worker => do
      make (.stop worker)
      make (.free worker)

/-- The end of a dispatch. -/
def dispatchEnd (event : Event) (d : Dispatch) : Procedure UInt32 := do
  retire d.retireFailed
  retire d.retireRetry
  retire d.retireCanary
  retire d.retirePromoted
  if d.status ≠ Status.ok.code then do
    let temporary ← make (.temporaryError event)
    make (.recordFailure d.status d.activeFailed (temporary == Status.ok.code))
    make .leave
    return d.status
  else do
    make .leave
    return d.status

/-- `dcc_hot_reload_worker_dispatch_event`. -/
def dispatchEvent (event : Event) : Procedure UInt32 := do
  if event.rawJson = [] then return Status.ok.code
  else
    match ← make (.enter event) with
    | .error status => return status
    | .ok routing =>
      let d ← dispatchPrimary routing event
      let d ← dispatchFallback routing event d
      let d ← dispatchLastGood routing.toSlots event d
      let d ← dispatchRetire routing.toSlots d
      dispatchEnd event d

end Dcc.HotReload
