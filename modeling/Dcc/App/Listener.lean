import Dcc.Basic

/-!
# The life of a listener

A listener is registered by `dcc_app_listen`, invoked by the dispatch of its event, route
or task, and removed by `dcc_app_unlisten`, by its first invocation if it is there for one
only, or by `dcc_app_listener_destroy_all`.  Its source is then detached and the cleanup
of the application runs.

Many tasks do this at the same time.  A task is a stack of operations: what an operation
calls of the application (a handler, a cleanup, a middleware) may call the next one.
What the source does under the lock of the listeners is one step here, and so is what it
does between two acquisitions of the lock.  A task that waits for a condition does not
move until the condition holds.

A listener is known by its place in the list of all listeners.  Besides the fields of the
source, an `Entry` counts the invocations of its handler, those that are running, the
detachments of its source and the runs of its cleanup.
-/

namespace Dcc.App

/-! ## Listeners -/

/-- What a listener listens to: a route, an event of the client, or a schedule. -/
inductive Source
  | route
  | event
  | schedule
  deriving DecidableEq

/-- `struct dcc_app_listener_entry`, as far as its life needs it.  Its route id or client
listener id is given up exactly when `detachStarted` is set. -/
structure Entry where
  source : Source
  once : Bool
  inFlight : Nat
  active : Bool
  fired : Bool
  detachStarted : Bool
  detachDone : Bool
  detachStatus : Status
  finalizeStarted : Bool
  finalizeDone : Bool
  finalizeStatus : Status
  retired : Bool
  invoked : Nat
  running : Nat
  detaches : Nat
  cleanups : Nat
  deriving DecidableEq

/-- A listener that was just registered; only an event is listened to for one time. -/
def Entry.new (source : Source) (once : Bool) : Entry where
  source := source
  once := once && source == .event
  inFlight := 0
  active := true
  fired := false
  detachStarted := false
  detachDone := false
  detachStatus := .ok
  finalizeStarted := false
  finalizeDone := false
  finalizeStatus := .ok
  retired := false
  invoked := 0
  running := 0
  detaches := 0
  cleanups := 0

/-! ## Detaching and finalizing -/

/-- Where `dcc_app_listener_detach_source` is: before its lock, before and after the call
that detaches the source, or waiting for another task to detach it. -/
inductive DetachPhase
  | enter
  | calling
  | called (status : Status)
  | waiting
  deriving DecidableEq

/-- Where `dcc_app_listener_finalize` is: before its lock, detaching the source, in the
cleanup of the application, or waiting for another task to finalize the listener. -/
inductive FinalizePhase
  | enter
  | detaching (phase : DetachPhase)
  | cleaning (status : Status)
  | waiting
  deriving DecidableEq

/-- A function goes on in its next phase, or it returns its status. -/
inductive Outcome (φ : Type)
  | next (phase : φ)
  | done (status : Status)

/-- One step of `dcc_app_listener_detach_source`; `result` is the status of the call that
detaches the source.  The route of a listener in flight is left for later. -/
def detachStep (entry : Entry) (wait : Bool) (result : Status) :
    DetachPhase → Option (Entry × Outcome DetachPhase)
  | .enter =>
    if entry.detachDone then some (entry, .done entry.detachStatus)
    else if entry.detachStarted then
      if wait then some (entry, .next .waiting) else some (entry, .done .ok)
    else if entry.source = .route ∧ entry.inFlight ≠ 0 then some (entry, .done .ok)
    else some ({ entry with detachStarted := true }, .next .calling)
  | .calling =>
    let status := if entry.source = .schedule then .ok else result
    some ({ entry with detaches := entry.detaches + 1 }, .next (.called status))
  | .called status =>
    some ({ entry with detachStatus := status, detachDone := true }, .done status)
  | .waiting => if entry.detachDone then some (entry, .done entry.detachStatus) else none

/-- One step of `dcc_app_listener_finalize`. -/
def finalizeStep (entry : Entry) (wait : Bool) (result : Status) :
    FinalizePhase → Option (Entry × Outcome FinalizePhase)
  | .enter =>
    if entry.active ∨ entry.inFlight ≠ 0 then some (entry, .done .ok)
    else if entry.finalizeDone then some (entry, .done entry.finalizeStatus)
    else if entry.finalizeStarted then
      if wait then some (entry, .next .waiting) else some (entry, .done .ok)
    else some ({ entry with finalizeStarted := true }, .next (.detaching .enter))
  | .detaching phase =>
    match detachStep entry true result phase with
    | none => none
    | some (entry, .next phase) => some (entry, .next (.detaching phase))
    | some (entry, .done status) =>
      some ({ entry with cleanups := entry.cleanups + 1 }, .next (.cleaning status))
  | .cleaning status =>
    some ({ entry with finalizeStatus := status, finalizeDone := true }, .done status)
  | .waiting => if entry.finalizeDone then some (entry, .done entry.finalizeStatus) else none

/-! ## Operations -/

/-- Where a dispatch is after `dcc_app_listener_acquire`: detaching a listener that was there
for one time, before its handler with and without the callback frame of the listener, in the
handler, after it, and in `dcc_app_listener_release`. -/
inductive DispatchPhase
  | claimed (phase : DetachPhase)
  | acquired
  | entered
  | running
  | returned
  | leaving
  | finalizing (phase : FinalizePhase)
  deriving DecidableEq

/-- Where `dcc_app_unlisten` is after the removal; `own` says that it was called from a
handler of the listener. -/
inductive UnlistenPhase
  | detaching (own : Bool) (phase : DetachPhase)
  | waiting
  | finalizing (phase : FinalizePhase)
  deriving DecidableEq

/-- Where `dcc_app_listener_destroy_all` is in its two loops over the listeners. -/
inductive DestroyPhase
  | detaching (listener : Nat) (phase : DetachPhase) (rest : List Nat)
  | waiting (listener : Nat) (rest : List Nat)
  | finalizing (listener : Nat) (phase : FinalizePhase) (rest : List Nat)
  deriving DecidableEq

/-- An operation on the stack of a task. -/
inductive Op
  | dispatch (listener : Nat) (phase : DispatchPhase)
  | unlisten (listener : Nat) (phase : UnlistenPhase)
  | destroyAll (phase : DestroyPhase)
  deriving DecidableEq

/-- The callback frame of a listener is on the stack: its handler runs, or its cleanup. -/
def Op.frameOf (listener : Nat) : Op → Bool
  | .dispatch other .entered | .dispatch other .running | .dispatch other .returned
  | .dispatch other (.finalizing (.cleaning _)) | .unlisten other (.finalizing (.cleaning _))
  | .destroyAll (.finalizing other (.cleaning _) _) => other == listener
  | _ => false

/-- The operation is in code of the application: a middleware, a handler, the report of an
error, or a cleanup. -/
def Op.inUserCode : Op → Bool
  | .dispatch _ .acquired | .dispatch _ .running | .dispatch _ .returned | .dispatch _ .leaving
  | .dispatch _ (.finalizing (.cleaning _)) | .unlisten _ (.finalizing (.cleaning _))
  | .destroyAll (.finalizing _ (.cleaning _) _) => true
  | _ => false

/-- A call of `dcc_app_unlisten` has returned. -/
structure Unlistened where
  listener : Nat
  own : Bool
  status : Status
  deriving DecidableEq

/-- The listeners of an application and its tasks. -/
structure Listening where
  entries : List Entry
  listeners : List Nat
  retired : List Nat
  destroying : Bool
  tasks : List (List Op)
  unlistened : List Unlistened

/-- A new application. -/
def Listening.new : Listening := ⟨[], [], [], false, [], []⟩

variable (app : Listening)

def Listening.setEntry (listener : Nat) (entry : Entry) : Listening :=
  { app with entries := app.entries.set listener entry }

def Listening.setTask (task : Nat) (stack : List Op) : Listening :=
  { app with tasks := app.tasks.set task stack }

/-- The listener is made inactive and goes to `dcc_app_listener_retire_locked`. -/
def Listening.remove (listener : Nat) (entry : Entry) : Listening :=
  if entry.retired then app.setEntry listener { entry with active := false }
  else
    { app.setEntry listener { entry with active := false, retired := true } with
      listeners := app.listeners.erase listener
      retired := listener :: app.retired }

/-- `dcc_app_listen`: the registration is made under the lock. -/
def Listening.listen (source : Source) (once : Bool) : Listening × Status :=
  if app.destroying then (app, .state)
  else
    ({ app with
        entries := app.entries ++ [Entry.new source once]
        listeners := app.listeners ++ [app.entries.length] }, .ok)

/-- `dcc_app_listener_acquire` at the start of a dispatch. -/
def Listening.acquire (task : Nat) (stack : List Op) (listener : Nat) (entry : Entry) : Listening :=
  if entry.active = false ∨ app.destroying then app
  else if entry.once then
    if entry.fired then app
    else
      (app.remove listener
        { entry with fired := true, inFlight := entry.inFlight + 1 }).setTask task
        (.dispatch listener (.claimed .enter) :: stack)
  else
    (app.setEntry listener { entry with inFlight := entry.inFlight + 1 }).setTask task
      (.dispatch listener .acquired :: stack)

/-- `dcc_app_unlisten` up to the removal. -/
def Listening.unlisten (task : Nat) (stack : List Op) (listener : Nat) (entry : Entry) :
    Listening :=
  let own := stack.any (Op.frameOf listener)
  if listener ∉ app.listeners ∨ entry.active = false then
    { app with unlistened := app.unlistened ++ [⟨listener, own, .invalidArg⟩] }
  else
    (app.remove listener entry).setTask task (.unlisten listener (.detaching own .enter) :: stack)

/-- The removal of all listeners, the last one first. -/
def Listening.removeAll : List Nat → Listening → Listening
  | [], app => app
  | listener :: rest, app =>
    match app.entries[listener]? with
    | none => removeAll rest app
    | some entry => removeAll rest (app.remove listener entry)

/-- The first loop of `dcc_app_listener_destroy_all`, or the second one when it is over, or
its end. -/
def destroyNext (retired : List Nat) : List Nat → List Op
  | listener :: rest => [.destroyAll (.detaching listener .enter rest)]
  | [] =>
    match retired with
    | listener :: rest => [.destroyAll (.waiting listener rest)]
    | [] => []

/-- The second loop. -/
def destroyRest : List Nat → List Op
  | listener :: rest => [.destroyAll (.waiting listener rest)]
  | [] => []

/-- `dcc_app_listener_destroy_all` up to its first loop. -/
def Listening.destroyAll (task : Nat) (stack : List Op) : Listening :=
  let removed := { app with destroying := true }.removeAll app.listeners.reverse
  removed.setTask task (destroyNext removed.retired removed.retired ++ stack)

/-! ## Steps -/

/-- What the environment decides in a step: the status of the call that detaches a source,
and whether a dispatch gets to its handler. -/
structure Choice where
  result : Status
  proceed : Bool

/-- The status that `dcc_app_unlisten` returns. -/
def unlistenStatus (status : Status) : Status := if status = .ok then .ok else .state

/-- The next step of a dispatch. -/
def Listening.dispatchStep (task : Nat) (stack : List Op) (listener : Nat) (entry : Entry)
    (choice : Choice) : DispatchPhase → Listening
  | .claimed phase =>
    match detachStep entry true choice.result phase with
    | none => app
    | some (entry, .next phase) =>
      (app.setEntry listener entry).setTask task (.dispatch listener (.claimed phase) :: stack)
    | some (entry, .done _) =>
      (app.setEntry listener entry).setTask task (.dispatch listener .acquired :: stack)
  | .acquired =>
    app.setTask task
      (.dispatch listener (if choice.proceed then .entered else .leaving) :: stack)
  | .entered =>
    if choice.proceed then
      (app.setEntry listener
        { entry with invoked := entry.invoked + 1, running := entry.running + 1 }).setTask task
        (.dispatch listener .running :: stack)
    else app.setTask task (.dispatch listener .returned :: stack)
  | .running =>
    (app.setEntry listener { entry with running := entry.running - 1 }).setTask task
      (.dispatch listener .returned :: stack)
  | .returned => app.setTask task (.dispatch listener .leaving :: stack)
  | .leaving =>
    let released := { entry with inFlight := entry.inFlight - 1 }
    (app.setEntry listener released).setTask task
      (if released.inFlight = 0 ∧ entry.active = false then
        .dispatch listener (.finalizing .enter) :: stack
      else stack)
  | .finalizing phase =>
    match finalizeStep entry false choice.result phase with
    | none => app
    | some (entry, .next phase) =>
      (app.setEntry listener entry).setTask task
        (.dispatch listener (.finalizing phase) :: stack)
    | some (entry, .done _) => (app.setEntry listener entry).setTask task stack

/-- The next step of `dcc_app_unlisten`. -/
def Listening.unlistenStep (task : Nat) (stack : List Op) (listener : Nat) (entry : Entry)
    (choice : Choice) : UnlistenPhase → Listening
  | .detaching own phase =>
    match detachStep entry (!own) choice.result phase with
    | none => app
    | some (entry, .next phase) =>
      (app.setEntry listener entry).setTask task
        (.unlisten listener (.detaching own phase) :: stack)
    | some (entry, .done status) =>
      if own then
        { (app.setEntry listener entry).setTask task stack with
          unlistened := app.unlistened ++ [⟨listener, true, unlistenStatus status⟩] }
      else (app.setEntry listener entry).setTask task (.unlisten listener .waiting :: stack)
  | .waiting =>
    if entry.inFlight = 0 then
      app.setTask task (.unlisten listener (.finalizing .enter) :: stack)
    else app
  | .finalizing phase =>
    match finalizeStep entry true choice.result phase with
    | none => app
    | some (entry, .next phase) =>
      (app.setEntry listener entry).setTask task
        (.unlisten listener (.finalizing phase) :: stack)
    | some (entry, .done status) =>
      { (app.setEntry listener entry).setTask task stack with
        unlistened := app.unlistened ++ [⟨listener, false, unlistenStatus status⟩] }

/-- The next step of `dcc_app_listener_destroy_all`. -/
def Listening.destroyStep (task : Nat) (stack : List Op) (choice : Choice) :
    DestroyPhase → Listening
  | .detaching listener phase rest =>
    match app.entries[listener]? with
    | none => app
    | some entry =>
      match detachStep entry true choice.result phase with
      | none => app
      | some (entry, .next phase) =>
        (app.setEntry listener entry).setTask task
          (.destroyAll (.detaching listener phase rest) :: stack)
      | some (entry, .done _) =>
        (app.setEntry listener entry).setTask task (destroyNext app.retired rest ++ stack)
  | .waiting listener rest =>
    match app.entries[listener]? with
    | none => app
    | some entry =>
      if entry.inFlight = 0 then
        app.setTask task (.destroyAll (.finalizing listener .enter rest) :: stack)
      else app
  | .finalizing listener phase rest =>
    match app.entries[listener]? with
    | none => app
    | some entry =>
      match finalizeStep entry true choice.result phase with
      | none => app
      | some (entry, .next phase) =>
        (app.setEntry listener entry).setTask task
          (.destroyAll (.finalizing listener phase rest) :: stack)
      | some (entry, .done _) =>
        (app.setEntry listener entry).setTask task (destroyRest rest ++ stack)

/-- What a task may call. -/
inductive Call
  | dispatch (listener : Nat)
  | unlisten (listener : Nat)
  | destroyAll

/-- A task that is idle, or in code of the application, calls an operation. -/
def Listening.call (task : Nat) (stack : List Op) : Call → Listening
  | .dispatch listener =>
    match app.entries[listener]? with
    | none => app
    | some entry => app.acquire task stack listener entry
  | .unlisten listener =>
    match app.entries[listener]? with
    | none => app
    | some entry => app.unlisten task stack listener entry
  | .destroyAll => app.destroyAll task stack

/-- The operation on top of a stack takes its next step. -/
def Listening.go (task : Nat) (choice : Choice) : List Op → Listening
  | [] => app
  | .dispatch listener phase :: stack =>
    match app.entries[listener]? with
    | none => app
    | some entry => app.dispatchStep task stack listener entry choice phase
  | .unlisten listener phase :: stack =>
    match app.entries[listener]? with
    | none => app
    | some entry => app.unlistenStep task stack listener entry choice phase
  | .destroyAll phase :: stack => app.destroyStep task stack choice phase

/-- A task may call when it is idle or in code of the application. -/
def mayCall : List Op → Bool
  | [] => true
  | op :: _ => op.inUserCode

/-- One step of the application. -/
inductive Action
  | spawn
  | listen (source : Source) (once : Bool)
  | call (task : Nat) (call : Call)
  | go (task : Nat) (choice : Choice)

/-- Any task may move at any time. -/
def act (app : Listening) : Action → Listening
  | .spawn => { app with tasks := app.tasks ++ [[]] }
  | .listen source once => (app.listen source once).1
  | .call task call =>
    match app.tasks[task]? with
    | none => app
    | some stack => if mayCall stack then app.call task stack call else app
  | .go task choice =>
    match app.tasks[task]? with
    | none => app
    | some stack => app.go task choice stack

end Dcc.App
