import Mathlib.Data.List.Nodup
import Dcc.Basic
import Dcc.Lib.Growing
import Dcc.Lib.Reach

/-!
# Registering schedules

A schedule is added by `dcc_app_add_canonical_schedule`, or by the older `dcc_app_add_schedule`.
Both put it into the table, and give it a task when the application runs.  The older function gives
no task when there is no task group yet, and leaves the schedule in the table when the task cannot
be spawned.

* `step_addressed` — the addresses in the table and in the task group are distinct, whatever the
  application does;
* `schedule_registration` — the canonical function is consistent in every state, and the older one
  exactly when it needs no new task or can spawn it in a group that is there.
-/

namespace Dcc.App

open Machine

/-! ## The scheduler -/

/-- `dcc_app_schedule_kind_t`. -/
inductive ScheduleKind
  | interval
  | dailyKst
  deriving DecidableEq

/-- What a schedule calls, with its user data or its listener state. -/
inductive ScheduleCallback
  | legacy (fn userData : Nat)
  | canonical (fn listenerState : Nat)
  deriving DecidableEq

/-- `dcc_app_schedule_t` and where it is. -/
structure Schedule where
  address : Nat
  kind : ScheduleKind
  intervalMs : UInt64
  hour : UInt8
  minute : UInt8
  callback : ScheduleCallback
  cancelled : Bool
  deriving DecidableEq

/-- The members of an application that are about schedules.  A task group is the list of the
schedules its tasks run; `reaping` is the group that `dcc_app_reap_schedules` waits for while
`task_reaping` is set.  `nextAddress` is where the next schedule is allocated. -/
structure Scheduler where
  schedules : List Schedule
  scheduleCap : Nat
  tasks : Option (List Nat)
  reaping : Option (List Nat)
  taskReapStatus : Status
  started : Bool
  stopping : Bool
  nextAddress : Nat
  deriving DecidableEq

/-- A new application. -/
def Scheduler.new : Scheduler := ⟨[], 0, none, none, .ok, false, false, 0⟩

/-- What the allocator and the task group answer to one registration. -/
structure Outcomes where
  grow : Bool
  alloc : Bool
  create : Status
  spawn : Status

/-- The timing a schedule is registered with. -/
structure ScheduleRequest where
  kind : ScheduleKind
  intervalMs : UInt64
  hour : UInt8
  minute : UInt8

/-- The tests of the timing. -/
def ScheduleRequest.valid (request : ScheduleRequest) : Bool :=
  match request.kind with
  | .interval => request.intervalMs != 0
  | .dailyKst => request.hour ≤ 23 && request.minute ≤ 59

/-- The size of a pointer. -/
def pointerSize : Nat := 8

/-- `dcc_app_schedules_reserve`, by the capacity it leaves. -/
def schedulesReserve (cap need : Nat) (memory : Bool) : Option Nat :=
  if need ≤ cap then some cap
  else
    match Growing.grow wordMax 64 (if cap ≠ 0 then cap else 4) need with
    | none => none
    | some next => if wordMax / pointerSize < next then none else if memory then some next else none

/-- The start of both functions: room in the table, and a schedule. -/
def allocSchedule (app : Scheduler) (request : ScheduleRequest) (callback : ScheduleCallback)
    (outcomes : Outcomes) : Scheduler × Option Schedule :=
  if app.schedules.length = wordMax then (app, none)
  else
    match schedulesReserve app.scheduleCap (app.schedules.length + 1) outcomes.grow with
    | none => (app, none)
    | some cap =>
      if outcomes.alloc then
        ({ app with scheduleCap := cap, nextAddress := app.nextAddress + 1 },
          some ⟨app.nextAddress, request.kind, request.intervalMs, request.hour, request.minute,
            callback, false⟩)
      else ({ app with scheduleCap := cap }, none)

/-- `accepts_runtime_work`: the application is started, and neither stops nor reaps its tasks. -/
def acceptsRuntimeWork (app : Scheduler) : Bool :=
  app.started && !app.stopping && app.reaping.isNone

/-- The last schedule is taken back. -/
def dropSchedule (app : Scheduler) : Scheduler := { app with schedules := app.schedules.dropLast }

/-- `dcc_app_add_canonical_schedule`. -/
def addCanonicalSchedule (app : Scheduler) (request : ScheduleRequest) (fn listenerState : Option Nat)
    (outcomes : Outcomes) : Scheduler × Status :=
  match fn, listenerState with
  | some fn, some listenerState =>
    if request.valid then
      match allocSchedule app request (.canonical fn listenerState) outcomes with
      | (app, none) => (app, .nomem)
      | (app, some schedule) =>
        let added := { app with schedules := app.schedules ++ [schedule] }
        if acceptsRuntimeWork added then
          match added.tasks with
          | none =>
            match outcomes.create with
            | .ok =>
              match outcomes.spawn with
              | .ok => ({ added with tasks := some [schedule.address] }, .ok)
              -- the new group is destroyed
              | status => (dropSchedule added, status)
            | status => (dropSchedule added, status)
          | some tasks =>
            match outcomes.spawn with
            | .ok => ({ added with tasks := some (tasks ++ [schedule.address]) }, .ok)
            | status => (dropSchedule added, status)
        else (added, .ok)
    else (app, .invalidArg)
  | _, _ => (app, .invalidArg)

/-- `dcc_app_add_schedule`. -/
def addSchedule (app : Scheduler) (request : ScheduleRequest) (fn : Option Nat) (userData : Nat)
    (outcomes : Outcomes) : Scheduler × Status :=
  match fn with
  | some fn =>
    if request.valid then
      match allocSchedule app request (.legacy fn userData) outcomes with
      | (app, none) => (app, .nomem)
      | (app, some schedule) =>
        let added := { app with schedules := app.schedules ++ [schedule] }
        match added.tasks with
        | none => (added, .ok)
        | some tasks =>
          if acceptsRuntimeWork added then
            match outcomes.spawn with
            | .ok => ({ added with tasks := some (tasks ++ [schedule.address]) }, .ok)
            | status => (added, status)
          else (added, .ok)
    else (app, .invalidArg)
  | none => (app, .invalidArg)

/-- `dcc_app_cancel_canonical_schedule`. -/
def cancelCanonicalSchedule (app : Scheduler) (address : Nat) : Scheduler :=
  { app with schedules := app.schedules.eraseP fun schedule => schedule.address = address }

/-! ## Start and stop -/

/-- `dcc_app_request_stop_schedules`, as far as the schedules are concerned. -/
def requestStopSchedules (app : Scheduler) : Scheduler :=
  { app with schedules := app.schedules.map fun schedule => { schedule with cancelled := true } }

/-- `dcc_app_reap_schedules` up to the wait for the tasks. -/
def reapSchedules (app : Scheduler) : Scheduler :=
  match app.reaping, app.tasks with
  | none, some tasks => { app with tasks := none, reaping := some tasks }
  | _, _ => app

/-- `dcc_app_reap_schedules` after the wait for the tasks. -/
def reapedSchedules (app : Scheduler) (status : Status) : Scheduler :=
  match app.reaping with
  | none => app
  | some tasks =>
    { app with
      taskReapStatus := status
      tasks := if status = .ok then app.tasks else some tasks
      reaping := none }

/-- The loop of `dcc_app_start_schedules`: the schedules in the order of the table, the tasks that
were spawned, and the first status that is not `DCC_OK`. -/
def spawnSchedules : List Schedule → List Status → List Schedule × List Nat × Status
  | [], _ => ([], [], .ok)
  | schedule :: rest, spawns =>
    match spawns.headD .ok with
    | .ok =>
      let (schedules, tasks, status) := spawnSchedules rest spawns.tail
      ({ schedule with cancelled := false } :: schedules, schedule.address :: tasks, status)
    | status => ({ schedule with cancelled := false } :: rest, [], status)

/-- `dcc_app_start_schedules` up to the wait for the tasks of a start that failed. -/
def startSchedules (app : Scheduler) (create : Status) (spawns : List Status) :
    Scheduler × Status :=
  if app.reaping.isSome then (app, .state)
  else if app.tasks.isSome then (app, .ok)
  else if app.schedules = [] then ({ app with taskReapStatus := .ok }, .ok)
  else
    match create with
    | .ok =>
      match spawnSchedules app.schedules spawns with
      | (schedules, tasks, status) =>
        let spawned :=
          { app with taskReapStatus := .ok, schedules := schedules, tasks := some tasks }
        if status = .ok then (spawned, .ok)
        else (reapSchedules (requestStopSchedules spawned), status)
    | status => (app, status)

/-- `dcc_app_start` up to the wait for the tasks of a start that failed. -/
def startApp (app : Scheduler) (client create : Status) (spawns : List Status) : Scheduler :=
  let app := { app with stopping := false }
  match client with
  | .ok => (startSchedules { app with started := true } create spawns).1
  | _ => app

/-- What happens to the schedules of an application. -/
inductive ScheduleMove
  | addCanonical (request : ScheduleRequest) (fn listenerState : Option Nat) (outcomes : Outcomes)
  | add (request : ScheduleRequest) (fn : Option Nat) (userData : Nat) (outcomes : Outcomes)
  | cancel (address : Nat)
  | start (client create : Status) (spawns : List Status)
  | stop
  | reap
  | reaped (status : Status)
  | ended

/-- One step; `stop` is `dcc_app_stop`, `reap` and `reaped` are the two halves of
`dcc_app_reap_schedules`, and `ended` is the end of `dcc_app_wait` and of a start that failed. -/
def scheduleStep (app : Scheduler) : ScheduleMove → Scheduler
  | .addCanonical request fn listenerState outcomes =>
    (addCanonicalSchedule app request fn listenerState outcomes).1
  | .add request fn userData outcomes => (addSchedule app request fn userData outcomes).1
  | .cancel address => cancelCanonicalSchedule app address
  | .start client create spawns => startApp app client create spawns
  | .stop => requestStopSchedules { app with stopping := true }
  | .reap => reapSchedules app
  | .reaped status => reapedSchedules app status
  | .ended => { app with started := false }

/-! ## What one registration does -/

section Registration

variable (app : Scheduler) (request : ScheduleRequest) (fn : Option Nat) (outcomes : Outcomes)

/-- There is no room in the table, or no memory for a schedule. -/
def NoRoom : Prop :=
  app.schedules.length = wordMax ∨
  schedulesReserve app.scheduleCap (app.schedules.length + 1) outcomes.grow = none ∨
  outcomes.alloc = false

/-- A registration that is refused before the schedule is in the table. -/
def Refused : Prop := fn = none ∨ request.valid = false ∨ NoRoom app outcomes

/-- The status of a registration that is refused. -/
def refusal : Status := if fn.isSome && request.valid then .nomem else .invalidArg

/-- The schedule that is registered. -/
def newSchedule (callback : ScheduleCallback) : Schedule :=
  ⟨app.nextAddress, request.kind, request.intervalMs, request.hour, request.minute, callback, false⟩

/-- The application with the schedule in its table. -/
def placed (cap : Nat) (callback : ScheduleCallback) : Scheduler :=
  { app with
    schedules := app.schedules ++ [newSchedule app request callback]
    scheduleCap := cap
    nextAddress := app.nextAddress + 1 }

/-- How the canonical function fares with the task. -/
def taskStatus : Status :=
  if app.tasks = none ∧ outcomes.create ≠ .ok then outcomes.create else outcomes.spawn

variable {app request fn outcomes}

theorem refusal_ne_ok : refusal request fn ≠ .ok := by
  rw [refusal]
  split <;> simp

theorem allocSchedule_noRoom (h : NoRoom app outcomes) (callback : ScheduleCallback) :
    ∃ cap, allocSchedule app request callback outcomes =
      ({ app with scheduleCap := cap }, none) := by
  rw [allocSchedule]
  split
  · exact ⟨app.scheduleCap, rfl⟩
  · next hcount =>
    split
    · exact ⟨app.scheduleCap, rfl⟩
    · next cap hcap =>
      rcases h with hfull | hnone | halloc
      · exact absurd hfull hcount
      · rw [hnone] at hcap
        cases hcap
      · rw [halloc]
        exact ⟨cap, rfl⟩

theorem allocSchedule_room (h : ¬ NoRoom app outcomes) (callback : ScheduleCallback) :
    ∃ cap, allocSchedule app request callback outcomes =
      ({ app with scheduleCap := cap, nextAddress := app.nextAddress + 1 },
        some (newSchedule app request callback)) := by
  rw [NoRoom, not_or, not_or, Bool.not_eq_false] at h
  obtain ⟨hcount, hcap, halloc⟩ := h
  obtain ⟨cap, hcap⟩ := Option.ne_none_iff_exists'.mp hcap
  refine ⟨cap, ?_⟩
  rw [allocSchedule, if_neg hcount, hcap, halloc]
  rfl

theorem addCanonicalSchedule_refused (h : Refused app request fn outcomes) (listenerState : Nat) :
    ∃ cap, addCanonicalSchedule app request fn (some listenerState) outcomes =
      ({ app with scheduleCap := cap }, refusal request fn) := by
  cases fn with
  | none => exact ⟨app.scheduleCap, rfl⟩
  | some fn =>
    cases hvalid : request.valid with
    | false => exact ⟨app.scheduleCap, by simp [addCanonicalSchedule, refusal, hvalid]⟩
    | true =>
      have hroom : NoRoom app outcomes := by
        simpa [Refused, hvalid] using h
      obtain ⟨cap, halloc⟩ := @allocSchedule_noRoom _ request _ hroom
        (.canonical fn listenerState)
      exact ⟨cap, by simp [addCanonicalSchedule, refusal, hvalid, halloc]⟩

theorem addSchedule_refused (h : Refused app request fn outcomes) (userData : Nat) :
    ∃ cap, addSchedule app request fn userData outcomes =
      ({ app with scheduleCap := cap }, refusal request fn) := by
  cases fn with
  | none => exact ⟨app.scheduleCap, rfl⟩
  | some fn =>
    cases hvalid : request.valid with
    | false => exact ⟨app.scheduleCap, by simp [addSchedule, refusal, hvalid]⟩
    | true =>
      have hroom : NoRoom app outcomes := by
        simpa [Refused, hvalid] using h
      obtain ⟨cap, halloc⟩ := @allocSchedule_noRoom _ request _ hroom (.legacy fn userData)
      exact ⟨cap, by simp [addSchedule, refusal, hvalid, halloc]⟩

theorem addCanonicalSchedule_placed {fn : Nat} (h : ¬ Refused app request (some fn) outcomes)
    (listenerState : Nat) :
    ∃ cap, addCanonicalSchedule app request (some fn) (some listenerState) outcomes =
      if acceptsRuntimeWork app then
        if taskStatus app outcomes = .ok then
          ({ placed app request cap (.canonical fn listenerState) with
              tasks := some (app.tasks.getD [] ++ [app.nextAddress]) }, .ok)
        else
          ({ app with scheduleCap := cap, nextAddress := app.nextAddress + 1 },
            taskStatus app outcomes)
      else (placed app request cap (.canonical fn listenerState), .ok) := by
  simp only [Refused, reduceCtorEq, false_or, not_or, Bool.not_eq_false] at h
  obtain ⟨hvalid, hroom⟩ := h
  obtain ⟨cap, halloc⟩ := @allocSchedule_room _ request _ hroom (.canonical fn listenerState)
  refine ⟨cap, ?_⟩
  simp only [addCanonicalSchedule, hvalid, halloc, if_true]
  have hsame : acceptsRuntimeWork (placed app request cap (.canonical fn listenerState)) =
      acceptsRuntimeWork app := rfl
  have hdrop : dropSchedule (placed app request cap (.canonical fn listenerState)) =
      { app with scheduleCap := cap, nextAddress := app.nextAddress + 1 } := by
    simp [dropSchedule, placed]
  rw [placed] at hsame hdrop
  rw [hsame, placed]
  split
  · cases htasks : app.tasks with
    | none =>
      rw [htasks] at hdrop
      simp only [taskStatus, htasks, true_and]
      cases hcreate : outcomes.create with
      | ok =>
        cases hspawn : outcomes.spawn with
        | ok => rfl
        | _ => simpa using hdrop
      | _ => simpa using hdrop
    | some tasks =>
      rw [htasks] at hdrop
      simp only [taskStatus, htasks, reduceCtorEq, false_and, if_false]
      cases hspawn : outcomes.spawn with
      | ok => rfl
      | _ => simpa using hdrop
  · rfl

theorem addSchedule_placed {fn : Nat} (h : ¬ Refused app request (some fn) outcomes)
    (userData : Nat) :
    ∃ cap, addSchedule app request (some fn) userData outcomes = match app.tasks with
      | none => (placed app request cap (.legacy fn userData), .ok)
      | some tasks =>
        if acceptsRuntimeWork app then
          if outcomes.spawn = .ok then
            ({ placed app request cap (.legacy fn userData) with
                tasks := some (tasks ++ [app.nextAddress]) }, .ok)
          else (placed app request cap (.legacy fn userData), outcomes.spawn)
        else (placed app request cap (.legacy fn userData), .ok) := by
  simp only [Refused, reduceCtorEq, false_or, not_or, Bool.not_eq_false] at h
  obtain ⟨hvalid, hroom⟩ := h
  obtain ⟨cap, halloc⟩ := @allocSchedule_room _ request _ hroom (.legacy fn userData)
  refine ⟨cap, ?_⟩
  simp only [addSchedule, hvalid, halloc, if_true]
  have hsame : acceptsRuntimeWork (placed app request cap (.legacy fn userData)) =
      acceptsRuntimeWork app := rfl
  rw [placed] at hsame
  cases htasks : app.tasks with
  | none => simp only [placed, htasks]
  | some tasks =>
    simp only [htasks] at hsame
    simp only [hsame, placed, htasks]
    split
    · cases hspawn : outcomes.spawn with
      | ok => rfl
      | _ => rfl
    · rfl

end Registration

/-! ## Addresses -/

/-- Addresses that are distinct and taken. -/
def Taken (nextAddress : Nat) (addresses : List Nat) : Prop :=
  addresses.Nodup ∧ ∀ address ∈ addresses, address < nextAddress

theorem Taken.later {nextAddress later : Nat} {addresses : List Nat}
    (h : Taken nextAddress addresses) (hle : nextAddress ≤ later) : Taken later addresses :=
  ⟨h.1, fun address hmem => Nat.lt_of_lt_of_le (h.2 address hmem) hle⟩

theorem Taken.concat {nextAddress : Nat} {addresses : List Nat} (h : Taken nextAddress addresses) :
    Taken (nextAddress + 1) (addresses ++ [nextAddress]) := by
  constructor
  · refine List.nodup_append.mpr ⟨h.1, List.nodup_singleton _, ?_⟩
    intro address hmem other hother
    have hlt := h.2 address hmem
    have heq := List.mem_singleton.mp hother
    omega
  · intro address hmem
    rcases List.mem_append.mp hmem with hmem | hmem
    · exact Nat.lt_succ_of_lt (h.2 address hmem)
    · rw [List.mem_singleton.mp hmem]
      exact Nat.lt_succ_self _

/-- The table has no schedule twice, and neither has a task group; new schedules come after. -/
structure Addressed (app : Scheduler) : Prop where
  schedules : Taken app.nextAddress (app.schedules.map Schedule.address)
  tasks : Taken app.nextAddress (app.tasks.getD [])
  reaping : Taken app.nextAddress (app.reaping.getD [])

theorem taken_nil (nextAddress : Nat) : Taken nextAddress [] :=
  ⟨List.nodup_nil, fun _ hmem => by cases hmem⟩

section Steps

variable {app : Scheduler}

section

variable (h : Addressed app) (request : ScheduleRequest)
include h request

theorem Addressed.placed (cap : Nat)
    (callback : ScheduleCallback) : Addressed (placed app request cap callback) := by
  refine ⟨?_, h.tasks.later (Nat.le_succ _), h.reaping.later (Nat.le_succ _)⟩
  rw [App.placed, List.map_append]
  exact h.schedules.concat

theorem Addressed.spawned (cap : Nat) (callback : ScheduleCallback) :
    Addressed { App.placed app request cap callback with
      tasks := some (app.tasks.getD [] ++ [app.nextAddress]) } :=
  ⟨(h.placed request cap callback).schedules, h.tasks.concat, h.reaping.later (Nat.le_succ _)⟩

theorem addCanonicalSchedule_addressed (fn listenerState : Option Nat) (outcomes : Outcomes) :
    Addressed (addCanonicalSchedule app request fn listenerState outcomes).1 := by
  cases fn with
  | none => exact h
  | some fn =>
    cases listenerState with
    | none => exact h
    | some listenerState =>
      by_cases hrefused : Refused app request (some fn) outcomes
      · obtain ⟨cap, heq⟩ := addCanonicalSchedule_refused hrefused listenerState
        rw [heq]
        exact ⟨h.schedules, h.tasks, h.reaping⟩
      · obtain ⟨cap, heq⟩ := addCanonicalSchedule_placed hrefused listenerState
        rw [heq]
        split_ifs
        · exact h.spawned request cap _
        · exact ⟨h.schedules.later (Nat.le_succ _), h.tasks.later (Nat.le_succ _),
            h.reaping.later (Nat.le_succ _)⟩
        · exact h.placed request cap _

theorem addSchedule_addressed (fn : Option Nat) (userData : Nat) (outcomes : Outcomes) :
    Addressed (addSchedule app request fn userData outcomes).1 := by
  cases fn with
  | none => exact h
  | some fn =>
    by_cases hrefused : Refused app request (some fn) outcomes
    · obtain ⟨cap, heq⟩ := addSchedule_refused hrefused userData
      rw [heq]
      exact ⟨h.schedules, h.tasks, h.reaping⟩
    · obtain ⟨cap, heq⟩ := addSchedule_placed hrefused userData
      rw [heq]
      cases htasks : app.tasks with
      | none => exact h.placed request cap _
      | some tasks =>
        have hspawned := h.spawned request cap (.legacy fn userData)
        rw [htasks] at hspawned
        simp only
        split_ifs
        · exact hspawned
        · exact h.placed request cap _
        · exact h.placed request cap _

end

theorem Addressed.cancel (h : Addressed app) (address : Nat) :
    Addressed (cancelCanonicalSchedule app address) := by
  have hsub : (cancelCanonicalSchedule app address).schedules.Sublist app.schedules :=
    List.eraseP_sublist
  exact ⟨⟨h.schedules.1.sublist (hsub.map _), fun address hmem =>
    h.schedules.2 address ((hsub.map _).subset hmem)⟩, h.tasks, h.reaping⟩

theorem Addressed.requestStop (h : Addressed app) : Addressed (requestStopSchedules app) := by
  refine ⟨?_, h.tasks, h.reaping⟩
  have hsame : (requestStopSchedules app).schedules.map Schedule.address =
      app.schedules.map Schedule.address := by
    rw [requestStopSchedules, List.map_map]
    rfl
  rw [hsame]
  exact h.schedules

theorem Addressed.reap (h : Addressed app) : Addressed (reapSchedules app) := by
  rw [reapSchedules]
  split
  · next tasks _ htasks =>
    refine ⟨h.schedules, taken_nil _, ?_⟩
    have hgroup := h.tasks
    rw [htasks] at hgroup
    exact hgroup
  · exact h

theorem Addressed.reaped (h : Addressed app) (status : Status) :
    Addressed (reapedSchedules app status) := by
  rw [reapedSchedules]
  split
  · exact h
  · next tasks hreaping =>
    refine ⟨h.schedules, ?_, taken_nil _⟩
    have hgroup := h.reaping
    rw [hreaping] at hgroup
    simp only
    split
    · exact h.tasks
    · exact hgroup

theorem spawnSchedules_spec (schedules : List Schedule) (spawns : List Status) :
    (spawnSchedules schedules spawns).1.map Schedule.address = schedules.map Schedule.address ∧
    (spawnSchedules schedules spawns).2.1.Sublist (schedules.map Schedule.address) ∧
    ((spawnSchedules schedules spawns).2.2 = .ok →
      (spawnSchedules schedules spawns).2.1 = schedules.map Schedule.address) := by
  induction schedules generalizing spawns with
  | nil => exact ⟨rfl, List.Sublist.slnil, fun _ => rfl⟩
  | cons schedule rest ih =>
    obtain ⟨haddresses, hsub, hall⟩ := ih spawns.tail
    rw [spawnSchedules]
    cases spawns.headD .ok with
    | ok =>
      refine ⟨?_, hsub.cons_cons _, fun hok => ?_⟩
      · rw [List.map_cons, haddresses, List.map_cons]
      · simp only [hall hok, List.map_cons]
    | _ => exact ⟨rfl, List.nil_sublist _, fun hok => by cases hok⟩

theorem Addressed.start (h : Addressed app) (create : Status) (spawns : List Status) :
    Addressed (startSchedules app create spawns).1 := by
  unfold startSchedules
  split
  · exact h
  · split
    · exact h
    · split
      · exact ⟨h.schedules, h.tasks, h.reaping⟩
      · split
        · obtain ⟨haddresses, hsub, -⟩ := spawnSchedules_spec app.schedules spawns
          have hspawned : Addressed
              { app with
                taskReapStatus := .ok
                schedules := (spawnSchedules app.schedules spawns).1
                tasks := some (spawnSchedules app.schedules spawns).2.1 } := by
            refine ⟨by rw [haddresses]; exact h.schedules, ⟨?_, ?_⟩, h.reaping⟩
            · exact h.schedules.1.sublist hsub
            · exact fun address hmem => h.schedules.2 address (hsub.subset hmem)
          simp only
          split
          · exact hspawned
          · exact hspawned.requestStop.reap
        · exact h

/-- **Whatever the application does**, no schedule is in the table twice, and none has two tasks. -/
theorem step_addressed (h : Addressed app) (move : ScheduleMove) :
    Addressed (scheduleStep app move) := by
  cases move with
  | addCanonical request fn listenerState outcomes =>
    exact addCanonicalSchedule_addressed h request fn listenerState outcomes
  | add request fn userData outcomes => exact addSchedule_addressed h request fn userData outcomes
  | cancel address => exact h.cancel address
  | start client create spawns =>
    rw [scheduleStep]
    unfold startApp
    cases client with
    | ok =>
      have hstarted : Addressed { app with stopping := false, started := true } :=
        ⟨h.schedules, h.tasks, h.reaping⟩
      exact hstarted.start create spawns
    | _ => exact ⟨h.schedules, h.tasks, h.reaping⟩
  | stop =>
    have hstopping : Addressed { app with stopping := true } :=
      ⟨h.schedules, h.tasks, h.reaping⟩
    exact hstopping.requestStop
  | reap => exact h.reap
  | reaped status => exact h.reaped status
  | ended => exact ⟨h.schedules, h.tasks, h.reaping⟩

theorem reach_addressed (h : Reach scheduleStep (fun _ _ => True) Scheduler.new app) :
    Addressed app :=
  h.invariant ⟨taken_nil _, taken_nil _, taken_nil _⟩ fun _ move happ _ => step_addressed happ move

end Steps

/-! ## Consistency -/

/-- A registration that fails leaves the schedules and the tasks as they were; one that succeeds
adds one schedule, and one task for it when the application runs. -/
structure Consistent (app : Scheduler) (result : Scheduler × Status) : Prop where
  failed : result.2 ≠ .ok → result.1.schedules = app.schedules ∧ result.1.tasks = app.tasks
  succeeded : result.2 = .ok →
    ∃ schedule, schedule ∉ app.schedules ∧ result.1.schedules = app.schedules ++ [schedule] ∧
      (acceptsRuntimeWork app = true → (result.1.tasks.getD []).count schedule.address = 1)

/-- A schedule without what it calls. -/
def Schedule.timing (schedule : Schedule) : Nat × ScheduleKind × UInt64 × UInt8 × UInt8 × Bool :=
  (schedule.address, schedule.kind, schedule.intervalMs, schedule.hour, schedule.minute,
    schedule.cancelled)

/-- The same status, the same schedules at the same times, and the same tasks. -/
structure SameResult (left right : Scheduler × Status) : Prop where
  status : left.2 = right.2
  schedules : left.1.schedules.map Schedule.timing = right.1.schedules.map Schedule.timing
  tasks : left.1.tasks = right.1.tasks

/-- The schedule needs no task of its own now, or it can have one in the task group that is
there. -/
def TaskAtHand (app : Scheduler) (request : ScheduleRequest) (fn : Option Nat)
    (outcomes : Outcomes) : Prop :=
  Refused app request fn outcomes ∨ acceptsRuntimeWork app = false ∨
    (app.tasks.isSome = true ∧ outcomes.spawn = .ok)

section Consistency

variable {app : Scheduler} {request : ScheduleRequest} {outcomes : Outcomes}

theorem Addressed.fresh (h : Addressed app) (callback : ScheduleCallback) :
    newSchedule app request callback ∉ app.schedules := by
  intro hmem
  have hlt := h.schedules.2 _ (List.mem_map_of_mem hmem)
  exact absurd hlt (Nat.lt_irrefl _)

theorem Addressed.count_spawned (h : Addressed app) :
    (app.tasks.getD [] ++ [app.nextAddress]).count app.nextAddress = 1 :=
  List.count_eq_one_of_mem h.tasks.concat.1 (List.mem_append_right _ (List.mem_singleton_self _))

/-- **The canonical function is consistent** in every state. -/
theorem canonical_consistent (h : Addressed app) (fn listenerState : Option Nat) :
    Consistent app (addCanonicalSchedule app request fn listenerState outcomes) := by
  have hkept : ∀ cap status, status ≠ .ok →
      Consistent app ({ app with scheduleCap := cap }, status) := fun cap status hstatus =>
    ⟨fun _ => ⟨rfl, rfl⟩, fun hok => absurd hok hstatus⟩
  cases fn with
  | none => exact hkept app.scheduleCap .invalidArg (by simp)
  | some fn =>
    cases listenerState with
    | none => exact hkept app.scheduleCap .invalidArg (by simp)
    | some listenerState =>
      by_cases hrefused : Refused app request (some fn) outcomes
      · obtain ⟨cap, heq⟩ := addCanonicalSchedule_refused hrefused listenerState
        rw [heq]
        exact hkept cap _ refusal_ne_ok
      · obtain ⟨cap, heq⟩ := addCanonicalSchedule_placed hrefused listenerState
        rw [heq]
        split_ifs with hrunning hspawned
        · exact ⟨fun hne => absurd rfl hne, fun _ =>
            ⟨_, h.fresh _, rfl, fun _ => h.count_spawned⟩⟩
        · exact ⟨fun _ => ⟨rfl, rfl⟩, fun hok => absurd hok hspawned⟩
        · exact ⟨fun hne => absurd rfl hne, fun _ =>
            ⟨_, h.fresh _, rfl, fun hrun => absurd hrun hrunning⟩⟩

/-- **The older function** is consistent exactly when the task is at hand. -/
theorem legacy_consistent_iff (h : Addressed app) (fn : Option Nat) (userData : Nat) :
    Consistent app (addSchedule app request fn userData outcomes) ↔
      TaskAtHand app request fn outcomes := by
  by_cases hrefused : Refused app request fn outcomes
  · obtain ⟨cap, heq⟩ := addSchedule_refused hrefused userData
    rw [heq]
    exact ⟨fun _ => Or.inl hrefused, fun _ =>
      ⟨fun _ => ⟨rfl, rfl⟩, fun hok => absurd hok refusal_ne_ok⟩⟩
  · obtain ⟨fn, rfl⟩ : ∃ callback, fn = some callback :=
      Option.ne_none_iff_exists'.mp fun hnone => hrefused (Or.inl hnone)
    obtain ⟨cap, heq⟩ := addSchedule_placed hrefused userData
    have hidle : acceptsRuntimeWork app = false →
        Consistent app (placed app request cap (.legacy fn userData), .ok) := fun hrun =>
      ⟨fun hne => absurd rfl hne, fun _ => ⟨_, h.fresh _, rfl, fun hyes => by
        rw [hrun] at hyes
        cases hyes⟩⟩
    rw [heq, TaskAtHand]
    cases hrun : acceptsRuntimeWork app with
    | false =>
      cases htasks : app.tasks with
      | none => exact ⟨fun _ => Or.inr (Or.inl rfl), fun _ => hidle hrun⟩
      | some tasks => exact ⟨fun _ => Or.inr (Or.inl rfl), fun _ => hidle hrun⟩
    | true =>
      cases htasks : app.tasks with
      | none =>
        constructor
        · intro hconsistent
          obtain ⟨schedule, -, happend, hcount⟩ := hconsistent.succeeded rfl
          have hlast := List.append_cancel_left happend
          have hone := hcount hrun
          have hzero : (placed app request cap (.legacy fn userData)).tasks = none := htasks
          rw [hzero] at hone
          cases hone
        · intro hcases
          simp [hrefused] at hcases
      | some tasks =>
        by_cases hspawn : outcomes.spawn = .ok
        · have hcount := h.count_spawned
          rw [htasks] at hcount
          simp only [if_true, if_pos hspawn]
          exact ⟨fun _ => Or.inr (Or.inr ⟨rfl, hspawn⟩), fun _ =>
            ⟨fun hne => absurd rfl hne, fun _ => ⟨_, h.fresh _, rfl, fun _ => hcount⟩⟩⟩
        · simp only [if_true, if_neg hspawn]
          constructor
          · intro hconsistent
            have hsame := (hconsistent.failed hspawn).1
            simp [placed] at hsame
          · intro hcases
            simp [hrefused, hspawn] at hcases

/-- **The two functions agree** exactly when the task is at hand. -/
theorem sameResult_iff (fn : Option Nat) (userData listenerState : Nat) :
    SameResult (addSchedule app request fn userData outcomes)
        (addCanonicalSchedule app request fn (some listenerState) outcomes) ↔
      TaskAtHand app request fn outcomes := by
  by_cases hrefused : Refused app request fn outcomes
  · obtain ⟨cap, hlegacy⟩ := addSchedule_refused hrefused userData
    obtain ⟨cap', hcanonical⟩ := addCanonicalSchedule_refused hrefused listenerState
    rw [hlegacy, hcanonical]
    exact ⟨fun _ => Or.inl hrefused, fun _ => ⟨rfl, rfl, rfl⟩⟩
  · obtain ⟨fn, rfl⟩ : ∃ callback, fn = some callback :=
      Option.ne_none_iff_exists'.mp fun hnone => hrefused (Or.inl hnone)
    obtain ⟨cap, hlegacy⟩ := addSchedule_placed hrefused userData
    obtain ⟨cap', hcanonical⟩ := addCanonicalSchedule_placed hrefused listenerState
    have htiming : (placed app request cap (.legacy fn userData)).schedules.map Schedule.timing =
        (placed app request cap' (.canonical fn listenerState)).schedules.map Schedule.timing := by
      simp [placed, newSchedule, Schedule.timing]
    have hlonger : (placed app request cap (.legacy fn userData)).schedules.map Schedule.timing ≠
        app.schedules.map Schedule.timing := by
      intro hsame
      have hlength := congrArg List.length hsame
      simp [placed] at hlength
    rw [hlegacy, hcanonical, TaskAtHand]
    cases hrun : acceptsRuntimeWork app with
    | false =>
      cases htasks : app.tasks with
      | none => exact ⟨fun _ => Or.inr (Or.inl rfl), fun _ => ⟨rfl, htiming, rfl⟩⟩
      | some tasks => exact ⟨fun _ => Or.inr (Or.inl rfl), fun _ => ⟨rfl, htiming, rfl⟩⟩
    | true =>
      cases htasks : app.tasks with
      | none =>
        constructor
        · intro hsame
          simp only [if_true] at hsame
          split at hsame
          · have htask := hsame.tasks
            rw [placed, placed] at htask
            rw [htasks] at htask
            cases htask
          · exact absurd hsame.schedules hlonger
        · intro hcases
          simp [hrefused] at hcases
      | some tasks =>
        have hstatus : taskStatus app outcomes = outcomes.spawn := by
          simp [taskStatus, htasks]
        simp only [if_true, hstatus]
        by_cases hspawn : outcomes.spawn = .ok
        · rw [if_pos hspawn, if_pos hspawn]
          exact ⟨fun _ => Or.inr (Or.inr ⟨rfl, hspawn⟩), fun _ => ⟨rfl, htiming, rfl⟩⟩
        · rw [if_neg hspawn, if_neg hspawn]
          constructor
          · intro hsame
            exact absurd hsame.schedules hlonger
          · intro hcases
            simp [hrefused, hspawn] at hcases

end Consistency

/-- **Registering a schedule.**  In every state the canonical function is consistent; the older
one is, and gives the same result, exactly when the task of the schedule is at hand. -/
theorem schedule_registration {app : Scheduler}
    (h : Reach scheduleStep (fun _ _ => True) Scheduler.new app) (request : ScheduleRequest)
    (outcomes : Outcomes) :
    (∀ fn listenerState,
      Consistent app (addCanonicalSchedule app request fn listenerState outcomes)) ∧
    (∀ fn userData, Consistent app (addSchedule app request fn userData outcomes) ↔
      TaskAtHand app request fn outcomes) ∧
    (∀ fn userData listenerState, SameResult (addSchedule app request fn userData outcomes)
          (addCanonicalSchedule app request fn (some listenerState) outcomes) ↔
        TaskAtHand app request fn outcomes) :=
  ⟨canonical_consistent (reach_addressed h), legacy_consistent_iff (reach_addressed h),
    sameResult_iff⟩

/-! ## A schedule without a task -/

/-- Every second. -/
def everySecond : ScheduleRequest := ⟨.interval, 1000, 0, 0⟩

/-- Everything succeeds. -/
def Outcomes.good : Outcomes := ⟨true, true, .ok, .ok⟩

theorem schedule_registration_new :
    Reach scheduleStep (fun _ _ => True) Scheduler.new Scheduler.new ∧
    ((∀ fn listenerState, Consistent Scheduler.new
      (addCanonicalSchedule Scheduler.new everySecond fn listenerState .good)) ∧
    (∀ fn userData, Consistent Scheduler.new
        (addSchedule Scheduler.new everySecond fn userData .good) ↔
      TaskAtHand Scheduler.new everySecond fn .good) ∧
    (∀ fn userData listenerState,
      SameResult (addSchedule Scheduler.new everySecond fn userData .good)
          (addCanonicalSchedule Scheduler.new everySecond fn (some listenerState) .good) ↔
        TaskAtHand Scheduler.new everySecond fn .good)) :=
  ⟨Reach.start, schedule_registration Reach.start everySecond .good⟩

/-- An application that was started without a schedule runs, and the older function registers a
schedule that has no task. -/
theorem schedule_without_task :
    ¬ ∀ app, Reach scheduleStep (fun _ _ => True) Scheduler.new app → ∀ request outcomes,
      (∀ fn listenerState,
        Consistent app (addCanonicalSchedule app request fn listenerState outcomes)) ∧
      (∀ fn userData, Consistent app (addSchedule app request fn userData outcomes)) ∧
      ∀ fn userData listenerState, SameResult (addSchedule app request fn userData outcomes)
          (addCanonicalSchedule app request fn (some listenerState) outcomes) := by
  intro h
  have hstarted : Reach scheduleStep (fun _ _ => True) Scheduler.new
      (scheduleStep Scheduler.new (.start .ok .ok [])) := Reach.start.step trivial
  have hagree := (h _ hstarted everySecond .good).2.2 (some 1) 0 0
  have htasks := hagree.tasks
  revert htasks
  decide

end Dcc.App
