import Mathlib.Logic.Function.Basic
import Dcc.Basic

/-!
# The supervisor of a cluster

A task of the cluster looks at the shards one after another.  Where the gateway task of a shard has
ended with an error, it asks the policy of the application, or takes the default, and starts the
gateway again after a delay or gives the shard up.  The flags of a client are atomics and the
health of the shards has a lock: a load, a store or a locked section is one step here, and the
gateway tasks and the application take their steps in between.

* `step_tracked` — where a shard stands, whoever takes the next step;
* `ends_decided` — so each end of a gateway task is answered once, and no shard has two tasks;
* `restart_budget` — which restarts the default grants, and after what delay.
-/

namespace Dcc.Restart

/-- `dcc_cluster_restart_policy_t`. -/
structure RestartPolicy where
  maxRestarts : UInt32
  baseDelayMs : UInt32
  maxDelayMs : UInt32

/-- `dcc_cluster_restart_policy_normalize`. -/
def RestartPolicy.normalize (policy : RestartPolicy) : RestartPolicy :=
  let base := if policy.baseDelayMs = 0 then 250 else policy.baseDelayMs
  let limit := if policy.maxDelayMs = 0 then 5000 else policy.maxDelayMs
  ⟨policy.maxRestarts, base, if limit < base then base else limit⟩

/-- The loop of `dcc_cluster_restart_delay_ms`. -/
def doubled (maxDelay : Nat) : Nat → Nat → Nat
  | 0, delay => delay
  | shifts + 1, delay =>
    if delay < maxDelay then doubled maxDelay shifts (min (delay * 2) maxDelay) else delay

/-- `dcc_cluster_restart_delay_ms`. -/
def restartDelayMs (policy : RestartPolicy) (restarts : UInt64) : UInt32 :=
  let delay := if policy.baseDelayMs = 0 then 250 else policy.baseDelayMs.toNat
  let maxDelay := if policy.maxDelayMs = 0 then 5000 else policy.maxDelayMs.toNat
  .ofNat (doubled maxDelay (min restarts.toNat 16) delay)

/-- `dcc_cluster_supervisor_decision_t`, and all other numbers. -/
inductive Decision
  | default
  | restart
  | suppress
  | other

/-- `dcc_cluster_supervisor_action_t`; `sized` says that its size is not too small. -/
structure Action where
  sized : Bool
  decision : Decision
  delayMs : UInt32

/-- `dcc_cluster_supervisor_action_init`. -/
def Action.init : Action := ⟨true, .default, 0⟩

/-- `dcc_cluster_supervisor_decide`; `answer` is what the policy of the application returns and
leaves in the action, where there is a policy. -/
def supervisorDecide (answer : Option (Status × Action)) : Status × Action :=
  match answer with
  | none => (.ok, .init)
  | some (status, action) =>
    if status ≠ .ok then (status, action)
    else if action.sized = false then (.invalidArg, action)
    else
      match action.decision with
      | .other => (.invalidArg, action)
      | _ => (.ok, action)

/-- `dcc_cluster_shard_status_t`. -/
inductive ShardStatus
  | created
  | starting
  | ready
  | stopping
  | stopped
  | error
  deriving DecidableEq

/-- `dcc_cluster_shard_info_t`. -/
structure ShardInfo where
  status : ShardStatus
  restartAttempts : UInt64
  restarts : UInt64
  restartSuppressed : UInt64
  restartBudgetUsed : UInt64
  logErrors : UInt64

/-- What is left to do of `dcc_gateway_task`. -/
inductive Task
  | run
  | storeStatus (status : Status)
  | storeRunning
  | storeCompleted

/-- What is left to do of `dcc_gateway_start`. -/
inductive StartStage
  | check
  | clearStatus
  | clearCompleted
  | setRunning
  | spawn
  | clearRunning (status : Status)
  | setCompleted (status : Status)
  | setStatus (status : Status)

/-- A restart that the supervisor has decided upon. -/
structure Grant where
  byDefault : Bool
  delayMs : UInt32

/-- The flags of a client, its gateway task and its health.  The rest is a record: how often a
gateway task has ended, how many of the ends the supervisor has decided upon and how many it has
dropped, and the restarts since the budget was filled. -/
structure Shard where
  stopping : Bool
  running : Bool
  completed : Bool
  lastStatus : Status
  task : Option Task
  info : ShardInfo
  ends : Nat
  decided : Nat
  dropped : Nat
  grants : List Grant

/-- A shard after `dcc_cluster_start`. -/
def Shard.start : Shard :=
  ⟨false, true, false, .ok, some .run, ⟨.starting, 0, 0, 0, 0, 0⟩, 0, 0, 0, []⟩

/-- `dcc_gateway_task`; `status` is what `dcc_gateway_run` returns. -/
def Shard.taskStep (s : Shard) (status : Status) : Shard :=
  match s.task with
  | none => s
  | some .run => { s with task := some (.storeStatus status) }
  | some (.storeStatus status) => { s with lastStatus := status, task := some .storeRunning }
  | some .storeRunning => { s with running := false, task := some .storeCompleted }
  | some .storeCompleted => { s with completed := true, task := none, ends := s.ends + 1 }

/-- `dcc_gateway_start` of a client with a URL or a token; `spawn` is what `dcc_runtime_spawn`
returns. -/
def Shard.startStep (s : Shard) (spawn : Status) : StartStage → Shard × (StartStage ⊕ Status)
  | .check => (s, if s.running then .inr .state else .inl .clearStatus)
  | .clearStatus => ({ s with lastStatus := .ok }, .inl .clearCompleted)
  | .clearCompleted => ({ s with completed := false }, .inl .setRunning)
  | .setRunning => ({ s with running := true }, .inl .spawn)
  | .spawn =>
    if spawn = .ok then ({ s with task := some .run }, .inr .ok) else (s, .inl (.clearRunning spawn))
  | .clearRunning status => ({ s with running := false }, .inl (.setCompleted status))
  | .setCompleted status =>
    ({ s with completed := true, ends := s.ends + 1 }, .inl (.setStatus status))
  | .setStatus status => ({ s with lastStatus := status }, .inr status)

/-- What `dcc_cluster_supervisor_task` does next. -/
inductive Supervisor
  | round
  | stopping (i : Nat)
  | completed (i : Nat)
  | running (i : Nat)
  | lastStatus (i : Nat)
  | drop (i : Nat)
  | decide (i : Nat) (gatewayStatus : Status)
  | apply (i : Nat) (actionStatus : Status) (action : Action)
  | waiting (i remaining : Nat)
  | stoppingAgain (i : Nat)
  | starting (i : Nat) (stage : StartStage)
  | record (i : Nat) (status : Status)
  | resting (remaining : Nat)
  | ended

/-- `dcc_cluster_t`; `stop` is `supervisor_stop`. -/
structure Cluster where
  restartPolicy : RestartPolicy
  shardCount : Nat
  shards : Nat → Shard
  stop : Bool
  supervisor : Supervisor

/-- A cluster after `dcc_cluster_start`. -/
def Cluster.start (policy : RestartPolicy) (shardCount : Nat) : Cluster :=
  ⟨policy.normalize, shardCount, fun _ => .start, false, .round⟩

variable (c : Cluster)

def Cluster.modify (i : Nat) (f : Shard → Shard) : Cluster :=
  { c with shards := Function.update c.shards i (f (c.shards i)) }

/-- The loop of the supervisor over the shards. -/
def Cluster.look (i : Nat) : Cluster :=
  { c with supervisor := if i < c.shardCount then .stopping i else .resting 100 }

/-- The part of `dcc_cluster_supervisor_apply_action` about the shard, with the delay of a restart;
`dcc_cluster_supervisor_apply_decision_error` is the first case. -/
def Shard.applyAction (policy : RestartPolicy) (actionStatus : Status) (action : Action)
    (s : Shard) : Shard × Option UInt32 :=
  let restart (grant : Grant) : Shard × Option UInt32 :=
    ({ s with
        info := { s.info with
          restartAttempts := s.info.restartAttempts + 1
          restartBudgetUsed := s.info.restartBudgetUsed + 1
          status := .starting }
        decided := s.decided + 1
        grants := s.grants ++ [grant] }, some grant.delayMs)
  let suppress : Shard × Option UInt32 :=
    ({ s with
        info := { s.info with
          restartSuppressed := s.info.restartSuppressed + 1
          status := .error }
        completed := false
        decided := s.decided + 1 }, none)
  if actionStatus ≠ .ok then
    ({ s with
        info := { s.info with status := .error, logErrors := s.info.logErrors + 1 }
        completed := false
        decided := s.decided + 1 }, none)
  else
    match action.decision with
    | .suppress => suppress
    | .restart => restart ⟨false, action.delayMs⟩
    | _ =>
      if s.info.restartBudgetUsed.toNat < policy.maxRestarts.toNat then
        restart ⟨true, restartDelayMs policy s.info.restartBudgetUsed⟩
      else suppress

/-- `dcc_cluster_supervisor_apply_action`. -/
def Cluster.applyAction (i : Nat) (actionStatus : Status) (action : Action) : Cluster :=
  let (s, delay) := (c.shards i).applyAction c.restartPolicy actionStatus action
  let c := c.modify i fun _ => s
  match delay with
  | none => c.look (i + 1)
  | some delayMs => { c with supervisor := .waiting i delayMs.toNat }

/-- `dcc_cluster_supervisor_record_gateway_start_result`. -/
def ShardInfo.recordStart (info : ShardInfo) (status : Status) : ShardInfo :=
  if status = .ok then { info with restarts := info.restarts + 1, status := .starting }
  else { info with status := .error, logErrors := info.logErrors + 1 }

/-- `dcc_cluster_supervisor_task`, with `dcc_cluster_supervisor_wait`. -/
def Cluster.supervise (answer : Option (Status × Action)) (spawn : Status) : Cluster :=
  match c.supervisor with
  | .round => if c.stop then { c with supervisor := .ended } else c.look 0
  | .stopping i =>
    if (c.shards i).stopping then c.look (i + 1) else { c with supervisor := .completed i }
  | .completed i =>
    if (c.shards i).completed then { c with supervisor := .running i } else c.look (i + 1)
  | .running i =>
    if (c.shards i).running then c.look (i + 1) else { c with supervisor := .lastStatus i }
  | .lastStatus i =>
    { c with supervisor :=
        if (c.shards i).lastStatus = .ok then .drop i else .decide i (c.shards i).lastStatus }
  | .drop i =>
    (c.modify i fun s => { s with completed := false, dropped := s.dropped + 1 }).look (i + 1)
  | .decide i _ =>
    let (status, action) := supervisorDecide answer
    { c with supervisor := .apply i status action }
  | .apply i actionStatus action => c.applyAction i actionStatus action
  | .waiting i remaining =>
    if c.stop then c.look (i + 1)
    else if remaining = 0 then { c with supervisor := .stoppingAgain i }
    else { c with supervisor := .waiting i (remaining - min remaining 100) }
  | .stoppingAgain i =>
    if (c.shards i).stopping then c.look (i + 1) else { c with supervisor := .starting i .check }
  | .starting i stage =>
    let (s, next) := (c.shards i).startStep spawn stage
    { c.modify i fun _ => s with supervisor :=
        match next with
        | .inl stage => .starting i stage
        | .inr status => .record i status }
  | .record i status =>
    (c.modify i fun s => { s with info := s.info.recordStart status }).look (i + 1)
  | .resting remaining =>
    { c with supervisor :=
        if c.stop ∨ remaining = 0 then .round else .resting (remaining - min remaining 100) }
  | .ended => c

/-- What else is written to the health of a shard: by `dcc_cluster_health_event` for READY, RESUMED
and LOG events, and by `dcc_cluster_drain_shard`, `dcc_cluster_reconnect_shard` and
`dcc_cluster_stop`. -/
inductive HealthEvent
  | ready
  | logError
  | drain
  | reconnect
  | failed
  | stop

def ShardInfo.note (info : ShardInfo) : HealthEvent → ShardInfo
  | .ready => { info with status := .ready }
  | .logError => { info with status := .error, logErrors := info.logErrors + 1 }
  | .drain => { info with status := .stopping }
  | .reconnect => { info with status := .starting, restartAttempts := info.restartAttempts + 1 }
  | .failed => { info with status := .error }
  | .stop =>
    if info.status ≠ .stopped ∧ info.status ≠ .error then { info with status := .stopping } else info

/-- `dcc_cluster_rearm_info_restart`, while the cluster is started, or
`dcc_cluster_reset_info_counters`. -/
inductive Refill
  | rearm
  | reset

def Refill.apply (s : Shard) : Refill → Shard
  | .rearm =>
    { s with
      info := { s.info with
        restartBudgetUsed := 0
        status :=
          if s.info.status = .error ∧ s.info.restartSuppressed ≠ 0 then .stopped
          else s.info.status }
      grants := [] }
  | .reset => { s with info := ⟨s.info.status, 0, 0, 0, 0, 0⟩, grants := [] }

/-- A step of the supervisor, of a gateway task, of the application or of an event handler:
`stopShard` is `dcc_client_stop`, `stop` the store of `dcc_cluster_stop`, and `refillAll` covers
`dcc_cluster_rearm_all_shard_restarts` and `dcc_cluster_reset_all_counters`. -/
inductive Move
  | supervisor (answer : Option (Status × Action)) (spawn : Status)
  | task (i : Nat) (status : Status)
  | stopShard (i : Nat)
  | stop
  | health (i : Nat) (event : HealthEvent)
  | refill (i : Nat) (refill : Refill)
  | refillAll (refill : Refill)

def Cluster.step : Move → Cluster
  | .supervisor answer spawn => c.supervise answer spawn
  | .task i status => c.modify i (·.taskStep status)
  | .stopShard i => c.modify i fun s => { s with stopping := true }
  | .stop => { c with stop := true }
  | .health i event => c.modify i fun s => { s with info := s.info.note event }
  | .refill i refill => c.modify i refill.apply
  | .refillAll refill =>
    { c with shards := fun i => if i < c.shardCount then refill.apply (c.shards i) else c.shards i }


/-! ## Where a shard stands -/

/-- A task that has not stored its end in `gateway_task_running`. -/
def Task.isRunning : Task → Bool
  | .storeCompleted => false
  | _ => true

/-- The ends that the supervisor has seen. -/
def Shard.handled (s : Shard) : Nat := s.decided + s.dropped

/-- A shard without a task: its two flags, and whether its last end is unseen. -/
def Shard.Idle (s : Shard) (running completed due : Bool) : Prop :=
  s.task = none ∧ s.running = running ∧ s.completed = completed ∧ s.ends = s.handled + due.toNat

/-- A shard that the supervisor is not occupied with.  An end that it has decided upon keeps its
flag where the restart was abandoned, and then the shard is left alone. -/
def Shard.Free (s : Shard) (left : Prop) : Prop :=
  (∃ task, s.task = some task ∧ s.running = task.isRunning ∧ s.completed = false ∧
    s.ends = s.handled) ∨
  (∃ completed, s.Idle false completed completed) ∨ left ∧ s.Idle false true false

/-- What the supervisor knows of the shard that it is occupied with. -/
inductive Hold
  | seen
  | granted
  | starting (stage : StartStage)

/-- Then the shard has no task: the flags, and whether its last end is unseen. -/
def Hold.flags : Hold → Bool × Bool × Bool
  | .seen | .starting (.setStatus _) => (false, true, true)
  | .granted | .starting .check | .starting .clearStatus | .starting .clearCompleted =>
    (false, true, false)
  | .starting .setRunning | .starting (.setCompleted _) => (false, false, false)
  | .starting .spawn | .starting (.clearRunning _) => (true, false, false)

def Hold.Fits (hold : Hold) (s : Shard) : Prop :=
  s.Idle hold.flags.1 hold.flags.2.1 hold.flags.2.2

/-- The shard that the supervisor looks at. -/
def Supervisor.index : Supervisor → Option Nat
  | .round | .resting _ | .ended => none
  | .stopping i | .completed i | .running i | .lastStatus i | .drop i | .decide i _
  | .apply i _ _ | .waiting i _ | .stoppingAgain i | .starting i _ | .record i _ => some i

def Supervisor.hold : Supervisor → Option Hold
  | .running _ | .lastStatus _ | .drop _ | .decide _ _ | .apply _ _ _ => some .seen
  | .waiting _ _ | .stoppingAgain _ => some .granted
  | .starting _ stage => some (.starting stage)
  | _ => none

/-- The supervisor will not look at the shard again: the shard is stopped, or the supervisor is and
has passed it.  It has not just seen that the shard is not stopped. -/
def Cluster.Left (i : Nat) : Prop :=
  c.supervisor ≠ .completed i ∧
    ((c.shards i).stopping = true ∨ c.stop = true ∧ ∀ j, c.supervisor.index = some j → i < j)

/-- **Where a shard stands between two steps.** -/
def Cluster.Tracked (i : Nat) : Prop :=
  if c.supervisor.index = some i then
    match c.supervisor.hold with
    | some hold => hold.Fits (c.shards i)
    | none => (c.shards i).Free (c.Left i)
  else (c.shards i).Free (c.Left i)

variable {c} {i j : Nat}

/-- Two shards that stand at the same point. -/
structure Shard.Same (s s' : Shard) : Prop where
  task : s'.task = s.task
  running : s'.running = s.running
  completed : s'.completed = s.completed
  ends : s'.ends = s.ends
  handled : s'.handled = s.handled

theorem Shard.Same.rfl {s : Shard} : s.Same s := ⟨.refl _, .refl _, .refl _, .refl _, .refl _⟩

theorem Shard.Same.idle {s s' : Shard} (h : s.Same s') {running completed due : Bool} :
    s'.Idle running completed due ↔ s.Idle running completed due := by
  rw [Idle, Idle, h.task, h.running, h.completed, h.ends, h.handled]

theorem Shard.Free.mono {s s' : Shard} {left left' : Prop} (h : s.Free left) (hsame : s.Same s')
    (hleft : left → left') : s'.Free left' := by
  refine h.imp ?_ (.imp ?_ (.imp hleft hsame.idle.mpr))
  · rw [hsame.task, hsame.running, hsame.completed, hsame.ends, hsame.handled]
    exact id
  · exact fun ⟨completed, hidle⟩ => ⟨completed, hsame.idle.mpr hidle⟩

theorem Hold.Fits.mono {s s' : Shard} {hold : Hold} (h : hold.Fits s) (hsame : s.Same s') :
    hold.Fits s' :=
  hsame.idle.mpr h

@[simp] theorem modify_self (f : Shard → Shard) : (c.modify i f).shards i = f (c.shards i) :=
  Function.update_self _ _ _

theorem modify_other (f : Shard → Shard) (h : i ≠ j) : (c.modify j f).shards i = c.shards i :=
  Function.update_of_ne h _ _

theorem tracked_free (h : c.Tracked i) (hhold : c.supervisor.index = some i → c.supervisor.hold = none) :
    (c.shards i).Free (c.Left i) := by
  unfold Cluster.Tracked at h
  split at h
  · next hi => rwa [hhold hi] at h
  · exact h

theorem tracked_of_free {s : Shard} (h : s.Free (c.Left i)) (hs : c.shards i = s)
    (hhold : c.supervisor.index = some i → c.supervisor.hold = none) : c.Tracked i := by
  subst hs
  unfold Cluster.Tracked
  split
  · next hi => rwa [hhold hi]
  · exact h

theorem tracked_fits {hold : Hold} (h : c.Tracked i) (hi : c.supervisor.index = some i)
    (hhold : c.supervisor.hold = some hold) : hold.Fits (c.shards i) := by
  rwa [Cluster.Tracked, if_pos hi, hhold] at h

theorem tracked_of_fits {hold : Hold} {s : Shard} (h : hold.Fits s) (hs : c.shards i = s)
    (hi : c.supervisor.index = some i) (hhold : c.supervisor.hold = some hold) : c.Tracked i := by
  subst hs
  rwa [Cluster.Tracked, if_pos hi, hhold]

theorem look_index (i : Nat) :
    (c.look i).supervisor.index = none ∨ (c.look i).supervisor.index = some i := by
  unfold Cluster.look
  dsimp only
  split
  · exact .inr rfl
  · exact .inl rfl

theorem look_hold (i : Nat) : (c.look i).supervisor.hold = none := by
  unfold Cluster.look
  dsimp only
  split <;> rfl

theorem look_ne (i j : Nat) : (c.look i).supervisor ≠ .completed j := by
  unfold Cluster.look
  dsimp only
  split <;> simp

theorem Cluster.Tracked.other {c' : Cluster} (h : c.Tracked i) (hi : c.supervisor.index ≠ some i)
    (hshard : c'.shards i = c.shards i) (hstop : c'.stop = c.stop)
    (hne : c'.supervisor ≠ .completed i)
    (hhold : c'.supervisor.index = some i → c'.supervisor.hold = none)
    (hpast : c.stop = true → (∀ j, c.supervisor.index = some j → i < j) →
      ∀ j, c'.supervisor.index = some j → i < j) : c'.Tracked i := by
  refine tracked_of_free ?_ rfl hhold
  have hfree := tracked_free h fun hsome => absurd hsome hi
  rw [hshard]
  refine hfree.mono .rfl fun hleft => ⟨hne, ?_⟩
  rw [hshard, hstop]
  exact hleft.2.imp_right fun ⟨hstopped, hbefore⟩ => ⟨hstopped, hpast hstopped hbefore⟩

theorem Cluster.Tracked.stay {c' : Cluster} (h : c.Tracked i) (hi : c.supervisor.index ≠ some i)
    (hj : c.supervisor.index = some j) (hshard : i ≠ j → c'.shards i = c.shards i)
    (hstop : c'.stop = c.stop) (hj' : c'.supervisor.index = some j) : c'.Tracked i := by
  have hne : i ≠ j := fun hij => hi (hij ▸ hj)
  refine h.other hi (hshard hne) hstop ?_ (fun hsome => absurd (hj.trans (hj' ▸ hsome)) hi) ?_
  · intro hcompleted
    rw [hcompleted] at hj'
    exact hi (hj.trans hj'.symm)
  · rw [hj, hj']
    exact fun _ hbefore => hbefore

theorem Cluster.Tracked.look {c' : Cluster} (h : c.Tracked i) (hi : c.supervisor.index ≠ some i)
    (hj : c.supervisor.index = some j) (hshard : i ≠ j → c'.shards i = c.shards i)
    (hstop : c'.stop = c.stop) : (c'.look (j + 1)).Tracked i := by
  have hne : i ≠ j := fun hij => hi (hij ▸ hj)
  refine h.other hi (hshard hne) hstop (look_ne _ _) (fun _ => look_hold _) fun _ hbefore k hk => ?_
  have hlt := hbefore j hj
  rcases look_index (c := c') (j + 1) with hnone | hsome
  · rw [hnone] at hk
    cases hk
  · rw [hsome] at hk
    cases hk
    omega

/-- The supervisor leaves a shard that has no end to answer, or that it will not come back to. -/
theorem tracked_look {c' : Cluster} {s : Shard} {left : Prop} (h : s.Free left)
    (hs : c'.shards i = s) (hleft : left → s.stopping = true ∨ c'.stop = true) :
    (c'.look (i + 1)).Tracked i := by
  subst hs
  refine tracked_of_free (h.mono .rfl fun hl => ⟨look_ne _ _, (hleft hl).imp_right fun hstop =>
    ⟨hstop, fun k hk => ?_⟩⟩) rfl fun _ => look_hold _
  rcases look_index (c := c') (i + 1) with hnone | hsome
  · rw [hnone] at hk
    cases hk
  · rw [hsome] at hk
    cases hk
    omega

theorem applyAction_shard {policy : RestartPolicy} {status : Status} {action : Action}
    {s s' : Shard} {delay : Option UInt32} (h : s.applyAction policy status action = (s', delay)) :
    s'.task = s.task ∧ s'.running = s.running ∧ s'.ends = s.ends ∧ s'.handled = s.handled + 1 ∧
      s'.completed = (delay.isSome && s.completed) := by
  unfold Shard.applyAction at h
  have hhandled : s.decided + 1 + s.dropped = s.decided + s.dropped + 1 := by omega
  split at h
  · cases h
    exact ⟨rfl, rfl, rfl, hhandled, rfl⟩
  · split at h
    · cases h
      exact ⟨rfl, rfl, rfl, hhandled, rfl⟩
    · cases h
      exact ⟨rfl, rfl, rfl, hhandled, rfl⟩
    · split at h
      · cases h
        exact ⟨rfl, rfl, rfl, hhandled, rfl⟩
      · cases h
        exact ⟨rfl, rfl, rfl, hhandled, rfl⟩

theorem startStep_fits {s s' : Shard} {spawn : Status} {stage : StartStage}
    {next : StartStage ⊕ Status} (h : (Hold.starting stage).Fits s)
    (hstep : s.startStep spawn stage = (s', next)) :
    match next with
    | .inl stage => (Hold.starting stage).Fits s'
    | .inr _ => s'.Free False := by
  obtain ⟨htask, hrunning, hcompleted, hends⟩ := h
  cases stage with
  | check =>
    have hnot : s.running = false := hrunning
    simp only [Shard.startStep, hnot] at hstep
    cases hstep
    exact ⟨htask, hrunning, hcompleted, hends⟩
  | clearStatus =>
    cases hstep
    exact ⟨htask, hrunning, hcompleted, hends⟩
  | clearCompleted =>
    cases hstep
    exact ⟨htask, hrunning, rfl, hends⟩
  | setRunning | clearRunning status =>
    cases hstep
    exact ⟨htask, rfl, hcompleted, hends⟩
  | spawn =>
    simp only [Shard.startStep] at hstep
    split at hstep
    · cases hstep
      exact .inl ⟨.run, rfl, hrunning, hcompleted, hends⟩
    · cases hstep
      exact ⟨htask, hrunning, hcompleted, hends⟩
  | setCompleted status =>
    cases hstep
    exact ⟨htask, hrunning, rfl, congrArg (· + 1) hends⟩
  | setStatus status =>
    cases hstep
    exact .inr (.inl ⟨true, htask, hrunning, hcompleted, hends⟩)

/-- What a step of the supervisor does to the other shards. -/
theorem supervise_other (h : c.Tracked i) (hi : c.supervisor.index ≠ some i)
    (answer : Option (Status × Action)) (spawn : Status) :
    (c.supervise answer spawn).Tracked i := by
  unfold Cluster.supervise
  cases hpc : c.supervisor with
  | round =>
    dsimp only
    split
    · exact h.other hi rfl rfl (by simp) (by simp [Supervisor.index]) (by simp [Supervisor.index])
    · next hgoing =>
      exact h.other hi rfl rfl (look_ne _ _) (fun _ => look_hold _)
        fun hstop => absurd hstop hgoing
  | ended => exact h
  | resting remaining =>
    dsimp only
    split
    · exact h.other hi rfl rfl (by simp) (by simp [Supervisor.index]) (by simp [Supervisor.index])
    · exact h.other hi rfl rfl (by simp) (by simp [Supervisor.index]) (by simp [Supervisor.index])
  | stopping j | completed j | running j | stoppingAgain j =>
    have hj := congrArg Supervisor.index hpc
    dsimp only
    split <;> first
      | exact h.look hi hj (fun _ => rfl) rfl
      | exact h.stay hi hj (fun _ => rfl) rfl rfl
  | lastStatus j =>
    have hj := congrArg Supervisor.index hpc
    refine h.stay hi hj (fun _ => rfl) rfl ?_
    dsimp only
    split <;> rfl
  | decide j status =>
    have hj := congrArg Supervisor.index hpc
    exact h.stay hi hj (fun _ => rfl) rfl rfl
  | apply j status action =>
    have hj := congrArg Supervisor.index hpc
    unfold Cluster.applyAction
    dsimp only
    split
    · exact h.look hi hj (Function.update_of_ne · _ _) rfl
    · exact h.stay hi hj (Function.update_of_ne · _ _) rfl rfl
  | waiting j remaining =>
    have hj := congrArg Supervisor.index hpc
    dsimp only
    split_ifs
    · exact h.look hi hj (fun _ => rfl) rfl
    · exact h.stay hi hj (fun _ => rfl) rfl rfl
    · exact h.stay hi hj (fun _ => rfl) rfl rfl
  | starting j stage =>
    have hj := congrArg Supervisor.index hpc
    refine h.stay hi hj (Function.update_of_ne · _ _) rfl ?_
    dsimp only
    split <;> rfl
  | drop j | record j status =>
    have hj := congrArg Supervisor.index hpc
    exact h.look hi hj (Function.update_of_ne · _ _) rfl

/-- What a step of the supervisor does to the shard that it looks at. -/
theorem supervise_own (h : c.Tracked i) (hi : c.supervisor.index = some i)
    (answer : Option (Status × Action)) (spawn : Status) :
    (c.supervise answer spawn).Tracked i := by
  have hown : ∀ j, c.supervisor.index = some j → j = i :=
    fun j hj => Option.some.inj (hj.symm.trans hi)
  unfold Cluster.supervise
  cases hpc : c.supervisor with
  | round | ended | resting _ =>
    rw [hpc] at hi
    cases hi
  | stopping j =>
    obtain rfl := hown j (congrArg Supervisor.index hpc)
    have hfree := tracked_free h fun _ => congrArg Supervisor.hold hpc
    dsimp only
    split
    · next hstopping => exact tracked_look hfree rfl fun _ => .inl hstopping
    · next hgoing =>
      refine tracked_of_free (hfree.mono .rfl fun hleft => ?_) rfl fun _ => rfl
      rcases hleft.2 with hstopping | ⟨-, hpast⟩
      · exact absurd hstopping hgoing
      · exact absurd (hpast j hi) (lt_irrefl j)
  | completed j =>
    obtain rfl := hown j (congrArg Supervisor.index hpc)
    have hfree := (tracked_free h fun _ => congrArg Supervisor.hold hpc).mono .rfl
      fun hleft => hleft.1 hpc
    dsimp only
    split
    · next hcompleted =>
      refine tracked_of_fits ?_ rfl rfl rfl
      rcases hfree with ⟨task, -, -, hnot, -⟩ | ⟨completed, hidle⟩ | ⟨hleft, -⟩
      · rw [hnot] at hcompleted
        cases hcompleted
      · obtain rfl : completed = true := hidle.2.2.1.symm.trans hcompleted
        exact hidle
      · exact hleft.elim
    · exact tracked_look hfree rfl False.elim
  | running j =>
    obtain rfl := hown j (congrArg Supervisor.index hpc)
    have hseen := tracked_fits h hi (congrArg Supervisor.hold hpc)
    dsimp only
    rw [show (c.shards j).running = false from hseen.2.1]
    exact tracked_of_fits hseen rfl rfl rfl
  | lastStatus j =>
    obtain rfl := hown j (congrArg Supervisor.index hpc)
    have hseen := tracked_fits h hi (congrArg Supervisor.hold hpc)
    dsimp only
    split
    · exact tracked_of_fits hseen rfl rfl rfl
    · exact tracked_of_fits hseen rfl rfl rfl
  | drop j =>
    obtain rfl := hown j (congrArg Supervisor.index hpc)
    obtain ⟨htask, hrunning, -, hends⟩ := tracked_fits h hi (congrArg Supervisor.hold hpc)
    have hfree : Shard.Free { c.shards j with
        completed := false, dropped := (c.shards j).dropped + 1 } False :=
      .inr (.inl ⟨false, htask, hrunning, rfl, hends⟩)
    exact tracked_look hfree (Function.update_self _ _ _) False.elim
  | decide j status =>
    obtain rfl := hown j (congrArg Supervisor.index hpc)
    have hseen := tracked_fits h hi (congrArg Supervisor.hold hpc)
    exact tracked_of_fits hseen rfl rfl rfl
  | apply j status action =>
    obtain rfl := hown j (congrArg Supervisor.index hpc)
    obtain ⟨htask, hrunning, hcompleted, hends⟩ :=
      tracked_fits h hi (congrArg Supervisor.hold hpc)
    unfold Cluster.applyAction
    obtain ⟨⟨s, delay⟩, hs⟩ : ∃ r, (c.shards j).applyAction c.restartPolicy status action = r :=
      ⟨_, rfl⟩
    obtain ⟨htask', hrunning', hends', hhandled, hcompleted'⟩ := applyAction_shard hs
    have hidle : s.Idle false delay.isSome false := by
      refine ⟨htask'.trans htask, hrunning'.trans hrunning, ?_, ?_⟩
      · rw [hcompleted', show (c.shards j).completed = true from hcompleted, Bool.and_true]
      · rw [hends', hends, hhandled]
        rfl
    simp only [hs]
    cases delay with
    | none =>
      have hfree : s.Free False := .inr (.inl ⟨false, hidle⟩)
      exact tracked_look hfree (Function.update_self _ _ _) False.elim
    | some delayMs =>
      have hgranted : Hold.granted.Fits s := hidle
      exact tracked_of_fits hgranted (Function.update_self _ _ _) rfl rfl
  | waiting j remaining =>
    obtain rfl := hown j (congrArg Supervisor.index hpc)
    have hgranted := tracked_fits h hi (congrArg Supervisor.hold hpc)
    dsimp only
    split_ifs with hstop
    · exact tracked_look (.inr (.inr ⟨hstop, hgranted⟩)) rfl .inr
    · exact tracked_of_fits hgranted rfl rfl rfl
    · exact tracked_of_fits hgranted rfl rfl rfl
  | stoppingAgain j =>
    obtain rfl := hown j (congrArg Supervisor.index hpc)
    have hgranted := tracked_fits h hi (congrArg Supervisor.hold hpc)
    dsimp only
    split
    · next hstopping => exact tracked_look (.inr (.inr ⟨hstopping, hgranted⟩)) rfl .inl
    · have hcheck : (Hold.starting .check).Fits (c.shards j) := hgranted
      exact tracked_of_fits hcheck rfl rfl rfl
  | starting j stage =>
    obtain rfl := hown j (congrArg Supervisor.index hpc)
    have hstarting := tracked_fits h hi (congrArg Supervisor.hold hpc)
    obtain ⟨⟨s, next⟩, hs⟩ : ∃ r, (c.shards j).startStep spawn stage = r := ⟨_, rfl⟩
    have hnext := startStep_fits hstarting hs
    simp only [hs]
    cases next with
    | inl stage => exact tracked_of_fits hnext (Function.update_self _ _ _) rfl rfl
    | inr status =>
      have hfree : s.Free False := hnext
      exact tracked_of_free (hfree.mono .rfl False.elim) (Function.update_self _ _ _) fun _ => rfl
  | record j status =>
    obtain rfl := hown j (congrArg Supervisor.index hpc)
    have hfree := tracked_free h fun _ => congrArg Supervisor.hold hpc
    have hfree' : Shard.Free { c.shards j with info := (c.shards j).info.recordStart status }
        (c.Left j) := hfree.mono ⟨rfl, rfl, rfl, rfl, rfl⟩ id
    refine tracked_look hfree' (Function.update_self _ _ _) fun hleft => ?_
    rcases hleft.2 with hstopping | ⟨-, hpast⟩
    · exact .inl hstopping
    · exact absurd (hpast j hi) (lt_irrefl j)

/-- A step of another party that leaves the flags of a shard. -/
theorem Cluster.Tracked.aside {c' : Cluster} (h : c.Tracked i) (hsup : c'.supervisor = c.supervisor)
    (hsame : (c.shards i).Same (c'.shards i))
    (hstopping : (c.shards i).stopping = true → (c'.shards i).stopping = true)
    (hstop : c.stop = true → c'.stop = true) : c'.Tracked i := by
  have hleft : c.Left i → c'.Left i := by
    unfold Cluster.Left
    rw [hsup]
    exact .imp_right (.imp hstopping (.imp_left hstop))
  unfold Cluster.Tracked at h ⊢
  rw [hsup]
  split
  · next hi =>
    rw [if_pos hi] at h
    split
    · next hold hhold =>
      rw [hhold] at h
      exact Hold.Fits.mono h hsame
    · next hhold =>
      rw [hhold] at h
      exact Shard.Free.mono h hsame hleft
  · next hi =>
    rw [if_neg hi] at h
    exact h.mono hsame hleft

theorem taskStep_tracked (h : c.Tracked i) (status : Status) :
    (c.modify i (·.taskStep status)).Tracked i := by
  have hkept : (c.shards i).taskStep status = c.shards i →
      (c.modify i (·.taskStep status)).Tracked i := fun hsame =>
    h.aside rfl (by rw [modify_self, hsame]; exact .rfl) (by rw [modify_self, hsame]; exact id) id
  by_cases hhold : c.supervisor.index = some i ∧ c.supervisor.hold.isSome = true
  · obtain ⟨hold, hhold'⟩ := Option.isSome_iff_exists.mp hhold.2
    have hfits := tracked_fits h hhold.1 hhold'
    exact hkept (by rw [Shard.taskStep, hfits.1])
  · have hnone : c.supervisor.index = some i → c.supervisor.hold = none := fun hi =>
      Option.not_isSome_iff_eq_none.mp fun hsome => hhold ⟨hi, hsome⟩
    rcases tracked_free h hnone with ⟨task, htask, hrunning, hcompleted, hends⟩ | hidle
    · have hfree : ((c.shards i).taskStep status).Free False := by
        unfold Shard.taskStep
        rw [htask]
        cases task with
        | storeCompleted => exact .inr (.inl ⟨true, rfl, hrunning, rfl, congrArg (· + 1) hends⟩)
        | storeRunning => exact .inl ⟨_, rfl, rfl, hcompleted, hends⟩
        | _ => exact .inl ⟨_, rfl, hrunning, hcompleted, hends⟩
      exact tracked_of_free (hfree.mono .rfl False.elim) (modify_self _) hnone
    · have htask : (c.shards i).task = none := by
        rcases hidle with ⟨completed, hidle⟩ | ⟨-, hidle⟩
        · exact hidle.1
        · exact hidle.1
      exact hkept (by rw [Shard.taskStep, htask])

theorem modify_tracked (h : c.Tracked i) (j : Nat) {f : Shard → Shard} (hf : ∀ s : Shard, s.Same (f s))
    (hstopping : ∀ s : Shard, s.stopping = true → (f s).stopping = true) :
    (c.modify j f).Tracked i := by
  by_cases hij : i = j
  · subst hij
    exact h.aside rfl (by rw [modify_self]; exact hf _) (by rw [modify_self]; exact hstopping _) id
  · exact h.aside rfl (by rw [modify_other f hij]; exact .rfl) (by rw [modify_other f hij]; exact id) id

theorem Refill.same (refill : Refill) (s : Shard) :
    s.Same (refill.apply s) ∧ (refill.apply s).stopping = s.stopping := by
  cases refill with
  | rearm => exact ⟨⟨rfl, rfl, rfl, rfl, rfl⟩, rfl⟩
  | reset => exact ⟨⟨rfl, rfl, rfl, rfl, rfl⟩, rfl⟩

/-- **Every step keeps track of every shard.** -/
theorem step_tracked (h : c.Tracked i) (move : Move) : (c.step move).Tracked i := by
  cases move with
  | supervisor answer spawn =>
    by_cases hi : c.supervisor.index = some i
    · exact supervise_own h hi answer spawn
    · exact supervise_other h hi answer spawn
  | task j status =>
    by_cases hij : i = j
    · exact hij ▸ taskStep_tracked h status
    · have hother := modify_other (c := c) (·.taskStep status) hij
      exact h.aside rfl (hother ▸ .rfl) (by rw [Cluster.step, hother]; exact id) id
  | stopShard j => exact modify_tracked h j (fun s => ⟨rfl, rfl, rfl, rfl, rfl⟩) fun s _ => rfl
  | stop => exact h.aside rfl .rfl id fun _ => rfl
  | health j event => exact modify_tracked h j (fun s => ⟨rfl, rfl, rfl, rfl, rfl⟩) fun s hs => hs
  | refill j refill =>
    exact modify_tracked h j (fun s => (refill.same s).1) fun s hs => (refill.same s).2.trans hs
  | refillAll refill =>
    refine h.aside rfl ?_ ?_ id
    · dsimp only [Cluster.step]
      split
      · exact (refill.same _).1
      · exact .rfl
    · dsimp only [Cluster.step]
      split
      · exact (refill.same _).2.trans
      · exact id

/-- **Every end is answered once.**  However the supervisor, the gateway tasks and the application
take turns: the ends of the gateway tasks of a shard that the supervisor has decided upon or dropped
are all of them but at most the last one, and between two rounds all but one whose flag is up, as
long as the shard and the supervisor are not stopped; and a gateway that is being started has no
task yet. -/
theorem ends_decided (policy : RestartPolicy) (shardCount : Nat) (moves : List Move) (i : Nat) :
    let c := moves.foldl Cluster.step (.start policy shardCount)
    let s := c.shards i
    s.decided + s.dropped ≤ s.ends ∧ s.ends ≤ s.decided + s.dropped + 1 ∧
      (s.task.isSome → s.ends = s.decided + s.dropped) ∧
      (∀ stage, c.supervisor = .starting i stage → s.task = none) ∧
      (c.supervisor.index = none → c.stop = false → s.stopping = false →
        s.ends = s.decided + s.dropped + s.completed.toNat) := by
  have hstart : (Cluster.start policy shardCount).Tracked i := .inl ⟨.run, rfl, rfl, rfl, rfl⟩
  have h := List.foldlRecOn (motive := fun c => c.Tracked i) moves Cluster.step hstart
    fun _ hc move _ => step_tracked hc move
  generalize moves.foldl Cluster.step (.start policy shardCount) = c at h
  dsimp only
  by_cases hhold : c.supervisor.index = some i ∧ c.supervisor.hold.isSome = true
  · obtain ⟨hold, hhold'⟩ := Option.isSome_iff_exists.mp hhold.2
    obtain ⟨htask, -, -, hends⟩ := tracked_fits h hhold.1 hhold'
    have hdue := Bool.toNat_le hold.flags.2.2
    rw [Shard.handled] at hends
    refine ⟨by omega, by omega, by simp [htask], fun _ _ => htask, fun hnone => ?_⟩
    rw [hnone] at hhold
    exact absurd hhold.1 (by simp)
  · have hnone : c.supervisor.index = some i → c.supervisor.hold = none := fun hi =>
      Option.not_isSome_iff_eq_none.mp fun hsome => hhold ⟨hi, hsome⟩
    have hstarting : ∀ stage, c.supervisor ≠ .starting i stage := fun stage hsup =>
      hhold ⟨congrArg Supervisor.index hsup, by rw [hsup]; rfl⟩
    rcases tracked_free h hnone with ⟨task, -, -, hcompleted, hends⟩ |
      ⟨completed, htask, -, hcompleted, hends⟩ | ⟨hleft, htask, -, hcompleted, hends⟩
    · rw [Shard.handled] at hends
      refine ⟨by omega, by omega, fun _ => hends, fun stage hsup => absurd hsup (hstarting stage), ?_⟩
      rw [hcompleted]
      exact fun _ _ _ => hends
    · have hdue := Bool.toNat_le completed
      rw [Shard.handled] at hends
      refine ⟨by omega, by omega, by simp [htask], fun stage hsup => absurd hsup (hstarting stage), ?_⟩
      rw [hcompleted]
      exact fun _ _ _ => hends
    · rw [Shard.handled] at hends
      refine ⟨by simp at hends; omega, by simp at hends; omega, by simp [htask],
        fun stage hsup => absurd hsup (hstarting stage), fun _ hstop hgoing => ?_⟩
      rcases hleft.2 with hstopping | ⟨hstopped, -⟩
      · rw [hgoing] at hstopping
        cases hstopping
      · rw [hstop] at hstopped
        cases hstopped

/-! ## The budget -/

theorem doubled_eq {maxDelay : Nat} (shifts : Nat) :
    ∀ {delay : Nat}, delay ≤ maxDelay →
      doubled maxDelay shifts delay = min (delay * 2 ^ shifts) maxDelay := by
  induction shifts with
  | zero =>
    intro delay hle
    simp [doubled, hle]
  | succ shifts ih =>
    intro delay hle
    have hpow : delay * 2 ^ (shifts + 1) = delay * 2 * 2 ^ shifts := by
      rw [Nat.pow_succ]
      ac_rfl
    have hone := Nat.one_le_two_pow (n := shifts)
    unfold doubled
    split
    · rw [ih (Nat.min_le_right _ _), hpow]
      rcases Nat.le_total (delay * 2) maxDelay with hdouble | hdouble
      · rw [Nat.min_eq_left hdouble]
      · rw [Nat.min_eq_right hdouble, Nat.min_eq_right (Nat.le_mul_of_pos_right _ hone),
          Nat.min_eq_right (Nat.le_trans hdouble (Nat.le_mul_of_pos_right _ hone))]
    · obtain rfl : delay = maxDelay := by omega
      exact (Nat.min_eq_right (Nat.le_mul_of_pos_right _ (Nat.two_pow_pos _))).symm

theorem normalize_base (policy : RestartPolicy) : policy.normalize.baseDelayMs ≠ 0 := by
  unfold RestartPolicy.normalize
  dsimp only
  split
  · decide
  · next hbase => exact hbase

theorem normalize_le (policy : RestartPolicy) :
    policy.normalize.baseDelayMs.toNat ≤ policy.normalize.maxDelayMs.toNat := by
  unfold RestartPolicy.normalize
  dsimp only
  generalize (if policy.baseDelayMs = 0 then (250 : UInt32) else policy.baseDelayMs) = base
  generalize (if policy.maxDelayMs = 0 then (5000 : UInt32) else policy.maxDelayMs) = limit
  split
  · exact Nat.le_refl _
  · next hlt => exact UInt32.le_iff_toNat_le.mp (UInt32.not_lt.mp hlt)

/-- The delay doubles with every restart, up to the limit of the policy. -/
theorem restartDelayMs_eq (policy : RestartPolicy) (restarts : UInt64) :
    (restartDelayMs policy.normalize restarts).toNat =
      min (policy.normalize.baseDelayMs.toNat * 2 ^ min restarts.toNat 16)
        policy.normalize.maxDelayMs.toNat := by
  have hle := normalize_le policy
  have hbase := normalize_base policy
  have hmax : policy.normalize.maxDelayMs ≠ 0 := by
    intro hzero
    rw [hzero] at hle
    exact hbase (UInt32.toNat_inj.mp (Nat.le_zero.mp hle))
  have hlt : min (policy.normalize.baseDelayMs.toNat * 2 ^ min restarts.toNat 16)
      policy.normalize.maxDelayMs.toNat < 2 ^ 32 :=
    Nat.lt_of_le_of_lt (Nat.min_le_right _ _) policy.normalize.maxDelayMs.toNat_lt
  simp only [restartDelayMs, if_neg hbase, if_neg hmax, doubled_eq _ hle]
  exact UInt32.toNat_ofNat_of_lt hlt

/-- The restarts of a shard since its budget was filled. -/
structure Shard.Budgeted (policy : RestartPolicy) (s : Shard) : Prop where
  used : s.info.restartBudgetUsed = .ofNat s.grants.length
  lawful : ∀ k grant, s.grants[k]? = some grant → grant.byDefault = true →
    k % 2 ^ 64 < policy.maxRestarts.toNat ∧ grant.delayMs.toNat =
        min (policy.baseDelayMs.toNat * 2 ^ min (k % 2 ^ 64) 16) policy.maxDelayMs.toNat

/-- What holds of the budgets between two steps. -/
structure Cluster.Budgeted (policy : RestartPolicy) (c : Cluster) : Prop where
  shards : ∀ i, (c.shards i).Budgeted policy.normalize
  policy : c.restartPolicy = policy.normalize

section

variable {policy : RestartPolicy}

theorem Shard.Budgeted.same {s s' : Shard} (h : s.Budgeted policy)
    (hused : s'.info.restartBudgetUsed = s.info.restartBudgetUsed) (hgrants : s'.grants = s.grants) :
    s'.Budgeted policy := by
  refine ⟨?_, ?_⟩
  · rw [hused, hgrants]
    exact h.used
  · rw [hgrants]
    exact h.lawful

theorem Shard.Budgeted.applyAction {s s' : Shard} (h : s.Budgeted policy.normalize) {status : Status}
    {action : Action} {delay : Option UInt32}
    (hs : s.applyAction policy.normalize status action = (s', delay)) :
    s'.Budgeted policy.normalize := by
  have hgrant : ∀ (grant : Grant) (s' : Shard), s'.grants = s.grants ++ [grant] →
      s'.info.restartBudgetUsed = s.info.restartBudgetUsed + 1 →
      (grant.byDefault = true →
        s.info.restartBudgetUsed.toNat < policy.normalize.maxRestarts.toNat ∧
          grant.delayMs = restartDelayMs policy.normalize s.info.restartBudgetUsed) →
      s'.Budgeted policy.normalize := by
    intro grant s' hgrants hused hdefault
    refine ⟨?_, fun k g hk hg => ?_⟩
    · rw [hused, hgrants, h.used, List.length_append, List.length_singleton, UInt64.ofNat_add]
      rfl
    · rw [hgrants, List.getElem?_append] at hk
      split at hk
      · exact h.lawful k g hk hg
      · next hlength =>
        obtain ⟨hlast, rfl⟩ : k - s.grants.length = 0 ∧ g = grant := by
          cases hlast : k - s.grants.length with
          | zero =>
            rw [hlast] at hk
            exact ⟨rfl, (Option.some.inj hk).symm⟩
          | succ n =>
            rw [hlast] at hk
            cases hk
        have hcount : s.info.restartBudgetUsed.toNat = k % 2 ^ 64 := by
          rw [h.used, UInt64.toNat_ofNat', show s.grants.length = k by omega]
        obtain ⟨hmax, hdelay⟩ := hdefault hg
        rw [hdelay, restartDelayMs_eq, ← hcount]
        exact ⟨hmax, rfl⟩
  unfold Shard.applyAction at hs
  split at hs
  · cases hs
    exact h.same rfl rfl
  · split at hs
    · cases hs
      exact h.same rfl rfl
    · cases hs
      exact hgrant _ _ rfl rfl (by simp)
    · split at hs
      · next hbudget =>
        cases hs
        exact hgrant _ _ rfl rfl fun _ => ⟨hbudget, rfl⟩
      · cases hs
        exact h.same rfl rfl

theorem Cluster.Budgeted.modify (h : c.Budgeted policy) (j : Nat) {f : Shard → Shard}
    (hf : (c.shards j).Budgeted policy.normalize → (f (c.shards j)).Budgeted policy.normalize) :
    (c.modify j f).Budgeted policy := by
  refine ⟨fun i => ?_, h.policy⟩
  by_cases hij : i = j
  · rw [hij, modify_self]
    exact hf (h.shards j)
  · rw [modify_other f hij]
    exact h.shards i

theorem Cluster.Budgeted.goto (h : c.Budgeted policy) (supervisor : Supervisor) :
    Cluster.Budgeted policy { c with supervisor := supervisor } :=
  ⟨h.shards, h.policy⟩

theorem Cluster.Budgeted.applyAction (h : c.Budgeted policy) (i : Nat) (status : Status)
    (action : Action) : (c.applyAction i status action).Budgeted policy := by
  unfold Cluster.applyAction
  obtain ⟨⟨s, delay⟩, hs⟩ : ∃ r, (c.shards i).applyAction c.restartPolicy status action = r :=
    ⟨_, rfl⟩
  simp only [hs]
  rw [h.policy] at hs
  have hmodified : (c.modify i fun _ => s).Budgeted policy :=
    h.modify i fun hbudgeted => hbudgeted.applyAction hs
  cases delay with
  | none => exact hmodified.goto _
  | some delayMs => exact hmodified.goto _

theorem supervise_budgeted (h : c.Budgeted policy) (answer : Option (Status × Action))
    (spawn : Status) : (c.supervise answer spawn).Budgeted policy := by
  unfold Cluster.supervise
  split
  case h_8 i status action hpc => exact h.applyAction i status action
  case h_6 i hpc =>
    have hdropped := h.modify i (f := fun s => { s with completed := false, dropped := s.dropped + 1 })
      fun hs => hs.same rfl rfl
    exact hdropped.goto _
  case h_11 i stage hpc =>
    have hstart : ∀ stage, ((c.shards i).startStep spawn stage).1.info = (c.shards i).info ∧
        ((c.shards i).startStep spawn stage).1.grants = (c.shards i).grants := by
      intro stage
      cases stage with
      | spawn =>
        rw [Shard.startStep]
        split
        · exact ⟨rfl, rfl⟩
        · exact ⟨rfl, rfl⟩
      | _ => exact ⟨rfl, rfl⟩
    have hstarted := h.modify i (f := fun _ => ((c.shards i).startStep spawn stage).1)
      fun hs => hs.same (congrArg ShardInfo.restartBudgetUsed (hstart stage).1) (hstart stage).2
    exact hstarted.goto _
  case h_12 i status hpc =>
    have hrecorded := h.modify i (f := fun s => { s with info := s.info.recordStart status })
      fun hs => hs.same (by simp only [ShardInfo.recordStart]; split <;> rfl) rfl
    exact hrecorded.goto _
  case h_14 => exact h
  case h_5 | h_7 | h_13 => exact h.goto _
  all_goals
    split_ifs <;> exact h.goto _

theorem step_budgeted (h : c.Budgeted policy) (move : Move) : (c.step move).Budgeted policy := by
  have hrefill : ∀ (refill : Refill) (s : Shard), (refill.apply s).Budgeted policy.normalize := by
    intro refill s
    cases refill with
    | rearm => exact ⟨rfl, by simp [Refill.apply]⟩
    | reset => exact ⟨rfl, by simp [Refill.apply]⟩
  cases move with
  | supervisor answer spawn => exact supervise_budgeted h answer spawn
  | task i status =>
    rw [Cluster.step]
    refine h.modify i fun hs => ?_
    dsimp only [Shard.taskStep]
    split <;> exact hs.same rfl rfl
  | stopShard i =>
    rw [Cluster.step]
    exact h.modify i fun hs => hs.same rfl rfl
  | stop => exact ⟨h.shards, h.policy⟩
  | health i event =>
    rw [Cluster.step]
    refine h.modify i fun hs => hs.same ?_ rfl
    cases event with
    | stop => simp only [ShardInfo.note]; split <;> rfl
    | _ => rfl
  | refill i refill =>
    rw [Cluster.step]
    exact h.modify i fun _ => hrefill refill _
  | refillAll refill =>
    refine ⟨fun i => ?_, h.policy⟩
    dsimp only [Cluster.step]
    split
    · exact hrefill refill _
    · exact h.shards i

end

/-- **What the default grants.**  In every run: a shard has used as much of its budget as it was
granted restarts since the budget was filled; and the default granted one only as long as there were
fewer of them, of either kind, than the policy has, with a delay that doubles with each up to the
limit. -/
theorem restart_budget (policy : RestartPolicy) (shardCount : Nat) (moves : List Move) (i : Nat) :
    let c := moves.foldl Cluster.step (.start policy shardCount)
    let s := c.shards i
    s.info.restartBudgetUsed = .ofNat s.grants.length ∧
      (∀ k grant, s.grants[k]? = some grant → grant.byDefault = true →
        k % 2 ^ 64 < policy.maxRestarts.toNat ∧ grant.delayMs.toNat =
            min (policy.normalize.baseDelayMs.toNat * 2 ^ min (k % 2 ^ 64) 16)
              policy.normalize.maxDelayMs.toNat) := by
  have hstart : (Cluster.start policy shardCount).Budgeted policy :=
    ⟨fun _ => ⟨rfl, by simp [Cluster.start, Shard.start]⟩, rfl⟩
  have h := List.foldlRecOn (motive := Cluster.Budgeted policy) moves Cluster.step hstart
    fun _ hc move _ => step_budgeted hc move
  exact ⟨(h.shards i).used, (h.shards i).lawful⟩

end Dcc.Restart
