import Mathlib.Data.List.Nodup
import Dcc.App.Guards

/-!
# Policies on routes that are there already

`dcc_app_route_apply_policy` adds the guards of a policy to one route, and
`dcc_app_route_group_apply_policy` to all routes of a group, one kind of guard after the other.
Neither takes back what it has added when a later guard cannot be added.

* `groupSteps_plain` — both functions go through the members of a policy in the same order;
* `runAttempts_spec` — what a run of attempts adds, up to the first that fails;
* `policy_atomic` — a call is all or nothing exactly when its first attempt fails or none does.
-/

namespace Dcc.App

open Machine

/-! ## The two functions -/

/-- `dcc_app_route_apply_policy`. -/
def applyPolicy (app : Routing) (routeId : Nat) (policy : PolicyArg) (memory : List Bool) :
    Routing × Status :=
  if routeId = 0 then (app, .invalidArg) else applySteps routeId policy.steps memory app

/-- `dcc_app_route_group_type_is_component`. -/
def groupTypeIsComponent : EventType → Bool
  | .buttonClick | .selectClick | .formSubmit => true
  | _ => false

/-- `dcc_app_route_group_matches_internal`. -/
def groupMatches (customIdPrefix : Bytes) (route : Route) : Bool :=
  groupTypeIsComponent route.type && customIdPrefix.isPrefixOf route.key

/-- The routes of a group, by their ids. -/
def matchedIds (customIdPrefix : Bytes) (routes : List Route) : List Nat :=
  (routes.filter (groupMatches customIdPrefix)).map Route.id

/-- The loop of the functions that add one guard to a group, over its routes. -/
def groupLoop (step : PolicyStep) : List Nat → List Bool → Routing → Routing × Status × List Bool
  | [], memory, app => (app, .ok, memory)
  | routeId :: rest, memory, app =>
    match applyStep app routeId step (memory.headD true) with
    | (app, .ok) => groupLoop step rest memory.tail app
    | (app, status) => (app, status, memory.tail)

/-- `dcc_app_route_group_use_guard_kind` and the functions like it. -/
def groupUse (customIdPrefix : Bytes) (step : PolicyStep) (memory : List Bool) (app : Routing) :
    Routing × Status × List Bool :=
  match matchedIds customIdPrefix app.routes with
  | [] => (app, .notFound, memory)
  | routeIds => groupLoop step routeIds memory app

/-- What the group function does for one member of a policy: it goes through the routes, or it
refuses the policy before it looks at one. -/
inductive GroupStep
  | all (step : PolicyStep)
  | refuse (status : Status)

/-- The middlewares of a policy, each tested before its loop. -/
def groupMiddlewareSteps : Items (Option Nat) → List GroupStep
  | .null count => if count = 0 then [] else [.refuse .invalidArg]
  | .array items => items.map fun item =>
    match item with
    | some callback => .all (.use (.middleware callback))
    | none => .refuse .invalidArg

/-- The checks of a policy, each tested inside its loop. -/
def groupCheckSteps : Items (Option Nat) → List GroupStep
  | .null count => if count = 0 then [] else [.refuse .invalidArg]
  | .array items => items.map fun item =>
    match item with
    | some callback => .all (.use (.check callback))
    | none => .all (.reject .invalidArg)

/-- `dcc_app_route_group_apply_policy`, in the order of the source. -/
def groupSteps (policy : RoutePolicy) : List GroupStep :=
  groupMiddlewareSteps policy.middlewares ++
  (if (policy.guildOnly && policy.dmOnly) || (policy.dmOnly && policy.nsfwOnly) then
    [.refuse .invalidArg]
  else []) ++
  (flagSteps .guildOnly policy.guildOnly).map .all ++
  (flagSteps .dmOnly policy.dmOnly).map .all ++
  (flagSteps .nsfwOnly policy.nsfwOnly).map .all ++
  (listSteps .channelTypes policy.channelTypes).map .all ++
  (listSteps .userAllowlist policy.ownerUserIds).map .all ++
  (flagSteps (.requiredPermissions policy.requiredPermissions)
    (policy.requiredPermissions != 0)).map .all ++
  (listSteps .requiredRoles policy.requiredRoleIds).map .all ++
  (listSteps .anyRole policy.anyRoleIds).map .all ++
  groupCheckSteps policy.checks ++
  (cooldownSteps policy.cooldown).map .all

def PolicyArg.groupSteps : PolicyArg → List GroupStep
  | .none => []
  | .tooSmall => [.refuse .invalidArg]
  | .given policy => App.groupSteps policy

def groupApplySteps (customIdPrefix : Bytes) :
    List GroupStep → List Bool → Routing → Routing × Status
  | [], _, app => (app, .ok)
  | .refuse status :: _, _, app => (app, status)
  | .all step :: steps, memory, app =>
    match groupUse customIdPrefix step memory app with
    | (app, .ok, memory) => groupApplySteps customIdPrefix steps memory app
    | (app, status, _) => (app, status)

/-- `dcc_app_route_group_apply_policy` for a group with a prefix. -/
def groupApplyPolicy (app : Routing) (customIdPrefix : Option Bytes) (policy : PolicyArg)
    (memory : List Bool) : Routing × Status :=
  match customIdPrefix with
  | some (c :: rest) => groupApplySteps (c :: rest) policy.groupSteps memory app
  | _ => (app, .invalidArg)

/-- The step of one route that a step of a group is. -/
def GroupStep.plain : GroupStep → PolicyStep
  | .all step => step
  | .refuse status => .reject status

theorem groupMiddlewareSteps_plain (items : Items (Option Nat)) :
    (groupMiddlewareSteps items).map GroupStep.plain = callbackSteps .middleware items := by
  cases items with
  | null count =>
    rw [groupMiddlewareSteps, callbackSteps]
    split <;> rfl
  | array items =>
    rw [groupMiddlewareSteps, callbackSteps, List.map_map]
    refine List.map_congr_left fun item _ => ?_
    cases item <;> rfl

theorem groupCheckSteps_plain (items : Items (Option Nat)) :
    (groupCheckSteps items).map GroupStep.plain = callbackSteps .check items := by
  cases items with
  | null count =>
    rw [groupCheckSteps, callbackSteps]
    split <;> rfl
  | array items =>
    rw [groupCheckSteps, callbackSteps, List.map_map]
    refine List.map_congr_left fun item _ => ?_
    cases item <;> rfl

theorem plain_all (steps : List PolicyStep) :
    (steps.map GroupStep.all).map GroupStep.plain = steps := by
  rw [List.map_map]
  exact List.map_id steps

/-- **The two functions go through a policy in the same order.** -/
theorem groupSteps_plain (policy : PolicyArg) :
    policy.groupSteps.map GroupStep.plain = policy.steps := by
  cases policy with
  | none => rfl
  | tooSmall => rfl
  | given policy =>
    have hconflict : ((if (policy.guildOnly && policy.dmOnly) || (policy.dmOnly && policy.nsfwOnly)
        then [GroupStep.refuse .invalidArg] else []).map GroupStep.plain) =
        if (policy.guildOnly && policy.dmOnly) || (policy.dmOnly && policy.nsfwOnly) then
          [PolicyStep.reject .invalidArg] else [] := by
      split <;> rfl
    simp only [PolicyArg.groupSteps, PolicyArg.steps, groupSteps, policySteps, List.map_append,
      groupMiddlewareSteps_plain, groupCheckSteps_plain, plain_all, hconflict]

/-! ## Runs of attempts -/

/-- An attempt to take a step on a route. -/
abbrev Attempt := Nat × PolicyStep

/-- Attempts one after the other, until one fails. -/
def runAttempts : List Attempt → List Bool → Routing → Routing × Status
  | [], _, app => (app, .ok)
  | (routeId, step) :: rest, memory, app =>
    match applyStep app routeId step (memory.headD true) with
    | (app, .ok) => runAttempts rest memory.tail app
    | (app, status) => (app, status)

/-- How many steps succeed before the first that fails. -/
def succeeding : List PolicyStep → List Bool → Nat
  | [], _ => 0
  | .use _ :: steps, memory => if memory.headD true then succeeding steps memory.tail + 1 else 0
  | .reject _ :: _, _ => 0

/-- The guards that attempts add to a route. -/
def guardsFor (attempts : List Attempt) (routeId : Nat) : List Guard :=
  attempts.filterMap fun attempt =>
    if attempt.1 = routeId then attempt.2.guard? else none

/-- A route with the guards that attempts add to it. -/
def withGuards (attempts : List Attempt) (route : Route) : Route :=
  { route with middlewares := route.middlewares ++ guardsFor attempts route.id }

/-- No step refuses with success. -/
def Refusing (steps : List PolicyStep) : Prop := ∀ status, .reject status ∈ steps → status ≠ .ok

variable {routes : List Route}

variable {routeId : Nat}

theorem modifyRoute_eq_map {change : Route → Route}
    (hids : routes.Pairwise fun a b => a.id ≠ b.id) :
    modifyRoute routeId change routes =
      routes.map fun route => if route.id = routeId then change route else route := by
  induction routes with
  | nil => rfl
  | cons head rest ih =>
    obtain ⟨hhead, hrest⟩ := List.pairwise_cons.mp hids
    by_cases hid : head.id = routeId
    · have hsame : (rest.map fun route => if route.id = routeId then change route else route) =
          rest := by
        refine (List.map_congr_left fun route hroute => ?_).trans (List.map_id rest)
        exact if_neg fun heq => hhead route hroute (hid.trans heq.symm)
      rw [modifyRoute, if_pos hid, List.map_cons, if_pos hid, hsame]
    · rw [modifyRoute, if_neg hid, List.map_cons, if_neg hid, ih hrest]

theorem withGuards_nil (route : Route) : withGuards [] route = route := by
  simp [withGuards, guardsFor]

theorem self_withGuards (app : Routing) :
    app = { app with routes := app.routes.map (withGuards []) } := by
  have hmap : app.routes.map (withGuards []) = app.routes :=
    (List.map_congr_left fun route _ => withGuards_nil route).trans (List.map_id _)
  rw [hmap]

theorem withGuards_cons (routeId : Nat) (guard : Guard) (rest : List Attempt) (route : Route) :
    withGuards rest (if route.id = routeId then
        { route with middlewares := route.middlewares ++ [guard] } else route) =
      withGuards ((routeId, .use guard) :: rest) route := by
  by_cases hid : route.id = routeId
  · simp [withGuards, guardsFor, hid, PolicyStep.guard?]
  · simp [withGuards, guardsFor, hid, Ne.symm hid]

variable {app : Routing}

/-- **What a run of attempts adds.**  The attempts before the first that fails have added their
guards, and the run is a success when none fails. -/
theorem runAttempts_spec (attempts : List Attempt) (memory : List Bool)
    (hids : app.routes.Pairwise fun a b => a.id ≠ b.id)
    (hthere : ∀ attempt ∈ attempts, ∃ route ∈ app.routes, route.id = attempt.1)
    (hrefusing : Refusing (attempts.map Prod.snd)) :
    (runAttempts attempts memory app).1 = { app with
            routes := app.routes.map
              (withGuards (attempts.take (succeeding (attempts.map Prod.snd) memory))) } ∧
      ((runAttempts attempts memory app).2 = .ok ↔
        succeeding (attempts.map Prod.snd) memory = attempts.length) := by
  induction attempts generalizing app memory with
  | nil => exact ⟨self_withGuards app, by simp [runAttempts, succeeding]⟩
  | cons attempt rest ih =>
    obtain ⟨routeId, step⟩ := attempt
    have hrest : Refusing (rest.map Prod.snd) := fun status hmem =>
      hrefusing status (List.mem_cons_of_mem _ hmem)
    cases step with
    | reject status =>
      have hne : status ≠ .ok := hrefusing status List.mem_cons_self
      have hrun : runAttempts ((routeId, .reject status) :: rest) memory app = (app, status) := by
        rw [runAttempts, applyStep]
        cases status <;> first | rfl | exact absurd rfl hne
      rw [hrun]
      exact ⟨self_withGuards app, by simp [succeeding, hne]⟩
    | use guard =>
      obtain ⟨route, hroute, hid⟩ := hthere _ List.mem_cons_self
      have hfound : ¬ (app.routes.all fun route => route.id != routeId) = true := by
        simp only [List.all_eq_true, bne_iff_ne, ne_eq, not_forall]
        exact ⟨route, hroute, fun hne => hne hid⟩
      cases hmemory : memory.headD true with
      | false =>
        have hrun : runAttempts ((routeId, .use guard) :: rest) memory app = (app, .nomem) := by
          rw [runAttempts, hmemory, applyStep, routeUse, if_neg hfound]
          rfl
        have hzero : succeeding (((routeId, .use guard) :: rest).map Prod.snd) memory = 0 := by
          rw [List.map_cons, succeeding, hmemory]
          rfl
        rw [hrun, hzero]
        exact ⟨self_withGuards app, by simp⟩
      | true =>
        let change : Route → Route := fun route =>
          { route with middlewares := route.middlewares ++ [guard] }
        let after : Routing := { app with routes := modifyRoute routeId change app.routes }
        have hrun : runAttempts ((routeId, .use guard) :: rest) memory app =
            runAttempts rest memory.tail after := by
          rw [runAttempts, hmemory, applyStep, routeUse, if_neg hfound]
          rfl
        have hroutes : after.routes = app.routes.map fun route =>
            if route.id = routeId then change route else route := modifyRoute_eq_map hids
        have hidmap : after.routes.map Route.id = app.routes.map Route.id :=
          modifyRoute_map_id fun _ => rfl
        have hids' : after.routes.Pairwise fun a b => a.id ≠ b.id := by
          have hpair : (after.routes.map Route.id).Pairwise (· ≠ ·) := by
            rw [hidmap]
            exact List.pairwise_map.mpr hids
          exact List.pairwise_map.mp hpair
        have hthere' : ∀ attempt ∈ rest, ∃ route ∈ after.routes, route.id = attempt.1 := by
          intro attempt hattempt
          obtain ⟨old, hold, hsameId⟩ := hthere attempt (List.mem_cons_of_mem _ hattempt)
          have hmem : attempt.1 ∈ after.routes.map Route.id := by
            rw [hidmap, ← hsameId]
            exact List.mem_map_of_mem hold
          obtain ⟨new, hnew, hnewId⟩ := List.mem_map.mp hmem
          exact ⟨new, hnew, hnewId⟩
        obtain ⟨hstate, hok⟩ := ih memory.tail hids' hthere' hrest
        have hcount : succeeding (((routeId, .use guard) :: rest).map Prod.snd) memory =
            succeeding (rest.map Prod.snd) memory.tail + 1 := by
          rw [List.map_cons, succeeding, hmemory, if_pos rfl]
        rw [hrun, hcount, List.take_succ_cons]
        refine ⟨?_, ?_⟩
        · rw [hstate, hroutes, List.map_map]
          have hmap : (fun route => withGuards
              (rest.take (succeeding (rest.map Prod.snd) memory.tail))
                (if route.id = routeId then change route else route)) =
              withGuards ((routeId, .use guard) ::
                rest.take (succeeding (rest.map Prod.snd) memory.tail)) := by
            funext route
            exact withGuards_cons routeId guard _ route
          rw [Function.comp_def, hmap]
        · rw [hok, List.length_cons, Nat.succ_inj]

/-! ## The functions as runs -/

theorem applySteps_eq_run (routeId : Nat) (steps : List PolicyStep) (memory : List Bool)
    (app : Routing) :
    applySteps routeId steps memory app =
      runAttempts (steps.map fun step => (routeId, step)) memory app := by
  induction steps generalizing memory app with
  | nil => rfl
  | cons step steps ih =>
    rw [applySteps, List.map_cons, runAttempts]
    rcases applyStep app routeId step (memory.headD true) with ⟨after, status⟩
    cases status with
    | ok => exact ih memory.tail after
    | _ => rfl

/-- The attempts of a group function. -/
def groupAttempts (routeIds : List Nat) (steps : List GroupStep) : List Attempt :=
  steps.flatMap fun step =>
    match step with
    | .all step => routeIds.map fun routeId => (routeId, step)
    | .refuse status => [(routeIds.headD 0, .reject status)]

theorem groupLoop_run (step : PolicyStep) (routeIds : List Nat) (rest : List Attempt)
    (memory : List Bool) (app : Routing) :
    runAttempts (routeIds.map (fun routeId => (routeId, step)) ++ rest) memory app =
      match groupLoop step routeIds memory app with
      | (app, .ok, memory) => runAttempts rest memory app
      | (app, status, _) => (app, status) := by
  induction routeIds generalizing memory app with
  | nil => rfl
  | cons routeId routeIds ih =>
    rw [List.map_cons, List.cons_append, runAttempts, groupLoop]
    rcases happly : applyStep app routeId step (memory.headD true) with ⟨after, status⟩
    cases status with
    | ok => exact ih memory.tail after
    | _ => rfl

variable {customIdPrefix : Bytes}

theorem matchedIds_modifyRoute {guard : Guard} (routes : List Route) :
    matchedIds customIdPrefix (modifyRoute routeId
      (fun route => { route with middlewares := route.middlewares ++ [guard] }) routes) =
        matchedIds customIdPrefix routes := by
  induction routes with
  | nil => rfl
  | cons head rest ih =>
    rw [modifyRoute]
    split
    · simp [matchedIds, List.filter_cons, groupMatches]
      split <;> rfl
    · simp only [matchedIds, List.filter_cons] at ih ⊢
      split <;> simp [ih]

theorem matchedIds_applyStep (customIdPrefix : Bytes) (app : Routing) (routeId : Nat)
    (step : PolicyStep) (memory : Bool) :
    matchedIds customIdPrefix (applyStep app routeId step memory).1.routes =
      matchedIds customIdPrefix app.routes := by
  cases step with
  | reject status => rfl
  | use guard =>
    rw [applyStep, routeUse]
    split_ifs
    · rfl
    · exact matchedIds_modifyRoute app.routes
    · rfl

theorem matchedIds_groupLoop (customIdPrefix : Bytes) (step : PolicyStep) (routeIds : List Nat)
    (memory : List Bool) (app : Routing) :
    matchedIds customIdPrefix (groupLoop step routeIds memory app).1.routes =
      matchedIds customIdPrefix app.routes := by
  induction routeIds generalizing memory app with
  | nil => rfl
  | cons routeId routeIds ih =>
    have hstep := matchedIds_applyStep customIdPrefix app routeId step (memory.headD true)
    rw [groupLoop]
    rcases happly : applyStep app routeId step (memory.headD true) with ⟨after, status⟩
    rw [happly] at hstep
    cases status with
    | ok => exact (ih memory.tail after).trans hstep
    | _ => exact hstep

variable {routeIds : List Nat}

theorem groupApplySteps_run (hne : routeIds ≠ [])
    (steps : List GroupStep) (hrefuse : ∀ status, .refuse status ∈ steps → status ≠ .ok)
    (memory : List Bool) (hids : matchedIds customIdPrefix app.routes = routeIds) :
    groupApplySteps customIdPrefix steps memory app =
      runAttempts (groupAttempts routeIds steps) memory app := by
  induction steps generalizing memory app with
  | nil => rfl
  | cons step steps ih =>
    have hrest : ∀ status, .refuse status ∈ steps → status ≠ .ok := fun status hmem =>
      hrefuse status (List.mem_cons_of_mem _ hmem)
    cases step with
    | refuse status =>
      have hbad : status ≠ .ok := hrefuse status List.mem_cons_self
      rw [groupApplySteps, groupAttempts, List.flatMap_cons, List.singleton_append, runAttempts,
        applyStep]
      cases status <;> first | rfl | exact absurd rfl hbad
    | all step =>
      have hloop := matchedIds_groupLoop customIdPrefix step routeIds memory app
      obtain ⟨routeId, rest, rfl⟩ := List.exists_cons_of_ne_nil hne
      have huse : groupUse customIdPrefix step memory app =
          groupLoop step (routeId :: rest) memory app := by rw [groupUse, hids]
      rw [groupApplySteps, groupAttempts, List.flatMap_cons, groupLoop_run, huse]
      rcases hrun : groupLoop step (routeId :: rest) memory app with ⟨after, status, left⟩
      rw [hrun, hids] at hloop
      cases status with
      | ok => exact ih hrest left hloop
      | _ => rfl

theorem groupApplySteps_unmatched (steps : List GroupStep)
    (memory : List Bool) (hids : matchedIds customIdPrefix app.routes = []) :
    (groupApplySteps customIdPrefix steps memory app).1 = app := by
  cases steps with
  | nil => rfl
  | cons step steps =>
    cases step with
    | refuse status => rfl
    | all step =>
      rw [groupApplySteps, groupUse, hids]

/-! ## Policies -/

theorem refusing_policy (policy : PolicyArg) : Refusing policy.steps := by
  intro status hmem
  cases policy with
  | none => cases hmem
  | tooSmall =>
    cases List.mem_singleton.mp hmem
    simp
  | given policy =>
    have hcallback : ∀ (guard : Nat → Guard) items, .reject status ∈ callbackSteps guard items →
        status = .invalidArg := by
      intro guard items hmem
      cases items with
      | null count =>
        rw [callbackSteps] at hmem
        split_ifs at hmem
        · cases hmem
        · cases List.mem_singleton.mp hmem
          rfl
      | array items =>
        obtain ⟨item, -, hitem⟩ := List.mem_map.mp hmem
        cases item with
        | none => exact (PolicyStep.reject.inj hitem).symm
        | some callback => cases hitem
    have hlist : ∀ {α : Type} (guard : List α → Guard) (items : Items α),
        .reject status ∈ listSteps guard items → status = .invalidArg := by
      intro α guard items hmem
      cases items with
      | null count =>
        rw [listSteps] at hmem
        split_ifs at hmem
        · cases hmem
        · cases List.mem_singleton.mp hmem
          rfl
      | array items =>
        rw [listSteps] at hmem
        split_ifs at hmem
        · cases hmem
        · cases List.mem_singleton.mp hmem
    have hflag : ∀ guard flag, .reject status ∉ flagSteps guard flag := by
      intro guard flag hmem
      rw [flagSteps] at hmem
      split_ifs at hmem
      · cases List.mem_singleton.mp hmem
      · cases hmem
    have hcooldown : ∀ options, .reject status ∈ cooldownSteps options → status = .invalidArg := by
      intro options hmem
      rw [cooldownSteps] at hmem
      split_ifs at hmem
      · cases hbucket : options.bucket with
        | none =>
          rw [hbucket] at hmem
          cases List.mem_singleton.mp hmem
          rfl
        | some bucket =>
          rw [hbucket] at hmem
          cases List.mem_singleton.mp hmem
      · cases hmem
    have hinvalid : status = .invalidArg := by
      simp only [PolicyArg.steps, policySteps, List.mem_append] at hmem
      grind
    simp [hinvalid]

theorem refuse_policy (policy : PolicyArg) :
    ∀ status, .refuse status ∈ policy.groupSteps → status ≠ .ok := by
  intro status hmem
  have hplain : GroupStep.plain (.refuse status) ∈ policy.groupSteps.map GroupStep.plain :=
    List.mem_map_of_mem hmem
  rw [groupSteps_plain] at hplain
  exact refusing_policy policy status hplain

/-! ## Ids -/

/-- The ids of the routes are distinct, and come from the counter. -/
structure IdsFresh (app : Routing) : Prop where
  distinct : app.routes.Pairwise fun a b => a.id ≠ b.id
  bound : ∀ route ∈ app.routes, 0 < route.id ∧ route.id ≤ app.nextRouteId

theorem IdsFresh.congr {app after : Routing} (h : IdsFresh app)
    (hids : after.routes.map Route.id = app.routes.map Route.id)
    (hnext : after.nextRouteId = app.nextRouteId) : IdsFresh after := by
  refine ⟨?_, fun route hroute => ?_⟩
  · have hpair : (after.routes.map Route.id).Pairwise (· ≠ ·) := by
      rw [hids]
      exact List.pairwise_map.mpr h.distinct
    exact List.pairwise_map.mp hpair
  · have hmem : route.id ∈ app.routes.map Route.id := hids ▸ List.mem_map_of_mem hroute
    obtain ⟨old, hold, hsame⟩ := List.mem_map.mp hmem
    rw [← hsame, hnext]
    exact h.bound old hold

section

variable (h : IdsFresh app)
include h

theorem IdsFresh.routeUse (routeId : Nat) (guard : Guard)
    (memory : Bool) : IdsFresh (routeUse app routeId guard memory).1 := by
  rw [App.routeUse]
  split_ifs
  · exact h
  · exact h.congr (modifyRoute_map_id fun _ => rfl) rfl
  · exact h

theorem IdsFresh.settle (routeId : Nat) :
    IdsFresh (settle app routeId) := h.congr (modifyRoute_map_id fun _ => rfl) rfl

theorem IdsFresh.removeRoute (routeId : Nat) :
    IdsFresh (removeRoute app routeId) :=
  ⟨h.distinct.sublist List.eraseP_sublist, fun route hroute =>
    h.bound route (List.mem_of_mem_eraseP hroute)⟩

theorem IdsFresh.addRoute (target : RouteTarget) (handler : Nat)
    (listener : Bool) (policy : PolicyArg) (memory : Bool) :
    IdsFresh (addRoute app target handler listener policy memory).1 := by
  rw [App.addRoute]
  split_ifs
  · refine ⟨List.pairwise_append.mpr ⟨h.distinct, List.pairwise_singleton _ _, ?_⟩, ?_⟩
    · intro route hroute new hnew
      rw [List.mem_singleton.mp hnew]
      have hbound := (h.bound route hroute).2
      simp only [ne_eq]
      omega
    · intro route hroute
      rcases List.mem_append.mp hroute with hroute | hroute
      · have hbound := h.bound route hroute
        exact ⟨hbound.1, Nat.le_succ_of_le hbound.2⟩
      · rw [List.mem_singleton.mp hroute]
        exact ⟨Nat.succ_pos _, Nat.le_refl _⟩
  · exact h

theorem IdsFresh.proceed (registration : Registration) :
    IdsFresh (proceed app registration) := by
  rw [App.proceed]
  split
  · exact h.settle _
  · exact h.congr rfl rfl

theorem IdsFresh.extend (route : ExtensionRoute)
    (handler : Option Nat) (policy : PolicyArg) (memory : Bool) :
    IdsFresh (extend app route handler policy memory).1 := by
  cases handler with
  | none => exact h
  | some handler =>
    cases htarget : route.target with
    | error status =>
      simp only [App.extend, htarget]
      exact h
    | ok target =>
      have hadded := h.addRoute target handler false policy memory
      simp only [App.extend, htarget]
      split
      · next hadd => rwa [hadd] at hadded
      · next hadd =>
        rw [hadd] at hadded
        exact hadded.proceed _

theorem IdsFresh.extendStep (index : Nat) (memory : Bool) :
    IdsFresh (extendStep app index memory).1 := by
  unfold App.extendStep
  have hpending : IdsFresh { app with pending := app.pending.eraseIdx index } := h.congr rfl rfl
  split
  · exact h
  · next registration _ =>
    obtain ⟨routeId, todo⟩ := registration
    cases todo with
    | nil => exact hpending
    | cons step todo =>
      simp only
      have hstep : IdsFresh
          (applyStep { app with pending := app.pending.eraseIdx index } routeId step memory).1 := by
        cases step with
        | use guard => exact hpending.routeUse routeId guard memory
        | reject status => exact hpending
      split
      · next happly =>
        rw [happly] at hstep
        exact hstep.proceed _
      · next happly => rwa [happly] at hstep

theorem step_idsFresh (move : Move) :
    IdsFresh (step app move) := by
  cases move with
  | use guard memory =>
    refine h.congr ?_ ?_ <;> (rw [step, use]; split <;> rfl)
  | routeUse routeId guard memory => exact h.routeUse routeId guard memory
  | listen prepared target handler policy memory =>
    rcases listen_atomic (fun route hroute => (h.bound route hroute).2) prepared target handler
      policy memory with hsame | hadded
    · rw [step, hsame]
      exact h
    · rw [step, hadded]
      exact (h.addRoute target handler true policy true).congr (by simp [addRoute])
        (by simp [addRoute])
  | unlisten routeId =>
    rw [step, detachRoute]
    split_ifs
    · exact h.removeRoute routeId
    · exact h
  | extend route handler policy memory => exact h.extend route handler policy memory
  | extendStep index memory => exact h.extendStep index memory
  | dispatch interaction acquired memory =>
    refine h.congr ?_ ?_ <;> (rw [step, dispatchEvent]; repeat' split) <;> rfl
  | dispatchStart index memory flow =>
    refine h.congr ?_ ?_ <;> (rw [step, dispatchStart]; repeat' split) <;> rfl
  | dispatchNext index status cancelled =>
    refine h.congr ?_ ?_ <;> (rw [step, dispatchNext]; repeat' split) <;> rfl

end

theorem reach_idsFresh (h : Reach step (fun _ _ => True) Routing.new app) :
    IdsFresh app :=
  h.invariant ⟨List.Pairwise.nil, fun route hroute => by cases hroute⟩
    fun _ move happ _ => step_idsFresh happ move

/-! ## All or nothing -/

/-- A call on one route that fails leaves the routes as they were. -/
def RouteAtomic (app : Routing) (routeId : Nat) (policy : PolicyArg) (memory : List Bool) : Prop :=
  (applyPolicy app routeId policy memory).2 ≠ .ok →
    (applyPolicy app routeId policy memory).1.routes = app.routes

/-- A route after the policy was applied to it alone, with enough memory. -/
def alone (app : Routing) (policy : PolicyArg) (route : Route) : Route :=
  (((applyPolicy app route.id policy []).1.routes.find? fun other => other.id = route.id)).getD route

/-- A call on a group that fails leaves the routes as they were, and one that succeeds does to each
route of the group what the policy does to it alone. -/
structure GroupAtomic (app : Routing) (customIdPrefix : Option Bytes) (policy : PolicyArg)
    (memory : List Bool) : Prop where
  failed : (groupApplyPolicy app customIdPrefix policy memory).2 ≠ .ok →
    (groupApplyPolicy app customIdPrefix policy memory).1.routes = app.routes
  applied : (groupApplyPolicy app customIdPrefix policy memory).2 = .ok →
    (groupApplyPolicy app customIdPrefix policy memory).1.routes = app.routes.map fun route =>
        if groupMatches (customIdPrefix.getD []) route then alone app policy route else route

/-- The first step fails, or none does. -/
def AtOnce (steps : List PolicyStep) (memory : List Bool) : Prop :=
  succeeding steps memory = 0 ∨ succeeding steps memory = steps.length

/-- The steps on a group of so many routes. -/
def groupPlan (count : Nat) (steps : List GroupStep) : List PolicyStep :=
  steps.flatMap fun step =>
    match step with
    | .all step => List.replicate count step
    | .refuse status => [.reject status]

theorem groupAttempts_steps (routeIds : List Nat) (steps : List GroupStep) :
    (groupAttempts routeIds steps).map Prod.snd = groupPlan routeIds.length steps := by
  induction steps with
  | nil => rfl
  | cons step steps ih =>
    rw [groupAttempts, groupPlan] at ih
    rw [groupAttempts, groupPlan, List.flatMap_cons, List.flatMap_cons, List.map_append, ih]
    cases step with
    | all step => simp [Function.comp_def]
    | refuse status => rfl

theorem withGuards_eq_iff {attempts : List Attempt}
    (hthere : ∀ attempt ∈ attempts, ∃ route ∈ routes, route.id = attempt.1)
    (huse : ∀ attempt ∈ attempts, ∃ guard, attempt.2 = .use guard) :
    routes.map (withGuards attempts) = routes ↔ attempts = [] := by
  constructor
  · intro hsame
    cases attempts with
    | nil => rfl
    | cons attempt rest =>
      obtain ⟨route, hroute, hid⟩ := hthere attempt List.mem_cons_self
      obtain ⟨guard, hguard⟩ := huse attempt List.mem_cons_self
      have hfixed : withGuards (attempt :: rest) route = route :=
        List.map_eq_map_iff.mp (hsame.trans (List.map_id routes).symm) route hroute
      have hlong := congrArg (fun route => route.middlewares.length) hfixed
      simp [withGuards, guardsFor, hid, hguard, PolicyStep.guard?] at hlong
  · intro hnil
    rw [hnil]
    exact (List.map_congr_left fun route _ => withGuards_nil route).trans (List.map_id _)

variable {steps : List PolicyStep}

theorem use_of_succeeding {memory : List Bool} :
    ∀ step ∈ steps.take (succeeding steps memory), ∃ guard, step = .use guard := by
  induction steps generalizing memory with
  | nil => simp
  | cons step steps ih =>
    cases step with
    | reject status => simp [succeeding]
    | use guard =>
      rw [succeeding]
      split_ifs
      · rw [List.take_succ_cons]
        intro step hstep
        rcases List.mem_cons.mp hstep with rfl | hstep
        · exact ⟨guard, rfl⟩
        · exact ih step hstep
      · simp

theorem succeeding_le (steps : List PolicyStep) (memory : List Bool) :
    succeeding steps memory ≤ steps.length := by
  induction steps generalizing memory with
  | nil => exact Nat.le_refl 0
  | cons step steps ih =>
    cases step with
    | reject status => exact Nat.zero_le _
    | use guard =>
      rw [succeeding]
      split_ifs
      · exact Nat.succ_le_succ (ih memory.tail)
      · exact Nat.zero_le _

/-- **A run of attempts is all or nothing** when its first attempt fails or none does. -/
theorem runAttempts_atomic {attempts : List Attempt} {memory : List Bool} {app : Routing}
    (hids : app.routes.Pairwise fun a b => a.id ≠ b.id)
    (hthere : ∀ attempt ∈ attempts, ∃ route ∈ app.routes, route.id = attempt.1)
    (hrefusing : Refusing (attempts.map Prod.snd)) :
    ((runAttempts attempts memory app).2 ≠ .ok →
        (runAttempts attempts memory app).1.routes = app.routes) ↔
      AtOnce (attempts.map Prod.snd) memory := by
  obtain ⟨hstate, hok⟩ := runAttempts_spec attempts memory hids hthere hrefusing
  have hle := succeeding_le (attempts.map Prod.snd) memory
  rw [List.length_map] at hle
  have hsame : (runAttempts attempts memory app).1.routes = app.routes ↔
      succeeding (attempts.map Prod.snd) memory = 0 ∨ attempts = [] := by
    rw [hstate]
    refine (withGuards_eq_iff (fun attempt hattempt => hthere attempt (List.mem_of_mem_take hattempt))
      fun attempt hattempt => ?_).trans List.take_eq_nil_iff
    have hmem : attempt.2 ∈ (attempts.map Prod.snd).take
        (succeeding (attempts.map Prod.snd) memory) := by
      rw [← List.map_take]
      exact List.mem_map_of_mem hattempt
    exact use_of_succeeding _ hmem
  rw [hsame, ne_eq, hok, AtOnce, List.length_map]
  constructor
  · intro h
    by_cases hall : succeeding (attempts.map Prod.snd) memory = attempts.length
    · exact Or.inr hall
    · rcases h hall with hzero | hnil
      · exact Or.inl hzero
      · exact Or.inr (by simp [hnil, succeeding])
  · intro h hfailed
    exact Or.inl (h.resolve_right hfailed)

theorem applySteps_missing (steps : List PolicyStep) (memory : List Bool)
    (h : ∀ route ∈ app.routes, route.id ≠ routeId) :
    (applySteps routeId steps memory app).1 = app := by
  have hmissing : (app.routes.all fun route => route.id != routeId) = true := by simpa using h
  induction steps generalizing memory with
  | nil => rfl
  | cons step steps ih =>
    rw [applySteps]
    cases step with
    | reject status =>
      cases status with
      | ok => exact ih memory.tail
      | _ => rfl
    | use guard =>
      rw [applyStep, routeUse, if_pos hmissing]

theorem matchedIds_ne_nil (h : ¬ ∀ route ∈ routes, groupMatches customIdPrefix route = false) :
    matchedIds customIdPrefix routes ≠ [] := by
  push Not at h
  obtain ⟨route, hroute, hmatch⟩ := h
  have hmem : route.id ∈ matchedIds customIdPrefix routes :=
    List.mem_map_of_mem (List.mem_filter.mpr ⟨hroute, by simpa using hmatch⟩)
  exact List.ne_nil_of_mem hmem

theorem mem_matchedIds
    (hids : routes.Pairwise fun a b => a.id ≠ b.id) {route : Route} (hroute : route ∈ routes) :
    route.id ∈ matchedIds customIdPrefix routes ↔ groupMatches customIdPrefix route = true := by
  constructor
  · intro h
    obtain ⟨other, hother, hsame⟩ := List.mem_map.mp h
    obtain ⟨hmem, hmatch⟩ := List.mem_filter.mp hother
    have hnodup : (routes.map Route.id).Nodup := List.pairwise_map.mpr hids
    have heq : other = route := List.inj_on_of_nodup_map hnodup hmem hroute hsame
    rwa [heq] at hmatch
  · exact fun h => List.mem_map_of_mem (List.mem_filter.mpr ⟨hroute, h⟩)

theorem guardsFor_all (hnodup : routeIds.Nodup) (step : PolicyStep) (routeId : Nat) :
    guardsFor (routeIds.map fun id => (id, step)) routeId =
      if routeId ∈ routeIds then step.guard?.toList else [] := by
  induction routeIds with
  | nil => rfl
  | cons id rest ih =>
    obtain ⟨hid, hrest⟩ := List.nodup_cons.mp hnodup
    have ih := ih hrest
    rw [guardsFor] at ih
    rw [guardsFor, List.map_cons, List.filterMap_cons]
    by_cases hsame : id = routeId
    · subst hsame
      rw [if_neg hid] at ih
      simp only [if_true, List.mem_cons_self]
      rw [ih]
      cases step.guard? <;> rfl
    · simp only [if_neg hsame]
      rw [ih]
      simp [List.mem_cons, Ne.symm hsame]

theorem guardsFor_group (hnodup : routeIds.Nodup) (steps : List GroupStep) (routeId : Nat) :
    guardsFor (groupAttempts routeIds steps) routeId =
      if routeId ∈ routeIds then (steps.map GroupStep.plain).filterMap PolicyStep.guard? else [] := by
  induction steps with
  | nil => split <;> rfl
  | cons step steps ih =>
    have happend : guardsFor (groupAttempts routeIds (step :: steps)) routeId =
        guardsFor (groupAttempts routeIds [step]) routeId ++
          guardsFor (groupAttempts routeIds steps) routeId := by
      simp [guardsFor, groupAttempts, List.filterMap_append]
    rw [happend, ih]
    cases step with
    | refuse status =>
      have hnone : guardsFor (groupAttempts routeIds [.refuse status]) routeId = [] := by
        simp [guardsFor, groupAttempts, PolicyStep.guard?]
      rw [hnone]
      rfl
    | all step =>
      have hone : guardsFor (groupAttempts routeIds [.all step]) routeId =
          if routeId ∈ routeIds then step.guard?.toList else [] := by
        rw [← guardsFor_all hnodup step routeId]
        simp [groupAttempts]
      rw [hone]
      split
      · rw [List.map_cons, GroupStep.plain, List.filterMap_cons]
        cases step.guard? <;> rfl
      · rfl

theorem succeeding_all (h : ∀ step ∈ steps, ∃ guard, step = .use guard) :
    succeeding steps [] = steps.length := by
  induction steps with
  | nil => rfl
  | cons step steps ih =>
    obtain ⟨guard, rfl⟩ := h step List.mem_cons_self
    have hrest := ih fun other hother => h other (List.mem_cons_of_mem _ hother)
    rw [succeeding, List.headD_nil, if_pos rfl, List.tail_nil, hrest, List.length_cons]

variable {policy : PolicyArg}

theorem alone_eq (h : IdsFresh app)
    (huse : ∀ step ∈ policy.steps, ∃ guard, step = .use guard) {route : Route}
    (hroute : route ∈ app.routes) :
    alone app policy route = { route with middlewares := route.middlewares ++ policy.guards } := by
  have hzero : route.id ≠ 0 := Nat.pos_iff_ne_zero.mp (h.bound route hroute).1
  have hsteps : (policy.steps.map fun step => (route.id, step)).map Prod.snd = policy.steps := by
    simp [Function.comp_def]
  have hspec := runAttempts_spec (policy.steps.map fun step => (route.id, step)) [] h.distinct
    (fun attempt hattempt => by
      obtain ⟨step, -, rfl⟩ := List.mem_map.mp hattempt
      exact ⟨route, hroute, rfl⟩) (by rw [hsteps]; exact refusing_policy policy)
  have hroutes := congrArg Routing.routes hspec.1
  have htake : (policy.steps.map fun step => (route.id, step)).take policy.steps.length =
      policy.steps.map fun step => (route.id, step) := List.take_of_length_le (by simp)
  rw [hsteps, succeeding_all huse] at hroutes
  simp only [htake] at hroutes
  have hguards : guardsFor (policy.steps.map fun step => (route.id, step)) route.id =
      policy.guards := by
    rw [guardsFor, List.filterMap_map, PolicyArg.guards]
    simp
  have hfind : ((app.routes.map (withGuards (policy.steps.map fun step => (route.id, step)))).find?
      fun other => other.id = route.id) =
        some (withGuards (policy.steps.map fun step => (route.id, step)) route) := by
    rw [List.find?_map]
    have hfirst : app.routes.find? ((fun other : Route => decide (other.id = route.id)) ∘
        withGuards (policy.steps.map fun step => (route.id, step))) = some route := by
      obtain ⟨before, after, hsplit⟩ := List.append_of_mem hroute
      have hdistinct := h.distinct
      rw [hsplit] at hdistinct ⊢
      rw [List.find?_append, List.find?_eq_none.mpr, List.find?_cons_of_pos]
      · rfl
      · simp [withGuards]
      · intro other hother
        have hne := (List.pairwise_append.mp hdistinct).2.2 other hother route List.mem_cons_self
        have hother : ¬ other.id = route.id := hne
        simp [withGuards, hother]
    rw [hfirst]
    rfl
  rw [alone, applyPolicy, if_neg hzero, applySteps_eq_run, hroutes, hfind, Option.getD_some,
    withGuards, hguards]

/-- **A group without a route** takes nothing, and a success changes nothing. -/
theorem groupAtomic_unmatched {customIdPrefix : Option Bytes} (policy : PolicyArg)
    (memory : List Bool)
    (hnone : ∀ route ∈ app.routes, groupMatches (customIdPrefix.getD []) route = false) :
    GroupAtomic app customIdPrefix policy memory := by
  have hsame : (groupApplyPolicy app customIdPrefix policy memory).1 = app := by
    cases customIdPrefix with
    | none => rfl
    | some text =>
      cases text with
      | nil => rfl
      | cons c rest =>
        refine groupApplySteps_unmatched policy.groupSteps memory ?_
        have hfilter : app.routes.filter (groupMatches (c :: rest)) = [] :=
          List.filter_eq_nil_iff.mpr fun route hroute => by simpa using hnone route hroute
        rw [matchedIds, hfilter]
        rfl
  constructor
  · intro _
    rw [hsame]
  · intro _
    rw [hsame]
    refine ((List.map_congr_left fun route hroute => ?_).trans (List.map_id _)).symm
    rw [hnone route hroute]
    rfl

theorem groupAttempts_there (hne : matchedIds customIdPrefix routes ≠ []) (steps : List GroupStep) :
    ∀ attempt ∈ groupAttempts (matchedIds customIdPrefix routes) steps,
      ∃ route ∈ routes, route.id = attempt.1 := by
  have hids : ∀ id ∈ matchedIds customIdPrefix routes, ∃ route ∈ routes, route.id = id := by
    intro id hid
    obtain ⟨route, hroute, hsame⟩ := List.mem_map.mp hid
    exact ⟨route, List.mem_of_mem_filter hroute, hsame⟩
  intro attempt hattempt
  obtain ⟨step, -, hmem⟩ := List.mem_flatMap.mp hattempt
  cases step with
  | all step =>
    obtain ⟨id, hid, rfl⟩ := List.mem_map.mp hmem
    exact hids id hid
  | refuse status =>
    rw [List.mem_singleton.mp hmem]
    obtain ⟨id, rest, hcons⟩ := List.exists_cons_of_ne_nil hne
    rw [hcons]
    exact hids id (by rw [hcons]; exact List.mem_cons_self)

theorem use_of_group {count : Nat} (hcount : count ≠ 0)
    (huse : ∀ step ∈ groupPlan count policy.groupSteps, ∃ guard, step = .use guard) :
    ∀ step ∈ policy.steps, ∃ guard, step = .use guard := by
  intro step hstep
  rw [← groupSteps_plain] at hstep
  obtain ⟨member, hmember, rfl⟩ := List.mem_map.mp hstep
  refine huse _ (List.mem_flatMap.mpr ⟨member, hmember, ?_⟩)
  cases member with
  | all step => exact List.mem_replicate.mpr ⟨hcount, rfl⟩
  | refuse status => exact List.mem_singleton_self _

/-- **A group with a route** is treated all or nothing exactly when its first attempt fails or
none does. -/
theorem groupAtomic_matched (h : IdsFresh app) {c : UInt8} {rest : Bytes}
    (policy : PolicyArg) (memory : List Bool) (hne : matchedIds (c :: rest) app.routes ≠ []) :
    GroupAtomic app (some (c :: rest)) policy memory ↔
      AtOnce (groupPlan (matchedIds (c :: rest) app.routes).length policy.groupSteps) memory := by
  have hrun : groupApplyPolicy app (some (c :: rest)) policy memory =
      runAttempts (groupAttempts (matchedIds (c :: rest) app.routes) policy.groupSteps) memory
        app := groupApplySteps_run hne policy.groupSteps (refuse_policy policy) memory rfl
  have hplan := groupAttempts_steps (matchedIds (c :: rest) app.routes) policy.groupSteps
  have hthere := groupAttempts_there hne policy.groupSteps
  have hrefusing : Refusing
      ((groupAttempts (matchedIds (c :: rest) app.routes) policy.groupSteps).map Prod.snd) := by
    rw [hplan]
    intro status hstatus
    obtain ⟨member, hmember, hmem⟩ := List.mem_flatMap.mp hstatus
    refine refusing_policy policy status ?_
    rw [← groupSteps_plain]
    refine List.mem_map.mpr ⟨member, hmember, ?_⟩
    cases member with
    | all step => exact (List.eq_of_mem_replicate hmem).symm
    | refuse other => exact (List.mem_singleton.mp hmem).symm
  have hatomic := @runAttempts_atomic _ memory _ h.distinct hthere hrefusing
  rw [hplan] at hatomic
  obtain ⟨hstate, hok⟩ := runAttempts_spec _ memory h.distinct hthere hrefusing
  constructor
  · intro hgroup
    have hfailed := hgroup.failed
    rw [hrun] at hfailed
    exact hatomic.mp hfailed
  · intro hplanned
    refine ⟨by rw [hrun]; exact hatomic.mpr hplanned, fun hsuccess => ?_⟩
    rw [hrun] at hsuccess
    have hall := hok.mp hsuccess
    -- every attempt adds its guard, so every member of the policy does
    have huse : ∀ step ∈ groupPlan (matchedIds (c :: rest) app.routes).length policy.groupSteps,
        ∃ guard, step = .use guard := by
      intro step hstep
      rw [← hplan] at hstep
      have hmem : step ∈ ((groupAttempts (matchedIds (c :: rest) app.routes)
          policy.groupSteps).map Prod.snd).take (succeeding ((groupAttempts
            (matchedIds (c :: rest) app.routes) policy.groupSteps).map Prod.snd) memory) := by
        rw [hall, List.take_of_length_le (by simp)]
        exact hstep
      exact use_of_succeeding step hmem
    have hsteps := use_of_group (by simpa using hne) huse
    rw [hrun, hstate, hall, List.take_length]
    refine List.map_congr_left fun route hroute => ?_
    have hnodup : (matchedIds (c :: rest) app.routes).Nodup :=
      (List.pairwise_map.mpr h.distinct : (app.routes.map Route.id).Nodup).sublist
        (List.filter_sublist.map Route.id)
    rw [withGuards, guardsFor_group hnodup, groupSteps_plain]
    by_cases hmatch : groupMatches (c :: rest) route = true
    · rw [if_pos ((mem_matchedIds h.distinct hroute).mpr hmatch), Option.getD_some, if_pos hmatch,
        alone_eq h hsteps hroute]
      rfl
    · rw [if_neg (mt (mem_matchedIds h.distinct hroute).mp hmatch), Option.getD_some,
        if_neg hmatch, List.append_nil]

theorem groupAtomic_iff (h : IdsFresh app) (customIdPrefix : Option Bytes)
    (policy : PolicyArg) (memory : List Bool) :
    GroupAtomic app customIdPrefix policy memory ↔ customIdPrefix.getD [] = [] ∨
      (∀ route ∈ app.routes, groupMatches (customIdPrefix.getD []) route = false) ∨
      AtOnce (groupPlan (matchedIds (customIdPrefix.getD []) app.routes).length policy.groupSteps)
        memory := by
  by_cases hempty : customIdPrefix.getD [] = []
  · have hrefused : groupApplyPolicy app customIdPrefix policy memory = (app, .invalidArg) := by
      cases customIdPrefix with
      | none => rfl
      | some text =>
        have htext : text = [] := hempty
        rw [htext]
        rfl
    refine ⟨fun _ => Or.inl hempty, fun _ => ⟨fun _ => ?_, fun hsuccess => ?_⟩⟩
    · rw [hrefused]
    · rw [hrefused] at hsuccess
      cases hsuccess
  · obtain ⟨c, rest, rfl⟩ : ∃ c rest, customIdPrefix = some (c :: rest) := by
      match customIdPrefix, hempty with
      | some (c :: rest), _ => exact ⟨c, rest, rfl⟩
    rw [Option.getD_some] at hempty ⊢
    by_cases hnone : ∀ route ∈ app.routes, groupMatches (c :: rest) route = false
    · exact ⟨fun _ => Or.inr (Or.inl hnone), fun _ => groupAtomic_unmatched policy memory hnone⟩
    · rw [groupAtomic_matched h policy memory (matchedIds_ne_nil hnone)]
      exact ⟨fun hplan => Or.inr (Or.inr hplan),
        fun hcases => (hcases.resolve_left hempty).resolve_left hnone⟩

theorem routeAtomic_iff (h : IdsFresh app) (routeId : Nat) (policy : PolicyArg)
    (memory : List Bool) :
    RouteAtomic app routeId policy memory ↔
      (∀ route ∈ app.routes, route.id ≠ routeId) ∨ AtOnce policy.steps memory := by
  have hmissing : (∀ route ∈ app.routes, route.id ≠ routeId) →
      RouteAtomic app routeId policy memory := by
    intro hnone _
    rw [applyPolicy]
    split_ifs
    · rfl
    · rw [applySteps_missing policy.steps memory hnone]
  by_cases hnone : ∀ route ∈ app.routes, route.id ≠ routeId
  · exact ⟨fun _ => Or.inl hnone, fun _ => hmissing hnone⟩
  · have hthere : ∃ route ∈ app.routes, route.id = routeId := by
      push Not at hnone
      exact hnone
    obtain ⟨route, hroute, hid⟩ := hthere
    have hzero : routeId ≠ 0 := hid ▸ Nat.pos_iff_ne_zero.mp (h.bound route hroute).1
    have hsteps : (policy.steps.map fun step => (routeId, step)).map Prod.snd = policy.steps := by
      simp [Function.comp_def]
    have hmeant : ∀ attempt ∈ policy.steps.map fun step => (routeId, step),
        ∃ route ∈ app.routes, route.id = attempt.1 := by
      intro attempt hattempt
      obtain ⟨step, -, rfl⟩ := List.mem_map.mp hattempt
      exact ⟨route, hroute, hid⟩
    have hatomic := @runAttempts_atomic _ memory _ h.distinct hmeant
      (by rw [hsteps]; exact refusing_policy policy)
    rw [hsteps] at hatomic
    rw [RouteAtomic, applyPolicy, if_neg hzero, applySteps_eq_run, hatomic]
    exact ⟨Or.inr, fun hcases => hcases.resolve_left hnone⟩

/-- **A policy is applied to a route, or to a group, all or nothing** exactly when no route is meant,
or the first guard it comes to is refused, or no guard is. -/
theorem policy_atomic {app : Routing} (h : Reach step (fun _ _ => True) Routing.new app)
    (policy : PolicyArg) (memory : List Bool) :
    (∀ routeId, RouteAtomic app routeId policy memory ↔
      (∀ route ∈ app.routes, route.id ≠ routeId) ∨ AtOnce policy.steps memory) ∧
    (∀ customIdPrefix, GroupAtomic app customIdPrefix policy memory ↔ customIdPrefix.getD [] = [] ∨
      (∀ route ∈ app.routes, groupMatches (customIdPrefix.getD []) route = false) ∨
      AtOnce (groupPlan (matchedIds (customIdPrefix.getD []) app.routes).length policy.groupSteps)
        memory) :=
  ⟨fun routeId => routeAtomic_iff (reach_idsFresh h) routeId policy memory,
    fun customIdPrefix => groupAtomic_iff (reach_idsFresh h) customIdPrefix policy memory⟩

/-! ## A policy applied in part -/

/-- A button route for `ok`, and its application. -/
def buttonRoute : Move :=
  .extend (.component (some .button) (some [111, 107])) (some 7) .none true

/-- Members only, and a list of channel types that is missing. -/
def brokenPolicy : PolicyArg :=
  .given { RoutePolicy.empty with guildOnly := true, channelTypes := .null 1 }

theorem policy_atomic_buttonRoute :
    Reach step (fun _ _ => True) Routing.new (step Routing.new buttonRoute) ∧
    ((∀ routeId, RouteAtomic (step Routing.new buttonRoute) routeId .none [] ↔
      (∀ route ∈ (step Routing.new buttonRoute).routes, route.id ≠ routeId) ∨
        AtOnce PolicyArg.none.steps []) ∧
    (∀ customIdPrefix, GroupAtomic (step Routing.new buttonRoute) customIdPrefix .none [] ↔
      customIdPrefix.getD [] = [] ∨
      (∀ route ∈ (step Routing.new buttonRoute).routes,
        groupMatches (customIdPrefix.getD []) route = false) ∨
      AtOnce (groupPlan (matchedIds (customIdPrefix.getD [])
        (step Routing.new buttonRoute).routes).length PolicyArg.none.groupSteps) [])) :=
  have hreach : Reach step (fun _ _ => True) Routing.new (step Routing.new buttonRoute) :=
    Reach.start.step trivial
  ⟨hreach, policy_atomic hreach .none []⟩

/-- The guard for members stays on the route although the policy is refused. -/
theorem policy_not_atomic :
    ¬ ∀ app, Reach step (fun _ _ => True) Routing.new app → ∀ policy memory,
      (∀ routeId, RouteAtomic app routeId policy memory) ∧
        ∀ customIdPrefix, GroupAtomic app customIdPrefix policy memory := by
  intro h
  have hboth := h (step Routing.new buttonRoute) (Reach.start.step trivial) brokenPolicy []
  have hroute := hboth.1 1 (by decide)
  revert hroute
  decide

end Dcc.App
