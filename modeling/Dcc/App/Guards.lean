import Dcc.Lib.Reach
import Dcc.App.Routes

/-!
# The guards of a policy are in force before the handler runs

* `listen_atomic` — `dcc_app_listen` adds a route with all its guards, or nothing;
* `Guarded` — what holds between two steps: a route whose registration is through has the
  guards of its policy, and a registration that goes on will add those that are missing;
* `guards_in_force` — in every run in which no event is dispatched to a route of an
  extension before its registration is through, a handler is invoked only after all
  middlewares and all guards of the policy have returned OK;
* `guards_missing` — an event that comes between the route and its guards is not guarded,
  and a registration that fails leaves its route without them.
-/

namespace Dcc.App

open Machine

/-! ## Changing one route -/

section Modify

variable {routes : List Route} {routeId : Nat} {change : Route → Route} {route : Route}

theorem modifyRoute_last (h : ∀ route ∈ routes, route.id ≠ routeId) (hid : route.id = routeId) :
    modifyRoute routeId change (routes ++ [route]) = routes ++ [change route] := by
  induction routes with
  | nil => simp [modifyRoute, hid]
  | cons head rest ih =>
    rw [List.cons_append, modifyRoute, if_neg (h head List.mem_cons_self)]
    rw [ih fun route hmem => h route (List.mem_cons_of_mem _ hmem)]
    rfl

theorem mem_modifyRoute (hids : routes.Pairwise fun a b => a.id ≠ b.id)
    (h : route ∈ modifyRoute routeId change routes) :
    (∃ old ∈ routes, old.id = routeId ∧ route = change old) ∨
      route ∈ routes ∧ route.id ≠ routeId := by
  induction routes with
  | nil => cases h
  | cons head rest ih =>
    obtain ⟨hhead, hrest⟩ := List.pairwise_cons.mp hids
    by_cases hid : head.id = routeId
    · rw [modifyRoute, if_pos hid] at h
      rcases List.mem_cons.mp h with rfl | hmem
      · exact .inl ⟨head, List.mem_cons_self, hid, rfl⟩
      · exact .inr ⟨List.mem_cons_of_mem _ hmem, fun hsame => hhead route hmem (hid.trans hsame.symm)⟩
    · rw [modifyRoute, if_neg hid] at h
      rcases List.mem_cons.mp h with rfl | hmem
      · exact .inr ⟨List.mem_cons_self, hid⟩
      · rcases ih hrest hmem with ⟨old, hold, hsame, rfl⟩ | ⟨hold, hne⟩
        · exact .inl ⟨old, List.mem_cons_of_mem _ hold, hsame, rfl⟩
        · exact .inr ⟨List.mem_cons_of_mem _ hold, hne⟩

theorem modifyRoute_map_id (hkeeps : ∀ route, (change route).id = route.id) :
    (modifyRoute routeId change routes).map Route.id = routes.map Route.id := by
  induction routes with
  | nil => rfl
  | cons head rest ih =>
    rw [modifyRoute]
    split
    · simp [hkeeps]
    · simp [ih]

end Modify

/-! ## Registration in one go -/

section Atomic

variable {app : Routing} {routes : List Route} {route : Route}

theorem routeUse_last (guard : Guard) (happ : app.routes = routes ++ [route])
    (hne : ∀ old ∈ routes, old.id ≠ route.id) : routeUse app route.id guard true = ({ app with
          routes := routes ++ [{ route with middlewares := route.middlewares ++ [guard] }] },
        .ok) := by
  have hfound : ¬ (app.routes.all fun old => old.id != route.id) = true := by simp [happ]
  rw [routeUse, if_neg hfound, if_pos rfl, happ, modifyRoute_last hne rfl]

/-- The steps of a policy, on the route that was added last: they only append guards, and
when all succeed these are the guards of the policy. -/
theorem applySteps_last (steps : List PolicyStep) (memory : List Bool)
    (happ : app.routes = routes ++ [route]) (hne : ∀ old ∈ routes, old.id ≠ route.id) :
    ∃ added, (applySteps route.id steps memory app).1 =
        { app with routes := routes ++ [{ route with middlewares := route.middlewares ++ added }] } ∧
      ((applySteps route.id steps memory app).2 = .ok →
        added = steps.filterMap PolicyStep.guard?) := by
  have hsame : app = { app with
      routes := routes ++ [{ route with middlewares := route.middlewares ++ [] }] } := by
    rw [List.append_nil, ← happ]
  induction steps generalizing app route memory with
  | nil => exact ⟨[], hsame, fun _ => rfl⟩
  | cons step steps ih =>
    rw [applySteps]
    split
    · rename_i after hstep
      cases step with
      | reject status =>
        obtain ⟨rfl, rfl⟩ := Prod.mk.inj hstep
        exact ih memory.tail happ hne hsame
      | use guard =>
        cases hmemory : memory.headD true with
        | false =>
          rw [hmemory, applyStep, routeUse] at hstep
          split at hstep <;> simp at hstep
        | true =>
          rw [hmemory, applyStep, routeUse_last guard happ hne] at hstep
          obtain ⟨rfl, -⟩ := Prod.mk.inj hstep
          obtain ⟨added, hadded, hall⟩ := @ih
            { app with routes := routes ++
              [{ route with middlewares := route.middlewares ++ [guard] }] }
            { route with middlewares := route.middlewares ++ [guard] } memory.tail rfl hne
            (by simp)
          refine ⟨guard :: added, ?_, fun hok => ?_⟩
          · rw [hadded]
            simp
          · rw [hall hok]
            rfl
    · rename_i after status hfailed hstep
      have hafter : after = app := by
        cases step with
        | reject status => exact (Prod.mk.inj hstep).1.symm
        | use guard =>
          rw [applyStep, routeUse] at hstep
          split at hstep
          · exact (Prod.mk.inj hstep).1.symm
          · split at hstep
            · exact absurd (Prod.mk.inj hstep).2.symm hfailed
            · exact (Prod.mk.inj hstep).1.symm
      refine ⟨[], hafter.trans hsame, fun hok => absurd hok hfailed⟩

/-- **`dcc_app_listen` is all or nothing.**  It adds one route that has all guards of its
policy, or it leaves the application as it was. -/
theorem listen_atomic (hbound : ∀ route ∈ app.routes, route.id ≤ app.nextRouteId)
    (prepared : Status) (target : RouteTarget) (handler : Nat) (policy : PolicyArg)
    (memory : List Bool) :
    (listen app prepared target handler policy memory).1 = app ∨
      (listen app prepared target handler policy memory).1 = { app with
          routes := app.routes ++ [
            { id := app.nextRouteId + 1
              type := target.type
              key := target.key
              isPrefix := target.isPrefix
              handler := handler
              listener := true
              middlewares := policy.guards
              policy := policy.guards
              settled := true }]
          nextRouteId := app.nextRouteId + 1 } := by
  unfold listen
  split
  · exact .inl rfl
  · unfold listenerRegisterRoute
    cases hmemory : memory.headD true with
    | false => exact .inl rfl
    | true =>
      have hne : ∀ old ∈ app.routes, old.id ≠ app.nextRouteId + 1 := by
        intro old hmem hsame
        have := hbound old hmem
        omega
      obtain ⟨added, hadded, hall⟩ := @applySteps_last
        (addRoute app target handler true policy true).1 app.routes
        ⟨app.nextRouteId + 1, target.type, target.key, target.isPrefix, handler, true, [],
          policy.guards, false⟩ policy.steps memory.tail rfl hne
      simp only [addRoute, if_true] at hadded hall ⊢
      split
      · rename_i after hafter
        rw [hafter] at hadded hall
        refine .inr ?_
        rw [hall rfl] at hadded
        simp only at hadded
        rw [hadded]
        simp only [settle]
        rw [modifyRoute_last hne]
        · rfl
        · rfl
      · rename_i after status hfailed hafter
        rw [hafter] at hadded
        simp only at hadded
        refine .inl ?_
        have herase : app.routes = (removeRoute after (app.nextRouteId + 1)).routes := by
          rw [hadded]
          simp only [removeRoute]
          rw [List.eraseP_append_right]
          · simp
          · simpa using hne
        have hnext : (removeRoute after (app.nextRouteId + 1)).nextRouteId =
            app.nextRouteId + 1 := by
          rw [hadded]
          rfl
        have hrest : { removeRoute after (app.nextRouteId + 1) with
            nextRouteId := app.nextRouteId } =
            { app with routes := (removeRoute after (app.nextRouteId + 1)).routes } := by
          rw [hadded]
          rfl
        rw [if_pos hnext, hrest, ← herase]

end Atomic

/-! ## Between two steps -/

/-- The registration will add those guards of its policy that the route has not. -/
def Registration.Covers (registration : Registration) (route : Route) : Prop :=
  route.policy ⊆ route.middlewares ++ registration.todo.filterMap PolicyStep.guard?

/-- The list of routes, with the registrations that go on. -/
structure Registered (routes : List Route) (nextRouteId : Nat) (pending : List Registration) :
    Prop where
  ids : routes.Pairwise fun a b => a.id ≠ b.id
  bound : ∀ route ∈ routes, route.id ≤ nextRouteId
  settled : ∀ route ∈ routes, route.settled = true → route.policy ⊆ route.middlewares
  listeners : ∀ route ∈ routes, route.listener = true → route.settled = true
  pendingBound : ∀ registration ∈ pending, registration.routeId ≤ nextRouteId
  covers : ∀ registration ∈ pending, ∀ route ∈ routes, route.id = registration.routeId →
    registration.Covers route

/-- A dispatch runs the middlewares of the application and those of its copy of the route,
which has the guards of its policy. -/
structure Dispatch.Well (dispatch : Dispatch) : Prop where
  guarded : dispatch.route.policy ⊆ dispatch.route.middlewares
  running : ∀ common passed todo, dispatch.phase = .running common passed todo →
    passed ++ todo = common ++ dispatch.route.middlewares

/-- All middlewares of the application and all guards of the policy of the route had
returned OK. -/
def Invocation.Guarded (invocation : Invocation) : Prop :=
  invocation.app ⊆ invocation.passed ∧ invocation.route.policy ⊆ invocation.passed

/-- What holds between two steps. -/
structure Guarded (app : Routing) : Prop where
  registered : Registered app.routes app.nextRouteId app.pending
  dispatches : ∀ dispatch ∈ app.dispatches, dispatch.Well
  log : ∀ invocation ∈ app.log, invocation.Guarded

section Registered

variable {routes : List Route} {nextRouteId routeId : Nat} {pending rest : List Registration}
  {todo : List PolicyStep}

section

variable (h : Registered routes nextRouteId pending)
include h

theorem Registered.mono (hsub : rest ⊆ pending) :
    Registered routes nextRouteId rest :=
  ⟨h.ids, h.bound, h.settled, h.listeners, fun r hr => h.pendingBound r (hsub hr),
    fun r hr => h.covers r (hsub hr)⟩

theorem Registered.add (route : Route) (todo : List PolicyStep) (hid : route.id = nextRouteId + 1)
    (hsettled : route.settled = true → route.policy ⊆ route.middlewares)
    (hlistener : route.listener = true → route.settled = true)
    (hcovers : Registration.Covers ⟨nextRouteId + 1, todo⟩ route) :
    Registered (routes ++ [route]) (nextRouteId + 1) (⟨nextRouteId + 1, todo⟩ :: pending) := by
  have hfresh : ∀ old ∈ routes, old.id ≠ route.id := by
    intro old hmem
    have := h.bound old hmem
    omega
  constructor
  · rw [List.pairwise_append]
    refine ⟨h.ids, List.pairwise_singleton _ _, ?_⟩
    intro old hold new hnew
    rw [List.mem_singleton.mp hnew]
    exact hfresh old hold
  · intro old hmem
    rcases List.mem_append.mp hmem with hold | hnew
    · exact Nat.le_succ_of_le (h.bound old hold)
    · rw [List.mem_singleton.mp hnew]
      exact Nat.le_of_eq hid
  · intro old hmem
    rcases List.mem_append.mp hmem with hold | hnew
    · exact h.settled old hold
    · rw [List.mem_singleton.mp hnew]
      exact hsettled
  · intro old hmem
    rcases List.mem_append.mp hmem with hold | hnew
    · exact h.listeners old hold
    · rw [List.mem_singleton.mp hnew]
      exact hlistener
  · intro registration hmem
    rcases List.mem_cons.mp hmem with rfl | hold
    · exact Nat.le_refl _
    · exact Nat.le_succ_of_le (h.pendingBound registration hold)
  · intro registration hreg old hmem hsame
    rcases List.mem_cons.mp hreg with rfl | hregOld
    · rcases List.mem_append.mp hmem with hold | hnew
      · exact absurd (hsame.trans hid.symm) (hfresh old hold)
      · rw [List.mem_singleton.mp hnew]
        exact hcovers
    · rcases List.mem_append.mp hmem with hold | hnew
      · exact h.covers registration hregOld old hold hsame
      · have := h.pendingBound registration hregOld
        rw [List.mem_singleton.mp hnew] at hsame
        omega

theorem Registered.erase (p : Route → Bool) :
    Registered (routes.eraseP p) nextRouteId pending :=
  ⟨h.ids.sublist (List.eraseP_sublist), fun r hr => h.bound r (List.mem_of_mem_eraseP hr),
    fun r hr => h.settled r (List.mem_of_mem_eraseP hr),
    fun r hr => h.listeners r (List.mem_of_mem_eraseP hr), h.pendingBound,
    fun g hg r hr => h.covers g hg r (List.mem_of_mem_eraseP hr)⟩

/-- One route is changed: its id and its policy stay, and it has its guards if it is settled
and is covered by the registrations that go on. -/
theorem Registered.modify {change : Route → Route}
    (hid : ∀ route, (change route).id = route.id) (hsub : rest ⊆ pending)
    (hsettled : ∀ route ∈ routes, route.id = routeId → (change route).settled = true →
      (change route).policy ⊆ (change route).middlewares)
    (hlisteners : ∀ route, (route.listener = true → route.settled = true) →
      (change route).listener = true → (change route).settled = true)
    (hcovers : ∀ registration ∈ rest, ∀ route ∈ routes, route.id = routeId →
      route.id = registration.routeId → registration.Covers (change route)) :
    Registered (modifyRoute routeId change routes) nextRouteId rest := by
  constructor
  · have hmap : ((modifyRoute routeId change routes).map Route.id).Pairwise (· ≠ ·) := by
      rw [modifyRoute_map_id hid]
      exact List.pairwise_map.mpr h.ids
    exact List.pairwise_map.mp hmap
  · intro route hmem
    rcases mem_modifyRoute h.ids hmem with ⟨old, hold, -, rfl⟩ | ⟨hold, -⟩
    · rw [hid]
      exact h.bound old hold
    · exact h.bound route hold
  · intro route hmem
    rcases mem_modifyRoute h.ids hmem with ⟨old, hold, hsame, rfl⟩ | ⟨hold, -⟩
    · exact hsettled old hold hsame
    · exact h.settled route hold
  · intro route hmem
    rcases mem_modifyRoute h.ids hmem with ⟨old, hold, -, rfl⟩ | ⟨hold, -⟩
    · exact hlisteners old (h.listeners old hold)
    · exact h.listeners route hold
  · intro registration hmem
    exact h.pendingBound registration (hsub hmem)
  · intro registration hreg route hmem hroute
    rcases mem_modifyRoute h.ids hmem with ⟨old, hold, hsame, rfl⟩ | ⟨hold, -⟩
    · exact hcovers registration hreg old hold hsame ((hid old).symm.trans hroute)
    · exact h.covers registration (hsub hreg) route hold hroute

theorem Registered.addGuard (guard : Guard) :
    Registered (modifyRoute routeId
      (fun route => { route with middlewares := route.middlewares ++ [guard] }) routes)
      nextRouteId pending := by
  refine h.modify (fun _ => rfl) (fun _ => id) ?_ (fun _ => id) ?_
  · intro route hmem _ hsettled
    exact fun g hg => List.mem_append_left _ (h.settled route hmem hsettled hg)
  · intro registration hreg route hmem _ hroute g hg
    have hold := h.covers registration hreg route hmem hroute hg
    rcases List.mem_append.mp hold with hmiddleware | htodo
    · exact List.mem_append_left _ (List.mem_append_left _ hmiddleware)
    · exact List.mem_append_right _ htodo

end

theorem Registered.use {guard : Guard}
    (h : Registered routes nextRouteId (⟨routeId, .use guard :: todo⟩ :: pending)) :
    Registered (modifyRoute routeId
      (fun route => { route with middlewares := route.middlewares ++ [guard] }) routes)
      nextRouteId (⟨routeId, todo⟩ :: pending) := by
  have hhead := h.covers _ List.mem_cons_self
  have hrest := h.mono (List.subset_cons_self _ pending)
  constructor
  · exact (hrest.addGuard guard).ids
  · exact (hrest.addGuard guard).bound
  · exact (hrest.addGuard guard).settled
  · exact (hrest.addGuard guard).listeners
  · intro registration hmem
    rcases List.mem_cons.mp hmem with rfl | hold
    · exact h.pendingBound ⟨routeId, .use guard :: todo⟩ List.mem_cons_self
    · exact hrest.pendingBound registration hold
  · intro registration hreg route hmem hroute
    rcases List.mem_cons.mp hreg with rfl | hold
    · rcases mem_modifyRoute h.ids hmem with ⟨old, hold, hsame, rfl⟩ | ⟨-, hne⟩
      · intro g hg
        have hcovered := hhead old hold hsame hg
        simpa [PolicyStep.guard?, or_assoc] using hcovered
      · exact absurd hroute hne
    · exact (hrest.addGuard guard).covers registration hold route hmem hroute

theorem Registered.settle (h : Registered routes nextRouteId (⟨routeId, []⟩ :: pending)) :
    Registered (modifyRoute routeId (fun route => { route with settled := true }) routes)
      nextRouteId pending := by
  refine h.modify (fun _ => rfl) (List.subset_cons_self _ _) ?_ (fun _ _ _ => rfl) ?_
  · intro route hmem hsame _
    have hcovered := h.covers _ List.mem_cons_self route hmem hsame
    simpa [Registration.Covers] using hcovered
  · intro registration hreg route hmem _ hroute
    exact h.covers registration (List.mem_cons_of_mem _ hreg) route hmem hroute

end Registered

/-! ## One step -/

section Steps

variable {app : Routing}

theorem Guarded.of_registered {after : Routing} (h : Guarded app)
    (hregistered : Registered after.routes after.nextRouteId after.pending)
    (hdispatches : after.dispatches = app.dispatches) (hlog : after.log = app.log) :
    Guarded after := by
  refine ⟨hregistered, ?_, ?_⟩
  · rw [hdispatches]
    exact h.dispatches
  · rw [hlog]
    exact h.log

theorem use_guarded (h : Guarded app) (guard : Guard) (memory : Bool) :
    Guarded (use app guard memory).1 := by
  unfold use
  split
  · exact h.of_registered h.registered rfl rfl
  · exact h

theorem routeUse_guarded (h : Guarded app) (routeId : Nat) (guard : Guard) (memory : Bool) :
    Guarded (routeUse app routeId guard memory).1 := by
  unfold routeUse
  split
  · exact h
  · split
    · exact h.of_registered (h.registered.addGuard guard) rfl rfl
    · exact h

theorem listen_guarded (h : Guarded app) (prepared : Status) (target : RouteTarget)
    (handler : Nat) (policy : PolicyArg) (memory : List Bool) :
    Guarded (listen app prepared target handler policy memory).1 := by
  rcases listen_atomic h.registered.bound prepared target handler policy memory with hsame | hadded
  · rw [hsame]
    exact h
  · rw [hadded]
    refine h.of_registered ?_ rfl rfl
    refine (h.registered.add _ [] rfl ?_ (fun _ => rfl) ?_).mono (List.subset_cons_self _ _)
    · intro _
      exact fun _ => id
    · simp [Registration.Covers]

theorem detachRoute_guarded (h : Guarded app) (routeId : Nat) : Guarded (detachRoute app routeId) := by
  unfold detachRoute
  split
  · exact h.of_registered (h.registered.erase _) rfl rfl
  · exact h

theorem proceed_guarded {registration : Registration} (h : Guarded app)
    (hregistered : Registered app.routes app.nextRouteId (registration :: app.pending)) :
    Guarded (proceed app registration) := by
  obtain ⟨routeId, todo⟩ := registration
  unfold proceed
  cases todo with
  | nil => exact h.of_registered hregistered.settle rfl rfl
  | cons step todo =>
    refine h.of_registered (hregistered.mono ?_) rfl rfl
    intro registration hmem
    rcases List.mem_append.mp hmem with hold | hnew
    · exact List.mem_cons_of_mem _ hold
    · exact List.mem_cons.mpr (.inl (List.mem_singleton.mp hnew))

theorem extend_guarded (h : Guarded app) (route : ExtensionRoute) (handler : Option Nat)
    (policy : PolicyArg) (memory : Bool) : Guarded (extend app route handler policy memory).1 := by
  unfold extend
  split
  · exact h
  · rename_i handler
    split
    · exact h
    · rename_i target _
      cases memory with
      | false => exact h
      | true =>
        simp only [addRoute, if_true]
        have hadded := h.registered.add
          ⟨app.nextRouteId + 1, target.type, target.key, target.isPrefix, handler, false, [],
            policy.guards, false⟩ policy.steps rfl (by simp) (by simp)
          (by simp [Registration.Covers, PolicyArg.guards])
        refine proceed_guarded ?_ hadded
        exact h.of_registered (hadded.mono (List.subset_cons_self _ _)) rfl rfl

theorem applyStep_spec {routeId : Nat} {step : PolicyStep} {todo : List PolicyStep}
    {pending : List Registration} (memory : Bool)
    (h : Registered app.routes app.nextRouteId (⟨routeId, step :: todo⟩ :: pending)) :
    (applyStep app routeId step memory).1 =
        { app with routes := (applyStep app routeId step memory).1.routes } ∧
      Registered (applyStep app routeId step memory).1.routes app.nextRouteId pending ∧
      ((applyStep app routeId step memory).2 = .ok →
        Registered (applyStep app routeId step memory).1.routes app.nextRouteId
          (⟨routeId, todo⟩ :: pending)) := by
  have hrest := h.mono (List.subset_cons_self _ pending)
  cases step with
  | reject status =>
    refine ⟨rfl, hrest, fun _ => ⟨h.ids, h.bound, h.settled, h.listeners, ?_, ?_⟩⟩
    · intro registration hmem
      rcases List.mem_cons.mp hmem with rfl | hold
      · exact h.pendingBound ⟨routeId, .reject status :: todo⟩ List.mem_cons_self
      · exact hrest.pendingBound registration hold
    · intro registration hreg route hmem hroute
      rcases List.mem_cons.mp hreg with rfl | hold
      · exact h.covers ⟨routeId, .reject status :: todo⟩ List.mem_cons_self route hmem hroute
      · exact hrest.covers registration hold route hmem hroute
  | use guard =>
    simp only [applyStep, routeUse]
    split
    · exact ⟨rfl, hrest, by simp⟩
    · split
      · exact ⟨rfl, hrest.addGuard guard, fun _ => h.use⟩
      · exact ⟨rfl, hrest, by simp⟩

theorem extendStep_guarded (h : Guarded app) (index : Nat) (memory : Bool) :
    Guarded (extendStep app index memory).1 := by
  unfold extendStep
  split
  · exact h
  · rename_i registration hregistration
    have herase : app.pending.eraseIdx index ⊆ app.pending := List.eraseIdx_subset
    have hrest : Guarded { app with pending := app.pending.eraseIdx index } :=
      h.of_registered (h.registered.mono herase) rfl rfl
    have hsub : registration :: app.pending.eraseIdx index ⊆ app.pending :=
      List.cons_subset.mpr ⟨List.mem_of_getElem? hregistration, herase⟩
    have hregistered : Registered app.routes app.nextRouteId
        (registration :: app.pending.eraseIdx index) := h.registered.mono hsub
    obtain ⟨routeId, todo⟩ := registration
    cases todo with
    | nil => exact hrest
    | cons step todo =>
      obtain ⟨hframe, hkept, hok⟩ := @applyStep_spec
        { app with pending := app.pending.eraseIdx index } routeId step todo _ memory hregistered
      simp only
      split
      · rename_i after hstep
        rw [hstep] at hframe hkept hok
        simp only at hframe hkept hok
        have hafter : Guarded after := by
          rw [hframe]
          exact hrest.of_registered hkept rfl rfl
        refine proceed_guarded hafter ?_
        rw [hframe]
        exact hok trivial
      · rename_i after status _ hstep
        rw [hstep] at hframe hkept
        simp only at hframe hkept
        rw [hframe]
        exact hrest.of_registered hkept rfl rfl

/-- An event that is dispatched to a route of an extension comes when the registration of
the route is through. -/
def AfterRegistration (app : Routing) : Move → Prop
  | .dispatch interaction _ _ => ∀ route, routeOf app.routes interaction = some route →
      route.listener = false → route.settled = true
  | _ => True

theorem findRoute_mem {routes : List Route} {type : EventType} {value : Bytes} {route : Route}
    (h : findRoute routes type value = some route) : route ∈ routes := by
  rcases Option.or_eq_some_iff.mp h with hexact | ⟨-, hprefix⟩
  · exact List.mem_of_find?_eq_some hexact
  · exact List.mem_of_find?_eq_some hprefix

variable {interaction : Interaction}

theorem routeOf_mem {routes : List Route} {route : Route}
    (h : routeOf routes interaction = some route) : route ∈ routes := by
  rcases Option.or_eq_some_iff.mp h with hsub | ⟨-, hkey⟩
  · repeat' split at hsub
    all_goals first
      | exact findRoute_mem hsub
      | cases hsub
  · obtain ⟨key, -, hfound⟩ := Option.bind_eq_some_iff.mp hkey
    exact findRoute_mem hfound

theorem dispatchEvent_guarded (h : Guarded app) (acquired memory : Bool)
    (hafter : ∀ route, routeOf app.routes interaction = some route →
      route.listener = false → route.settled = true) :
    Guarded (dispatchEvent app interaction acquired memory) := by
  unfold dispatchEvent
  split
  · exact h
  · rename_i route hroute
    have hmem := routeOf_mem hroute
    have hsettled : route.settled = true := by
      cases hlistener : route.listener with
      | false => exact hafter route hroute hlistener
      | true => exact h.registered.listeners route hmem hlistener
    repeat' split
    · exact h
    · exact h
    · refine ⟨h.registered, ?_, h.log⟩
      intro dispatch hdispatch
      rcases List.mem_append.mp hdispatch with hold | hnew
      · exact h.dispatches dispatch hold
      · rw [List.mem_singleton.mp hnew]
        exact ⟨h.registered.settled route hmem hsettled, by simp⟩

theorem Guarded.setDispatch (h : Guarded app) {index : Nat} {dispatch : Dispatch}
    (hwell : dispatch.Well) :
    Guarded { app with dispatches := app.dispatches.set index dispatch } := by
  refine ⟨h.registered, ?_, h.log⟩
  intro other hmem
  rcases List.mem_or_eq_of_mem_set hmem with hold | rfl
  · exact h.dispatches other hold
  · exact hwell

theorem dispatchStart_guarded (h : Guarded app) (index : Nat) (memory : Bool) (flow : Status) :
    Guarded (dispatchStart app index memory flow) := by
  unfold dispatchStart
  split
  · rename_i route hfound
    have hwell := h.dispatches _ (List.mem_of_getElem? hfound)
    refine h.setDispatch ⟨hwell.guarded, ?_⟩
    intro common passed todo hphase
    split at hphase
    · cases hphase
    · cases hphase
      rfl
  · exact h

theorem dispatchNext_guarded (h : Guarded app) (index : Nat) (status : Status) (cancelled : Bool) :
    Guarded (dispatchNext app index status cancelled) := by
  unfold dispatchNext
  split
  · rename_i route common passed hrunning
    have hwell := h.dispatches _ (List.mem_of_getElem? hrunning)
    have hpassed : passed = common ++ route.middlewares := by
      simpa using hwell.running common passed [] rfl
    have hended : Guarded { app with dispatches := app.dispatches.set index ⟨route, .ended⟩ } :=
      h.setDispatch ⟨hwell.guarded, by simp⟩
    refine ⟨hended.registered, hended.dispatches, ?_⟩
    intro invocation hmem
    rcases List.mem_append.mp hmem with hold | hnew
    · exact h.log invocation hold
    · rw [List.mem_singleton.mp hnew]
      constructor
      · simp [hpassed]
      · intro guard hguard
        rw [hpassed]
        exact List.mem_append_right _ (hwell.guarded hguard)
  · rename_i route common passed guard todo hrunning
    have hwell := h.dispatches _ (List.mem_of_getElem? hrunning)
    refine h.setDispatch ⟨hwell.guarded, ?_⟩
    intro common' passed' todo' hphase
    split at hphase
    · cases hphase
    · cases hphase
      rw [← hwell.running common passed (guard :: todo) rfl]
      simp
  · exact h

theorem step_guarded (h : Guarded app) {move : Move} (hafter : AfterRegistration app move) :
    Guarded (step app move) := by
  cases move with
  | use guard memory => exact use_guarded h guard memory
  | routeUse routeId guard memory => exact routeUse_guarded h routeId guard memory
  | listen prepared target handler policy memory =>
    exact listen_guarded h prepared target handler policy memory
  | unlisten routeId => exact detachRoute_guarded h routeId
  | extend route handler policy memory => exact extend_guarded h route handler policy memory
  | extendStep index memory => exact extendStep_guarded h index memory
  | dispatch interaction acquired memory => exact dispatchEvent_guarded h acquired memory hafter
  | dispatchStart index memory flow => exact dispatchStart_guarded h index memory flow
  | dispatchNext index status cancelled => exact dispatchNext_guarded h index status cancelled

end Steps

/-! ## Whole runs -/

theorem Guarded.new : Guarded Routing.new := by
  refine ⟨⟨List.Pairwise.nil, ?_, ?_, ?_, ?_, ?_⟩, ?_, ?_⟩ <;> simp [Routing.new]

/-- **The guards are in force.**  In every run in which no event is dispatched to a route of
an extension whose registration is not through, a handler is invoked only after all
middlewares of the application and every guard of the policy of its route have returned OK
for the event. -/
theorem guards_in_force {app : Routing} (h : Reach step AfterRegistration Routing.new app) :
    ∀ invocation ∈ app.log, invocation.Guarded := by
  have hguarded : Guarded app :=
    h.invariant Guarded.new fun _ _ happ hafter => step_guarded happ hafter
  exact hguarded.log

/-- An extension with the command `ban`, only for guilds. -/
def banCommand : Move :=
  .extend (.slash (some (asciiText "ban")) .ok) (some 7)
    (.given { RoutePolicy.empty with guildOnly := true }) true

/-- The command `ban` is used. -/
def banUsed : Move :=
  .dispatch ⟨.slashCommand, some (asciiText "ban"), none, none, none⟩ true true

/-- The command is used after its registration, and the guard lets the event pass. -/
theorem guards_in_force_ban :
    ∃ invocation, ([banCommand, .extendStep 0 true, banUsed, .dispatchStart 0 true .ok,
        .dispatchNext 0 .ok false, .dispatchNext 0 .ok false].foldl step Routing.new).log =
        [invocation] ∧ invocation.Guarded ∧ invocation.passed = [.guildOnly] := by
  refine ⟨_, rfl, @guards_in_force ([banCommand, .extendStep 0 true, banUsed,
    .dispatchStart 0 true .ok, .dispatchNext 0 .ok false,
    .dispatchNext 0 .ok false].foldl step Routing.new) (Reach.run Reach.start ?_) _
    List.mem_cons_self, rfl⟩
  refine ⟨trivial, trivial, ?_, trivial, trivial, trivial, trivial⟩
  intro route hroute _
  cases hroute
  rfl

/-- The command is used before its guard is added, or after the guard could not be added:
the handler runs without it. -/
theorem guards_missing :
    (∃ invocation, ([banCommand, banUsed, .extendStep 0 true, .dispatchStart 0 true .ok,
        .dispatchNext 0 .ok false].foldl step Routing.new).log = [invocation] ∧
        ¬ invocation.Guarded) ∧
      (extendStep (step Routing.new banCommand) 0 false).2 = .nomem ∧
      ∃ invocation, ([banCommand, .extendStep 0 false, banUsed, .dispatchStart 0 true .ok,
        .dispatchNext 0 .ok false].foldl step Routing.new).log = [invocation] ∧
        ¬ invocation.Guarded := by
  refine ⟨⟨_, rfl, ?_⟩, rfl, ⟨_, rfl, ?_⟩⟩
  · intro hguarded
    exact absurd (hguarded.2 List.mem_cons_self) (by decide)
  · intro hguarded
    exact absurd (hguarded.2 List.mem_cons_self) (by decide)

end Dcc.App
