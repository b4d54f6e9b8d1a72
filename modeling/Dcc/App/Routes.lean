import Dcc.Basic

/-!
# Routes, their guards, and the dispatch of an interaction

An application keeps a list of routes.  A route has a key, a handler and the middlewares
that run before its handler; the guards of a policy are such middlewares.  One lock
protects the list, so what stands between two acquisitions of the lock is one step here.

`dcc_app_listen` publishes a route and adds its guards under one lock, and takes the route
back when a guard cannot be added.  The functions that register an extension publish the
route first, and every guard is added under a lock of its own: `extend` and `extendStep`.

A route records the guards of the policy that it was registered with (`policy`) and
whether its registration is through (`settled`); the log records for each invocation of a
handler which middlewares had let the event pass.
-/

namespace Dcc.App

/-! ## Policies -/

/-- An array argument with its count; the pointer may be null. -/
inductive Items (α : Type)
  | null (count : Nat)
  | array (items : List α)
  deriving DecidableEq

/-- `dcc_app_cooldown_bucket_t`. -/
inductive CooldownBucket
  | global
  | user
  | channel
  | guild
  deriving DecidableEq

/-- `dcc_app_cooldown_options_t`; `none` is a bucket outside the enumeration. -/
structure CooldownOptions where
  bucket : Option CooldownBucket
  limit : Nat
  windowMs : Nat
  deriving DecidableEq

/-- A middleware of a route: a callback, or one of the guards of a policy. -/
inductive Guard
  | middleware (callback : Nat)
  | guildOnly
  | dmOnly
  | nsfwOnly
  | channelTypes (types : List UInt32)
  | userAllowlist (users : List UInt64)
  | requiredPermissions (permissions : UInt64)
  | requiredRoles (roles : List UInt64)
  | anyRole (roles : List UInt64)
  | check (callback : Nat)
  | cooldown (options : CooldownOptions)
  deriving DecidableEq

/-- `dcc_app_route_policy_t`.  A member that lies outside the size of the structure reads as
zero; a middleware or a check without a callback, or of too small a size, is `none`. -/
structure RoutePolicy where
  middlewares : Items (Option Nat)
  ownerUserIds : Items UInt64
  requiredPermissions : UInt64
  guildOnly : Bool
  cooldown : CooldownOptions
  checks : Items (Option Nat)
  dmOnly : Bool
  nsfwOnly : Bool
  channelTypes : Items UInt32
  requiredRoleIds : Items UInt64
  anyRoleIds : Items UInt64

/-- A policy without a guard. -/
def RoutePolicy.empty : RoutePolicy where
  middlewares := .null 0
  ownerUserIds := .null 0
  requiredPermissions := 0
  guildOnly := false
  cooldown := ⟨some .global, 0, 0⟩
  checks := .null 0
  dmOnly := false
  nsfwOnly := false
  channelTypes := .null 0
  requiredRoleIds := .null 0
  anyRoleIds := .null 0

/-- What a registration does for one member of its policy: it adds a guard to the route, or
it refuses the policy. -/
inductive PolicyStep
  | use (guard : Guard)
  | reject (status : Status)
  deriving DecidableEq

/-- The steps for an array of callbacks. -/
def callbackSteps (guard : Nat → Guard) : Items (Option Nat) → List PolicyStep
  | .null count => if count = 0 then [] else [.reject .invalidArg]
  | .array items => items.map fun item =>
    match item with
    | some callback => .use (guard callback)
    | none => .reject .invalidArg

/-- The step for an array that makes one guard. -/
def listSteps {α : Type} (guard : List α → Guard) : Items α → List PolicyStep
  | .null count => if count = 0 then [] else [.reject .invalidArg]
  | .array items => if items = [] then [] else [.use (guard items)]

/-- The step for a flag. -/
def flagSteps (guard : Guard) (flag : Bool) : List PolicyStep := if flag then [.use guard] else []

/-- `dcc_app_route_use_cooldown`, which refuses a bucket outside the enumeration. -/
def cooldownSteps (options : CooldownOptions) : List PolicyStep :=
  if options.limit ≠ 0 ∧ options.windowMs ≠ 0 then
    match options.bucket with
    | some _ => [.use (.cooldown options)]
    | none => [.reject .invalidArg]
  else []

/-- `dcc_app_route_apply_policy_internal`, in the order of the source. -/
def policySteps (policy : RoutePolicy) : List PolicyStep :=
  callbackSteps .middleware policy.middlewares ++
  (if (policy.guildOnly && policy.dmOnly) || (policy.dmOnly && policy.nsfwOnly) then
    [.reject .invalidArg]
  else []) ++
  flagSteps .guildOnly policy.guildOnly ++
  flagSteps .dmOnly policy.dmOnly ++
  flagSteps .nsfwOnly policy.nsfwOnly ++
  listSteps .channelTypes policy.channelTypes ++
  listSteps .userAllowlist policy.ownerUserIds ++
  flagSteps (.requiredPermissions policy.requiredPermissions) (policy.requiredPermissions != 0) ++
  listSteps .requiredRoles policy.requiredRoleIds ++
  listSteps .anyRole policy.anyRoleIds ++
  callbackSteps .check policy.checks ++
  cooldownSteps policy.cooldown

/-- The policy argument of a registration: there may be none, or its size may be too small. -/
inductive PolicyArg
  | none
  | tooSmall
  | given (policy : RoutePolicy)

def PolicyArg.steps : PolicyArg → List PolicyStep
  | .none => []
  | .tooSmall => [.reject .invalidArg]
  | .given policy => policySteps policy

/-- The guard that a step adds. -/
def PolicyStep.guard? : PolicyStep → Option Guard
  | .use guard => some guard
  | .reject _ => none

/-- The guards of a policy. -/
def PolicyArg.guards (policy : PolicyArg) : List Guard := policy.steps.filterMap PolicyStep.guard?

/-! ## Routes -/

/-- `dcc_event_type_t`, as far as it is about interactions. -/
inductive EventType
  | slashCommand
  | autocomplete
  | userContextMenu
  | messageContextMenu
  | buttonClick
  | selectClick
  | formSubmit
  deriving DecidableEq

/-- `dcc_app_route_t`, with the record of its registration. -/
structure Route where
  id : Nat
  type : EventType
  key : Bytes
  isPrefix : Bool
  handler : Nat
  listener : Bool
  middlewares : List Guard
  policy : List Guard
  settled : Bool
  deriving DecidableEq

/-- What a registration asks for. -/
structure RouteTarget where
  type : EventType
  key : Bytes
  isPrefix : Bool

/-- `dcc_app_route_matches`. -/
def routeMatches (route : Route) (type : EventType) (value : Bytes) : Bool :=
  route.type == type &&
    if route.isPrefix then route.key.isPrefixOf value else route.key == value

/-- `dcc_app_find_route`: an exact key goes before a prefix. -/
def findRoute (routes : List Route) (type : EventType) (value : Bytes) : Option Route :=
  (routes.find? fun route => !route.isPrefix && routeMatches route type value).or
    (routes.find? fun route => route.isPrefix && routeMatches route type value)

/-- `dcc_app_subcommand_key`, with its buffer of 256 bytes. -/
def subcommandKey (commandName subcommandPath : Option Bytes) : Except Status Bytes :=
  match commandName, subcommandPath with
  | some (c :: name), some (p :: path) =>
    let key := (c :: name) ++ asciiText "/" ++ (p :: path)
    if key.length < 256 then .ok key else .error .invalidArg
  | _, _ => .error .invalidArg

/-! ## The extension registration functions -/

/-- `dcc_app_extension_context_menu_type_t`. -/
inductive MenuKind
  | user
  | message
  deriving DecidableEq

/-- `dcc_app_extension_component_type_t`. -/
inductive ComponentKind
  | button
  | buttonPrefix
  | select
  | selectPrefix
  | modal
  | modalPrefix
  deriving DecidableEq

/-- What an extension registers; `registered` is what the command registry says to the
command, and a `kind` outside the enumeration is `none`. -/
inductive ExtensionRoute
  | slash (name : Option Bytes) (registered : Status)
  | subcommand (commandName subcommandPath : Option Bytes)
  | autocomplete (name : Option Bytes)
  | contextMenu (kind : Option MenuKind) (name : Option Bytes) (registered : Status)
  | component (kind : Option ComponentKind) (customId : Option Bytes)

/-- The key test of `dcc_app_add_route`. -/
def routeTarget (type : EventType) (key : Option Bytes) (isPrefix : Bool) :
    Except Status RouteTarget :=
  match key with
  | some (b :: rest) => .ok ⟨type, b :: rest, isPrefix⟩
  | _ => .error .invalidArg

/-- `dcc_app_slash_route` and `dcc_app_slash_builder_route` up to their route. -/
def slashRoute (name : Option Bytes) (registered : Status) : Except Status RouteTarget :=
  match routeTarget .slashCommand name false with
  | .error status => .error status
  | .ok target => if registered = .ok then .ok target else .error registered

/-- `dcc_app_subcommand_route`. -/
def subcommandRoute (commandName subcommandPath : Option Bytes) : Except Status RouteTarget :=
  match subcommandKey commandName subcommandPath with
  | .error status => .error status
  | .ok key => routeTarget .slashCommand (some key) false

/-- `dcc_app_context_menu_route`. -/
def contextMenuRoute (kind : MenuKind) (name : Option Bytes) (registered : Status) :
    Except Status RouteTarget :=
  let type := match kind with
    | .user => .userContextMenu
    | .message => .messageContextMenu
  match routeTarget type name false with
  | .error status => .error status
  | .ok target => if registered = .ok then .ok target else .error registered

/-- The six component routes. -/
def componentRoute (kind : ComponentKind) (customId : Option Bytes) : Except Status RouteTarget :=
  match kind with
  | .button => routeTarget .buttonClick customId false
  | .buttonPrefix => routeTarget .buttonClick customId true
  | .select => routeTarget .selectClick customId false
  | .selectPrefix => routeTarget .selectClick customId true
  | .modal => routeTarget .formSubmit customId false
  | .modalPrefix => routeTarget .formSubmit customId true

/-- The route that an extension function asks for. -/
def ExtensionRoute.target : ExtensionRoute → Except Status RouteTarget
  | .slash name registered => slashRoute name registered
  | .subcommand commandName subcommandPath => subcommandRoute commandName subcommandPath
  | .autocomplete name => routeTarget .autocomplete name false
  | .contextMenu none _ _ => .error .invalidArg
  | .contextMenu (some kind) name registered => contextMenuRoute kind name registered
  | .component none _ => .error .invalidArg
  | .component (some kind) customId => componentRoute kind customId

/-! ## The state -/

/-- A registration of an extension that goes on: its route and what is left of its policy. -/
structure Registration where
  routeId : Nat
  todo : List PolicyStep

/-- An interaction, as far as the dispatch reads it. -/
structure Interaction where
  type : EventType
  name : Option Bytes
  customId : Option Bytes
  subcommandGroup : Option Bytes
  subcommand : Option Bytes

/-- Where a dispatch is: it has its copy of the route, or it runs the middlewares, of which
some have let the event pass, or it has ended. -/
inductive Phase
  | found
  | running (app passed todo : List Guard)
  | ended

/-- A dispatch, with its copy of the route. -/
structure Dispatch where
  route : Route
  phase : Phase

/-- A handler was invoked: the copy of its route, the middlewares of the application, and
those that had returned OK for the event. -/
structure Invocation where
  route : Route
  app : List Guard
  passed : List Guard

/-- The routing part of `dcc_app_t`, with the registrations and dispatches that go on. -/
structure Routing where
  routes : List Route
  nextRouteId : Nat
  middlewares : List Guard
  pending : List Registration
  dispatches : List Dispatch
  log : List Invocation

/-- A new application. -/
def Routing.new : Routing := ⟨[], 0, [], [], [], []⟩

variable (app : Routing)

/-- `dcc_app_use_internal`. -/
def use (guard : Guard) (memory : Bool) : Routing × Status :=
  if memory then ({ app with middlewares := app.middlewares ++ [guard] }, .ok) else (app, .nomem)

/-- Change the first route with an id. -/
def modifyRoute (routeId : Nat) (change : Route → Route) : List Route → List Route
  | [] => []
  | route :: rest =>
    if route.id = routeId then change route :: rest else route :: modifyRoute routeId change rest

/-- `dcc_app_route_use_internal`. -/
def routeUse (routeId : Nat) (guard : Guard) (memory : Bool) : Routing × Status :=
  if app.routes.all fun route => route.id != routeId then (app, .invalidArg)
  else if memory then
    ({ app with
        routes := modifyRoute routeId
          (fun route => { route with middlewares := route.middlewares ++ [guard] }) app.routes },
      .ok)
  else (app, .nomem)

/-- `dcc_app_add_route_with_cleanup` and `dcc_app_add_canonical_route_with_cleanup`: the
route is published without a middleware. -/
def addRoute (target : RouteTarget) (handler : Nat) (listener : Bool) (policy : PolicyArg)
    (memory : Bool) : Routing × Except Status Nat :=
  if memory then
    ({ app with
        routes := app.routes ++ [
          { id := app.nextRouteId + 1
            type := target.type
            key := target.key
            isPrefix := target.isPrefix
            handler := handler
            listener := listener
            middlewares := []
            policy := policy.guards
            settled := false }]
        nextRouteId := app.nextRouteId + 1 }, .ok (app.nextRouteId + 1))
  else (app, .error .nomem)

/-- `dcc_app_remove_route_internal`. -/
def removeRoute (routeId : Nat) : Routing :=
  { app with routes := app.routes.eraseP fun route => route.id = routeId }

/-- `dcc_app_listener_detach_source` for the route of a listener. -/
def detachRoute (routeId : Nat) : Routing :=
  if app.routes.any fun route => route.id == routeId && route.listener then removeRoute app routeId
  else app

/-- One step of `dcc_app_route_apply_policy_internal`. -/
def applyStep (routeId : Nat) (step : PolicyStep) (memory : Bool) : Routing × Status :=
  match step with
  | .use guard => routeUse app routeId guard memory
  | .reject status => (app, status)

/-- The registration of a route is through. -/
def settle (routeId : Nat) : Routing :=
  { app with
    routes := modifyRoute routeId (fun route => { route with settled := true }) app.routes }

/-- All steps of `dcc_app_route_apply_policy_internal`, until one fails; `memory` says which
allocations succeed. -/
def applySteps (routeId : Nat) : List PolicyStep → List Bool → Routing → Routing × Status
  | [], _, app => (app, .ok)
  | step :: steps, memory, app =>
    match applyStep app routeId step (memory.headD true) with
    | (app, .ok) => applySteps routeId steps memory.tail app
    | (app, status) => (app, status)

/-! ## Registration -/

/-- `dcc_app_listener_register_route`, which runs under the lock of `dcc_app_listen`. -/
def listenerRegisterRoute (target : RouteTarget) (handler : Nat) (policy : PolicyArg)
    (memory : List Bool) : Routing × Status :=
  match addRoute app target handler true policy (memory.headD true) with
  | (app', .error status) => (app', status)
  | (app', .ok routeId) =>
    match applySteps routeId policy.steps memory.tail app' with
    | (app'', .ok) => (settle app'' routeId, .ok)
    | (app'', status) =>
      let removed := removeRoute app'' routeId
      (if removed.nextRouteId = routeId then { removed with nextRouteId := app.nextRouteId }
        else removed, status)

/-- `dcc_app_listen` for a route; `prepared` is how the validation and the preparation of the
lists and of the command end. -/
def listen (prepared : Status) (target : RouteTarget) (handler : Nat) (policy : PolicyArg)
    (memory : List Bool) : Routing × Status :=
  if prepared ≠ .ok then (app, prepared)
  else listenerRegisterRoute app target handler policy memory

/-- The registration goes on with the rest of its policy; when nothing is left, it is
through. -/
def proceed (registration : Registration) : Routing :=
  match registration.todo with
  | [] => settle app registration.routeId
  | _ => { app with pending := app.pending ++ [registration] }

/-- The extension registration functions up to the published route. -/
def extend (route : ExtensionRoute) (handler : Option Nat) (policy : PolicyArg) (memory : Bool) :
    Routing × Status :=
  match handler with
  | none => (app, .invalidArg)
  | some handler =>
    match route.target with
    | .error status => (app, status)
    | .ok target =>
      match addRoute app target handler false policy memory with
      | (app', .error status) => (app', status)
      | (app', .ok routeId) => (proceed app' ⟨routeId, policy.steps⟩, .ok)

/-- The next step of a registration that goes on; when it fails, the function returns with
the status and the route stays. -/
def extendStep (index : Nat) (memory : Bool) : Routing × Status :=
  match app.pending[index]? with
  | none => (app, .ok)
  | some registration =>
    let rest := { app with pending := app.pending.eraseIdx index }
    match registration.todo with
    | [] => (rest, .ok)
    | step :: todo =>
      match applyStep rest registration.routeId step memory with
      | (app', .ok) => (proceed app' ⟨registration.routeId, todo⟩, .ok)
      | (app', status) => (app', status)

/-! ## Dispatch -/

/-- `dcc_app_event_uses_interaction_name`. -/
def usesInteractionName : EventType → Bool
  | .slashCommand | .autocomplete | .userContextMenu | .messageContextMenu => true
  | _ => false

/-- `dcc_ctx_subcommand_path`, with its buffer of 128 bytes. -/
def subcommandPath (interaction : Interaction) : Option Bytes :=
  match interaction.subcommand with
  | none | some [] => none
  | some subcommand =>
    let path := match interaction.subcommandGroup with
      | none | some [] => subcommand
      | some group => group ++ asciiText "/" ++ subcommand
    if path.length < 128 then some path else none

/-- The route of an interaction: the subcommand goes before the command. -/
def routeOf (routes : List Route) (interaction : Interaction) : Option Route :=
  let bySubcommand :=
    if interaction.type = .slashCommand ∨ interaction.type = .autocomplete then
      match subcommandPath interaction with
      | none => none
      | some path =>
        match subcommandKey interaction.name (some path) with
        | .ok key => findRoute routes interaction.type key
        | .error _ => none
    else none
  let key := if usesInteractionName interaction.type then interaction.name else interaction.customId
  bySubcommand.or (key.bind (findRoute routes interaction.type))

/-- `dcc_app_dispatch_event` up to its copy of the route; `acquired` is what
`dcc_app_listener_acquire` says to the route of a listener. -/
def dispatchEvent (interaction : Interaction) (acquired memory : Bool) : Routing :=
  match routeOf app.routes interaction with
  | none => app
  | some route =>
    if route.listener ∧ acquired = false then app
    else if memory = false then app
    else { app with dispatches := app.dispatches ++ [⟨route, .found⟩] }

/-- `dcc_app_dispatch_handler` and `dcc_app_dispatch_canonical_handler` up to the first
middleware: the middlewares of the application are copied. -/
def dispatchStart (index : Nat) (memory : Bool) (flow : Status) : Routing :=
  match app.dispatches[index]? with
  | some ⟨route, .found⟩ =>
    let phase := if memory = false ∨ flow ≠ .ok then .ended
      else .running app.middlewares [] (app.middlewares ++ route.middlewares)
    { app with dispatches := app.dispatches.set index ⟨route, phase⟩ }
  | _ => app

/-- `dcc_app_run_middlewares`, one call, and the call of the handler after the last one. -/
def dispatchNext (index : Nat) (status : Status) (cancelled : Bool) : Routing :=
  match app.dispatches[index]? with
  | some ⟨route, .running common passed []⟩ =>
    { app with
      dispatches := app.dispatches.set index ⟨route, .ended⟩
      log := app.log ++ [⟨route, common, passed⟩] }
  | some ⟨route, .running common passed (guard :: todo)⟩ =>
    let phase := if status ≠ .ok ∨ cancelled then .ended
      else .running common (passed ++ [guard]) todo
    { app with dispatches := app.dispatches.set index ⟨route, phase⟩ }
  | _ => app

/-- One step of the application. -/
inductive Move
  | use (guard : Guard) (memory : Bool)
  | routeUse (routeId : Nat) (guard : Guard) (memory : Bool)
  | listen (prepared : Status) (target : RouteTarget) (handler : Nat) (policy : PolicyArg)
      (memory : List Bool)
  | unlisten (routeId : Nat)
  | extend (route : ExtensionRoute) (handler : Option Nat) (policy : PolicyArg) (memory : Bool)
  | extendStep (index : Nat) (memory : Bool)
  | dispatch (interaction : Interaction) (acquired memory : Bool)
  | dispatchStart (index : Nat) (memory : Bool) (flow : Status)
  | dispatchNext (index : Nat) (status : Status) (cancelled : Bool)

/-- One step: of a registration, of a dispatch, or of the application. -/
def step (app : Routing) : Move → Routing
  | .use guard memory => (use app guard memory).1
  | .routeUse routeId guard memory => (routeUse app routeId guard memory).1
  | .listen prepared target handler policy memory =>
    (listen app prepared target handler policy memory).1
  | .unlisten routeId => detachRoute app routeId
  | .extend route handler policy memory => (extend app route handler policy memory).1
  | .extendStep index memory => (extendStep app index memory).1
  | .dispatch interaction acquired memory => dispatchEvent app interaction acquired memory
  | .dispatchStart index memory flow => dispatchStart app index memory flow
  | .dispatchNext index status cancelled => dispatchNext app index status cancelled

end Dcc.App
