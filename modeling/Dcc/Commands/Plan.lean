import Dcc.Basic

/-!
# The command registry and its synchronization plan

`dcc_command_registry_build_plan` compares the commands of the registry with a snapshot
of the remote commands: every local command becomes a create, an update or a no-op, and
every remote command that no local command names becomes a deletion, or a no-op when
deletion is off.

Commands are matched by type and name.  What the registry needs of a builder besides
these two, its serialization, is the parameter `Serializer`; whether the allocator has
memory is an input.

* `Registry.add_entries` — only a command with a new key enters the registry;
* `Plan.push_ok` — a push appends its diff and counts it, and no counter wraps;
* `buildPlan_ok` — the diffs of a plan, as one list;
* `buildPlan_succeeds` — with memory, there is a plan.
-/

namespace Dcc.Commands

/-! ## The registry -/

/-- `DCC_APPLICATION_COMMAND_CHAT_INPUT`. -/
def chatInput : UInt32 := 1

/-- `DCC_APPLICATION_COMMAND_PRIMARY_ENTRY_POINT`. -/
def primaryEntryPoint : UInt32 := 4

/-- A `dcc_application_command_builder_t`: its name, its type when that bit is present,
and the members that only the serializer reads. -/
structure Builder (Members : Type) where
  name : Option Bytes
  type : Option UInt32
  members : Members

/-- What the registry calls on a builder: the checks of
`dcc_application_command_builder_validate_create` on the other members, and
`dcc_application_command_builder_build_json`. -/
structure Serializer (Members : Type) where
  membersValid : Builder Members → Bool
  buildJson : Builder Members → Except Status Bytes

variable {Members : Type}

/-- `dcc_command_registry_builder_type`. -/
def builderType (command : Builder Members) : UInt32 :=
  command.type.getD chatInput

/-- `dcc_application_command_builder_validate_create`. -/
def validateCreate (serializer : Serializer Members) (command : Builder Members) : Status :=
  match command.name with
  | none => .invalidArg
  | some name =>
    if name = [] then .invalidArg
    else if builderType command < chatInput ∨ primaryEntryPoint < builderType command then
      .invalidArg
    else if serializer.membersValid command then .ok
    else .invalidArg

/-- The key of a command: its type and its name. -/
abbrev Key := UInt32 × Bytes

/-- The key of a builder. -/
def Builder.key (command : Builder Members) : Key := (builderType command, command.name.getD [])

/-- The comparison inside `dcc_command_registry_has_duplicate`: both have a name, the
names are equal and so are the types. -/
def sameCommand (existing command : Builder Members) : Bool :=
  existing.name.isSome && command.name.isSome && existing.name == command.name &&
    builderType existing == builderType command

/-- `dcc_command_registry_has_duplicate`. -/
def hasDuplicate (entries : List (Builder Members)) (command : Builder Members) : Bool :=
  entries.any fun existing => sameCommand existing command

/-- The builder has a name, and it is not the empty one. -/
def Builder.Named (command : Builder Members) : Prop :=
  ∃ name, command.name = some name ∧ name ≠ []

/-- `dcc_command_registry_t`: every entry has a name, and no two have one key. -/
structure Registry (Members : Type) where
  entries : List (Builder Members)
  named : ∀ command ∈ entries, command.Named
  unique : (entries.map Builder.key).Nodup

/-- `dcc_command_registry_init`. -/
def Registry.init : Registry Members where
  entries := []
  named := by simp
  unique := by simp

variable {serializer : Serializer Members}

variable {command : Builder Members}

theorem named_of_validateCreate (h : validateCreate serializer command = .ok) : command.Named := by
  unfold validateCreate at h
  cases hname : command.name with
  | none => simp [hname] at h
  | some name =>
    refine ⟨name, hname, ?_⟩
    intro hnil
    simp [hname, hnil] at h

theorem sameCommand_of_key_eq {existing command : Builder Members} (hexisting : existing.Named)
    (hcommand : command.Named) (hkey : existing.key = command.key) :
    sameCommand existing command = true := by
  obtain ⟨own, hown, _⟩ := hexisting
  obtain ⟨name, hname, _⟩ := hcommand
  simp only [Builder.key, hown, hname, Option.getD_some, Prod.mk.injEq] at hkey
  simp [sameCommand, hown, hname, hkey]

variable {entries : List (Builder Members)}

theorem key_notMem_of_hasDuplicate
    (hentries : ∀ existing ∈ entries, existing.Named) (hcommand : command.Named)
    (hdup : hasDuplicate entries command = false) :
    command.key ∉ entries.map Builder.key := by
  intro hmem
  obtain ⟨existing, hexisting, hkey⟩ := List.mem_map.mp hmem
  have hno := (List.any_eq_false.mp hdup) existing hexisting
  exact hno (sameCommand_of_key_eq (hentries existing hexisting) hcommand hkey)

/-- `dcc_command_registry_add_builder`; `memory` says whether the copy and the longer
array could be allocated. -/
def Registry.add (registry : Registry Members) (serializer : Serializer Members) (memory : Bool)
    (command : Builder Members) : Registry Members × Status :=
  if hvalid : validateCreate serializer command = .ok then
    if hdup : hasDuplicate registry.entries command = false then
      if memory then
        ({ entries := registry.entries ++ [command]
           named := by
             intro other hother
             rcases List.mem_append.mp hother with hold | hnew
             · exact registry.named other hold
             · rw [List.mem_singleton.mp hnew]
               exact named_of_validateCreate hvalid
           unique := by
             have hnew := key_notMem_of_hasDuplicate registry.named
               (named_of_validateCreate hvalid) hdup
             rw [List.map_append, List.nodup_append]
             refine ⟨registry.unique, by simp, ?_⟩
             intro key hkey other hother hsame
             rw [List.map_singleton, List.mem_singleton] at hother
             exact hnew (hother ▸ hsame ▸ hkey) }, .ok)
      else (registry, .nomem)
    else (registry, .state)
  else (registry, .invalidArg)

/-- A command enters the registry at its end, or the registry stays as it was. -/
theorem Registry.add_entries (registry : Registry Members) (serializer : Serializer Members)
    (memory : Bool) (command : Builder Members) :
    ((registry.add serializer memory command).2 = .ok ∧
      (registry.add serializer memory command).1.entries = registry.entries ++ [command]) ∨
    ((registry.add serializer memory command).2 ≠ .ok ∧
      (registry.add serializer memory command).1 = registry) := by
  unfold Registry.add
  by_cases hvalid : validateCreate serializer command = .ok
  · by_cases hdup : hasDuplicate registry.entries command = false
    · cases memory <;> simp [hvalid, hdup]
    · simp [hvalid, hdup]
  · simp [hvalid]

/-! ## The remote snapshot -/

/-- `dcc_command_registry_remote_entry_t`. -/
structure RemoteEntry where
  size : Nat
  id : UInt64
  name : Option Bytes
  type : UInt32
  canonicalJson : Option Bytes
  deriving DecidableEq

/-- `dcc_command_registry_remote_name`; the field ends at byte 24. -/
def remoteName (remote : RemoteEntry) : Option Bytes :=
  if remote.size ≥ 24 then remote.name else none

/-- `dcc_command_registry_remote_type`; the field ends at byte 28. -/
def remoteType (remote : RemoteEntry) : UInt32 :=
  if remote.size ≥ 28 then remote.type else chatInput

/-- `dcc_command_registry_remote_id`; the field ends at byte 16. -/
def remoteId (remote : RemoteEntry) : UInt64 :=
  if remote.size ≥ 16 then remote.id else 0

/-- `dcc_command_registry_remote_json`; the field ends at byte 40. -/
def remoteJson (remote : RemoteEntry) : Option Bytes :=
  if remote.size ≥ 40 then remote.canonicalJson else none

/-- `dcc_command_registry_remote_matches`. -/
def remoteMatches (command : Builder Members) (remote : RemoteEntry) : Bool :=
  match remoteName remote, command.name with
  | some name, some own => name == own && remoteType remote == builderType command
  | _, _ => false

/-- `dcc_command_registry_find_remote`; `none` is `SIZE_MAX`. -/
def findRemote (remote : List RemoteEntry) (command : Builder Members) : Option Nat :=
  remote.findIdx? (remoteMatches command)

/-- `dcc_command_registry_remote_has_local`. -/
def remoteHasLocal (entries : List (Builder Members)) (remote : RemoteEntry) : Bool :=
  match remoteName remote with
  | none => false
  | some remoteName =>
    entries.any fun command =>
      command.name == some remoteName && builderType command == remoteType remote

theorem remoteHasLocal_eq (entries : List (Builder Members)) (remote : RemoteEntry) :
    remoteHasLocal entries remote = entries.any fun command => remoteMatches command remote := by
  cases hremote : remoteName remote with
  | none => simp [remoteHasLocal, remoteMatches, hremote]
  | some name =>
    have hsame : ∀ command : Builder Members,
        (command.name == some name && builderType command == remoteType remote) =
          remoteMatches command remote := by
      intro command
      cases hown : command.name with
      | none => simp [remoteMatches, hremote, hown]
      | some own =>
        have hcomm : (own == name) = (name == own) := Bool.beq_comm
        have htype : (builderType command == remoteType remote) =
            (remoteType remote == builderType command) := Bool.beq_comm
        simp [remoteMatches, hremote, hown, hcomm, htype]
    simp only [remoteHasLocal, hremote, hsame]

/-- The key of a remote command. -/
def RemoteEntry.key (remote : RemoteEntry) : Key := (remoteType remote, (remoteName remote).getD [])

theorem remoteMatches_iff (hnamed : command.Named)
    (remote : RemoteEntry) : remoteMatches command remote = true ↔ remote.key = command.key := by
  obtain ⟨own, hown, hne⟩ := hnamed
  cases hremote : remoteName remote with
  | none => simp [remoteMatches, RemoteEntry.key, Builder.key, hremote, hown, Ne.symm hne]
  | some name =>
    simp only [remoteMatches, RemoteEntry.key, Builder.key, hremote, hown, Bool.and_eq_true,
      beq_iff_eq, Option.getD_some, Prod.mk.injEq]
    exact and_comm

/-! ## The plan -/

/-- `dcc_command_registry_diff_action_t`. -/
inductive Action
  | noop
  | create
  | update
  | deleteStale
  deriving DecidableEq, Repr

/-- `dcc_command_registry_diff_t`; an index that is `SIZE_MAX` in the source is `none`. -/
structure Diff where
  action : Action
  name : Bytes
  type : UInt32
  remoteId : UInt64
  localIndex : Option Nat
  remoteIndex : Option Nat
  localJson : Option Bytes
  remoteJson : Option Bytes
  deriving DecidableEq

/-- `sizeof(dcc_command_registry_diff_t)`. -/
def diffSize : Nat := 64

/-- `dcc_command_registry_plan_t` with its state. -/
structure Plan where
  diffs : List Diff
  diffCap : Nat
  createCount : Nat
  updateCount : Nat
  deleteStaleCount : Nat
  noopCount : Nat
  guildId : UInt64
  deleteStale : Bool
  dryRun : Bool

/-- `dcc_command_registry_options_t`; a member is there when its bit is present. -/
structure Options where
  size : Nat
  version : UInt32
  guildId : Option UInt64
  deleteStale : Option UInt8
  dryRun : Option UInt8

/-- `DCC_COMMAND_REGISTRY_OPTIONS_VERSION`. -/
def optionsVersion : UInt32 := 1

/-- A member of the options: read when the version is right, its bit is present and the
structure is long enough to hold it. -/
def Options.read {α : Type} (options : Option Options) (field : Options → Option α)
    (fieldEnd : Nat) : Option α :=
  options.bind fun options =>
    if options.version = optionsVersion ∧ options.size ≥ fieldEnd then field options else none

/-- `dcc_command_registry_options_guild_id`. -/
def optionsGuildId (options : Option Options) : UInt64 :=
  (Options.read options Options.guildId 32).getD 0

/-- `dcc_command_registry_options_delete_stale`. -/
def optionsDeleteStale (options : Option Options) : Bool :=
  (Options.read options Options.deleteStale 33).getD 0 != 0

/-- `dcc_command_registry_options_dry_run`. -/
def optionsDryRun (options : Option Options) : Bool :=
  (Options.read options Options.dryRun 34).getD 0 != 0

/-- The plan before the first diff. -/
def Plan.init (options : Option Options) : Plan where
  diffs := []
  diffCap := 0
  createCount := 0
  updateCount := 0
  deleteStaleCount := 0
  noopCount := 0
  guildId := optionsGuildId options
  deleteStale := optionsDeleteStale options
  dryRun := optionsDryRun options

/-- `dcc_command_registry_plan_count`. -/
def Plan.count (plan : Plan) : Action → Plan
  | .create => { plan with createCount := wordAdd plan.createCount 1 }
  | .update => { plan with updateCount := wordAdd plan.updateCount 1 }
  | .deleteStale => { plan with deleteStaleCount := wordAdd plan.deleteStaleCount 1 }
  | .noop => { plan with noopCount := wordAdd plan.noopCount 1 }

/-- The length of the array after `cap`. -/
def nextCap (cap : Nat) : Nat := if cap ≠ 0 then cap * 2 else 8

/-- How `dcc_command_registry_plan_push` makes room for one more diff. -/
def Plan.grow (plan : Plan) (memory : Bool) : Except Status Plan :=
  if plan.diffs.length = plan.diffCap then
    if plan.diffCap > wordMax / 2 then .error .nomem
    else if nextCap plan.diffCap > wordMax / diffSize then .error .nomem
    else if memory then .ok { plan with diffCap := nextCap plan.diffCap }
    else .error .nomem
  else .ok plan

/-- What the allocator says to one push: to the longer array, and to the copies of the
texts. -/
structure PushMemory where
  array : Bool
  texts : Bool

/-- `dcc_command_registry_plan_push`. -/
def Plan.push (plan : Plan) (memory : PushMemory) (diff : Diff) : Except Status Plan :=
  match plan.grow memory.array with
  | .error status => .error status
  | .ok plan =>
    if memory.texts then
      .ok ({ plan with diffs := plan.diffs ++ [diff] }.count diff.action)
    else .error .nomem

/-- The diff of the local command at `index`. -/
def localDiff (remote : List RemoteEntry) (index : Nat) (command : Builder Members)
    (json : Bytes) : Diff :=
  match (findRemote remote command).bind fun found => remote[found]?.map (found, ·) with
  | none =>
    { action := .create
      name := command.name.getD []
      type := builderType command
      remoteId := 0
      localIndex := some index
      remoteIndex := none
      localJson := some json
      remoteJson := none }
  | some (found, entry) =>
    { action := if remoteJson entry = some json then .noop else .update
      name := command.name.getD []
      type := builderType command
      remoteId := remoteId entry
      localIndex := some index
      remoteIndex := some found
      localJson := some json
      remoteJson := remoteJson entry }

/-- The diff of the remote command at `index` that no local command names. -/
def staleDiff (deleteStale : Bool) (index : Nat) (entry : RemoteEntry) : Diff where
  action := if deleteStale then .deleteStale else .noop
  name := (remoteName entry).getD []
  type := remoteType entry
  remoteId := remoteId entry
  localIndex := none
  remoteIndex := some index
  localJson := none
  remoteJson := remoteJson entry

/-- The first loop of `dcc_command_registry_build_plan`, from the local command at
`index` on. -/
def planLocals (serializer : Serializer Members) (memory : Nat → PushMemory)
    (remote : List RemoteEntry) : Nat → List (Builder Members) → Plan → Except Status Plan
  | _, [], plan => .ok plan
  | index, command :: rest, plan =>
    match serializer.buildJson command with
    | .error status => .error status
    | .ok json =>
      match plan.push (memory plan.diffs.length) (localDiff remote index command json) with
      | .error status => .error status
      | .ok plan => planLocals serializer memory remote (index + 1) rest plan

/-- The second loop, from the remote command at `index` on. -/
def planStale (memory : Nat → PushMemory) (entries : List (Builder Members)) :
    Nat → List RemoteEntry → Plan → Except Status Plan
  | _, [], plan => .ok plan
  | index, entry :: rest, plan =>
    if remoteHasLocal entries entry then planStale memory entries (index + 1) rest plan
    else
      match plan.push (memory plan.diffs.length) (staleDiff plan.deleteStale index entry) with
      | .error status => .error status
      | .ok plan => planStale memory entries (index + 1) rest plan

/-- `dcc_command_registry_build_plan`. -/
def buildPlan (registry : Registry Members) (serializer : Serializer Members)
    (memory : Nat → PushMemory) (options : Option Options) (remote : List RemoteEntry) :
    Except Status Plan :=
  match planLocals serializer memory remote 0 registry.entries (Plan.init options) with
  | .error status => .error status
  | .ok plan => planStale memory registry.entries 0 remote plan

/-! ## What the loops push -/

/-- The counter of an action. -/
def Plan.counter (plan : Plan) : Action → Nat
  | .create => plan.createCount
  | .update => plan.updateCount
  | .deleteStale => plan.deleteStaleCount
  | .noop => plan.noopCount

/-- The counters are those of the diffs, and the diffs fit into the array. -/
structure Plan.Counted (plan : Plan) : Prop where
  counters : ∀ action, plan.counter action = (plan.diffs.map Diff.action).count action
  length_le : plan.diffs.length ≤ plan.diffCap
  cap_le : plan.diffCap ≤ wordMax / diffSize

theorem Plan.init_counted (options : Option Options) : (Plan.init options).Counted where
  counters action := by cases action <;> rfl
  length_le := Nat.le_refl 0
  cap_le := Nat.zero_le _

variable {plan plan' : Plan}

theorem Plan.grow_ok {memory : Bool} (h : plan.grow memory = .ok plan')
    (hlen : plan.diffs.length ≤ plan.diffCap) (hcap : plan.diffCap ≤ wordMax / diffSize) :
    ∃ cap, plan' = { plan with diffCap := cap } ∧ plan.diffs.length < cap ∧
      cap ≤ wordMax / diffSize := by
  unfold Plan.grow at h
  split at h
  · rename_i hfull
    split at h
    · cases h
    · split at h
      · cases h
      · rename_i hnext
        split at h
        · cases h
          refine ⟨_, rfl, ?_, Nat.le_of_not_lt hnext⟩
          rw [hfull, nextCap]
          split <;> omega
        · cases h
  · rename_i hroom
    cases h
    exact ⟨plan.diffCap, rfl, by omega, hcap⟩

@[simp] theorem Plan.count_diffs (plan : Plan) (action : Action) :
    (plan.count action).diffs = plan.diffs := by cases action <;> rfl

@[simp] theorem Plan.count_diffCap (plan : Plan) (action : Action) :
    (plan.count action).diffCap = plan.diffCap := by cases action <;> rfl

@[simp] theorem Plan.count_deleteStale (plan : Plan) (action : Action) :
    (plan.count action).deleteStale = plan.deleteStale := by cases action <;> rfl

theorem Plan.count_counter (plan : Plan) (action other : Action) :
    (plan.count action).counter other =
      if other = action then wordAdd (plan.counter other) 1 else plan.counter other := by
  cases action <;> cases other <;> rfl

theorem Plan.counter_array (plan : Plan) (diffs : List Diff) (cap : Nat) (action : Action) :
    ({ plan with diffs := diffs, diffCap := cap } : Plan).counter action = plan.counter action := by
  cases action <;> rfl

/-- A push that succeeds appends its diff and counts it. -/
theorem Plan.push_ok {memory : PushMemory} {diff : Diff}
    (h : plan.push memory diff = .ok plan') (hcounted : plan.Counted) :
    plan'.diffs = plan.diffs ++ [diff] ∧ plan'.deleteStale = plan.deleteStale ∧ plan'.Counted := by
  unfold Plan.push at h
  split at h
  · cases h
  · rename_i grown hgrown
    obtain ⟨cap, rfl, hlt, hcap⟩ := Plan.grow_ok hgrown hcounted.length_le hcounted.cap_le
    split at h
    · cases h
      refine ⟨by simp, by simp, ?_, by simp; omega, by simpa using hcap⟩
      intro action
      have hcount : plan.counter action = (plan.diffs.map Diff.action).count action :=
        hcounted.counters action
      have hle : (plan.diffs.map Diff.action).count action ≤ plan.diffs.length := by
        simpa using List.count_le_length (a := action) (l := plan.diffs.map Diff.action)
      -- the array is far too short for a counter to wrap
      have hword : wordMax / diffSize + 1 < wordSize := by decide
      rw [Plan.count_counter, Plan.count_diffs,
        Plan.counter_array plan (plan.diffs ++ [diff]) cap, List.map_append, List.count_append,
        ← hcount]
      by_cases hsame : action = diff.action
      · rw [if_pos hsame, wordAdd_of_lt (by omega), hsame]
        simp
      · rw [if_neg hsame]
        simp [Ne.symm hsame]
    · cases h

/-- The text of a command whose serialization succeeds. -/
def Serializer.text (serializer : Serializer Members) (command : Builder Members) : Bytes :=
  match serializer.buildJson command with
  | .ok json => json
  | .error _ => []

/-- The diffs of the local commands from `index` on. -/
def localDiffs (serializer : Serializer Members) (remote : List RemoteEntry) (index : Nat)
    (entries : List (Builder Members)) : List Diff :=
  (entries.zipIdx index).map fun entry =>
    localDiff remote entry.2 entry.1 (serializer.text entry.1)

/-- The diffs of the remote commands from `index` on. -/
def staleDiffs (deleteStale : Bool) (entries : List (Builder Members)) (index : Nat)
    (remote : List RemoteEntry) : List Diff :=
  ((remote.zipIdx index).filter fun entry => !remoteHasLocal entries entry.1).map fun entry =>
    staleDiff deleteStale entry.2 entry.1

variable {remote : List RemoteEntry}

variable {memory : Nat → PushMemory}

theorem planLocals_ok {index : Nat}
    (h : planLocals serializer memory remote index entries plan = .ok plan')
    (hcounted : plan.Counted) :
    plan'.diffs = plan.diffs ++ localDiffs serializer remote index entries ∧
      (∀ command ∈ entries, serializer.buildJson command = .ok (serializer.text command)) ∧
      plan'.deleteStale = plan.deleteStale ∧ plan'.Counted := by
  induction entries generalizing index plan with
  | nil =>
    cases h
    exact ⟨by simp [localDiffs], by simp, rfl, hcounted⟩
  | cons command rest ih =>
    rw [planLocals] at h
    cases hjson : serializer.buildJson command with
    | error status => simp [hjson] at h
    | ok json =>
      have htext : serializer.text command = json := by simp [Serializer.text, hjson]
      simp only [hjson] at h
      split at h
      · cases h
      · rename_i pushed hpush
        obtain ⟨hdiffs, hstale, hpushed⟩ := Plan.push_ok hpush hcounted
        obtain ⟨hrest, hbuilt, hstale', hfinal⟩ := ih h hpushed
        refine ⟨?_, ?_, hstale'.trans hstale, hfinal⟩
        · rw [hrest, hdiffs]
          simp [localDiffs, htext]
        · intro other hother
          rcases List.mem_cons.mp hother with rfl | hmem
          · rw [hjson, htext]
          · exact hbuilt other hmem

theorem planStale_ok {index : Nat}
    (h : planStale memory entries index remote plan = .ok plan') (hcounted : plan.Counted) :
    plan'.diffs = plan.diffs ++ staleDiffs plan.deleteStale entries index remote ∧
      plan'.deleteStale = plan.deleteStale ∧ plan'.Counted := by
  induction remote generalizing index plan with
  | nil =>
    cases h
    exact ⟨by simp [staleDiffs], rfl, hcounted⟩
  | cons entry rest ih =>
    rw [planStale] at h
    split at h
    · rename_i hlocal
      obtain ⟨hrest, hstale, hfinal⟩ := ih h hcounted
      refine ⟨?_, hstale, hfinal⟩
      rw [hrest]
      simp [staleDiffs, hlocal]
    · rename_i hlocal
      split at h
      · cases h
      · rename_i pushed hpush
        obtain ⟨hdiffs, hsame, hpushed⟩ := Plan.push_ok hpush hcounted
        obtain ⟨hrest, hstale, hfinal⟩ := ih h hpushed
        refine ⟨?_, hstale.trans hsame, hfinal⟩
        rw [hrest, hdiffs, hsame]
        simp [staleDiffs, hlocal]

/-- **The diffs of a plan**: those of the local commands, then those of the remote commands
that no local command names; every text was serialized and every diff is counted. -/
theorem buildPlan_ok {registry : Registry Members} {options : Option Options}
    {plan : Plan} (h : buildPlan registry serializer memory options remote = .ok plan) :
    plan.diffs = localDiffs serializer remote 0 registry.entries ++
        staleDiffs (optionsDeleteStale options) registry.entries 0 remote ∧
      (∀ command ∈ registry.entries, serializer.buildJson command = .ok (serializer.text command)) ∧
      plan.deleteStale = optionsDeleteStale options ∧ plan.Counted := by
  unfold buildPlan at h
  split at h
  · cases h
  · rename_i middle hlocals
    obtain ⟨hdiffs, hbuilt, hstale, hmiddle⟩ := planLocals_ok hlocals (Plan.init_counted options)
    obtain ⟨hrest, hstale', hcounted⟩ := planStale_ok h hmiddle
    refine ⟨?_, hbuilt, hstale'.trans hstale, hcounted⟩
    rw [hrest, hdiffs, hstale]
    simp [Plan.init]

/-! ## A plan is built when there is memory -/

theorem Plan.push_succeeds (plan : Plan) (diff : Diff)
    (hlen : plan.diffs.length ≤ wordMax / diffSize / 2) :
    ∃ plan', plan.push ⟨true, true⟩ diff = .ok plan' := by
  have hsize : wordMax / diffSize / 2 ≤ wordMax / 2 := by decide
  have hmax : 8 ≤ wordMax / diffSize := by decide
  by_cases hfull : plan.diffs.length = plan.diffCap
  · have hroom : ¬ plan.diffCap > wordMax / 2 := by omega
    have hnext : ¬ nextCap plan.diffCap > wordMax / diffSize := by
      unfold nextCap
      split <;> omega
    simp [Plan.push, Plan.grow, hfull, hroom, hnext]
  · simp [Plan.push, Plan.grow, hfull]

theorem planLocals_succeeds (remote : List RemoteEntry)
    (index : Nat) {plan : Plan} (hcounted : plan.Counted)
    (hbuild : ∀ command ∈ entries, ∃ json, serializer.buildJson command = .ok json)
    (hlen : plan.diffs.length + entries.length ≤ wordMax / diffSize / 2) :
    ∃ plan', planLocals serializer (fun _ => ⟨true, true⟩) remote index entries plan =
      .ok plan' := by
  induction entries generalizing index plan with
  | nil => exact ⟨plan, rfl⟩
  | cons command rest ih =>
    obtain ⟨json, hjson⟩ := hbuild command List.mem_cons_self
    rw [List.length_cons] at hlen
    obtain ⟨pushed, hpush⟩ := plan.push_succeeds (localDiff remote index command json)
      (by omega)
    obtain ⟨hdiffs, _, hpushed⟩ := Plan.push_ok hpush hcounted
    have hrest := ih (index + 1) hpushed
      (fun other hother => hbuild other (List.mem_cons_of_mem command hother))
      (by rw [hdiffs]; simp; omega)
    simpa only [planLocals, hjson, hpush] using hrest

theorem planStale_succeeds (entries : List (Builder Members))
    (index : Nat) {plan : Plan} (hcounted : plan.Counted)
    (hlen : plan.diffs.length + remote.length ≤ wordMax / diffSize / 2) :
    ∃ plan', planStale (fun _ => ⟨true, true⟩) entries index remote plan = .ok plan' := by
  induction remote generalizing index plan with
  | nil => exact ⟨plan, rfl⟩
  | cons entry rest ih =>
    rw [List.length_cons] at hlen
    by_cases hlocal : remoteHasLocal entries entry = true
    · have hrest := ih (index + 1) hcounted (by omega)
      simpa only [planStale, hlocal, if_true] using hrest
    · obtain ⟨pushed, hpush⟩ := plan.push_succeeds
        (staleDiff plan.deleteStale index entry) (by omega)
      obtain ⟨hdiffs, _, hpushed⟩ := Plan.push_ok hpush hcounted
      have hrest := ih (index + 1) hpushed (by rw [hdiffs]; simp; omega)
      simpa only [planStale, hlocal, hpush, Bool.false_eq_true, if_false] using hrest

/-- **A plan is built** for every registry and every snapshot, when the commands serialize
and there is memory. -/
theorem buildPlan_succeeds (registry : Registry Members) (serializer : Serializer Members)
    (options : Option Options) (remote : List RemoteEntry)
    (hbuild : ∀ command ∈ registry.entries, ∃ json, serializer.buildJson command = .ok json)
    (hlen : registry.entries.length + remote.length ≤ wordMax / diffSize / 2) :
    ∃ plan, buildPlan registry serializer (fun _ => ⟨true, true⟩) options remote = .ok plan := by
  have hinit := Plan.init_counted options
  obtain ⟨middle, hmiddle⟩ := planLocals_succeeds remote 0 hinit hbuild
    (by simp only [Plan.init, List.length_nil]; omega)
  obtain ⟨hdiffs, _, _, hcounted⟩ := planLocals_ok hmiddle hinit
  obtain ⟨plan, hplan⟩ := planStale_succeeds registry.entries 0 hcounted
    (by rw [hdiffs]; simp [localDiffs, Plan.init]; omega)
  refine ⟨plan, ?_⟩
  simpa only [buildPlan, hmiddle] using hplan

end Dcc.Commands
