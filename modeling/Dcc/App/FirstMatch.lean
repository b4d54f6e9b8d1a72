import Mathlib.Data.List.Induction
import Dcc.App.FilteredWaits
import Dcc.Events.Policies

/-!
# What a filtered wait returns

* `wanted` — the events that a call waits for;
* `watchStep_sane` — in every run a call returns only a wanted event that was dispatched, and times
  out only at its deadline;
* `watchStep_holding` — a wanted event that finds the waiter of the call on the bus, and the waiter
  still open, is the one that the call returns;
* `waits_return_first_match` — the first wanted event is returned in every run in which it does not
  come between two waiters of the call;
* `droppedBetween_times_out` — a run in which it does.
-/

namespace Dcc.App

open Dcc.Events

/-! ## What a call waits for -/

/-- The object of an event that a call returns. -/
def WaitCall.object (call : WaitCall) (event : Event) : Option Owned :=
  match call with
  | .message _ => event.message.map .message
  | _ => event.interaction.map .interaction

/-- The types of a call. -/
def WaitCall.types : WaitCall → List Int
  | .interaction type => [type]
  | .component => componentTypes
  | .message type => [type]

/-- An event that completes a waiter of a call. -/
def heard (call : WaitCall) (event : Event) : Bool :=
  typeValid event.type && decide (event.type ∈ call.types)

/-- An event that a call waits for. -/
def wanted (args : WaitArgs) (event : Event) : Bool :=
  match args.call.prepare args.filter with
  | .error _ => false
  | .ok filter => heard args.call event && ownedMatches filter (args.call.object event)

/-- A waiter that an event completed. -/
def completedBy (fresh : Waiter) (call : WaitCall) (event : Event) (memory : Bool) : Waiter :=
  complete { fresh with
    snapshot := snapshotFill event
    owned := (cloneObject (call.object event) memory).1
    ownedStatus := (cloneObject (call.object event) memory).2 }

variable {args : WaitArgs}

variable {filter : WaitFilter}

theorem wanted_iff (hfilter : args.call.prepare args.filter = .ok filter) (event : Event) :
    wanted args event = true ↔
      heard args.call event = true ∧ ownedMatches filter (args.call.object event) = true := by
  rw [wanted, hfilter]
  exact Bool.and_eq_true_iff

theorem object_of_wanted {event : Event} (h : wanted args event = true) :
    args.call.object event ≠ none := by
  intro hnone
  rw [wanted, hnone] at h
  split at h
  · cases h
  · simp [ownedMatches] at h

variable {waiter : Waiter}

theorem componentWaiter_eq (h : WaitCall.component.waiter = .ok waiter) :
    ∃ mask, (∀ type, maskHas mask type = decide (type ∈ componentTypes)) ∧
      waiter = { Waiter.zero with matchAny := true, typeMask := mask, kind := .interaction } := by
  cases hadd : addTypes Waiter.zero.typeMask componentTypes with
  | none =>
    have hset : setTypes Waiter.zero (some componentTypes) = .error .invalidArg := by
      simp only [setTypes, componentTypes] at hadd ⊢
      rw [hadd]
    rw [WaitCall.waiter, hset] at h
    cases h
  | some mask =>
    have hset : setTypes Waiter.zero (some componentTypes) =
        .ok { Waiter.zero with matchAny := true, typeMask := mask } := by
      simp only [setTypes, componentTypes] at hadd ⊢
      rw [hadd]
    rw [WaitCall.waiter, hset] at h
    cases h
    refine ⟨mask, fun type => ?_, rfl⟩
    have hmask := (addTypes_spec hadd).2 type
    rw [Waiter.zero, maskHas_zero, Bool.or_false] at hmask
    exact hmask

theorem singleWaiter_eq {type : Int} {kind : WaitKind} (h : singleWaiter type kind = .ok waiter) :
    waiter = { Waiter.zero with type := type, kind := kind } := by
  rw [singleWaiter] at h
  split at h
  · exact (Except.ok.inj h).symm
  · cases h

theorem signal_fresh {call : WaitCall} {fresh : Waiter} (hfresh : call.waiter = .ok fresh)
    (event : Event) (memory : Bool) :
    signalWaiter fresh event memory =
      some (if heard call event then completedBy fresh call event memory else fresh) := by
  cases call with
  | interaction type =>
    rw [singleWaiter_eq hfresh]
    simp only [signalWaiter, Waiter.zero, waiterMatches, heard, WaitCall.types,
      Bool.false_eq_true, if_false, List.mem_singleton]
    grind [completedBy, cloneOwned, WaitCall.object, Waiter.zero]
  | message type =>
    rw [singleWaiter_eq hfresh]
    simp only [signalWaiter, Waiter.zero, waiterMatches, heard, WaitCall.types,
      Bool.false_eq_true, if_false, List.mem_singleton]
    grind [completedBy, cloneOwned, WaitCall.object, Waiter.zero]
  | component =>
    obtain ⟨mask, hmask, rfl⟩ := componentWaiter_eq hfresh
    simp only [signalWaiter, Waiter.zero, waiterMatches, heard, WaitCall.types, hmask,
      Bool.false_eq_true, if_false, if_true]
    grind [completedBy, cloneOwned, WaitCall.object, Waiter.zero]

theorem fresh_open {call : WaitCall} {fresh : Waiter} (hfresh : call.waiter = .ok fresh) :
    fresh.completed = false := by
  cases call with
  | interaction type =>
    rw [singleWaiter_eq hfresh]
    rfl
  | message type =>
    rw [singleWaiter_eq hfresh]
    rfl
  | component =>
    obtain ⟨mask, -, rfl⟩ := componentWaiter_eq hfresh
    rfl

/-! ## A call that is watched -/

/-- A call with its history: the clock when it entered, whether its first waiter has registered,
the events that were dispatched, those of them after that and before the deadline, and whether a
channel was refused as if in time. -/
structure Watched where
  state : WaitState
  began : Nat
  registered : Bool
  dispatched : List Event
  seen : List Event
  refused : Bool

/-- The deadline of a call is not over. -/
def Watched.early (args : WaitArgs) (watched : Watched) : Bool :=
  args.timeoutMs.toNat == 0 ||
    decide (watched.state.clock < watched.began + args.timeoutMs.toNat)

/-- A waiter of the call is on the bus. -/
def onBus : WaitPhase → Bool
  | .waiting _ _ _ _ _ => true
  | _ => false

/-- One step, and its history. -/
def watchStep (args : WaitArgs) (watched : Watched) (action : WaitStep) : Watched where
  state := waitStep args watched.state action
  began := match action, watched.state.phase with
    | .enter, .entering => watched.state.clock
    | _, _ => watched.began
  registered := watched.registered || onBus (waitStep args watched.state action).phase
  dispatched := match action with
    | .dispatch event _ => watched.dispatched ++ [event]
    | _ => watched.dispatched
  seen := match action with
    | .dispatch event _ =>
      if watched.registered && watched.early args then watched.seen ++ [event]
      else watched.seen
    | _ => watched.seen
  refused := match action with
    | .register (some .timeout) => true
    | _ => watched.refused

/-- A run. -/
def watch (args : WaitArgs) (clock : Nat) (steps : List WaitStep) : Watched :=
  steps.foldl (watchStep args) ⟨⟨clock, .entering⟩, 0, false, [], [], false⟩

theorem watch_concat (args : WaitArgs) (clock : Nat) (steps : List WaitStep) (action : WaitStep) :
    watch args clock (steps ++ [action]) = watchStep args (watch args clock steps) action := by
  rw [watch, List.foldl_append]
  rfl

/-! ## What every step keeps -/

/-- The deadline of a call is over. -/
def Past (args : WaitArgs) (began clock : Nat) : Prop :=
  args.timeoutMs.toNat ≠ 0 ∧ began + args.timeoutMs.toNat ≤ clock

/-- A remaining timeout that does not end before the deadline. -/
def Late (args : WaitArgs) (began clock remaining : Nat) : Prop :=
  remaining ≠ 0 → Past args began (clock + remaining)

/-- A waiter of the call: untouched, or completed by an event that it heard. -/
def Waits (args : WaitArgs) (dispatched : List Event) (waiter : Waiter) : Prop :=
  ∃ fresh, args.call.waiter = .ok fresh ∧ (waiter = fresh ∨
    ∃ event ∈ dispatched, heard args.call event = true ∧
      ∃ memory, waiter = completedBy fresh args.call event memory)

/-- What holds of a call in each of its phases. -/
def Sane (args : WaitArgs) (began : Nat) (dispatched : List Event) (refused : Bool)
    (clock : Nat) : WaitPhase → Prop
  | .entering => True
  | .checking filter started => args.call.prepare args.filter = .ok filter ∧ started = began
  | .registering filter started remaining =>
    args.call.prepare args.filter = .ok filter ∧ started = began ∧ Late args began clock remaining
  | .waiting filter started since remaining waiter =>
    args.call.prepare args.filter = .ok filter ∧ started = began ∧
      Late args began since remaining ∧ Waits args dispatched waiter
  | .woken filter started status waiter =>
    args.call.prepare args.filter = .ok filter ∧ started = began ∧
      (status = .timeout → Past args began clock) ∧ Waits args dispatched waiter
  | .returned status owned =>
    (status = .ok → ∃ event ∈ dispatched, wanted args event = true ∧
      owned = args.call.object event) ∧
    (status = .timeout → refused = true ∨ Past args began clock)

theorem Past.mono {began clock later : Nat} (h : Past args began clock)
    (hle : clock ≤ later) : Past args began later := ⟨h.1, Nat.le_trans h.2 hle⟩

theorem Sane.mono {began clock later : Nat} {dispatched more : List Event}
    {refused other : Bool} {phase : WaitPhase} (h : Sane args began dispatched refused clock phase)
    (hle : clock ≤ later) (hsub : dispatched ⊆ more) (hrefused : refused = true → other = true) :
    Sane args began more other later phase := by
  have hwaits : ∀ waiter, Waits args dispatched waiter → Waits args more waiter := by
    intro waiter hwaiter
    obtain ⟨fresh, hfresh, hcase⟩ := hwaiter
    refine ⟨fresh, hfresh, hcase.imp_right fun hevent => ?_⟩
    obtain ⟨event, hmem, hheard⟩ := hevent
    exact ⟨event, hsub hmem, hheard⟩
  cases phase with
  | entering => trivial
  | checking filter started => exact h
  | registering filter started remaining =>
    obtain ⟨hfilter, hstarted, hlate⟩ := h
    exact ⟨hfilter, hstarted, fun hpos => (hlate hpos).mono (by omega)⟩
  | waiting filter started since remaining waiter =>
    obtain ⟨hfilter, hstarted, hlate, hwaiter⟩ := h
    exact ⟨hfilter, hstarted, hlate, hwaits waiter hwaiter⟩
  | woken filter started status waiter =>
    obtain ⟨hfilter, hstarted, hpast, hwaiter⟩ := h
    exact ⟨hfilter, hstarted, fun htimeout => (hpast htimeout).mono hle, hwaits waiter hwaiter⟩
  | returned status owned =>
    refine ⟨fun hok => ?_, fun htimeout => ?_⟩
    · obtain ⟨event, hmem, hevent⟩ := h.1 hok
      exact ⟨event, hsub hmem, hevent⟩
    · exact (h.2 htimeout).imp hrefused fun hpast => hpast.mono hle

variable {dispatched : List Event}

theorem Waits.signal (h : Waits args dispatched waiter) (event : Event) (memory : Bool) :
    ∃ after, signalWaiter waiter event memory = some after ∧
      Waits args (dispatched ++ [event]) after := by
  obtain ⟨fresh, hfresh, rfl | hcompleted⟩ := h
  · refine ⟨_, signal_fresh hfresh event memory, waiter, hfresh, ?_⟩
    cases hheard : heard args.call event with
    | true => exact .inr ⟨event, by simp, hheard, memory, rfl⟩
    | false => exact .inl rfl
  · obtain ⟨first, hmem, hheard, before, rfl⟩ := hcompleted
    refine ⟨_, by rw [signalWaiter, if_pos]; rfl, fresh, hfresh, .inr ?_⟩
    exact ⟨first, List.mem_append_left _ hmem, hheard, before, rfl⟩

theorem waitEnter_sane (args : WaitArgs) (clock : Nat) (dispatched : List Event)
    (refused : Bool) : Sane args clock dispatched refused clock (waitEnter args clock) := by
  rw [waitEnter]
  cases hfilter : args.call.prepare args.filter with
  | error status =>
    have hinvalid : status = .invalidArg := by
      unfold WaitCall.prepare waitFilterPrepare at hfilter
      grind
    subst hinvalid
    exact ⟨nofun, nofun⟩
  | ok filter => exact ⟨hfilter, rfl⟩

theorem waitCheck_sane {began clock : Nat}
    (hfilter : args.call.prepare args.filter = .ok filter) (hbegan : began ≤ clock)
    (dispatched : List Event) (refused : Bool) :
    Sane args began dispatched refused clock (waitCheck args filter began clock) := by
  rw [waitCheck, remainingTimeout]
  have hword := args.timeoutMs.toNat_lt
  split
  · next status hstatus =>
    have htimeout : status = .timeout ∧ Past args began clock := by
      rw [Past]
      grind
    obtain ⟨rfl, hpast⟩ := htimeout
    exact ⟨nofun, fun _ => .inr hpast⟩
  · next remaining hremaining =>
    have hlate : Late args began clock remaining := by
      rw [Late, Past]
      grind
    split
    · next status hprepare =>
      have hinvalid : status = .invalidArg := by
        unfold resultPrepare at hprepare
        grind
      subst hinvalid
      exact ⟨nofun, nofun⟩
    · split
      · exact ⟨hfilter, rfl, hlate⟩
      · exact ⟨nofun, nofun⟩

theorem waitRegister_sane {began clock remaining : Nat}
    (hfilter : args.call.prepare args.filter = .ok filter)
    (hlate : Late args began clock remaining) (dispatched : List Event) (refused : Bool)
    (channel : Option Status) (hchannel : channel ≠ some .ok) :
    Sane args began dispatched (if channel = some .timeout then true else refused) clock
      (waitRegister args filter began remaining clock channel) := by
  rw [waitRegister]
  cases hwaiter : args.call.waiter with
  | error status =>
    have hinvalid : status = .invalidArg := by
      cases hcall : args.call <;> rw [hcall] at hwaiter <;>
        simp only [WaitCall.waiter, singleWaiter, setTypes, componentTypes] at hwaiter <;> grind
    subst hinvalid
    exact ⟨nofun, nofun⟩
  | ok fresh =>
    by_cases hinitialized : args.initialized = true
    · cases channel with
      | none =>
        simp only [if_pos hinitialized]
        exact ⟨hfilter, rfl, hlate, fresh, hwaiter, .inl rfl⟩
      | some status =>
        simp only [if_pos hinitialized]
        refine ⟨fun hok => absurd (congrArg some hok) hchannel, fun htimeout => .inl ?_⟩
        rw [htimeout, if_pos rfl]
    · simp only [if_neg hinitialized]
      exact ⟨nofun, nofun⟩

theorem waitCollect_sane {began clock : Nat} {status : Status}
    (hfilter : args.call.prepare args.filter = .ok filter)
    (hpast : status = .timeout → Past args began clock) (hwaits : Waits args dispatched waiter)
    (refused : Bool) :
    Sane args began dispatched refused clock (waitCollect filter began status waiter) := by
  rw [waitCollect]
  obtain ⟨fresh, hfresh, hcase⟩ := hwaits
  have hopen := fresh_open hfresh
  rcases hcase with rfl | ⟨event, hmem, hheard, memory, rfl⟩
  · simp only [hopen, Bool.false_eq_true, false_and, if_false, ownedMatches]
    split
    · exact ⟨hfilter, rfl⟩
    · next hstatus => exact ⟨fun hok => absurd hok hstatus, fun htimeout => .inr (hpast htimeout)⟩
  · have hcompleted : (completedBy fresh args.call event memory).completed = true := rfl
    simp only [hcompleted, true_and, if_true]
    by_cases hok : (if status = .timeout then Status.ok else status) = .ok
    · rw [if_pos hok]
      split
      · next hclone =>
        have hfailed : (completedBy fresh args.call event memory).ownedStatus ≠ .timeout := by
          simp only [completedBy, complete, cloneObject]
          grind
        exact ⟨fun hyes => absurd hyes hclone, fun hyes => absurd hyes hfailed⟩
      · next hclone =>
        rw [not_not] at hclone
        split
        · next hmatch =>
          refine ⟨fun _ => ⟨event, hmem, ?_, ?_⟩, by simp⟩
          · rw [wanted_iff hfilter]
            simp only [completedBy, complete, cloneObject] at hmatch hclone
            grind [ownedMatches]
          · simp only [completedBy, complete, cloneObject] at hclone ⊢
            grind
        · exact ⟨hfilter, rfl⟩
    · rw [if_neg hok]
      refine ⟨fun hyes => absurd hyes hok, fun hyes => ?_⟩
      grind

theorem waitStep_clock (args : WaitArgs) (state : WaitState) (action : WaitStep) :
    state.clock ≤ (waitStep args state action).clock := by
  unfold waitStep
  grind

variable {watched : Watched}

theorem watchStep_began (h : watched.began ≤ watched.state.clock) (action : WaitStep) :
    (watchStep args watched action).began ≤ (watchStep args watched action).state.clock := by
  have hclock := waitStep_clock args watched.state action
  simp only [watchStep]
  split <;> omega

/-- What holds of a call that is watched. -/
def Watched.Sane (args : WaitArgs) (watched : Watched) : Prop :=
  App.Sane args watched.began watched.dispatched watched.refused watched.state.clock
    watched.state.phase

/-- **Every step keeps it.** -/
theorem watchStep_sane (h : watched.Sane args)
    (hbegan : watched.began ≤ watched.state.clock) (action : WaitStep) :
    (watchStep args watched action).Sane args := by
  obtain ⟨⟨clock, phase⟩, began, registered, dispatched, seen, refused⟩ := watched
  cases action with
  | tick ms => exact h.mono (Nat.le_add_right _ _) (List.Subset.refl _) id
  | dispatch event memory =>
    have hkept := h.mono (Nat.le_refl _) (List.subset_append_left _ [event]) id
    cases phase with
    | waiting filter started since remaining waiter =>
      obtain ⟨hfilter, hstarted, hlate, hwaits⟩ := h
      obtain ⟨after, hsignal, hafter⟩ := hwaits.signal event memory
      simp only [watchStep, waitStep, hsignal]
      exact ⟨hfilter, hstarted, hlate, hafter⟩
    | woken filter started status waiter =>
      obtain ⟨hfilter, hstarted, hpast, hwaits⟩ := h
      obtain ⟨after, hsignal, hafter⟩ := hwaits.signal event memory
      simp only [watchStep, waitStep, hsignal]
      exact ⟨hfilter, hstarted, hpast, hafter⟩
    | _ => exact hkept
  | enter =>
    cases phase with
    | entering => exact waitEnter_sane args clock dispatched refused
    | _ => exact h
  | check =>
    cases phase with
    | checking filter started =>
      obtain ⟨hfilter, rfl⟩ := h
      exact waitCheck_sane hfilter hbegan dispatched refused
    | _ => exact h
  | register channel =>
    have hrefused : ∀ phase, App.Sane args began dispatched
        (if channel = some .timeout then true else refused) clock phase →
        (⟨⟨clock, phase⟩, began, registered, dispatched, seen, match WaitStep.register channel with
          | .register (some .timeout) => true
          | _ => refused⟩ : Watched).Sane args := by
      intro phase hphase
      refine hphase.mono (Nat.le_refl _) (List.Subset.refl _) ?_
      split <;> grind
    cases phase with
    | registering filter started remaining =>
      obtain ⟨hfilter, rfl, hlate⟩ := h
      simp only [watchStep, waitStep]
      by_cases hok : channel = some .ok
      · rw [if_pos hok]
        exact hrefused _ ⟨hfilter, rfl, hlate⟩
      · rw [if_neg hok]
        exact hrefused _ (waitRegister_sane hfilter hlate dispatched refused channel hok)
    | entering => trivial
    | checking filter started => exact h
    | waiting filter started since remaining waiter => exact h
    | woken filter started status waiter => exact h
    | returned status owned =>
      exact hrefused _ (h.mono (Nat.le_refl _) (List.Subset.refl _) (by grind))
  | wake wake =>
    cases phase with
    | waiting filter started since remaining waiter =>
      obtain ⟨hfilter, hstarted, hlate, hwaits⟩ := h
      cases wake with
      | received =>
        simp only [watchStep, waitStep]
        split
        · exact ⟨hfilter, hstarted, nofun, hwaits⟩
        · exact ⟨hfilter, hstarted, hlate, hwaits⟩
      | expired =>
        simp only [watchStep, waitStep]
        split
        · next hdue => exact ⟨hfilter, hstarted, fun _ => (hlate hdue.1).mono hdue.2, hwaits⟩
        · exact ⟨hfilter, hstarted, hlate, hwaits⟩
      | failed status =>
        simp only [watchStep, waitStep]
        split
        · next hfailed =>
          exact ⟨hfilter, hstarted, fun hyes => absurd hyes hfailed.2, hwaits⟩
        · exact ⟨hfilter, hstarted, hlate, hwaits⟩
    | _ => exact h
  | collect =>
    cases phase with
    | woken filter started status waiter =>
      obtain ⟨hfilter, rfl, hpast, hwaits⟩ := h
      exact waitCollect_sane hfilter hpast hwaits refused
    | _ => exact h

theorem watch_sane (args : WaitArgs) (clock : Nat) (steps : List WaitStep) :
    (watch args clock steps).Sane args ∧
      (watch args clock steps).began ≤ (watch args clock steps).state.clock := by
  induction steps using List.reverseRecOn with
  | nil => exact ⟨trivial, Nat.zero_le _⟩
  | append_singleton steps action ih =>
    rw [watch_concat]
    exact ⟨watchStep_sane ih.1 ih.2 action, watchStep_began ih.2 action⟩

/-! ## The first wanted event -/

/-- A waiter that holds the object of an event. -/
def HasObject (call : WaitCall) (event : Event) (waiter : Waiter) : Prop :=
  waiter.completed = true ∧ waiter.owned = call.object event ∧ waiter.ownedStatus = .ok

/-- A call that returns an event, or has. -/
def Holding (args : WaitArgs) (event : Event) : WaitPhase → Prop
  | .waiting _ _ _ _ waiter => HasObject args.call event waiter
  | .woken _ _ status waiter =>
    (status = .ok ∨ status = .timeout) ∧ HasObject args.call event waiter
  | .returned status owned => status = .ok ∧ owned = args.call.object event
  | _ => False

/-- The waiter of a call is on the bus, and open. -/
def WaiterOpen : WaitPhase → Prop
  | .waiting _ _ _ _ waiter => waiter.completed = false
  | _ => False

/-- A step that the call can follow: the first wanted event, where it comes after the first waiter
has registered and before the deadline, finds a waiter that is on the bus and still open, and
memory for its copy; and a wait that holds it is not broken off. -/
def Attentive (args : WaitArgs) (watched : Watched) : WaitStep → Prop
  | .dispatch event memory =>
    wanted args event = true → watched.registered = true → watched.early args = true →
      watched.seen.find? (wanted args) = none → WaiterOpen watched.state.phase ∧ memory = true
  | .wake (.failed _) => watched.seen.find? (wanted args) = none
  | _ => True

theorem signal_completed (h : waiter.completed = true) (event : Event)
    (memory : Bool) : signalWaiter waiter event memory = some waiter := by
  rw [signalWaiter, if_pos h]

section

variable {event : Event} (hwanted : wanted args event = true) {state : WaitState} {began : Nat}
  {refused : Bool} (hsane : Sane args began dispatched refused state.clock state.phase)
include hwanted hsane

theorem waitStep_holding (h : Holding args event state.phase) {action : WaitStep}
    (hwake : ∀ status, action ≠ .wake (.failed status)) :
    Holding args event (waitStep args state action).phase := by
  obtain ⟨clock, phase⟩ := state
  cases phase with
  | entering => exact h.elim
  | checking filter started => exact h.elim
  | registering filter started remaining => exact h.elim
  | returned status owned => cases action <;> exact h
  | waiting filter started since remaining waiter =>
    cases action with
    | dispatch other memory =>
      simp only [waitStep, signal_completed h.1]
      exact h
    | wake wake =>
      cases wake with
      | received =>
        simp only [waitStep, if_pos h.1]
        exact ⟨.inl rfl, h⟩
      | expired =>
        simp only [waitStep]
        split
        · exact ⟨.inr rfl, h⟩
        · exact h
      | failed status => exact absurd rfl (hwake status)
    | _ => exact h
  | woken filter started status waiter =>
    cases action with
    | dispatch other memory =>
      simp only [waitStep, signal_completed h.2.1]
      exact h
    | collect =>
      obtain ⟨hstatus, hcompleted, howned, hclone⟩ := h
      have hmatch := ((wanted_iff hsane.1 event).mp hwanted).2
      have hok : (if status = .timeout then Status.ok else status) = .ok := by grind
      simp only [waitStep, waitCollect, hcompleted, true_and, if_true, hok, hclone, howned,
        ne_eq, not_true_eq_false, if_false, hmatch]
      exact ⟨rfl, rfl⟩
    | _ => exact h

theorem dispatch_holding (hlistening : WaiterOpen state.phase) :
    Holding args event (waitStep args state (.dispatch event true)).phase := by
  obtain ⟨clock, phase⟩ := state
  cases phase with
  | waiting filter started since remaining waiter =>
    obtain ⟨hfilter, -, -, fresh, hfresh, hcase⟩ := hsane
    have hheard := ((wanted_iff hfilter event).mp hwanted).1
    rcases hcase with rfl | ⟨other, -, -, memory, rfl⟩
    · simp only [waitStep, signal_fresh hfresh, hheard, if_true]
      obtain ⟨object, hobject⟩ := Option.ne_none_iff_exists'.mp (object_of_wanted hwanted)
      refine ⟨rfl, ?_, ?_⟩
      · simp only [completedBy, complete, hobject, cloneObject, if_true]
      · simp only [completedBy, complete, hobject, cloneObject, if_true]
    · cases hlistening
  | _ => exact hlistening.elim

theorem holding_returns (h : Holding args event state.phase) :
    (waitStep args (waitStep args state (.wake .received)) .collect).phase =
      .returned .ok (args.call.object event) := by
  have hcollect : ∀ filter started status waiter,
      args.call.prepare args.filter = .ok filter → (status = .ok ∨ status = .timeout) →
        HasObject args.call event waiter →
          waitCollect filter started status waiter = .returned .ok (args.call.object event) := by
    intro filter started status waiter hfilter hstatus hholds
    obtain ⟨hcompleted, howned, hclone⟩ := hholds
    have hmatch := ((wanted_iff hfilter event).mp hwanted).2
    have hok : (if status = .timeout then Status.ok else status) = .ok := by grind
    simp only [waitCollect, hcompleted, true_and, if_true, hok, hclone, howned, ne_eq,
      not_true_eq_false, if_false, hmatch]
  obtain ⟨clock, phase⟩ := state
  cases phase with
  | waiting filter started since remaining waiter =>
    simp only [waitStep, if_pos h.1]
    exact hcollect filter started .ok waiter hsane.1 (.inl rfl) h
  | woken filter started status waiter =>
    exact hcollect filter started status waiter hsane.1 h.1 h.2
  | returned status owned =>
    obtain ⟨rfl, rfl⟩ := h
    rfl
  | _ => exact h.elim

end

/-- The call holds the first wanted event that came in time. -/
def Watched.Holds (args : WaitArgs) (watched : Watched) : Prop :=
  ∀ event, watched.seen.find? (wanted args) = some event → Holding args event watched.state.phase

/-- **A step that the call can follow.** -/
theorem watchStep_holding (hsane : watched.Sane args)
    (h : watched.Holds args) {action : WaitStep} (hattentive : Attentive args watched action) :
    (watchStep args watched action).Holds args := by
  intro event hfirst
  by_cases hbefore : watched.seen.find? (wanted args) = none
  · cases action with
    | dispatch other memory =>
      simp only [watchStep] at hfirst
      split at hfirst
      · next hintime =>
        rw [Bool.and_eq_true] at hintime
        rw [List.find?_append, hbefore, Option.none_or] at hfirst
        have hother : other = event ∧ wanted args event = true := by grind
        obtain ⟨rfl, hwanted⟩ := hother
        obtain ⟨hlistening, rfl⟩ := hattentive hwanted hintime.1 hintime.2 hbefore
        exact dispatch_holding hwanted hsane hlistening
      · rw [hbefore] at hfirst
        cases hfirst
    | _ => exact absurd hfirst (by simp [watchStep, hbefore])
  · obtain ⟨first, hseen⟩ := Option.ne_none_iff_exists'.mp hbefore
    have hsame : first = event := by
      cases action with
      | dispatch other memory =>
        simp only [watchStep] at hfirst
        split at hfirst
        · rw [List.find?_append, hseen, Option.some_or] at hfirst
          exact Option.some.inj hfirst
        · exact Option.some.inj (hseen.symm.trans hfirst)
      | _ => exact Option.some.inj (hseen.symm.trans hfirst)
    subst hsame
    refine waitStep_holding (List.find?_some hseen) hsane (h first hseen) fun status heq => ?_
    subst heq
    exact hbefore hattentive

theorem watch_holds {clock : Nat} {steps : List WaitStep} (h : ∀ n action, steps[n]? = some action →
      Attentive args (watch args clock (steps.take n)) action) :
    (watch args clock steps).Holds args := by
  induction steps using List.reverseRecOn with
  | nil => exact nofun
  | append_singleton steps action ih =>
    rw [watch_concat]
    refine watchStep_holding (watch_sane args clock steps).1 (ih fun n other hother => ?_) ?_
    · obtain ⟨hlt, -⟩ := List.getElem?_eq_some_iff.mp hother
      have hstep := h n other (by rw [List.getElem?_append_left hlt]; exact hother)
      rwa [List.take_append_of_le_length (Nat.le_of_lt hlt)] at hstep
    · have hlast := h steps.length action (by simp)
      rwa [List.take_left' rfl] at hlast

/-- **A filtered wait returns the first match** unless it comes between two of its waiters.  In
every run a call returns only an event that was dispatched and that it waits for, and times out
only at its deadline (or where it was refused a channel so); and where every step is one that it
can follow, it returns the first wanted event that is dispatched after its first waiter has
registered and before its deadline. -/
theorem waits_return_first_match (args : WaitArgs) (clock : Nat) (steps : List WaitStep) :
    (∀ owned, (watch args clock steps).state.phase = .returned .ok owned →
      ∃ event ∈ (watch args clock steps).dispatched, wanted args event = true ∧
        owned = args.call.object event) ∧
    (∀ owned, (watch args clock steps).state.phase = .returned .timeout owned →
      (watch args clock steps).refused = true ∨
        Past args (watch args clock steps).began (watch args clock steps).state.clock) ∧
    ((∀ n action, steps[n]? = some action →
        Attentive args (watch args clock (steps.take n)) action) →
      ∀ event, (watch args clock steps).seen.find? (wanted args) = some event →
        (waitStep args (waitStep args (watch args clock steps).state (.wake .received))
          .collect).phase = .returned .ok (args.call.object event)) := by
  have hsane := (watch_sane args clock steps).1
  refine ⟨fun owned hphase => ?_, fun owned hphase => ?_, fun hattentive event hfirst => ?_⟩
  · rw [Watched.Sane, hphase] at hsane
    exact hsane.1 rfl
  · rw [Watched.Sane, hphase] at hsane
    exact hsane.2 rfl
  · exact holding_returns (List.find?_some hfirst) hsane (watch_holds hattentive event hfirst)

/-- A message of a user. -/
def messageOf (user : UInt64) : Event :=
  { eventOf 2 with message := some ⟨user, 1, 1⟩ }

/-- A call that waits a second for a message of user 7. -/
def waitForSeven : WaitArgs where
  call := .message 2
  filter := some { waitFilterInit with userId := 7 }
  timeoutMs := 1000
  outSize := some 0
  clientThere := true
  initialized := true

/-- Another message comes, and then the one that the call waits for, after the call has
registered again. -/
def heardAgain : List WaitStep :=
  [.enter, .check, .register none, .dispatch (messageOf 5) true, .wake .received, .collect,
    .check, .register none, .dispatch (messageOf 7) true]

theorem waits_return_first_match_heardAgain :
    (waitStep waitForSeven (waitStep waitForSeven (watch waitForSeven 0 heardAgain).state
      (.wake .received)) .collect).phase = .returned .ok (some (.message ⟨7, 1, 1⟩)) := by
  refine (waits_return_first_match waitForSeven 0 heardAgain).2.2 (fun n action haction => ?_)
    (messageOf 7) (by decide +kernel)
  match n with
  | 0 | 1 | 2 | 4 | 5 | 6 | 7 =>
    cases haction
    trivial
  | 3 =>
    cases haction
    exact fun hwanted => absurd hwanted (by decide +kernel)
  | 8 =>
    cases haction
    exact fun _ _ _ _ => ⟨rfl, rfl⟩
  | n + 9 => cases haction

/-- The two messages directly after one another. -/
def droppedBetween : List WaitStep :=
  [.enter, .check, .register none, .dispatch (messageOf 5) true, .dispatch (messageOf 7) true,
    .wake .received, .collect, .check, .register none, .tick 1000, .wake .expired, .collect]

/-- The call has seen the message and times out. -/
theorem droppedBetween_times_out :
    (watch waitForSeven 0 droppedBetween).seen.find? (wanted waitForSeven) = some (messageOf 7) ∧
      (watch waitForSeven 0 droppedBetween).registered = true ∧
      (watch waitForSeven 0 droppedBetween).state.phase = .returned .timeout none := by
  refine ⟨by decide +kernel, by decide +kernel, rfl⟩

end Dcc.App
