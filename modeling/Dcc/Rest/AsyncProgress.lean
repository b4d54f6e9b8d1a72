import Mathlib.Algebra.Order.BigOperators.Group.List
import Mathlib.Algebra.Order.Ring.Nat
import Mathlib.Logic.Relation
import Dcc.Rest.AsyncRuns

/-!
# Every request is delivered exactly once

The invariant says that no request is delivered twice and that a freed request
has been delivered.  What is left is that requests do not stay undelivered: a
worker and a canceler can always go on, and in a client that stops their steps
lower `work`, so they come to rest; at rest, with nothing pending, everything
has been delivered.
-/

namespace Dcc.Rest

open Linked Function AsyncClient

/-- The steps from a stage of a finalization to the end. -/
def FinalStage.left : FinalStage → Nat
  | .claim => 4
  | .deliver => 3
  | .publish => 2
  | .returned => 1

/-- A bound for the steps a worker of a stopping client has left. -/
def WorkerPc.left : WorkerPc → Nat
  | .start => 10
  | .performed _ _ => 9
  | .judged _ _ => 8
  | .retrying _ => 7
  | .finalizing _ stage => stage.left + 2
  | .completing => 2
  | .freeing _ => 1

namespace AsyncSystem

variable {s s' t : AsyncSystem} {place place' : Addr → Option Place} {a : Addr} {k n : Nat}

/-- Whether the worker of a request can go on. -/
def busy (s : AsyncSystem) (a : Addr) : Bool :=
  match s.workers a with
  | none => false
  | some (.freeing canceler) => s.mayFree canceler
  | some _ => true

/-- A step of a worker or of a canceler of a stopping client. -/
inductive PartyStep (s : AsyncSystem) : AsyncSystem → Prop
  | worker (a : Addr) (input : WorkerInput) (hstopping : input.stopping = true)
      (hbusy : s.busy a = true) : PartyStep s (s.workerStep a input)
  | canceler (k : Nat) (stats : RuntimeStats) (hbusy : (s.cancelers k).isIdle = false) :
      PartyStep s (s.cancelerStep k stats)

/-- The steps a request has left, by its place. -/
def leftAt (s : AsyncSystem) (a : Addr) : Place → Nat
  | .pending _ => 6
  | .detached _ => 5
  | .active => ((s.workers a).map WorkerPc.left).getD 0
  | .freeing => 1
  | .current k => ((s.cancelers k).current.map fun current => current.2.left).getD 0
  | .finished => 0

def left (s : AsyncSystem) (place : Addr → Option Place) (a : Addr) : Nat :=
  ((place a).map (s.leftAt a)).getD 0

/-- The steps all accepted requests have left. -/
def work (s : AsyncSystem) (place : Addr → Option Place) : Nat :=
  (s.accepted.map (s.left place)).sum

/-- What a party step does to the requests: it brings its own request forward,
and no request gets pending or takes a step back. -/
structure Advances (s s' : AsyncSystem) (place place' : Addr → Option Place) (a : Addr) : Prop where
  accepted : s'.accepted = s.accepted
  forward : s'.left place' a < s.left place a
  noneBack : ∀ b, b ≠ a → s'.left place' b ≤ s.left place b
  noPending : ∀ b p, place' b = some (.pending p) → place b = some (.pending p)

theorem Advances.work_lt (h : Advances s s' place place' a) (hinv : Inv n s place) :
    s'.work place' < s.work place := by
  have ha : a ∈ s.accepted := by
    rw [hinv.accepted]
    intro hnone
    have hforward := h.forward
    simp [left, hnone] at hforward
  rw [work, work, h.accepted]
  refine List.sum_lt_sum _ _ (fun b _ => ?_) ⟨a, ha, h.forward⟩
  by_cases hb : b = a
  · rw [hb]
    exact Nat.le_of_lt h.forward
  · exact h.noneBack b hb

theorem Advances.single (haccepted : s'.accepted = s.accepted)
    (hforward : s'.left place' a < s.left place a) (hplace : ∀ b, b ≠ a → place' b = place b)
    (hworkers : ∀ b, b ≠ a → s'.workers b = s.workers b)
    (hcurrent : ∀ b k, b ≠ a → place b = some (.current k) →
      (s'.cancelers k).current = (s.cancelers k).current)
    (hown : ∀ p, place' a ≠ some (.pending p)) : Advances s s' place place' a where
  accepted := haccepted
  forward := hforward
  noneBack b hb := by
    rw [left, left, hplace b hb]
    cases hpl : place b with
    | none => exact Nat.le_refl _
    | some pl =>
      cases pl with
      | active => simp [leftAt, hworkers b hb]
      | current k => simp [leftAt, hcurrent b k hb hpl]
      | _ => exact Nat.le_refl _
  noPending b p hb := by
    by_cases hba : b = a
    · exact absurd (hba ▸ hb) (hown p)
    · rwa [hplace b hba] at hb

/-! ## Workers -/

theorem Advances.worker {pc pc' : WorkerPc} (ha : place a = some .active)
    (hpc : s.workers a = some pc) (hworkers : s'.workers = update s.workers a (some pc'))
    (hcancelers : s'.cancelers = s.cancelers) (haccepted : s'.accepted = s.accepted)
    (hleft : pc'.left < pc.left) : Advances s s' place place a := by
  refine .single haccepted ?_ (fun _ _ => rfl) (fun b hb => ?_) (fun _ _ _ _ => ?_) fun p => ?_
  · simpa [left, leftAt, ha, hpc, hworkers] using hleft
  · rw [hworkers, update_of_ne hb]
  · rw [hcancelers]
  · simp [ha]

theorem Advances.settle {pc : WorkerPc} (ha : place a = some .active)
    (hpc : s.workers a = some pc) (hundecided : pc.undecided = true) (status : Status) :
    Advances s (s.settle a status) place place a := by
  have hleft : 6 < pc.left := by
    cases pc <;> simp [WorkerPc.undecided, WorkerPc.left] at hundecided ⊢
  unfold AsyncSystem.settle
  split
  · exact .worker ha hpc rfl rfl rfl (Nat.lt_of_le_of_lt (by decide) hleft)
  · exact .worker ha hpc rfl rfl rfl hleft

theorem left_finalizeStep (s : AsyncSystem) (a : Addr) (status : Status) {stage : FinalStage}
    (hreturned : stage ≠ .returned) : (s.finalizeStep a status stage).2.left < stage.left := by
  cases stage with
  | claim =>
    rw [finalizeStep]
    split <;> simp [FinalStage.left]
  | deliver =>
    rw [finalizeStep]
    split <;> simp [FinalStage.left]
  | publish => simp [finalizeStep, FinalStage.left]
  | returned => exact absurd rfl hreturned

section

variable (h : Inv n s place)
include h

theorem Advances.completeStopping (hpc : s.workers a = some .completing) :
    Advances s ((s.finishActive a).detachPending.setWorker a (some (.freeing (some s.calls))))
      place (placeStopped place s.calls a) a where
  accepted := rfl
  forward := by
    have ha := h.core.active hpc rfl
    simp [left, leftAt, placeStopped, ha, hpc, WorkerPc.left]
  noneBack b hb := by
    have hplace : placeStopped place s.calls a b = placeDetached place s.calls b := by
      simp [placeStopped, placeDetached, hb]
    rw [left, left, hplace, placeDetached]
    cases hpl : place b with
    | none => exact Nat.le_refl _
    | some pl =>
      cases pl with
      | pending p => simp [leftAt]
      | active =>
        simp [leftAt, AsyncSystem.setWorker, AsyncSystem.detachPending,
          AsyncSystem.finishActive, hb]
      | current k =>
        have hk : k ≠ s.calls := by
          rintro rfl
          have hunused := h.core.placed.unused _ (Nat.le_refl s.calls)
          exact h.core.placed.not_current (congrArg Canceler.current hunused) hpl
        simp [leftAt, AsyncSystem.setWorker, AsyncSystem.detachPending,
          AsyncSystem.finishActive, hk]
      | _ => exact Nat.le_refl _
  noPending b p hb := by
    by_cases hba : b = a
    · simp [placeStopped, hba] at hb
    · simp only [placeStopped, update_of_ne hba, placeDetached] at hb
      split at hb
      · cases hb
      · exact hb

/-- **A worker of a stopping client comes nearer to its end** with every step. -/
theorem Inv.advanceWorker (input : WorkerInput)
    (hstopping : input.stopping = true) (hbusy : s.busy a = true) :
    ∃ place', Inv n (s.workerStep a input) place' ∧
      Advances s (s.workerStep a input) place place' a := by
  rw [AsyncSystem.workerStep]
  cases hpc : s.workers a with
  | none => simp [busy, hpc] at hbusy
  | some pc =>
    cases pc with
    | start =>
      have ha := h.core.active hpc rfl
      dsimp only
      split
      · exact ⟨place, h.setWorker hpc rfl rfl rfl fun _ => rfl,
          .worker ha hpc rfl rfl rfl (by simp [WorkerPc.left])⟩
      · exact ⟨place, h.setWorker hpc rfl rfl rfl fun _ => rfl,
          .worker ha hpc rfl rfl rfl (by simp [WorkerPc.left])⟩
    | performed status captured =>
      have ha := h.core.active hpc rfl
      exact ⟨place, h.setWorker hpc rfl rfl rfl fun _ => rfl,
        .worker ha hpc rfl rfl rfl (by simp [WorkerPc.left])⟩
    | judged status captured =>
      have ha := h.core.active hpc rfl
      dsimp only
      split
      · exact ⟨place, h.retrying hpc _, .worker ha hpc rfl rfl rfl (by simp [WorkerPc.left])⟩
      · exact ⟨place, h.settle hpc rfl _, .settle ha hpc rfl _⟩
    | retrying notBeforeMs =>
      have ha := h.core.active hpc rfl
      simp only [hstopping, Bool.or_true, if_true]
      exact ⟨place, h.settle hpc rfl _, .settle ha hpc rfl _⟩
    | finalizing status stage =>
      have ha := h.core.active hpc rfl
      by_cases hreturned : stage = .returned
      · subst hreturned
        exact ⟨place, h.setWorker hpc rfl rfl rfl (by simp [WorkerPc.undecided]),
          .worker ha hpc rfl rfl rfl (by simp [WorkerPc.left, FinalStage.left])⟩
      · have helse := sameElse_finalizeStep s a status stage
        have hleft := Nat.add_lt_add_right (left_finalizeStep s a status hreturned) 2
        have hworkers : ((s.finalizeStep a status stage).1.setWorker a
            (some (.finalizing status (s.finalizeStep a status stage).2))).workers =
            update s.workers a (some (.finalizing status (s.finalizeStep a status stage).2)) := by
          rw [AsyncSystem.setWorker, helse.workers]
        have hadvances := Advances.worker ha hpc hworkers helse.cancelers helse.accepted hleft
        cases stage with
        | returned => exact absurd rfl hreturned
        | _ => exact ⟨place, h.finalizeWorker hpc, hadvances⟩
    | completing =>
      simp only [AsyncSystem.complete, hstopping, if_true]
      exact ⟨_, h.completeStopping hpc, .completeStopping h hpc⟩
    | freeing canceler =>
      have hmay : s.mayFree canceler = true := by simpa [busy, hpc] using hbusy
      have ha : place a = some .freeing := (h.core.placed.freeing a).mpr ⟨canceler, hpc⟩
      simp only [hmay, if_true]
      refine ⟨_, h.freeWorker hpc input.stats, .single rfl ?_ ?_ ?_ (fun _ _ _ _ => rfl) ?_⟩
      · simp [left, leftAt, ha]
      · intro b hb
        exact update_of_ne hb _ _
      · intro b hb
        exact update_of_ne hb _ _
      · simp

/-! ## Cancelers -/

/-- **A canceler comes nearer to its end** with every step. -/
theorem Inv.advanceCanceler (stats : RuntimeStats) (hbusy : (s.cancelers k).isIdle = false) :
    ∃ place' a, Inv n (s.cancelerStep k stats) place' ∧
      Advances s (s.cancelerStep k stats) place place' a := by
  rw [AsyncSystem.cancelerStep]
  cases hcurrent : (s.cancelers k).current with
  | none =>
    -- nobody is in the hands of canceler `k`, so its own record is read for none
    have hnobody : ∀ b j, place b = some (.current j) → j ≠ k := by
      rintro b j hb rfl
      exact h.core.placed.not_current hcurrent hb
    cases hchain : (s.cancelers k).chain with
    | none => simp [Canceler.isIdle, hcurrent, hchain] at hbusy
    | some a =>
      have ha := (h.core.pick hcurrent hchain).1
      refine ⟨_, a, h.pick hcurrent hchain, .single rfl ?_ ?_ (fun _ _ => rfl) ?_ ?_⟩
      · simp [left, leftAt, ha, AsyncSystem.setCanceler, FinalStage.left]
      · intro b hb
        exact update_of_ne hb _ _
      · intro b j hb hpl
        simp [AsyncSystem.setCanceler, hnobody b j hpl]
      · simp
  | some current =>
    obtain ⟨a, stage⟩ := current
    have ha : place a = some (.current k) := (h.core.placed.current k a).mpr ⟨stage, hcurrent⟩
    -- and nobody but `a` is
    have hother : ∀ b j, b ≠ a → place b = some (.current j) → j ≠ k := by
      rintro b j hb hpl rfl
      exact hb (h.core.placed.current_eq hcurrent hpl)
    by_cases hreturned : stage = .returned
    · subst hreturned
      refine ⟨_, a, h.freeCurrent hcurrent stats, .single rfl ?_ ?_ (fun _ _ => rfl) ?_ ?_⟩
      · simp [left, leftAt, ha, hcurrent, FinalStage.left]
      · intro b hb
        exact update_of_ne hb _ _
      · intro b j hb hpl
        simp [AsyncSystem.setCanceler, hother b j hb hpl, AsyncSystem.free, AsyncSystem.modify]
      · simp
    · have helse := sameElse_finalizeStep s a .canceled stage
      have hleft := left_finalizeStep s a .canceled hreturned
      have hadvances : Advances s ((s.finalizeStep a .canceled stage).1.setCanceler k
          { chain := (s.cancelers k).chain
            current := some (a, (s.finalizeStep a .canceled stage).2) }) place place a := by
        refine .single helse.accepted ?_ (fun _ _ => rfl) ?_ ?_ ?_
        · simpa [left, leftAt, ha, hcurrent, AsyncSystem.setCanceler] using hleft
        · intro b _
          exact congrFun helse.workers b
        · intro b j hb hpl
          simp [AsyncSystem.setCanceler, hother b j hb hpl, helse.cancelers]
        · simp [ha]
      cases stage with
      | returned => exact absurd rfl hreturned
      | _ => exact ⟨place, a, h.finalizeCurrent hcurrent, hadvances⟩

/-! ## Coming to rest -/

/-- **A step of a party brings a request forward.** -/
theorem Inv.partyStep (hstep : PartyStep s t) :
    ∃ place' a, Inv n t place' ∧ Advances s t place place' a := by
  cases hstep with
  | worker a input hstopping hbusy =>
    obtain ⟨place', hinv, hadvances⟩ := h.advanceWorker input hstopping hbusy
    exact ⟨place', a, hinv, hadvances⟩
  | canceler k stats hbusy => exact h.advanceCanceler stats hbusy

/-- **The parties of a stopping client come to rest**, in whatever order they go on. -/
theorem Inv.acc : Acc (fun t s => PartyStep s t) s := by
  induction hw : s.work place using Nat.strong_induction_on generalizing s place with
  | h w ih =>
    refine Acc.intro s fun t hstep => ?_
    obtain ⟨place', a, hinv, hadvances⟩ := h.partyStep hstep
    have hlt := hadvances.work_lt h
    rw [hw] at hlt
    exact ih _ hlt hinv rfl

/-- What holds along the steps of the parties: the invariant, with the same
accepted requests and nothing pending that was not. -/
theorem Inv.partySteps (hsteps : Relation.ReflTransGen PartyStep s t) :
    ∃ place', Inv n t place' ∧ t.accepted = s.accepted ∧
      ∀ b p, place' b = some (.pending p) → place b = some (.pending p) := by
  induction hsteps with
  | refl => exact ⟨place, h, rfl, fun _ _ hb => hb⟩
  | tail _ hstep ih =>
    obtain ⟨place₁, hinv, haccepted, hpending⟩ := ih
    obtain ⟨place₂, a, hinv', hadvances⟩ := hinv.partyStep hstep
    exact ⟨place₂, hinv', hadvances.accepted.trans haccepted,
      fun b p hb => hpending b p (hadvances.noPending b p hb)⟩

end

/-- No party of a stopping client can take a step. -/
def AtRest (s : AsyncSystem) : Prop := ∀ t, ¬ PartyStep s t

theorem AtRest.idle (h : AtRest s) (k : Nat) : (s.cancelers k).isIdle = true := by
  by_contra hbusy
  rw [Bool.not_eq_true] at hbusy
  exact h _ (.canceler k RuntimeStats.zero hbusy)

theorem AtRest.no_worker (h : AtRest s) (a : Addr) : s.workers a = none := by
  let drainInputs : Nat → DrainInput := fun _ => ⟨true, 0, RuntimeStats.zero, RuntimeStats.zero, true⟩
  have hbusy : s.busy a ≠ true := fun hbusy =>
    h _ (.worker a ⟨.ok, Captured.zero, 0, true, true, RuntimeStats.zero, drainInputs, drainInputs⟩
      rfl hbusy)
  cases hpc : s.workers a with
  | none => rfl
  | some pc =>
    refine absurd ?_ hbusy
    cases pc with
    | freeing canceler =>
      cases canceler with
      | none => simp [busy, hpc, mayFree]
      | some k => simpa [busy, hpc, mayFree] using h.idle k
    | _ => simp [busy, hpc]

/-! ## Delivery -/

/-- The request has been delivered: its handle is terminal, it has become so
once, and its callback, if it has one, has been invoked once. -/
structure Delivered (s : AsyncSystem) (a : Addr) : Prop where
  completed : (s.handles a).completed = true
  terminals : s.terminals a = 1
  callbacks : s.callbacks a = if (s.handles a).hasCallback = true then 1 else 0

theorem Core.delivered (h : Core s place) (ha : place a = some .finished) : Delivered s a := by
  have hphase : AtPhase s a .done := h.atPhase a .finished ha
  refine ⟨hphase.completed.mpr rfl, ?_, ?_⟩
  · rw [hphase.terminals, if_pos rfl]
  · rw [hphase.callbacks]
    simp

theorem AtPhase.atMostOnce {phase : Phase} (h : AtPhase s a phase) :
    s.terminals a ≤ 1 ∧ s.callbacks a ≤ if (s.handles a).hasCallback = true then 1 else 0 := by
  rw [h.terminals, h.callbacks]
  constructor
  · split <;> omega
  · split
    · rename_i hcalled
      rw [if_pos hcalled.1]
    · exact Nat.zero_le _

theorem Inv.delivered_of_stop (h : Inv n s place)
    (hsteps : Relation.ReflTransGen PartyStep s.detachPending t) (hrest : AtRest t)
    (ha : a ∈ s.accepted) : Delivered t a := by
  obtain ⟨place', hinv, haccepted, hpending⟩ := h.detachPending.partySteps hsteps
  have hat : a ∈ t.accepted := by
    rw [haccepted]
    exact ha
  obtain ⟨pl, hpl⟩ := Option.ne_none_iff_exists'.mp ((hinv.accepted a).mp hat)
  have hfinished : pl = .finished := by
    refine hinv.core.finished_of_idle hrest.idle (hrest.no_worker a) hpl ?_
    rintro p rfl
    have hdetached := hpending a p hpl
    unfold placeDetached at hdetached
    split at hdetached
    · exact absurd hdetached nofun
    · rename_i hne
      exact hne p hdetached
  exact hinv.core.delivered (hfinished ▸ hpl)

/-- **Every request is delivered exactly once.**  After every run, no accepted
request has become terminal twice or has had its callback invoked twice, or at
all where it has none; every freed request has been delivered, and so has every
accepted one in a client with nothing under way.  A client that stops gets there:
when the pending requests are canceled, the workers and the cancelers come to
rest in whatever order they go on, and then all accepted requests are delivered. -/
theorem delivered_exactly_once (restConcurrency : Nat) (resourceLimits : ResourceLimits)
    (actions : List Action) :
    let s := run restConcurrency resourceLimits actions
    (∀ a ∈ s.accepted,
      s.terminals a ≤ 1 ∧ s.callbacks a ≤ if (s.handles a).hasCallback = true then 1 else 0) ∧
    (∀ a ∈ s.finished, Delivered s a) ∧
    (s.quiescent = true → ∀ a ∈ s.accepted, Delivered s a) ∧
    Acc (fun t s => PartyStep s t) (s.step .cancelPending) ∧
    ∀ t, Relation.ReflTransGen PartyStep (s.step .cancelPending) t → AtRest t →
      ∀ a ∈ s.accepted, Delivered t a := by
  intro s
  obtain ⟨place, h⟩ := inv_run restConcurrency resourceLimits actions
  refine ⟨fun a ha => ?_, fun a ha => ?_, fun hquiet a ha => ?_, h.detachPending.acc,
    fun t hsteps hrest a ha => h.delivered_of_stop hsteps hrest ha⟩
  · obtain ⟨pl, hpl⟩ := Option.ne_none_iff_exists'.mp ((h.accepted a).mp ha)
    exact (h.core.atPhase a pl hpl).atMostOnce
  · exact h.core.delivered ((h.core.placed.finished a).mpr ha)
  · obtain ⟨pl, hpl⟩ := Option.ne_none_iff_exists'.mp ((h.accepted a).mp ha)
    have hfinished := h.core.finished_of_quiescent hquiet hpl
    exact h.core.delivered (hfinished ▸ hpl)

end AsyncSystem

end Dcc.Rest
