import Dcc.Rest.AsyncDelivery

/-!
# Runs of the asynchronous requests

Every step of every party keeps the invariant, so it holds after every run:

* `queue_conservation`: every accepted request is in exactly one place, and the
  links and the counter of the client agree with the places;
* `route_exclusion`: the active routes are those of the active requests that
  have claimed one, no route is claimed twice, and marking a route never fails.
-/

namespace Dcc.Rest.AsyncSystem

open Linked Function AsyncClient

variable {s s' : AsyncSystem} {place place' : Addr → Option Place} {a : Addr} {k : Nat}
  {pc : WorkerPc} {n : Nat}

/-- The invariant of a system configured with concurrency `n`: the accepted
requests are those with a place. -/
structure Inv (n : Nat) (s : AsyncSystem) (place : Addr → Option Place) : Prop where
  core : Core s place
  accepted : ∀ a, a ∈ s.accepted ↔ place a ≠ none
  configured : s.client.restConcurrency = n

theorem Inv.keep (h : Inv n s place) (hcore : Core s' place') (haccepted : s'.accepted = s.accepted)
    (hconfig : s'.client.restConcurrency = s.client.restConcurrency)
    (hplaces : ∀ b, place' b = none ↔ place b = none) : Inv n s' place' := by
  refine ⟨hcore, fun b => ?_, hconfig.trans h.configured⟩
  rw [haccepted, h.accepted b, ne_eq, ne_eq, hplaces b]

/-! ## Drains -/

theorem placeDrained_none_iff {pending pending' : Priority → List Addr} {active active' : List Addr}
    {admission : Option Addr} {r : DrainResult} {c : AsyncClient}
    (hpending : ∀ p a, a ∈ pending p ↔ place a = some (.pending p))
    (hr : Drained c pending active admission r pending' active') (b : Addr) :
    placeDrained place r b = none ↔ place b = none ∨ r.rejected = some b := by
  unfold placeDrained
  by_cases hspawned : b ∈ r.spawned
  · obtain ⟨p, hp⟩ := hr.spawned b hspawned
    have hrejected : r.rejected ≠ some b := fun hb => (hr.rejected b hb).2.1 hspawned
    simp [hspawned, hrejected, (hpending p b).mp hp]
  · by_cases hrejected : r.rejected = some b
    · simp [hspawned, hrejected]
    · simp [hspawned, hrejected]

section

variable {r : DrainResult}
  (hr : ∀ pending active, QueueRep s.client pending active →
    ∃ pending' active', Drained s.client pending active none r pending' active')
include hr

theorem Core.drain (h : Core s place) :
    Core (s.drained r) (placeDrained place r) ∧
      (∀ b, placeDrained place r b = none ↔ place b = none) ∧
      Frame s.client r.client fun b => ∃ p, place b = some (.pending p) := by
  obtain ⟨pending, active, hrep, hpending, hactive⟩ := h.placed.queue
  obtain ⟨pending', active', hdrained⟩ := hr pending active hrep
  refine ⟨h.drained hpending hactive hdrained, fun b => ?_, hdrained.frame.mono fun b hb => ?_⟩
  · have hrejected : r.rejected ≠ some b := fun hb => absurd (hdrained.rejected b hb).1 nofun
    rw [placeDrained_none_iff hpending hdrained]
    simp [hrejected]
  · obtain ⟨p, hp⟩ := hb
    exact ⟨p, (hpending p b).mp hp⟩

theorem Inv.drain (h : Inv n s place) : Inv n (s.drained r) (placeDrained place r) :=
  h.keep (h.core.drain hr).1 rfl (h.core.drain hr).2.2.restConcurrency (h.core.drain hr).2.1

end

theorem placeDetached_none_iff {b : Addr} : placeDetached place k b = none ↔ place b = none := by
  unfold placeDetached
  split
  · rename_i p hp
    simp [hp]
  · rfl

/-! ## Workers -/

theorem Core.modify {f : AsyncRequest → AsyncRequest} (h : Core s place) (a : Addr)
    (hf : ∀ r, (f r).priority = r.priority ∧ (f r).route = r.route ∧ (f r).next = r.next ∧
      (f r).activeNext = r.activeNext ∧ (f r).routeClaimed = r.routeClaimed)
    (hcalled : ∀ r, r.callbackCalled = false → (f r).callbackCalled = false) :
    Core (s.modify a f) place := by
  refine h.move (h.placed.modify a hf) rfl rfl rfl rfl h.marks (fun b pl hb => ⟨pl, hb, ?_, id⟩)
    fun b hb => ?_
  · cases pl <;> rfl
  · change ((s.client.modify a f).requests b).callbackCalled = false
    rw [modify_requests]
    split
    · exact hcalled _ (h.uncalled b hb)
    · exact h.uncalled b hb

theorem Inv.requeueRetry (h : Inv n s place) {notBeforeMs : Nat}
    (hpc : s.workers a = some (.retrying notBeforeMs)) (input : WorkerInput) :
    ∃ place', Inv n (s.requeueRetry a notBeforeMs input) place' := by
  have ha := h.core.active hpc rfl
  have hopen := h.core.open_of_active ha
  have hphase : AtPhase s a .before := h.core.workerPhase hpc rfl
  obtain ⟨hfinished, hkeeps, hframe⟩ := h.core.finishActive ha
  let f : AsyncRequest → AsyncRequest := fun request =>
    { request with
      resource := (requeue input.stats request.resource).2
      notBeforeMs := notBeforeMs
      callbackCalled := false }
  have hmodified : Core ((s.finishActive a).modify a f) (update place a none) :=
    hfinished.modify a (fun _ => ⟨rfl, rfl, rfl, rfl, rfl⟩) fun _ _ => rfl
  have hlt : a < ((s.finishActive a).modify a f).client.allocated := by
    change a < (s.finishActive a).client.allocated
    rw [hframe.allocated]
    exact h.core.placed.allocated a (by simp [ha])
  have hcalled : (((s.finishActive a).modify a f).client.requests a).callbackCalled = false := by
    have hrequest := modify_requests (s.finishActive a).client a f a
    rw [if_pos rfl] at hrequest
    exact (congrArg AsyncRequest.callbackCalled hrequest).trans rfl
  have hpushed := hmodified.pushTail (by simp) hlt ((hkeeps _ hphase).congr rfl rfl rfl) hcalled
    hopen
  obtain ⟨hdrained, hplaces, hdrainFrame⟩ := hpushed.drain fun pending active hrep =>
    drainImplLocked_spec hrep none input.drainInputs
  have hconfig := hdrainFrame.restConcurrency.trans
    ((restConcurrency_pushTail ((s.finishActive a).modify a f).client a).trans
      hframe.restConcurrency)
  refine ⟨_, h.keep hdrained rfl hconfig fun b => ?_⟩
  rw [hplaces b]
  by_cases hb : b = a
  · simp [hb, ha]
  · simp [hb]

theorem Core.completing (h : Core s place) (hpc : s.workers a = some .completing) :
    place a = some .active ∧ Core (s.finishActive a) (update place a none) ∧
      AtPhase (s.finishActive a) a .done ∧ (s.finishActive a).closed = false ∧
      a < (s.finishActive a).client.allocated ∧
      (s.finishActive a).client.restConcurrency = s.client.restConcurrency := by
  have ha := h.active hpc rfl
  have hphase : AtPhase s a .done := h.workerPhase hpc rfl
  obtain ⟨hfinished, hkeeps, hframe⟩ := h.finishActive ha
  refine ⟨ha, hfinished, hkeeps _ hphase, h.open_of_active ha, ?_, hframe.restConcurrency⟩
  rw [hframe.allocated]
  exact h.placed.allocated a (by simp [ha])

/-- The places after a worker of a stopping client has completed. -/
def placeStopped (place : Addr → Option Place) (k : Nat) (a : Addr) : Addr → Option Place :=
  update (placeDetached (update place a none) k) a (some .freeing)

theorem Inv.completeStopping (h : Inv n s place) (hpc : s.workers a = some .completing) :
    Inv n ((s.finishActive a).detachPending.setWorker a (some (.freeing (some s.calls))))
      (placeStopped place s.calls a) := by
  obtain ⟨ha, hfinished, hphase, hopen, hlt, hconfig⟩ := h.core.completing hpc
  obtain ⟨pending, active, hrep, -, -⟩ := hfinished.placed.queue
  have hdetached := hrep.pendingRep.detachAll.frame
  have hgone : placeDetached (update place a none) (s.finishActive a).calls a = none := by
    simp [placeDetached]
  refine h.keep (hfinished.detachPending.setFreeing hgone ?_ (hphase.congr rfl rfl rfl) hopen _) rfl
    (hdetached.restConcurrency.trans hconfig) fun b => ?_
  · change a < (s.finishActive a).client.detachPendingAllLocked.1.allocated
    rw [hdetached.allocated]
    exact hlt
  · unfold placeStopped
    by_cases hb : b = a
    · simp [hb, ha]
    · rw [update_of_ne hb, placeDetached_none_iff, update_of_ne hb]

theorem Inv.completeDraining (h : Inv n s place) (hpc : s.workers a = some .completing)
    (drainInputs againInputs : Nat → DrainInput) :
    ∃ place', Inv n (((s.finishActive a).drained ((s.finishActive a).client.drainTwiceLocked
      drainInputs againInputs)).setWorker a (some (.freeing none))) place' := by
  obtain ⟨ha, hfinished, hphase, hopen, hlt, hconfig⟩ := h.core.completing hpc
  obtain ⟨hdrained, hplaces, hframe⟩ := hfinished.drain fun pending active hrep =>
    drainTwiceLocked_spec hrep drainInputs againInputs
  refine ⟨_, h.keep (hdrained.setFreeing ((hplaces a).mpr (update_self _ _ _)) ?_
    (hphase.congr rfl rfl rfl) hopen _) rfl (hframe.restConcurrency.trans hconfig) fun b => ?_⟩
  · change a < ((s.finishActive a).client.drainTwiceLocked drainInputs againInputs).client.allocated
    rw [hframe.allocated]
    exact hlt
  · by_cases hb : b = a
    · simp [hb, ha]
    · rw [update_of_ne hb, hplaces b, update_of_ne hb]

theorem Inv.setWorker {pc' : WorkerPc} (h : Inv n s place) (hpc : s.workers a = some pc)
    (hfreeing : pc.isFreeing = false) (hfreeing' : pc'.isFreeing = false)
    (hphase : pc'.phase = pc.phase) (hundecided : pc'.undecided = true → pc.undecided = true) :
    Inv n (s.setWorker a (some pc')) place :=
  h.keep (h.core.setWorker hpc hfreeing hfreeing' hphase hundecided) rfl rfl fun _ => Iff.rfl

theorem Inv.settle (h : Inv n s place) (hpc : s.workers a = some pc)
    (hundecided : pc.undecided = true) (status : Status) : Inv n (s.settle a status) place := by
  refine h.keep (h.core.settle hpc hundecided status) ?_ ?_ fun _ => Iff.rfl <;>
    unfold AsyncSystem.settle <;> split <;> rfl

theorem Inv.retrying {status : Status} {captured : Captured} (h : Inv n s place)
    (hpc : s.workers a = some (.judged status captured)) (notBeforeMs : Nat) :
    Inv n ((s.modify a fun request =>
      { request with retryAttempt := request.retryAttempt + 1 }).setWorker a
        (some (.retrying notBeforeMs))) place := by
  have hcounted : Core (s.modify a fun request =>
      { request with retryAttempt := request.retryAttempt + 1 }) place :=
    h.core.modify a (fun _ => ⟨rfl, rfl, rfl, rfl, rfl⟩) fun _ hr => hr
  have hretrying : Core ((s.modify a fun request =>
      { request with retryAttempt := request.retryAttempt + 1 }).setWorker a
        (some (.retrying notBeforeMs))) place :=
    hcounted.setWorker hpc rfl rfl rfl fun _ => rfl
  exact h.keep hretrying rfl rfl fun _ => Iff.rfl

variable {stage : FinalStage}

theorem Inv.finalizeWorker {status : Status} (h : Inv n s place)
    (hpc : s.workers a = some (.finalizing status stage)) :
    Inv n ((s.finalizeStep a status stage).1.setWorker a
      (some (.finalizing status (s.finalizeStep a status stage).2))) place := by
  have helse := sameElse_finalizeStep s a status stage
  exact h.keep (h.core.finalizeWorker hpc) helse.accepted
    (congrArg AsyncClient.restConcurrency helse.client) fun _ => Iff.rfl

variable {pl : Place}

theorem update_place_none_iff {b : Addr} (ha : place a ≠ none) :
    update place a (some pl) b = none ↔ place b = none := by
  by_cases hb : b = a
  · simp [hb, ha]
  · simp [hb]

theorem Inv.freeWorker {canceler : Option Nat} (h : Inv n s place)
    (hpc : s.workers a = some (.freeing canceler)) (stats : RuntimeStats) :
    Inv n ((s.free a stats).setWorker a none) (update place a (some .finished)) := by
  have ha : place a = some .freeing := (h.core.placed.freeing a).mpr ⟨canceler, hpc⟩
  exact h.keep (h.core.freeWorker ha stats) rfl rfl fun b => update_place_none_iff (by simp [ha])

/-- **A worker step keeps the invariant**, at whatever point the worker is. -/
theorem Inv.workerStep (h : Inv n s place) (a : Addr) (input : WorkerInput) :
    ∃ place', Inv n (s.workerStep a input) place' := by
  rw [AsyncSystem.workerStep]
  split
  · exact ⟨place, h⟩
  · rename_i hpc
    split
    · exact ⟨place, h.setWorker hpc rfl rfl rfl fun _ => rfl⟩
    · exact ⟨place, h.setWorker hpc rfl rfl rfl fun _ => rfl⟩
  · rename_i status captured hpc
    exact ⟨place, h.setWorker hpc rfl rfl rfl fun _ => rfl⟩
  · rename_i status captured hpc
    split
    · exact ⟨place, h.retrying hpc _⟩
    · exact ⟨place, h.settle hpc rfl _⟩
  · rename_i notBeforeMs hpc
    split
    · exact ⟨place, h.settle hpc rfl _⟩
    · exact h.requeueRetry hpc input
  · rename_i status hpc
    exact ⟨place, h.setWorker hpc rfl rfl rfl nofun⟩
  · rename_i status stage hreturned hpc
    exact ⟨place, h.finalizeWorker hpc⟩
  · rename_i hpc
    rw [AsyncSystem.complete]
    by_cases hstopping : input.stopping = true
    · simp only [hstopping, if_true]
      exact ⟨_, h.completeStopping hpc⟩
    · simp only [hstopping]
      exact h.completeDraining hpc input.drainInputs input.againInputs
  · rename_i canceler hpc
    split
    · exact ⟨_, h.freeWorker hpc input.stats⟩
    · exact ⟨place, h⟩

/-! ## Cancelers -/

theorem Inv.pick (h : Inv n s place) (hcurrent : (s.cancelers k).current = none)
    (hchain : (s.cancelers k).chain = some a) :
    Inv n ({ s with client := s.client.setNext a none }.setCanceler k
      { chain := (s.client.requests a).next, current := some (a, .claim) })
      (update place a (some (.current k))) := by
  obtain ⟨ha, hcore⟩ := h.core.pick hcurrent hchain
  exact h.keep hcore rfl (frame_setNext s.client a none).restConcurrency
    fun b => update_place_none_iff (by simp [ha])

theorem Inv.freeCurrent (h : Inv n s place) (hcurrent : (s.cancelers k).current = some (a, .returned))
    (stats : RuntimeStats) :
    Inv n ((s.free a stats).setCanceler k { chain := (s.cancelers k).chain, current := none })
      (update place a (some .finished)) := by
  have ha : place a = some (.current k) := (h.core.placed.current k a).mpr ⟨.returned, hcurrent⟩
  exact h.keep (h.core.freeCurrent hcurrent stats) rfl rfl
    fun b => update_place_none_iff (by simp [ha])

theorem Inv.finalizeCurrent (h : Inv n s place)
    (hcurrent : (s.cancelers k).current = some (a, stage)) :
    Inv n ((s.finalizeStep a .canceled stage).1.setCanceler k
      { chain := (s.cancelers k).chain
        current := some (a, (s.finalizeStep a .canceled stage).2) }) place := by
  have helse := sameElse_finalizeStep s a .canceled stage
  exact h.keep (h.core.finalizeCurrent hcurrent) helse.accepted
    (congrArg AsyncClient.restConcurrency helse.client) fun _ => Iff.rfl

/-- **A canceler step keeps the invariant.** -/
theorem Inv.cancelerStep (h : Inv n s place) (k : Nat) (stats : RuntimeStats) :
    ∃ place', Inv n (s.cancelerStep k stats) place' := by
  rw [AsyncSystem.cancelerStep]
  split
  · rename_i hcurrent
    split
    · exact ⟨place, h⟩
    · rename_i a hchain
      exact ⟨_, h.pick hcurrent hchain⟩
  · rename_i a hcurrent
    exact ⟨_, h.freeCurrent hcurrent stats⟩
  · rename_i a stage hreturned hcurrent
    exact ⟨place, h.finalizeCurrent hcurrent⟩

/-! ## Callers -/

theorem Core.setAccepted (h : Core s place) (accepted : List Addr) :
    Core { s with accepted := accepted } place :=
  h.move (h.placed.congr rfl rfl rfl rfl rfl) rfl rfl rfl rfl h.marks
    (fun _ pl hb => ⟨pl, hb, by cases pl <;> rfl, id⟩) h.uncalled

/-- **A submission keeps the invariant**: the request is accepted just when it
has a place. -/
theorem Inv.submit (h : Inv n s place) (submission : Submission) :
    ∃ place', Inv n (s.submit submission) place' := by
  rw [AsyncSystem.submit]
  split
  · exact ⟨place, h⟩
  · rename_i hopen
    rw [Bool.not_eq_true] at hopen
    obtain ⟨hfresh, hcreated, hphase⟩ := h.core.create submission
    have hcalled : ((s.create submission).client.requests
        s.client.allocated).callbackCalled = false := by
      simp [AsyncSystem.create, AsyncRequest.new]
    have hpushed := hcreated.pushTail hfresh (Nat.lt_succ_self _) hphase hcalled hopen
    obtain ⟨pending, active, hrep, hpending, hactive⟩ := hpushed.placed.queue
    obtain ⟨pending', active', hdrained⟩ :=
      drainImplLocked_spec hrep (some s.client.allocated) submission.drainInputs
    have hconfig : _ = s.client.restConcurrency := hdrained.frame.restConcurrency.trans
      (restConcurrency_pushTail (s.create submission).client s.client.allocated)
    have hcore := hpushed.drained hpending hactive hdrained
    have hplaces := placeDrained_none_iff hpending hdrained
    simp only
    generalize AsyncClient.drainImplLocked _ (some s.client.allocated) submission.drainInputs = r
      at hdrained hcore hplaces hconfig ⊢
    split
    · rename_i hok
      refine ⟨_, hcore.setAccepted _, fun b => ?_, hconfig.trans h.configured⟩
      have hnone : ∀ b, r.rejected ≠ some b := fun b hb => hdrained.refused (by simp [hb]) hok
      rw [ne_eq, hplaces b]
      by_cases hb : b = s.client.allocated
      · simp [hb, hnone]
      · simp [hb, hnone, h.accepted b]
    · rename_i hfailed
      have hrejected := (hdrained.status rfl).resolve_left hfailed
      refine ⟨_, h.keep hcore rfl hconfig fun b => ?_⟩
      rw [hplaces b, hrejected]
      by_cases hb : b = s.client.allocated
      · simp [hb, hfresh]
      · simp [hb, Ne.symm hb]

theorem Inv.setClient {c : AsyncClient} (h : Inv n s place)
    (hqueue : ∀ pending active, QueueRep s.client pending active → QueueRep c pending active)
    (hframe : Frame s.client c fun _ => False) : Inv n { s with client := c } place :=
  h.keep (h.core.setClient hqueue hframe) rfl hframe.restConcurrency fun _ => Iff.rfl

theorem Inv.detachPending (h : Inv n s place) :
    Inv n s.detachPending (placeDetached place s.calls) := by
  obtain ⟨pending, active, hrep, -, -⟩ := h.core.placed.queue
  exact h.keep h.core.detachPending rfl hrep.pendingRep.detachAll.frame.restConcurrency
    fun b => placeDetached_none_iff

theorem Inv.requestCancel (h : Inv n s place) (a : Addr) (drainInputs againInputs : Nat → DrainInput) :
    ∃ place', Inv n (s.requestCancel a drainInputs againInputs) place' := by
  have hflag : Inv n { s with client := s.client.cancelRequest a } place :=
    h.setClient (fun _ _ hrep => hrep.cancelRequest a) (frame_cancelRequest _ a _)
  rw [AsyncSystem.requestCancel]
  split
  · exact ⟨place, h⟩
  · split
    · exact ⟨_, hflag.drain fun _ _ hrep => drainTwiceLocked_spec hrep drainInputs againInputs⟩
    · split
      · exact ⟨place, hflag⟩
      · exact ⟨place, h⟩

theorem Core.finished_of_idle (h : Core s place) (hidle : ∀ k, (s.cancelers k).isIdle = true)
    (hworker : s.workers a = none) (ha : place a = some pl)
    (hpending : ∀ p, pl ≠ .pending p) : pl = .finished := by
  simp only [Canceler.isIdle, Bool.and_eq_true, Option.isNone_iff_eq_none] at hidle
  cases pl with
  | pending p => exact absurd rfl (hpending p)
  | active =>
    obtain ⟨pc, hpc, -⟩ := (h.placed.working a).mp ha
    rw [hworker] at hpc
    exact absurd hpc nofun
  | freeing =>
    obtain ⟨k, hk⟩ := (h.placed.freeing a).mp ha
    rw [hworker] at hk
    exact absurd hk nofun
  | detached k =>
    obtain ⟨l, hl, hmem⟩ := h.placed.chain k
    rw [(hidle k).1] at hl
    have hnil : l = [] := hl.unique rfl
    have hal := (hmem a).mpr ha
    simp [hnil] at hal
  | current k =>
    obtain ⟨stage, hstage⟩ := (h.placed.current k a).mp ha
    rw [(hidle k).2] at hstage
    exact absurd hstage nofun
  | finished => rfl

theorem Core.finished_of_quiescent (h : Core s place) (hquiet : s.quiescent = true)
    (ha : place a = some pl) : pl = .finished := by
  simp only [quiescent, Bool.and_eq_true, List.all_eq_true, List.mem_range, beq_iff_eq] at hquiet
  obtain ⟨⟨⟨-, hheads⟩, hworkers⟩, hcancelers⟩ := hquiet
  have hidle : ∀ k, (s.cancelers k).isIdle = true := by
    intro k
    by_cases hk : k < s.calls
    · exact hcancelers k hk
    · rw [h.placed.unused k (by omega)]
      rfl
  have hworker : s.workers a = none := by
    have hnone := hworkers a (h.placed.allocated a (by simp [ha]))
    simpa using hnone
  refine h.finished_of_idle hidle hworker ha ?_
  rintro p rfl
  obtain ⟨pending, active, hrep, hpending, -⟩ := h.placed.queue
  have hhead : s.client.heads p = none := by
    have hnone := hheads p (by cases p <;> simp)
    simpa using hnone
  have hseg := (hrep.pendingRep.listed p).seg
  rw [hhead] at hseg
  have hnil : pending p = [] := hseg.unique rfl
  have hmem := (hpending p a).mpr ha
  simp [hnil] at hmem

/-- **Every step keeps the invariant.** -/
theorem Inv.step (h : Inv n s place) (action : Action) : ∃ place', Inv n (s.step action) place' := by
  cases action with
  | submit submission => exact h.submit submission
  | drain inputs => exact ⟨_, h.drain fun _ _ hrep => drainImplLocked_spec hrep none inputs⟩
  | response route response now =>
    exact ⟨place, h.setClient (fun _ _ hrep => hrep.setLimits _) (Frame.setLimits _ _ _)⟩
  | requestCancel a drainInputs againInputs => exact h.requestCancel a drainInputs againInputs
  | cancelPending => exact ⟨_, h.detachPending⟩
  | cancelActive =>
    obtain ⟨pending, active, hrep, -, -⟩ := h.core.placed.queue
    exact ⟨place, h.setClient (fun _ _ hrep => hrep.cancelActive.1) (hrep.cancelActive.2 _)⟩
  | cancelAll =>
    obtain ⟨pending, active, hrep, -, -⟩ := h.core.placed.queue
    have hflags := h.setClient (fun _ _ hrep => hrep.cancelActive.1) (hrep.cancelActive.2 _)
    exact ⟨_, hflags.detachPending⟩
  | worker a input => exact h.workerStep a input
  | canceler k stats => exact h.cancelerStep k stats
  | close =>
    rw [AsyncSystem.step]
    split
    · rename_i hquiet
      refine ⟨place, ⟨h.core.placed.congr rfl rfl rfl rfl rfl, fun b pl hb => ?_,
        h.core.uncalled, fun _ b pl hb => h.core.finished_of_quiescent hquiet hb, h.core.marks⟩,
        h.accepted, h.configured⟩
      have hphase : phaseAt { s with closed := true } b pl = phaseAt s b pl := by cases pl <;> rfl
      rw [hphase]
      exact (h.core.atPhase b pl hb).congr rfl rfl rfl
    · exact ⟨place, h⟩

/-- **Every run keeps the invariant.** -/
theorem inv_run (restConcurrency : Nat) (resourceLimits : ResourceLimits) (actions : List Action) :
    ∃ place, Inv restConcurrency (run restConcurrency resourceLimits actions) place := by
  have hfrom : ∀ (actions : List Action) {s : AsyncSystem} {place : Addr → Option Place},
      Inv restConcurrency s place →
        ∃ place', Inv restConcurrency (actions.foldl AsyncSystem.step s) place' := by
    intro actions
    induction actions with
    | nil => exact fun h => ⟨_, h⟩
    | cons action actions ih =>
      intro s place h
      obtain ⟨place', h'⟩ := h.step action
      exact ih h'
  exact hfrom actions ⟨core_init _ _, by simp [init], rfl⟩

/-! ## Conservation -/

/-- Where a request is, read off the lists, the workers and the cancelers. -/
def At (s : AsyncSystem) (pending : Priority → List Addr) (active : List Addr) (a : Addr) :
    Place → Prop
  | .pending p => a ∈ pending p
  | .active => a ∈ active
  | .freeing => ∃ canceler, s.workers a = some (.freeing canceler)
  | .detached k => ∃ l, Seg s.client.nextOf (s.cancelers k).chain l none ∧ a ∈ l
  | .current k => ∃ stage, (s.cancelers k).current = some (a, stage)
  | .finished => a ∈ s.finished

/-- The queues of a client configured with concurrency `n` hold its accepted
requests: `pending` and `active` are what the links lead through. -/
structure Conserved (n : Nat) (s : AsyncSystem) (pending : Priority → List Addr)
    (active : List Addr) : Prop where
  listed : ∀ p, Listed s.client.nextOf (s.client.heads p) (s.client.tails p) (pending p)
  tail_none_iff : ∀ p, s.client.tails p = none ↔ s.client.heads p = none
  pending_nodup : ∀ p, (pending p).Nodup
  own_priority : ∀ p, ∀ a ∈ pending p, (s.client.requests a).priority = p
  activeListed : Seg s.client.activeNextOf s.client.activeHead active none
  active_nodup : active.Nodup
  count : s.client.active = active.length
  count_le : s.client.active ≤ s.client.concurrency
  concurrency_eq : s.client.restConcurrency = n
  concurrency_le : s.client.concurrency ≤ bucketCap
  placed : ∀ a, (∃ pl, s.At pending active a pl) → a ∈ s.accepted
  one_place : ∀ a ∈ s.accepted, ∃! pl, s.At pending active a pl

theorem Placed.at_iff {pending : Priority → List Addr} {active : List Addr} (h : Placed s place)
    (hpending : ∀ p a, a ∈ pending p ↔ place a = some (.pending p))
    (hactive : ∀ a, a ∈ active ↔ place a = some .active) (pl : Place) :
    s.At pending active a pl ↔ place a = some pl := by
  cases pl with
  | pending p => exact hpending p a
  | active => exact hactive a
  | freeing => exact (h.freeing a).symm
  | detached k =>
    obtain ⟨l, hl, hmem⟩ := h.chain k
    rw [← hmem a]
    constructor
    · rintro ⟨l', hl', ha⟩
      rwa [hl.unique hl']
    · intro ha
      exact ⟨l, hl, ha⟩
  | current k => exact (h.current k a).symm
  | finished => exact (h.finished a).symm

/-- **Conservation.**  After every run the links of a client hold its accepted
requests: each is in exactly one place, in the pending list of its own priority,
in the active list, or out of the queues with the party that will free it or
freed; the head and tail pointers and the counter agree with the lists, and the
counter stays within the concurrency. -/
theorem queue_conservation (restConcurrency : Nat) (resourceLimits : ResourceLimits)
    (actions : List Action) :
    ∃ pending active,
      Conserved restConcurrency (run restConcurrency resourceLimits actions) pending active := by
  obtain ⟨place, h⟩ := inv_run restConcurrency resourceLimits actions
  obtain ⟨pending, active, hrep, hpending, hactive⟩ := h.core.placed.queue
  have hat : ∀ a pl, At _ pending active a pl ↔ place a = some pl := fun a pl =>
    h.core.placed.at_iff hpending hactive pl
  refine ⟨pending, active, hrep.pendingRep.listed,
    fun p => (hrep.pendingRep.listed p).tail_none_iff, fun p => (hrep.pendingRep.listed p).nodup,
    hrep.pendingRep.priority, hrep.activeRep.seg, hrep.activeRep.nodup, hrep.activeRep.count,
    hrep.activeRep.count_le, h.configured, concurrency_le _, fun a ha => ?_, fun a ha => ?_⟩
  · obtain ⟨pl, hpl⟩ := ha
    rw [h.accepted, (hat a pl).mp hpl]
    simp
  · obtain ⟨pl, hpl⟩ := Option.ne_none_iff_exists'.mp ((h.accepted a).mp ha)
    refine ⟨pl, (hat a pl).mpr hpl, fun pl' hpl' => ?_⟩
    have hsame := (hat a pl').mp hpl'
    rw [hpl] at hsame
    exact (Option.some.inj hsame).symm

/-! ## Routes -/

/-- **Exclusion of routes.**  After every run the active routes are free of
duplicates and are exactly the routes that active requests have claimed; no two
active requests have claimed one route; and no drain has seen the marking of a
route fail. -/
theorem route_exclusion (restConcurrency : Nat) (resourceLimits : ResourceLimits)
    (actions : List Action) :
    ∃ active, Seg (run restConcurrency resourceLimits actions).client.activeNextOf
        (run restConcurrency resourceLimits actions).client.activeHead active none ∧
      (run restConcurrency resourceLimits actions).client.activeRoutes.Nodup ∧
      (∀ route, route ∈ (run restConcurrency resourceLimits actions).client.activeRoutes ↔
        ∃ a ∈ active,
          ((run restConcurrency resourceLimits actions).client.requests a).routeClaimed = true ∧
          ((run restConcurrency resourceLimits actions).client.requests a).route = route) ∧
      (∀ a ∈ active, ∀ b ∈ active,
        ((run restConcurrency resourceLimits actions).client.requests a).routeClaimed = true →
        ((run restConcurrency resourceLimits actions).client.requests b).routeClaimed = true →
        ((run restConcurrency resourceLimits actions).client.requests a).route =
          ((run restConcurrency resourceLimits actions).client.requests b).route → a = b) ∧
      Status.state ∉ (run restConcurrency resourceLimits actions).marks := by
  obtain ⟨place, h⟩ := inv_run restConcurrency resourceLimits actions
  obtain ⟨pending, active, hrep, -, -⟩ := h.core.placed.queue
  refine ⟨active, hrep.activeRep.seg, hrep.routesRep.nodup, hrep.routesRep.mem_iff,
    fun a ha b hb haclaimed hbclaimed hroute =>
      hrep.routesRep.claimed_unique ha hb haclaimed hbclaimed hroute, fun hstate => ?_⟩
  exact absurd (h.core.marks _ hstate) nofun

end Dcc.Rest.AsyncSystem
