import Dcc.Rest.AsyncPlaces

/-!
# Delivery of asynchronous requests

The delivery of a request goes through four phases: nobody has claimed its
handle, the handle is claimed, the callback has been invoked, the result is
published.  `Core s place` says that the places are right and that every placed
request is in the phase its place and its party stand for.  Each operation of
the system keeps it; the parties claim a handle only while it is unclaimed
because a request is in one place only.
-/

namespace Dcc.Rest

open Linked Function AsyncClient

/-- The phases of a delivery. -/
inductive Phase
  | before
  | claimed
  | called
  | done
  deriving DecidableEq

/-- The phase a finalization is in at a stage. -/
def FinalStage.phase : FinalStage → Phase
  | .claim => .before
  | .deliver => .claimed
  | .publish => .called
  | .returned => .done

/-- The phase the request of a worker is in. -/
def WorkerPc.phase : WorkerPc → Phase
  | .finalizing _ stage => stage.phase
  | .completing => .done
  | .freeing _ => .done
  | _ => .before

/-- A worker that has not begun to finalize. -/
def WorkerPc.undecided : WorkerPc → Bool
  | .start => true
  | .performed _ _ => true
  | .judged _ _ => true
  | .retrying _ => true
  | _ => false

namespace AsyncSystem

variable {s s' : AsyncSystem} {place place' : Addr → Option Place} {a : Addr} {k : Nat}
  {pc : WorkerPc} {phase : Phase}

/-- The phase a request in a place is in. -/
def phaseAt (s : AsyncSystem) (a : Addr) : Place → Phase
  | .pending _ => .before
  | .detached _ => .before
  | .active => ((s.workers a).map WorkerPc.phase).getD .before
  | .freeing => .done
  | .current k => ((s.cancelers k).current.map fun current => current.2.phase).getD .before
  | .finished => .done

/-- The handle of a request and its counters stand at a phase. -/
structure AtPhase (s : AsyncSystem) (a : Addr) (phase : Phase) : Prop where
  claimed : (s.handles a).terminalClaimed = true ↔ phase ≠ .before
  completed : (s.handles a).completed = true ↔ phase = .done
  callbacks : s.callbacks a =
    if (s.handles a).hasCallback = true ∧ (phase = .called ∨ phase = .done) then 1 else 0
  terminals : s.terminals a = if phase = .done then 1 else 0

/-- The places are right, and every request is in the phase of its place. -/
structure Core (s : AsyncSystem) (place : Addr → Option Place) : Prop where
  placed : Placed s place
  atPhase : ∀ a pl, place a = some pl → AtPhase s a (phaseAt s a pl)
  uncalled : ∀ a, (∃ p, place a = some (.pending p)) ∨
    (∃ pc, s.workers a = some pc ∧ pc.undecided = true) →
      (s.client.requests a).callbackCalled = false
  closed : s.closed = true → ∀ a pl, place a = some pl → pl = .finished
  marks : ∀ m ∈ s.marks, m = .ok

theorem core_init (restConcurrency : Nat) (resourceLimits : ResourceLimits) :
    Core (init restConcurrency resourceLimits) fun _ => none where
  placed := placed_init _ _
  atPhase := nofun
  uncalled := by
    rintro a (⟨p, hp⟩ | ⟨pc, hpc, -⟩)
    · exact absurd hp nofun
    · exact absurd hpc nofun
  closed := nofun
  marks := nofun

theorem AtPhase.congr (h : AtPhase s a phase) (hhandles : s'.handles a = s.handles a)
    (hcallbacks : s'.callbacks a = s.callbacks a) (hterminals : s'.terminals a = s.terminals a) :
    AtPhase s' a phase := by
  refine ⟨?_, ?_, ?_, ?_⟩
  · rw [hhandles]
    exact h.claimed
  · rw [hhandles]
    exact h.completed
  · rw [hcallbacks, hhandles]
    exact h.callbacks
  · rw [hterminals]
    exact h.terminals

theorem Core.active (h : Core s place) (hpc : s.workers a = some pc)
    (hfreeing : pc.isFreeing = false) : place a = some .active :=
  (h.placed.working a).mpr ⟨pc, hpc, hfreeing⟩

theorem Core.workerPhase (h : Core s place) (hpc : s.workers a = some pc)
    (hfreeing : pc.isFreeing = false) : AtPhase s a pc.phase := by
  have hphase := h.atPhase a .active (h.active hpc hfreeing)
  rwa [phaseAt, hpc] at hphase

theorem Core.move (h : Core s place) (hplaced : Placed s' place')
    (hhandles : s'.handles = s.handles) (hcallbacks : s'.callbacks = s.callbacks)
    (hterminals : s'.terminals = s.terminals) (hclosed : s'.closed = s.closed)
    (hmarks : ∀ m ∈ s'.marks, m = .ok)
    (hphase : ∀ a pl', place' a = some pl' →
      ∃ pl, place a = some pl ∧ phaseAt s' a pl' = phaseAt s a pl ∧ (pl = .finished → pl' = .finished))
    (huncalled : ∀ a, (∃ p, place' a = some (.pending p)) ∨
      (∃ pc, s'.workers a = some pc ∧ pc.undecided = true) →
        (s'.client.requests a).callbackCalled = false) : Core s' place' where
  placed := hplaced
  atPhase b pl' hb := by
    obtain ⟨pl, hpl, heq, -⟩ := hphase b pl' hb
    rw [heq]
    exact (h.atPhase b pl hpl).congr (congrFun hhandles b) (congrFun hcallbacks b)
      (congrFun hterminals b)
  uncalled := huncalled
  closed hs b pl' hb := by
    obtain ⟨pl, hpl, -, hfinished⟩ := hphase b pl' hb
    rw [hclosed] at hs
    exact hfinished (h.closed hs b pl hpl)
  marks := hmarks

theorem Core.setClient {c : AsyncClient} (h : Core s place)
    (hqueue : ∀ pending active, QueueRep s.client pending active → QueueRep c pending active)
    (hframe : Frame s.client c fun _ => False) : Core { s with client := c } place := by
  have hnext : c.nextOf = s.client.nextOf := funext fun b => hframe.next b not_false
  refine h.move (h.placed.setClient hqueue hnext hframe.allocated) rfl rfl rfl rfl h.marks
    (fun b pl hb => ⟨pl, hb, rfl, id⟩) fun b hb => ?_
  change (c.requests b).callbackCalled = false
  rw [hframe.callbackCalled]
  exact h.uncalled b hb

/-! ## Drains -/

theorem Core.drained {pending pending' : Priority → List Addr} {active active' : List Addr}
    {admission : Option Addr} {r : DrainResult} (h : Core s place)
    (hpending : ∀ p a, a ∈ pending p ↔ place a = some (.pending p))
    (hactive : ∀ a, a ∈ active ↔ place a = some .active)
    (hr : Drained s.client pending active admission r pending' active') :
    Core (s.drained r) (placeDrained place r) := by
  have hwas : ∀ b ∈ r.spawned, ∃ p, place b = some (.pending p) := by
    intro b hb
    obtain ⟨p, hp⟩ := hr.spawned b hb
    exact ⟨p, (hpending p b).mp hp⟩
  have hworkers : ∀ b, (s.drained r).workers b =
      if b ∈ r.spawned then some WorkerPc.start else s.workers b := fun _ => rfl
  refine h.move (h.placed.drained hpending hactive hr) rfl rfl rfl rfl ?_ ?_ ?_
  · intro m hm
    rcases List.mem_append.mp hm with hm | hm
    · exact h.marks m hm
    · exact hr.marks m hm
  · intro b pl' hb
    unfold placeDrained at hb
    by_cases hspawned : b ∈ r.spawned
    · -- a new worker is where a pending request was
      obtain ⟨p, hp⟩ := hwas b hspawned
      obtain rfl : Place.active = pl' := by simpa [hspawned] using hb
      refine ⟨.pending p, hp, ?_, nofun⟩
      simp [phaseAt, hworkers, hspawned, WorkerPc.phase]
    · by_cases hrejected : r.rejected = some b
      · simp [hspawned, hrejected] at hb
      · simp only [hspawned, hrejected, if_false] at hb
        refine ⟨pl', hb, ?_, id⟩
        cases pl' with
        | active => simp [phaseAt, hworkers, hspawned]
        | _ => rfl
  · intro b hb
    change (r.client.requests b).callbackCalled = false
    rw [hr.frame.callbackCalled]
    refine h.uncalled b ?_
    rcases hb with ⟨p, hp⟩ | ⟨pc, hpc, hundecided⟩
    · refine Or.inl ⟨p, ?_⟩
      unfold placeDrained at hp
      split at hp
      · simp at hp
      · split at hp
        · simp at hp
        · exact hp
    · rw [hworkers] at hpc
      by_cases hspawned : b ∈ r.spawned
      · exact Or.inl (hwas b hspawned)
      · rw [if_neg hspawned] at hpc
        exact Or.inr ⟨pc, hpc, hundecided⟩

/-! ## Operations of the parties -/

theorem Core.detachPending (h : Core s place) :
    Core s.detachPending (placeDetached place s.calls) := by
  obtain ⟨pending, active, hrep, -, -⟩ := h.placed.queue
  have hframe := hrep.pendingRep.detachAll.frame
  refine h.move h.placed.detachPending rfl rfl rfl rfl h.marks ?_ ?_
  · intro b pl' hb
    unfold placeDetached at hb
    split at hb
    · rename_i p hp
      obtain rfl : Place.detached s.calls = pl' := by simpa using hb
      exact ⟨.pending p, hp, rfl, nofun⟩
    · refine ⟨pl', hb, ?_, id⟩
      cases pl' with
      | current k =>
        have hk : k ≠ s.calls := by
          rintro rfl
          obtain ⟨stage, hstage⟩ := (h.placed.current _ b).mp hb
          rw [h.placed.unused _ (Nat.le_refl _)] at hstage
          exact absurd hstage nofun
        simp [phaseAt, AsyncSystem.detachPending, hk]
      | _ => rfl
  · intro b hb
    change (s.client.detachPendingAllLocked.1.requests b).callbackCalled = false
    rw [hframe.callbackCalled]
    refine h.uncalled b (hb.imp_left ?_)
    rintro ⟨p, hp⟩
    unfold placeDetached at hp
    split at hp
    · simp at hp
    · exact ⟨p, hp⟩

theorem Core.finishActive (h : Core s place) (ha : place a = some .active) :
    Core (s.finishActive a) (update place a none) ∧
      (∀ phase, AtPhase s a phase → AtPhase (s.finishActive a) a phase) ∧
      Frame s.client (s.finishActive a).client fun _ => False := by
  obtain ⟨pending, active, hrep, -, hactive⟩ := h.placed.queue
  have hframe := (hrep.finishActive ((hactive a).mpr ha)).2 fun _ => False
  refine ⟨h.move (h.placed.finishActive ha) rfl rfl rfl rfl h.marks ?_ ?_,
    fun phase hphase => hphase.congr rfl rfl rfl, hframe⟩
  · intro b pl' hb
    by_cases hba : b = a
    · simp [hba] at hb
    · rw [update_of_ne hba] at hb
      refine ⟨pl', hb, ?_, id⟩
      cases pl' with
      | active => simp [phaseAt, AsyncSystem.finishActive, AsyncSystem.setWorker, hba]
      | _ => rfl
  · intro b hb
    change ((s.client.finishActiveLocked a).requests b).callbackCalled = false
    rw [hframe.callbackCalled]
    refine h.uncalled b ?_
    by_cases hba : b = a
    · subst hba
      simp [AsyncSystem.finishActive, AsyncSystem.setWorker] at hb
    · simpa [AsyncSystem.finishActive, AsyncSystem.setWorker, hba] using hb

theorem Core.pushTail (h : Core s place) (ha : place a = none) (hlt : a < s.client.allocated)
    (hphase : AtPhase s a .before) (hcalled : (s.client.requests a).callbackCalled = false)
    (hopen : s.closed = false) :
    Core { s with client := s.client.pushTailLocked a }
      (update place a (some (.pending (s.client.requests a).priority))) := by
  obtain ⟨pending, active, hrep, -, -⟩ := h.placed.queue
  have hframe := hrep.pendingRep.pushTail_frame (a := a) rfl
  refine ⟨h.placed.pushTail ha rfl hlt, fun b pl hb => ?_, fun b hb => ?_, fun hs => ?_, h.marks⟩
  · by_cases hba : b = a
    · subst hba
      obtain rfl : Place.pending _ = pl := by simpa using hb
      exact hphase.congr rfl rfl rfl
    · rw [update_of_ne hba] at hb
      have hold : phaseAt { s with client := s.client.pushTailLocked a } b pl = phaseAt s b pl := by
        cases pl <;> rfl
      rw [hold]
      exact (h.atPhase b pl hb).congr rfl rfl rfl
  · change ((s.client.pushTailLocked a).requests b).callbackCalled = false
    rw [hframe.callbackCalled]
    by_cases hba : b = a
    · rw [hba]
      exact hcalled
    · exact h.uncalled b (by simpa [hba] using hb)
  · exact absurd (hopen.symm.trans hs) nofun

theorem Core.setFreeing (h : Core s place) (ha : place a = none) (hlt : a < s.client.allocated)
    (hphase : AtPhase s a .done) (hopen : s.closed = false) (canceler : Option Nat) :
    Core (s.setWorker a (some (.freeing canceler))) (update place a (some .freeing)) := by
  refine ⟨h.placed.setFreeing ha hlt canceler, fun b pl hb => ?_, fun b hb => ?_, fun hs => ?_,
    h.marks⟩
  · by_cases hba : b = a
    · subst hba
      obtain rfl : Place.freeing = pl := by simpa using hb
      exact hphase.congr rfl rfl rfl
    · rw [update_of_ne hba] at hb
      have hold : phaseAt (s.setWorker a (some (.freeing canceler))) b pl = phaseAt s b pl := by
        cases pl with
        | active => simp [phaseAt, AsyncSystem.setWorker, hba]
        | _ => rfl
      rw [hold]
      exact (h.atPhase b pl hb).congr rfl rfl rfl
  · refine h.uncalled b ?_
    by_cases hba : b = a
    · subst hba
      simp [AsyncSystem.setWorker, WorkerPc.undecided] at hb
    · simpa [AsyncSystem.setWorker, hba] using hb
  · cases hopen.symm.trans hs

theorem Core.open_of_active (h : Core s place) (ha : place a = some .active) : s.closed = false := by
  by_contra hclosed
  rw [Bool.not_eq_false] at hclosed
  exact absurd (h.closed hclosed a _ ha) nofun

theorem Core.setWorker {pc' : WorkerPc} (h : Core s place) (hpc : s.workers a = some pc)
    (hfreeing : pc.isFreeing = false) (hfreeing' : pc'.isFreeing = false)
    (hphase : pc'.phase = pc.phase) (hundecided : pc'.undecided = true → pc.undecided = true) :
    Core (s.setWorker a (some pc')) place := by
  have ha := h.active hpc hfreeing
  refine h.move (h.placed.setWorker ha hfreeing') rfl rfl rfl rfl h.marks
    (fun b pl hb => ⟨pl, hb, ?_, id⟩) fun b hb => h.uncalled b (hb.imp_right ?_)
  · cases pl with
    | active =>
      by_cases hba : b = a
      · subst hba
        simp [phaseAt, AsyncSystem.setWorker, hpc, hphase]
      · simp [phaseAt, AsyncSystem.setWorker, hba]
    | _ => rfl
  · rintro ⟨pc₁, hpc₁, hpending⟩
    by_cases hba : b = a
    · subst hba
      obtain rfl : pc' = pc₁ := by simpa [AsyncSystem.setWorker] using hpc₁
      exact ⟨pc, hpc, hundecided hpending⟩
    · exact ⟨pc₁, by simpa [AsyncSystem.setWorker, hba] using hpc₁, hpending⟩

theorem Core.settle (h : Core s place) (hpc : s.workers a = some pc)
    (hundecided : pc.undecided = true) (status : Status) : Core (s.settle a status) place := by
  have hfreeing : pc.isFreeing = false := by
    cases pc with
    | freeing k => exact absurd hundecided nofun
    | _ => rfl
  have hphase : pc.phase = .before := by
    cases pc with
    | finalizing status stage => exact absurd hundecided nofun
    | completing => exact absurd hundecided nofun
    | freeing k => exact absurd hundecided nofun
    | _ => rfl
  have ha := h.active hpc hfreeing
  have hcalled := h.uncalled a (Or.inr ⟨pc, hpc, hundecided⟩)
  have hmodified : Placed (s.modify a fun request => { request with callbackCalled := true })
      place := h.placed.modify a fun _ => ⟨rfl, rfl, rfl, rfl, rfl⟩
  have hplaced := hmodified.setWorker ha
    (show (WorkerPc.finalizing status .claim).isFreeing = false from rfl)
  have hclaim : (WorkerPc.finalizing status .claim).phase = .before := rfl
  simp only [AsyncSystem.settle, hcalled]
  refine h.move hplaced rfl rfl rfl rfl h.marks (fun b pl hb => ⟨pl, hb, ?_, id⟩) fun b hb => ?_
  · cases pl with
    | active =>
      by_cases hba : b = a
      · subst hba
        simp [phaseAt, AsyncSystem.setWorker, hpc, hphase, hclaim]
      · simp [phaseAt, AsyncSystem.setWorker, hba]
    | _ => rfl
  · by_cases hba : b = a
    · subst hba
      simp [ha, AsyncSystem.setWorker, WorkerPc.undecided] at hb
    · have hbefore : (∃ p, place b = some (.pending p)) ∨
          ∃ pc, s.workers b = some pc ∧ pc.undecided = true := by
        simpa [AsyncSystem.setWorker, hba] using hb
      have hrequest := modify_requests s.client a (fun request =>
        { request with callbackCalled := true }) b
      rw [if_neg hba] at hrequest
      exact (congrArg AsyncRequest.callbackCalled hrequest).trans (h.uncalled b hbefore)

/-! ## Finalization -/

variable {stage : FinalStage}

theorem AtPhase.finalizeStep (h : AtPhase s a stage.phase)
    (hopen : s.closed = false) (status : Status) :
    AtPhase (s.finalizeStep a status stage).1 a (s.finalizeStep a status stage).2.phase := by
  obtain ⟨hclaimed, hcompleted, hcallbacks, hterminals⟩ := h
  cases stage with
  | claim =>
    have hfree : (s.handles a).terminalClaimed = false := by
      simpa [FinalStage.phase] using hclaimed
    have hnotCompleted : (s.handles a).completed = false := by
      simpa [FinalStage.phase] using hcompleted
    have hstep : s.finalizeStep a status .claim = ({ s with
            handles := update s.handles a
              { s.handles a with terminalClaimed := true, result := some status } }, .deliver) := by
      simp [AsyncSystem.finalizeStep, hfree]
    rw [hstep]
    refine ⟨?_, ?_, ?_, hterminals⟩
    · simp [FinalStage.phase]
    · simp [FinalStage.phase, hnotCompleted]
    · simpa [FinalStage.phase] using hcallbacks
  | deliver =>
    by_cases hcallback : (s.handles a).hasCallback = true
    · have hstep : s.finalizeStep a status .deliver =
          ({ s with callbacks := update s.callbacks a (s.callbacks a + 1) }, .publish) := by
        simp [AsyncSystem.finalizeStep, hopen, hcallback]
      rw [hstep]
      refine ⟨?_, ?_, ?_, hterminals⟩
      · simpa [FinalStage.phase] using hclaimed
      · simpa [FinalStage.phase] using hcompleted
      · have hzero : s.callbacks a = 0 := by simpa [FinalStage.phase] using hcallbacks
        simp [FinalStage.phase, hcallback, hzero]
    · have hstep : s.finalizeStep a status .deliver = (s, .publish) := by
        simp [AsyncSystem.finalizeStep, hcallback]
      rw [hstep]
      refine ⟨?_, ?_, ?_, hterminals⟩
      · simpa [FinalStage.phase] using hclaimed
      · simpa [FinalStage.phase] using hcompleted
      · simpa [FinalStage.phase, hcallback] using hcallbacks
  | publish =>
    have hzero : s.terminals a = 0 := by simpa [FinalStage.phase] using hterminals
    refine ⟨?_, ?_, ?_, ?_⟩
    · simpa [AsyncSystem.finalizeStep, FinalStage.phase] using hclaimed
    · simp [AsyncSystem.finalizeStep, FinalStage.phase]
    · simpa [AsyncSystem.finalizeStep, FinalStage.phase] using hcallbacks
    · simp [AsyncSystem.finalizeStep, FinalStage.phase, hzero]
  | returned => exact ⟨hclaimed, hcompleted, hcallbacks, hterminals⟩

/-- A finalization touches the handle and the counters of its request only. -/
structure SameElse (s s' : AsyncSystem) (a : Addr) : Prop where
  client : s'.client = s.client
  workers : s'.workers = s.workers
  cancelers : s'.cancelers = s.cancelers
  calls : s'.calls = s.calls
  closed : s'.closed = s.closed
  accepted : s'.accepted = s.accepted
  finished : s'.finished = s.finished
  marks : s'.marks = s.marks
  handles : ∀ b, b ≠ a → s'.handles b = s.handles b
  callbacks : ∀ b, b ≠ a → s'.callbacks b = s.callbacks b
  terminals : ∀ b, b ≠ a → s'.terminals b = s.terminals b

theorem sameElse_finalizeStep (s : AsyncSystem) (a : Addr) (status : Status) (stage : FinalStage) :
    SameElse s (s.finalizeStep a status stage).1 a := by
  have hrefl : SameElse s s a :=
    ⟨rfl, rfl, rfl, rfl, rfl, rfl, rfl, rfl, fun _ _ => rfl, fun _ _ => rfl, fun _ _ => rfl⟩
  cases stage with
  | claim =>
    rw [finalizeStep]
    split
    · exact hrefl
    · exact { hrefl with handles := fun b hb => update_of_ne hb _ _ }
  | deliver =>
    rw [finalizeStep]
    split
    · exact hrefl
    · exact { hrefl with callbacks := fun b hb => update_of_ne hb _ _ }
  | publish =>
    exact { hrefl with
      handles := fun b hb => update_of_ne hb _ _
      terminals := fun b hb => update_of_ne hb _ _ }
  | returned => exact hrefl

theorem Core.finalize {pl : Place} {status : Status} (h : Core s place)
    (ha : place a = some pl) (hpl : pl ≠ .finished) (hstage : phaseAt s a pl = stage.phase)
    (hplaced : Placed s' place)
    (hclient : s'.client = s.client) (hclosed : s'.closed = s.closed) (hmarks : s'.marks = s.marks)
    (hhandles : s'.handles = (s.finalizeStep a status stage).1.handles)
    (hcallbacks : s'.callbacks = (s.finalizeStep a status stage).1.callbacks)
    (hterminals : s'.terminals = (s.finalizeStep a status stage).1.terminals)
    (hnext : phaseAt s' a pl = (s.finalizeStep a status stage).2.phase)
    (hothers : ∀ b pl, b ≠ a → place b = some pl → phaseAt s' b pl = phaseAt s b pl)
    (hworkers : ∀ b pc, s'.workers b = some pc → pc.undecided = true → s.workers b = some pc) :
    Core s' place := by
  have helse := sameElse_finalizeStep s a status stage
  have hopen : s.closed = false := by
    by_contra hne
    rw [Bool.not_eq_false] at hne
    exact hpl (h.closed hne a pl ha)
  refine ⟨hplaced, fun b pl' hb => ?_, fun b hb => ?_, fun hs b pl' hb => ?_, fun m hm => ?_⟩
  · by_cases hba : b = a
    · subst hba
      obtain rfl : pl = pl' := by simpa [ha] using hb
      have hphase := h.atPhase b pl ha
      rw [hstage] at hphase
      rw [hnext]
      exact (hphase.finalizeStep hopen status).congr (congrFun hhandles b) (congrFun hcallbacks b)
        (congrFun hterminals b)
    · rw [hothers b pl' hba hb]
      exact (h.atPhase b pl' hb).congr ((congrFun hhandles b).trans (helse.handles b hba))
        ((congrFun hcallbacks b).trans (helse.callbacks b hba))
        ((congrFun hterminals b).trans (helse.terminals b hba))
  · rw [hclient]
    refine h.uncalled b (hb.imp_right ?_)
    rintro ⟨pc, hpc, hundecided⟩
    exact ⟨pc, hworkers b pc hpc hundecided, hundecided⟩
  · rw [hclosed, hopen] at hs
    exact absurd hs nofun
  · rw [hmarks] at hm
    exact h.marks m hm

theorem Core.finalizeWorker {status : Status} (h : Core s place)
    (hpc : s.workers a = some (.finalizing status stage)) :
    Core ((s.finalizeStep a status stage).1.setWorker a
      (some (.finalizing status (s.finalizeStep a status stage).2))) place := by
  have ha := h.active hpc rfl
  have helse := sameElse_finalizeStep s a status stage
  have hplaced := (h.placed.congr helse.client helse.workers helse.cancelers helse.calls
    helse.finished).setWorker ha
    (show (WorkerPc.finalizing status (s.finalizeStep a status stage).2).isFreeing = false from rfl)
  refine h.finalize ha (by simp) ?_ hplaced helse.client helse.closed helse.marks rfl rfl rfl ?_
    (fun b pl hba _ => ?_) fun b pc hb hundecided => ?_
  · simp [phaseAt, hpc, WorkerPc.phase]
  · simp [phaseAt, AsyncSystem.setWorker, WorkerPc.phase]
  · cases pl with
    | active => simp [phaseAt, AsyncSystem.setWorker, hba, helse.workers]
    | current k => simp [phaseAt, AsyncSystem.setWorker, helse.cancelers]
    | _ => rfl
  · by_cases hba : b = a
    · subst hba
      obtain rfl : WorkerPc.finalizing _ _ = pc := by simpa [AsyncSystem.setWorker] using hb
      exact absurd hundecided (by simp [WorkerPc.undecided])
    · simpa [AsyncSystem.setWorker, hba, helse.workers] using hb

theorem Core.finalizeCurrent (h : Core s place)
    (hcurrent : (s.cancelers k).current = some (a, stage)) :
    Core ((s.finalizeStep a .canceled stage).1.setCanceler k
      { chain := (s.cancelers k).chain
        current := some (a, (s.finalizeStep a .canceled stage).2) }) place := by
  have ha : place a = some (.current k) := (h.placed.current k a).mpr ⟨stage, hcurrent⟩
  have helse := sameElse_finalizeStep s a .canceled stage
  have hplaced₁ := h.placed.congr helse.client helse.workers helse.cancelers helse.calls
    helse.finished
  have hcurrent₁ : ((s.finalizeStep a .canceled stage).1.cancelers k).current = some (a, stage) := by
    rw [helse.cancelers]
    exact hcurrent
  have hplaced := hplaced₁.setStage hcurrent₁ (s.finalizeStep a .canceled stage).2
  rw [helse.cancelers] at hplaced
  refine h.finalize ha nofun ?_ hplaced helse.client helse.closed helse.marks rfl rfl rfl ?_
    (fun b pl hba hb => ?_) fun b pc hb _ => ?_
  · simp [phaseAt, hcurrent]
  · simp [phaseAt, setCanceler]
  · cases pl with
    | active => simp [phaseAt, setCanceler, helse.workers]
    | current j =>
      have hjk : j ≠ k := by
        rintro rfl
        exact hba (h.placed.current_eq hcurrent hb)
      simp [phaseAt, setCanceler, hjk, helse.cancelers]
    | _ => rfl
  · simpa [setCanceler, helse.workers] using hb

/-! ## Cancelers, freeing and submissions -/

theorem Core.pick (h : Core s place) (hcurrent : (s.cancelers k).current = none)
    (hchain : (s.cancelers k).chain = some a) :
    place a = some (.detached k) ∧ Core ({ s with client := s.client.setNext a none }.setCanceler k
        { chain := (s.client.requests a).next, current := some (a, .claim) })
        (update place a (some (.current k))) := by
  obtain ⟨ha, hplaced⟩ := h.placed.pick hcurrent hchain
  refine ⟨ha, h.move hplaced rfl rfl rfl rfl h.marks (fun b pl' hb => ?_) fun b hb => ?_⟩
  · by_cases hba : b = a
    · subst hba
      obtain rfl : Place.current k = pl' := by simpa using hb
      exact ⟨.detached k, ha, by simp [phaseAt, setCanceler, FinalStage.phase], nofun⟩
    · rw [update_of_ne hba] at hb
      refine ⟨pl', hb, ?_, id⟩
      cases pl' with
      | current j =>
        have hjk : j ≠ k := by
          rintro rfl
          exact h.placed.not_current hcurrent hb
        simp [phaseAt, setCanceler, hjk]
      | _ => rfl
  · change ((s.client.setNext a none).requests b).callbackCalled = false
    rw [(frame_setNext s.client a none).callbackCalled]
    by_cases hba : b = a
    · subst hba
      refine h.uncalled b (Or.inr ?_)
      simpa [setCanceler] using hb
    · refine h.uncalled b ?_
      simpa [setCanceler, hba] using hb

theorem callbackCalled_free (s : AsyncSystem) (a : Addr) (stats : RuntimeStats) (b : Addr) :
    ((s.free a stats).client.requests b).callbackCalled = (s.client.requests b).callbackCalled := by
  have hframe := frame_modify s.client a (fun request =>
    { request with resource := (releaseRequest stats request.resource request.cancelRequested).2 })
    (fun _ => False) fun _ => ⟨rfl, rfl, rfl, rfl⟩
  exact hframe.callbackCalled b

theorem Core.freeCurrent (h : Core s place) (hcurrent : (s.cancelers k).current = some (a, .returned))
    (stats : RuntimeStats) :
    Core ((s.free a stats).setCanceler k { chain := (s.cancelers k).chain, current := none })
      (update place a (some .finished)) := by
  have ha : place a = some (.current k) := (h.placed.current k a).mpr ⟨.returned, hcurrent⟩
  refine h.move (h.placed.freeCurrent hcurrent stats) rfl rfl rfl rfl h.marks
    (fun b pl' hb => ?_) fun b hb => ?_
  · by_cases hba : b = a
    · subst hba
      obtain rfl : Place.finished = pl' := by simpa using hb
      exact ⟨.current k, ha, by simp [phaseAt, hcurrent, FinalStage.phase], nofun⟩
    · rw [update_of_ne hba] at hb
      refine ⟨pl', hb, ?_, id⟩
      cases pl' with
      | current j =>
        have hjk : j ≠ k := by
          rintro rfl
          exact hba (h.placed.current_eq hcurrent hb)
        simp [phaseAt, setCanceler, AsyncSystem.free, hjk]
      | _ => rfl
  · rw [setCanceler, callbackCalled_free]
    refine h.uncalled b ?_
    by_cases hba : b = a
    · subst hba
      refine Or.inr ?_
      simpa [setCanceler, AsyncSystem.free] using hb
    · simpa [setCanceler, AsyncSystem.free, hba] using hb

theorem Core.freeWorker (h : Core s place) (ha : place a = some .freeing) (stats : RuntimeStats) :
    Core ((s.free a stats).setWorker a none) (update place a (some .finished)) := by
  refine h.move (h.placed.freeWorker ha stats) rfl rfl rfl rfl h.marks (fun b pl' hb => ?_)
    fun b hb => ?_
  · by_cases hba : b = a
    · subst hba
      obtain rfl : Place.finished = pl' := by simpa using hb
      exact ⟨.freeing, ha, rfl, nofun⟩
    · rw [update_of_ne hba] at hb
      refine ⟨pl', hb, ?_, id⟩
      cases pl' with
      | active => simp [phaseAt, AsyncSystem.setWorker, AsyncSystem.free, hba]
      | _ => rfl
  · rw [AsyncSystem.setWorker, callbackCalled_free]
    refine h.uncalled b ?_
    by_cases hba : b = a
    · subst hba
      simp [AsyncSystem.setWorker] at hb
    · simpa [AsyncSystem.setWorker, AsyncSystem.free, hba] using hb

theorem Core.create (h : Core s place) (submission : Submission) :
    place s.client.allocated = none ∧ Core (s.create submission) place ∧
      AtPhase (s.create submission) s.client.allocated .before := by
  obtain ⟨hfresh, hplaced⟩ := h.placed.create submission
  have hne : ∀ b, place b ≠ none → b ≠ s.client.allocated := fun b hb =>
    Nat.ne_of_lt (h.placed.allocated b hb)
  refine ⟨hfresh, ⟨hplaced, fun b pl hb => ?_, fun b hb => ?_, h.closed, h.marks⟩, ?_⟩
  · have hba := hne b (by simp [hb])
    have hphase : phaseAt (s.create submission) b pl = phaseAt s b pl := by cases pl <;> rfl
    rw [hphase]
    exact (h.atPhase b pl hb).congr (update_of_ne hba _ _) (update_of_ne hba _ _)
      (update_of_ne hba _ _)
  · by_cases hba : b = s.client.allocated
    · subst hba
      simp [AsyncSystem.create, AsyncRequest.new]
    · have hrequest : (s.create submission).client.requests b = s.client.requests b :=
        update_of_ne hba _ _
      rw [hrequest]
      exact h.uncalled b hb
  · refine ⟨?_, ?_, ?_, ?_⟩ <;> simp [AsyncSystem.create, Handle.new]

end AsyncSystem

end Dcc.Rest
