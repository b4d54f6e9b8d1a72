import Dcc.Rest.AsyncDrain
import Dcc.Rest.AsyncSystem

/-!
# Where every request is

At every moment an accepted request is in one place: pending, active, with a
worker that is about to free it, on the detached list of a canceler, in the
hands of a canceler, or freed.  `Placed s place` says that `place` gives the
place of every request and that the links, the workers and the cancelers of `s`
agree with it.  A place is a value of a function, so a request has one place
only; that lists and parties agree with the function is what has to be kept.

There is one lemma for each operation of the system, with the places it leaves.
-/

namespace Dcc.Rest

open Linked Function AsyncClient

/-- A worker that has taken its request out of the active list. -/
def WorkerPc.isFreeing : WorkerPc → Bool
  | .freeing _ => true
  | _ => false

namespace AsyncSystem

/-- The place of a request. -/
inductive Place
  | pending (p : Priority)
  | active
  | freeing
  | detached (k : Nat)
  | current (k : Nat)
  | finished
  deriving DecidableEq

/-- The links, the workers and the cancelers agree with the places. -/
structure Placed (s : AsyncSystem) (place : Addr → Option Place) : Prop where
  queue : ∃ pending active, QueueRep s.client pending active ∧
    (∀ p a, a ∈ pending p ↔ place a = some (.pending p)) ∧
    ∀ a, a ∈ active ↔ place a = some .active
  chain : ∀ k, ∃ l, Seg s.client.nextOf (s.cancelers k).chain l none ∧
    ∀ a, a ∈ l ↔ place a = some (.detached k)
  current : ∀ k a, place a = some (.current k) ↔ ∃ stage, (s.cancelers k).current = some (a, stage)
  unused : ∀ k, s.calls ≤ k → s.cancelers k = Canceler.idle
  working : ∀ a, place a = some .active ↔ ∃ pc, s.workers a = some pc ∧ pc.isFreeing = false
  freeing : ∀ a, place a = some .freeing ↔ ∃ k, s.workers a = some (.freeing k)
  finished : ∀ a, place a = some .finished ↔ a ∈ s.finished
  allocated : ∀ a, place a ≠ none → a < s.client.allocated

variable {s s' : AsyncSystem} {place : Addr → Option Place} {a : Addr} {k : Nat}

theorem placed_init (restConcurrency : Nat) (resourceLimits : ResourceLimits) :
    Placed (init restConcurrency resourceLimits) fun _ => none where
  queue := ⟨fun _ => [], [], queueRep_init _ _, by simp, by simp⟩
  chain _ := ⟨[], rfl, by simp⟩
  current _ _ := by simp [init, Canceler.idle]
  unused _ _ := rfl
  working _ := by simp [init]
  freeing _ := by simp [init]
  finished _ := by simp [init]
  allocated _ := by simp

/-! ## Operations that move nothing -/

theorem Placed.setClient {c : AsyncClient} (h : Placed s place)
    (hqueue : ∀ pending active, QueueRep s.client pending active → QueueRep c pending active)
    (hnext : c.nextOf = s.client.nextOf) (hallocated : c.allocated = s.client.allocated) :
    Placed { s with client := c } place := by
  obtain ⟨pending, active, hrep, hpending, hactive⟩ := h.queue
  refine ⟨⟨pending, active, hqueue _ _ hrep, hpending, hactive⟩, fun k => ?_, h.current, h.unused,
    h.working, h.freeing, h.finished, fun b hb => ?_⟩
  · obtain ⟨l, hl, hmem⟩ := h.chain k
    exact ⟨l, hl.congr fun b _ => congrFun hnext b, hmem⟩
  · change b < c.allocated
    rw [hallocated]
    exact h.allocated b hb

@[simp] theorem workers_modify (a : Addr) (f : AsyncRequest → AsyncRequest) :
    (s.modify a f).workers = s.workers := rfl

@[simp] theorem cancelers_modify (a : Addr) (f : AsyncRequest → AsyncRequest) :
    (s.modify a f).cancelers = s.cancelers := rfl

theorem Placed.modify {f : AsyncRequest → AsyncRequest} (h : Placed s place) (a : Addr)
    (hf : ∀ r, (f r).priority = r.priority ∧ (f r).route = r.route ∧ (f r).next = r.next ∧
      (f r).activeNext = r.activeNext ∧ (f r).routeClaimed = r.routeClaimed) :
    Placed (s.modify a f) place := by
  refine h.setClient (fun _ _ hrep => hrep.modify (fun r => ?_) fun _ => (hf _).2.2.2.2) ?_ rfl
  · exact ⟨(hf r).1, (hf r).2.1, (hf r).2.2.1, (hf r).2.2.2.1⟩
  · funext b
    rw [nextOf, nextOf, modify_requests]
    split
    · exact (hf _).2.2.1
    · rfl

theorem Placed.congr (h : Placed s place) (hclient : s'.client = s.client)
    (hworkers : s'.workers = s.workers) (hcancelers : s'.cancelers = s.cancelers)
    (hcalls : s'.calls = s.calls) (hfinished : s'.finished = s.finished) : Placed s' place := by
  refine ⟨?_, ?_, ?_, ?_, ?_, ?_, ?_, ?_⟩
  · rw [hclient]
    exact h.queue
  · rw [hclient, hcancelers]
    exact h.chain
  · rw [hcancelers]
    exact h.current
  · rw [hcancelers, hcalls]
    exact h.unused
  · rw [hworkers]
    exact h.working
  · rw [hworkers]
    exact h.freeing
  · rw [hfinished]
    exact h.finished
  · rw [hclient]
    exact h.allocated

theorem Placed.setWorker (h : Placed s place) (ha : place a = some .active) {pc : WorkerPc}
    (hpc : pc.isFreeing = false) : Placed (s.setWorker a (some pc)) place := by
  refine ⟨h.queue, h.chain, h.current, h.unused, fun b => ?_, fun b => ?_, h.finished, h.allocated⟩
  · by_cases hb : b = a
    · subst hb
      simp [AsyncSystem.setWorker, ha, hpc]
    · simpa [AsyncSystem.setWorker, hb] using h.working b
  · by_cases hb : b = a
    · subst hb
      have hne : ∀ k, pc ≠ .freeing k := by
        rintro k rfl
        exact Bool.noConfusion hpc
      simp [AsyncSystem.setWorker, ha, hne]
    · simpa [AsyncSystem.setWorker, hb] using h.freeing b

variable {stage : FinalStage}

theorem Placed.setStage (h : Placed s place)
    (hcurrent : (s.cancelers k).current = some (a, stage)) (stage' : FinalStage) :
    Placed (s.setCanceler k { chain := (s.cancelers k).chain, current := some (a, stage') })
      place := by
  refine ⟨h.queue, fun j => ?_, fun j b => ?_, fun j hj => ?_, h.working, h.freeing, h.finished,
    h.allocated⟩
  · by_cases hj : j = k
    · subst hj
      simpa [setCanceler] using h.chain j
    · simpa [setCanceler, hj] using h.chain j
  · by_cases hj : j = k
    · subst hj
      rw [h.current]
      simp [setCanceler, hcurrent]
    · simpa [setCanceler, hj] using h.current j b
  · have hjk : j ≠ k := by
      rintro rfl
      rw [h.unused j hj] at hcurrent
      exact absurd hcurrent nofun
    simpa [setCanceler, hjk] using h.unused j hj

variable {b : Addr}

theorem Placed.not_current (h : Placed s place)
    (hcurrent : (s.cancelers k).current = none) : place b ≠ some (.current k) := by
  intro hb
  obtain ⟨stage, hstage⟩ := (h.current k b).mp hb
  rw [hcurrent] at hstage
  exact absurd hstage nofun

theorem Placed.current_eq (h : Placed s place)
    (hcurrent : (s.cancelers k).current = some (a, stage)) (hb : place b = some (.current k)) :
    b = a := by
  obtain ⟨stage', hstage'⟩ := (h.current k b).mp hb
  rw [hcurrent] at hstage'
  simp only [Option.some.injEq, Prod.mk.injEq] at hstage'
  exact hstage'.1.symm

/-! ## Operations that move requests -/

/-- The places after a drain. -/
def placeDrained (place : Addr → Option Place) (r : DrainResult) (a : Addr) : Option Place :=
  if a ∈ r.spawned then some .active else if r.rejected = some a then none else place a

/-- The requests whose workers a drain has started become active, and the
request it hands back loses its place. -/
theorem Placed.drained {pending pending' : Priority → List Addr} {active active' : List Addr}
    {admission : Option Addr} {r : DrainResult} (h : Placed s place)
    (hpending : ∀ p a, a ∈ pending p ↔ place a = some (.pending p))
    (hactive : ∀ a, a ∈ active ↔ place a = some .active)
    (hr : Drained s.client pending active admission r pending' active') :
    Placed (s.drained r) (placeDrained place r) := by
  have hwas : ∀ b, b ∈ r.spawned ∨ r.rejected = some b → ∃ p, place b = some (.pending p) := by
    rintro b (hb | hb)
    · obtain ⟨p, hp⟩ := hr.spawned b hb
      exact ⟨p, (hpending p b).mp hp⟩
    · obtain ⟨-, -, p, hp⟩ := hr.rejected b hb
      exact ⟨p, (hpending p b).mp hp⟩
  -- away from the lists of the client the places are the old ones
  have hkept : ∀ b pl, (∀ p, pl ≠ .pending p) → pl ≠ .active →
      (placeDrained place r b = some pl ↔ place b = some pl) := by
    intro b pl hpl hne
    unfold placeDrained
    by_cases hb : b ∈ r.spawned
    · obtain ⟨p, hp⟩ := hwas b (Or.inl hb)
      simp [hb, hp, hne.symm, (hpl p).symm]
    · by_cases hrejected : r.rejected = some b
      · obtain ⟨p, hp⟩ := hwas b (Or.inr hrejected)
        simp [hb, hrejected, hp, (hpl p).symm]
      · simp [hb, hrejected]
  refine ⟨⟨pending', active', hr.rep, fun p b => ?_, fun b => ?_⟩, fun k => ?_, fun k b => ?_,
    h.unused, fun b => ?_, fun b => ?_, fun b => ?_, fun b hb => ?_⟩
  · rw [hr.pending_iff, hpending]
    unfold placeDrained
    by_cases hb : b ∈ r.spawned
    · simp [hb]
    · by_cases hrejected : r.rejected = some b
      · simp [hb, hrejected]
      · simp [hb, hrejected]
  · rw [hr.active_iff, hactive]
    unfold placeDrained
    by_cases hb : b ∈ r.spawned
    · simp [hb]
    · by_cases hrejected : r.rejected = some b
      · obtain ⟨p, hp⟩ := hwas b (Or.inr hrejected)
        simp [hb, hrejected, hp]
      · simp [hb, hrejected]
  · obtain ⟨l, hl, hmem⟩ := h.chain k
    refine ⟨l, hl.congr fun b hb => hr.frame.next b fun hpend => ?_, fun b => ?_⟩
    · obtain ⟨p, hp⟩ := hpend
      have hdetached := (hmem b).mp hb
      rw [(hpending p b).mp hp] at hdetached
      exact absurd hdetached (by simp)
    · rw [hmem, hkept b (.detached k) nofun nofun]
  · rw [hkept b (.current k) nofun nofun]
    exact h.current k b
  · change _ ↔ ∃ pc, (if b ∈ r.spawned then some WorkerPc.start else s.workers b) = some pc ∧ _
    unfold placeDrained
    by_cases hb : b ∈ r.spawned
    · simp [hb, WorkerPc.isFreeing]
    · simp only [hb, if_false]
      rw [← h.working b]
      by_cases hrejected : r.rejected = some b
      · obtain ⟨p, hp⟩ := hwas b (Or.inr hrejected)
        simp [hrejected, hp]
      · simp [hrejected]
  · rw [hkept b .freeing nofun nofun, h.freeing]
    change _ ↔ ∃ k, (if b ∈ r.spawned then some WorkerPc.start else s.workers b) = some (.freeing k)
    by_cases hb : b ∈ r.spawned
    · obtain ⟨p, hp⟩ := hwas b (Or.inl hb)
      have hnot : ¬ ∃ k, s.workers b = some (.freeing k) := by
        rw [← h.freeing b, hp]
        simp
      simpa [hb] using hnot
    · simp [hb]
  · rw [hkept b .finished nofun nofun]
    exact h.finished b
  · change b < r.client.allocated
    rw [hr.frame.allocated]
    refine h.allocated b fun hnone => hb ?_
    unfold placeDrained
    have hspawned : b ∉ r.spawned := fun hs => by
      obtain ⟨p, hp⟩ := hwas b (Or.inl hs)
      simp [hnone] at hp
    simp [hspawned, hnone]

variable {new : Option Place}

theorem update_place_iff (pl : Place) (hold : place a ≠ some pl)
    (hnew : new ≠ some pl) : update place a new b = some pl ↔ place b = some pl := by
  by_cases hb : b = a
  · subst hb
    simp [hold, hnew]
  · simp [hb]

theorem Placed.allocated_update (h : Placed s place)
    (hlt : a < s.client.allocated) (hb : update place a new b ≠ none) : b < s.client.allocated := by
  by_cases hba : b = a
  · rw [hba]
    exact hlt
  · rw [update_of_ne hba] at hb
    exact h.allocated b hb

theorem Placed.finishActive (h : Placed s place) (ha : place a = some .active) :
    Placed (s.finishActive a) (update place a none) := by
  obtain ⟨pending, active, hrep, hpending, hactive⟩ := h.queue
  obtain ⟨⟨active', hrep', hactive'⟩, hframe⟩ := hrep.finishActive ((hactive a).mpr ha)
  have hkept : ∀ b pl, pl ≠ .active → (update place a none b = some pl ↔ place b = some pl) :=
    fun b pl hpl => update_place_iff pl (by simp [ha, hpl.symm]) nofun
  refine ⟨⟨pending, active', hrep', fun p b => ?_, fun b => ?_⟩, fun k => ?_, fun k b => ?_,
    h.unused, fun b => ?_, fun b => ?_, fun b => ?_, fun b hb => ?_⟩
  · rw [hpending, hkept b (.pending p) nofun]
  · rw [hactive', hactive]
    by_cases hb : b = a
    · simp [hb]
    · simp [hb]
  · obtain ⟨l, hl, hmem⟩ := h.chain k
    refine ⟨l, hl.congr fun b _ => (hframe fun _ => False).next b not_false, fun b => ?_⟩
    rw [hmem, hkept b (.detached k) nofun]
  · rw [hkept b (.current k) nofun]
    exact h.current k b
  · by_cases hb : b = a
    · subst hb
      simp [AsyncSystem.finishActive, AsyncSystem.setWorker]
    · simpa [AsyncSystem.finishActive, AsyncSystem.setWorker, hb] using h.working b
  · rw [hkept b .freeing nofun, h.freeing]
    by_cases hb : b = a
    · subst hb
      have hnot : ¬ ∃ k, s.workers b = some (.freeing k) := by
        rw [← h.freeing b, ha]
        simp
      simpa [AsyncSystem.finishActive, AsyncSystem.setWorker] using hnot
    · simp [AsyncSystem.finishActive, AsyncSystem.setWorker, hb]
  · rw [hkept b .finished nofun]
    exact h.finished b
  · have hlt := h.allocated b (by
      by_cases hba : b = a
      · simp [hba, ha]
      · simpa [hba] using hb)
    exact ((hframe fun _ => False).allocated).symm ▸ hlt

theorem Placed.pushTail {p : Priority} (h : Placed s place) (ha : place a = none)
    (hp : (s.client.requests a).priority = p) (hlt : a < s.client.allocated) :
    Placed { s with client := s.client.pushTailLocked a }
      (update place a (some (.pending p))) := by
  obtain ⟨pending, active, hrep, hpending, hactive⟩ := h.queue
  have hnotPending : ∀ q, a ∉ pending q := fun q hq => by
    have hplace := (hpending q a).mp hq
    simp [ha] at hplace
  have hnotActive : a ∉ active := fun hmem => by
    have hplace := (hactive a).mp hmem
    simp [ha] at hplace
  have hframe := hrep.pendingRep.pushTail_frame hp
  have hkept : ∀ b pl, (∀ q, pl ≠ .pending q) →
      (update place a (some (.pending p)) b = some pl ↔ place b = some pl) :=
    fun b pl hpl => update_place_iff pl (by simp [ha]) (by simp [(hpl p).symm])
  refine ⟨⟨_, active, hrep.pushTail hp hnotPending hnotActive hlt, fun q b => ?_, fun b => ?_⟩,
    fun k => ?_, fun k b => ?_, h.unused, fun b => ?_, fun b => ?_, fun b => ?_, fun b hb => ?_⟩
  · by_cases hb : b = a
    · subst hb
      by_cases hq : q = p
      · simp [hq]
      · simp [hq, hnotPending q, Ne.symm hq]
    · rw [update_of_ne hb, ← hpending q b]
      by_cases hq : q = p
      · subst hq
        simp [hb]
      · simp [hq]
  · rw [hactive, hkept b .active nofun]
  · obtain ⟨l, hl, hmem⟩ := h.chain k
    refine ⟨l, hl.congr fun b hb => hframe.next b fun hmoved => ?_, fun b => ?_⟩
    · have hdetached := (hmem b).mp hb
      rcases hmoved with rfl | hmoved
      · simp [ha] at hdetached
      · simp [(hpending p b).mp hmoved] at hdetached
    · rw [hmem, hkept b (.detached k) nofun]
  · rw [hkept b (.current k) nofun]
    exact h.current k b
  · rw [hkept b .active nofun]
    exact h.working b
  · rw [hkept b .freeing nofun]
    exact h.freeing b
  · rw [hkept b .finished nofun]
    exact h.finished b
  · change b < (s.client.pushTailLocked a).allocated
    rw [hframe.allocated]
    exact h.allocated_update hlt hb

/-- The places after all pending requests went to canceler `k`. -/
def placeDetached (place : Addr → Option Place) (k : Nat) (a : Addr) : Option Place :=
  match place a with
  | some (.pending _) => some (.detached k)
  | other => other

theorem placeDetached_iff (pl : Place) (hpending : ∀ p, pl ≠ .pending p)
    (hdetached : pl ≠ .detached k) :
    placeDetached place k a = some pl ↔ place a = some pl := by
  unfold placeDetached
  split
  · rename_i p hp
    simp [hp, hdetached.symm, (hpending p).symm]
  · rfl

section

variable (h : Placed s place)
include h

theorem Placed.not_detached (hk : s.calls ≤ k) :
    place a ≠ some (.detached k) := by
  intro ha
  obtain ⟨l, hl, hmem⟩ := h.chain k
  rw [h.unused k hk] at hl
  have hnil : l = [] := hl.unique rfl
  have hal := (hmem a).mpr ha
  simp [hnil] at hal

/-- Every pending request goes to a new canceler. -/
theorem Placed.detachPending :
    Placed s.detachPending (placeDetached place s.calls) := by
  obtain ⟨pending, active, hrep, hpending, hactive⟩ := h.queue
  have hdetached := hrep.pendingRep.detachAll
  have hother : ∀ k, k ≠ s.calls → s.detachPending.cancelers k = s.cancelers k := by
    intro k hk
    simp [AsyncSystem.detachPending, hk]
  have hself : s.detachPending.cancelers s.calls =
      { chain := s.client.detachPendingAllLocked.2, current := none } := by
    simp [AsyncSystem.detachPending]
  refine ⟨⟨fun _ => [], active, hrep.detachAll, fun p b => ?_, fun b => ?_⟩, fun k => ?_,
    fun k b => ?_, fun k hk => ?_, fun b => ?_, fun b => ?_, fun b => ?_, fun b hb => ?_⟩
  · unfold placeDetached
    split
    · simp
    · rename_i hnot
      simpa using hnot p
  · rw [hactive, placeDetached_iff .active nofun nofun]
  · by_cases hk : k = s.calls
    · subst hk
      rw [hself]
      refine ⟨pendingAll pending, hdetached.seg, fun b => ?_⟩
      rw [mem_pendingAll]
      simp only [hpending]
      unfold placeDetached
      split
      · rename_i p hp
        simp [hp]
      · rename_i hnot
        simpa [h.not_detached (Nat.le_refl _)] using hnot
    · rw [hother k hk]
      obtain ⟨l, hl, hmem⟩ := h.chain k
      refine ⟨l, hl.congr fun b hb => hdetached.frame.next b fun hpend => ?_, fun b => ?_⟩
      · obtain ⟨p, hp⟩ := hpend
        have hplace := (hmem b).mp hb
        simp [(hpending p b).mp hp] at hplace
      · rw [hmem, placeDetached_iff (.detached k) nofun (by simpa using hk)]
  · rw [placeDetached_iff (.current k) nofun nofun, h.current]
    by_cases hk : k = s.calls
    · subst hk
      rw [hself, h.unused _ (Nat.le_refl _)]
      rfl
    · rw [hother k hk]
  · have hk' : s.calls + 1 ≤ k := hk
    rw [hother k (by omega)]
    exact h.unused k (by omega)
  · rw [placeDetached_iff .active nofun nofun]
    exact h.working b
  · rw [placeDetached_iff .freeing nofun nofun]
    exact h.freeing b
  · rw [placeDetached_iff .finished nofun nofun]
    exact h.finished b
  · change b < s.client.detachPendingAllLocked.1.allocated
    rw [hdetached.frame.allocated]
    refine h.allocated b fun hnone => hb ?_
    simp [placeDetached, hnone]

theorem Placed.setFreeing (ha : place a = none) (hlt : a < s.client.allocated)
    (canceler : Option Nat) :
    Placed (s.setWorker a (some (.freeing canceler))) (update place a (some .freeing)) := by
  have hkept : ∀ b pl, pl ≠ .freeing →
      (update place a (some .freeing) b = some pl ↔ place b = some pl) :=
    fun b pl hpl => update_place_iff pl (by simp [ha]) (by simp [hpl.symm])
  obtain ⟨pending, active, hrep, hpending, hactive⟩ := h.queue
  refine ⟨⟨pending, active, hrep, fun p b => ?_, fun b => ?_⟩, fun k => ?_, fun k b => ?_, h.unused,
    fun b => ?_, fun b => ?_, fun b => ?_, fun b hb => ?_⟩
  · rw [hpending, hkept b (.pending p) nofun]
  · rw [hactive, hkept b .active nofun]
  · obtain ⟨l, hl, hmem⟩ := h.chain k
    exact ⟨l, hl, fun b => by rw [hmem, hkept b (.detached k) nofun]⟩
  · rw [hkept b (.current k) nofun]
    exact h.current k b
  · rw [hkept b .active nofun]
    by_cases hb : b = a
    · subst hb
      simp [AsyncSystem.setWorker, ha, WorkerPc.isFreeing]
    · simpa [AsyncSystem.setWorker, hb] using h.working b
  · by_cases hb : b = a
    · subst hb
      simp [AsyncSystem.setWorker]
    · simpa [AsyncSystem.setWorker, hb] using h.freeing b
  · rw [hkept b .finished nofun]
    exact h.finished b
  · exact h.allocated_update hlt hb

theorem Placed.release (a : Addr) (stats : RuntimeStats) :
    Placed (s.modify a fun request =>
      { request with
        resource := (releaseRequest stats request.resource request.cancelRequested).2 }) place :=
  h.modify a fun _ => ⟨rfl, rfl, rfl, rfl, rfl⟩

theorem Placed.endWorker (ha : place a = some .freeing) :
    Placed ({ s with finished := a :: s.finished }.setWorker a none)
      (update place a (some .finished)) := by
  have hkept : ∀ b pl, pl ≠ .freeing → pl ≠ .finished →
      (update place a (some .finished) b = some pl ↔ place b = some pl) :=
    fun b pl hold hnew => update_place_iff pl (by simp [ha, hold.symm]) (by simp [hnew.symm])
  obtain ⟨pending, active, hrep, hpending, hactive⟩ := h.queue
  refine ⟨⟨pending, active, hrep, fun p b => ?_, fun b => ?_⟩, fun k => ?_, fun k b => ?_, h.unused,
    fun b => ?_, fun b => ?_, fun b => ?_, fun b hb => ?_⟩
  · rw [hpending, hkept b (.pending p) nofun nofun]
  · rw [hactive, hkept b .active nofun nofun]
  · obtain ⟨l, hl, hmem⟩ := h.chain k
    exact ⟨l, hl, fun b => by rw [hmem, hkept b (.detached k) nofun nofun]⟩
  · rw [hkept b (.current k) nofun nofun]
    exact h.current k b
  · rw [hkept b .active nofun nofun]
    by_cases hb : b = a
    · subst hb
      simp [AsyncSystem.setWorker, ha]
    · simpa [AsyncSystem.setWorker, hb] using h.working b
  · by_cases hb : b = a
    · subst hb
      simp [AsyncSystem.setWorker]
    · simpa [AsyncSystem.setWorker, hb] using h.freeing b
  · by_cases hb : b = a
    · subst hb
      simp [AsyncSystem.setWorker]
    · simpa [AsyncSystem.setWorker, hb] using h.finished b
  · exact h.allocated_update (h.allocated a (by simp [ha])) hb

theorem Placed.freeWorker (ha : place a = some .freeing) (stats : RuntimeStats) :
    Placed ((s.free a stats).setWorker a none) (update place a (some .finished)) :=
  (h.release a stats).endWorker ha

end

theorem Placed.ne_of_unused {j : Nat} (h : Placed s place) (hbusy : s.cancelers k ≠ Canceler.idle)
    (hj : s.calls ≤ j) : j ≠ k := by
  rintro rfl
  exact hbusy (h.unused j hj)

theorem Placed.endCurrent (h : Placed s place)
    (hcurrent : (s.cancelers k).current = some (a, stage)) :
    Placed ({ s with finished := a :: s.finished }.setCanceler k
      { chain := (s.cancelers k).chain, current := none }) (update place a (some .finished)) := by
  have ha : place a = some (.current k) := (h.current k a).mpr ⟨stage, hcurrent⟩
  have hbusy : s.cancelers k ≠ Canceler.idle := by
    intro hidle
    rw [hidle] at hcurrent
    exact absurd hcurrent nofun
  have hkept : ∀ b pl, pl ≠ .current k → pl ≠ .finished →
      (update place a (some .finished) b = some pl ↔ place b = some pl) :=
    fun b pl hold hnew => update_place_iff pl (by simp [ha, hold.symm]) (by simp [hnew.symm])
  obtain ⟨pending, active, hrep, hpending, hactive⟩ := h.queue
  refine ⟨⟨pending, active, hrep, fun p b => ?_, fun b => ?_⟩, fun j => ?_, fun j b => ?_,
    fun j hj => ?_, fun b => ?_, fun b => ?_, fun b => ?_, fun b hb => ?_⟩
  · rw [hpending, hkept b (.pending p) nofun nofun]
  · rw [hactive, hkept b .active nofun nofun]
  · obtain ⟨l, hl, hmem⟩ := h.chain j
    refine ⟨l, ?_, fun b => by rw [hmem, hkept b (.detached j) nofun nofun]⟩
    by_cases hj : j = k
    · subst hj
      simpa [setCanceler] using hl
    · simpa [setCanceler, hj] using hl
  · by_cases hj : j = k
    · subst hj
      by_cases hb : b = a
      · simp [hb, setCanceler]
      · have hone : place b ≠ some (.current j) := fun hplace => hb (h.current_eq hcurrent hplace)
        simp [setCanceler, hb, hone]
    · rw [hkept b (.current j) (by simpa using hj) nofun]
      simpa [setCanceler, hj] using h.current j b
  · simpa [setCanceler, h.ne_of_unused hbusy hj] using h.unused j hj
  · rw [hkept b .active nofun nofun]
    exact h.working b
  · rw [hkept b .freeing nofun nofun]
    exact h.freeing b
  · by_cases hb : b = a
    · subst hb
      simp [setCanceler]
    · simpa [setCanceler, hb] using h.finished b
  · exact h.allocated_update (h.allocated a (by simp [ha])) hb

theorem Placed.freeCurrent (h : Placed s place)
    (hcurrent : (s.cancelers k).current = some (a, stage)) (stats : RuntimeStats) :
    Placed ((s.free a stats).setCanceler k { chain := (s.cancelers k).chain, current := none })
      (update place a (some .finished)) :=
  (h.release a stats).endCurrent hcurrent

/-- A canceler takes the first request of its list in hand. -/
theorem Placed.pick (h : Placed s place) (hcurrent : (s.cancelers k).current = none)
    (hchain : (s.cancelers k).chain = some a) :
    place a = some (.detached k) ∧
      Placed ({ s with client := s.client.setNext a none }.setCanceler k
        { chain := (s.client.requests a).next, current := some (a, .claim) })
        (update place a (some (.current k))) := by
  obtain ⟨l, hl, hmem⟩ := h.chain k
  rw [hchain] at hl
  obtain ⟨l, rfl⟩ : ∃ l', l = a :: l' := by
    cases l with
    | nil => exact absurd hl nofun
    | cons b l' =>
      obtain rfl : a = b := by simpa using hl.1
      exact ⟨l', rfl⟩
  have hnodup := List.nodup_cons.mp hl.nodup
  have ha : place a = some (.detached k) := (hmem a).mp List.mem_cons_self
  have hbusy : s.cancelers k ≠ Canceler.idle := by
    intro hidle
    rw [hidle] at hchain
    exact absurd hchain nofun
  have hkept : ∀ b pl, pl ≠ .detached k → pl ≠ .current k →
      (update place a (some (.current k)) b = some pl ↔ place b = some pl) :=
    fun b pl hold hnew => update_place_iff pl (by simp [ha, hold.symm]) (by simp [hnew.symm])
  have hframe := frame_setNext s.client a none
  obtain ⟨pending, active, hrep, hpending, hactive⟩ := h.queue
  have hnotPending : ∀ q, a ∉ pending q := fun q hq => by
    have hplace := (hpending q a).mp hq
    simp [ha] at hplace
  refine ⟨ha, ⟨pending, active, hrep.setNext hnotPending none, fun p b => ?_, fun b => ?_⟩,
    fun j => ?_, fun j b => ?_, fun j hj => ?_, fun b => ?_, fun b => ?_, fun b => ?_, fun b hb => ?_⟩
  · rw [hpending, hkept b (.pending p) nofun nofun]
  · rw [hactive, hkept b .active nofun nofun]
  · by_cases hj : j = k
    · subst hj
      refine ⟨l, ?_, fun b => ?_⟩
      · have hrest : Seg (s.client.setNext a none).nextOf (s.client.requests a).next l none :=
          hl.2.congr fun b hb => hframe.next b fun hba => hnodup.1 (hba ▸ hb)
        simpa [setCanceler] using hrest
      · by_cases hb : b = a
        · subst hb
          simp [hnodup.1]
        · rw [update_of_ne hb, ← hmem b]
          simp [hb]
    · obtain ⟨m, hm, hmem'⟩ := h.chain j
      refine ⟨m, ?_, fun b => by rw [hmem', hkept b (.detached j) (by simpa using hj) nofun]⟩
      have hkeep : Seg (s.client.setNext a none).nextOf (s.cancelers j).chain m none := by
        refine hm.congr fun b hb => hframe.next b ?_
        rintro rfl
        have hplace := (hmem' b).mp hb
        rw [ha] at hplace
        simp at hplace
        exact hj hplace.symm
      simpa [setCanceler, hj] using hkeep
  · by_cases hj : j = k
    · subst hj
      by_cases hb : b = a
      · simp [hb, setCanceler]
      · simp [setCanceler, hb, h.not_current hcurrent, Ne.symm hb]
    · rw [hkept b (.current j) nofun (by simpa using hj)]
      simpa [setCanceler, hj] using h.current j b
  · simpa [setCanceler, h.ne_of_unused hbusy hj] using h.unused j hj
  · rw [hkept b .active nofun nofun]
    exact h.working b
  · rw [hkept b .freeing nofun nofun]
    exact h.freeing b
  · rw [hkept b .finished nofun nofun]
    exact h.finished b
  · change b < (s.client.setNext a none).allocated
    rw [hframe.allocated]
    exact h.allocated_update (h.allocated a (by simp [ha])) hb

theorem Placed.create (h : Placed s place) (submission : Submission) :
    place s.client.allocated = none ∧ Placed (s.create submission) place := by
  have hfresh : place s.client.allocated = none := by
    by_contra hne
    exact Nat.lt_irrefl _ (h.allocated _ hne)
  obtain ⟨pending, active, hrep, hpending, hactive⟩ := h.queue
  refine ⟨hfresh, ⟨pending, active, hrep.create _, hpending, hactive⟩, fun k => ?_, h.current,
    h.unused, h.working, h.freeing, h.finished, fun b hb => Nat.lt_succ_of_lt (h.allocated b hb)⟩
  obtain ⟨l, hl, hmem⟩ := h.chain k
  refine ⟨l, hl.congr fun b hb => ?_, hmem⟩
  have hlt : b < s.client.allocated := h.allocated b (by simp [(hmem b).mp hb])
  simp [AsyncSystem.create, nextOf, Nat.ne_of_lt hlt]

end AsyncSystem

end Dcc.Rest
