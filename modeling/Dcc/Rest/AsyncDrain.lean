import Dcc.Rest.AsyncActive

/-!
# What a drain does to the queues

`QueueRep c pending active` collects what the links of a client stand for.  A
drain keeps it, for every sequence of readings of the clock, the stop flag and
the counters, and for every refusal of the runtime:

* `takeNext_cases`: the scheduler finds nothing, or links out one request that
  is canceled or whose route is idle;
* `drainImplLocked_spec`: the requests whose workers were started have moved
  from the pending lists to the active list, at most the request that was being
  admitted has left them, and no other request has moved.
-/

namespace Dcc.Rest.AsyncClient

open Linked Function

variable {c c' : AsyncClient} {pending : Priority → List Addr} {active : List Addr}
  {p : Priority} {a : Addr} {now : Nat}

/-- What the links of a client stand for. -/
structure QueueRep (c : AsyncClient) (pending : Priority → List Addr) (active : List Addr) :
    Prop where
  pendingRep : PendingRep c pending
  activeRep : ActiveRep c active
  routesRep : RoutesRep c active
  disjoint : ∀ p, ∀ a ∈ pending p, a ∉ active

theorem queueRep_init (restConcurrency : Nat) (resourceLimits : ResourceLimits) :
    QueueRep (AsyncClient.init restConcurrency resourceLimits) (fun _ => []) [] where
  pendingRep := ⟨fun _ => Listed.nil, by simp, by simp⟩
  activeRep := ⟨rfl, rfl, Nat.zero_le _, by simp⟩
  routesRep := ⟨List.Perm.refl _, List.nodup_nil, List.not_mem_nil⟩
  disjoint := by simp

theorem QueueRep.setLimits (h : QueueRep c pending active) (limits : RateLimits) :
    QueueRep { c with limits := limits } pending active :=
  ⟨⟨h.pendingRep.listed, h.pendingRep.priority, h.pendingRep.allocated⟩,
    ⟨h.activeRep.seg, h.activeRep.count, h.activeRep.count_le, h.activeRep.allocated⟩,
    ⟨h.routesRep.claimed, h.routesRep.nodup, h.routesRep.nonempty⟩, h.disjoint⟩

variable {f : AsyncRequest → AsyncRequest}

/-- A write to a request that touches neither its links nor its priority, and
that is no claim of an active request, changes nothing. -/
theorem QueueRep.modify (h : QueueRep c pending active)
    (hf : ∀ r, (f r).priority = r.priority ∧ (f r).route = r.route ∧ (f r).next = r.next ∧
      (f r).activeNext = r.activeNext)
    (hclaim : a ∈ active → (f (c.requests a)).routeClaimed = (c.requests a).routeClaimed) :
    QueueRep (c.modify a f) pending active := by
  have hnext : ∀ b, ((c.modify a f).requests b).next = (c.requests b).next ∧
      ((c.modify a f).requests b).priority = (c.requests b).priority := by
    intro b
    rw [modify_requests]
    split
    · exact ⟨(hf _).2.2.1, (hf _).1⟩
    · exact ⟨rfl, rfl⟩
  have hactiveNext : ∀ b, (c.modify a f).activeNextOf b = c.activeNextOf b := by
    intro b
    rw [activeNextOf, modify_requests]
    split
    · exact (hf _).2.2.2
    · rfl
  have hclaimed : ∀ b ∈ active, (c.modify a f).claimedRoute b = c.claimedRoute b := by
    intro b hb
    rw [claimedRoute, modify_requests]
    split
    · rename_i hba
      subst hba
      rw [hclaim hb, (hf _).2.1]
      rfl
    · rfl
  refine ⟨h.pendingRep.congr rfl rfl (Nat.le_refl _) fun _ b _ => hnext b, ?_, ?_, h.disjoint⟩
  · exact ⟨h.activeRep.seg.congr fun b _ => hactiveNext b, h.activeRep.count,
      h.activeRep.count_le, h.activeRep.allocated⟩
  · refine ⟨?_, h.routesRep.nodup, h.routesRep.nonempty⟩
    rw [List.filterMap_congr hclaimed]
    exact h.routesRep.claimed

theorem frame_modify (c : AsyncClient) (a : Addr) (f : AsyncRequest → AsyncRequest)
    (moved : Addr → Prop)
    (hf : ∀ r, (f r).priority = r.priority ∧ (f r).route = r.route ∧ (f r).next = r.next ∧
      (f r).callbackCalled = r.callbackCalled) : Frame c (c.modify a f) moved := by
  refine ⟨rfl, rfl, rfl, fun b => ?_, fun b => ?_, fun b => ?_, fun b _ => ?_⟩ <;>
    rw [modify_requests] <;> split <;> simp [hf]

/-- The cancel flags and the retry times of `c'` are those of `c`. -/
structure SameFlags (c c' : AsyncClient) : Prop where
  cancelRequested : ∀ a, (c'.requests a).cancelRequested = (c.requests a).cancelRequested
  notBeforeMs : ∀ a, (c'.requests a).notBeforeMs = (c.requests a).notBeforeMs

theorem SameFlags.refl (c : AsyncClient) : SameFlags c c := ⟨fun _ => rfl, fun _ => rfl⟩

theorem SameFlags.trans {c'' : AsyncClient} (h : SameFlags c c') (h' : SameFlags c' c'') :
    SameFlags c c'' where
  cancelRequested a := (h'.cancelRequested a).trans (h.cancelRequested a)
  notBeforeMs a := (h'.notBeforeMs a).trans (h.notBeforeMs a)

theorem sameFlags_modify (c : AsyncClient) (a : Addr) (f : AsyncRequest → AsyncRequest)
    (hf : ∀ r, (f r).cancelRequested = r.cancelRequested ∧ (f r).notBeforeMs = r.notBeforeMs) :
    SameFlags c (c.modify a f) := by
  refine ⟨fun b => ?_, fun b => ?_⟩ <;> rw [modify_requests] <;> split <;> simp [hf]

theorem sameFlags_restore (c : AsyncClient) (a : Addr) (position : QueuePosition) :
    SameFlags c (c.restoreLocked a position) := by
  rw [restoreLocked_eq]
  exact ⟨fun _ => rfl, fun _ => rfl⟩

theorem sameFlags_claimActive (c : AsyncClient) (a : Addr) (routes : List RouteKey) :
    SameFlags c (c.claimActive a routes) := by
  refine ⟨fun b => ?_, fun b => ?_⟩ <;> rw [claimActive_requests] <;> split <;> simp [*]

/-! ## Taking a request -/

/-- The scan from a place in a list finds nothing, or stops at a request of the
rest of the list that is canceled or whose route is idle. -/
theorem scanPending_cases (now : Nat) (limits : RateLimits) (l₀ : List Addr) {l : List Addr}
    {fuel : Nat} {request : Option Addr} (hfuel : l.length < fuel) (hl : Seg c.nextOf request l none) :
    (c.scanPending now fuel limits l₀.getLast? request).2 = none ∨ ∃ l₁ a l₂, l = l₁ ++ a :: l₂ ∧
        ((c.requests a).cancelRequested = true ∨
          routeActive c.activeRoutes (c.requests a).route = false) ∧
        (c.scanPending now fuel limits l₀.getLast? request).2 = some ((l₀ ++ l₁).getLast?, a) := by
  induction l generalizing l₀ fuel limits request with
  | nil =>
    obtain rfl : request = none := hl
    cases fuel with
    | zero => exact Or.inl rfl
    | succ fuel => exact Or.inl rfl
  | cons a l ih =>
    obtain ⟨fuel, rfl⟩ := Nat.exists_eq_succ_of_ne_zero (Nat.ne_of_gt (Nat.zero_lt_of_lt hfuel))
    obtain ⟨rfl, hl⟩ := hl
    have hrest : ∀ limits, (c.scanPending now fuel limits (some a) (c.requests a).next).2 = none ∨
          ∃ l₁ b l₂, a :: l = l₁ ++ b :: l₂ ∧ ((c.requests b).cancelRequested = true ∨
              routeActive c.activeRoutes (c.requests b).route = false) ∧
            (c.scanPending now fuel limits (some a) (c.requests a).next).2 =
              some ((l₀ ++ l₁).getLast?, b) := by
      intro limits
      have hscan := ih limits (l₀ ++ [a]) (by simpa using hfuel) hl
      rw [List.getLast?_concat] at hscan
      rcases hscan with hscan | ⟨l₁, b, l₂, rfl, hready, hscan⟩
      · exact Or.inl hscan
      · refine Or.inr ⟨a :: l₁, b, l₂, rfl, hready, ?_⟩
        rw [List.append_assoc, List.singleton_append] at hscan
        exact hscan
    rw [scanPending]
    by_cases hcanceled : (c.requests a).cancelRequested = true
    · refine Or.inr ⟨[], a, l, rfl, Or.inl hcanceled, ?_⟩
      simp [hcanceled]
    · by_cases hactive : routeActive c.activeRoutes (c.requests a).route = true
      · simp only [hcanceled, hactive, if_true]
        exact hrest limits
      · simp only [hcanceled, hactive]
        by_cases hwait : (requestWaitMsLocked limits (c.requests a) now true).2 = 0
        · refine Or.inr ⟨[], a, l, rfl, Or.inr (by simpa using hactive), ?_⟩
          simp [hwait]
        · simp only [hwait, if_false]
          exact hrest _

theorem takeFrom_cases (h : PendingRep c pending) (priorities : List Priority) :
    (∃ limits, takeFrom now priorities c = ({ c with limits := limits }, none)) ∨
      ∃ limits p l₁ a l₂, pending p = l₁ ++ a :: l₂ ∧ ((c.requests a).cancelRequested = true ∨
          routeActive c.activeRoutes (c.requests a).route = false) ∧
        takeFrom now priorities c = ({ c with limits := limits }.unlinkPending p l₁.getLast? a,
            some (a, { priority := p, previous := l₁.getLast?, next := l₂.head? })) := by
  induction priorities generalizing c with
  | nil => exact Or.inl ⟨c.limits, rfl⟩
  | cons p priorities ih =>
    have hscan := scanPending_cases now c.limits [] (Nat.lt_succ_of_le (h.length_le p))
      (h.listed p).seg
    rw [List.getLast?_nil] at hscan
    rw [takeFrom]
    rcases hscan with hnone | ⟨l₁, a, l₂, hl, hready, hsome⟩
    · simp only [hnone]
      exact ih (c := { c with limits := _ }) ⟨h.listed, h.priority, h.allocated⟩
    · simp only [hsome, List.nil_append]
      have hlisted := h.listed p
      rw [hl] at hlisted
      obtain ⟨_, -, -, hafter⟩ := seg_append.mp hlisted.seg
      have hnext : (c.requests a).next = l₂.head? := hafter.head_eq
      rw [hnext]
      exact Or.inr ⟨_, p, l₁, a, l₂, hl, hready, rfl⟩

/-- A request that the scheduler holds: it was at the place between `l₁` and
`l₂` of its list, and is in no list. -/
structure Held (c : AsyncClient) (pending : Priority → List Addr) (active : List Addr) (a : Addr)
    (p : Priority) (l₁ l₂ : List Addr) : Prop where
  rep : QueueRep c (update pending p (l₁ ++ l₂)) active
  place : pending p = l₁ ++ a :: l₂
  priority : (c.requests a).priority = p
  allocated : a < c.allocated
  notPending : ∀ q, a ∉ update pending p (l₁ ++ l₂) q
  notActive : a ∉ active

variable {l₁ l₂ : List Addr}

theorem Held.mem (h : Held c pending active a p l₁ l₂) : a ∈ pending p := by
  rw [h.place]
  simp

theorem Held.mem_iff (h : Held c pending active a p l₁ l₂) (q : Priority)
    (b : Addr) : b ∈ update pending p (l₁ ++ l₂) q ↔ b ∈ pending q ∧ b ≠ a := by
  by_cases hba : b = a
  · subst hba
    simp [h.notPending q]
  · by_cases hq : q = p
    · subst hq
      simp [h.place, hba]
    · simp [hq, hba]

theorem Held.modify (h : Held c pending active a p l₁ l₂)
    (hf : ∀ r, (f r).priority = r.priority ∧ (f r).route = r.route ∧ (f r).next = r.next ∧
      (f r).activeNext = r.activeNext) : Held (c.modify a f) pending active a p l₁ l₂ where
  rep := h.rep.modify hf fun ha => absurd ha h.notActive
  place := h.place
  priority := by
    rw [modify_requests, if_pos rfl, (hf _).1]
    exact h.priority
  allocated := h.allocated
  notPending := h.notPending
  notActive := h.notActive

theorem Held.restore (h : Held c pending active a p l₁ l₂) :
    QueueRep (c.restoreLocked a { priority := p, previous := l₁.getLast?, next := l₂.head? })
      pending active := by
  have hrestored := h.rep.pendingRep.restore (update_self _ _ _) h.priority h.notPending h.allocated
  rw [update_idem, ← h.place, update_eq_self] at hrestored
  have hsame := sameActive_restore c a { priority := p, previous := l₁.getLast?, next := l₂.head? }
  have hframe := frame_restore l₁ c a p l₂.head?
  refine ⟨hrestored, h.rep.activeRep.congr hsame hframe, h.rep.routesRep.congr hsame hframe,
    fun q b hb => ?_⟩
  by_cases hba : b = a
  · rw [hba]
    exact h.notActive
  · refine h.rep.disjoint q b ?_
    by_cases hq : q = p
    · subst hq
      rw [update_self]
      rw [h.place] at hb
      simpa [hba] using hb
    · rwa [update_of_ne hq]

theorem Held.restore_frame (h : Held c pending active a p l₁ l₂) :
    Frame c (c.restoreLocked a { priority := p, previous := l₁.getLast?, next := l₂.head? })
      fun b => ∃ q, b ∈ pending q := by
  refine (frame_restore l₁ _ a p l₂.head?).mono fun b hb => ⟨p, ?_⟩
  rcases hb with rfl | hb
  · exact h.mem
  · rw [h.place]
    exact List.mem_append_left _ hb

theorem QueueRep.unlink (h : QueueRep c pending active) (limits : RateLimits)
    (hl : pending p = l₁ ++ a :: l₂) :
    Held ({ c with limits := limits }.unlinkPending p l₁.getLast? a) pending active a p l₁ l₂ ∧
      Frame c ({ c with limits := limits }.unlinkPending p l₁.getLast? a) (· ∈ pending p) ∧
      SameActive c ({ c with limits := limits }.unlinkPending p l₁.getLast? a) ∧
      SameFlags c ({ c with limits := limits }.unlinkPending p l₁.getLast? a) := by
  have hlimits := h.setLimits limits
  have hframe := (Frame.setLimits c limits _).trans (frame_unlink hl)
  have hsame := (SameActive.setLimits c limits).trans (sameActive_unlink _ p l₁.getLast? a)
  have ha : a ∈ pending p := by
    rw [hl]
    simp
  refine ⟨⟨?_, hl, ?_, ?_, ?_, h.disjoint p a ha⟩, hframe, hsame, ?_⟩
  · refine ⟨hlimits.pendingRep.unlink hl, h.activeRep.congr hsame hframe,
      h.routesRep.congr hsame hframe, fun q b hb => ?_⟩
    by_cases hq : q = p
    · subst hq
      rw [update_self] at hb
      refine h.disjoint q b ?_
      rw [hl]
      rcases List.mem_append.mp hb with hb | hb
      · exact List.mem_append_left _ hb
      · exact List.mem_append_right _ (List.mem_cons_of_mem a hb)
    · rw [update_of_ne hq] at hb
      exact h.disjoint q b hb
  · rw [hframe.priority]
    exact h.pendingRep.priority p a ha
  · rw [hframe.allocated]
    exact h.pendingRep.allocated p a ha
  · intro q haq
    by_cases hq : q = p
    · subst hq
      have hnodup := (h.pendingRep.listed q).nodup
      rw [hl, List.nodup_middle, List.nodup_cons] at hnodup
      rw [update_self] at haq
      exact hnodup.1 haq
    · rw [update_of_ne hq] at haq
      exact hq (h.pendingRep.priority_unique haq ha)
  · rw [unlinkPending_eq]
    exact ⟨fun _ => rfl, fun _ => rfl⟩

theorem takeNext_cases (h : QueueRep c pending active) (now : Nat) :
    (∃ limits, c.takeNextLocked now = ({ c with limits := limits }, none)) ∨
      ∃ p l₁ a l₂ c', c.takeNextLocked now =
          (c', some (a, { priority := p, previous := l₁.getLast?, next := l₂.head? })) ∧
        Held c' pending active a p l₁ l₂ ∧ Frame c c' (· ∈ pending p) ∧ SameActive c c' ∧
        ((c'.requests a).cancelRequested = true ∨
          routeActive c'.activeRoutes (c'.requests a).route = false) := by
  rcases takeFrom_cases h.pendingRep [.high, .normal, .low] with
    hnone | ⟨limits, p, l₁, a, l₂, hl, hready, hsome⟩
  · exact Or.inl hnone
  · obtain ⟨hheld, hframe, hsame, hflags⟩ := h.unlink limits hl
    refine Or.inr ⟨p, l₁, a, l₂, _, hsome, hheld, hframe, hsame, ?_⟩
    rw [hflags.cancelRequested, hsame.activeRoutes, hframe.route]
    exact hready

/-! ## Making requests active -/

theorem frame_claimActive (c : AsyncClient) (a : Addr) (routes : List RouteKey)
    (moved : Addr → Prop) : Frame c (c.claimActive a routes) moved := by
  refine ⟨rfl, rfl, rfl, fun b => ?_, fun b => ?_, fun b => ?_, fun b _ => ?_⟩ <;>
    rw [claimActive_requests] <;> split <;> simp [*]

section

variable (h : Held c pending active a p l₁ l₂) (hroom : c.active < c.concurrency)
  (hready : (c.requests a).cancelRequested = true ∨
    routeActive c.activeRoutes (c.requests a).route = false)
include h hroom hready

theorem Held.claim :
    QueueRep (c.claimActive a (c.markRequest a).2) (update pending p (l₁ ++ l₂)) (a :: active) := by
  have hlen : active.length < bucketCap := by
    have hcap := c.concurrency_le
    have hcount := h.rep.activeRep.count
    omega
  refine ⟨?_, h.rep.activeRep.claim h.notActive h.allocated hroom _,
    h.rep.routesRep.claim h.notActive hlen hready, fun q b hb hba => ?_⟩
  · refine h.rep.pendingRep.congr rfl rfl (Nat.le_refl _) fun q b hb => ?_
    have hba : b ≠ a := fun hba => h.notPending q (hba ▸ hb)
    rw [claimActive_requests, if_neg hba]
    exact ⟨rfl, rfl⟩
  · rcases List.mem_cons.mp hba with rfl | hba
    · exact h.notPending q hb
    · exact h.rep.disjoint q b hb hba

theorem Held.mark_ok : (c.markRequest a).1 = .ok := by
  have hcap := c.concurrency_le
  have hcount := h.rep.activeRep.count
  rw [h.rep.routesRep.markRequest (by omega) hready]

theorem Held.undo :
    Held ((c.claimActive a (c.markRequest a).2).undoActive a) pending active a p l₁ l₂ ∧
      (∀ moved, Frame c ((c.claimActive a (c.markRequest a).2).undoActive a) moved) ∧
      SameFlags c ((c.claimActive a (c.markRequest a).2).undoActive a) := by
  have hclaim := h.claim hroom hready
  have hactive : ActiveRep (c.claimActive a (c.markRequest a).2) ([] ++ a :: active) :=
    hclaim.activeRep
  have hframe : ∀ moved,
      Frame c ((c.claimActive a (c.markRequest a).2).deactivated [] a) moved := fun moved =>
    (frame_claimActive c a _ moved).trans (frame_deactivated _ [] a moved)
  rw [hactive.undoActive_eq]
  refine ⟨⟨⟨?_, hactive.deactivate, hclaim.routesRep.deactivate h.notActive, ?_⟩, h.place, ?_,
    h.allocated, h.notPending, h.notActive⟩, hframe,
    (sameFlags_claimActive c a _).trans ⟨fun _ => rfl, fun _ => rfl⟩⟩
  · exact h.rep.pendingRep.congr rfl rfl (Nat.le_refl _) fun q b _ =>
      ⟨(hframe fun _ => False).next b not_false, (hframe fun _ => False).priority b⟩
  · exact h.rep.disjoint
  · rw [(hframe fun _ => False).priority]
    exact h.priority

end

/-! ## The drain -/

variable {admission : Option Addr}

/-- What a round of the drain loop does with the request in hand: it goes back to
its place, it is handed back to the caller that admits it, or its worker is
started and the drain goes on. -/
inductive Dispatched (c : AsyncClient) (pending : Priority → List Addr) (active : List Addr)
    (admission : Option Addr) (a : Addr) (p : Priority) (l₁ l₂ : List Addr)
    (rest : AsyncClient → DrainResult) : DrainResult → Prop
  | back {r : DrainResult} (hrep : QueueRep r.client pending active)
      (hframe : Frame c r.client fun b => ∃ q, b ∈ pending q) (hflags : SameFlags c r.client)
      (hspawned : r.spawned = []) (hrejected : r.rejected = none)
      (hmarks : ∀ s ∈ r.marks, s = .ok) (hstatus : admission.isSome = true → r.status = .ok) :
      Dispatched c pending active admission a p l₁ l₂ rest r
  | handed {r : DrainResult} (hadmission : admission = some a)
      (hrep : QueueRep r.client (update pending p (l₁ ++ l₂)) active)
      (hframe : Frame c r.client fun b => ∃ q, b ∈ pending q) (hflags : SameFlags c r.client)
      (hspawned : r.spawned = []) (hrejected : r.rejected = some a)
      (hmarks : ∀ s ∈ r.marks, s = .ok) (hstatus : r.status ≠ .ok) :
      Dispatched c pending active admission a p l₁ l₂ rest r
  | started {c' : AsyncClient} {marks : List Status}
      (hrep : QueueRep c' (update pending p (l₁ ++ l₂)) (a :: active))
      (hframe : Frame c c' fun b => ∃ q, b ∈ pending q) (hflags : SameFlags c c')
      (hactive : c'.active = c.active + 1) (hmarks : ∀ s ∈ marks, s = .ok) :
      Dispatched c pending active admission a p l₁ l₂ rest ((rest c').afterSpawn a marks)

variable {c₀ : AsyncClient} {marks : List Status} {rest : AsyncClient → DrainResult}

theorem Held.giveBack {stats : RuntimeStats} {status : Status}
    (h : Held c pending active a p l₁ l₂) (hframe : Frame c₀ c fun a => ∃ p, a ∈ pending p)
    (hflags : SameFlags c₀ c) (hmarks : ∀ s ∈ marks, s = .ok) (hstatus : status ≠ .ok) :
    Dispatched c₀ pending active admission a p l₁ l₂ rest
      (c.giveBack admission a { priority := p, previous := l₁.getLast?, next := l₂.head? } stats
        status marks) := by
  by_cases hadmission : admission = some a
  · rw [AsyncClient.giveBack, if_pos hadmission]
    exact .handed hadmission h.rep hframe hflags rfl rfl hmarks hstatus
  · rw [AsyncClient.giveBack, if_neg hadmission]
    let f : AsyncRequest → AsyncRequest := fun request =>
      { request with resource := (requeue stats request.resource).2 }
    have hmodified := h.modify (f := f) fun _ => ⟨rfl, rfl, rfl, rfl⟩
    refine .back hmodified.restore ?_ ?_ rfl rfl hmarks fun hsome => by simp [hsome]
    · exact (hframe.trans (frame_modify c a f _ fun _ => ⟨rfl, rfl, rfl, rfl⟩)).trans
        hmodified.restore_frame
    · exact (hflags.trans (sameFlags_modify c a f fun _ => ⟨rfl, rfl⟩)).trans
        (sameFlags_restore _ a _)

variable {input : DrainInput}

/-- **The round of the drain loop** with a request in hand. -/
theorem Held.dispatched (h : Held c pending active a p l₁ l₂)
    (hready : (c.requests a).cancelRequested = true ∨
      routeActive c.activeRoutes (c.requests a).route = false)
    (hroom : c.active < c.concurrency) :
    Dispatched c pending active admission a p l₁ l₂ rest
      (c.dispatch admission a { priority := p, previous := l₁.getLast?, next := l₂.head? } input
        rest) := by
  rw [AsyncClient.dispatch]
  generalize activate c.resourceLimits input.activateStats (c.requests a).resource = activation
  by_cases hrefused : activation.2.2 = false
  · simp only [hrefused, if_true]
    exact .back h.restore h.restore_frame (sameFlags_restore c a _) rfl rfl nofun fun _ => rfl
  · simp only [hrefused]
    -- the request in hand, with its resources active and no route claimed
    let f : AsyncRequest → AsyncRequest := fun request =>
      { request with resource := activation.2.1, routeClaimed := false }
    have hheld := h.modify (f := f) fun _ => ⟨rfl, rfl, rfl, rfl⟩
    have hframe : Frame c (c.modify a f) fun b => ∃ q, b ∈ pending q :=
      frame_modify c a f _ fun _ => ⟨rfl, rfl, rfl, rfl⟩
    have hflags : SameFlags c (c.modify a f) := sameFlags_modify c a f fun _ => ⟨rfl, rfl⟩
    have hready' : ((c.modify a f).requests a).cancelRequested = true ∨
        routeActive (c.modify a f).activeRoutes ((c.modify a f).requests a).route = false := by
      rw [modify_requests, if_pos rfl]
      exact hready
    have hroom' : (c.modify a f).active < (c.modify a f).concurrency := hroom
    have hmark := hheld.mark_ok hroom' hready'
    have hmarks : ∀ s ∈ (if ((c.modify a f).requests a).cancelRequested = true then []
        else [((c.modify a f).markRequest a).1]), s = Status.ok := by
      intro s hs
      split at hs
      · simp at hs
      · rw [List.mem_singleton.mp hs, hmark]
    simp only [f] at hmark hmarks
    simp only [hmark, ne_eq, not_true_eq_false, if_false]
    rw [hmark] at hmarks
    by_cases hspawns : input.spawns = true
    · simp only [hspawns, if_true]
      exact .started (hheld.claim hroom' hready') (hframe.trans (frame_claimActive _ a _ _))
        (hflags.trans (sameFlags_claimActive _ a _)) rfl hmarks
    · simp only [hspawns]
      obtain ⟨hundone, hundoFrame, hundoFlags⟩ := hheld.undo hroom' hready'
      exact hundone.giveBack (hframe.trans (hundoFrame _)) (hflags.trans hundoFlags) hmarks
        (show Status.runtime ≠ .ok by decide)

/-- What a drain does: `pending'` and `active'` are the lists it leaves. -/
structure Drained (c : AsyncClient) (pending : Priority → List Addr) (active : List Addr)
    (admission : Option Addr) (r : DrainResult) (pending' : Priority → List Addr)
    (active' : List Addr) : Prop where
  rep : QueueRep r.client pending' active'
  active_iff : ∀ a, a ∈ active' ↔ a ∈ r.spawned ∨ a ∈ active
  pending_iff : ∀ p a, a ∈ pending' p ↔ a ∈ pending p ∧ a ∉ r.spawned ∧ r.rejected ≠ some a
  spawned : ∀ a ∈ r.spawned, ∃ p, a ∈ pending p
  rejected : ∀ a, r.rejected = some a → admission = some a ∧ a ∉ r.spawned ∧ ∃ p, a ∈ pending p
  frame : Frame c r.client fun a => ∃ p, a ∈ pending p
  marks : ∀ s ∈ r.marks, s = .ok
  status : admission.isSome = true → r.status = .ok ∨ r.rejected = admission
  refused : r.rejected ≠ none → r.status ≠ .ok

variable {r : DrainResult}

theorem Drained.done (h : QueueRep r.client pending active)
    (hframe : Frame c r.client fun a => ∃ p, a ∈ pending p) (hspawned : r.spawned = [])
    (hrejected : r.rejected = none) (hmarks : ∀ s ∈ r.marks, s = .ok)
    (hstatus : admission.isSome = true → r.status = .ok) :
    Drained c pending active admission r pending active where
  rep := h
  active_iff b := by simp [hspawned]
  pending_iff q b := by simp [hspawned, hrejected]
  spawned b hb := by simp [hspawned] at hb
  rejected b hb := by simp [hrejected] at hb
  frame := hframe
  marks := hmarks
  status hadmission := Or.inl (hstatus hadmission)
  refused hne := absurd hrejected hne

theorem Drained.handed (h : Held c pending active a p l₁ l₂) (hadmission : admission = some a)
    (hrep : QueueRep r.client (update pending p (l₁ ++ l₂)) active)
    (hframe : Frame c₀ r.client fun a => ∃ p, a ∈ pending p) (hspawned : r.spawned = [])
    (hrejected : r.rejected = some a) (hmarks : ∀ s ∈ r.marks, s = .ok) (hstatus : r.status ≠ .ok) :
    Drained c₀ pending active admission r (update pending p (l₁ ++ l₂)) active := by
  refine ⟨hrep, by simp [hspawned], fun q b => ?_, by simp [hspawned], fun b hb => ?_, hframe,
    hmarks, fun _ => Or.inr (hrejected.trans hadmission.symm), fun _ => hstatus⟩
  · rw [h.mem_iff, hspawned, hrejected]
    simp [eq_comm]
  · rw [hrejected] at hb
    obtain rfl : a = b := by simpa using hb
    exact ⟨hadmission, by simp [hspawned], p, h.mem⟩

theorem Drained.afterSpawn {c₀ c₁ : AsyncClient}
    {pending' : Priority → List Addr} {active' : List Addr}
    (h : Held c pending active a p l₁ l₂)
    (hr : Drained c₁ (update pending p (l₁ ++ l₂)) (a :: active) admission r pending' active')
    (hframe : Frame c₀ c₁ fun b => ∃ q, b ∈ pending q) (hmarks : ∀ s ∈ marks, s = .ok) :
    Drained c₀ pending active admission (r.afterSpawn a marks) pending' active' := by
  have ha := h.mem
  have hmem := h.mem_iff
  have hnotSpawned : a ∉ r.spawned := fun hspawned => by
    obtain ⟨q, hq⟩ := hr.spawned a hspawned
    exact h.notPending q hq
  refine ⟨hr.rep, fun b => ?_, fun q b => ?_, fun b hb => ?_, fun b hb => ?_, ?_, ?_, hr.status,
    hr.refused⟩
  · rw [hr.active_iff b]
    simp only [DrainResult.afterSpawn, List.mem_cons]
    tauto
  · rw [hr.pending_iff q b, hmem]
    simp only [DrainResult.afterSpawn, List.mem_cons, not_or]
    tauto
  · rcases List.mem_cons.mp hb with rfl | hb
    · exact ⟨p, ha⟩
    · obtain ⟨q, hq⟩ := hr.spawned b hb
      exact ⟨q, ((hmem q b).mp hq).1⟩
  · obtain ⟨hadmission, hspawned, q, hq⟩ := hr.rejected b hb
    obtain ⟨hq, hba⟩ := (hmem q b).mp hq
    exact ⟨hadmission, fun hcons => (List.mem_cons.mp hcons).elim hba hspawned, q, hq⟩
  · refine hframe.trans (hr.frame.mono fun b hb => ?_)
    obtain ⟨q, hq⟩ := hb
    exact ⟨q, ((hmem q b).mp hq).1⟩
  · intro s hs
    rcases List.mem_append.mp hs with hs | hs
    · exact hmarks s hs
    · exact hr.marks s hs

theorem Held.dispatch {room : Nat} (h : Held c pending active a p l₁ l₂)
    (hframe : Frame c₀ c fun a => ∃ p, a ∈ pending p)
    (hready : (c.requests a).cancelRequested = true ∨
      routeActive c.activeRoutes (c.requests a).route = false)
    (hroom : c.active + (room + 1) ≤ c.concurrency)
    (hrest : ∀ {c : AsyncClient} {pending : Priority → List Addr} {active : List Addr},
      QueueRep c pending active → c.active + room ≤ c.concurrency →
        ∃ pending' active', Drained c pending active admission (rest c) pending' active') :
    ∃ pending' active', Drained c₀ pending active admission
      (c.dispatch admission a { priority := p, previous := l₁.getLast?, next := l₂.head? } input
        rest) pending' active' := by
  have hdispatched : Dispatched c pending active admission a p l₁ l₂ rest
      (c.dispatch admission a { priority := p, previous := l₁.getLast?, next := l₂.head? } input
        rest) := h.dispatched hready (by omega)
  generalize AsyncClient.dispatch _ _ _ _ _ _ = r at hdispatched ⊢
  cases hdispatched with
  | back hrep hframe' _ hspawned hrejected hmarks hstatus =>
    exact ⟨pending, active, .done hrep (hframe.trans hframe') hspawned hrejected hmarks hstatus⟩
  | handed hadmission hrep hframe' _ hspawned hrejected hmarks hstatus =>
    exact ⟨_, active, .handed h hadmission hrep (hframe.trans hframe') hspawned hrejected hmarks
      hstatus⟩
  | started hrep hframe' _ hactive hmarks =>
    obtain ⟨pending', active', hdrained⟩ := hrest hrep (by
      rw [hframe'.concurrency, hactive]
      omega)
    exact ⟨pending', active', .afterSpawn h hdrained (hframe.trans hframe') hmarks⟩

theorem drainLoop_spec {room : Nat} {inputs : Nat → DrainInput} (h : QueueRep c pending active)
    (hroom : c.active + room ≤ c.concurrency) :
    ∃ pending' active', Drained c pending active admission (drainLoop admission room inputs c)
      pending' active' := by
  induction room generalizing c pending active inputs with
  | zero => exact ⟨pending, active, .done h (Frame.refl _ _) rfl rfl nofun fun _ => rfl⟩
  | succ room ih =>
    rw [drainLoop]
    by_cases hstop : (inputs 0).stopping = true
    · simp only [hstop, if_true]
      exact ⟨pending, active, .done h (Frame.refl _ _) rfl rfl nofun fun _ => rfl⟩
    · simp only [hstop]
      rcases takeNext_cases h (inputs 0).now with
        ⟨limits, hnone⟩ | ⟨p, l₁, a, l₂, c₁, hsome, hheld, hframe, hsame, hready⟩
      · simp only [hnone]
        exact ⟨pending, active, .done (h.setLimits limits) (Frame.setLimits _ _ _) rfl rfl nofun
          fun _ => rfl⟩
      · simp only [hsome]
        refine hheld.dispatch (hframe.mono fun b hb => ⟨p, hb⟩) hready ?_ ih
        rw [hframe.concurrency, hsame.active]
        exact hroom

/-- **A drain keeps the queues**: what its workers were started for is active,
and everything else is where it was. -/
theorem drainImplLocked_spec (h : QueueRep c pending active) (admission : Option Addr)
    (inputs : Nat → DrainInput) :
    ∃ pending' active', Drained c pending active admission (c.drainImplLocked admission inputs)
      pending' active' := by
  refine drainLoop_spec h ?_
  have hle := h.activeRep.count_le
  omega

theorem Drained.trans {r r' : DrainResult} {pending' pending'' : Priority → List Addr}
    {active' active'' : List Addr} (h : Drained c pending active none r pending' active')
    (h' : Drained r.client pending' active' none r' pending'' active'') :
    Drained c pending active none
      { r' with spawned := r.spawned ++ r'.spawned, marks := r.marks ++ r'.marks }
      pending'' active'' := by
  have hnone : r.rejected = none := by
    rcases hr : r.rejected with _ | a
    · rfl
    · exact absurd (h.rejected a hr).1 nofun
  refine ⟨h'.rep, fun a => ?_, fun q a => ?_, fun a ha => ?_, fun a ha => ?_, ?_, ?_, nofun,
    h'.refused⟩
  · rw [h'.active_iff, h.active_iff, List.mem_append]
    tauto
  · rw [h'.pending_iff, h.pending_iff, hnone, List.mem_append]
    simp only [ne_eq, reduceCtorEq, not_false_eq_true, and_true]
    tauto
  · rcases List.mem_append.mp ha with ha | ha
    · exact h.spawned a ha
    · obtain ⟨q, hq⟩ := h'.spawned a ha
      exact ⟨q, ((h.pending_iff q a).mp hq).1⟩
  · exact absurd (h'.rejected a ha).1 nofun
  · refine h.frame.trans (h'.frame.mono fun a ha => ?_)
    obtain ⟨q, hq⟩ := ha
    exact ⟨q, ((h.pending_iff q a).mp hq).1⟩
  · intro s hs
    rcases List.mem_append.mp hs with hs | hs
    · exact h.marks s hs
    · exact h'.marks s hs

section

variable (h : QueueRep c pending active)
include h

theorem drainTwiceLocked_spec (inputs againInputs : Nat → DrainInput) :
    ∃ pending' active', Drained c pending active none (c.drainTwiceLocked inputs againInputs)
      pending' active' := by
  obtain ⟨pending', active', hfirst⟩ := drainImplLocked_spec h none inputs
  rw [drainTwiceLocked]
  by_cases hok : (c.drainLocked inputs).status = .ok
  · simp only [hok, if_true]
    exact ⟨pending', active', hfirst⟩
  · simp only [hok, if_false]
    obtain ⟨pending'', active'', hagain⟩ := drainImplLocked_spec hfirst.rep none againInputs
    exact ⟨pending'', active'', hfirst.trans hagain⟩

/-! ## The other operations of the client -/

theorem QueueRep.pushTail (hp : (c.requests a).priority = p)
    (hpending : ∀ q, a ∉ pending q) (hactive : a ∉ active) (hlt : a < c.allocated) :
    QueueRep (c.pushTailLocked a) (update pending p (pending p ++ [a])) active := by
  have hframe := h.pendingRep.pushTail_frame hp
  have hsame := sameActive_pushTail c a
  refine ⟨h.pendingRep.pushTail hp hpending hlt, h.activeRep.congr hsame hframe,
    h.routesRep.congr hsame hframe, fun q b hb => ?_⟩
  by_cases hq : q = p
  · subst hq
    rw [update_self, List.mem_append, List.mem_singleton] at hb
    rcases hb with hb | rfl
    · exact h.disjoint q b hb
    · exact hactive
  · rw [update_of_ne hq] at hb
    exact h.disjoint q b hb

theorem QueueRep.finishActive (ha : a ∈ active) :
    (∃ active', QueueRep (c.finishActiveLocked a) pending active' ∧
      ∀ b, b ∈ active' ↔ b ∈ active ∧ b ≠ a) ∧
      ∀ moved, Frame c (c.finishActiveLocked a) moved := by
  obtain ⟨l₁, l₂, rfl⟩ := List.append_of_mem ha
  have hnotMem : a ∉ l₁ ++ l₂ := by
    have hnodup := h.activeRep.nodup
    rw [List.nodup_middle, List.nodup_cons] at hnodup
    exact hnodup.1
  have hframe := frame_deactivated c l₁ a
  have hmem : ∀ b, b ∈ l₁ ++ l₂ ↔ b ∈ l₁ ++ a :: l₂ ∧ b ≠ a := by
    intro b
    by_cases hb : b = a
    · subst hb
      simp [hnotMem]
    · simp [hb]
  rw [h.activeRep.finishActive_eq]
  refine ⟨⟨l₁ ++ l₂, ⟨?_, h.activeRep.deactivate, h.routesRep.deactivate hnotMem, ?_⟩, hmem⟩, hframe⟩
  · exact h.pendingRep.congr rfl rfl (Nat.le_refl _) fun q b _ =>
      ⟨(hframe fun _ => False).next b not_false, (hframe fun _ => False).priority b⟩
  · intro q b hb hba
    exact h.disjoint q b hb ((hmem b).mp hba).1

theorem QueueRep.detachAll :
    QueueRep c.detachPendingAllLocked.1 (fun _ => []) active := by
  have hdetached := h.pendingRep.detachAll
  exact ⟨hdetached.rep, h.activeRep.congr hdetached.same hdetached.frame,
    h.routesRep.congr hdetached.same hdetached.frame, nofun⟩

theorem QueueRep.setNext (ha : ∀ p, a ∉ pending p)
    (v : Option Addr) : QueueRep (c.setNext a v) pending active := by
  have hnext : ∀ b, b ≠ a → update c.nextOf a v b = c.nextOf b := fun b hb => update_of_ne hb _ _
  rw [setNext_eq]
  have hframe : Frame c (c.relinked (update c.nextOf a v) c.heads c.tails) (· = a) :=
    Frame.relinked hnext
  refine ⟨h.pendingRep.congr rfl rfl (Nat.le_refl _) fun q b hb => ⟨hnext b ?_, rfl⟩,
    h.activeRep.congr (SameActive.relinked c _ _ _) hframe,
    h.routesRep.congr (SameActive.relinked c _ _ _) hframe, h.disjoint⟩
  rintro rfl
  exact ha q hb

end

theorem frame_setNext (c : AsyncClient) (a : Addr) (v : Option Addr) :
    Frame c (c.setNext a v) (· = a) := by
  rw [setNext_eq]
  exact Frame.relinked fun b hb => update_of_ne hb _ _

theorem QueueRep.create (h : QueueRep c pending active) (request : AsyncRequest) :
    QueueRep
      { c with
        requests := update c.requests c.allocated request
        allocated := c.allocated + 1 } pending active := by
  have hother : ∀ b, b < c.allocated → update c.requests c.allocated request b = c.requests b :=
    fun b hb => update_of_ne (Nat.ne_of_lt hb) _ _
  refine ⟨h.pendingRep.congr rfl rfl (Nat.le_succ _) fun q b hb => ?_, ⟨?_, h.activeRep.count,
    h.activeRep.count_le, fun b hb => Nat.lt_succ_of_lt (h.activeRep.allocated b hb)⟩,
    ⟨?_, h.routesRep.nodup, h.routesRep.nonempty⟩, h.disjoint⟩
  · simp [hother b (h.pendingRep.allocated q b hb)]
  · refine h.activeRep.seg.congr fun b hb => ?_
    simp [activeNextOf, hother b (h.activeRep.allocated b hb)]
  · refine h.routesRep.claimed.trans (List.Perm.of_eq (List.filterMap_congr fun b hb => ?_))
    simp [claimedRoute, hother b (h.activeRep.allocated b hb)]

theorem QueueRep.cancelRequest (h : QueueRep c pending active) (a : Addr) :
    QueueRep (c.cancelRequest a) pending active :=
  h.modify (fun _ => ⟨rfl, rfl, rfl, rfl⟩) fun _ => rfl

theorem frame_cancelRequest (c : AsyncClient) (a : Addr) (moved : Addr → Prop) :
    Frame c (c.cancelRequest a) moved :=
  frame_modify c a _ moved fun _ => ⟨rfl, rfl, rfl, rfl⟩

theorem QueueRep.cancelActive (h : QueueRep c pending active) :
    QueueRep c.cancelActiveLocked pending active ∧ ∀ moved, Frame c c.cancelActiveLocked moved := by
  have hloop : ∀ (fuel : Nat) (c : AsyncClient) (request : Option Addr),
      QueueRep c pending active → QueueRep (cancelActiveLoop fuel c request) pending active ∧
        ∀ moved, Frame c (cancelActiveLoop fuel c request) moved := by
    intro fuel
    induction fuel with
    | zero => exact fun c _ h => ⟨h, fun moved => Frame.refl c moved⟩
    | succ fuel ih =>
      intro c request h
      cases request with
      | none => exact ⟨h, fun moved => Frame.refl c moved⟩
      | some a =>
        obtain ⟨hrep, hframe⟩ := ih _ (c.requests a).activeNext (h.cancelRequest a)
        exact ⟨hrep, fun moved => (frame_cancelRequest c a moved).trans (hframe moved)⟩
  exact hloop _ c _ h

end Dcc.Rest.AsyncClient
