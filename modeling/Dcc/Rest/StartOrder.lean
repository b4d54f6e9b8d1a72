import Dcc.Rest.AsyncRuns
import Dcc.Rest.TakeOrder

/-!
# The order in which requests are started

A run starts a request when a drain makes it active and starts its worker.  As
long as nothing is retried, the pending lists are in the order of submission,
and a drain takes the first ready request of a list; requests of one priority
and one route are ready together, unless one of them is canceled.

* `drainImplLocked_orderly`: what a drain starts and what it leaves;
* `dispatch_order`: what a take returns, that putting it back undoes the take,
  and the order of all starts of a run;
* `canceled_overtakes`: a canceled request is started before an earlier one.

Addresses are given out in the order of submission, so `a < b` says that `a` has
been submitted before `b`.
-/

namespace Dcc.Rest

open Linked Function

namespace AsyncClient

variable {c c' : AsyncClient} {pending pending' : Priority → List Addr} {active : List Addr}
  {p : Priority} {a b : Addr} {now : Nat} {admission : Option Addr} {r : DrainResult}

/-- `a` may be started and then `b`: unless `a` is canceled, or they differ in
priority or route, `a` has been submitted first. -/
def InOrder (c : AsyncClient) (a b : Addr) : Prop :=
  (c.requests a).cancelRequested = false → (c.requests a).priority = (c.requests b).priority →
    (c.requests a).route = (c.requests b).route → a < b

/-- The pending requests are in the order of submission, and no retry time holds
one of them back. -/
structure Sorted (c : AsyncClient) (pending : Priority → List Addr) : Prop where
  sorted : ∀ p, (pending p).Pairwise (· < ·)
  prompt : ∀ p, ∀ a ∈ pending p, (c.requests a).notBeforeMs = 0

theorem Sorted.sublist (h : Sorted c pending) (hsub : ∀ p, (pending' p).Sublist (pending p))
    (hflags : SameFlags c c') : Sorted c' pending' where
  sorted p := (h.sorted p).sublist (hsub p)
  prompt p a ha := by
    rw [hflags.notBeforeMs]
    exact h.prompt p a ((hsub p).subset ha)

variable {moved : Addr → Prop}

theorem InOrder.congr (hflags : SameFlags c c') (hframe : Frame c c' moved) :
    InOrder c' a b ↔ InOrder c a b := by
  simp only [InOrder, hflags.cancelRequested, hframe.priority, hframe.route]

theorem Ready.of_same_route (h : c.Ready now a) (hlive : (c.requests a).cancelRequested = false)
    (hroute : (c.requests a).route = (c.requests b).route)
    (hprompt : (c.requests b).notBeforeMs = 0) : c.Ready now b := by
  rcases h with h | ⟨hidle, hwait⟩
  · rw [hlive] at h
    exact absurd h nofun
  · have hzero := routeWait_of_requestWait hwait
    rw [hroute] at hidle hzero
    refine Or.inr ⟨hidle, ?_⟩
    simp only [requestWaitMsLocked, hprompt, Nat.not_lt_zero, false_and, if_false]
    exact hzero

variable {l₁ l₂ : List Addr}

/-- **A taken request is in order** with the requests that stay. -/
theorem FirstReady.inOrder (h : FirstReady c pending now p l₁ a l₂)
    (hrep : PendingRep c pending) (hsorted : Sorted c pending) {q : Priority}
    (hb : b ∈ update pending p (l₁ ++ l₂) q) : InOrder c a b := by
  intro hlive hpriority hroute
  have ha : a ∈ pending p := by
    rw [h.place]
    simp
  have hlist := hsorted.sorted p
  rw [h.place, List.pairwise_append, List.pairwise_cons] at hlist
  by_cases hq : q = p
  · subst hq
    rw [update_self] at hb
    rcases List.mem_append.mp hb with hb | hb
    · have hbmem : b ∈ pending q := by
        rw [h.place]
        exact List.mem_append_left _ hb
      exact absurd (h.ready.of_same_route hlive hroute (hsorted.prompt q b hbmem)) (h.first b hb)
    · exact hlist.2.1.1 b hb
  · rw [update_of_ne hq] at hb
    rw [hrep.priority p a ha, hrep.priority q b hb] at hpriority
    exact absurd hpriority.symm hq

/-! ## Drains -/

/-- What a drain starts, and what it leaves pending. -/
structure Orderly (c : AsyncClient) (pending : Priority → List Addr) (r : DrainResult)
    (pending' : Priority → List Addr) : Prop where
  rep : ∃ active', QueueRep r.client pending' active'
  wasPending : ∀ a ∈ r.spawned, ∃ p, a ∈ pending p
  sublist : ∀ p, (pending' p).Sublist (pending p)
  started : r.spawned.Pairwise (InOrder c)
  left : ∀ a ∈ r.spawned, ∀ p, ∀ b ∈ pending' p, InOrder c a b
  frame : Frame c r.client fun a => ∃ p, a ∈ pending p
  flags : SameFlags c r.client

theorem Orderly.of_none (hrep : QueueRep r.client pending' active) (hspawned : r.spawned = [])
    (hsub : ∀ p, (pending' p).Sublist (pending p))
    (hframe : Frame c r.client fun a => ∃ p, a ∈ pending p) (hflags : SameFlags c r.client) :
    Orderly c pending r pending' := by
  refine ⟨⟨active, hrep⟩, ?_, hsub, ?_, ?_, hframe, hflags⟩
  · simp [hspawned]
  · simp [hspawned]
  · simp [hspawned]

theorem sublist_unlink (hl : pending p = l₁ ++ a :: l₂) (q : Priority) :
    (update pending p (l₁ ++ l₂) q).Sublist (pending q) := by
  by_cases hq : q = p
  · subst hq
    rw [update_self, hl]
    exact (List.Sublist.refl l₁).append (List.sublist_cons_self a l₂)
  · rw [update_of_ne hq]

theorem Orderly.afterSpawn {marks : List Status}
    (h : FirstReady c pending now p l₁ a l₂) (hrep : PendingRep c pending)
    (hsorted : Sorted c pending)
    (hr : Orderly c' (update pending p (l₁ ++ l₂)) r pending')
    (hframe : Frame c c' fun a => ∃ p, a ∈ pending p) (hflags : SameFlags c c') :
    Orderly c pending (r.afterSpawn a marks) pending' := by
  have hsub := sublist_unlink h.place
  have ha : a ∈ pending p := by
    rw [h.place]
    simp
  have hcongr : ∀ {b d : Addr}, InOrder c' b d → InOrder c b d := fun hbd =>
    (InOrder.congr hflags hframe).mp hbd
  refine ⟨hr.rep, fun b hb => ?_, fun q => (hr.sublist q).trans (hsub q), ?_, fun b hb q d hd => ?_,
    hframe.trans (hr.frame.mono ?_), hflags.trans hr.flags⟩
  · rcases List.mem_cons.mp hb with rfl | hb
    · exact ⟨p, ha⟩
    · obtain ⟨q, hq⟩ := hr.wasPending b hb
      exact ⟨q, (hsub q).subset hq⟩
  · refine List.pairwise_cons.mpr ⟨fun b hb => ?_, hr.started.imp hcongr⟩
    obtain ⟨q, hq⟩ := hr.wasPending b hb
    exact h.inOrder hrep hsorted hq
  · rcases List.mem_cons.mp hb with rfl | hb
    · exact h.inOrder hrep hsorted ((hr.sublist q).subset hd)
    · exact hcongr (hr.left b hb q d hd)
  · intro b hb
    obtain ⟨q, hq⟩ := hb
    exact ⟨q, (hsub q).subset hq⟩

theorem drainLoop_orderly {room : Nat} {inputs : Nat → DrainInput} (h : QueueRep c pending active)
    (hsorted : Sorted c pending) (hroom : c.active + room ≤ c.concurrency) :
    ∃ pending', Orderly c pending (drainLoop admission room inputs c) pending' := by
  induction room generalizing c pending active inputs with
  | zero =>
    exact ⟨pending, .of_none h rfl (fun _ => List.Sublist.refl _) (Frame.refl _ _)
      (SameFlags.refl _)⟩
  | succ room ih =>
    rw [drainLoop]
    by_cases hstop : (inputs 0).stopping = true
    · simp only [hstop, if_true]
      exact ⟨pending, .of_none h rfl (fun _ => List.Sublist.refl _) (Frame.refl _ _)
        (SameFlags.refl _)⟩
    · simp only [hstop]
      rcases takeNextLocked_cases h.pendingRep (inputs 0).now with
        ⟨limits, hnone, -⟩ | ⟨limits, p, l₁, a, l₂, hsome, hfirst⟩
      · simp only [hnone]
        exact ⟨pending, .of_none (h.setLimits limits) rfl (fun _ => List.Sublist.refl _)
          (Frame.setLimits _ _ _) ⟨fun _ => rfl, fun _ => rfl⟩⟩
      · simp only [hsome]
        obtain ⟨hheld, hframe, hsame, hflags⟩ := h.unlink limits hfirst.place
        generalize { c with limits := limits }.unlinkPending p l₁.getLast? a = c₁
          at hheld hframe hsame hflags ⊢
        have hframe : Frame c c₁ fun b => ∃ q, b ∈ pending q := hframe.mono fun b hb => ⟨p, hb⟩
        have hready : (c₁.requests a).cancelRequested = true ∨
            routeActive c₁.activeRoutes (c₁.requests a).route = false := by
          rw [hflags.cancelRequested, hsame.activeRoutes, hframe.route]
          exact hfirst.ready.imp_right And.left
        have hroom₁ : c₁.active + (room + 1) ≤ c₁.concurrency := by
          rw [hframe.concurrency, hsame.active]
          exact hroom
        have hdispatched : Dispatched c₁ pending active admission a p l₁ l₂ _
            (c₁.dispatch admission a { priority := p, previous := l₁.getLast?, next := l₂.head? }
              (inputs 0) (drainLoop admission room fun n => inputs (n + 1))) :=
          hheld.dispatched hready (by omega)
        generalize AsyncClient.dispatch _ _ _ _ _ _ = r at hdispatched ⊢
        cases hdispatched with
        | back hrep hframe' hflags' hspawned _ _ _ =>
          exact ⟨pending, .of_none hrep hspawned (fun _ => List.Sublist.refl _)
            (hframe.trans hframe') (hflags.trans hflags')⟩
        | handed _ hrep hframe' hflags' hspawned _ _ _ =>
          exact ⟨_, .of_none hrep hspawned (sublist_unlink hfirst.place)
            (hframe.trans hframe') (hflags.trans hflags')⟩
        | started hrep hframe' hflags' hactive _ =>
          have hflags'' := hflags.trans hflags'
          obtain ⟨pending', hr⟩ := ih hrep (hsorted.sublist (sublist_unlink hfirst.place) hflags'')
            (show _ + room ≤ _ by
              rw [hframe'.concurrency, hactive]
              omega)
          exact ⟨pending', .afterSpawn hfirst h.pendingRep hsorted hr (hframe.trans hframe')
            hflags''⟩

/-- **A drain starts requests in order.** -/
theorem drainImplLocked_orderly (h : QueueRep c pending active) (hsorted : Sorted c pending)
    (admission : Option Addr) (inputs : Nat → DrainInput) :
    ∃ pending', Orderly c pending (c.drainImplLocked admission inputs) pending' := by
  refine drainLoop_orderly h hsorted ?_
  have hle := h.activeRep.count_le
  omega

theorem drainTwiceLocked_orderly (h : QueueRep c pending active) (hsorted : Sorted c pending)
    (inputs againInputs : Nat → DrainInput) :
    ∃ pending', Orderly c pending (c.drainTwiceLocked inputs againInputs) pending' := by
  obtain ⟨pending', hr⟩ := drainImplLocked_orderly h hsorted none inputs
  rw [drainTwiceLocked, drainLocked]
  by_cases hok : (c.drainImplLocked none inputs).status = .ok
  · simp only [hok, if_true]
    exact ⟨pending', hr⟩
  · simp only [hok, if_false]
    obtain ⟨active', hrep⟩ := hr.rep
    obtain ⟨pending'', hr'⟩ := drainImplLocked_orderly hrep (hsorted.sublist hr.sublist hr.flags)
      none againInputs
    have hcongr : ∀ {b d : Addr}, InOrder (c.drainImplLocked none inputs).client b d →
        InOrder c b d := fun hbd => (InOrder.congr hr.flags hr.frame).mp hbd
    refine ⟨pending'', hr'.rep, fun b hb => ?_, fun q => (hr'.sublist q).trans (hr.sublist q), ?_,
      fun b hb q d hd => ?_, hr.frame.trans (hr'.frame.mono ?_), hr.flags.trans hr'.flags⟩
    · rcases List.mem_append.mp hb with hb | hb
      · exact hr.wasPending b hb
      · obtain ⟨q, hq⟩ := hr'.wasPending b hb
        exact ⟨q, (hr.sublist q).subset hq⟩
    · refine List.pairwise_append.mpr ⟨hr.started, hr'.started.imp hcongr, fun b hb d hd => ?_⟩
      obtain ⟨q, hq⟩ := hr'.wasPending d hd
      exact hr.left b hb q d hq
    · rcases List.mem_append.mp hb with hb | hb
      · exact hr.left b hb q d ((hr'.sublist q).subset hd)
      · exact hcongr (hr'.left b hb q d hd)
    · intro b hb
      obtain ⟨q, hq⟩ := hb
      exact ⟨q, (hr.sublist q).subset hq⟩

/-! ## Operations of a step -/

/-- What an operation does to the order: the requests of `started` are started,
and the pending requests are old ones or new ones. -/
structure Moves (c : AsyncClient) (pending : Priority → List Addr) (started : List Addr)
    (c' : AsyncClient) (pending' : Priority → List Addr) : Prop where
  rep : ∃ active', QueueRep c' pending' active'
  sorted : Sorted c' pending'
  allocated : c.allocated ≤ c'.allocated
  same : ∀ a, a < c.allocated → (c'.requests a).priority = (c.requests a).priority ∧
    (c'.requests a).route = (c.requests a).route
  old : ∀ p, ∀ a ∈ pending' p, a ∈ pending p ∨ c.allocated ≤ a
  wasPending : ∀ a ∈ started, ((∃ p, a ∈ pending p) ∨ c.allocated ≤ a) ∧ a < c'.allocated
  inOrder : started.Pairwise (InOrder c')
  left : ∀ a ∈ started, ∀ p, ∀ b ∈ pending' p, InOrder c' a b

theorem Moves.of_rep (hrep : QueueRep c' pending active) (hsorted : Sorted c pending)
    (hallocated : c'.allocated = c.allocated)
    (hsame : ∀ a, (c'.requests a).priority = (c.requests a).priority ∧
      (c'.requests a).route = (c.requests a).route ∧
      (c'.requests a).notBeforeMs = (c.requests a).notBeforeMs) :
    Moves c pending [] c' pending where
  rep := ⟨active, hrep⟩
  sorted := by
    refine ⟨hsorted.sorted, fun p a ha => ?_⟩
    rw [(hsame a).2.2]
    exact hsorted.prompt p a ha
  allocated := Nat.le_of_eq hallocated.symm
  same a _ := ⟨(hsame a).1, (hsame a).2.1⟩
  old _ _ ha := Or.inl ha
  wasPending := nofun
  inOrder := List.Pairwise.nil
  left := nofun

theorem Moves.of_frame (hrep : QueueRep c' pending active)
    (hsorted : Sorted c pending) (hframe : Frame c c' moved)
    (hprompt : ∀ a, (c'.requests a).notBeforeMs = (c.requests a).notBeforeMs) :
    Moves c pending [] c' pending :=
  .of_rep hrep hsorted hframe.allocated fun a => ⟨hframe.priority a, hframe.route a, hprompt a⟩

theorem Moves.modify {f : AsyncRequest → AsyncRequest} (hrep : QueueRep c pending active)
    (hsorted : Sorted c pending) (a : Addr)
    (hf : ∀ r, (f r).priority = r.priority ∧ (f r).route = r.route ∧ (f r).next = r.next ∧
      (f r).activeNext = r.activeNext ∧ (f r).routeClaimed = r.routeClaimed ∧
      (f r).notBeforeMs = r.notBeforeMs) : Moves c pending [] (c.modify a f) pending := by
  refine .of_rep (hrep.modify (fun r => ?_) fun _ => (hf _).2.2.2.2.1) hsorted rfl fun b => ?_
  · exact ⟨(hf r).1, (hf r).2.1, (hf r).2.2.1, (hf r).2.2.2.1⟩
  · rw [modify_requests]
    split
    · exact ⟨(hf _).1, (hf _).2.1, (hf _).2.2.2.2.2⟩
    · exact ⟨rfl, rfl, rfl⟩

theorem Moves.refl (hrep : QueueRep c pending active) (hsorted : Sorted c pending) :
    Moves c pending [] c pending :=
  .of_frame hrep hsorted (Frame.refl c fun _ => False) fun _ => rfl

theorem Moves.trans {c'' : AsyncClient} {pending'' : Priority → List Addr} {started : List Addr}
    (h : Moves c pending [] c' pending') (h' : Moves c' pending' started c'' pending'') :
    Moves c pending started c'' pending'' where
  rep := h'.rep
  sorted := h'.sorted
  allocated := Nat.le_trans h.allocated h'.allocated
  same a ha := by
    obtain ⟨hpriority, hroute⟩ := h'.same a (Nat.lt_of_lt_of_le ha h.allocated)
    rw [hpriority, hroute]
    exact h.same a ha
  old p a ha := by
    rcases h'.old p a ha with hold | hnew
    · exact h.old p a hold
    · exact Or.inr (Nat.le_trans h.allocated hnew)
  wasPending a ha := by
    obtain ⟨hwas, hlt⟩ := h'.wasPending a ha
    refine ⟨?_, hlt⟩
    rcases hwas with ⟨p, hp⟩ | hnew
    · rcases h.old p a hp with hold | hnew
      · exact Or.inl ⟨p, hold⟩
      · exact Or.inr hnew
    · exact Or.inr (Nat.le_trans h.allocated hnew)
  inOrder := h'.inOrder
  left := h'.left

theorem Orderly.moves (hr : Orderly c pending r pending') (hrep : PendingRep c pending)
    (hsorted : Sorted c pending) : Moves c pending r.spawned r.client pending' where
  rep := hr.rep
  sorted := hsorted.sublist hr.sublist hr.flags
  allocated := Nat.le_of_eq hr.frame.allocated.symm
  same a _ := ⟨hr.frame.priority a, hr.frame.route a⟩
  old p a ha := Or.inl ((hr.sublist p).subset ha)
  wasPending a ha := by
    obtain ⟨p, hp⟩ := hr.wasPending a ha
    rw [hr.frame.allocated]
    exact ⟨Or.inl ⟨p, hp⟩, hrep.allocated p a hp⟩
  inOrder := hr.started.imp (InOrder.congr hr.flags hr.frame).mpr
  left a ha p b hb := (InOrder.congr hr.flags hr.frame).mpr (hr.left a ha p b hb)

theorem Moves.drainImpl (h : Moves c pending [] c' pending') (admission : Option Addr)
    (inputs : Nat → DrainInput) :
    ∃ pending'', Moves c pending (c'.drainImplLocked admission inputs).spawned
      (c'.drainImplLocked admission inputs).client pending'' := by
  obtain ⟨active', hrep⟩ := h.rep
  obtain ⟨pending'', hr⟩ := drainImplLocked_orderly hrep h.sorted admission inputs
  exact ⟨pending'', h.trans (hr.moves hrep.pendingRep h.sorted)⟩

theorem Moves.drainTwice (h : Moves c pending [] c' pending') (inputs againInputs : Nat → DrainInput) :
    ∃ pending'', Moves c pending (c'.drainTwiceLocked inputs againInputs).spawned
      (c'.drainTwiceLocked inputs againInputs).client pending'' := by
  obtain ⟨active', hrep⟩ := h.rep
  obtain ⟨pending'', hr⟩ := drainTwiceLocked_orderly hrep h.sorted inputs againInputs
  exact ⟨pending'', h.trans (hr.moves hrep.pendingRep h.sorted)⟩

theorem QueueRep.unique {active' : List Addr} (h : QueueRep c pending active)
    (h' : QueueRep c pending' active') : pending = pending' ∧ active = active' := by
  refine ⟨funext fun p => ?_, h.activeRep.seg.unique h'.activeRep.seg⟩
  exact (h.pendingRep.listed p).seg.unique (h'.pendingRep.listed p).seg

theorem Moves.finishActive (h : QueueRep c pending active) (hsorted : Sorted c pending)
    (ha : a ∈ active) : Moves c pending [] (c.finishActiveLocked a) pending := by
  obtain ⟨⟨active', hrep, -⟩, hframe⟩ := h.finishActive ha
  refine .of_frame hrep hsorted (hframe fun _ => False) fun b => ?_
  obtain ⟨l₁, l₂, rfl⟩ := List.append_of_mem ha
  rw [h.activeRep.finishActive_eq]
  rfl

theorem Moves.detachAll (h : QueueRep c pending active) :
    Moves c pending [] c.detachPendingAllLocked.1 fun _ => [] := by
  have hframe := h.pendingRep.detachAll.frame
  exact ⟨⟨active, h.detachAll⟩, ⟨fun _ => List.Pairwise.nil, nofun⟩,
    Nat.le_of_eq hframe.allocated.symm, fun a _ => ⟨hframe.priority a, hframe.route a⟩, nofun, nofun,
    List.Pairwise.nil, nofun⟩

/-- A new request at the end of the list of its priority. -/
theorem Moves.submit (h : QueueRep c pending active) (hsorted : Sorted c pending)
    (request : AsyncRequest) (hprompt : request.notBeforeMs = 0) :
    ∃ pending', Moves c pending []
      ({ c with
          requests := update c.requests c.allocated request
          allocated := c.allocated + 1 }.pushTailLocked c.allocated) pending' := by
  have hfresh : ∀ q, c.allocated ∉ pending q := fun q hq =>
    absurd (h.pendingRep.allocated q _ hq) (Nat.lt_irrefl _)
  have hactive : c.allocated ∉ active := fun ha =>
    absurd (h.activeRep.allocated _ ha) (Nat.lt_irrefl _)
  have hcreated := h.create request
  generalize hc : ({ c with
      requests := update c.requests c.allocated request
      allocated := c.allocated + 1 } : AsyncClient) = c₁ at hcreated ⊢
  have hallocated : c₁.allocated = c.allocated + 1 := by rw [← hc]
  have hlt : c.allocated < c₁.allocated := by
    rw [hallocated]
    exact Nat.lt_succ_self _
  have hnew : c₁.requests c.allocated = request := by
    rw [← hc]
    exact update_self _ _ _
  have hother : ∀ b, b ≠ c.allocated → c₁.requests b = c.requests b := by
    intro b hb
    rw [← hc]
    exact update_of_ne hb _ _
  have hframe := hcreated.pendingRep.pushTail_frame (a := c.allocated) rfl
  have hflag : ∀ b, ((c₁.pushTailLocked c.allocated).requests b).notBeforeMs =
      (c₁.requests b).notBeforeMs := by
    intro b
    rw [pushTailLocked_eq c₁ rfl]
    rfl
  refine ⟨_, ⟨active, hcreated.pushTail rfl hfresh hactive hlt⟩, ⟨fun q => ?_, ?_⟩, ?_, ?_,
    ?_, nofun, List.Pairwise.nil, nofun⟩
  · by_cases hq : q = (c₁.requests c.allocated).priority
    · rw [hq, update_self, List.pairwise_append]
      refine ⟨hsorted.sorted _, List.pairwise_singleton _ _, fun b hb d hd => ?_⟩
      rw [List.mem_singleton.mp hd]
      exact h.pendingRep.allocated _ b hb
    · rw [update_of_ne hq]
      exact hsorted.sorted q
  · intro q b hb
    rw [hflag]
    by_cases hb' : b = c.allocated
    · rw [hb', hnew, hprompt]
    · rw [hother b hb']
      refine hsorted.prompt q b ?_
      by_cases hq : q = (c₁.requests c.allocated).priority
      · rw [hq, update_self] at hb
        rw [hq]
        simpa [hb'] using hb
      · rwa [update_of_ne hq] at hb
  · rw [hframe.allocated]
    exact Nat.le_of_lt hlt
  · intro b hb
    rw [hframe.priority, hframe.route, hother b (Nat.ne_of_lt hb)]
    exact ⟨rfl, rfl⟩
  · intro q b hb
    by_cases hq : q = (c₁.requests c.allocated).priority
    · rw [hq, update_self] at hb
      rw [hq]
      rcases List.mem_append.mp hb with hb | hb
      · exact Or.inl hb
      · rw [List.mem_singleton.mp hb]
        exact Or.inr (Nat.le_refl _)
    · rw [update_of_ne hq] at hb
      exact Or.inl hb

end AsyncClient

namespace AsyncSystem

open AsyncClient

variable {s : AsyncSystem} {place : Addr → Option Place} {n : Nat}
  {pending : Priority → List Addr} {active : List Addr}

/-! ## Steps -/

/-- The system that `requeueRetry` drains. -/
def requeued (s : AsyncSystem) (a : Addr) (notBeforeMs : Nat) (input : WorkerInput) : AsyncSystem :=
  let s₁ := (s.finishActive a).modify a fun request =>
    { request with
      resource := (requeue input.stats request.resource).2
      notBeforeMs := notBeforeMs
      callbackCalled := false }
  { s₁ with client := s₁.client.pushTailLocked a }

/-- The requests whose workers a step starts, in the order in which it starts them. -/
def spawnedBy (s : AsyncSystem) : Action → List Addr
  | .submit submission =>
    if s.closed then []
    else
      (((s.create submission).client.pushTailLocked s.client.allocated).drainImplLocked
        (some s.client.allocated) submission.drainInputs).spawned
  | .drain inputs => (s.client.drainLocked inputs).spawned
  | .requestCancel a drainInputs againInputs =>
    if (s.handles a).terminalClaimed then []
    else if s.client.isPendingLocked a then
      ((s.client.cancelRequest a).drainTwiceLocked drainInputs againInputs).spawned
    else []
  | .worker a input =>
    match s.workers a with
    | some (.retrying notBeforeMs) =>
      if !input.wakeAllocated || input.stopping then []
      else ((s.requeued a notBeforeMs input).client.drainLocked input.drainInputs).spawned
    | some .completing =>
      if input.stopping then []
      else
        ((s.finishActive a).client.drainTwiceLocked input.drainInputs input.againInputs).spawned
    | _ => []
  | _ => []

/-- Whether a step puts a request back for a retry. -/
def retries (s : AsyncSystem) : Action → Bool
  | .worker a input =>
    match s.workers a with
    | some (.retrying _) => input.wakeAllocated && !input.stopping
    | _ => false
  | _ => false

theorem Inv.queue (h : Inv n s place) (hrep : QueueRep s.client pending active) :
    (∀ p a, a ∈ pending p ↔ place a = some (.pending p)) ∧
      ∀ a, a ∈ active ↔ place a = some .active := by
  obtain ⟨pending', active', hrep', hpending, hactive⟩ := h.core.placed.queue
  obtain ⟨rfl, rfl⟩ := hrep.unique hrep'
  exact ⟨hpending, hactive⟩

theorem settle_moves (hrep : QueueRep s.client pending active)
    (hsorted : Sorted s.client pending) (a : Addr) (status : Status) :
    Moves s.client pending [] (s.settle a status).client pending := by
  rw [AsyncSystem.settle]
  split
  · exact .refl hrep hsorted
  · exact Moves.modify (f := fun request => { request with callbackCalled := true }) hrep hsorted a
      fun _ => ⟨rfl, rfl, rfl, rfl, rfl, rfl⟩

theorem free_moves (hrep : QueueRep s.client pending active) (hsorted : Sorted s.client pending)
    (a : Addr) (stats : RuntimeStats) :
    Moves s.client pending [] (s.free a stats).client pending :=
  Moves.modify (f := fun request =>
    { request with
      resource := (releaseRequest stats request.resource request.cancelRequested).2 })
    hrep hsorted a fun _ => ⟨rfl, rfl, rfl, rfl, rfl, rfl⟩

/-- **A worker step** that retries nothing keeps the order. -/
theorem Inv.workerStep_moves (h : Inv n s place) (hrep : QueueRep s.client pending active)
    (hsorted : Sorted s.client pending) (a : Addr) (input : WorkerInput)
    (hretry : s.retries (.worker a input) = false) :
    ∃ pending', Moves s.client pending (s.spawnedBy (.worker a input)) (s.workerStep a input).client
      pending' := by
  have hrefl := Moves.refl hrep hsorted
  cases hpc : s.workers a with
  | none =>
    simp only [spawnedBy, AsyncSystem.workerStep, hpc]
    exact ⟨pending, hrefl⟩
  | some pc =>
    cases pc with
    | start =>
      simp only [spawnedBy, AsyncSystem.workerStep, hpc]
      split
      · exact ⟨pending, hrefl⟩
      · exact ⟨pending, hrefl⟩
    | performed status captured =>
      simp only [spawnedBy, AsyncSystem.workerStep, hpc]
      exact ⟨pending, hrefl⟩
    | judged status captured =>
      simp only [spawnedBy, AsyncSystem.workerStep, hpc]
      split
      · exact ⟨pending, Moves.modify
          (f := fun request => { request with retryAttempt := request.retryAttempt + 1 })
          hrep hsorted a fun _ => ⟨rfl, rfl, rfl, rfl, rfl, rfl⟩⟩
      · exact ⟨pending, settle_moves hrep hsorted a _⟩
    | retrying notBeforeMs =>
      simp only [retries, hpc] at hretry
      have hgiven : (!input.wakeAllocated || input.stopping) = true := by
        revert hretry
        cases input.wakeAllocated <;> cases input.stopping <;> simp
      simp only [spawnedBy, AsyncSystem.workerStep, hpc, hgiven, if_true]
      exact ⟨pending, settle_moves hrep hsorted a _⟩
    | finalizing status stage =>
      simp only [spawnedBy, AsyncSystem.workerStep, hpc]
      have hclient := (sameElse_finalizeStep s a status stage).client
      cases stage with
      | returned => exact ⟨pending, hrefl⟩
      | _ => exact ⟨pending, hclient ▸ hrefl⟩
    | completing =>
      have hactive := ((h.queue hrep).2 a).mpr (h.core.active hpc rfl)
      have hfinished := Moves.finishActive hrep hsorted hactive
      obtain ⟨active', hrep'⟩ := hfinished.rep
      simp only [spawnedBy, AsyncSystem.workerStep, hpc, AsyncSystem.complete]
      by_cases hstopping : input.stopping = true
      · simp only [hstopping, if_true]
        exact ⟨_, hfinished.trans (Moves.detachAll hrep')⟩
      · simp only [hstopping]
        exact hfinished.drainTwice input.drainInputs input.againInputs
    | freeing canceler =>
      simp only [spawnedBy, AsyncSystem.workerStep, hpc]
      split
      · exact ⟨pending, free_moves hrep hsorted a _⟩
      · exact ⟨pending, hrefl⟩

/-- **A canceler step** keeps the order. -/
theorem Inv.cancelerStep_moves (h : Inv n s place) (hrep : QueueRep s.client pending active)
    (hsorted : Sorted s.client pending) (k : Nat) (stats : RuntimeStats) :
    Moves s.client pending [] (s.cancelerStep k stats).client pending := by
  have hrefl := Moves.refl hrep hsorted
  rw [AsyncSystem.cancelerStep]
  split
  · rename_i hcurrent
    split
    · exact hrefl
    · rename_i a hchain
      have hdetached := (h.core.pick hcurrent hchain).1
      have hnot : ∀ p, a ∉ pending p := by
        intro p ha
        rw [(h.queue hrep).1, hdetached] at ha
        cases ha
      refine Moves.of_frame (hrep.setNext hnot none) hsorted (frame_setNext s.client a none)
        fun b => ?_
      rw [setNext_eq]
      rfl
  · exact free_moves hrep hsorted _ stats
  · rename_i a stage _ _
    have hclient := (sameElse_finalizeStep s a .canceled stage).client
    exact hclient ▸ hrefl

theorem submit_moves (hrep : QueueRep s.client pending active) (hsorted : Sorted s.client pending)
    (submission : Submission) :
    ∃ pending', Moves s.client pending (s.spawnedBy (.submit submission))
      (s.submit submission).client pending' := by
  simp only [spawnedBy, AsyncSystem.submit]
  by_cases hclosed : s.closed = true
  · simp only [hclosed, if_true]
    exact ⟨pending, .refl hrep hsorted⟩
  · simp only [hclosed, Bool.false_eq_true, if_false]
    obtain ⟨pending₁, hpushed⟩ := Moves.submit hrep hsorted
      { AsyncRequest.new submission.priority submission.route submission.charge with
        cancelRequested := submission.canceled } rfl
    obtain ⟨pending', hmoves⟩ :=
      hpushed.drainImpl (some s.client.allocated) submission.drainInputs
    refine ⟨pending', ?_⟩
    split
    · exact hmoves
    · exact hmoves

theorem requestCancel_moves (hrep : QueueRep s.client pending active)
    (hsorted : Sorted s.client pending) (a : Addr) (drainInputs againInputs : Nat → DrainInput) :
    ∃ pending', Moves s.client pending (s.spawnedBy (.requestCancel a drainInputs againInputs))
      (s.requestCancel a drainInputs againInputs).client pending' := by
  have hrefl := Moves.refl hrep hsorted
  have hflag : Moves s.client pending [] (s.client.cancelRequest a) pending :=
    .modify hrep hsorted a fun _ => ⟨rfl, rfl, rfl, rfl, rfl, rfl⟩
  simp only [spawnedBy, AsyncSystem.requestCancel]
  by_cases hclaimed : (s.handles a).terminalClaimed = true
  · simp only [hclaimed, if_true]
    exact ⟨pending, hrefl⟩
  · simp only [hclaimed]
    by_cases hpending : s.client.isPendingLocked a = true
    · simp only [hpending, if_true]
      exact hflag.drainTwice drainInputs againInputs
    · simp only [hpending]
      refine ⟨pending, ?_⟩
      simp only [Bool.false_eq_true, if_false]
      split
      · exact hflag
      · exact hrefl

theorem cancelActiveLoop_notBeforeMs (fuel : Nat) (c : AsyncClient) (request : Option Addr)
    (b : Addr) :
    ((cancelActiveLoop fuel c request).requests b).notBeforeMs = (c.requests b).notBeforeMs := by
  induction fuel generalizing c request with
  | zero => rfl
  | succ fuel ih =>
    cases request with
    | none => rfl
    | some a =>
      rw [cancelActiveLoop, ih, cancelRequest, modify_requests]
      split <;> rfl

/-- **Every step that retries nothing keeps the order.** -/
theorem Inv.step_moves (h : Inv n s place) (hrep : QueueRep s.client pending active)
    (hsorted : Sorted s.client pending) (action : Action) (hretry : s.retries action = false) :
    ∃ pending', Moves s.client pending (s.spawnedBy action) (s.step action).client pending' := by
  have hrefl := Moves.refl hrep hsorted
  obtain ⟨hcanceled, hframe⟩ := hrep.cancelActive
  have hflags : Moves s.client pending [] s.client.cancelActiveLocked pending :=
    .of_frame hcanceled hsorted (hframe fun _ => False) (cancelActiveLoop_notBeforeMs _ _ _)
  cases action with
  | submit submission => exact submit_moves hrep hsorted submission
  | drain inputs => exact hrefl.drainImpl none inputs
  | response route response now =>
    exact ⟨pending, .of_frame (hrep.setLimits _) hsorted (Frame.setLimits _ _ fun _ => False)
      fun _ => rfl⟩
  | requestCancel a drainInputs againInputs =>
    exact requestCancel_moves hrep hsorted a drainInputs againInputs
  | cancelPending => exact ⟨_, Moves.detachAll hrep⟩
  | cancelActive => exact ⟨pending, hflags⟩
  | cancelAll => exact ⟨_, hflags.trans (Moves.detachAll hcanceled)⟩
  | worker a input => exact h.workerStep_moves hrep hsorted a input hretry
  | canceler k stats => exact ⟨pending, h.cancelerStep_moves hrep hsorted k stats⟩
  | close =>
    refine ⟨pending, ?_⟩
    rw [AsyncSystem.step]
    split
    · exact hrefl
    · exact hrefl

/-! ## Runs -/

/-- A start: the request and its record at the end of the step that starts it. -/
abbrev Start := Addr × AsyncRequest

/-- The starts of a step, in their order. -/
def startsOf (s : AsyncSystem) (action : Action) : List Start :=
  (s.spawnedBy action).map fun a => (a, (s.step action).client.requests a)

/-- The starts of a run from `s`, in their order. -/
def starts : AsyncSystem → List Action → List Start
  | _, [] => []
  | s, action :: actions => s.startsOf action ++ starts (s.step action) actions

/-- Whether no step of a run from `s` retries a request. -/
def withoutRetries : AsyncSystem → List Action → Bool
  | _, [] => true
  | s, action :: actions => !s.retries action && withoutRetries (s.step action) actions

/-- The first of two requests of one priority and one route has been submitted
before the second, unless it was canceled when it was started. -/
def Start.Before (x y : Start) : Prop :=
  x.2.cancelRequested = false → x.2.priority = y.2.priority → x.2.route = y.2.route → x.1 < y.1

/-- What is started later was pending, or is new. -/
def Later (c : AsyncClient) (pending : Priority → List Addr) (x : Start) : Prop :=
  ((∃ p, x.1 ∈ pending p) ∧ x.2.priority = (c.requests x.1).priority ∧
    x.2.route = (c.requests x.1).route) ∨ c.allocated ≤ x.1

/-- **The starts of a run** are in order, and what is started was pending or is new. -/
theorem Inv.starts_ordered {actions : List Action} (h : Inv n s place)
    (hrep : QueueRep s.client pending active) (hsorted : Sorted s.client pending)
    (hretry : withoutRetries s actions = true) :
    (starts s actions).Pairwise Start.Before ∧ ∀ x ∈ starts s actions, Later s.client pending x := by
  induction actions generalizing s place pending active with
  | nil => exact ⟨List.Pairwise.nil, nofun⟩
  | cons action actions ih =>
    rw [withoutRetries, Bool.and_eq_true, Bool.not_eq_true'] at hretry
    obtain ⟨place', h'⟩ := h.step action
    obtain ⟨pending', hmoves⟩ := h.step_moves hrep hsorted action hretry.1
    obtain ⟨active', hrep'⟩ := hmoves.rep
    obtain ⟨hordered, hlater⟩ := ih h' hrep' hmoves.sorted hretry.2
    rw [starts]
    refine ⟨List.pairwise_append.mpr ⟨?_, hordered, fun x hx y hy => ?_⟩, fun x hx => ?_⟩
    · exact List.pairwise_map.mpr hmoves.inOrder
    · obtain ⟨a, ha, rfl⟩ := List.mem_map.mp hx
      rcases hlater y hy with ⟨⟨p, hp⟩, hpriority, hroute⟩ | hnew
      · intro hlive hsame hsame'
        exact hmoves.left a ha p y.1 hp hlive (hsame.trans hpriority) (hsame'.trans hroute)
      · exact fun _ _ _ => Nat.lt_of_lt_of_le (hmoves.wasPending a ha).2 hnew
    · rcases List.mem_append.mp hx with hx | hx
      · obtain ⟨a, ha, rfl⟩ := List.mem_map.mp hx
        rcases (hmoves.wasPending a ha).1 with ⟨p, hp⟩ | hnew
        · exact Or.inl ⟨⟨p, hp⟩, hmoves.same a (hrep.pendingRep.allocated p a hp)⟩
        · exact Or.inr hnew
      · rcases hlater x hx with ⟨⟨p, hp⟩, hpriority, hroute⟩ | hnew
        · rcases hmoves.old p x.1 hp with hold | hnew
          · obtain ⟨hpriority', hroute'⟩ := hmoves.same x.1 (hrep.pendingRep.allocated p _ hold)
            exact Or.inl ⟨⟨p, hold⟩, hpriority.trans hpriority', hroute.trans hroute'⟩
          · exact Or.inr hnew
        · exact Or.inr (Nat.le_trans hmoves.allocated hnew)

/-! ## The law -/

theorem sorted_init (restConcurrency : Nat) (resourceLimits : ResourceLimits) :
    Sorted (AsyncClient.init restConcurrency resourceLimits) fun _ => [] :=
  ⟨fun _ => List.Pairwise.nil, nofun⟩

/-- **The order of asynchronous requests.**  A take returns the first ready
request of the highest priority that has one, where a canceled request is ready
at once; it leaves the others in their order, and returns nothing only where no
request is ready.  Putting the request back undoes the take, but for the limits
it has lifted.  And in every run without retries, of two requests of one
priority and one route the one submitted first is started first, unless the
other was canceled when it was started. -/
theorem dispatch_order :
    (∀ (c : AsyncClient) (pending : Priority → List Addr) (now : Nat), PendingRep c pending →
      (∃ limits, c.takeNextLocked now = ({ c with limits := limits }, none) ∧
        ∀ p, ∀ a ∈ pending p, ¬ c.Ready now a) ∨
      ∃ c' a position p l₁ l₂, c.takeNextLocked now = (c', some (a, position)) ∧
        FirstReady c pending now p l₁ a l₂ ∧ PendingRep c' (update pending p (l₁ ++ l₂)) ∧
        c'.restoreLocked a position = { c with limits := c'.limits }) ∧
    ∀ (restConcurrency : Nat) (resourceLimits : ResourceLimits) (actions : List Action),
      withoutRetries (init restConcurrency resourceLimits) actions = true →
        (starts (init restConcurrency resourceLimits) actions).Pairwise Start.Before := by
  refine ⟨fun c pending now hrep => ?_, fun restConcurrency resourceLimits actions hretry => ?_⟩
  · rcases takeNextLocked_cases hrep now with hnone | ⟨limits, p, l₁, a, l₂, hsome, hfirst⟩
    · exact Or.inl hnone
    · have hlimits : PendingRep { c with limits := limits } pending :=
        ⟨hrep.listed, hrep.priority, hrep.allocated⟩
      refine Or.inr ⟨_, a, _, p, l₁, l₂, hsome, hfirst, hlimits.unlink hfirst.place, ?_⟩
      rw [hlimits.restore_unlink hfirst.place, unlinkPending_limits]
  · obtain ⟨place, h⟩ := inv_run restConcurrency resourceLimits []
    exact (h.starts_ordered (queueRep_init restConcurrency resourceLimits)
      (sorted_init restConcurrency resourceLimits) hretry).1

/-- A round of a drain on an idle runtime at `now`. -/
def roundAt (now : Nat) : DrainInput :=
  { stopping := false
    now := now
    activateStats := RuntimeStats.zero
    requeueStats := RuntimeStats.zero
    spawns := true }

theorem one_lt_wordSize : 1 < wordSize := by decide

theorem two_lt_wordSize : 2 < wordSize := by decide

theorem one_le_one : 1 ≤ 1 := by decide

theorem one_add_one_le_two : 1 + 1 ≤ 2 := by decide

/-- Limits that no request of one byte meets. -/
def smallLimits : ResourceLimits :=
  ⟨1, 1, 1, 2, 1, one_lt_wordSize, two_lt_wordSize, one_le_one, one_add_one_le_two⟩

/-- A route is limited until 1000, and two requests of it are submitted. -/
def limitedPair : List Action :=
  [.response (numbered 0) ⟨429, none, 1000, none, false⟩ 0,
    .submit ⟨.normal, numbered 0, 1, false, false, fun _ => roundAt 10⟩,
    .submit ⟨.normal, numbered 0, 1, false, false, fun _ => roundAt 20⟩]

/-- The law on two pending requests, and on a run that starts one of two. -/
theorem dispatch_order_pair :
    let client := { AsyncClient.init 1 smallLimits with
      requests := fun a =>
        { AsyncRequest.new .normal (numbered 0) 1 with next := if a = 0 then some 1 else none }
      allocated := 2
      heads := fun priority => if priority = Priority.normal then some 0 else none
      tails := fun priority => if priority = Priority.normal then some 1 else none }
    (∃ c' position, client.takeNextLocked 10 = (c', some (0, position)) ∧
      c'.restoreLocked 0 position = { client with limits := c'.limits }) ∧
    (starts (init 1 smallLimits) (limitedPair ++ [.drain fun _ => roundAt 2000])).map Prod.fst =
      [0] ∧
    (starts (init 1 smallLimits) (limitedPair ++ [.drain fun _ => roundAt 2000])).Pairwise
      Start.Before := by
  intro client
  have hrep : PendingRep client fun priority => if priority = .normal then [0, 1] else [] := by
    refine ⟨fun p => ?_, fun p a ha => ?_, fun p a ha => ?_⟩
    · cases p with
      | low => exact Listed.nil
      | normal => exact ⟨⟨rfl, rfl, rfl⟩, rfl⟩
      | high => exact Listed.nil
    · cases p with
      | low => exact absurd ha (List.not_mem_nil)
      | normal => rfl
      | high => exact absurd ha (List.not_mem_nil)
    · cases p with
      | low => exact absurd ha (List.not_mem_nil)
      | normal =>
        have hlt : ∀ a ∈ [0, 1], a < 2 := by decide
        exact hlt a ha
      | high => exact absurd ha (List.not_mem_nil)
  have htaken : (client.takeNextLocked 10).2.map Prod.fst = some 0 := by decide +kernel
  refine ⟨?_, by decide +kernel, dispatch_order.2 1 smallLimits _ (by decide +kernel)⟩
  rcases dispatch_order.1 client _ 10 hrep with
    ⟨limits, hnone, -⟩ | ⟨c', a, position, p, l₁, l₂, hsome, -, -, hrestored⟩
  · rw [hnone] at htaken
    exact absurd htaken nofun
  · rw [hsome] at htaken
    obtain rfl : a = 0 := by simpa using htaken
    exact ⟨c', position, hsome, hrestored⟩

/-- The second request of the limited route is canceled: it is started at once,
and the first one when the limit has ended. -/
theorem canceled_overtakes :
    ¬ ∀ (restConcurrency : Nat) (resourceLimits : ResourceLimits) (actions : List Action),
      withoutRetries (init restConcurrency resourceLimits) actions = true →
        (starts (init restConcurrency resourceLimits) actions).Pairwise fun x y =>
          x.2.priority = y.2.priority → x.2.route = y.2.route → x.1 < y.1 := by
  intro hall
  have hordered := hall 2 smallLimits
    (limitedPair ++ [.requestCancel 1 (fun _ => roundAt 30) fun _ => roundAt 30,
      .drain fun _ => roundAt 2000]) (by decide +kernel)
  exact absurd hordered (by decide +kernel)

end AsyncSystem

end Dcc.Rest
