import Mathlib.Data.List.Perm.Subperm
import Dcc.Lib.Chain
import Dcc.Rest.AsyncQueue

/-!
# The queues as lists

What the links of a client stand for: `PendingRep c pending` gives the list of
pending requests of each priority, `ActiveRep c active` the list of active
requests, and `RoutesRep c active` says that the active routes are those the
active requests have claimed.  Each operation on links gets one lemma that says
what it does to these lists.

* `pushTailLocked`, `unlinkPending`, `restoreLocked` and `detachPendingAllLocked`
  only write heads, tails and the links of pending requests (`relinked`);
* `claimActive` and `finishActiveLocked` leave the pending lists alone.
-/

namespace Dcc.Rest.AsyncClient

open Linked Function

variable {c c' : AsyncClient} {pending : Priority → List Addr} {active : List Addr}
  {p : Priority} {a : Addr}

/-- The links of the pending lists. -/
def nextOf (c : AsyncClient) : Addr → Option Addr := fun a => (c.requests a).next

/-- The links of the active list. -/
def activeNextOf (c : AsyncClient) : Addr → Option Addr := fun a => (c.requests a).activeNext

/-- The client with other pending lists. -/
def relinked (c : AsyncClient) (next : Addr → Option Addr) (heads tails : Priority → Option Addr) :
    AsyncClient :=
  { c with
    requests := fun a => { c.requests a with next := next a }
    heads := heads
    tails := tails }

/-- The client with another active list. -/
def relinkedActive (c : AsyncClient) (next : Addr → Option Addr) (head : Option Addr) :
    AsyncClient :=
  { c with
    requests := fun a => { c.requests a with activeNext := next a }
    activeHead := head }

@[simp] theorem nextOf_relinked (next : Addr → Option Addr) (heads tails : Priority → Option Addr) :
    (c.relinked next heads tails).nextOf = next := rfl

@[simp] theorem heads_relinked (next : Addr → Option Addr) (heads tails : Priority → Option Addr) :
    (c.relinked next heads tails).heads = heads := rfl

@[simp] theorem tails_relinked (next : Addr → Option Addr) (heads tails : Priority → Option Addr) :
    (c.relinked next heads tails).tails = tails := rfl

theorem modify_requests (c : AsyncClient) (a : Addr) (f : AsyncRequest → AsyncRequest) (b : Addr) :
    (c.modify a f).requests b = if b = a then f (c.requests b) else c.requests b := by
  by_cases hb : b = a
  · subst hb
    simp [modify]
  · simp [modify, hb]

/-! ## The link operations -/

theorem setNext_eq (c : AsyncClient) (a : Addr) (v : Option Addr) :
    c.setNext a v = c.relinked (update c.nextOf a v) c.heads c.tails := by
  unfold setNext modify relinked
  congr 1
  funext b
  by_cases hb : b = a
  · subst hb
    simp
  · simp [hb, nextOf]

theorem setActiveNext_eq (c : AsyncClient) (a : Addr) (v : Option Addr) :
    c.setActiveNext a v = c.relinkedActive (update c.activeNextOf a v) c.activeHead := by
  unfold setActiveNext modify relinkedActive
  congr 1
  funext b
  by_cases hb : b = a
  · subst hb
    simp
  · simp [hb, activeNextOf]

theorem linkAfter_eq (c : AsyncClient) (p : Priority) (previous v : Option Addr) :
    c.linkAfter p previous v = c.relinked (relink c.nextOf (c.heads p) previous v).1
        (update c.heads p (relink c.nextOf (c.heads p) previous v).2) c.tails := by
  rcases previous with _ | b
  · rfl
  · simp only [linkAfter, setNext_eq, relink, update_eq_self]

theorem linkActiveAfter_eq (c : AsyncClient) (previous v : Option Addr) :
    c.linkActiveAfter previous v =
      c.relinkedActive (relink c.activeNextOf c.activeHead previous v).1
        (relink c.activeNextOf c.activeHead previous v).2 := by
  rcases previous with _ | b
  · rfl
  · simp only [linkActiveAfter, setActiveNext_eq, relink]

theorem pushTailLocked_eq (c : AsyncClient) (hp : (c.requests a).priority = p) :
    c.pushTailLocked a =
      c.relinked (relink (update c.nextOf a none) (c.heads p) (c.tails p) (some a)).1
        (update c.heads p (relink (update c.nextOf a none) (c.heads p) (c.tails p) (some a)).2)
        (update c.tails p (some a)) := by
  subst hp
  simp only [pushTailLocked, setNext_eq, linkAfter_eq]
  rfl

theorem unlinkPending_eq (c : AsyncClient) (p : Priority) (previous : Option Addr) (a : Addr) :
    c.unlinkPending p previous a =
      c.relinked (update (relink c.nextOf (c.heads p) previous (c.nextOf a)).1 a none)
        (update c.heads p (relink c.nextOf (c.heads p) previous (c.nextOf a)).2)
        (update c.tails p (if c.tails p = some a then previous else c.tails p)) := by
  simp only [unlinkPending, linkAfter_eq]
  split
  · rw [setNext_eq]
    rfl
  · rw [setNext_eq, update_eq_self]
    rfl

theorem restoreLocked_eq (c : AsyncClient) (a : Addr) (position : QueuePosition) :
    c.restoreLocked a position = c.relinked
        (relink (update c.nextOf a position.next) (c.heads position.priority) position.previous
          (some a)).1
        (update c.heads position.priority
          (relink (update c.nextOf a position.next) (c.heads position.priority) position.previous
            (some a)).2)
        (update c.tails position.priority
          (if position.next = none then some a else c.tails position.priority)) := by
  simp only [restoreLocked, setNext_eq, linkAfter_eq]
  split
  · rfl
  · rw [update_eq_self]
    rfl

/-! ## Pending lists -/

/-- The pending requests of each priority. -/
structure PendingRep (c : AsyncClient) (pending : Priority → List Addr) : Prop where
  listed : ∀ p, Listed c.nextOf (c.heads p) (c.tails p) (pending p)
  priority : ∀ p, ∀ a ∈ pending p, (c.requests a).priority = p
  allocated : ∀ p, ∀ a ∈ pending p, a < c.allocated

theorem PendingRep.congr (h : PendingRep c pending) (hheads : c'.heads = c.heads)
    (htails : c'.tails = c.tails) (hallocated : c.allocated ≤ c'.allocated)
    (hcells : ∀ p, ∀ a ∈ pending p, (c'.requests a).next = (c.requests a).next ∧
      (c'.requests a).priority = (c.requests a).priority) : PendingRep c' pending where
  listed q := by
    rw [hheads, htails]
    exact (h.listed q).congr fun b hb => (hcells q b hb).1
  priority q b hb := by rw [(hcells q b hb).2, h.priority q b hb]
  allocated q b hb := Nat.lt_of_lt_of_le (h.allocated q b hb) hallocated

theorem PendingRep.priority_unique (h : PendingRep c pending) {q : Priority} (hp : a ∈ pending p)
    (hq : a ∈ pending q) : p = q := by
  rw [← h.priority p a hp, ← h.priority q a hq]

variable {l : List Addr} {next : Addr → Option Addr} {head tail : Option Addr}

/-- The rule for the link operations: they build the new list of one priority
and leave the links of the other lists alone. -/
theorem PendingRep.relinked (h : PendingRep c pending) (hl : Listed next head tail l)
    (hother : ∀ q, q ≠ p → ∀ b ∈ pending q, next b = c.nextOf b)
    (hcells : ∀ b ∈ l, (c.requests b).priority = p ∧ b < c.allocated) :
    PendingRep (c.relinked next (update c.heads p head) (update c.tails p tail))
      (update pending p l) := by
  refine ⟨fun q => ?_, fun q b hb => ?_, fun q b hb => ?_⟩
  · by_cases hq : q = p
    · subst hq
      simpa using hl
    · simpa [hq] using (h.listed q).congr (hother q hq)
  · by_cases hq : q = p
    · subst hq
      rw [update_self] at hb
      exact (hcells b hb).1
    · rw [update_of_ne hq] at hb
      exact h.priority q b hb
  · by_cases hq : q = p
    · subst hq
      rw [update_self] at hb
      exact (hcells b hb).2
    · rw [update_of_ne hq] at hb
      exact h.allocated q b hb

theorem PendingRep.pushTail (h : PendingRep c pending) (hp : (c.requests a).priority = p)
    (ha : ∀ q, a ∉ pending q) (hlt : a < c.allocated) :
    PendingRep (c.pushTailLocked a) (update pending p (pending p ++ [a])) := by
  rw [pushTailLocked_eq c hp]
  refine h.relinked ((h.listed p).snoc (ha p)) (fun q hq b hb => ?_) fun b hb => ?_
  · have hba : b ≠ a := fun hba => ha q (hba ▸ hb)
    have hbp : b ∉ pending p := fun hbp => hq (h.priority_unique hb hbp)
    rw [(h.listed p).tail_eq, relink_of_notMem hbp, update_of_ne hba]
  · rcases List.mem_append.mp hb with hb | hb
    · exact ⟨h.priority p b hb, h.allocated p b hb⟩
    · rw [List.mem_singleton] at hb
      rw [hb]
      exact ⟨hp, hlt⟩

variable {l₁ l₂ : List Addr}

theorem PendingRep.unlink (h : PendingRep c pending) (hl : pending p = l₁ ++ a :: l₂) :
    PendingRep (c.unlinkPending p l₁.getLast? a) (update pending p (l₁ ++ l₂)) := by
  have hlisted := h.listed p
  rw [hl] at hlisted
  rw [unlinkPending_eq]
  refine h.relinked hlisted.unlink (fun q hq b hb => ?_) fun b hb => ?_
  · have hbp : b ∉ pending p := fun hbp => hq (h.priority_unique hb hbp)
    rw [hl] at hbp
    have hba : b ≠ a := fun hba => hbp (by simp [hba])
    rw [update_of_ne hba, relink_of_notMem fun hb₁ => hbp (List.mem_append_left _ hb₁)]
  · have hbp : b ∈ pending p := by
      rw [hl]
      rcases List.mem_append.mp hb with hb | hb
      · exact List.mem_append_left _ hb
      · exact List.mem_append_right _ (List.mem_cons_of_mem _ hb)
    exact ⟨h.priority p b hbp, h.allocated p b hbp⟩

theorem PendingRep.restore (h : PendingRep c pending)
    (hl : pending p = l₁ ++ l₂) (hp : (c.requests a).priority = p) (ha : ∀ q, a ∉ pending q)
    (hlt : a < c.allocated) :
    PendingRep
      (c.restoreLocked a { priority := p, previous := l₁.getLast?, next := l₂.head? })
      (update pending p (l₁ ++ a :: l₂)) := by
  have hlisted := h.listed p
  rw [hl] at hlisted
  have hap : a ∉ l₁ ++ l₂ := by
    rw [← hl]
    exact ha p
  rw [restoreLocked_eq]
  refine h.relinked (hlisted.insert hap) (fun q hq b hb => ?_) fun b hb => ?_
  · have hba : b ≠ a := fun hba => ha q (hba ▸ hb)
    have hbp : b ∉ pending p := fun hbp => hq (h.priority_unique hb hbp)
    rw [hl] at hbp
    rw [relink_of_notMem fun hb₁ => hbp (List.mem_append_left _ hb₁), update_of_ne hba]
  · by_cases hba : b = a
    · rw [hba]
      exact ⟨hp, hlt⟩
    · have hbp : b ∈ pending p := by
        rw [hl]
        simpa [hba] using hb
      exact ⟨h.priority p b hbp, h.allocated p b hbp⟩

/-! ## What an operation leaves alone -/

/-- `c'` comes from `c` by an operation that writes the pending links of the
requests in `moved` only; what a request is never changes. -/
structure Frame (c c' : AsyncClient) (moved : Addr → Prop) : Prop where
  allocated : c'.allocated = c.allocated
  restConcurrency : c'.restConcurrency = c.restConcurrency
  resourceLimits : c'.resourceLimits = c.resourceLimits
  priority : ∀ a, (c'.requests a).priority = (c.requests a).priority
  route : ∀ a, (c'.requests a).route = (c.requests a).route
  callbackCalled : ∀ a, (c'.requests a).callbackCalled = (c.requests a).callbackCalled
  next : ∀ a, ¬ moved a → (c'.requests a).next = (c.requests a).next

/-- The active requests and the active routes of `c'` are those of `c`. -/
structure SameActive (c c' : AsyncClient) : Prop where
  activeHead : c'.activeHead = c.activeHead
  activeRoutes : c'.activeRoutes = c.activeRoutes
  active : c'.active = c.active
  activeNext : ∀ a, (c'.requests a).activeNext = (c.requests a).activeNext
  routeClaimed : ∀ a, (c'.requests a).routeClaimed = (c.requests a).routeClaimed

variable {c'' : AsyncClient} {moved moved' : Addr → Prop}

theorem Frame.refl (c : AsyncClient) (moved : Addr → Prop) : Frame c c moved :=
  ⟨rfl, rfl, rfl, fun _ => rfl, fun _ => rfl, fun _ => rfl, fun _ _ => rfl⟩

theorem Frame.trans (h : Frame c c' moved) (h' : Frame c' c'' moved) : Frame c c'' moved where
  allocated := h'.allocated.trans h.allocated
  restConcurrency := h'.restConcurrency.trans h.restConcurrency
  resourceLimits := h'.resourceLimits.trans h.resourceLimits
  priority a := (h'.priority a).trans (h.priority a)
  route a := (h'.route a).trans (h.route a)
  callbackCalled a := (h'.callbackCalled a).trans (h.callbackCalled a)
  next a ha := (h'.next a ha).trans (h.next a ha)

theorem Frame.mono (h : Frame c c' moved) (hmoved : ∀ a, moved a → moved' a) : Frame c c' moved' :=
  { h with next := fun a ha => h.next a fun hm => ha (hmoved a hm) }

theorem Frame.concurrency (h : Frame c c' moved) : c'.concurrency = c.concurrency := by
  unfold AsyncClient.concurrency
  rw [h.restConcurrency]

theorem Frame.setLimits (c : AsyncClient) (limits : RateLimits) (moved : Addr → Prop) :
    Frame c { c with limits := limits } moved :=
  ⟨rfl, rfl, rfl, fun _ => rfl, fun _ => rfl, fun _ => rfl, fun _ _ => rfl⟩

theorem SameActive.setLimits (c : AsyncClient) (limits : RateLimits) :
    SameActive c { c with limits := limits } :=
  ⟨rfl, rfl, rfl, fun _ => rfl, fun _ => rfl⟩

theorem SameActive.trans (h : SameActive c c') (h' : SameActive c' c'') : SameActive c c'' where
  activeHead := h'.activeHead.trans h.activeHead
  activeRoutes := h'.activeRoutes.trans h.activeRoutes
  active := h'.active.trans h.active
  activeNext a := (h'.activeNext a).trans (h.activeNext a)
  routeClaimed a := (h'.routeClaimed a).trans (h.routeClaimed a)

theorem Frame.relinked {heads tails : Priority → Option Addr}
    (hnext : ∀ a, ¬ moved a → next a = c.nextOf a) : Frame c (c.relinked next heads tails) moved :=
  ⟨rfl, rfl, rfl, fun _ => rfl, fun _ => rfl, fun _ => rfl, hnext⟩

theorem SameActive.relinked (c : AsyncClient) (next : Addr → Option Addr)
    (heads tails : Priority → Option Addr) : SameActive c (c.relinked next heads tails) :=
  ⟨rfl, rfl, rfl, fun _ => rfl, fun _ => rfl⟩

theorem PendingRep.pushTail_frame (h : PendingRep c pending) (hp : (c.requests a).priority = p) :
    Frame c (c.pushTailLocked a) fun b => b = a ∨ b ∈ pending p := by
  rw [pushTailLocked_eq c hp]
  refine Frame.relinked fun b hb => ?_
  rw [not_or] at hb
  rw [(h.listed p).tail_eq, relink_of_notMem hb.2, update_of_ne hb.1]

theorem sameActive_pushTail (c : AsyncClient) (a : Addr) : SameActive c (c.pushTailLocked a) := by
  rw [pushTailLocked_eq c rfl]
  exact SameActive.relinked c _ _ _

theorem restConcurrency_pushTail (c : AsyncClient) (a : Addr) :
    (c.pushTailLocked a).restConcurrency = c.restConcurrency := by
  rw [pushTailLocked_eq c rfl]
  rfl

theorem frame_unlink (hl : pending p = l₁ ++ a :: l₂) :
    Frame c (c.unlinkPending p l₁.getLast? a) (· ∈ pending p) := by
  rw [unlinkPending_eq]
  refine Frame.relinked fun b hb => ?_
  rw [hl, List.mem_append, List.mem_cons, not_or, not_or] at hb
  rw [update_of_ne hb.2.1, relink_of_notMem hb.1]

theorem sameActive_unlink (c : AsyncClient) (p : Priority) (previous : Option Addr) (a : Addr) :
    SameActive c (c.unlinkPending p previous a) := by
  rw [unlinkPending_eq]
  exact SameActive.relinked c _ _ _

theorem frame_restore (l₁ : List Addr) (c : AsyncClient) (a : Addr) (p : Priority)
    (next : Option Addr) :
    Frame c (c.restoreLocked a { priority := p, previous := l₁.getLast?, next := next })
      fun b => b = a ∨ b ∈ l₁ := by
  rw [restoreLocked_eq]
  refine Frame.relinked fun b hb => ?_
  rw [not_or] at hb
  rw [relink_of_notMem hb.2, update_of_ne hb.1]

theorem sameActive_restore (c : AsyncClient) (a : Addr) (position : QueuePosition) :
    SameActive c (c.restoreLocked a position) := by
  rw [restoreLocked_eq]
  exact SameActive.relinked c _ _ _

/-! ## Detaching -/

theorem detachLoop_succ (fuel : Nat) (c : AsyncClient) (head tail : Option Addr) (a : Addr) :
    detachLoop (fuel + 1) c head tail (some a) = detachLoop fuel
        (c.relinked (relink (update c.nextOf a none) head tail (some a)).1 c.heads c.tails)
        (relink (update c.nextOf a none) head tail (some a)).2 (some a) (c.nextOf a) := by
  rcases tail with _ | b
  · simp only [detachLoop, setNext_eq, relink]
    rfl
  · simp only [detachLoop, setNext_eq, relink]
    rfl

/-- What `detachLoop` leaves: the requests of `l` are linked behind those of `l₀`. -/
structure Detached (c : AsyncClient) (l : List Addr)
    (r : AsyncClient × Option Addr × Option Addr) : Prop where
  only : r.1 = c.relinked r.1.nextOf c.heads c.tails
  listed : Listed r.1.nextOf r.2.1 r.2.2 l
  next : ∀ b, b ∉ l → r.1.nextOf b = c.nextOf b

theorem detachLoop_spec {l₀ l : List Addr} {fuel : Nat} {head tail request : Option Addr}
    (hfuel : l.length < fuel) (hl₀ : Listed c.nextOf head tail l₀)
    (hl : Seg c.nextOf request l none) (hdisjoint : ∀ b ∈ l₀, b ∉ l) :
    Detached c (l₀ ++ l) (detachLoop fuel c head tail request) := by
  induction l generalizing c fuel head tail request l₀ with
  | nil =>
    obtain ⟨fuel, rfl⟩ := Nat.exists_eq_add_of_lt hfuel
    obtain rfl : request = none := hl
    rw [List.append_nil]
    exact ⟨rfl, hl₀, fun _ _ => rfl⟩
  | cons a l ih =>
    obtain ⟨fuel, rfl⟩ := Nat.exists_eq_succ_of_ne_zero (Nat.ne_of_gt (Nat.zero_lt_of_lt hfuel))
    have hnodup := List.nodup_cons.mp hl.nodup
    obtain ⟨rfl, hl⟩ := hl
    have ha : a ∉ l₀ := fun ha => hdisjoint a ha List.mem_cons_self
    have hkept : ∀ b, b ∉ l₀ → b ≠ a →
        (relink (update c.nextOf a none) head tail (some a)).1 b = c.nextOf b := by
      intro b hb hba
      rw [hl₀.tail_eq, relink_of_notMem hb, update_of_ne hba]
    have hrest : Detached _ ((l₀ ++ [a]) ++ l) _ :=
      ih (c := c.relinked (relink (update c.nextOf a none) head tail (some a)).1 c.heads c.tails)
        (show l.length < fuel by simpa using hfuel) (hl₀.snoc ha)
        (hl.congr fun b hb => hkept b (fun hb₀ => hdisjoint b hb₀ (List.mem_cons_of_mem a hb))
          fun hba => hnodup.1 (hba ▸ hb))
        (fun b hb hbl => by
          rcases List.mem_append.mp hb with hb | hb
          · exact hdisjoint b hb (List.mem_cons_of_mem a hbl)
          · rw [List.mem_singleton] at hb
            exact hnodup.1 (hb ▸ hbl))
    rw [List.append_assoc, List.singleton_append] at hrest
    rw [detachLoop_succ]
    refine ⟨hrest.only, hrest.listed, fun b hb => ?_⟩
    rw [hrest.next b hb]
    simp only [List.mem_append, List.mem_cons, not_or] at hb
    exact hkept b hb.1 hb.2.1

theorem length_le_of_lt {n : Nat} (hl : l.Nodup) (hlt : ∀ a ∈ l, a < n) :
    l.length ≤ n := by
  have hsub : l ⊆ List.range n := fun a ha => List.mem_range.mpr (hlt a ha)
  simpa using (hl.subperm hsub).length_le

theorem PendingRep.length_le (h : PendingRep c pending) (p : Priority) :
    (pending p).length ≤ c.allocated :=
  length_le_of_lt (h.listed p).nodup (h.allocated p)

/-- What one round of the detaching leaves: the requests of priority `p` are
linked behind those of `l`, which were detached before. -/
structure DetachedPriority (c : AsyncClient) (pending : Priority → List Addr) (p : Priority)
    (l : List Addr) (r : AsyncClient × Option Addr × Option Addr) : Prop where
  rep : PendingRep r.1 (update pending p [])
  listed : Listed r.1.nextOf r.2.1 r.2.2 (l ++ pending p)
  frame : Frame c r.1 (· ∈ l ++ pending p)
  same : SameActive c r.1

theorem PendingRep.detachPriority (h : PendingRep c pending) (hl : Listed c.nextOf head tail l)
    (hdisjoint : ∀ b ∈ l, ∀ q, b ∉ pending q) (p : Priority) :
    DetachedPriority c pending p l (AsyncClient.detachPriority (c, head, tail) p) := by
  have hspec : Detached (c.relinked c.nextOf (update c.heads p none) (update c.tails p none))
      (l ++ pending p) (AsyncClient.detachPriority (c, head, tail) p) :=
    detachLoop_spec (c := c.relinked c.nextOf (update c.heads p none) (update c.tails p none))
      (Nat.lt_succ_of_le (h.length_le p)) hl (h.listed p).seg fun b hb => hdisjoint b hb p
  refine ⟨?_, hspec.listed, ?_, ?_⟩
  · rw [hspec.only]
    refine h.relinked Listed.nil (fun q hq b hb => hspec.next b fun hbl => ?_) (by simp)
    rcases List.mem_append.mp hbl with hbl | hbl
    · exact hdisjoint b hbl q hb
    · exact hq (h.priority_unique hb hbl)
  · rw [hspec.only]
    exact Frame.relinked hspec.next
  · rw [hspec.only]
    exact SameActive.relinked c _ _ _

/-- The requests of all three lists, in the order in which they are detached. -/
def pendingAll (pending : Priority → List Addr) : List Addr :=
  pending .low ++ pending .normal ++ pending .high

theorem mem_pendingAll : a ∈ pendingAll pending ↔ ∃ p, a ∈ pending p := by
  simp only [pendingAll, List.mem_append]
  constructor
  · rintro ((h | h) | h)
    · exact ⟨.low, h⟩
    · exact ⟨.normal, h⟩
    · exact ⟨.high, h⟩
  · rintro ⟨p, h⟩
    cases p with
    | low => exact Or.inl (Or.inl h)
    | normal => exact Or.inl (Or.inr h)
    | high => exact Or.inr h

/-- What `detachPendingAllLocked` leaves: no request is pending, and those that
were are linked from the returned head. -/
structure DetachedAll (c : AsyncClient) (pending : Priority → List Addr)
    (r : AsyncClient × Option Addr) : Prop where
  rep : PendingRep r.1 fun _ => []
  seg : Seg r.1.nextOf r.2 (pendingAll pending) none
  frame : Frame c r.1 fun b => ∃ p, b ∈ pending p
  same : SameActive c r.1

theorem PendingRep.disjoint_detached (h : PendingRep c pending)
    (hdisjoint : ∀ b ∈ l, ∀ q, b ∉ pending q) (p : Priority) :
    ∀ b ∈ l ++ pending p, ∀ q, b ∉ update pending p [] q := by
  intro b hb q hbq
  by_cases hq : q = p
  · simp [hq] at hbq
  · rw [update_of_ne hq] at hbq
    rcases List.mem_append.mp hb with hb | hb
    · exact hdisjoint b hb q hbq
    · exact hq (h.priority_unique hbq hb)

theorem PendingRep.detachAll (h : PendingRep c pending) :
    DetachedAll c pending c.detachPendingAllLocked := by
  have hdisjoint₀ : ∀ b ∈ ([] : List Addr), ∀ q, b ∉ pending q := by simp
  have h₁ := h.detachPriority Listed.nil hdisjoint₀ .low
  have hdisjoint₁ := h.disjoint_detached hdisjoint₀ .low
  have h₂ := h₁.rep.detachPriority h₁.listed hdisjoint₁ .normal
  have h₃ := h₂.rep.detachPriority h₂.listed (h₁.rep.disjoint_detached hdisjoint₁ .normal) .high
  have hmem : ∀ b, b ∈ pendingAll pending → ∃ p, b ∈ pending p := fun b hb => mem_pendingAll.mp hb
  have hempty : update (update (update pending .low []) .normal []) .high [] =
      fun _ => ([] : List Addr) := by
    funext q
    cases q <;> rfl
  refine ⟨hempty ▸ h₃.rep, h₃.listed.seg, ?_, (h₁.same.trans h₂.same).trans h₃.same⟩
  refine ((h₁.frame.mono ?_).trans (h₂.frame.mono ?_)).trans (h₃.frame.mono ?_)
  · intro b hb
    exact ⟨.low, hb⟩
  · intro b hb
    exact hmem b (List.mem_append_left _ hb)
  · exact hmem

end Dcc.Rest.AsyncClient
