import Dcc.Rest.AsyncDrain
import Dcc.Rest.Dispatch

/-!
# Which request a take returns

A request is ready when it is canceled, or when its route is idle and nothing
makes it wait.  A take walks the pending lists and lifts expired limits from the
table as it goes, which changes no wait it asks for later:

* `takeNextLocked_cases`: a take returns the first ready request of the highest
  priority that has one, and nothing only where no request is ready;
* `PendingRep.restore_unlink`: putting the request back undoes the take, but for
  the table.
-/

namespace Dcc.Rest

variable {buckets buckets' : List Bucket} {now : Nat} {route : RouteKey}

/-! ## Tables with lifted limits -/

/-- The second table is the first with some expired limits lifted. -/
def Lifted (now : Nat) : List Bucket → List Bucket → Prop :=
  List.Forall₂ fun b b' => b' = b ∨ b' = b.lift now true

theorem Lifted.refl (now : Nat) (buckets : List Bucket) : Lifted now buckets buckets := by
  induction buckets with
  | nil => exact .nil
  | cons b bs ih => exact .cons (Or.inl rfl) ih

theorem Lifted.trans {buckets'' : List Bucket} (h : Lifted now buckets buckets')
    (h' : Lifted now buckets' buckets'') : Lifted now buckets buckets'' := by
  induction h generalizing buckets'' with
  | nil =>
    cases h'
    exact .nil
  | cons hb _ ih =>
    cases h' with
    | cons hb' hbs' =>
      refine .cons ?_ (ih hbs')
      rcases hb with rfl | rfl
      · exact hb'
      · rw [lift_lift, or_self] at hb'
        exact Or.inr hb'

theorem Lifted.set {index : Nat} {b : Bucket} (hb : buckets[index]? = some b) :
    Lifted now buckets (buckets.set index (b.lift now true)) := by
  induction buckets generalizing index with
  | nil => exact .nil
  | cons c cs ih =>
    cases index with
    | zero =>
      obtain rfl : c = b := by simpa using hb
      exact .cons (Or.inr rfl) (Lifted.refl now cs)
    | succ index => exact .cons (Or.inl rfl) (ih (by simpa using hb))

theorem Lifted.map_liftRelated (hash : Bytes) :
    Lifted now buckets (buckets.map (liftRelated hash now true)) := by
  induction buckets with
  | nil => exact .nil
  | cons b bs ih =>
    refine .cons ?_ ih
    unfold liftRelated
    split
    · exact Or.inr rfl
    · exact Or.inl rfl

theorem Lifted.collectWait (waitMs : Nat) :
    Lifted now buckets (collectWait route now true buckets waitMs).1 := by
  rcases collectWait_fst now true waitMs with heq | ⟨index, b, hb, _, _, hcase⟩
  · rw [heq]
    exact Lifted.refl now buckets
  · rcases hcase with ⟨_, heq⟩ | ⟨_, heq⟩
    · rw [heq]
      exact Lifted.set hb
    · rw [heq]
      exact Lifted.map_liftRelated _

theorem waitMs_lift (b : Bucket) (now waitMs : Nat) :
    (b.lift now true).waitMs now waitMs = b.waitMs now waitMs := by
  rw [waitMs_eq_max, waitMs_eq_max, holdMs_lift]

/-- What a search has found, without the slots of one that has found nothing. -/
def Lookup.found? : Lookup → Option Nat
  | .found index => some index
  | .missing _ => none

theorem findLoop_found? (route : RouteKey) (buckets : List Bucket) (start : Nat) (slots : Slots) :
    (findLoop route buckets start slots).found? =
      (buckets.findIdx? fun b => b.active && b.route == route).map (· + start) := by
  induction buckets generalizing start slots with
  | nil => rfl
  | cons b bs ih =>
    have hnext : ∀ slots', (findLoop route bs (start + 1) slots').found? =
        ((bs.findIdx? fun b => b.active && b.route == route).map (· + 1)).map (· + start) := by
      intro slots'
      rw [ih, Option.map_map]
      refine Option.map_congr fun i _ => ?_
      simp only [Function.comp_apply]
      omega
    rw [List.findIdx?_cons]
    by_cases hactive : b.active = true
    · by_cases hroute : b.route = route
      · simp [findLoop, hactive, hroute, Lookup.found?]
      · simp only [findLoop, hactive, hroute, if_true, if_false, Bool.true_and, beq_iff_eq]
        split
        · exact hnext _
        · exact hnext _
    · rw [Bool.not_eq_true] at hactive
      simp only [findLoop, hactive, Bool.false_and, Bool.false_eq_true, if_false]
      split
      · exact hnext _
      · exact hnext _

theorem findBucket_eq (route : RouteKey) (buckets : List Bucket) :
    findBucket route buckets = buckets.findIdx? fun b => b.active && b.route == route := by
  have hfound : findBucket route buckets = (lookup route buckets).found? := by
    unfold findBucket Lookup.found?
    split <;> simp_all
  rw [hfound, lookup, findLoop_found?]
  simp

section

variable (h : Lifted now buckets buckets')
include h

theorem Lifted.findBucket (route : RouteKey) :
    findBucket route buckets' = findBucket route buckets := by
  rw [findBucket_eq, findBucket_eq]
  induction h with
  | nil => rfl
  | @cons b b' bs bs' hb _ ih =>
    have hsame : (b'.active && b'.route == route) = (b.active && b.route == route) := by
      rcases hb with rfl | rfl
      · rfl
      · rw [lift_active, lift_route]
    rw [List.findIdx?_cons, List.findIdx?_cons, hsame, ih]

theorem Lifted.getElem? {index : Nat} {b : Bucket} (hb : buckets[index]? = some b) :
    ∃ b', buckets'[index]? = some b' ∧ (b' = b ∨ b' = b.lift now true) := by
  induction h generalizing index with
  | nil => exact absurd hb (by simp)
  | @cons c c' cs cs' hc _ ih =>
    cases index with
    | zero =>
      obtain rfl : c = b := by simpa using hb
      exact ⟨c', rfl, hc⟩
    | succ index => exact ih (by simpa using hb)

theorem Lifted.length : buckets'.length = buckets.length :=
  (List.Forall₂.length_eq h).symm

theorem Lifted.collectRelated (hash : Bytes) (waitMs : Nat) :
    (collectRelated hash now true buckets' waitMs).2 =
      (collectRelated hash now true buckets waitMs).2 := by
  induction h generalizing waitMs with
  | nil => rfl
  | @cons b b' bs bs' hb _ ih =>
    have hwait : ∀ waitMs, b'.waitMs now waitMs = b.waitMs now waitMs := by
      intro waitMs
      rcases hb with rfl | rfl
      · rfl
      · exact waitMs_lift b now waitMs
    have hrelated : (b'.active && b'.hashMatches hash) = (b.active && b.hashMatches hash) := by
      rcases hb with rfl | rfl
      · rfl
      · simp only [Bucket.hashMatches, lift_active, lift_bucket]
    simp only [Rest.collectRelated, hrelated, hwait]
    split
    · exact ih _
    · exact ih _

/-- **Lifted limits change no wait.** -/
theorem Lifted.collectWait_snd (route : RouteKey) (waitMs : Nat) :
    (Rest.collectWait route now true buckets' waitMs).2 =
      (Rest.collectWait route now true buckets waitMs).2 := by
  unfold Rest.collectWait
  rw [h.findBucket route]
  cases hfind : Rest.findBucket route buckets with
  | none => rfl
  | some index =>
    cases hb : buckets[index]? with
    | none =>
      have hnone : buckets'[index]? = none := by
        rw [List.getElem?_eq_none_iff, h.length]
        exact List.getElem?_eq_none_iff.mp hb
      simp only [hb, hnone]
    | some b =>
      obtain ⟨b', hb', hcase⟩ := h.getElem? hb
      have hwait : b'.waitMs now waitMs = b.waitMs now waitMs := by
        rcases hcase with rfl | rfl
        · rfl
        · exact waitMs_lift b now waitMs
      have hbucket : b'.bucket = b.bucket := by
        rcases hcase with rfl | rfl
        · rfl
        · exact lift_bucket b now true
      simp only [hb, hb', hwait, hbucket]
      split
      · rw [(h.trans (Lifted.set hb')).collectRelated, (Lifted.set hb).collectRelated]
      · rfl

end

/-- A table that waits at `now` have left of another. -/
structure RateLimits.Lifted (now : Nat) (limits limits' : RateLimits) : Prop where
  buckets : Rest.Lifted now limits.buckets limits'.buckets
  globalResetAtMs : limits'.globalResetAtMs = limits.globalResetAtMs

/-- The value of a priority in the source. -/
def Priority.rank : Priority → Nat
  | .low => 0
  | .normal => 1
  | .high => 2

namespace AsyncClient

open Linked Function

variable {limits limits' : RateLimits} {request : AsyncRequest}

theorem lifted_refl (limits : RateLimits) (now : Nat) : limits.Lifted now limits :=
  ⟨Lifted.refl now _, rfl⟩

theorem lifted_requestWait (h : limits.Lifted now limits') (request : AsyncRequest) :
    limits.Lifted now (requestWaitMsLocked limits' request now true).1 := by
  rw [requestWaitMsLocked_fst]
  exact ⟨h.buckets.trans (Lifted.collectWait _), h.globalResetAtMs⟩

theorem requestWait_lifted (h : limits.Lifted now limits') (request : AsyncRequest) :
    (requestWaitMsLocked limits' request now true).2 =
      (requestWaitMsLocked limits request now true).2 := by
  have hglobal : limits'.globalWaitMs now = limits.globalWaitMs now := by
    unfold RateLimits.globalWaitMs
    rw [h.globalResetAtMs]
  have hroute : (routeWaitMsLocked limits' request.route now true).2 =
      (routeWaitMsLocked limits request.route now true).2 := by
    simp only [routeWaitMsLocked, hglobal]
    exact h.buckets.collectWait_snd _ _
  simp only [requestWaitMsLocked, hroute]
  split
  · rfl
  · exact hroute

variable {c : AsyncClient} {pending : Priority → List Addr} {p : Priority} {a : Addr}

/-! ## Ready requests -/

/-- Whether a request may be taken: it is canceled, or its route is idle and
nothing makes it wait. -/
def Ready (c : AsyncClient) (now : Nat) (a : Addr) : Prop :=
  (c.requests a).cancelRequested = true ∨ routeActive c.activeRoutes (c.requests a).route = false ∧
      (requestWaitMsLocked c.limits (c.requests a) now true).2 = 0

/-- What a walk over the list `l` from the table of `c` comes back with: the
first ready request of the list, or nothing. -/
inductive Scanned (c : AsyncClient) (now : Nat) (l₀ l : List Addr) :
    RateLimits × Option (Option Addr × Addr) → Prop
  | none {limits' : RateLimits} (hlifted : c.limits.Lifted now limits')
      (hnone : ∀ a ∈ l, ¬ c.Ready now a) : Scanned c now l₀ l (limits', none)
  | some {limits' : RateLimits} (l₁ l₂ : List Addr) {a : Addr}
      (hlifted : c.limits.Lifted now limits') (hl : l = l₁ ++ a :: l₂) (hready : c.Ready now a)
      (hfirst : ∀ b ∈ l₁, ¬ c.Ready now b) :
      Scanned c now l₀ l (limits', some ((l₀ ++ l₁).getLast?, a))

theorem Scanned.cons {l₀ l : List Addr} {r : RateLimits × Option (Option Addr × Addr)}
    (h : Scanned c now (l₀ ++ [a]) l r) (ha : ¬ c.Ready now a) : Scanned c now l₀ (a :: l) r := by
  cases h with
  | none hlifted hnone => exact .none hlifted (List.forall_mem_cons.mpr ⟨ha, hnone⟩)
  | some l₁ l₂ hlifted hl hready hfirst =>
    rw [List.append_assoc, List.singleton_append]
    exact .some (a :: l₁) l₂ hlifted (by rw [hl, List.cons_append]) hready
      (List.forall_mem_cons.mpr ⟨ha, hfirst⟩)

/-- **The walk over one list** stops at its first ready request. -/
theorem scanPending_scanned (l₀ : List Addr) {l : List Addr} {fuel : Nat} {link : Option Addr}
    (hlifted : c.limits.Lifted now limits) (hfuel : l.length < fuel)
    (hl : Seg c.nextOf link l none) :
    Scanned c now l₀ l (c.scanPending now fuel limits l₀.getLast? link) := by
  induction l generalizing l₀ fuel limits link with
  | nil =>
    obtain rfl : link = none := hl
    cases fuel with
    | zero => exact .none hlifted (by simp)
    | succ fuel => exact .none hlifted (by simp)
  | cons a l ih =>
    obtain ⟨fuel, rfl⟩ := Nat.exists_eq_succ_of_ne_zero (Nat.ne_of_gt (Nat.zero_lt_of_lt hfuel))
    obtain ⟨rfl, hl⟩ := hl
    have hhere : ∀ {limits'}, c.limits.Lifted now limits' → c.Ready now a →
        Scanned c now l₀ (a :: l) (limits', some (l₀.getLast?, a)) := by
      intro limits' hlifted' hready
      have hscanned : Scanned c now l₀ (a :: l) (limits', some ((l₀ ++ []).getLast?, a)) :=
        .some [] l hlifted' rfl hready (List.forall_mem_nil _)
      rwa [List.append_nil] at hscanned
    have hrest : ∀ {limits'}, c.limits.Lifted now limits' → ¬ c.Ready now a →
        Scanned c now l₀ (a :: l)
          (c.scanPending now fuel limits' (some a) (c.requests a).next) := by
      intro limits' hlifted' hnot
      have hscanned := ih (l₀ ++ [a]) hlifted' (by simpa using hfuel) hl
      rw [List.getLast?_concat] at hscanned
      exact hscanned.cons hnot
    rw [scanPending]
    by_cases hcanceled : (c.requests a).cancelRequested = true
    · simp only [hcanceled, if_true]
      exact hhere hlifted (Or.inl hcanceled)
    · by_cases hactive : routeActive c.activeRoutes (c.requests a).route = true
      · simp only [hcanceled, hactive, if_true]
        exact hrest hlifted fun h => by simp [Ready, hcanceled, hactive] at h
      · simp only [hcanceled, hactive]
        have hwait := requestWait_lifted hlifted (c.requests a)
        by_cases hzero : (requestWaitMsLocked limits (c.requests a) now true).2 = 0
        · simp only [hzero, if_true]
          refine hhere (lifted_requestWait hlifted _) (Or.inr ⟨by simpa using hactive, ?_⟩)
          rw [← hwait, hzero]
        · simp only [hzero, if_false]
          refine hrest (lifted_requestWait hlifted _) fun h => ?_
          rcases h with h | ⟨-, h⟩
          · exact hcanceled h
          · exact hzero (hwait.trans h)

/-- What a walk over the lists of `priorities` comes back with: the first ready
request of the first list that has one, linked out, or nothing. -/
inductive TakenFrom (c : AsyncClient) (pending : Priority → List Addr) (now : Nat)
    (priorities : List Priority) : AsyncClient × Option (Addr × QueuePosition) → Prop
  | none {limits' : RateLimits} (hlifted : c.limits.Lifted now limits')
      (hnone : ∀ p ∈ priorities, ∀ a ∈ pending p, ¬ c.Ready now a) :
      TakenFrom c pending now priorities ({ c with limits := limits' }, none)
  | some {limits' : RateLimits} (ps qs : List Priority) {p : Priority} {l₁ l₂ : List Addr}
      {a : Addr} (hlifted : c.limits.Lifted now limits') (hpriorities : priorities = ps ++ p :: qs)
      (hbefore : ∀ q ∈ ps, ∀ b ∈ pending q, ¬ c.Ready now b) (hl : pending p = l₁ ++ a :: l₂)
      (hready : c.Ready now a) (hfirst : ∀ b ∈ l₁, ¬ c.Ready now b) :
      TakenFrom c pending now priorities
        ({ c with limits := limits' }.unlinkPending p l₁.getLast? a,
          some (a, { priority := p, previous := l₁.getLast?, next := l₂.head? }))

theorem takeFrom_takenFrom (h : PendingRep c pending) (priorities : List Priority)
    (hlifted : c.limits.Lifted now limits) :
    TakenFrom c pending now priorities (takeFrom now priorities { c with limits := limits }) := by
  induction priorities generalizing limits with
  | nil => exact .none hlifted (by simp)
  | cons p priorities ih =>
    have hscanned : Scanned c now [] (pending p)
        (scanPending { c with limits := limits } now (c.allocated + 1) limits none
          (c.heads p)) := by
      have hsame : ∀ fuel limits' previous link,
          scanPending { c with limits := limits } now fuel limits' previous link =
            c.scanPending now fuel limits' previous link := by
        intro fuel
        induction fuel with
        | zero => exact fun _ _ _ => rfl
        | succ fuel ih =>
          intro limits' previous link
          cases link with
          | none => rfl
          | some a => simp only [scanPending, ih]
      rw [hsame]
      exact scanPending_scanned [] hlifted (Nat.lt_succ_of_le (h.length_le p)) (h.listed p).seg
    rw [takeFrom]
    simp only
    generalize scanPending { c with limits := limits } now (c.allocated + 1) limits none
      (c.heads p) = r at hscanned ⊢
    cases hscanned with
    | none hlifted' hnone =>
      have hrest := ih hlifted'
      simp only
      generalize takeFrom now priorities _ = taken at hrest ⊢
      cases hrest with
      | none hlifted'' hnone' => exact .none hlifted'' (List.forall_mem_cons.mpr ⟨hnone, hnone'⟩)
      | some ps qs hlifted'' hpriorities hbefore hl hready hfirst =>
        exact .some (p :: ps) qs hlifted'' (by rw [hpriorities, List.cons_append])
          (List.forall_mem_cons.mpr ⟨hnone, hbefore⟩) hl hready hfirst
    | @some limits' l₁ l₂ a hlifted' hl hready hfirst =>
      have hlisted := h.listed p
      rw [hl] at hlisted
      obtain ⟨_, -, -, hafter⟩ := seg_append.mp hlisted.seg
      have hnext : (c.requests a).next = l₂.head? := hafter.head_eq
      simp only [List.nil_append]
      rw [hnext]
      exact .some [] priorities hlifted' (List.nil_append _).symm (by simp) hl hready hfirst

/-! ## Taking and putting back -/

/-- The request `a` between `l₁` and `l₂` is the first ready request of its list,
and no list of a higher priority has one. -/
structure FirstReady (c : AsyncClient) (pending : Priority → List Addr) (now : Nat) (p : Priority)
    (l₁ : List Addr) (a : Addr) (l₂ : List Addr) : Prop where
  place : pending p = l₁ ++ a :: l₂
  ready : c.Ready now a
  first : ∀ b ∈ l₁, ¬ c.Ready now b
  highest : ∀ q, p.rank < q.rank → ∀ b ∈ pending q, ¬ c.Ready now b

/-- **What a take returns.**  It links out the first ready request of the highest
priority that has one, and returns nothing only where no request is ready. -/
theorem takeNextLocked_cases (h : PendingRep c pending) (now : Nat) :
    (∃ limits', c.takeNextLocked now = ({ c with limits := limits' }, none) ∧
        ∀ p, ∀ a ∈ pending p, ¬ c.Ready now a) ∨
      ∃ limits' p l₁ a l₂,
        c.takeNextLocked now = ({ c with limits := limits' }.unlinkPending p l₁.getLast? a,
          some (a, { priority := p, previous := l₁.getLast?, next := l₂.head? })) ∧
        FirstReady c pending now p l₁ a l₂ := by
  have htaken : TakenFrom c pending now [.high, .normal, .low] (c.takeNextLocked now) :=
    takeFrom_takenFrom h _ (lifted_refl c.limits now)
  generalize c.takeNextLocked now = r at htaken ⊢
  cases htaken with
  | none hlifted hnone => exact Or.inl ⟨_, rfl, fun p => hnone p (by cases p <;> simp)⟩
  | @some limits' ps qs p l₁ l₂ a hlifted hpriorities hbefore hl hready hfirst =>
    refine Or.inr ⟨_, p, l₁, a, l₂, rfl, hl, hready, hfirst, fun q hq => hbefore q ?_⟩
    -- the priorities come in descending order, so a higher one stands before `p`
    have hsorted : [Priority.high, .normal, .low].Pairwise fun p q => q.rank < p.rank := by decide
    rw [hpriorities, List.pairwise_append, List.pairwise_cons] at hsorted
    have hmem : q ∈ ps ++ p :: qs := by
      rw [← hpriorities]
      cases q <;> simp
    rcases List.mem_append.mp hmem with hmem | hmem
    · exact hmem
    · rcases List.mem_cons.mp hmem with rfl | hmem
      · omega
      · have hlower := hsorted.2.1.1 q hmem
        omega

/-- **Putting a taken request back** leaves the client as it was before the take. -/
theorem PendingRep.restore_unlink {l₁ l₂ : List Addr} (h : PendingRep c pending)
    (hl : pending p = l₁ ++ a :: l₂) :
    (c.unlinkPending p l₁.getLast? a).restoreLocked a
      { priority := p, previous := l₁.getLast?, next := l₂.head? } = c := by
  have hlisted := h.listed p
  rw [hl] at hlisted
  rw [restoreLocked_eq, unlinkPending_eq]
  simp only [nextOf_relinked, heads_relinked, tails_relinked, update_self]
  rw [hlisted.insert_unlink, hlisted.tail_insert_unlink, update_idem, update_eq_self, update_idem,
    update_eq_self]
  rfl

end AsyncClient

end Dcc.Rest
