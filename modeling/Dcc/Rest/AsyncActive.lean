import Dcc.Rest.AsyncLists

/-!
# Active requests and active routes

`ActiveRep c active` gives the list of active requests of a client and says
that the counter is its length, within the concurrency.  `RoutesRep c active`
relates the array of active routes to that list: it is free of duplicates and
holds exactly the routes that active requests have claimed, each claimed once.

* `ActiveRep.claim` and `RoutesRep.claim`: the drain loop makes a request
  active; marking its route cannot fail there;
* `ActiveRep.deactivate` and `RoutesRep.deactivate`: a request leaves the
  active list, at the end of its work or because no worker could be started.
-/

namespace Dcc.Rest.AsyncClient

open Linked Function

variable {c c' : AsyncClient} {active : List Addr} {a : Addr}

/-- The active requests. -/
structure ActiveRep (c : AsyncClient) (active : List Addr) : Prop where
  seg : Seg c.activeNextOf c.activeHead active none
  count : c.active = active.length
  count_le : c.active ≤ c.concurrency
  allocated : ∀ a ∈ active, a < c.allocated

/-- The route a request has claimed. -/
def claimedRoute (c : AsyncClient) (a : Addr) : Option RouteKey :=
  if (c.requests a).routeClaimed then some (c.requests a).route else none

/-- The active routes. -/
structure RoutesRep (c : AsyncClient) (active : List Addr) : Prop where
  claimed : c.activeRoutes.Perm (active.filterMap c.claimedRoute)
  nodup : c.activeRoutes.Nodup
  nonempty : RouteKey.empty ∉ c.activeRoutes

theorem ActiveRep.nodup (h : ActiveRep c active) : active.Nodup := h.seg.nodup

variable {moved : Addr → Prop}

theorem ActiveRep.congr (h : ActiveRep c active) (hsame : SameActive c c')
    (hframe : Frame c c' moved) : ActiveRep c' active where
  seg := by
    rw [hsame.activeHead]
    exact h.seg.congr fun b _ => hsame.activeNext b
  count := by rw [hsame.active, h.count]
  count_le := by
    rw [hsame.active, hframe.concurrency]
    exact h.count_le
  allocated b hb := by
    rw [hframe.allocated]
    exact h.allocated b hb

theorem RoutesRep.congr (h : RoutesRep c active) (hsame : SameActive c c')
    (hframe : Frame c c' moved) : RoutesRep c' active := by
  have hclaimed : c'.claimedRoute = c.claimedRoute := by
    funext b
    simp only [claimedRoute, hsame.routeClaimed, hframe.route]
  refine ⟨?_, ?_, ?_⟩
  · rw [hsame.activeRoutes, hclaimed]
    exact h.claimed
  · rw [hsame.activeRoutes]
    exact h.nodup
  · rw [hsame.activeRoutes]
    exact h.nonempty

theorem RoutesRep.length_le (h : RoutesRep c active) : c.activeRoutes.length ≤ active.length := by
  rw [h.claimed.length_eq]
  exact List.length_filterMap_le _ _

theorem RoutesRep.mem_iff (h : RoutesRep c active) (r : RouteKey) :
    r ∈ c.activeRoutes ↔
      ∃ a ∈ active, (c.requests a).routeClaimed = true ∧ (c.requests a).route = r := by
  rw [h.claimed.mem_iff, List.mem_filterMap]
  simp [claimedRoute]

theorem RoutesRep.claimed_unique (h : RoutesRep c active) {b : Addr} (ha : a ∈ active)
    (hb : b ∈ active) (haclaimed : (c.requests a).routeClaimed = true)
    (hbclaimed : (c.requests b).routeClaimed = true)
    (hroute : (c.requests a).route = (c.requests b).route) : a = b := by
  have hnodup : (active.filterMap c.claimedRoute).Nodup := h.claimed.nodup_iff.mp h.nodup
  by_contra hne
  obtain ⟨l₁, l₂, rfl⟩ := List.append_of_mem ha
  have hsome : c.claimedRoute a = some (c.requests a).route := by simp [claimedRoute, haclaimed]
  rw [(List.perm_middle.filterMap c.claimedRoute).nodup_iff, List.filterMap_cons_some hsome,
    List.nodup_cons] at hnodup
  refine hnodup.1 (List.mem_filterMap.mpr ⟨b, ?_, ?_⟩)
  · simpa [Ne.symm hne] using hb
  · simp [claimedRoute, hbclaimed, hroute]

theorem concurrency_le (c : AsyncClient) : c.concurrency ≤ bucketCap := by
  by_cases h : bucketCap < (if c.restConcurrency ≠ 0 then c.restConcurrency else 1)
  · simp only [AsyncClient.concurrency, h, if_true]
    exact Nat.le_refl _
  · simp only [AsyncClient.concurrency, h, if_false]
    exact Nat.le_of_not_lt h

/-! ## Becoming active -/

variable {routes : List RouteKey} {route : RouteKey}

theorem routeActive_iff :
    routeActive routes route = true ↔ route ≠ RouteKey.empty ∧ route ∈ routes := by
  simp [routeActive]

theorem RoutesRep.markRequest (h : RoutesRep c active) (hroom : active.length < bucketCap)
    (hfree : (c.requests a).cancelRequested = true ∨
      routeActive c.activeRoutes (c.requests a).route = false) :
    c.markRequest a =
      (.ok, if (c.requests a).cancelRequested = true ∨ (c.requests a).route = RouteKey.empty
        then c.activeRoutes else c.activeRoutes ++ [(c.requests a).route]) := by
  unfold AsyncClient.markRequest
  by_cases hcanceled : (c.requests a).cancelRequested = true
  · simp [hcanceled]
  · have hinactive := hfree.resolve_left hcanceled
    have hlen := h.length_le
    by_cases hempty : (c.requests a).route = RouteKey.empty
    · simp [hcanceled, hempty, markRouteActive]
    · have hlt : ¬ bucketCap ≤ c.activeRoutes.length := by omega
      simp [hcanceled, hempty, markRouteActive, hinactive, hlt]

theorem claimActive_requests (c : AsyncClient) (a : Addr) (routes : List RouteKey) (b : Addr) :
    (c.claimActive a routes).requests b = if b = a then
        { c.requests a with
          routeClaimed := !(c.requests a).cancelRequested && (c.requests a).route != RouteKey.empty
          activeNext := c.activeHead }
      else c.requests b := by
  by_cases hb : b = a
  · subst hb
    simp [claimActive, pushActiveLocked, setActiveNext, modify]
  · simp [claimActive, pushActiveLocked, setActiveNext, modify, hb]

theorem ActiveRep.claim (h : ActiveRep c active) (ha : a ∉ active) (hlt : a < c.allocated)
    (hroom : c.active < c.concurrency) (routes : List RouteKey) :
    ActiveRep (c.claimActive a routes) (a :: active) where
  seg := by
    refine ⟨rfl, ?_⟩
    have hhead : (c.claimActive a routes).activeNextOf a = c.activeHead := by
      simp [activeNextOf, claimActive_requests]
    rw [hhead]
    refine h.seg.congr fun b hb => ?_
    have hba : b ≠ a := fun hba => ha (hba ▸ hb)
    simp [activeNextOf, claimActive_requests, hba]
  count := by
    rw [List.length_cons, ← h.count]
    rfl
  count_le := hroom
  allocated b hb := by
    rcases List.mem_cons.mp hb with rfl | hb
    · exact hlt
    · exact h.allocated b hb

theorem claimedRoute_claimActive (c : AsyncClient) (a : Addr) (routes : List RouteKey) :
    (c.claimActive a routes).claimedRoute a =
      if (c.requests a).cancelRequested = true ∨ (c.requests a).route = RouteKey.empty then none
      else some (c.requests a).route := by
  rw [claimedRoute, claimActive_requests, if_pos rfl]
  by_cases hcanceled : (c.requests a).cancelRequested = true
  · simp [hcanceled]
  · by_cases hempty : (c.requests a).route = RouteKey.empty
    · simp [hempty]
    · simp [hcanceled, hempty]

/-- A request that is made active claims its route, unless it is canceled or
runs on no route. -/
theorem RoutesRep.claim (h : RoutesRep c active) (ha : a ∉ active)
    (hroom : active.length < bucketCap)
    (hfree : (c.requests a).cancelRequested = true ∨
      routeActive c.activeRoutes (c.requests a).route = false) :
    RoutesRep (c.claimActive a (c.markRequest a).2) (a :: active) := by
  rw [h.markRequest hroom hfree]
  have hothers : ∀ routes, active.filterMap (c.claimActive a routes).claimedRoute =
      active.filterMap c.claimedRoute := by
    intro routes
    refine List.filterMap_congr fun b hb => ?_
    have hba : b ≠ a := fun hba => ha (hba ▸ hb)
    rw [claimedRoute, claimedRoute, claimActive_requests, if_neg hba]
  by_cases hnone : (c.requests a).cancelRequested = true ∨ (c.requests a).route = RouteKey.empty
  · rw [if_pos hnone]
    refine ⟨?_, h.nodup, h.nonempty⟩
    rw [List.filterMap_cons_none (by rw [claimedRoute_claimActive, if_pos hnone]), hothers]
    exact h.claimed
  · rw [if_neg hnone]
    obtain ⟨hcanceled, hroute⟩ := not_or.mp hnone
    have hnew : (c.requests a).route ∉ c.activeRoutes := by
      intro hmem
      have hinactive := hfree.resolve_left hcanceled
      rw [routeActive_iff.mpr ⟨hroute, hmem⟩] at hinactive
      exact Bool.noConfusion hinactive
    have hperm : (c.activeRoutes ++ [(c.requests a).route]).Perm
        ((c.requests a).route :: c.activeRoutes) := List.perm_append_singleton _ _
    refine ⟨hperm.trans ?_, hperm.nodup_iff.mpr (List.nodup_cons.mpr ⟨hnew, h.nodup⟩), ?_⟩
    · rw [List.filterMap_cons_some (by rw [claimedRoute_claimActive, if_neg hnone]), hothers]
      exact h.claimed.cons _
    · intro hmem
      rcases List.mem_cons.mp (hperm.mem_iff.mp hmem) with hmem | hmem
      · exact hroute hmem.symm
      · exact h.nonempty hmem

/-! ## Leaving the active list -/

variable {l₁ l₂ : List Addr}

theorem removeActiveLoop_eq (l₀ : List Addr) {fuel : Nat} {cursor : Option Addr}
    (hfuel : l₁.length < fuel) (hl : Seg c.activeNextOf cursor (l₁ ++ a :: l₂) none) :
    c.removeActiveLoop a fuel l₀.getLast? cursor =
      (c.linkActiveAfter (l₀ ++ l₁).getLast? (c.activeNextOf a)).setActiveNext a none := by
  obtain ⟨fuel, rfl⟩ := Nat.exists_eq_succ_of_ne_zero (Nat.ne_of_gt (Nat.zero_lt_of_lt hfuel))
  induction l₁ generalizing l₀ fuel cursor with
  | nil =>
    obtain ⟨rfl, -⟩ := hl
    rw [removeActiveLoop, if_pos rfl, List.append_nil]
    rfl
  | cons b l₁ ih =>
    have hba : b ≠ a := by
      rintro rfl
      exact (List.nodup_cons.mp hl.nodup).1 (by simp)
    obtain ⟨rfl, hl⟩ := hl
    have hfuel' : l₁.length < fuel := by simpa using hfuel
    obtain ⟨fuel, rfl⟩ :=
      Nat.exists_eq_succ_of_ne_zero (Nat.ne_of_gt (Nat.zero_lt_of_lt hfuel'))
    have hrest : c.removeActiveLoop a (fuel + 1) (l₀ ++ [b]).getLast? (c.activeNextOf b) = _ :=
      ih _ hl fuel hfuel'
    rw [List.append_assoc, List.singleton_append] at hrest
    rw [removeActiveLoop, if_neg hba, ← hrest, List.getLast?_concat]
    rfl

/-- The client after `a` has left the active list, where `l₁` are the requests
before it. -/
def deactivated (c : AsyncClient) (l₁ : List Addr) (a : Addr) : AsyncClient :=
  { c with
    requests := fun b =>
      { c.requests b with
        activeNext :=
          update (relink c.activeNextOf c.activeHead l₁.getLast? (c.activeNextOf a)).1 a none b
        routeClaimed := if b = a then false else (c.requests b).routeClaimed }
    activeHead := (relink c.activeNextOf c.activeHead l₁.getLast? (c.activeNextOf a)).2
    activeRoutes :=
      if (c.requests a).routeClaimed then unmarkRouteActive c.activeRoutes (c.requests a).route
      else c.activeRoutes
    active := c.active - 1 }

theorem releaseRoute_eq (c : AsyncClient) (a : Addr) :
    c.releaseRoute a = { c with
        requests := fun b =>
          { c.requests b with routeClaimed := if b = a then false else (c.requests b).routeClaimed }
        activeRoutes :=
          if (c.requests a).routeClaimed then unmarkRouteActive c.activeRoutes (c.requests a).route
          else c.activeRoutes } := by
  by_cases hclaimed : (c.requests a).routeClaimed = true
  · simp only [releaseRoute, hclaimed, if_true, modify]
    congr 1
    funext b
    by_cases hb : b = a
    · subst hb
      simp
    · simp [hb]
  · simp only [releaseRoute, hclaimed]
    have hrequests : c.requests = fun b =>
        { c.requests b with
          routeClaimed := if b = a then false else (c.requests b).routeClaimed } := by
      funext b
      by_cases hb : b = a
      · subst hb
        rw [if_pos rfl]
        rw [Bool.not_eq_true] at hclaimed
        rw [← hclaimed]
      · rw [if_neg hb]
    exact congrArg (fun requests => { c with requests := requests }) hrequests

theorem removeActiveLocked_eq (h : Seg c.activeNextOf c.activeHead (l₁ ++ a :: l₂) none)
    (hlt : ∀ b ∈ l₁ ++ a :: l₂, b < c.allocated) :
    c.removeActiveLocked a = c.relinkedActive
        (update (relink c.activeNextOf c.activeHead l₁.getLast? (c.activeNextOf a)).1 a none)
        (relink c.activeNextOf c.activeHead l₁.getLast? (c.activeNextOf a)).2 := by
  have hlen := length_le_of_lt h.nodup hlt
  rw [List.length_append] at hlen
  have hfuel : l₁.length < c.allocated + 1 := by omega
  have hloop : c.removeActiveLocked a =
      (c.linkActiveAfter ([] ++ l₁).getLast? (c.activeNextOf a)).setActiveNext a none :=
    removeActiveLoop_eq [] hfuel h
  refine hloop.trans ?_
  rw [linkActiveAfter_eq, setActiveNext_eq]
  rfl

theorem ActiveRep.finishActive_eq (h : ActiveRep c (l₁ ++ a :: l₂)) :
    c.finishActiveLocked a = c.deactivated l₁ a := by
  have hpos : 0 < c.active := by
    rw [h.count, List.length_append, List.length_cons]
    omega
  rw [finishActiveLocked, if_pos hpos,
    removeActiveLocked_eq (c := { c with active := c.active - 1 }) h.seg h.allocated,
    releaseRoute_eq]
  rfl

theorem ActiveRep.undoActive_eq (h : ActiveRep c (l₁ ++ a :: l₂)) :
    c.undoActive a = c.deactivated l₁ a := by
  rw [undoActive, removeActiveLocked_eq h.seg h.allocated, releaseRoute_eq]
  rfl

theorem ActiveRep.deactivate (h : ActiveRep c (l₁ ++ a :: l₂)) :
    ActiveRep (c.deactivated l₁ a) (l₁ ++ l₂) where
  seg := (Listed.unlink ⟨h.seg, rfl⟩).seg
  count := by
    change c.active - 1 = _
    rw [h.count]
    simp only [List.length_append, List.length_cons]
    omega
  count_le := Nat.le_trans (Nat.sub_le _ _) h.count_le
  allocated b hb := by
    refine h.allocated b ?_
    rcases List.mem_append.mp hb with hb | hb
    · exact List.mem_append_left _ hb
    · exact List.mem_append_right _ (List.mem_cons_of_mem a hb)

theorem unmarkRouteActive_perm (hmem : route ∈ routes)
    (hnodup : routes.Nodup) (hne : route ≠ RouteKey.empty) :
    (unmarkRouteActive routes route).Perm (routes.erase route) := by
  obtain ⟨l₁, l₂, rfl⟩ := List.append_of_mem hmem
  have h₁ : route ∉ l₁ := fun h₁ =>
    (List.nodup_append.mp hnodup).2.2 route h₁ route List.mem_cons_self rfl
  have hidx : (l₁ ++ route :: l₂).findIdx? (· = route) = some l₁.length := by
    rw [List.findIdx?_append, List.findIdx?_eq_none_iff.mpr (by grind)]
    simp [List.findIdx?_cons]
  rw [List.erase_append_right _ h₁, List.erase_cons_head]
  rcases List.eq_nil_or_concat l₂ with rfl | ⟨l₂, last, rfl⟩
  · simp [unmarkRouteActive, hne, hidx]
  · have hset : ((l₁ ++ route :: (l₂ ++ [last])).set l₁.length last).dropLast =
        l₁ ++ last :: l₂ := by
      rw [List.set_append_right _ _ (Nat.le_refl _), Nat.sub_self, List.set_cons_zero,
        ← List.cons_append, ← List.append_assoc, List.dropLast_concat]
    rw [List.concat_eq_append] at hidx ⊢
    have hlast : (l₁ ++ route :: (l₂ ++ [last])).getLast? = some last := by
      simp [List.getLast?_append, List.getLast?_cons]
    simp only [unmarkRouteActive, hne, if_false, hidx, hlast, hset]
    exact (List.perm_append_left_iff l₁).mpr (List.perm_append_singleton last l₂).symm

/-- A request leaves with its route. -/
theorem RoutesRep.deactivate (h : RoutesRep c (l₁ ++ a :: l₂))
    (ha : a ∉ l₁ ++ l₂) : RoutesRep (c.deactivated l₁ a) (l₁ ++ l₂) := by
  have hothers : (l₁ ++ l₂).filterMap (c.deactivated l₁ a).claimedRoute =
      (l₁ ++ l₂).filterMap c.claimedRoute := by
    refine List.filterMap_congr fun b hb => ?_
    have hba : b ≠ a := fun hba => ha (hba ▸ hb)
    simp [claimedRoute, deactivated, hba]
  have hperm : c.activeRoutes.Perm ((a :: (l₁ ++ l₂)).filterMap c.claimedRoute) :=
    h.claimed.trans (List.perm_middle.filterMap _)
  by_cases hclaimed : (c.requests a).routeClaimed = true
  · have hsome : c.claimedRoute a = some (c.requests a).route := by simp [claimedRoute, hclaimed]
    rw [List.filterMap_cons_some hsome] at hperm
    have hmem : (c.requests a).route ∈ c.activeRoutes := hperm.mem_iff.mpr List.mem_cons_self
    have hunmark := unmarkRouteActive_perm hmem h.nodup fun hempty => h.nonempty (hempty ▸ hmem)
    have hroutes : (c.deactivated l₁ a).activeRoutes =
        unmarkRouteActive c.activeRoutes (c.requests a).route := by
      simp [deactivated, hclaimed]
    refine ⟨?_, ?_, fun hempty => ?_⟩
    · rw [hroutes, hothers]
      refine hunmark.trans ((hperm.erase _).trans ?_)
      rw [List.erase_cons_head]
    · rw [hroutes]
      exact hunmark.nodup_iff.mpr (h.nodup.erase _)
    · rw [hroutes] at hempty
      exact h.nonempty (List.mem_of_mem_erase (hunmark.mem_iff.mp hempty))
  · have hnone : c.claimedRoute a = none := by simp [claimedRoute, hclaimed]
    rw [List.filterMap_cons_none hnone] at hperm
    have hroutes : (c.deactivated l₁ a).activeRoutes = c.activeRoutes := by
      simp [deactivated, hclaimed]
    refine ⟨?_, ?_, ?_⟩
    · rw [hroutes, hothers]
      exact hperm
    · rw [hroutes]
      exact h.nodup
    · rw [hroutes]
      exact h.nonempty

theorem frame_deactivated (c : AsyncClient) (l₁ : List Addr) (a : Addr) (moved : Addr → Prop) :
    Frame c (c.deactivated l₁ a) moved :=
  ⟨rfl, rfl, rfl, fun _ => rfl, fun _ => rfl, fun _ => rfl, fun _ _ => rfl⟩

end Dcc.Rest.AsyncClient
