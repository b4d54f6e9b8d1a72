import Dcc.App.Tally

/-!
# The steps of a dispatch and of `dcc_app_unlisten`

* `Living.replace` — a step on one listener, which the other ones do not notice;
* `acquire_living`, `dispatchStep_living` — the steps of a dispatch;
* `unlisten_living`, `unlistenStep_living` — the steps of `dcc_app_unlisten`.
-/

namespace Dcc.App

open Stacks

/-! ## The other listeners -/

/-- The kinds of operations that the comparison counts for a listener. -/
def kinds (listener : Nat) : List (Op → Bool) :=
  [Op.flies listener, Op.runs listener, Op.isFresh listener, Op.calls listener,
    Op.detaches listener, Op.finalizes listener, Op.precleans listener, Op.cleans listener,
    Op.touches listener, Op.pursues listener, Op.mentions listener]

/-- The operation counts for this listener only. -/
def About (listener : Nat) (op : Op) : Prop :=
  ∀ other, other ≠ listener → ∀ p ∈ kinds other, p op = false

theorem About.same {listener : Nat} {op op' : Op} (h : About listener op) (h' : About listener op') :
    ∀ other, other ≠ listener → ∀ p ∈ kinds other, p op = p op' :=
  fun other hne p hp => (h other hne p hp).trans (h' other hne p hp).symm

theorem about_dispatch (listener : Nat) (phase : DispatchPhase) :
    About listener (.dispatch listener phase) := by
  intro other hne p hp
  have hne' : (listener == other) = false := by simpa using hne.symm
  have hfin : (Op.dispatch listener phase).finalizeOn other = none := by
    cases phase <;> simp [Op.finalizeOn, hne.symm]
  have hdet : (Op.dispatch listener phase).detachOn other = none := by
    cases phase <;> simp [Op.detachOn, hfin, hne.symm]
  have htouches : (Op.dispatch listener phase).touches other = false := by
    cases phase <;> simp [Op.touches, hne']
  have hflies : (Op.dispatch listener phase).flies other = false := by
    cases phase <;> simp [Op.flies, hne']
  simp only [kinds, List.mem_cons, List.not_mem_nil, or_false] at hp
  rcases hp with rfl | rfl | rfl | rfl | rfl | rfl | rfl | rfl | rfl | rfl | rfl
  · exact hflies
  · cases phase <;> simp [Op.runs, hne']
  · cases phase <;> simp [Op.isFresh, hne']
  · simp [Op.calls, hdet]
  · simp [Op.detaches, hdet]
  · simp [Op.finalizes, hfin]
  · simp [Op.precleans, hfin]
  · simp [Op.cleans, hfin]
  · exact htouches
  · cases phase with
    | finalizing inner => cases inner <;> simp [Op.pursues, hne']
    | _ => rfl
  · simp [Op.mentions, htouches, hflies]

theorem about_unlisten (listener : Nat) (phase : UnlistenPhase) :
    About listener (.unlisten listener phase) := by
  intro other hne p hp
  have hne' : (listener == other) = false := by simpa using hne.symm
  have hfin : (Op.unlisten listener phase).finalizeOn other = none := by
    cases phase <;> simp [Op.finalizeOn, hne.symm]
  have hdet : (Op.unlisten listener phase).detachOn other = none := by
    cases phase <;> simp [Op.detachOn, hfin, hne.symm]
  simp only [kinds, List.mem_cons, List.not_mem_nil, or_false] at hp
  rcases hp with rfl | rfl | rfl | rfl | rfl | rfl | rfl | rfl | rfl | rfl | rfl
  · rfl
  · rfl
  · rfl
  · simp [Op.calls, hdet]
  · simp [Op.detaches, hdet]
  · simp [Op.finalizes, hfin]
  · simp [Op.precleans, hfin]
  · simp [Op.cleans, hfin]
  · simp [Op.touches, hne']
  · cases phase with
    | detaching own inner => cases own <;> simp [Op.pursues, hne']
    | waiting => simp [Op.pursues, hne']
    | finalizing inner => cases inner <;> simp [Op.pursues, hne']
  · simp [Op.mentions, Op.touches, Op.flies, hne']

theorem Sound.other {count after : (Op → Bool) → Nat} {listener : Nat} {entry : Entry}
    {retired barred retired' barred' : Prop} (h : Sound count listener entry retired barred)
    (hsame : ∀ p ∈ kinds listener, after p = count p) (hretired : retired' ↔ retired)
    (hbarred : barred' ↔ barred) : Sound after listener entry retired' barred' := by
  simp only [kinds, List.forall_mem_cons, List.not_mem_nil, false_implies, implies_true,
    and_true] at hsame
  obtain ⟨h1, h2, h3, h4, h5, h6, h7, h8, h9, h10, -⟩ := hsame
  refine ⟨⟨?_, ?_, ?_⟩, ⟨?_, ?_⟩, ⟨?_, ?_, ?_, h.finalizing.detached⟩, ⟨?_, ?_, ?_⟩, ?_⟩
  · rw [h1]; exact h.flying.flight
  · rw [h2]; exact h.flying.running
  · rw [h3]; exact h.flying.once
  · rw [h4]; exact h.detaching.calls
  · rw [h5]; exact h.detaching.busy
  · rw [h7]; exact h.finalizing.cleans
  · rw [h8]; exact h.finalizing.busy
  · rw [h6]; exact h.finalizing.landed
  · rw [h9, hretired]; exact h.removal.removed
  · rw [hretired]; exact h.removal.retired
  · rw [h10]; exact h.removal.pursued
  · rw [hbarred]; exact h.barred

section Replace

variable {app after : Listening} {task listener : Nat} {old new stack : List Op}
  {entry next : Entry}

theorem moves_of_tasks (htask : app.tasks[task]? = some (old ++ stack))
    (htasks : after.tasks = app.tasks.set task (new ++ stack)) :
    Moves app.count after.count old new := by
  intro p
  simp only [Listening.count, htasks]
  exact count_set p htask

section

variable (old new) (h : Living app) (htask : app.tasks[task]? = some (old ++ stack))
  (hentry : app.entries[listener]? = some entry)
  (hentries : after.entries = app.entries.set listener next)
  (htasks : after.tasks = app.tasks.set task (new ++ stack))
  (hself : Sound app.count listener entry (listener ∈ app.retired)
      (Barred app.unlistened listener) → Moves app.count after.count old new →
    Sound after.count listener next (listener ∈ after.retired)
      (Barred after.unlistened listener))
include h htask hentry hentries htasks hself

/-- **A step on one listener**, and what the other ones notice of it. -/
theorem Living.replaceWith
    (hother : ∀ other entry', other ≠ listener → Moves app.count after.count old new →
      Sound app.count other entry' (other ∈ app.retired) (Barred app.unlistened other) →
      Sound after.count other entry' (other ∈ after.retired) (Barred after.unlistened other))
    (habsent : ∀ other, app.entries.length ≤ other → Moves app.count after.count old new →
      app.count (Op.mentions other) = 0 ∧ other ∉ app.retired ∧ ¬ Barred app.unlistened other →
      after.count (Op.mentions other) = 0 ∧ other ∉ after.retired ∧
        ¬ Barred after.unlistened other) : Living after := by
  have hmoves : Moves app.count after.count old new := moves_of_tasks htask htasks
  have hlt : listener < app.entries.length := (List.getElem?_eq_some_iff.mp hentry).1
  constructor
  · intro other entry' hfound
    by_cases hne : other = listener
    · subst hne
      rw [hentries, List.getElem?_set_self hlt] at hfound
      obtain rfl := Option.some.inj hfound
      exact hself (h.sound _ entry hentry) hmoves
    · rw [hentries, List.getElem?_set_ne (Ne.symm hne)] at hfound
      exact hother other entry' hne hmoves (h.sound other entry' hfound)
  · intro other hle
    rw [hentries, List.length_set] at hle
    exact habsent other hle hmoves (h.absent other hle)

variable
  (hretired : ∀ other, other ≠ listener → (other ∈ after.retired ↔ other ∈ app.retired))
  (hbarred : ∀ other, other ≠ listener →
    (Barred after.unlistened other ↔ Barred app.unlistened other))
include hretired hbarred

theorem Living.replaceSame
    (hkinds : ∀ other, other ≠ listener → ∀ p ∈ kinds other, old.countP p = new.countP p) :
    Living after := by
  have hlt : listener < app.entries.length := (List.getElem?_eq_some_iff.mp hentry).1
  have hsame : Moves app.count after.count old new → ∀ other, other ≠ listener →
      ∀ p ∈ kinds other, after.count p = app.count p := by
    intro hmoves other hne p hp
    have hweigh := hmoves p
    rw [hkinds other hne p hp] at hweigh
    omega
  refine h.replaceWith old new htask hentry hentries htasks hself ?_ ?_
  · intro other entry' hne hmoves hs
    exact hs.other (hsame hmoves other hne) (hretired other hne) (hbarred other hne)
  · intro other hle hmoves habsent
    have hne : other ≠ listener := by omega
    rw [hretired other hne, hbarred other hne,
      hsame hmoves other hne (Op.mentions other) (by simp [kinds])]
    exact habsent

/-- A step with operations that are about one listener. -/
theorem Living.replace (habout : ∀ op ∈ old ++ new, About listener op) : Living after := by
  refine h.replaceSame old new htask hentry hentries htasks hself hretired hbarred ?_
  intro other hne p hp
  have hzero : ∀ ops : List Op, ops ⊆ old ++ new → ops.countP p = 0 := by
    intro ops hsub
    rw [List.countP_eq_zero]
    intro op hmem
    simp [habout op (hsub hmem) other hne p hp]
  rw [hzero old (List.subset_append_left _ _), hzero new (List.subset_append_right _ _)]

end

theorem Living.advance {op op' : Op} (h : Living app)
    (htask : app.tasks[task]? = some (op :: stack))
    (hentry : app.entries[listener]? = some entry)
    (hentries : after.entries = app.entries.set listener next)
    (htasks : after.tasks = app.tasks.set task (op' :: stack))
    (hretired : after.retired = app.retired) (hunlistened : after.unlistened = app.unlistened)
    (hkinds : ∀ other, other ≠ listener → ∀ p ∈ kinds other, p op = p op')
    (hself : Sound app.count listener entry (listener ∈ app.retired)
        (Barred app.unlistened listener) → Moves app.count after.count [op] [op'] →
      Sound after.count listener next (listener ∈ app.retired)
        (Barred app.unlistened listener)) : Living after := by
  refine h.replaceSame [op] [op'] htask hentry hentries htasks ?_ (fun _ _ => by rw [hretired])
    (fun _ _ => by rw [hunlistened]) ?_
  · rwa [hretired, hunlistened]
  · intro other hne p hp
    simp [List.countP_singleton, hkinds other hne p hp]

theorem count_pos_of_top {op : Op} {p : Op → Bool} (htask : app.tasks[task]? = some (op :: stack))
    (hp : p op = true) : 0 < app.count p :=
  count_pos_of_any htask (by simp [hp])

theorem toNat_le_count {op : Op} {p : Op → Bool} (htask : app.tasks[task]? = some (op :: stack)) :
    (p op).toNat ≤ app.count p := by
  cases hp : p op with
  | false => simp
  | true =>
    exact count_pos_of_top htask hp

theorem entries_set_self (hentry : app.entries[listener]? = some entry) :
    app.entries = app.entries.set listener entry := by
  apply List.ext_getElem?
  intro other
  by_cases hne : listener = other
  · subst hne
    rw [List.getElem?_set_self (List.getElem?_eq_some_iff.mp hentry).1, hentry]
  · rw [List.getElem?_set_ne hne]

end Replace

/-! ## A dispatch -/

section Dispatch

variable {app : Listening} {task listener : Nat} {stack : List Op} {entry next : Entry}
  {count after : (Op → Bool) → Nat} {retired barred : Prop} {op op' : Op}

/-- The handler is before, in or after its call: only the invocations change. -/
theorem Sound.invoke {phase phase' : DispatchPhase} (h : Sound count listener entry retired barred)
    (hmoves : Moves count after [.dispatch listener phase] [.dispatch listener phase'])
    (hinside : ∀ q ∈ [phase, phase'], q = .acquired ∨ q = .entered ∨ q = .running ∨
      q = .returned ∨ q = .leaving)
    (hrunning : next.running = after (Op.runs listener))
    (honce : entry.once = true →
      next.invoked + after (Op.isFresh listener) ≤ entry.invoked + count (Op.isFresh listener))
    (hframe : next = { entry with running := next.running, invoked := next.invoked }) :
    Sound after listener next retired barred := by
  have hsame : ∀ p ∈ [Op.flies listener, Op.calls listener, Op.detaches listener,
      Op.finalizes listener, Op.precleans listener, Op.cleans listener, Op.touches listener,
      Op.pursues listener], after p = count p := by
    have hphase := hinside phase (by simp)
    have hphase' := hinside phase' (by simp)
    intro p hp
    refine hmoves.same ?_
    simp only [List.mem_cons, List.not_mem_nil, or_false] at hp
    rcases hp with rfl | rfl | rfl | rfl | rfl | rfl | rfl | rfl <;>
      rcases hphase with rfl | rfl | rfl | rfl | rfl <;>
      rcases hphase' with rfl | rfl | rfl | rfl | rfl <;> rfl
  simp only [List.forall_mem_cons, List.not_mem_nil, false_implies, implies_true, and_true] at hsame
  obtain ⟨h1, h2, h3, h4, h5, h6, h7, h8⟩ := hsame
  have hflight : next.inFlight = entry.inFlight := by rw [hframe]
  refine ⟨⟨?_, hrunning, ?_⟩, ⟨?_, ?_⟩, ⟨?_, ?_, ?_, ?_⟩, ⟨?_, ?_, ?_⟩, ?_⟩
  · rw [hflight, h1]
    exact h.flying.flight
  · rw [hframe]
    intro h'
    have hold := h.flying.once h'
    have hnew := honce h'
    simp only at hnew ⊢
    omega
  · rw [hframe, h2]
    exact h.detaching.calls
  · rw [hframe, h3]
    exact h.detaching.busy
  · rw [hframe, h5]
    exact h.finalizing.cleans
  · rw [hframe, h6]
    exact h.finalizing.busy
  · rw [hframe, h4]
    exact h.finalizing.landed
  · rw [hframe]
    exact h.finalizing.detached
  · rw [hframe, h7]
    exact h.removal.removed
  · rw [hframe]
    exact h.removal.retired
  · rw [hframe, h8]
    exact h.removal.pursued
  · rw [hframe]
    exact h.barred

/-- The release of a listener: the last one of a listener that was removed will finalize
it. -/
theorem Sound.release {new : List Op} (h : Sound count listener entry retired barred)
    (hpos : 0 < count (Op.flies listener))
    (hmoves : Moves count after [.dispatch listener .leaving] new)
    (hnew : new = if entry.inFlight - 1 = 0 ∧ entry.active = false then
      [.dispatch listener (.finalizing .enter)] else []) :
    Sound after listener { entry with inFlight := entry.inFlight - 1 } retired barred := by
  have hflight := h.flying.flight
  have hflies : after (Op.flies listener) + 1 = count (Op.flies listener) := by
    have hp := hmoves (Op.flies listener)
    subst hnew
    split at hp <;> simpa [Op.flies] using hp
  have hsame : ∀ p ∈ [Op.runs listener, Op.isFresh listener, Op.calls listener,
      Op.detaches listener, Op.precleans listener, Op.cleans listener], after p = count p := by
    intro p hp
    have hweigh := hmoves p
    subst hnew
    simp only [List.mem_cons, List.not_mem_nil, or_false] at hp
    rcases hp with rfl | rfl | rfl | rfl | rfl | rfl <;> split at hweigh <;>
      simpa [Op.runs, Op.isFresh, Op.calls, Op.detaches, Op.precleans, Op.cleans, Op.detachOn,
        Op.finalizeOn, FinalizePhase.detach?, FinalizePhase.isDetaching,
        FinalizePhase.isBusy] using hweigh
  simp only [List.forall_mem_cons, List.not_mem_nil, false_implies, implies_true, and_true] at hsame
  obtain ⟨h1, h2, h3, h4, h5, h6⟩ := hsame
  have hpursues : entry.active = false →
      0 < entry.inFlight - 1 ∨ 0 < after (Op.pursues listener) := by
    intro hactive
    by_cases hlast : entry.inFlight - 1 = 0
    · have hp := hmoves (Op.pursues listener)
      rw [hnew, if_pos ⟨hlast, hactive⟩] at hp
      simp [Op.pursues] at hp
      omega
    · exact .inl (Nat.pos_of_ne_zero hlast)
  have hsteady : ¬ (entry.inFlight - 1 = 0 ∧ entry.active = false) →
      after (Op.finalizes listener) = count (Op.finalizes listener) ∧
      after (Op.touches listener) = count (Op.touches listener) := by
    intro hnot
    rw [if_neg hnot] at hnew
    subst hnew
    have hfinalizes := hmoves (Op.finalizes listener)
    have htouches := hmoves (Op.touches listener)
    simp [Op.finalizes, Op.finalizeOn] at hfinalizes
    simp [Op.touches] at htouches
    exact ⟨hfinalizes, htouches⟩
  refine ⟨⟨?_, ?_, ?_⟩, ⟨?_, ?_⟩, ⟨?_, ?_, ?_, h.finalizing.detached⟩,
    ⟨?_, h.removal.retired, fun hactive _ => hpursues hactive⟩, ?_⟩
  · simp only
    omega
  · rw [h1]
    exact h.flying.running
  · rw [h2]
    exact h.flying.once
  · rw [h3]
    exact h.detaching.calls
  · rw [h4]
    exact h.detaching.busy
  · rw [h5]
    exact h.finalizing.cleans
  · rw [h6]
    exact h.finalizing.busy
  · intro hstarted
    by_cases hlast : entry.inFlight - 1 = 0 ∧ entry.active = false
    · exact hlast.1
    · rw [(hsteady hlast).1] at hstarted
      have hzero := h.finalizing.landed hstarted
      simp only
      omega
  · intro hreason
    by_cases hlast : entry.inFlight - 1 = 0 ∧ entry.active = false
    · exact hlast.2
    · rw [(hsteady hlast).2] at hreason
      exact h.removal.removed hreason
  · intro hb
    obtain ⟨hactive, hzero⟩ := h.barred hb
    exact ⟨hactive, by simp only; omega⟩

theorem Sound.fresh (h : Sound count listener entry retired barred) (hactive : entry.active = true) :
    entry.detachStarted = false ∧ entry.finalizeStarted = false ∧
      count (Op.touches listener) = 0 ∧ entry.retired = false ∧ ¬ retired ∧ ¬ barred := by
  have hnot : ¬ (entry.detachStarted = true ∨ entry.finalizeStarted = true ∨
      0 < count (Op.touches listener) ∨ entry.retired = true ∨ retired) := by
    intro hreason
    rw [h.removal.removed hreason] at hactive
    cases hactive
  simp only [not_or, Bool.not_eq_true] at hnot
  obtain ⟨h1, h2, h3, h4, h5⟩ := hnot
  refine ⟨h1, h2, by omega, h4, h5, ?_⟩
  intro hb
  rw [(h.barred hb).1] at hactive
  cases hactive

theorem touches_of_finalizeOn {op : Op} (h : (op.finalizeOn listener).isSome = true) :
    op.touches listener = true := by
  unfold Op.finalizeOn at h
  split at h
  · simp [Op.touches, Option.isSome_ite.mp h]
  · simp [Op.touches, Option.isSome_ite.mp h]
  · simp [Op.touches, Option.isSome_ite.mp h]
  · cases h

theorem touches_of_detachOn {op : Op} (h : (op.detachOn listener).isSome = true) :
    op.touches listener = true := by
  unfold Op.detachOn at h
  split at h
  · simp [Op.touches, Option.isSome_ite.mp h]
  · simp [Op.touches, Option.isSome_ite.mp h]
  · simp [Op.touches, Option.isSome_ite.mp h]
  · refine touches_of_finalizeOn ?_
    obtain ⟨phase, hphase⟩ := Option.isSome_iff_exists.mp h
    obtain ⟨inner, hinner, -⟩ := Option.bind_eq_some_iff.mp hphase
    simp [hinner]

theorem finalizes_le_touches (app : Listening) (listener : Nat) :
    app.count (Op.finalizes listener) ≤ app.count (Op.touches listener) :=
  count_mono fun _ hop => touches_of_finalizeOn hop

theorem Sound.acquire (h : Sound count listener entry retired barred)
    (hactive : entry.active = true) (honce : entry.once = false)
    (hle : count (Op.finalizes listener) ≤ count (Op.touches listener))
    (hmoves : Moves count after [] [.dispatch listener .acquired]) :
    Sound after listener { entry with inFlight := entry.inFlight + 1 } retired barred := by
  obtain ⟨hdetach, hfinalize, htouches, hretired, hnot, hopen⟩ := h.fresh hactive
  have hpush := hmoves.push
  refine ⟨⟨?_, ?_, ?_⟩, ⟨?_, ?_⟩, ⟨?_, ?_, ?_, h.finalizing.detached⟩, ⟨?_, ?_, ?_⟩, ?_⟩
  · rw [hpush]
    simp [Op.flies, h.flying.flight]
  · rw [hpush]
    exact h.flying.running
  · simp [honce]
  · rw [hpush]
    exact h.detaching.calls
  · rw [hpush]
    exact h.detaching.busy
  · rw [hpush]
    exact h.finalizing.cleans
  · rw [hpush]
    exact h.finalizing.busy
  · intro hreason
    rw [hpush] at hreason
    simp [hfinalize, Op.finalizes, Op.finalizeOn] at hreason
    omega
  · intro hreason
    rw [hpush] at hreason
    simp [hdetach, hfinalize, hretired, hnot, Op.touches] at hreason
    omega
  · intro hnone
    simp [hactive] at hnone
  · intro hnone
    simp [hactive] at hnone
  · exact fun hb => absurd hb hopen

theorem Sound.claim {retired' : Prop} (h : Sound count listener entry retired barred)
    (hretired' : retired') (hactive : entry.active = true) (hfired : entry.fired = false)
    (hle : count (Op.finalizes listener) ≤ count (Op.touches listener))
    (hmoves : Moves count after [] [.dispatch listener (.claimed .enter)]) :
    Sound after listener
      { entry with fired := true, inFlight := entry.inFlight + 1, active := false, retired := true }
      retired' barred := by
  obtain ⟨hdetach, hfinalize, htouches, hretired, hnot, hopen⟩ := h.fresh hactive
  have hpush := hmoves.push
  refine ⟨⟨?_, ?_, ?_⟩, ⟨?_, ?_⟩, ⟨?_, ?_, ?_, h.finalizing.detached⟩, ⟨?_, ?_, ?_⟩, ?_⟩
  · rw [hpush]
    simp [Op.flies, h.flying.flight]
  · rw [hpush]
    exact h.flying.running
  · intro honce
    have hold := h.flying.once honce
    rw [hpush]
    simp only [hfired, Bool.toNat_false] at hold
    simp [Op.isFresh]
    omega
  · rw [hpush]
    simpa [Op.calls, Op.detachOn, DetachPhase.isCalling] using h.detaching.calls
  · rw [hpush]
    simpa [Op.detaches, Op.detachOn, DetachPhase.isBusy] using h.detaching.busy
  · rw [hpush]
    exact h.finalizing.cleans
  · rw [hpush]
    exact h.finalizing.busy
  · intro hreason
    rw [hpush] at hreason
    simp [hfinalize, Op.finalizes, Op.finalizeOn] at hreason
    omega
  · exact fun _ => rfl
  · exact fun _ => ⟨rfl, hretired'⟩
  · exact fun _ _ => .inl (Nat.succ_pos _)
  · exact fun hb => absurd hb hopen

theorem remove_of_active (hretired : entry.retired = false) (app : Listening) (listener : Nat) :
    app.remove listener entry =
      { app.setEntry listener { entry with active := false, retired := true } with
        listeners := app.listeners.erase listener
        retired := listener :: app.retired } := by
  simp [Listening.remove, hretired]

theorem acquire_living (h : Living app) (htask : app.tasks[task]? = some stack)
    (hentry : app.entries[listener]? = some entry) :
    Living (app.acquire task stack listener entry) := by
  have hsound := h.sound listener entry hentry
  unfold Listening.acquire
  by_cases hclosed : entry.active = false ∨ app.destroying = true
  · rw [if_pos hclosed]
    exact h
  · rw [if_neg hclosed]
    have hactive : entry.active = true := by
      cases hflag : entry.active with
      | true => rfl
      | false => exact absurd (.inl hflag) hclosed
    have hle := finalizes_le_touches app listener
    by_cases honce : entry.once = true
    · rw [if_pos honce]
      by_cases hfired : entry.fired = true
      · rw [if_pos hfired]
        exact h
      · rw [if_neg hfired]
        have hretired : entry.retired = false := (hsound.fresh hactive).2.2.2.1
        rw [remove_of_active (by exact hretired)]
        refine h.replace [] [.dispatch listener (.claimed .enter)] htask hentry rfl rfl ?_ ?_
          (fun _ _ => Iff.rfl) (by simp [about_dispatch])
        · intro hs hmoves
          exact hs.claim List.mem_cons_self hactive (by simpa using hfired) hle hmoves
        · intro other hne
          simp [Listening.setTask, hne]
    · rw [if_neg honce]
      refine h.replace [] [.dispatch listener .acquired] htask hentry rfl rfl ?_
        (fun _ _ => Iff.rfl) (fun _ _ => Iff.rfl) (by simp [about_dispatch])
      intro hs hmoves
      exact hs.acquire hactive (by simpa using honce) hle hmoves

/-- The next step of a dispatch. -/
theorem dispatchStep_living {phase : DispatchPhase} (h : Living app)
    (htask : app.tasks[task]? = some (.dispatch listener phase :: stack))
    (hentry : app.entries[listener]? = some entry) (choice : Choice) :
    Living (app.dispatchStep task stack listener entry choice phase) := by
  have hsound := h.sound listener entry hentry
  have hsame := fun phase phase' =>
    (about_dispatch listener phase).same (about_dispatch listener phase')
  cases phase with
  | claimed inner =>
    have hactive : entry.active = false :=
      hsound.removal.removed (.inr (.inr (.inl (count_pos_of_top htask (by simp [Op.touches])))))
    have hflying : 0 < entry.inFlight := by
      rw [hsound.flying.flight]
      exact count_pos_of_top htask (by simp [Op.flies])
    simp only [Listening.dispatchStep]
    split
    · exact h
    · rename_i next inner' hstep
      refine h.advance htask hentry rfl rfl rfl rfl (hsame _ _) fun hs hmoves => ?_
      exact hs.detach_move hstep hactive hmoves ⟨by simp [Op.detachOn],
        fun p => by simp [Op.detachOn, Outcome.weight], rfl, rfl, rfl, rfl, rfl, rfl⟩
        fun _ => .inl hflying
    · rename_i next status hstep
      refine h.advance htask hentry rfl rfl rfl rfl (hsame _ _) fun hs hmoves => ?_
      exact hs.detach_move hstep hactive hmoves ⟨by simp [Op.detachOn],
        fun p => by simp [Op.detachOn, Op.finalizeOn, Outcome.weight],
        rfl, rfl, rfl, rfl, rfl, rfl⟩ fun _ => .inl hflying
  | acquired =>
    have hnot : ∀ phase', phase' = .entered ∨ phase' = .leaving →
        Living (app.setTask task (.dispatch listener phase' :: stack)) := by
      intro phase' hphase'
      refine h.advance htask hentry (entries_set_self hentry) rfl rfl rfl (hsame _ _)
        fun hs hmoves => ?_
      refine hs.invoke hmoves ?_ ?_ ?_ rfl
      · rcases hphase' with rfl | rfl <;> simp
      · rw [hs.flying.running]
        rcases hphase' with rfl | rfl <;> exact (hmoves.same rfl).symm
      · intro _
        have hweigh := hmoves.weigh (Op.isFresh listener)
        rcases hphase' with rfl | rfl <;> simp [Op.isFresh] at hweigh <;> omega
    simp only [Listening.dispatchStep]
    cases choice.proceed with
    | true => exact hnot .entered (.inl rfl)
    | false => exact hnot .leaving (.inr rfl)
  | entered =>
    simp only [Listening.dispatchStep]
    split
    · refine h.advance htask hentry rfl rfl rfl rfl (hsame _ _) fun hs hmoves => ?_
      have hruns := hmoves.weigh (Op.runs listener)
      have hfresh := hmoves.weigh (Op.isFresh listener)
      simp [Op.runs, Op.isFresh] at hruns hfresh
      refine hs.invoke hmoves (by simp) ?_ ?_ rfl
      · rw [hs.flying.running]
        exact hruns.symm
      · intro _
        simp only
        omega
    · refine h.advance htask hentry (entries_set_self hentry) rfl rfl rfl (hsame _ _)
        fun hs hmoves => ?_
      have hfresh := hmoves.weigh (Op.isFresh listener)
      simp [Op.isFresh] at hfresh
      refine hs.invoke hmoves (by simp) ?_ ?_ rfl
      · rw [hs.flying.running]
        exact (hmoves.same rfl).symm
      · intro _
        omega
  | running =>
    refine h.advance htask hentry rfl rfl rfl rfl (hsame _ _) fun hs hmoves => ?_
    have hruns := hmoves.weigh (Op.runs listener)
    simp [Op.runs] at hruns
    refine hs.invoke hmoves (by simp) ?_ ?_ rfl
    · have hrunning := hs.flying.running
      simp only
      omega
    · intro _
      have hfresh : _ = _ := hmoves.same (p := Op.isFresh listener) rfl
      simp only
      omega
  | returned =>
    refine h.advance htask hentry (entries_set_self hentry) rfl rfl rfl (hsame _ _)
      fun hs hmoves => ?_
    refine hs.invoke hmoves (by simp) ?_ ?_ rfl
    · rw [hs.flying.running]
      exact (hmoves.same rfl).symm
    · intro _
      have hfresh : _ = _ := hmoves.same (p := Op.isFresh listener) rfl
      omega
  | leaving =>
    have hpos : 0 < app.count (Op.flies listener) :=
      count_pos_of_top htask (by simp [Op.flies])
    refine h.replace [.dispatch listener .leaving]
      (if entry.inFlight - 1 = 0 ∧ entry.active = false then
        [.dispatch listener (.finalizing .enter)] else []) htask hentry rfl ?_ ?_
      (fun _ _ => Iff.rfl) (fun _ _ => Iff.rfl) ?_
    · simp only [Listening.dispatchStep, Listening.setTask, Listening.setEntry]
      split <;> rfl
    · intro hs hmoves
      exact hs.release hpos hmoves rfl
    · intro op hop
      obtain ⟨phase, rfl⟩ : ∃ phase, op = .dispatch listener phase := by
        split at hop <;> grind
      exact about_dispatch listener phase
  | finalizing inner =>
    have hactive : entry.active = false :=
      hsound.removal.removed (.inr (.inr (.inl (count_pos_of_top htask (by simp [Op.touches])))))
    have hpos : 0 < app.count (Op.finalizes listener) :=
      count_pos_of_top htask (by simp [Op.finalizes, Op.finalizeOn])
    have hin := toNat_le_count (p := Op.cleans listener) htask
    have hfinishing : ∀ inner, (Op.dispatch listener (.finalizing inner)).Finishing listener inner :=
      fun inner => ⟨by simp [Op.finalizeOn], by simp [Op.detachOn, Op.finalizeOn], rfl, rfl, rfl⟩
    simp only [Listening.dispatchStep]
    split
    · exact h
    · rename_i next inner' hstep
      refine h.advance htask hentry rfl rfl rfl rfl (hsame _ _) fun hs hmoves => ?_
      exact hs.finalizeMoves hstep hactive hpos hin hmoves (hfinishing inner)
        ⟨_, rfl, hfinishing inner'⟩
    · rename_i next status hstep
      refine h.replace [.dispatch listener (.finalizing inner)] [] htask hentry rfl rfl ?_
        (fun _ _ => Iff.rfl) (fun _ _ => Iff.rfl) (by simp [about_dispatch])
      intro hs hmoves
      exact hs.finalizeMoves hstep hactive hpos hin hmoves (hfinishing inner)
        (by simp [Outcome.Leaves])

end Dispatch

/-! ## `dcc_app_unlisten` -/

section Unlisten

variable {app : Listening} {task listener : Nat} {stack : List Op} {entry next : Entry}
  {count after : (Op → Bool) → Nat} {retired barred : Prop}

theorem barred_append {unlistened : List Unlistened} {record : Unlistened} {other : Nat}
    (h : record.listener = other → record.own = false → record.status = .invalidArg) :
    Barred (unlistened ++ [record]) other ↔ Barred unlistened other := by
  constructor
  · intro hbarred
    obtain ⟨found, hmem, hsame, hown, hstatus⟩ := hbarred
    rcases List.mem_append.mp hmem with hold | hnew
    · exact ⟨found, hold, hsame, hown, hstatus⟩
    · obtain rfl := List.mem_singleton.mp hnew
      exact absurd (h hsame hown) hstatus
  · intro hbarred
    obtain ⟨found, hmem, hrest⟩ := hbarred
    exact ⟨found, List.mem_append_left _ hmem, hrest⟩

theorem Sound.bar {barred' : Prop} (h : Sound count listener entry retired barred)
    (hactive : entry.active = false) (hlanded : entry.inFlight = 0) :
    Sound count listener entry retired barred' :=
  ⟨h.flying, h.detaching, h.finalizing, h.removal, fun _ => ⟨hactive, hlanded⟩⟩

theorem Sound.unlisten {own : Bool} {retired' : Prop}
    (h : Sound count listener entry retired barred) (hretired' : retired')
    (hactive : entry.active = true)
    (hown : own = true → 0 < count (Op.flies listener))
    (hmoves : Moves count after [] [.unlisten listener (.detaching own .enter)]) :
    Sound after listener { entry with active := false, retired := true } retired' barred := by
  obtain ⟨hdetach, hfinalize, htouches, hretired, hnot, hopen⟩ := h.fresh hactive
  have hpush := hmoves.push
  refine ⟨⟨?_, ?_, ?_⟩, ⟨?_, ?_⟩, ⟨?_, ?_, ?_, h.finalizing.detached⟩, ⟨?_, ?_, ?_⟩, ?_⟩
  · rw [hpush]
    exact h.flying.flight
  · rw [hpush]
    exact h.flying.running
  · rw [hpush]
    exact h.flying.once
  · rw [hpush]
    simpa [Op.calls, Op.detachOn, DetachPhase.isCalling] using h.detaching.calls
  · rw [hpush]
    simpa [Op.detaches, Op.detachOn, DetachPhase.isBusy] using h.detaching.busy
  · rw [hpush]
    exact h.finalizing.cleans
  · rw [hpush]
    exact h.finalizing.busy
  · rw [hpush]
    exact h.finalizing.landed
  · exact fun _ => rfl
  · exact fun _ => ⟨rfl, hretired'⟩
  · intro _ _
    cases own with
    | true =>
      refine .inl ?_
      simp only
      rw [h.flying.flight]
      exact hown rfl
    | false =>
      refine .inr ?_
      rw [hpush]
      simp [Op.pursues]
  · exact fun hb => absurd hb hopen

theorem flies_of_frame (h : Living app) (htask : app.tasks[task]? = some stack)
    (hentry : app.entries[listener]? = some entry) (hactive : entry.active = true)
    (hown : stack.any (Op.frameOf listener) = true) : 0 < app.count (Op.flies listener) := by
  obtain ⟨-, -, htouches, -⟩ := (h.sound listener entry hentry).fresh hactive
  obtain ⟨op, hmem, hframe⟩ := List.any_eq_true.mp hown
  have hnot : op.touches listener = false := by
    cases htouch : op.touches listener with
    | false => rfl
    | true =>
      have hpos : 0 < app.count (Op.touches listener) :=
        count_pos_of_any htask (List.any_eq_true.mpr ⟨op, hmem, htouch⟩)
      omega
  have hflies : op.flies listener = true := by
    unfold Op.frameOf at hframe
    split at hframe
    · exact hframe
    · exact hframe
    · exact hframe
    · rw [Op.touches, hframe] at hnot
      cases hnot
    · rw [Op.touches, hframe] at hnot
      cases hnot
    · rw [beq_iff_eq] at hframe
      simp [Op.touches, hframe] at hnot
    · cases hframe
  exact count_pos_of_any htask (List.any_eq_true.mpr ⟨op, hmem, hflies⟩)

theorem unlisten_living (h : Living app) (htask : app.tasks[task]? = some stack)
    (hentry : app.entries[listener]? = some entry) :
    Living (app.unlisten task stack listener entry) := by
  unfold Listening.unlisten
  simp only
  split
  · have hsame : ∀ other, Barred (app.unlistened ++
        [⟨listener, stack.any (Op.frameOf listener), .invalidArg⟩]) other ↔
        Barred app.unlistened other := fun other => barred_append fun _ _ => rfl
    constructor
    · intro other entry' hother
      exact (h.sound other entry' hother).other (fun _ _ => rfl) Iff.rfl (hsame other)
    · intro other hle
      rw [hsame other]
      exact h.absent other hle
  · rename_i hfound
    have hactive : entry.active = true := by
      cases hflag : entry.active with
      | true => rfl
      | false => exact absurd (.inr hflag) hfound
    have hretired := ((h.sound listener entry hentry).fresh hactive).2.2.2.1
    rw [remove_of_active hretired]
    refine h.replace [] [.unlisten listener (.detaching (stack.any (Op.frameOf listener)) .enter)]
      htask hentry rfl rfl ?_ ?_ (fun _ _ => Iff.rfl) (by simp [about_unlisten])
    · intro hs hmoves
      exact hs.unlisten List.mem_cons_self hactive (flies_of_frame h htask hentry hactive) hmoves
    · intro other hne
      simp [Listening.setTask, hne]

/-- The next step of `dcc_app_unlisten`. -/
theorem unlistenStep_living {phase : UnlistenPhase} (h : Living app)
    (htask : app.tasks[task]? = some (.unlisten listener phase :: stack))
    (hentry : app.entries[listener]? = some entry) (choice : Choice) :
    Living (app.unlistenStep task stack listener entry choice phase) := by
  have hsound := h.sound listener entry hentry
  have hsame := fun phase phase' =>
    (about_unlisten listener phase).same (about_unlisten listener phase')
  have hactive : entry.active = false :=
    hsound.removal.removed (.inr (.inr (.inl (count_pos_of_top htask (by simp [Op.touches])))))
  cases phase with
  | detaching own inner =>
    simp only [Listening.unlistenStep]
    split
    · exact h
    · rename_i next inner' hstep
      refine h.advance htask hentry rfl rfl rfl rfl (hsame _ _) fun hs hmoves => ?_
      refine hs.detach_move hstep hactive hmoves ⟨by simp [Op.detachOn],
        fun p => by simp [Op.detachOn, Outcome.weight], rfl, rfl, rfl, rfl, rfl, rfl⟩ ?_
      have hpursues : _ = _ := hmoves.same (p := Op.pursues listener) (by cases own <;> rfl)
      rw [hpursues]
      exact hs.removal.pursued hactive
    · rename_i next status hstep
      cases own with
      | true =>
        simp only [if_true]
        refine h.replace [.unlisten listener (.detaching true inner)] [] htask hentry rfl rfl ?_
          (fun _ _ => Iff.rfl) (fun _ _ => barred_append (by simp)) (by simp [about_unlisten])
        intro hs hmoves
        have hcalls := hmoves.pop (Op.calls listener)
        have hbusy := hmoves.pop (Op.detaches listener)
        simp only [Op.calls, Op.detaches, Op.detachOn, if_true, Option.any_some] at hcalls hbusy
        have hbarred : Barred (app.unlistened ++ [⟨listener, true, unlistenStatus status⟩])
            listener ↔ Barred app.unlistened listener := barred_append (by simp)
        rw [hbarred]
        refine hs.detach hstep hactive ⟨hmoves.pop_same rfl, hmoves.pop_same rfl,
          Nat.le_of_eq (hmoves.pop_same rfl), hmoves.pop_same rfl, hmoves.pop_same rfl,
          hmoves.pop_same rfl⟩ hcalls hbusy ?_
        rw [hmoves.pop_same (p := Op.pursues listener) rfl]
        exact hs.removal.pursued hactive
      | false =>
        refine h.advance htask hentry rfl rfl rfl rfl (hsame _ _) fun hs hmoves => ?_
        refine hs.detach_move hstep hactive hmoves ⟨by simp [Op.detachOn],
          fun p => by simp [Op.detachOn, Op.finalizeOn, Outcome.weight],
          rfl, rfl, rfl, rfl, rfl, rfl⟩ ?_
        rw [hmoves.same (p := Op.pursues listener) rfl]
        exact hs.removal.pursued hactive
  | waiting =>
    simp only [Listening.unlistenStep]
    split
    · rename_i hlanded
      refine h.advance htask hentry (entries_set_self hentry) rfl rfl rfl (hsame _ _)
        fun hs hmoves => ?_
      exact hs.enterFinalize hactive hlanded hmoves ⟨rfl, rfl, rfl, rfl, rfl⟩
        ⟨by simp [Op.finalizeOn], by simp [Op.detachOn, Op.finalizeOn], rfl, rfl, rfl⟩ rfl
    · exact h
  | finalizing inner =>
    have hpos : 0 < app.count (Op.finalizes listener) :=
      count_pos_of_top htask (by simp [Op.finalizes, Op.finalizeOn])
    have hin := toNat_le_count (p := Op.cleans listener) htask
    have hfinishing : ∀ inner, (Op.unlisten listener (.finalizing inner)).Finishing listener inner :=
      fun inner => ⟨by simp [Op.finalizeOn], by simp [Op.detachOn, Op.finalizeOn], rfl, rfl, rfl⟩
    simp only [Listening.unlistenStep]
    split
    · exact h
    · rename_i next inner' hstep
      refine h.advance htask hentry rfl rfl rfl rfl (hsame _ _) fun hs hmoves => ?_
      exact hs.finalizeMoves hstep hactive hpos hin hmoves (hfinishing inner)
        ⟨_, rfl, hfinishing inner'⟩
    · rename_i next status hstep
      refine h.replace [.unlisten listener (.finalizing inner)] [] htask hentry rfl rfl ?_
        (fun _ _ => Iff.rfl) (fun other hne => barred_append fun hsame => absurd hsame.symm hne)
        (by simp [about_unlisten])
      intro hs hmoves
      have hdone := hs.finalizeMoves hstep hactive hpos hin hmoves (hfinishing inner)
        (by simp [Outcome.Leaves])
      refine hdone.bar ?_ ?_
      · rw [finalizeStep_frame hstep]
        exact hactive
      · rw [finalizeStep_frame hstep]
        exact hs.finalizing.landed (.inr hpos)

end Unlisten

end Dcc.App
