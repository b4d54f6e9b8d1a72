import Dcc.App.Dispatch

/-!
# Every listener is cleaned up once, and after its last invocation

* `destroyAll_living`, `destroyStep_living` — the steps of `dcc_app_listener_destroy_all`;
* `act_living` — every step of every task keeps the comparison;
* `listener_lifecycle` — what it means for the application;
* `unlisten_refused` — a second `dcc_app_unlisten` does not wait for the handler.
-/

namespace Dcc.App

open Stacks

/-! ## `dcc_app_listener_destroy_all` -/

section Destroy

variable {app : Listening} {task listener : Nat} {stack : List Op} {entry next : Entry}
  {count after : (Op → Bool) → Nat} {retired barred : Prop}

/-- Everything but that somebody will finalize the listener. -/
structure Steady (count : (Op → Bool) → Nat) (listener : Nat) (entry : Entry)
    (retired barred : Prop) : Prop where
  flying : Flying count listener entry
  detaching : Detaching count listener entry
  finalizing : Finalizing count listener entry
  removed : entry.detachStarted = true ∨ entry.finalizeStarted = true ∨
    0 < count (Op.touches listener) ∨ entry.retired = true ∨ retired → entry.active = false
  retired : entry.active = false → entry.retired = true ∧ retired
  barred : barred → entry.active = false ∧ entry.inFlight = 0

theorem Sound.steady (h : Sound count listener entry retired barred) :
    Steady count listener entry retired barred :=
  ⟨h.flying, h.detaching, h.finalizing, h.removal.removed, h.removal.retired, h.barred⟩

/-- The kinds of what an operation does, and not of what it will do. -/
def deeds (listener : Nat) : List (Op → Bool) :=
  [Op.flies listener, Op.runs listener, Op.isFresh listener, Op.calls listener,
    Op.detaches listener, Op.finalizes listener, Op.precleans listener, Op.cleans listener]

theorem Steady.pursue (h : Steady count listener entry retired barred)
    (hsame : ∀ p ∈ deeds listener, after p = count p)
    (htouches : 0 < after (Op.touches listener) → entry.active = false)
    (hpursued : entry.active = false → entry.finalizeStarted = false →
      0 < entry.inFlight ∨ 0 < after (Op.pursues listener)) :
    Sound after listener entry retired barred := by
  simp only [deeds, List.forall_mem_cons, List.not_mem_nil, false_implies, implies_true,
    and_true] at hsame
  obtain ⟨h1, h2, h3, h4, h5, h6, h7, h8⟩ := hsame
  refine ⟨h.flying.congr h1 h2 (Nat.le_of_eq h3) ⟨rfl, rfl, rfl, rfl, rfl⟩,
    h.detaching.congr h4 h5 ⟨rfl, rfl, rfl⟩,
    h.finalizing.congr h7 h8 (by rw [h6]; exact h.finalizing.landed) ⟨rfl, rfl, rfl⟩ id,
    ⟨?_, h.retired, hpursued⟩, h.barred⟩
  intro hreason
  rcases hreason with hd | hf | ht | hr | hm
  · exact h.removed (.inl hd)
  · exact h.removed (.inr (.inl hf))
  · exact htouches ht
  · exact h.removed (.inr (.inr (.inr (.inl hr))))
  · exact h.removed (.inr (.inr (.inr (.inr hm))))

theorem destroyNext_spec (retired rest : List Nat) (op : Op) (hop : op ∈ destroyNext retired rest) :
    (∀ p ∈ deeds listener, p op = false) ∧
      (op.touches listener = true → listener ∈ rest ∨ listener ∈ retired) := by
  cases rest with
  | cons other rest =>
    obtain rfl := List.mem_singleton.mp hop
    refine ⟨?_, ?_⟩
    · by_cases hsame : other = listener
      · simp [deeds, Op.flies, Op.runs, Op.isFresh, Op.calls, Op.detaches, Op.finalizes,
          Op.precleans, Op.cleans, Op.detachOn, Op.finalizeOn, hsame, DetachPhase.isCalling,
          DetachPhase.isBusy]
      · simp [deeds, Op.flies, Op.runs, Op.isFresh, Op.calls, Op.detaches, Op.finalizes,
          Op.precleans, Op.cleans, Op.detachOn, Op.finalizeOn, hsame]
    · intro htouches
      exact .inl (by simpa [Op.touches] using htouches)
  | nil =>
    cases retired with
    | nil => cases hop
    | cons other more =>
      obtain rfl := List.mem_singleton.mp hop
      refine ⟨?_, ?_⟩
      · simp [deeds, Op.flies, Op.runs, Op.isFresh, Op.calls, Op.detaches, Op.finalizes,
          Op.precleans, Op.cleans, Op.detachOn, Op.finalizeOn]
      · intro htouches
        exact .inr (by simpa [Op.touches] using htouches)

theorem destroyNext_pursues (retired rest : List Nat) (hmem : listener ∈ retired) :
    0 < (destroyNext retired rest).countP (Op.pursues listener) := by
  cases rest with
  | cons other rest => simp [destroyNext, Op.pursues]
  | nil =>
    cases retired with
    | nil => cases hmem
    | cons other more =>
      have hcontains : (other :: more).contains listener = true := by
        simpa using hmem
      simp only [destroyNext, List.countP_singleton, Op.pursues, hcontains, if_true]
      exact Nat.one_pos

theorem countP_destroyNext_deeds (listener : Nat) (retired rest : List Nat) :
    ∀ p ∈ deeds listener, (destroyNext retired rest).countP p = 0 := by
  intro p hp
  rw [List.countP_eq_zero]
  intro op hop
  simp [(destroyNext_spec retired rest op hop).1 p hp]

variable {inner : DetachPhase}

/-- The loop goes on to its next round; a listener that the last round was not about has
nothing to do with it but that its turn may come. -/
theorem Sound.round {other : Nat} {rest retiredList : List Nat}
    (h : Sound count listener entry (listener ∈ retiredList) barred) (hne : listener ≠ other)
    (hmoves : Moves count after [.destroyAll (.detaching other inner rest)]
      (destroyNext retiredList rest))
    (hin : 0 < count (Op.pursues listener))
    (htouched : listener ∈ rest → 0 < count (Op.touches listener)) :
    Sound after listener entry (listener ∈ retiredList) barred := by
  refine h.steady.pursue ?_ ?_ ?_
  · intro p hp
    have hweigh := hmoves p
    have hold : p (.destroyAll (.detaching other inner rest)) = false := by
      simp only [deeds, List.mem_cons, List.not_mem_nil, or_false] at hp
      rcases hp with rfl | rfl | rfl | rfl | rfl | rfl | rfl | rfl <;>
        simp [Op.flies, Op.runs, Op.isFresh, Op.calls, Op.detaches, Op.finalizes, Op.precleans,
          Op.cleans, Op.detachOn, Op.finalizeOn, hne.symm]
    rw [countP_destroyNext_deeds listener retiredList rest p hp, List.countP_singleton, hold] at hweigh
    simpa using hweigh
  · intro hpos
    have hweigh := hmoves (Op.touches listener)
    by_cases hnew : (destroyNext retiredList rest).countP (Op.touches listener) = 0
    · exact h.removal.removed (.inr (.inr (.inl (by omega))))
    · obtain ⟨op, hop, htouches⟩ := List.countP_pos_iff.mp (Nat.pos_of_ne_zero hnew)
      rcases (destroyNext_spec retiredList rest op hop).2 htouches with hrest | hretired
      · exact h.removal.removed (.inr (.inr (.inl (htouched hrest))))
      · exact h.removal.removed (.inr (.inr (.inr (.inr hretired))))
  · intro hactive _
    have hweigh := hmoves (Op.pursues listener)
    have hnew := destroyNext_pursues retiredList rest (h.removal.retired hactive).2
    rw [List.countP_singleton] at hweigh
    refine .inr ?_
    simp only [Op.pursues, if_true] at hweigh
    omega

variable {rest : List Nat}

theorem destroyDetach_living (h : Living app)
    (htask : app.tasks[task]? = some (.destroyAll (.detaching listener inner rest) :: stack))
    (hentry : app.entries[listener]? = some entry) (choice : Choice) :
    Living (app.destroyStep task stack choice (.detaching listener inner rest)) := by
  have hsound := h.sound listener entry hentry
  have hactive : entry.active = false :=
    hsound.removal.removed (.inr (.inr (.inl (count_pos_of_top htask (by simp [Op.touches])))))
  simp only [Listening.destroyStep, hentry]
  split
  · exact h
  · rename_i next inner' hstep
    refine h.advance htask hentry rfl rfl rfl rfl ?_ fun hs hmoves => ?_
    · intro other hne p hp
      simp only [kinds, List.mem_cons, List.not_mem_nil, or_false] at hp
      rcases hp with rfl | rfl | rfl | rfl | rfl | rfl | rfl | rfl | rfl | rfl | rfl <;>
        simp [Op.flies, Op.runs, Op.isFresh, Op.calls, Op.detaches, Op.finalizes, Op.precleans,
          Op.cleans, Op.touches, Op.pursues, Op.mentions, Op.detachOn, Op.finalizeOn, hne.symm]
    · refine hs.detach_move hstep hactive hmoves ⟨by simp [Op.detachOn],
        fun p => by simp [Op.detachOn, Outcome.weight], rfl, rfl, rfl, rfl, rfl, rfl⟩ ?_
      rw [hmoves.same (p := Op.pursues listener) rfl]
      exact hs.removal.pursued hactive
  · rename_i next status hstep
    refine h.replaceWith [.destroyAll (.detaching listener inner rest)]
      (destroyNext app.retired rest) htask hentry rfl rfl ?_ ?_ ?_
    · intro hs hmoves
      have hsame : ∀ p ∈ deeds listener, p (.destroyAll (.detaching listener inner rest)) = false →
          (((app.setEntry listener next).setTask task
            (destroyNext app.retired rest ++ stack)).count p) = app.count p := by
        intro p hp hold
        have hweigh := hmoves p
        rw [countP_destroyNext_deeds listener app.retired rest p hp, List.countP_singleton,
          hold] at hweigh
        simpa using hweigh
      have hcalls := hmoves (Op.calls listener)
      have hbusy := hmoves (Op.detaches listener)
      rw [countP_destroyNext_deeds listener app.retired rest _ (by simp [deeds]),
        List.countP_singleton] at hcalls hbusy
      refine hs.detach hstep hactive ⟨hsame _ (by simp [deeds]) rfl, hsame _ (by simp [deeds]) rfl,
        Nat.le_of_eq (hsame _ (by simp [deeds]) rfl), hsame _ (by simp [deeds]) rfl,
        hsame _ (by simp [deeds]) rfl, hsame _ (by simp [deeds]) rfl⟩ ?_ ?_ ?_
      · cases inner <;> simpa [Op.calls, Op.detachOn, DetachPhase.isCalling, Outcome.weight]
          using hcalls
      · cases inner <;> simpa [Op.detaches, Op.detachOn, DetachPhase.isBusy, Outcome.weight]
          using hbusy
      · intro _
        have hweigh := hmoves (Op.pursues listener)
        have hnew := destroyNext_pursues app.retired rest (hs.removal.retired hactive).2
        have hin : 0 < app.count (Op.pursues listener) := count_pos_of_top htask rfl
        rw [List.countP_singleton] at hweigh
        simp only [Op.pursues, if_true] at hweigh
        exact .inr (by omega)
    · intro other entry' hne hmoves hs
      refine hs.round hne hmoves (count_pos_of_top htask rfl) ?_
      intro hmem
      exact count_pos_of_top htask (by simp [Op.touches, hmem])
    · intro other hle hmoves habsent
      obtain ⟨hzero, hretired, hbarred⟩ := habsent
      refine ⟨?_, hretired, hbarred⟩
      have hold : (Op.destroyAll (.detaching listener inner rest)).mentions other = false := by
        cases hmentions : (Op.destroyAll (.detaching listener inner rest)).mentions other with
        | false => rfl
        | true =>
          have := count_pos_of_top (p := Op.mentions other) htask hmentions
          omega
      have hnew : (destroyNext app.retired rest).countP (Op.mentions other) = 0 := by
        rw [List.countP_eq_zero]
        intro op hop hmentions
        obtain ⟨hdeeds, htouches⟩ := @destroyNext_spec other app.retired rest op hop
        have hflies : op.flies other = false := hdeeds _ (by simp [deeds])
        rw [Op.mentions, hflies, Bool.or_false] at hmentions
        rcases htouches hmentions with hrest | hmem
        · simp [Op.mentions, Op.touches, hrest] at hold
        · exact hretired hmem
      have hweigh := hmoves (Op.mentions other)
      rw [hnew, hzero] at hweigh
      omega

theorem destroyWait_living (h : Living app)
    (htask : app.tasks[task]? = some (.destroyAll (.waiting listener rest) :: stack))
    (hentry : app.entries[listener]? = some entry) (choice : Choice) :
    Living (app.destroyStep task stack choice (.waiting listener rest)) := by
  have hactive : entry.active = false := (h.sound listener entry hentry).removal.removed
    (.inr (.inr (.inl (count_pos_of_top htask (by simp [Op.touches])))))
  simp only [Listening.destroyStep, hentry]
  split
  · rename_i hlanded
    refine h.advance htask hentry (entries_set_self hentry) rfl rfl rfl ?_ fun hs hmoves => ?_
    · intro other hne p hp
      simp only [kinds, List.mem_cons, List.not_mem_nil, or_false] at hp
      rcases hp with rfl | rfl | rfl | rfl | rfl | rfl | rfl | rfl | rfl | rfl | rfl <;>
        simp [Op.flies, Op.runs, Op.isFresh, Op.calls, Op.detaches, Op.finalizes, Op.precleans,
          Op.cleans, Op.touches, Op.pursues, Op.mentions, Op.detachOn, Op.finalizeOn, hne.symm]
    · exact hs.enterFinalize hactive hlanded hmoves ⟨rfl, rfl, rfl, rfl, rfl⟩
        ⟨by simp [Op.finalizeOn], by simp [Op.detachOn, Op.finalizeOn], rfl, rfl, rfl⟩ rfl
  · exact h

theorem destroyFinalize_living {inner : FinalizePhase} (h : Living app)
    (htask : app.tasks[task]? = some (.destroyAll (.finalizing listener inner rest) :: stack))
    (hentry : app.entries[listener]? = some entry) (choice : Choice) :
    Living (app.destroyStep task stack choice (.finalizing listener inner rest)) := by
  have hactive : entry.active = false := (h.sound listener entry hentry).removal.removed
    (.inr (.inr (.inl (count_pos_of_top htask (by simp [Op.touches])))))
  have hpos : 0 < app.count (Op.finalizes listener) :=
    count_pos_of_top htask (by simp [Op.finalizes, Op.finalizeOn])
  have hin := toNat_le_count (p := Op.cleans listener) htask
  have hfinishing : ∀ inner,
      (Op.destroyAll (.finalizing listener inner rest)).Finishing listener inner :=
    fun inner => ⟨by simp [Op.finalizeOn], by simp [Op.detachOn, Op.finalizeOn], rfl, rfl, rfl⟩
  have hother : ∀ other, other ≠ listener → ∀ p ∈ kinds other,
      ∀ inner, p (.destroyAll (.finalizing listener inner rest)) = (destroyRest rest).any p := by
    intro other hne p hp inner
    have hcontains : (listener :: rest).contains other = rest.contains other := by
      simp [hne]
    simp only [kinds, List.mem_cons, List.not_mem_nil, or_false] at hp
    rcases hp with rfl | rfl | rfl | rfl | rfl | rfl | rfl | rfl | rfl | rfl | rfl <;>
      cases rest <;> cases inner <;>
      simp [destroyRest, Op.flies, Op.runs, Op.isFresh, Op.calls, Op.detaches, Op.finalizes,
        Op.precleans, Op.cleans, Op.touches, Op.pursues, Op.mentions, Op.detachOn, Op.finalizeOn,
        hne, hne.symm]
  simp only [Listening.destroyStep, hentry]
  split
  · exact h
  · rename_i next inner' hstep
    refine h.advance htask hentry rfl rfl rfl rfl (fun other hne p hp => ?_) fun hs hmoves => ?_
    · rw [hother other hne p hp, hother other hne p hp]
    · exact hs.finalizeMoves hstep hactive hpos hin hmoves (hfinishing inner)
        ⟨_, rfl, hfinishing inner'⟩
  · rename_i next status hstep
    refine h.replaceSame [.destroyAll (.finalizing listener inner rest)] (destroyRest rest) htask
      hentry rfl rfl ?_ (fun _ _ => Iff.rfl) (fun _ _ => Iff.rfl) ?_
    · intro hs hmoves
      refine hs.finalizeMoves hstep hactive hpos hin hmoves (hfinishing inner) ?_
      intro op hop
      cases rest with
      | nil => cases hop
      | cons next more =>
        obtain rfl := List.mem_singleton.mp hop
        exact ⟨rfl, rfl, rfl, rfl, rfl⟩
    · intro other hne p hp
      rw [List.countP_singleton, hother other hne p hp]
      cases rest with
      | nil => rfl
      | cons next more => simp [destroyRest, List.countP_singleton]

/-- The next step of `dcc_app_listener_destroy_all`. -/
theorem destroyStep_living {phase : DestroyPhase} (h : Living app)
    (htask : app.tasks[task]? = some (.destroyAll phase :: stack)) (choice : Choice) :
    Living (app.destroyStep task stack choice phase) := by
  cases phase with
  | detaching listener inner rest =>
    cases hentry : app.entries[listener]? with
    | none =>
      simp only [Listening.destroyStep, hentry]
      exact h
    | some entry => exact destroyDetach_living h htask hentry choice
  | waiting listener rest =>
    cases hentry : app.entries[listener]? with
    | none =>
      simp only [Listening.destroyStep, hentry]
      exact h
    | some entry => exact destroyWait_living h htask hentry choice
  | finalizing listener inner rest =>
    cases hentry : app.entries[listener]? with
    | none =>
      simp only [Listening.destroyStep, hentry]
      exact h
    | some entry => exact destroyFinalize_living h htask hentry choice

/-- What holds while all listeners are removed, before the first loop. -/
structure Resting (app : Listening) : Prop where
  steady : ∀ listener entry, app.entries[listener]? = some entry →
    Steady app.count listener entry (listener ∈ app.retired) (Barred app.unlistened listener)
  absent : ∀ listener, app.entries.length ≤ listener → app.count (Op.mentions listener) = 0 ∧
    listener ∉ app.retired ∧ ¬ Barred app.unlistened listener

theorem Steady.remove {retired' : Prop} (h : Steady count listener entry retired barred)
    (hretired' : retired') :
    Steady count listener { entry with active := false, retired := true } retired' barred := by
  refine ⟨⟨h.flying.flight, h.flying.running, h.flying.once⟩, ⟨h.detaching.calls, h.detaching.busy⟩,
    ⟨h.finalizing.cleans, h.finalizing.busy, h.finalizing.landed, h.finalizing.detached⟩,
    fun _ => rfl, fun _ => ⟨rfl, hretired'⟩, ?_⟩
  intro hb
  exact ⟨rfl, (h.barred hb).2⟩

theorem Steady.congr {retired' : Prop} (h : Steady count listener entry retired barred)
    (hretired : retired' ↔ retired) : Steady count listener entry retired' barred := by
  refine ⟨h.flying, h.detaching, h.finalizing, ?_, ?_, h.barred⟩
  · rw [hretired]
    exact h.removed
  · rw [hretired]
    exact h.retired

theorem remove_resting (h : Resting app) (hentry : app.entries[listener]? = some entry) :
    Resting (app.remove listener entry) := by
  have hlt : listener < app.entries.length := (List.getElem?_eq_some_iff.mp hentry).1
  have hsteady := h.steady listener entry hentry
  unfold Listening.remove
  split
  · rename_i hretired
    have hactive : entry.active = false := hsteady.removed (.inr (.inr (.inr (.inl hretired))))
    have hsame : { entry with active := false } = entry := by rw [← hactive]
    rw [hsame, Listening.setEntry, ← entries_set_self hentry]
    exact h
  · constructor
    · intro other entry' hother
      by_cases hne : other = listener
      · subst hne
        simp only [Listening.setEntry] at hother
        rw [List.getElem?_set_self hlt] at hother
        obtain rfl := Option.some.inj hother
        exact hsteady.remove List.mem_cons_self
      · simp only [Listening.setEntry] at hother
        rw [List.getElem?_set_ne (Ne.symm hne)] at hother
        exact (h.steady other entry' hother).congr (by simp [hne])
    · intro other hle
      simp only [Listening.setEntry, List.length_set] at hle
      obtain ⟨hzero, hretired, hbarred⟩ := h.absent other hle
      refine ⟨hzero, ?_, hbarred⟩
      simp only [List.mem_cons, not_or]
      exact ⟨by omega, hretired⟩

theorem removeAll_resting (h : Resting app) (listeners : List Nat) :
    Resting (Listening.removeAll listeners app) ∧
      (Listening.removeAll listeners app).tasks = app.tasks := by
  induction listeners generalizing app with
  | nil => exact ⟨h, rfl⟩
  | cons listener rest ih =>
    simp only [Listening.removeAll]
    split
    · exact ih h
    · rename_i entry hentry
      obtain ⟨hrest, htasks⟩ := ih (remove_resting h hentry)
      refine ⟨hrest, htasks.trans ?_⟩
      unfold Listening.remove
      split <;> rfl

theorem destroyAll_living (h : Living app) (htask : app.tasks[task]? = some stack) :
    Living (app.destroyAll task stack) := by
  have hstart : Resting { app with destroying := true } :=
    ⟨fun l entry hentry => (h.sound l entry hentry).steady, h.absent⟩
  obtain ⟨hresting, htasks⟩ := removeAll_resting hstart app.listeners.reverse
  unfold Listening.destroyAll
  simp only
  generalize hremoved : Listening.removeAll app.listeners.reverse
    { app with destroying := true } = removed at hresting htasks ⊢
  have hmoves : Moves removed.count
      (removed.setTask task (destroyNext removed.retired removed.retired ++ stack)).count []
      (destroyNext removed.retired removed.retired) := by
    have hsame : removed.tasks[task]? = some ([] ++ stack) := by
      rw [htasks]
      exact htask
    exact moves_of_tasks hsame rfl
  constructor
  · intro listener entry hentry
    have hs := hresting.steady listener entry hentry
    refine hs.pursue ?_ ?_ ?_
    · intro p hp
      have hweigh := hmoves p
      rw [countP_destroyNext_deeds listener _ _ p hp] at hweigh
      simpa using hweigh
    · intro hpos
      have hweigh := hmoves (Op.touches listener)
      by_cases hnew : (destroyNext removed.retired removed.retired).countP (Op.touches listener) = 0
      · rw [hnew] at hweigh
        rw [List.countP_nil] at hweigh
        exact hs.removed (.inr (.inr (.inl (by omega))))
      · obtain ⟨op, hop, htouches⟩ := List.countP_pos_iff.mp (Nat.pos_of_ne_zero hnew)
        have hmem := (destroyNext_spec _ _ op hop).2 htouches
        exact hs.removed (.inr (.inr (.inr (.inr (hmem.elim id id)))))
    · intro hactive _
      have hweigh := hmoves (Op.pursues listener)
      have hnew := destroyNext_pursues _ removed.retired (hs.retired hactive).2
      refine .inr ?_
      rw [List.countP_nil] at hweigh
      omega
  · intro other hle
    obtain ⟨hzero, hretired, hbarred⟩ := hresting.absent other hle
    refine ⟨?_, hretired, hbarred⟩
    have hnew : (destroyNext removed.retired removed.retired).countP (Op.mentions other) = 0 := by
      rw [List.countP_eq_zero]
      intro op hop hmentions
      obtain ⟨hdeeds, htouches⟩ := @destroyNext_spec other removed.retired removed.retired op hop
      have hflies : op.flies other = false := hdeeds _ (by simp [deeds])
      rw [Op.mentions, hflies, Bool.or_false] at hmentions
      exact hretired ((htouches hmentions).elim id id)
    have hweigh := hmoves (Op.mentions other)
    rw [hnew, hzero] at hweigh
    simpa using hweigh

end Destroy

/-! ## Every step -/

section Steps

variable {app : Listening} {listener : Nat}

theorem mentions_of_deed {op : Op} {p : Op → Bool} (hp : p ∈ deeds listener) (hop : p op = true) :
    op.mentions listener = true := by
  have hdetach : ∀ q : DetachPhase → Bool, (op.detachOn listener).any q = true →
      op.mentions listener = true := by
    intro q hq
    obtain ⟨phase, hphase, -⟩ := (Option.any_eq_true _ _).mp hq
    simp [Op.mentions, touches_of_detachOn (Option.isSome_of_eq_some hphase)]
  have hfinalize : ∀ q : FinalizePhase → Bool, (op.finalizeOn listener).any q = true →
      op.mentions listener = true := by
    intro q hq
    obtain ⟨phase, hphase, -⟩ := (Option.any_eq_true _ _).mp hq
    simp [Op.mentions, touches_of_finalizeOn (Option.isSome_of_eq_some hphase)]
  have hflies : op.flies listener = true → op.mentions listener = true := by
    intro hfly
    simp [Op.mentions, hfly]
  simp only [deeds, List.mem_cons, List.not_mem_nil, or_false] at hp
  rcases hp with rfl | rfl | rfl | rfl | rfl | rfl | rfl | rfl
  · exact hflies hop
  · unfold Op.runs at hop
    split at hop
    · exact hflies hop
    · cases hop
  · unfold Op.isFresh at hop
    split at hop
    · exact hflies hop
    · exact hflies hop
    · exact hflies hop
    · cases hop
  · exact hdetach _ hop
  · exact hdetach _ hop
  · simp [Op.mentions, touches_of_finalizeOn hop]
  · exact hfinalize _ hop
  · exact hfinalize _ hop

theorem Sound.new (hmentions : app.count (Op.mentions listener) = 0)
    (hretired : listener ∉ app.retired) (hopen : ¬ Barred app.unlistened listener)
    (source : Source) (once : Bool) :
    Sound app.count listener (Entry.new source once) (listener ∈ app.retired)
      (Barred app.unlistened listener) := by
  have hzero : ∀ p ∈ deeds listener, app.count p = 0 := by
    intro p hp
    have hle : app.count p ≤ app.count (Op.mentions listener) :=
      count_mono fun _ hop => mentions_of_deed hp hop
    omega
  have htouches : app.count (Op.touches listener) = 0 := by
    have hle : app.count (Op.touches listener) ≤ app.count (Op.mentions listener) :=
      count_mono fun _ hop => by simp [Op.mentions, hop]
    omega
  simp only [deeds, List.forall_mem_cons, List.not_mem_nil, false_implies, implies_true,
    and_true] at hzero
  obtain ⟨h1, h2, h3, h4, h5, h6, h7, h8⟩ := hzero
  refine ⟨⟨?_, ?_, ?_⟩, ⟨?_, ?_⟩, ⟨?_, ?_, ?_, ?_⟩, ⟨?_, ?_, ?_⟩, ?_⟩
  all_goals simp [Entry.new, h1, h2, h3, h4, h5, h6, h7, h8, htouches, hretired, hopen]

section

variable (h : Living app)
include h

theorem listen_living (source : Source) (once : Bool) :
    Living (app.listen source once).1 := by
  unfold Listening.listen
  split
  · exact h
  · constructor
    · intro listener entry hentry
      by_cases hlt : listener < app.entries.length
      · simp only at hentry
        rw [List.getElem?_append_left hlt] at hentry
        exact h.sound listener entry hentry
      · have hlen : app.entries.length ≤ listener := Nat.le_of_not_lt hlt
        obtain ⟨hzero, hretired, hbarred⟩ := h.absent listener hlen
        have hnew : entry = Entry.new source once := by
          simp only at hentry
          rw [List.getElem?_append_right hlen] at hentry
          exact List.mem_singleton.mp (List.mem_of_getElem? hentry)
        subst hnew
        exact Sound.new hzero hretired hbarred source once
    · intro listener hle
      rw [List.length_append] at hle
      exact h.absent listener (Nat.le_of_add_right_le hle)

theorem spawn_living : Living { app with tasks := app.tasks ++ [[]] } := by
  have hcount : Listening.count { app with tasks := app.tasks ++ [[]] } = app.count := by
    funext p
    simp [Listening.count]
  constructor
  · rw [hcount]
    exact h.sound
  · rw [hcount]
    exact h.absent

theorem call_living {task : Nat} {stack : List Op}
    (htask : app.tasks[task]? = some stack) (call : Call) : Living (app.call task stack call) := by
  cases call with
  | dispatch listener =>
    simp only [Listening.call]
    split
    · exact h
    · rename_i entry hentry
      exact acquire_living h htask hentry
  | unlisten listener =>
    simp only [Listening.call]
    split
    · exact h
    · rename_i entry hentry
      exact unlisten_living h htask hentry
  | destroyAll => exact destroyAll_living h htask

theorem go_living {task : Nat} {stack : List Op}
    (htask : app.tasks[task]? = some stack) (choice : Choice) : Living (app.go task choice stack) := by
  unfold Listening.go
  split
  · exact h
  · split
    · exact h
    · rename_i entry hentry
      exact dispatchStep_living h htask hentry choice
  · split
    · exact h
    · rename_i entry hentry
      exact unlistenStep_living h htask hentry choice
  · exact destroyStep_living h htask choice

/-- **Every step of every task keeps the comparison.** -/
theorem act_living (action : Action) : Living (act app action) := by
  cases action with
  | spawn => exact spawn_living h
  | listen source once => exact listen_living h source once
  | call task call =>
    simp only [act]
    split
    · exact h
    · rename_i stack htask
      split
      · exact call_living h htask call
      · exact h
  | go task choice =>
    simp only [act]
    split
    · exact h
    · rename_i stack htask
      exact go_living h htask choice

theorem foldl_act_living (actions : List Action) :
    Living (actions.foldl act app) := by
  induction actions generalizing app with
  | nil => exact h
  | cons action rest ih => exact ih (act_living h action)

end

theorem Living.new : Living Listening.new := by
  constructor
  · intro listener entry hentry
    simp [Listening.new] at hentry
  · intro listener _
    refine ⟨rfl, by simp [Listening.new], ?_⟩
    simp [Barred, Listening.new]

end Steps

/-! ## The life of a listener -/

/-- The operation is about the listener, or it removes all listeners. -/
def Op.concerns (listener : Nat) : Op → Bool
  | .dispatch other _ | .unlisten other _ => other == listener
  | .destroyAll _ => true

theorem concerns_of_mentions {listener : Nat} {op : Op} (h : op.mentions listener = true) :
    op.concerns listener = true := by
  cases op with
  | dispatch other phase =>
    cases phase <;> simpa [Op.mentions, Op.touches, Op.flies, Op.concerns] using h
  | unlisten other phase => simpa [Op.mentions, Op.touches, Op.flies, Op.concerns] using h
  | destroyAll phase => rfl

theorem concerns_of_pursues {listener : Nat} {op : Op} (h : op.pursues listener = true) :
    op.concerns listener = true := by
  unfold Op.pursues at h
  split at h
  all_goals first
    | exact h
    | rfl
    | cases h

/-- **The life of a listener.**  After any steps of any tasks: the handler of a listener for
one time was invoked at most once; the source was detached and the cleanup was run at most
once, after the removal, the cleanup after the source was detached and with no invocation in
flight; once a `dcc_app_unlisten` that removed the listener, and was not called from its own
handler, has returned, no invocation runs or is in flight; and when no task is in an
operation on a listener that was removed, its source was detached exactly once and its
cleanup has run exactly once. -/
theorem listener_lifecycle (actions : List Action) {listener : Nat} {entry : Entry}
    (hentry : (actions.foldl act Listening.new).entries[listener]? = some entry) :
    (entry.once = true → entry.invoked ≤ 1) ∧
    entry.detaches ≤ 1 ∧ (0 < entry.detaches → entry.active = false) ∧
    entry.cleanups ≤ 1 ∧ (0 < entry.cleanups → entry.active = false ∧ entry.detaches = 1 ∧
      entry.inFlight = 0 ∧ entry.running = 0) ∧
    (∀ record ∈ (actions.foldl act Listening.new).unlistened, record.listener = listener →
      record.own = false → record.status ≠ .invalidArg →
      entry.active = false ∧ entry.inFlight = 0 ∧ entry.running = 0) ∧
    (entry.active = false →
      (∀ op ∈ (actions.foldl act Listening.new).tasks.flatten, op.concerns listener = false) →
      entry.detaches = 1 ∧ entry.cleanups = 1) := by
  have hliving : Living (actions.foldl act Listening.new) := foldl_act_living Living.new actions
  generalize actions.foldl act Listening.new = app at hentry hliving ⊢
  obtain ⟨hflying, hdetaching, hfinalizing, hremoval, hbarred⟩ := hliving.sound listener entry hentry
  have hruns : app.count (Op.runs listener) ≤ app.count (Op.flies listener) := by
    apply count_mono
    intro op hop
    unfold Op.runs at hop
    split at hop
    · exact hop
    · cases hop
  have hrunning : entry.inFlight = 0 → entry.running = 0 := by
    intro hzero
    rw [hflying.running]
    rw [hflying.flight] at hzero
    omega
  have hstarted := Bool.toNat_le entry.detachStarted
  have hfinal := Bool.toNat_le entry.finalizeStarted
  have hcalls := hdetaching.calls
  have hcleans := hfinalizing.cleans
  have hdetached : entry.detachDone = true → entry.detaches = 1 := by
    intro hdone
    have hbusy := hdetaching.busy
    have hle : app.count (Op.calls listener) ≤ app.count (Op.detaches listener) := by
      apply count_mono
      intro op hop
      obtain ⟨phase, hphase, hcalling⟩ := (Option.any_eq_true _ _).mp hop
      refine (Option.any_eq_true _ _).mpr ⟨phase, hphase, ?_⟩
      cases phase <;> first | rfl | cases hcalling
    rw [hdone, Bool.toNat_true] at hbusy
    omega
  refine ⟨?_, ?_, ?_, ?_, ?_, ?_, ?_⟩
  · intro honce
    have hbound := hflying.once honce
    have hfired := Bool.toNat_le entry.fired
    omega
  · omega
  · intro hpos
    refine hremoval.removed (.inl ?_)
    cases hflag : entry.detachStarted with
    | true => rfl
    | false =>
      simp only [hflag, Bool.toNat_false] at hcalls
      omega
  · omega
  · intro hpos
    have hflag : entry.finalizeStarted = true := by
      cases hflag : entry.finalizeStarted with
      | true => rfl
      | false =>
        simp only [hflag, Bool.toNat_false] at hcleans
        omega
    have hlanded := hfinalizing.landed (.inl hflag)
    exact ⟨hremoval.removed (.inr (.inl hflag)), hdetached (hfinalizing.detached hpos), hlanded,
      hrunning hlanded⟩
  · intro record hmem hsame hown hstatus
    obtain ⟨hactive, hlanded⟩ := hbarred ⟨record, hmem, hsame, hown, hstatus⟩
    exact ⟨hactive, hlanded, hrunning hlanded⟩
  · intro hactive hquiet
    have hzero : ∀ p ∈ deeds listener, app.count p = 0 := by
      intro p hp
      refine count_eq_zero fun op hop => ?_
      cases hdeed : p op with
      | false => rfl
      | true =>
        have := concerns_of_mentions (mentions_of_deed hp hdeed)
        rw [hquiet op hop] at this
        cases this
    have hpursues : app.count (Op.pursues listener) = 0 := by
      refine count_eq_zero fun op hop => ?_
      cases hpursued : op.pursues listener with
      | false => rfl
      | true =>
        have := concerns_of_pursues hpursued
        rw [hquiet op hop] at this
        cases this
    have hflies : entry.inFlight = 0 := by
      rw [hflying.flight]
      exact hzero _ (by simp [deeds])
    have hflag : entry.finalizeStarted = true := by
      cases hflag : entry.finalizeStarted with
      | true => rfl
      | false =>
        have hwho := hremoval.pursued hactive hflag
        omega
    rw [hflag, Bool.toNat_true, hzero _ (by simp [deeds])] at hcleans
    exact ⟨hdetached (hfinalizing.detached (by omega)), by omega⟩

/-- A step in which nothing fails. -/
def plainStep (task : Nat) : Action := .go task ⟨.ok, true⟩

/-- A listener for one time, its one invocation, and what follows from it. -/
def invokedOnce : List Action :=
  [.listen .event true, .spawn, .call 0 (.dispatch 0)] ++ List.replicate 11 (plainStep 0)

/-- The invocation is over, and nobody is busy with the listener any more. -/
theorem listener_lifecycle_once :
    ∃ entry, (invokedOnce.foldl act Listening.new).entries[0]? = some entry ∧
      entry.active = false ∧ entry.invoked = 1 ∧ entry.detaches = 1 ∧ entry.cleanups = 1 := by
  refine ⟨_, rfl, rfl, rfl, ?_⟩
  exact (@listener_lifecycle invokedOnce 0 _ rfl).2.2.2.2.2.2 rfl (by decide)

/-- The handler of a listener runs in the first task; the second one calls
`dcc_app_unlisten` and waits for the handler, and the third one calls it, too. -/
def unlistenedTwice : List Action :=
  [.listen .event false, .spawn, .spawn, .spawn, .call 0 (.dispatch 0), plainStep 0, plainStep 0,
    .call 1 (.unlisten 0), .call 2 (.unlisten 0)]

/-- The second `dcc_app_unlisten` does not find the listener and returns at once: the handler
is still running. -/
theorem unlisten_refused :
    ∃ entry, (unlistenedTwice.foldl act Listening.new).entries[0]? = some entry ∧
      entry.running = 1 ∧
      (unlistenedTwice.foldl act Listening.new).unlistened = [⟨0, false, .invalidArg⟩] :=
  ⟨_, rfl, rfl, rfl⟩

end Dcc.App
