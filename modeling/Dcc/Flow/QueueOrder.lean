import Dcc.Flow.Queue

/-!
# In which order a queue submits

An action is admitted by what the queue will have done by then, and it is submitted when all that
were admitted before it have succeeded.  So what holds at its admission of the actions before it
holds at its submission, whatever the timers, the results and the cancellations are.

* `originalExists` — whether the original message is there after some actions;
* `Ordered` — what the fields of the queue say about the actions that were admitted;
* `queue_discipline` — one request at a time, in the order of admission, and each one allowed by
  those before it.
-/

namespace Dcc.Flow

/-- The original message exists after some actions. -/
def originalExists (actions : List Action) : Bool :=
  actions.foldl (fun before action => action.originalAfter before) false

/-- An action may follow those before it: there is one initial response, a follow-up comes after
it, and the original message exists where it is edited or deleted. -/
structure Follows (before : List Action) (action : Action) : Prop where
  initial : action.path = .callback → ∀ earlier ∈ before, earlier.path ≠ .callback
  followup : action.path = .webhook → ∃ earlier ∈ before, earlier.path = .callback
  original : action.path = .original → originalExists before = true

/-- Each action may follow those before it. -/
def Sequenced (actions : List Action) : Prop :=
  ∀ before action after, actions = before ++ action :: after → Follows before action

variable {action : Action}

theorem sequenced_concat {actions : List Action} (h : Sequenced actions)
    (hfollows : Follows actions action) : Sequenced (actions ++ [action]) := by
  intro before a after heq
  rcases List.eq_nil_or_concat after with rfl | ⟨after, last, rfl⟩
  · obtain ⟨rfl, hlast⟩ := List.append_inj' heq rfl
    cases hlast
    exact hfollows
  · have hsplit : actions ++ [action] = (before ++ a :: after) ++ [last] := by
      rw [heq, List.concat_eq_append, List.append_assoc, List.cons_append]
    obtain ⟨rfl, -⟩ := List.append_inj' hsplit rfl
    exact h before a after rfl

theorem Sequenced.of_prefix {actions first : List Action} (h : Sequenced actions)
    (hpre : first <+: actions) : Sequenced first := by
  obtain ⟨rest, rfl⟩ := hpre
  intro before action after heq
  exact h before action (after ++ rest) (by rw [heq, List.append_assoc, List.cons_append])

/-- What the fields of a queue say about the actions that were admitted. -/
structure Ordered (q : Queue) : Prop where
  phase : Phase q
  initialAdmitted : q.initialAdmitted = q.admitted.any fun action => action.path == .callback
  projected : q.projectedOriginalExists = originalExists q.admitted
  sequenced : Sequenced q.admitted

/-- What only admissions and marks change. -/
structure SameAdmissions (q q' : Queue) : Prop where
  admitted : q'.admitted = q.admitted
  initialAdmitted : q'.initialAdmitted = q.initialAdmitted
  projected : q'.projectedOriginalExists = q.projectedOriginalExists

theorem SameAdmissions.trans {q q' q'' : Queue} (h : SameAdmissions q q')
    (h' : SameAdmissions q' q'') : SameAdmissions q q'' :=
  ⟨h'.admitted.trans h.admitted, h'.initialAdmitted.trans h.initialAdmitted,
    h'.projected.trans h.projected⟩

theorem submitHead_same (q : Queue) (submit : Status) :
    SameAdmissions q (q.submitHead submit).2 := by
  rw [Queue.submitHead]
  split
  · exact ⟨rfl, rfl, rfl⟩
  · split_ifs <;> exact ⟨rfl, rfl, rfl⟩

theorem finalizeUnused_same (q : Queue) : SameAdmissions q q.finalizeUnused := by
  rw [Queue.finalizeUnused]
  split <;> exact ⟨rfl, rfl, rfl⟩

theorem result_same (q : Queue) (action : Action) (status : Status) (synthetic : Bool) :
    SameAdmissions q (q.result action status synthetic) := by
  rw [Queue.result]
  split <;> exact ⟨rfl, rfl, rfl⟩

theorem postResult_same (q : Queue) (action : Action) (terminal submit : Status) :
    SameAdmissions q (q.postResult action terminal submit) := by
  simp only [Queue.postResult]
  generalize (if q.actions.head? = some action then q.actions.tail else q.actions) = rest
  split
  · exact ⟨rfl, rfl, rfl⟩
  split
  · obtain ⟨hadmitted, hinitial, hprojected⟩ := submitHead_same
      { q with references := q.references + 1, actions := rest, active := false } submit
    split <;> exact ⟨hadmitted, hinitial, hprojected⟩
  · exact ⟨rfl, rfl, rfl⟩

/-- The moves of everyone but the callers. -/
def Move.internal : Move → Bool
  | .operate _ _ | .mark _ _ _ => false
  | _ => true

theorem move_same (q : Queue) {move : Move} (h : move.internal = true) :
    SameAdmissions q (q.move move) := by
  cases move with
  | operate env operation => cases h
  | mark state status initial => cases h
  | cancel number =>
    simp only [Queue.move]
    split <;> exact ⟨rfl, rfl, rfl⟩
  | releaseOwner =>
    simp only [Queue.move, Queue.releaseOwner]
    split
    · exact finalizeUnused_same q
    · refine .trans ?_ (finalizeUnused_same _)
      exact ⟨rfl, rfl, rfl⟩
  | retainTimer =>
    simp only [Queue.move, Queue.retainTimer]
    split <;> exact ⟨rfl, rfl, rfl⟩
  | releaseTimer =>
    simp only [Queue.move, Queue.releaseTimer]
    split
    · exact ⟨rfl, rfl, rfl⟩
    · refine .trans ?_ (finalizeUnused_same _)
      exact ⟨rfl, rfl, rfl⟩
  | result index status =>
    simp only [Queue.move]
    split
    · refine .trans ?_ (result_same _ _ _ _)
      exact ⟨rfl, rfl, rfl⟩
    · exact ⟨rfl, rfl, rfl⟩
  | post index submit =>
    simp only [Queue.move]
    split
    · refine .trans ?_ (postResult_same _ _ _ _)
      exact ⟨rfl, rfl, rfl⟩
    · exact ⟨rfl, rfl, rfl⟩
  | deliver index =>
    simp only [Queue.move]
    split
    · refine .trans ?_ (result_same _ _ _ _)
      exact ⟨rfl, rfl, rfl⟩
    · exact ⟨rfl, rfl, rfl⟩
  | leave index =>
    simp only [Queue.move]
    split
    · refine .trans ?_ (finalizeUnused_same _)
      exact ⟨rfl, rfl, rfl⟩
    · exact ⟨rfl, rfl, rfl⟩

variable {q : Queue}

theorem Admissible.follows (h : Ordered q)
    (hadmissible : Admissible q action) : Follows q.admitted action where
  initial hpath earlier hearlier hcallback := by
    have hnone := hadmissible.initial hpath
    rw [h.initialAdmitted, List.any_eq_false] at hnone
    exact hnone earlier hearlier (by simp [hcallback])
  followup hpath := by
    have hsome := hadmissible.followup hpath
    rw [h.initialAdmitted, List.any_eq_true] at hsome
    obtain ⟨earlier, hearlier, hcallback⟩ := hsome
    exact ⟨earlier, hearlier, by simpa using hcallback⟩
  original hpath := by
    rw [← h.projected]
    exact hadmissible.original hpath

/-- The runs without marks from outside. -/
def Unmarked (_ : Queue) : Move → Prop
  | .mark _ _ _ => False
  | _ => True

theorem Ordered.of_same {q q' : Queue} (h : Ordered q) (hphase : Phase q')
    (hsame : SameAdmissions q q') : Ordered q' where
  phase := hphase
  initialAdmitted := by rw [hsame.initialAdmitted, hsame.admitted, h.initialAdmitted]
  projected := by rw [hsame.projected, hsame.admitted, h.projected]
  sequenced := by
    rw [hsame.admitted]
    exact h.sequenced

theorem Ordered.admitAction (h : Ordered q)
    (hadmissible : Admissible q action) (projectedState : FlowState) :
    Ordered (q.admitAction action projectedState) where
  phase := h.phase.admitAction projectedState hadmissible.notFailed
  initialAdmitted := by
    simp [Queue.admitAction, h.initialAdmitted, hadmissible.isInitial, beq_eq_decide]
  projected := by
    simp [Queue.admitAction, originalExists, hadmissible.after, h.projected]
  sequenced := sequenced_concat h.sequenced (hadmissible.follows h)

/-- **Every step keeps the order.** -/
theorem ordered_step (q : Queue) (move : Move) (h : Ordered q) (hmove : Unmarked q move) :
    Ordered (q.step move) := by
  have hphase := phase_step h.phase move
  cases hinternal : move.internal with
  | true =>
    refine h.of_same hphase ?_
    rw [Queue.step]
    split
    · exact ⟨rfl, rfl, rfl⟩
    · exact move_same q hinternal
  | false =>
    rw [Queue.step]
    split
    · exact h
    cases move with
    | operate env operation =>
      rcases operate_admits h.phase env operation with
        ⟨status, -, heq⟩ | ⟨action, state, hadmissible, heq⟩
      · simpa [Queue.move, heq] using h
      · simpa [Queue.move, heq] using h.admitAction hadmissible state
    | mark state status initial => exact hmove.elim
    | _ => cases hinternal

theorem Ordered.create : Ordered Queue.create where
  phase := .create
  initialAdmitted := rfl
  projected := rfl
  sequenced := by
    intro before action after heq
    simp [Queue.create] at heq

theorem outstanding_le_one (h : Phase q) : q.outstanding.length ≤ 1 := by
  cases h with
  | idle ho ha hact hfl hs => simp [ho]
  | busy o waiting ho ha hact hfl hs hr => simp [ho]
  | broken ho hf hfl hs => simp [ho]

theorem submitted_prefix (h : Phase q) : q.submitted <+: q.admitted := by
  cases h with
  | idle ho ha hact hfl hs =>
    have hsame : q.submitted <+: q.submitted := List.prefix_rfl
    exact hs ▸ hsame
  | busy o waiting ho ha hact hfl hs hr => exact ⟨waiting, hs⟩
  | broken ho hf hfl hs => exact hs

/-- **The discipline of a queue.**  At any time at most one request is with the runtime, the
submitted requests are the first ones of the admitted ones in their order, and each of them may
follow the requests that were admitted before it: no initial response follows another one, a
follow-up comes after an initial response, and the original message is edited or deleted only
where the requests before have left it there. -/
theorem queue_discipline {q : Queue} (h : Machine.Reach Queue.step Unmarked Queue.create q) :
    q.outstanding.length ≤ 1 ∧ q.submitted <+: q.admitted ∧ Sequenced q.submitted := by
  have hordered := h.invariant Ordered.create ordered_step
  have hpre := submitted_prefix hordered.phase
  exact ⟨outstanding_le_one hordered.phase, hpre, hordered.sequenced.of_prefix hpre⟩

/-- A timer defers an interaction, a reply edits the original message, and it is deleted. -/
def deferredReply : List Move :=
  [.retainTimer, .operate .fine (.defer false false), .releaseTimer, .operate .fine (.reply true),
    .operate .fine .deleteOriginal, .operate .fine (.editOriginal true), .result 0 .ok, .post 0 .ok,
    .leave 0, .result 0 .ok, .post 0 .ok, .leave 0]

theorem queue_discipline_deferredReply :
    ((deferredReply.foldl Queue.step Queue.create).submitted.map Action.kind =
        [.defer, .editOriginal, .deleteOriginal]) ∧
      (deferredReply.foldl Queue.step Queue.create).outstanding.length ≤ 1 ∧
      (deferredReply.foldl Queue.step Queue.create).submitted <+:
        (deferredReply.foldl Queue.step Queue.create).admitted ∧
      Sequenced (deferredReply.foldl Queue.step Queue.create).submitted :=
  ⟨by decide, queue_discipline (Machine.Reach.start.run (by
    simp [Machine.Permitted, deferredReply, Unmarked]))⟩

end Dcc.Flow
