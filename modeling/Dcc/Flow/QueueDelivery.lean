import Dcc.Flow.Queue
import Mathlib.Data.List.Range

/-!
# Every admitted action gets its result

An action that a queue has admitted is waiting, with the REST runtime, or among the dependents of
a hook until its result is delivered, and the queue is finalized by the last one who lets it go.
There is one gap: a hook after a success submits nothing and fails nothing where the queue was
marked as failed from outside, and the actions that wait then stay for good.

* `Queue.pending` — the actions without a result;
* `Accounts` — every admitted action is delivered or pending, with the reasons of the results that
  were made up;
* `Held` — the references, and the queue is finalized when there are none left;
* `delivered_once` — so in every run whose hooks leave nothing behind, each action gets one result
  and the queue is finalized once.
-/

namespace Dcc.Flow

/-- The actions without a result: those in the queue but for a head that has its result, and the
dependents of the hooks. -/
def Queue.pending (q : Queue) : List Action :=
  (if q.outstanding.any fun o => o.result.isSome then q.actions.tail else q.actions) ++
    q.hooks.flatMap Hook.dependents

/-- Why an action fails that was not submitted: it is the next one and the runtime refused it, or
an earlier one has failed. -/
def Refused (q : Queue) (number : Nat) : Prop :=
  q.submitted.length ≤ number ∧
    (number = q.submitted.length ∨ ∃ d ∈ q.delivered, d.number < number ∧ d.status ≠ .ok)

/-- A result is the one of a request that was submitted, or a failure with a reason. -/
def Explained (q : Queue) (d : Delivery) : Prop :=
  (d.synthetic = false ∧ d.number < q.submitted.length) ∨
    (d.synthetic = true ∧ d.status ≠ .ok ∧ Refused q d.number)

/-- What a queue has done and has to do with the actions it has admitted. -/
structure Accounts (q : Queue) : Prop where
  numbers : q.admitted.map Action.number = List.range q.admitted.length
  accounted : (q.delivered.map Delivery.number ++ q.pending.map Action.number).Perm
    (List.range q.admitted.length)
  kept : q.outstanding = [] → q.actions = []
  current : ∀ o ∈ q.outstanding, o.action.number + 1 = q.submitted.length
  dependents : ∀ hook ∈ q.hooks, hook.dependents ≠ [] → hook.flushed = true ∧ q.failed = true
  explained : ∀ d ∈ q.delivered, Explained q d
  clean : q.failed = false → ∀ d ∈ q.delivered, d.synthetic = false
  statuses : ∀ hook ∈ q.hooks, hook.status ≠ .ok
  sorted : ∀ hook ∈ q.hooks, (hook.dependents.map Action.number).Pairwise (· < ·)
  refused : ∀ hook ∈ q.hooks, ∀ action, hook.dependents.head? = some action →
    Refused q action.number

/-- The references to a queue. -/
structure Held (q : Queue) : Prop where
  references : q.references = (!q.ownerDestroyed).toNat + q.timers + q.hooks.length
  finalized : q.finalized = if q.references = 0 ∧ q.active = false ∧ q.actions = [] then 1 else 0

/-- What holds between steps. -/
structure Delivering (q : Queue) : Prop where
  phase : Phase q
  accounts : Accounts q
  held : Held q

theorem Accounts.congr {q q' : Queue} (h : Accounts q)
    (houtstanding : q'.outstanding = q.outstanding) (hactions : q'.actions = q.actions)
    (hhooks : q'.hooks = q.hooks)
    (hsubmitted : q'.submitted = q.submitted) (hadmitted : q'.admitted = q.admitted)
    (hdelivered : q'.delivered = q.delivered) (hfailed : q.failed = true → q'.failed = true) :
    Accounts q' where
  numbers := by rw [hadmitted, h.numbers]
  accounted := by
    rw [hdelivered, hadmitted, Queue.pending, houtstanding, hactions, hhooks]
    exact h.accounted
  kept := by
    rw [houtstanding, hactions]
    exact h.kept
  current := by
    rw [houtstanding, hsubmitted]
    exact h.current
  dependents := by
    intro hook hhook hne
    rw [hhooks] at hhook
    obtain ⟨hflushed, hf⟩ := h.dependents hook hhook hne
    exact ⟨hflushed, hfailed hf⟩
  explained := by
    intro d hd
    rw [hdelivered] at hd
    rw [Explained, Refused, hsubmitted, hdelivered]
    exact h.explained d hd
  clean := by
    intro hf d hd
    rw [hdelivered] at hd
    refine h.clean ?_ d hd
    cases hold : q.failed with
    | false => rfl
    | true => rw [hfailed hold] at hf; cases hf
  statuses := by
    rw [hhooks]
    exact h.statuses
  sorted := by
    rw [hhooks]
    exact h.sorted
  refused := by
    intro hook hhook action hhead
    rw [hhooks] at hhook
    rw [Refused, hsubmitted, hdelivered]
    exact h.refused hook hhook action hhead

theorem Accounts.create : Accounts Queue.create := by
  constructor <;> simp [Queue.create, Queue.pending]

variable {action : Action}

theorem numbers_concat {admitted : List Action}
    (h : admitted.map Action.number = List.range admitted.length)
    (hnumber : action.number = admitted.length) :
    (admitted ++ [action]).map Action.number = List.range (admitted ++ [action]).length := by
  rw [List.map_append, h, List.length_append, List.length_singleton, List.range_succ,
    List.map_singleton, hnumber]

variable {admitted before rest : List Action}

theorem number_of_split (h : admitted.map Action.number = List.range admitted.length)
    (hsplit : before ++ action :: rest = admitted) : action.number = before.length := by
  subst hsplit
  have hget := congrArg (fun l : List Nat => l[before.length]?) h
  simpa using hget

theorem sorted_of_split (h : admitted.map Action.number = List.range admitted.length)
    (hsplit : before ++ rest = admitted) : (rest.map Action.number).Pairwise (· < ·) := by
  have hall : (admitted.map Action.number).Pairwise (· < ·) := by
    rw [h]
    exact List.pairwise_lt_range
  rw [← hsplit, List.map_append] at hall
  exact (List.pairwise_append.mp hall).2.1

theorem Refused.mono {q q' : Queue} {number : Nat} (h : Refused q number)
    (hsubmitted : q'.submitted = q.submitted) (hdelivered : ∀ d ∈ q.delivered, d ∈ q'.delivered) :
    Refused q' number := by
  obtain ⟨hle, hcause⟩ := h
  rw [Refused, hsubmitted]
  refine ⟨hle, hcause.imp id ?_⟩
  intro hearlier
  obtain ⟨d, hd, hlt, hstatus⟩ := hearlier
  exact ⟨d, hdelivered d hd, hlt, hstatus⟩

theorem Explained.mono {q q' : Queue} {d : Delivery} (h : Explained q d)
    (hsubmitted : q'.submitted = q.submitted) (hdelivered : ∀ d ∈ q.delivered, d ∈ q'.delivered) :
    Explained q' d := by
  rcases h with ⟨hown, hlt⟩ | ⟨hsynthetic, hstatus, hrefused⟩
  · exact Or.inl ⟨hown, by rw [hsubmitted]; exact hlt⟩
  · exact Or.inr ⟨hsynthetic, hstatus, hrefused.mono hsubmitted hdelivered⟩

theorem Explained.submit {q q' : Queue} {d : Delivery} (h : Explained q d)
    (hown : d.synthetic = false) (hsubmitted : q.submitted.length ≤ q'.submitted.length) :
    Explained q' d := by
  rcases h with ⟨-, hlt⟩ | ⟨hsynthetic, -, -⟩
  · exact Or.inl ⟨hown, by omega⟩
  · rw [hown] at hsynthetic
    cases hsynthetic

variable {q : Queue}

theorem Accounts.no_dependents (h : Accounts q) (hfailed : q.failed = false) :
    ∀ hook ∈ q.hooks, hook.dependents = [] := by
  intro hook hhook
  by_contra hne
  obtain ⟨-, hf⟩ := h.dependents hook hhook hne
  rw [hfailed] at hf
  cases hf

theorem Accounts.admitAction (h : Accounts q) (hphase : Phase q)
    (hadmissible : Admissible q action) (projectedState : FlowState) :
    Accounts (q.admitAction action projectedState) := by
  have hnone := h.no_dependents hadmissible.notFailed
  have hsubmitted : q.submitted.length ≤ (q.admitAction action projectedState).submitted.length := by
    simp only [Queue.admitAction]
    split <;> simp
  have hpending : ((q.admitAction action projectedState).pending.map Action.number).Perm
      (q.pending.map Action.number ++ [q.admitted.length]) := by
    have hlast : ∀ actions : List Action,
        (((actions ++ [action]) ++ q.hooks.flatMap Hook.dependents).map Action.number).Perm
          ((actions ++ q.hooks.flatMap Hook.dependents).map Action.number ++
            [q.admitted.length]) := by
      intro actions
      have hdeps : q.hooks.flatMap Hook.dependents = [] := List.flatMap_eq_nil_iff.mpr hnone
      rw [hdeps, List.append_nil, List.append_nil, List.map_append, List.map_singleton,
        hadmissible.number]
    cases hphase with
    | idle ho ha hact hfl hs =>
      simpa [Queue.pending, Queue.admitAction, ho, ha, hact] using hlast []
    | busy o waiting ho ha hact hfl hs hr =>
      cases hresult : o.result with
      | none => simpa [Queue.pending, Queue.admitAction, ho, ha, hact, hresult] using hlast q.actions
      | some status =>
        simpa [Queue.pending, Queue.admitAction, ho, ha, hact, hresult] using hlast waiting
    | broken ho hf hfl hs => simp [hadmissible.notFailed] at hf
  refine ⟨numbers_concat h.numbers hadmissible.number, ?_, ?_, ?_, ?_, ?_, h.clean, h.statuses,
    h.sorted, ?_⟩
  · have hrange : List.range (q.admitAction action projectedState).admitted.length =
        List.range q.admitted.length ++ [q.admitted.length] := by
      simp [Queue.admitAction, List.range_succ]
    rw [hrange]
    refine (hpending.append_left (q.delivered.map Delivery.number)).trans ?_
    rw [← List.append_assoc]
    exact h.accounted.append_right _
  · intro hempty
    cases hphase with
    | idle ho ha hact hfl hs => simp [Queue.admitAction, hact] at hempty
    | busy o waiting ho ha hact hfl hs hr => simp [Queue.admitAction, hact, ho] at hempty
    | broken ho hf hfl hs => simp [hadmissible.notFailed] at hf
  · intro o ho'
    cases hphase with
    | idle ho ha hact hfl hs =>
      simp only [Queue.admitAction, ho, hact, Bool.false_eq_true, if_false, List.nil_append,
        List.mem_singleton] at ho'
      subst ho'
      simp [Queue.admitAction, hact, hs, hadmissible.number]
    | busy o' waiting ho ha hact hfl hs hr =>
      have hmem : o ∈ q.outstanding := by simpa [Queue.admitAction, hact] using ho'
      simpa [Queue.admitAction, hact] using h.current o hmem
    | broken ho hf hfl hs => simp [hadmissible.notFailed] at hf
  · intro hook hhook hne
    exact absurd (hnone hook hhook) hne
  · intro d hd
    exact (h.explained d hd).submit (h.clean hadmissible.notFailed d hd) hsubmitted
  · intro hook hhook a hhead
    rw [hnone hook hhook] at hhead
    cases hhead

variable {index : Nat}

/-- **The runtime has a result**: the head of the queue gets it. -/
theorem Accounts.result (h : Accounts q) (hphase : Phase q)
    (hget : q.outstanding[index]? = some { action, result := none })
    (status : Status) :
    Accounts ({ q with outstanding :=
      { action, result := some status } :: q.outstanding.eraseIdx index }.result action status
        false) := by
  obtain ⟨waiting, rfl, ho, ha, hact, hfl, hs, hr⟩ := hphase.of_outstanding hget
  have hcurrent : action.number + 1 = q.submitted.length :=
    h.current { action, result := none } (by simp [ho])
  -- the head leaves the pending actions and enters the delivered ones
  have haccounted := h.accounted
  simp only [Queue.pending, ho, ha, List.any_cons, List.any_nil, Option.isSome_none,
    Bool.or_false, Bool.false_eq_true, if_false, List.cons_append, List.map_cons] at haccounted
  rw [ho, List.eraseIdx_cons_zero]
  refine ⟨?_, ?_, ?_, ?_, ?_, ?_, ?_, ?_, ?_, ?_⟩
  · simpa using h.numbers
  · rw [result_admitted, result_delivered, Queue.pending]
    simpa [ha] using haccounted
  · simp
  · simpa using hcurrent
  · intro hook hhook hne
    obtain ⟨hflushed, hf⟩ := h.dependents hook (by simpa using hhook) hne
    exact ⟨hflushed, by simp [hf]⟩
  · intro d hd
    simp only [result_delivered, List.mem_append, List.mem_singleton] at hd
    rcases hd with hd | rfl
    · exact (h.explained d hd).mono (by simp) (by simp +contextual)
    · refine Or.inl ⟨rfl, ?_⟩
      simp only [result_submitted]
      omega
  · intro hf d hd
    simp only [result_failed, Bool.or_eq_false_iff] at hf
    simp only [result_delivered, List.mem_append, List.mem_singleton] at hd
    rcases hd with hd | rfl
    · exact h.clean hf.1 d hd
    · rfl
  · simpa using h.statuses
  · simpa using h.sorted
  · intro hook hhook a hhead
    exact (h.refused hook (by simpa using hhook) a hhead).mono (by simp) (by simp +contextual)

/-- A hook that was not there before. -/
structure HookSound (q : Queue) (hook : Hook) : Prop where
  dependents : hook.dependents ≠ [] → hook.flushed = true ∧ q.failed = true
  status : hook.status ≠ .ok
  sorted : (hook.dependents.map Action.number).Pairwise (· < ·)
  refused : ∀ action, hook.dependents.head? = some action → Refused q action.number

theorem HookSound.quiet (q : Queue) : HookSound q .quiet where
  dependents := fun hne => absurd rfl hne
  status := by decide
  sorted := .nil
  refused := by
    intro action hhead
    cases hhead

/-- The accounts after the first section of a hook. -/
theorem Accounts.posted (h : Accounts q) {outstanding : List Outstanding}
    {actions : List Action} {active failed : Bool} {submitted : List Action} {hook : Hook}
    (haccounted : ((q.delivered.map Delivery.number) ++
      (q.posted outstanding actions active failed submitted hook).pending.map Action.number).Perm
      (List.range q.admitted.length))
    (hkept : outstanding = [] → actions = [])
    (hcurrent : ∀ o ∈ outstanding, o.action.number + 1 = submitted.length)
    (hfailed : q.failed = true → failed = true)
    (hsubmitted : submitted = q.submitted ∨
      (q.failed = false ∧ q.submitted.length ≤ submitted.length))
    (hhook : HookSound (q.posted outstanding actions active failed submitted hook) hook) :
    Accounts (q.posted outstanding actions active failed submitted hook) where
  numbers := h.numbers
  accounted := haccounted
  kept := hkept
  current := hcurrent
  dependents := by
    intro other hother hne
    rcases List.mem_cons.mp hother with rfl | hother
    · exact hhook.dependents hne
    · obtain ⟨hflushed, hf⟩ := h.dependents other hother hne
      exact ⟨hflushed, hfailed hf⟩
  explained := by
    intro d hd
    rcases hsubmitted with rfl | ⟨hclean, hle⟩
    · exact (h.explained d hd).mono rfl fun _ => id
    · exact (h.explained d hd).submit (h.clean hclean d hd) hle
  clean := by
    intro hf d hd
    refine h.clean ?_ d hd
    cases hold : q.failed with
    | false => rfl
    | true => exact absurd (hfailed hold) (by simpa [Queue.posted] using hf)
  statuses := by
    intro other hother
    rcases List.mem_cons.mp hother with rfl | hother
    · exact hhook.status
    · exact h.statuses other hother
  sorted := by
    intro other hother
    rcases List.mem_cons.mp hother with rfl | hother
    · exact hhook.sorted
    · exact h.sorted other hother
  refused := by
    intro other hother a hhead
    rcases List.mem_cons.mp hother with rfl | hold
    · exact hhook.refused a hhead
    · rcases hsubmitted with heq | ⟨hclean, -⟩
      · exact (h.refused other hold a hhead).mono heq fun _ => id
      · rw [h.no_dependents hclean other hold] at hhead
        cases hhead

/-- **The hook begins**: what waited is with the runtime, waits on, or is the hook's. -/
theorem Accounts.post (h : Accounts q) (hphase : Phase q) {terminal : Status}
    (hget : q.outstanding[index]? = some { action, result := some terminal })
    (hflush : terminal = .ok → q.failed = true → q.actions.tail = []) (submit : Status) :
    Accounts ({ q with outstanding := q.outstanding.eraseIdx index }.postResult action terminal
      submit) := by
  obtain ⟨rest, rfl, ho, ha, hact, hfl, hs, hr⟩ := hphase.of_outstanding hget
  have haccounted := h.accounted
  simp only [Queue.pending, ho, ha, List.any_cons, List.any_nil, Option.isSome_some,
    Bool.or_false, if_true, List.tail_cons] at haccounted
  have hnext : ∀ next, rest.head? = some next → next.number = q.submitted.length := by
    intro next hhead
    obtain ⟨waiting, rfl⟩ : ∃ waiting, rest = next :: waiting := by
      cases rest with
      | nil => cases hhead
      | cons a waiting =>
        cases hhead
        exact ⟨waiting, rfl⟩
    exact number_of_split h.numbers hs
  rw [ho, List.eraseIdx_cons_zero]
  rcases postResult_cases (q := { q with outstanding := [] }) ha rfl (hr terminal rfl) submit
    with ⟨rfl, -, heq⟩ | ⟨next, waiting, rfl, -, hf, heq⟩ | ⟨status, hstatus, heq⟩ |
      ⟨hne, hok, hf, heq⟩
  · rw [heq]
    refine h.posted ?_ (fun _ => rfl) (by simp) id (Or.inl rfl) (.quiet _)
    simpa [Queue.pending, Queue.posted, Hook.quiet] using haccounted
  · rw [heq]
    have hfalse : q.failed = true → false = true :=
      fun ht => absurd (hf.symm.trans ht) (by decide)
    refine h.posted ?_ (fun hnil => by cases hnil) ?_ hfalse (Or.inr ⟨hf, by simp⟩) (.quiet _)
    · simpa [Queue.pending, Queue.posted, Hook.quiet] using haccounted
    · intro o ho'
      rw [List.mem_singleton] at ho'
      subst ho'
      simpa using hnext next rfl
  · rw [heq]
    refine h.posted ?_ (fun _ => rfl) (by simp) (fun _ => rfl) (Or.inl rfl) ?_
    · simpa [Queue.pending, Queue.posted, Hook.flush] using haccounted
    · refine ⟨fun hne => ⟨by simpa [Hook.flush] using hne, rfl⟩, hstatus,
        sorted_of_split h.numbers hs, fun a hhead => ?_⟩
      have hnumber := hnext a hhead
      exact ⟨hnumber.ge, Or.inl hnumber⟩
  · rw [ha, List.tail_cons] at hflush
    exact absurd (hflush hok hf) hne

theorem pending_perm {hook : Hook} (hget : q.hooks[index]? = some hook) :
    (q.hooks.flatMap Hook.dependents).Perm
      (hook.dependents ++ (q.hooks.eraseIdx index).flatMap Hook.dependents) := by
  simpa using (perm_eraseIdx hget).flatMap_right Hook.dependents

/-- **A hook fails the next of its dependents.** -/
theorem Accounts.deliver (h : Accounts q)
    {dependents : List Action} {status : Status} {flushed : Bool}
    (hget : q.hooks[index]? = some { dependents := action :: dependents, status, flushed }) :
    Accounts ({ q with hooks :=
      { dependents, status := .state, flushed } :: q.hooks.eraseIdx index }.result action status
        true) := by
  have hmem : { dependents := action :: dependents, status, flushed } ∈ q.hooks :=
    List.mem_of_getElem? hget
  have hrest : ∀ hook ∈ q.hooks.eraseIdx index, hook ∈ q.hooks :=
    fun hook => List.mem_of_mem_eraseIdx
  have hstatus : status ≠ .ok := h.statuses _ hmem
  have hrefused : Refused q action.number := h.refused _ hmem action rfl
  obtain ⟨hflushed, hfailed⟩ := h.dependents _ hmem (by simp)
  have hsorted := h.sorted _ hmem
  rw [List.map_cons, List.pairwise_cons] at hsorted
  refine ⟨?_, ?_, ?_, ?_, ?_, ?_, ?_, ?_, ?_, ?_⟩
  · simpa using h.numbers
  · have haccounted := h.accounted
    simp only [Queue.pending] at haccounted
    rw [result_admitted, result_delivered, Queue.pending, result_outstanding, result_actions,
      result_hooks, List.flatMap_cons]
    generalize (if q.outstanding.any fun o => o.result.isSome then q.actions.tail else q.actions)
      = queued at haccounted ⊢
    refine List.Perm.trans ?_ haccounted
    rw [List.map_append, List.map_singleton, List.append_assoc]
    refine List.Perm.append_left _ ?_
    have hmoved := ((pending_perm hget).append_left queued).symm.map Action.number
    refine List.Perm.trans ?_ hmoved
    show (List.map Action.number (action :: (queued ++ (dependents ++ _)))).Perm _
    exact List.perm_middle.symm.map Action.number
  · simpa using h.kept
  · simpa using h.current
  · intro hook hhook hne
    refine ⟨?_, by simp [hfailed]⟩
    rw [result_hooks] at hhook
    rcases List.mem_cons.mp hhook with rfl | hold
    · exact hflushed
    · exact (h.dependents hook (hrest hook hold) hne).1
  · intro d hd
    simp only [result_delivered, List.mem_append, List.mem_singleton] at hd
    rcases hd with hd | rfl
    · exact (h.explained d hd).mono (by simp) (by simp +contextual)
    · exact Or.inr ⟨rfl, hstatus, hrefused.mono (by simp) (by simp +contextual)⟩
  · intro hf
    simp [hfailed] at hf
  · intro hook hhook
    rw [result_hooks] at hhook
    rcases List.mem_cons.mp hhook with rfl | hold
    · show Status.state ≠ Status.ok
      decide
    · exact h.statuses hook (hrest hook hold)
  · intro hook hhook
    rw [result_hooks] at hhook
    rcases List.mem_cons.mp hhook with rfl | hold
    · exact hsorted.2
    · exact h.sorted hook (hrest hook hold)
  · intro hook hhook next hhead
    rw [result_hooks] at hhook
    rcases List.mem_cons.mp hhook with rfl | hold
    · -- the one that was failed now is before the next one
      have hlt : action.number < next.number :=
        hsorted.1 next.number (List.mem_map_of_mem (List.mem_of_mem_head? hhead))
      refine ⟨?_, Or.inr ⟨{ number := action.number, status, synthetic := true }, by simp, hlt,
        hstatus⟩⟩
      have hle := hrefused.1
      simp only [result_submitted]
      omega
    · exact (h.refused hook (hrest hook hold) next hhead).mono (by simp) (by simp +contextual)

/-- **A hook ends.** -/
theorem Accounts.leave (h : Accounts q) {status : Status} {flushed : Bool}
    (hget : q.hooks[index]? = some { dependents := [], status, flushed }) (active : Bool)
    (references : Nat) :
    Accounts { q with hooks := q.hooks.eraseIdx index, active, references } := by
  have hrest : ∀ hook ∈ q.hooks.eraseIdx index, hook ∈ q.hooks :=
    fun hook => List.mem_of_mem_eraseIdx
  refine ⟨h.numbers, ?_, h.kept, h.current, fun hook hhook => h.dependents hook (hrest hook hhook),
    fun d hd => (h.explained d hd).mono rfl fun _ => id, h.clean,
    fun hook hhook => h.statuses hook (hrest hook hhook),
    fun hook hhook => h.sorted hook (hrest hook hhook),
    fun hook hhook a hhead => (h.refused hook (hrest hook hhook) a hhead).mono rfl fun _ => id⟩
  refine List.Perm.trans ?_ h.accounted
  refine List.Perm.append_left _ (List.Perm.map _ ?_)
  exact ((pending_perm hget).append_left _).symm

theorem Accounts.finalizeUnused (h : Accounts q) : Accounts q.finalizeUnused := by
  rw [Queue.finalizeUnused]
  split
  · exact h.congr rfl rfl rfl rfl rfl rfl id
  · exact h

/-- The runs whose hooks leave nothing behind: where a hook begins after a success and the queue
is marked as failed, nothing waits. -/
def Flushes (q : Queue) : Move → Prop
  | .post index _ => ∀ action, q.outstanding[index]? = some { action, result := some .ok } →
      q.failed = true → q.actions.tail = []
  | _ => True

theorem accounts_move (h : Accounts q) (hphase : Phase q) {move : Move}
    (hmove : Flushes q move) : Accounts (q.move move) := by
  cases move with
  | operate env operation =>
    rcases operate_admits hphase env operation with
      ⟨status, -, heq⟩ | ⟨action, state, hadmissible, heq⟩
    · simpa [Queue.move, heq] using h
    · simpa [Queue.move, heq] using h.admitAction hphase hadmissible state
  | cancel number =>
    simp only [Queue.move]
    split
    · exact h.congr rfl rfl rfl rfl rfl rfl id
    · exact h
  | mark state status initial =>
    by_cases hstatus : status = .ok
    · simp only [Queue.move, Queue.mark, hstatus, ne_eq, not_true_eq_false, if_false]
      split
      · exact h.congr rfl rfl rfl rfl rfl rfl id
      · exact h.congr rfl rfl rfl rfl rfl rfl id
    · simp only [Queue.move, Queue.mark, hstatus, ne_eq, not_false_eq_true, if_true]
      exact h.congr rfl rfl rfl rfl rfl rfl fun _ => rfl
  | releaseOwner =>
    simp only [Queue.move, Queue.releaseOwner]
    split
    · exact h.finalizeUnused
    · exact Accounts.finalizeUnused (h.congr rfl rfl rfl rfl rfl rfl id)
  | retainTimer =>
    simp only [Queue.move, Queue.retainTimer]
    split
    · exact h
    · exact h.congr rfl rfl rfl rfl rfl rfl id
  | releaseTimer =>
    simp only [Queue.move, Queue.releaseTimer]
    split
    · exact h
    · exact Accounts.finalizeUnused (h.congr rfl rfl rfl rfl rfl rfl id)
  | result index status =>
    simp only [Queue.move]
    split
    next action hget => exact h.result hphase hget status
    next => exact h
  | post index submit =>
    simp only [Queue.move]
    split
    next action terminal hget =>
      refine h.post hphase hget (fun hok hf => ?_) submit
      subst hok
      exact hmove action hget hf
    next => exact h
  | deliver index =>
    simp only [Queue.move]
    split
    next action dependents status flushed hget => exact h.deliver hget
    next => exact h
  | leave index =>
    simp only [Queue.move]
    split
    next status flushed hget => exact Accounts.finalizeUnused (h.leave hget _ _)
    next => exact h

/-! ## References -/

theorem Held.create : Held Queue.create := ⟨rfl, rfl⟩

theorem Held.congr {q q' : Queue} (h : Held q) (hreferences : q'.references = q.references)
    (howner : q'.ownerDestroyed = q.ownerDestroyed) (htimers : q'.timers = q.timers)
    (hhooks : q'.hooks.length = q.hooks.length) (hactive : q'.active = q.active)
    (hactions : q'.actions = q.actions) (hfinalized : q'.finalized = q.finalized) : Held q' where
  references := by rw [hreferences, howner, htimers, hhooks, h.references]
  finalized := by rw [hfinalized, hreferences, hactive, hactions, h.finalized]

section

variable (hreferences : q.references = (!q.ownerDestroyed).toNat + q.timers + q.hooks.length)
  (hfinalized : q.finalized = 0)
include hreferences hfinalized

theorem Held.of_used (hused : q.references ≠ 0 ∨ q.active = true) : Held q where
  references := hreferences
  finalized := by
    rw [hfinalized, if_neg]
    intro hunused
    rcases hused with hpositive | hactive
    · exact hpositive hunused.1
    · rw [hunused.2.1] at hactive
      cases hactive

theorem Held.finalizeUnused : Held q.finalizeUnused := by
  rw [Queue.finalizeUnused]
  split
  next hunused => exact ⟨hreferences, by simp [hfinalized, hunused]⟩
  next hused => exact ⟨hreferences, by simp [hfinalized, hused]⟩

end

theorem held_post (h : Held q) (hphase : Phase q) (hfinalized : q.finalized = 0)
    (index : Nat) (submit : Status) : Held (q.move (.post index submit)) := by
  simp only [Queue.move]
  split
  next action terminal hget =>
    have hheld : ∀ outstanding actions active failed submitted hook,
        Held (q.posted outstanding actions active failed submitted hook) := by
      intro outstanding actions active failed submitted hook
      refine .of_used ?_ hfinalized (Or.inl (Nat.succ_ne_zero _))
      simp [Queue.posted, h.references, Nat.add_assoc]
    obtain ⟨rest, rfl, ho, ha, hact, hfl, hs, hr⟩ := hphase.of_outstanding hget
    rw [ho, List.eraseIdx_cons_zero]
    rcases postResult_cases (q := { q with outstanding := [] }) ha rfl (hr terminal rfl) submit
      with ⟨-, -, heq⟩ | ⟨next, waiting, -, -, -, heq⟩ | ⟨status, -, heq⟩ | ⟨-, -, -, heq⟩
    all_goals
      rw [heq]
      exact hheld _ _ _ _ _ _
  next => exact h

theorem held_move (h : Held q) (hphase : Phase q) (hfinalized : q.finalized = 0)
    (move : Move) : Held (q.move move) := by
  cases move with
  | operate env operation =>
    rcases operate_admits hphase env operation with
      ⟨status, -, heq⟩ | ⟨action, state, hadmissible, heq⟩
    · simpa [Queue.move, heq] using h
    · simp only [Queue.move, heq]
      exact .of_used h.references hfinalized (Or.inr rfl)
  | cancel number =>
    simp only [Queue.move]
    split
    · exact h.congr rfl rfl rfl rfl rfl rfl rfl
    · exact h
  | mark state status initial =>
    by_cases hstatus : status = .ok
    · simp only [Queue.move, Queue.mark, hstatus, ne_eq, not_true_eq_false, if_false]
      split
      · exact h.congr rfl rfl rfl rfl rfl rfl rfl
      · exact h.congr rfl rfl rfl rfl rfl rfl rfl
    · simp only [Queue.move, Queue.mark, hstatus, ne_eq, not_false_eq_true, if_true]
      exact h.congr rfl rfl rfl rfl rfl rfl rfl
  | releaseOwner =>
    have hreferences := h.references
    simp only [Queue.move, Queue.releaseOwner]
    split
    next howner => exact .finalizeUnused hreferences hfinalized
    next howner =>
      refine .finalizeUnused ?_ hfinalized
      simp only [howner, Bool.not_false, Bool.toNat_true] at hreferences
      simp only [Bool.not_true, Bool.toNat_false]
      omega
  | retainTimer =>
    have hreferences := h.references
    simp only [Queue.move, Queue.retainTimer]
    split
    · exact h
    · refine .of_used ?_ hfinalized (Or.inl (Nat.succ_ne_zero _))
      simp only
      omega
  | releaseTimer =>
    have hreferences := h.references
    simp only [Queue.move, Queue.releaseTimer]
    split
    · exact h
    · refine .finalizeUnused ?_ hfinalized
      simp only
      omega
  | result index status =>
    simp only [Queue.move]
    split
    · exact h.congr (by simp) (by simp) (by simp) (by simp) (by simp) (by simp) (by simp)
    · exact h
  | post index submit => exact held_post h hphase hfinalized index submit
  | deliver index =>
    simp only [Queue.move]
    split
    next action dependents status flushed hget =>
      have hlength := (perm_eraseIdx hget).length_eq
      exact h.congr (by simp) (by simp) (by simp) (by simpa using hlength.symm) (by simp)
        (by simp) (by simp)
    next => exact h
  | leave index =>
    simp only [Queue.move]
    split
    next status flushed hget =>
      have hlength := (perm_eraseIdx hget).length_eq
      have hreferences := h.references
      rw [List.length_cons] at hlength
      refine .finalizeUnused ?_ hfinalized
      simp only
      omega
    next => exact h

/-! ## Every run -/

/-- **Every step keeps the accounts and the references.** -/
theorem delivering_step (q : Queue) (move : Move) (h : Delivering q) (hmove : Flushes q move) :
    Delivering (q.step move) := by
  have hphase := phase_step h.phase move
  rw [Queue.step] at hphase ⊢
  split
  · exact h
  next hfinalized =>
    rw [if_neg hfinalized] at hphase
    exact ⟨hphase, accounts_move h.accounts h.phase hmove,
      held_move h.held h.phase (by simpa using hfinalized) move⟩

/-- No request is with the runtime, and no hook is on its way. -/
def Queue.quiet (q : Queue) : Prop := q.outstanding = [] ∧ q.hooks = []

/-- The moves that bring the results. -/
def Move.completion : Move → Bool
  | .result _ _ | .post _ _ | .deliver _ | .leave _ => true
  | _ => false

/-- The moves that a queue has before it, at most. -/
def Queue.work (q : Queue) : Nat :=
  5 * q.actions.length + (q.outstanding.map fun o => if o.result.isSome then 1 else 2).sum +
    (q.hooks.map fun hook => 1 + 2 * hook.dependents.length).sum

theorem work_finalizeUnused (q : Queue) : q.finalizeUnused.work = q.work := by
  rw [Queue.finalizeUnused]
  split <;> rfl

theorem sum_perm_eraseIdx {α : Type} {l : List α} {i : Nat} {a : α} (h : l[i]? = some a)
    (f : α → Nat) : (l.map f).sum = f a + ((l.eraseIdx i).map f).sum := by
  rw [((perm_eraseIdx h).map f).sum_nat, List.map_cons, List.sum_cons]

/-- **Every completion that is possible is one less to do.** -/
theorem work_completion (h : Phase q) {move : Move} (hmove : move.completion = true) :
    q.step move = q ∨ (q.step move).work < q.work := by
  rw [Queue.step]
  split
  · exact Or.inl rfl
  cases move with
  | result index status =>
    simp only [Queue.move]
    split
    next action hget =>
      right
      have hsum := sum_perm_eraseIdx hget fun o => if o.result.isSome then 1 else 2
      simp only [Queue.work, result_actions, result_outstanding, result_hooks, hsum]
      simp
    next => exact Or.inl rfl
  | post index submit =>
    simp only [Queue.move]
    split
    next action terminal hget =>
      right
      obtain ⟨rest, rfl, ho, ha, hact, hfl, hs, hr⟩ := h.of_outstanding hget
      have hwork : q.work = 5 * (rest.length + 1) + 1 +
          (q.hooks.map fun hook => 1 + 2 * hook.dependents.length).sum := by
        simp [Queue.work, ho, ha]
      rw [ho, List.eraseIdx_cons_zero, hwork]
      rcases postResult_cases (q := { q with outstanding := [] }) ha rfl (hr terminal rfl)
        submit with ⟨rfl, -, heq⟩ | ⟨next, waiting, rfl, -, -, heq⟩ | ⟨status, -, heq⟩ |
          ⟨-, -, -, heq⟩
      all_goals
        rw [heq]
        simp only [Queue.work, Queue.posted, Hook.quiet, Hook.flush, List.map_cons,
          List.map_nil, List.sum_cons, List.sum_nil, List.length_cons, List.length_nil,
          Option.isSome_none, Bool.false_eq_true, if_false]
        omega
    next => exact Or.inl rfl
  | deliver index =>
    simp only [Queue.move]
    split
    next action dependents status flushed hget =>
      right
      have hsum := sum_perm_eraseIdx hget fun hook => 1 + 2 * hook.dependents.length
      simp only [Queue.work, result_actions, result_outstanding, result_hooks, hsum,
        List.map_cons, List.sum_cons, List.length_cons]
      omega
    next => exact Or.inl rfl
  | leave index =>
    simp only [Queue.move]
    split
    next status flushed hget =>
      right
      have hsum := sum_perm_eraseIdx hget fun hook => 1 + 2 * hook.dependents.length
      rw [Queue.leaveHook, work_finalizeUnused]
      simp only [Queue.work, hsum, List.length_nil]
      omega
    next => exact Or.inl rfl
  | _ => cases hmove

/-- **Some completion is possible** while a request or a hook is on its way. -/
theorem exists_completion (h : Phase q) (hfinalized : q.finalized = 0)
    (hquiet : ¬ q.quiet) : ∃ move, move.completion = true ∧ q.step move ≠ q := by
  have hstep : ∀ move, q.step move = q.move move := by
    intro move
    rw [Queue.step, if_neg (by simpa using hfinalized)]
  cases houtstanding : q.outstanding with
  | cons o outstanding =>
    obtain ⟨action, result⟩ := o
    cases result with
    | none =>
      refine ⟨.result 0 .ok, rfl, fun heq => ?_⟩
      have hlength := congrArg (fun q : Queue => q.delivered.length) heq
      simp [hstep, Queue.move, houtstanding] at hlength
    | some terminal =>
      refine ⟨.post 0 .ok, rfl, fun heq => ?_⟩
      have hlength := congrArg (fun q : Queue => q.hooks.length) heq
      cases h with
      | idle ho ha hact hfl hs => simp [ho] at houtstanding
      | broken ho hf hfl hs => simp [ho] at houtstanding
      | busy o rest ho ha hact hfl hs hr =>
        rw [houtstanding] at ho
        cases ho
        simp only [hstep, Queue.move, houtstanding, List.getElem?_cons_zero,
          List.eraseIdx_cons_zero] at hlength
        rcases postResult_cases (q := { q with outstanding := [] }) ha rfl (hr terminal rfl)
          .ok with ⟨-, -, heq⟩ | ⟨next, waiting, -, -, -, heq⟩ | ⟨status, -, heq⟩ |
            ⟨-, -, -, heq⟩
        all_goals
          rw [heq] at hlength
          simp [Queue.posted] at hlength
  | nil =>
    cases hhooks : q.hooks with
    | nil => exact absurd ⟨houtstanding, hhooks⟩ hquiet
    | cons hook hooks =>
      obtain ⟨dependents, status, flushed⟩ := hook
      cases dependents with
      | cons action dependents =>
        refine ⟨.deliver 0, rfl, fun heq => ?_⟩
        have hlength := congrArg (fun q : Queue => q.delivered.length) heq
        simp [hstep, Queue.move, hhooks] at hlength
      | nil =>
        refine ⟨.leave 0, rfl, fun heq => ?_⟩
        have hlength := congrArg (fun q : Queue => q.hooks.length) heq
        have hkept : ∀ q : Queue, q.finalizeUnused.hooks = q.hooks := by
          intro q
          rw [Queue.finalizeUnused]
          split <;> rfl
        simp [hstep, Queue.move, hhooks, Queue.leaveHook, hkept] at hlength

/-- A queue that has got its results, as far as they have come. -/
structure Settled (q : Queue) : Prop where
  /-- No action gets two results. -/
  once : (q.delivered.map Delivery.number).Nodup
  /-- A result is the one of the request of an admitted action, or a failure with a reason. -/
  own : ∀ d ∈ q.delivered, d.number < q.admitted.length ∧ Explained q d
  /-- When all requests and hooks are done, every admitted action has its result. -/
  all : q.quiet → (q.delivered.map Delivery.number).Perm (q.admitted.map Action.number)
  /-- Requests and hooks get done. -/
  progress : ¬ q.quiet → ∃ move, move.completion = true ∧ (q.step move).work < q.work
  completions : ∀ move, move.completion = true → q.step move = q ∨ (q.step move).work < q.work
  /-- The queue is finalized at most once, and then nothing uses it and nothing is left in it. -/
  finalizedOnce : q.finalized ≤ 1
  unused : q.finalized = 1 → q.quiet ∧ q.actions = [] ∧ q.ownerDestroyed = true ∧ q.timers = 0
  /-- It is finalized when the owner and the timers have released it and nothing is on its way. -/
  released : q.quiet → q.ownerDestroyed = true → q.timers = 0 → q.finalized = 1

/-- **Every admitted action gets one result, and the queue is finalized once**, in every run whose
hooks leave nothing behind in a queue that was marked as failed. -/
theorem delivered_once {q : Queue} (h : Machine.Reach Queue.step Flushes Queue.create q) :
    Settled q := by
  obtain ⟨hphase, haccounts, hheld⟩ :=
    h.invariant ⟨Phase.create, Accounts.create, Held.create⟩ delivering_step
  have hnodup : (q.delivered.map Delivery.number ++ q.pending.map Action.number).Nodup :=
    haccounts.accounted.nodup_iff.mpr List.nodup_range
  have hle : q.finalized ≤ 1 := by
    rw [hheld.finalized]
    split <;> omega
  have hunused : q.finalized = 1 → q.references = 0 ∧ q.active = false ∧ q.actions = [] := by
    intro hone
    by_contra hused
    rw [hheld.finalized, if_neg hused] at hone
    cases hone
  have hquiet : q.finalized = 1 → q.quiet := by
    intro hone
    obtain ⟨hreferences, hactive, hactions⟩ := hunused hone
    have hcount := hheld.references
    refine ⟨?_, List.eq_nil_of_length_eq_zero (by omega)⟩
    cases hphase with
    | idle ho ha hact hfl hs => exact ho
    | busy o waiting ho ha hact hfl hs hr => simp [ha] at hactions
    | broken ho hf hfl hs => exact ho
  refine ⟨(List.nodup_append.mp hnodup).1, ?_, ?_, ?_,
    fun move hmove => work_completion hphase hmove, hle, ?_, ?_⟩
  · intro d hd
    refine ⟨?_, haccounts.explained d hd⟩
    have hmem : d.number ∈ List.range q.admitted.length :=
      haccounts.accounted.mem_iff.mp (List.mem_append_left _ (List.mem_map_of_mem hd))
    simpa using hmem
  · intro hq
    obtain ⟨ho, hhooks⟩ := hq
    have hpending : q.pending = [] := by
      simp [Queue.pending, ho, hhooks, haccounts.kept ho]
    have haccounted := haccounts.accounted
    rw [hpending, List.map_nil, List.append_nil] at haccounted
    rw [haccounts.numbers]
    exact haccounted
  · intro hbusy
    have hzero : q.finalized = 0 := by
      rcases Nat.le_one_iff_eq_zero_or_eq_one.mp hle with hzero | hone
      · exact hzero
      · exact absurd (hquiet hone) hbusy
    obtain ⟨move, hmove, hne⟩ := exists_completion hphase hzero hbusy
    exact ⟨move, hmove, (work_completion hphase hmove).resolve_left hne⟩
  · intro hone
    obtain ⟨hreferences, hactive, hactions⟩ := hunused hone
    have hcount := hheld.references
    refine ⟨hquiet hone, hactions, ?_, by omega⟩
    cases howner : q.ownerDestroyed with
    | true => rfl
    | false =>
      simp only [howner, Bool.not_false, Bool.toNat_true] at hcount
      omega
  · intro hq howner htimers
    obtain ⟨ho, hhooks⟩ := hq
    have hreferences : q.references = 0 := by
      simp [hheld.references, howner, htimers, hhooks]
    have hactive : q.active = false := by
      cases hphase with
      | idle ho ha hact hfl hs => exact hact
      | busy o waiting ho' ha hact hfl hs hr => simp [ho] at ho'
      | broken ho hf hfl hs =>
        rw [Queue.flushes, hhooks, List.countP_nil] at hfl
        cases hactive : q.active with
        | false => rfl
        | true => simp [hactive] at hfl
    rw [hheld.finalized, if_pos ⟨hreferences, hactive, haccounts.kept ho⟩]

/-- A deferral succeeds, the first of two follow-ups fails, and the owner lets the queue go. -/
def failedFollowup : List Move :=
  [.operate .fine (.defer false false), .operate .fine (.followup true),
    .operate .fine (.followup true), .result 0 .ok, .post 0 .ok, .leave 0, .result 0 .network,
    .post 0 .ok, .deliver 0, .leave 0, .releaseOwner]

theorem failedFollowup_flushes :
    Machine.Permitted Queue.step Flushes Queue.create failedFollowup := by
  refine ⟨trivial, trivial, trivial, trivial, fun action hget hfailed => ?_, trivial, trivial,
    fun action hget hfailed => ?_, trivial, trivial, trivial, trivial⟩
  · exact absurd hfailed (by decide)
  · have hresult : _ = some (some Status.ok) := congrArg (Option.map Outstanding.result) hget
    exact absurd hresult (by decide)

theorem delivered_once_failedFollowup :
    (failedFollowup.foldl Queue.step Queue.create).delivered.map Delivery.status =
        [.ok, .network, .state] ∧
      (failedFollowup.foldl Queue.step Queue.create).finalized = 1 ∧
      Settled (failedFollowup.foldl Queue.step Queue.create) :=
  ⟨by decide, by decide, delivered_once (Machine.Reach.start.run failedFollowup_flushes)⟩

/-- A queue is marked as failed while a deferral is with the runtime and a follow-up waits. -/
def markedQueue : List Move :=
  [.operate .fine (.defer false false), .operate .fine (.followup true),
    .mark .failed .runtime false, .result 0 .ok, .post 0 .ok, .leave 0, .releaseOwner]

/-- The follow-up stays in the queue, which is never finalized. -/
theorem marked_followup_stranded :
    ¬ ∀ q, Machine.Reach Queue.step (fun _ _ => True) Queue.create q → Settled q := by
  intro h
  have hreach : Machine.Reach Queue.step (fun _ _ => True) Queue.create
      (markedQueue.foldl Queue.step Queue.create) := by
    refine Machine.Reach.start.run ?_
    simp [Machine.Permitted, markedQueue]
  have hfinalized := (h _ hreach).released ⟨by decide, by decide⟩ (by decide) (by decide)
  revert hfinalized
  decide

end Dcc.Flow
