import Dcc.Flow.Budget

/-!
# What the queues of a client hold

The counters of a client are the sums over its queues, and the counters of a queue are the sums
over what it holds: its identity, the actions that were admitted and not released, and the entry
of an admission that is under way.  As every sum is within its limit, no subtraction wraps and no
guard of a release is ever missed.

* `Balanced` — the counters beside those of the other queues;
* `step_balanced` — every step of a queue keeps the balance;
* `admission_all_or_nothing` — an admission that fails leaves nothing behind, whatever the other
  queues do meanwhile, and the counters are the sums in every run.
-/

namespace Dcc.Flow

open Rest (highWater decrementOne decrementBytes decrementOne_of_pos decrementBytes_of_le
  exists_split)

/-! ## Entries -/

variable {env : Environment}

theorem prepareEnqueue_ok {q : Queue} {kind : Option Kind} {projectedState : FlowState}
    {message : Bool} {entry : Entry}
    (hkind : ∀ k, kind = some k → k.enqueued)
    (h : q.prepareEnqueue kind projectedState message env = .ok entry) :
    Admissible q entry.action ∧ entry.Fits q := by
  have hresolved := resolve_enqueued q projectedState hkind
  simp only [Queue.prepareEnqueue] at h
  generalize q.resolve kind projectedState = resolved at hresolved h
  obtain ⟨kind, projectedState⟩ := resolved
  split_ifs at h with hoptions hmemory hstate hrefused hbuilt
  cases h
  obtain ⟨hfailed, howner⟩ : q.failed = false ∧ q.ownerDestroyed = false := by simpa using hstate
  obtain ⟨hne, hne'⟩ := hresolved
  refine ⟨?_, trivial⟩
  cases kind <;>
    constructor <;>
      simp_all [Queue.enqueueAction, Kind.isInitial, Kind.path, Kind.body,
        Action.originalAfter, ResponseType.hasOriginal]

theorem prepareInitialResponse_ok {q : Queue} {type : ResponseType} {terminalState : FlowState}
    {entry : Entry}
    (htype : type.hasOriginal = decide (type ≠ .autocomplete ∧ type ≠ .modal))
    (h : q.prepareInitialResponse type terminalState env = .ok entry) :
    Admissible q entry.action ∧ entry.Fits q := by
  simp only [Queue.prepareInitialResponse] at h
  split_ifs at h with hinitial hmemory hbuilt hstate
  cases h
  refine ⟨?_, rfl⟩
  constructor <;> simp_all [Action.originalAfter]

theorem prepareDeleteOriginal_ok {q : Queue} {entry : Entry}
    (h : q.prepareDeleteOriginal env = .ok entry) :
    Admissible q entry.action ∧ entry.Fits q := by
  simp only [Queue.prepareDeleteOriginal] at h
  split_ifs at h with hmemory hstate hbuilt
  cases h
  obtain ⟨⟨hfailed, howner⟩, hexists⟩ :
      (q.failed = false ∧ q.ownerDestroyed = false) ∧ q.projectedOriginalExists = true := by
    simpa using hstate
  refine ⟨?_, rfl, rfl, rfl, hexists⟩
  constructor <;> simp_all [Action.originalAfter]

/-- **What the first part of an admission makes** may be admitted. -/
theorem prepare_ok {q : Queue} {operation : Operation} {entry : Entry}
    (h : q.prepare env operation = .ok entry) : Admissible q entry.action ∧ entry.Fits q := by
  cases operation <;> simp only [Queue.prepare] at h
  case reply message => exact prepareEnqueue_ok (fun k hk => by cases hk) h
  case editOriginal message =>
    refine prepareEnqueue_ok (fun k hk => ?_) h
    cases hk
    exact ⟨by decide, by decide⟩
  case followup message =>
    refine prepareEnqueue_ok (fun k hk => ?_) h
    cases hk
    exact ⟨by decide, by decide⟩
  case defer ephemeral update =>
    refine prepareEnqueue_ok (fun k hk => ?_) h
    cases hk
    cases update <;> cases ephemeral <;> exact ⟨by decide, by decide⟩
  case updateMessage => exact prepareInitialResponse_ok (by decide) h
  case showModal => exact prepareInitialResponse_ok (by decide) h
  case replyAutocomplete => exact prepareInitialResponse_ok (by decide) h
  case deleteOriginal => exact prepareDeleteOriginal_ok h

theorem finish_cases {q : Queue} (h : Phase q) {entry : Entry}
    (hadmissible : Admissible q entry.action) (hfits : entry.Fits q) (submit : Status) :
    (∃ status, status ≠ .ok ∧ q.finish entry submit = (status, q)) ∨
      q.finish entry submit = (.ok, q.admitAction entry.action entry.projectedState) := by
  rw [finish_eq_push hfits]
  exact push_cases h hadmissible.notFailed entry.action entry.projectedState submit

theorem actionMeasure_pos {limits : BudgetLimits} {sizes : RequestSizes} {bytes : Nat}
    (h : actionMeasure limits sizes = .ok bytes) : 0 < bytes := by
  have hpos := limits.storage_pos
  have hlt := limits.storage_lt
  have hmax : wordMax < wordSize := by decide
  have hle : limits.storageSize ≤ wordMax := by
    simp only [wordMax]
    omega
  simp only [actionMeasure, wordSub_of_le hle hmax] at h
  split_ifs at h with hover
  cases h
  have hfit : wordAdd sizes.pathLen 1 ≤ wordMax - limits.storageSize := by omega
  rw [wordSub_of_le hfit (by omega)] at hover
  have hpath : limits.storageSize + wordAdd sizes.pathLen 1 < wordSize := by omega
  rw [wordAdd_of_lt hpath, wordAdd_of_lt (by omega)]
  omega

/-! ## What a queue retains -/

/-- The actions of a queue that were admitted and are not done: those in the queue, and the
dependents of the hooks. -/
def Queue.retained (q : Queue) : List Action := q.actions ++ q.hooks.flatMap Hook.dependents

theorem retained_congr {q q' : Queue} (hactions : q'.actions = q.actions)
    (hhooks : q'.hooks = q.hooks) : q'.retained = q.retained := by
  rw [Queue.retained, hactions, hhooks, Queue.retained]

@[simp] theorem retained_finalizeUnused (q : Queue) : q.finalizeUnused.retained = q.retained := by
  rw [Queue.finalizeUnused]
  split <;> rfl

/-- The moves that leave the actions and the hooks alone. -/
def Move.keeps : Move → Bool
  | .operate _ _ | .post _ _ | .deliver _ | .leave _ => false
  | _ => true

theorem move_kept (q : Queue) {move : Move} (h : move.keeps = true) :
    (q.move move).actions = q.actions ∧ (q.move move).hooks = q.hooks ∧
      (q.move move).admitted = q.admitted := by
  have hfinalize : ∀ q : Queue, q.finalizeUnused.actions = q.actions ∧
      q.finalizeUnused.hooks = q.hooks ∧ q.finalizeUnused.admitted = q.admitted := by
    intro q
    rw [Queue.finalizeUnused]
    split <;> exact ⟨rfl, rfl, rfl⟩
  cases move with
  | operate | post | deliver | leave => cases h
  | cancel number =>
    rw [Queue.move]
    split <;> exact ⟨rfl, rfl, rfl⟩
  | mark state status initial =>
    simp only [Queue.move, Queue.mark]
    split_ifs <;> exact ⟨rfl, rfl, rfl⟩
  | releaseOwner =>
    simp only [Queue.move, Queue.releaseOwner]
    split
    · exact hfinalize q
    · exact hfinalize _
  | retainTimer =>
    simp only [Queue.move, Queue.retainTimer]
    split <;> exact ⟨rfl, rfl, rfl⟩
  | releaseTimer =>
    simp only [Queue.move, Queue.releaseTimer]
    split
    · exact ⟨rfl, rfl, rfl⟩
    · exact hfinalize _
  | result index status =>
    simp only [Queue.move]
    split
    · simp
    · exact ⟨rfl, rfl, rfl⟩

variable {action : Action}

/-- **The hook after a result lets one action go.** -/
theorem retained_post {q : Queue} (h : Phase q) {index : Nat} {terminal : Status}
    (hget : q.outstanding[index]? = some { action, result := some terminal }) (submit : Status) :
    q.retained.Perm (action :: (q.move (.post index submit)).retained) ∧
      (q.move (.post index submit)).admitted = q.admitted ∧
      ∃ hook : Hook, (q.move (.post index submit)).hooks = hook :: q.hooks ∧
        (hook.dependents ≠ [] → hook.flushed = true) := by
  obtain ⟨rest, rfl, ho, ha, hact, hfl, hs, hr⟩ := h.of_outstanding hget
  simp only [Queue.move, hget]
  rw [ho, List.eraseIdx_cons_zero]
  have hquiet : Hook.quiet.dependents ≠ [] → Hook.quiet.flushed = true := fun hne => absurd rfl hne
  have hflush : ∀ status, (Hook.flush rest status).dependents ≠ [] →
      (Hook.flush rest status).flushed = true := by
    intro status hne
    simpa [Hook.flush] using hne
  rcases postResult_cases (q := { q with outstanding := [] }) ha rfl (hr terminal rfl) submit
    with ⟨hrest, -, heq⟩ | ⟨next, waiting, hrest, -, -, heq⟩ | ⟨status, -, heq⟩ | ⟨-, -, -, heq⟩
  · rw [heq]
    refine ⟨?_, rfl, _, rfl, hquiet⟩
    simp [Queue.retained, Queue.posted, ha, hrest, Hook.quiet]
  · rw [heq]
    refine ⟨?_, rfl, _, rfl, hquiet⟩
    simp [Queue.retained, Queue.posted, ha, Hook.quiet]
  · rw [heq]
    refine ⟨?_, rfl, _, rfl, hflush status⟩
    simp [Queue.retained, Queue.posted, ha, Hook.flush]
  · rw [heq]
    refine ⟨?_, rfl, _, rfl, hquiet⟩
    simp [Queue.retained, Queue.posted, ha, Hook.quiet]

theorem retained_deliver {q : Queue} {index : Nat} {dependents : List Action}
    {status : Status} {flushed : Bool}
    (hget : q.hooks[index]? = some { dependents := action :: dependents, status, flushed }) :
    q.retained.Perm (action :: (q.move (.deliver index)).retained) ∧
      (q.move (.deliver index)).admitted = q.admitted ∧
      (q.move (.deliver index)).hooks =
        { dependents, status := .state, flushed } :: q.hooks.eraseIdx index := by
  simp only [Queue.move, hget]
  refine ⟨?_, by simp, by simp⟩
  have hperm := (pending_perm hget).append_left q.actions
  refine hperm.trans ?_
  simp only [Queue.retained, result_actions, result_hooks, List.flatMap_cons, List.cons_append]
  exact List.perm_middle

theorem retained_leave {q : Queue} {index : Nat} {hook : Hook}
    (hget : q.hooks[index]? = some hook) :
    q.retained.Perm (q.move (.leave index)).retained ∧
      (q.move (.leave index)).admitted = q.admitted ∧
      ((q.move (.leave index)).hooks = q.hooks ∨
        (q.move (.leave index)).hooks = q.hooks.eraseIdx index) := by
  have hkept : ∀ q : Queue, q.finalizeUnused.hooks = q.hooks ∧
      q.finalizeUnused.admitted = q.admitted := by
    intro q
    rw [Queue.finalizeUnused]
    split <;> exact ⟨rfl, rfl⟩
  obtain ⟨dependents, status, flushed⟩ := hook
  cases dependents with
  | nil =>
    simp only [Queue.move, hget, Queue.leaveHook]
    refine ⟨?_, (hkept _).2, Or.inr (hkept _).1⟩
    rw [retained_finalizeUnused]
    exact (pending_perm hget).append_left q.actions
  | cons action dependents => simp [Queue.move, hget]

/-! ## Well-formed queues -/

/-- What holds of a queue between steps, whatever its marks. -/
structure QueueFormed (q : Queue) : Prop where
  phase : Phase q
  held : Held q
  flushed : ∀ hook ∈ q.hooks, hook.dependents ≠ [] → hook.flushed = true

theorem QueueFormed.create : QueueFormed Queue.create :=
  ⟨Phase.create, Held.create, fun hook hhook => by cases hhook⟩

section

variable {q : Queue} (h : QueueFormed q)
include h

theorem flushed_move {move : Move} (hoperate : ∀ env operation, move ≠ .operate env operation) :
    ∀ hook ∈ (q.move move).hooks, hook.dependents ≠ [] → hook.flushed = true := by
  cases hkeeps : move.keeps with
  | true =>
    rw [(move_kept q hkeeps).2.1]
    exact h.flushed
  | false =>
    cases move with
    | operate env operation => exact absurd rfl (hoperate env operation)
    | post index submit =>
      cases hget : q.outstanding[index]? with
      | none =>
        simp only [Queue.move, hget]
        exact h.flushed
      | some o =>
        obtain ⟨action, result⟩ := o
        cases result with
        | none =>
          simp only [Queue.move, hget]
          exact h.flushed
        | some terminal =>
          obtain ⟨-, -, hook, hhooks, hnew⟩ := retained_post h.phase hget submit
          rw [hhooks]
          intro hook' hmem
          rcases List.mem_cons.mp hmem with rfl | hmem
          · exact hnew
          · exact h.flushed hook' hmem
    | deliver index =>
      cases hget : q.hooks[index]? with
      | none =>
        simp only [Queue.move, hget]
        exact h.flushed
      | some hook =>
        obtain ⟨dependents, status, flushed⟩ := hook
        cases dependents with
        | nil =>
          simp only [Queue.move, hget]
          exact h.flushed
        | cons action dependents =>
          rw [(retained_deliver hget).2.2]
          intro hook' hmem
          rcases List.mem_cons.mp hmem with rfl | hmem
          · intro _
            have hold := h.flushed { dependents := action :: dependents, status, flushed }
              (List.mem_of_getElem? hget) (List.cons_ne_nil _ _)
            exact hold
          · exact h.flushed hook' (List.mem_of_mem_eraseIdx hmem)
    | leave index =>
      cases hget : q.hooks[index]? with
      | none =>
        simp only [Queue.move, hget]
        exact h.flushed
      | some hook =>
        rcases (retained_leave hget).2.2 with hhooks | hhooks
        · rw [hhooks]
          exact h.flushed
        · rw [hhooks]
          exact fun hook' hmem => h.flushed hook' (List.mem_of_mem_eraseIdx hmem)
    | _ => cases hkeeps

/-- **Every step but an admission** keeps a queue well-formed. -/
theorem QueueFormed.move (hfinalized : q.finalized = 0)
    {move : Move} (hoperate : ∀ env operation, move ≠ .operate env operation) :
    QueueFormed (q.move move) := by
  have hphase := phase_step h.phase move
  rw [Queue.step, if_neg (by simpa using hfinalized)] at hphase
  exact ⟨hphase, held_move h.held h.phase hfinalized move, flushed_move h hoperate⟩

theorem QueueFormed.admitAction (hfinalized : q.finalized = 0)
    (hadmissible : Admissible q action) (projectedState : FlowState) :
    QueueFormed (q.admitAction action projectedState) where
  phase := h.phase.admitAction projectedState hadmissible.notFailed
  held := .of_used h.held.references hfinalized (Or.inr rfl)
  flushed := h.flushed

theorem QueueFormed.nothing_left (hfinalized : q.finalized ≠ 0) :
    q.actions = [] ∧ q.hooks = [] := by
  have hunused : q.references = 0 ∧ q.active = false ∧ q.actions = [] := by
    by_contra hused
    rw [h.held.finalized, if_neg hused] at hfinalized
    exact hfinalized rfl
  have hreferences := h.held.references
  refine ⟨hunused.2.2, List.eq_nil_of_length_eq_zero ?_⟩
  omega

end

/-! ## What is charged -/

/-- The actions whose charges a queue holds. -/
def ChargedQueue.retained (q : ChargedQueue) : List Action :=
  q.queue.retained ++ q.settling.toList

/-- The entry of an admission that is under way. -/
def ChargedQueue.entering (q : ChargedQueue) : List Nat :=
  (q.admission.map Admission.reservedBytes).toList

/-- The charges that a queue holds for its actions. -/
def ChargedQueue.grants (q : ChargedQueue) : List Nat := q.retained.map q.charge ++ q.entering

/-- The bytes that a queue holds. -/
def ChargedQueue.held (q : ChargedQueue) : Nat :=
  match q.stage with
  | .opening => q.identityCharge
  | .live => q.identityCharge + q.grants.sum
  | .gone => 0

/-- The actions that a queue holds. -/
def ChargedQueue.count (q : ChargedQueue) : Nat :=
  match q.stage with
  | .live => q.grants.length
  | _ => 0

/-- What holds of a queue and its charges between steps. -/
structure Formed (q : ChargedQueue) : Prop where
  queue : QueueFormed q.queue
  charged : q.charges.length = q.queue.admitted.length
  numbers : ∀ action ∈ q.retained, action.number < q.charges.length
  positive : ∀ bytes ∈ q.charges, 0 < bytes
  settling : q.settling ≠ none → q.queue.flushes ≠ 0
  admission : ∀ a, q.admission = some a → q.queue.finalized = 0 ∧
    Admissible q.queue a.entry.action ∧ a.entry.Fits q.queue ∧ 0 < a.reservedBytes

/-- The counters of a queue are what it holds, within its limit. -/
structure Counted (limits : BudgetLimits) (q : ChargedQueue) : Prop where
  bytes : q.reservedBytes = q.identityCharge + q.grants.sum
  count : q.actionCount = q.grants.length
  bytes_le : q.reservedBytes ≤ limits.maxReservedBytesPerQueue

/-- What holds of a queue at each stage. -/
def Ledger (limits : BudgetLimits) (q : ChargedQueue) : Prop :=
  match q.stage with
  | .opening =>
    q = .opening q.identityCharge ∧ q.identityCharge ≤ limits.maxReservedBytesPerQueue
  | .live => Formed q ∧ Counted limits q
  | .gone => q.admission = none ∧ q.settling = none

theorem Formed.grants_pos {q : ChargedQueue} (h : Formed q) : ∀ bytes ∈ q.grants, 0 < bytes := by
  intro bytes hmem
  rcases List.mem_append.mp hmem with hmem | hmem
  · obtain ⟨action, haction, rfl⟩ := List.mem_map.mp hmem
    have hlt := h.numbers action haction
    refine h.positive _ ?_
    rw [ChargedQueue.charge, List.getD_eq_getElem?_getD, List.getElem?_eq_getElem hlt]
    exact List.getElem_mem hlt
  · rw [ChargedQueue.entering] at hmem
    cases hadmission : q.admission with
    | none => simp [hadmission] at hmem
    | some a =>
      obtain rfl : bytes = a.reservedBytes := by simpa [hadmission] using hmem
      exact (h.admission a hadmission).2.2.2

theorem length_le_sum {l : List Nat} (h : ∀ n ∈ l, 0 < n) : l.length ≤ l.sum := by
  induction l with
  | nil => simp
  | cons n l ih =>
    have hn := h n List.mem_cons_self
    have hl := ih fun m hm => h m (List.mem_cons_of_mem _ hm)
    rw [List.length_cons, List.sum_cons]
    omega

theorem count_le_held {limits : BudgetLimits} {q : ChargedQueue} (h : Ledger limits q) :
    q.count ≤ q.held := by
  rw [Ledger] at h
  rw [ChargedQueue.count, ChargedQueue.held]
  cases hstage : q.stage with
  | opening => exact Nat.zero_le _
  | gone => exact Nat.zero_le _
  | live =>
    rw [hstage] at h
    have hle := length_le_sum h.1.grants_pos
    simp only
    omega

/-! ## One queue among others -/

/-- A queue in balance with the counters of its client, where the other queues hold `bytes` for
`number` actions. -/
structure Balanced (limits : BudgetLimits) (c : BudgetCounters) (q : ChargedQueue)
    (bytes number : Nat) : Prop where
  ledger : Ledger limits q
  reserved : c.interactionReservedBytes = q.held + bytes
  actions : c.interactionActions = q.count + number
  fits : c.interactionReservedBytes ≤ limits.maxReservedBytesTotal
  others : number ≤ bytes

variable {limits : BudgetLimits} {c : BudgetCounters} {q q' : ChargedQueue} {bytes number : Nat}

theorem Balanced.live (h : Balanced limits c q bytes number) (hstage : q.stage = .live) :
    Formed q ∧ Counted limits q ∧
      c.interactionReservedBytes = q.identityCharge + q.grants.sum + bytes ∧
      c.interactionActions = q.grants.length + number := by
  obtain ⟨hledger, hreserved, hactions, -, -⟩ := h
  rw [Ledger, hstage] at hledger
  rw [ChargedQueue.held, hstage] at hreserved
  rw [ChargedQueue.count, hstage] at hactions
  exact ⟨hledger.1, hledger.2, hreserved, hactions⟩

theorem Balanced.of_live (hstage : q.stage = .live) (hformed : Formed q)
    (hcounted : Counted limits q)
    (hreserved : c.interactionReservedBytes = q.identityCharge + q.grants.sum + bytes)
    (hactions : c.interactionActions = q.grants.length + number)
    (hfits : c.interactionReservedBytes ≤ limits.maxReservedBytesTotal) (hothers : number ≤ bytes) :
    Balanced limits c q bytes number where
  ledger := by
    rw [Ledger, hstage]
    exact ⟨hformed, hcounted⟩
  reserved := by rw [ChargedQueue.held, hstage, hreserved]
  actions := by rw [ChargedQueue.count, hstage, hactions]
  fits := hfits
  others := hothers

theorem Balanced.same (h : Balanced limits c q bytes number) (q' : ChargedQueue)
    (hstage : q.stage = .live) (hstage' : q'.stage = .live) (hformed : Formed q')
    (hgrants : q.grants.Perm q'.grants)
    (hidentity : q'.identityCharge = q.identityCharge) (hcount : q'.actionCount = q.actionCount)
    (hbytes : q'.reservedBytes = q.reservedBytes) : Balanced limits c q' bytes number := by
  obtain ⟨-, ⟨hqbytes, hqcount, hqle⟩, hreserved, hactions⟩ := h.live hstage
  refine .of_live hstage' hformed ⟨?_, ?_, ?_⟩ ?_ ?_ h.fits h.others
  · rw [hbytes, hqbytes, hidentity, hgrants.sum_nat]
  · rw [hcount, hqcount, hgrants.length_eq]
  · rw [hbytes]
    exact hqle
  · rw [hreserved, hidentity, hgrants.sum_nat]
  · rw [hactions, hgrants.length_eq]

/-- **A release is exact**: every guard of `dcc_app_interaction_action_release` is met. -/
theorem actionRelease_eq {charge : Nat} (hcount : 0 < q.actionCount)
    (hbytes : charge ≤ q.reservedBytes) (hreserved : charge ≤ c.interactionReservedBytes)
    (hactions : 0 < c.interactionActions) :
    actionRelease c q charge = ({ c with
          interactionReservedBytes := c.interactionReservedBytes - charge
          interactionActions := c.interactionActions - 1 },
        { q with
          actionCount := q.actionCount - 1
          reservedBytes := q.reservedBytes - charge }) := by
  rw [actionRelease, decrementBytes_of_le hreserved, decrementOne_of_pos hactions,
    decrementOne_of_pos hcount, decrementBytes_of_le hbytes]

theorem Balanced.covers (h : Balanced limits c q bytes number) (hstage : q.stage = .live)
    {charge : Nat} (hmem : charge ∈ q.grants) :
    0 < q.actionCount ∧ charge ≤ q.reservedBytes ∧ charge ≤ c.interactionReservedBytes ∧
      0 < c.interactionActions := by
  obtain ⟨-, ⟨hqbytes, hqcount, -⟩, hreserved, hactions⟩ := h.live hstage
  have hsum : charge ≤ q.grants.sum := List.le_sum_of_mem hmem
  have hpos : 0 < q.grants.length := List.length_pos_of_mem hmem
  omega

/-- **A step that lets one charge go** keeps the balance. -/
theorem Balanced.release (h : Balanced limits c q bytes number) (q' : ChargedQueue)
    (hstage : q.stage = .live) (hstage' : q'.stage = .live) {charge : Nat}
    (hgrants : q.grants.Perm (charge :: q'.grants))
    (hformed : Formed q') (hidentity : q'.identityCharge = q.identityCharge)
    (hcount : q'.actionCount = q.actionCount) (hbytes : q'.reservedBytes = q.reservedBytes) :
    Balanced limits (actionRelease c q' charge).1 (actionRelease c q' charge).2 bytes number := by
  have hmem : charge ∈ q.grants := hgrants.mem_iff.mpr List.mem_cons_self
  obtain ⟨hpos, hle, hcle, hcpos⟩ := h.covers hstage hmem
  obtain ⟨-, ⟨hqbytes, hqcount, hqle⟩, hreserved, hactions⟩ := h.live hstage
  have hsum := hgrants.sum_nat
  have hlength := hgrants.length_eq
  rw [List.sum_cons] at hsum
  rw [List.length_cons] at hlength
  have hfits := h.fits
  rw [actionRelease_eq (by omega) (by omega) hcle hcpos]
  refine .of_live hstage' ?_ ⟨?_, ?_, ?_⟩ ?_ ?_ ?_ h.others
  · exact ⟨hformed.queue, hformed.charged, hformed.numbers, hformed.positive, hformed.settling,
      hformed.admission⟩
  · show q'.reservedBytes - charge = q'.identityCharge + q'.grants.sum
    omega
  · show q'.actionCount - 1 = q'.grants.length
    omega
  · show q'.reservedBytes - charge ≤ limits.maxReservedBytesPerQueue
    omega
  · show c.interactionReservedBytes - charge = q'.identityCharge + q'.grants.sum + bytes
    omega
  · show c.interactionActions - 1 = q'.grants.length + number
    omega
  · show c.interactionReservedBytes - charge ≤ limits.maxReservedBytesTotal
    omega

/-! ## Admissions -/

/-- The counters that the claims of a queue are added to. -/
structure SameSums (c c' : BudgetCounters) : Prop where
  reserved : c'.interactionReservedBytes = c.interactionReservedBytes
  actions : c'.interactionActions = c.interactionActions

theorem SameSums.refl (c : BudgetCounters) : SameSums c c := ⟨rfl, rfl⟩

theorem actionReserve_cases (h : Balanced limits c q bytes number) (hstage : q.stage = .live)
    {charge : Nat} (hpos : 0 < charge) :
    (∃ c', actionReserve limits c q charge = (.resourceLimit, c', q) ∧ SameSums c c') ∨
      ∃ c', actionReserve limits c q charge = (.ok, c', { q with
            actionCount := q.actionCount + 1, reservedBytes := q.reservedBytes + charge }) ∧
        c'.interactionReservedBytes = c.interactionReservedBytes + charge ∧
        c'.interactionActions = c.interactionActions + 1 ∧
        q.reservedBytes + charge ≤ limits.maxReservedBytesPerQueue ∧
        c.interactionReservedBytes + charge ≤ limits.maxReservedBytesTotal := by
  obtain ⟨hformed, ⟨hqbytes, hqcount, hqle⟩, hreserved, hactions⟩ := h.live hstage
  have hlength := length_le_sum hformed.grants_pos
  have htotal := limits.total_lt
  have hper := limits.perQueue_le_total
  have hfits := h.fits
  have hothers := h.others
  rw [actionReserve, wordSub_of_le hqle (by omega), wordSub_of_le hfits htotal]
  split_ifs with hfull hqueue hclient
  · exact Or.inl ⟨_, rfl, rfl, rfl⟩
  · exact Or.inl ⟨_, rfl, rfl, rfl⟩
  · exact Or.inl ⟨_, rfl, rfl, rfl⟩
  · have hc : wordAdd c.interactionReservedBytes charge = c.interactionReservedBytes + charge :=
      wordAdd_of_lt (by omega)
    have hca : wordAdd c.interactionActions 1 = c.interactionActions + 1 :=
      wordAdd_of_lt (by omega)
    have hq : wordAdd q.reservedBytes charge = q.reservedBytes + charge :=
      wordAdd_of_lt (by omega)
    have hqa : wordAdd q.actionCount 1 = q.actionCount + 1 := wordAdd_of_lt (by omega)
    rw [hc, hca, hq, hqa]
    exact Or.inr ⟨_, rfl, rfl, rfl, by omega, by omega⟩

theorem prepareEnqueue_error {q : Queue} {kind : Option Kind} {projectedState : FlowState}
    {message : Bool} {status : Status}
    (h : q.prepareEnqueue kind projectedState message env = .error status) : status ≠ .ok := by
  simp only [Queue.prepareEnqueue] at h
  split_ifs at h with h1 h2 h3 h4 h5 h6 <;> cases h
  · decide
  · decide
  · decide
  · decide
  · decide
  · exact h6

theorem prepare_error {q : Queue} {operation : Operation} {status : Status}
    (h : q.prepare env operation = .error status) : status ≠ .ok := by
  have hinitial : ∀ type terminalState,
      q.prepareInitialResponse type terminalState env = .error status → status ≠ .ok := by
    intro type terminalState h
    simp only [Queue.prepareInitialResponse] at h
    split_ifs at h with h1 h2 h3 h4 <;> cases h
    · decide
    · decide
    · exact h3
    · decide
  cases operation <;> simp only [Queue.prepare] at h
  case reply message => exact prepareEnqueue_error h
  case editOriginal message => exact prepareEnqueue_error h
  case followup message => exact prepareEnqueue_error h
  case defer ephemeral update => exact prepareEnqueue_error h
  case updateMessage => exact hinitial _ _ h
  case showModal => exact hinitial _ _ h
  case replyAutocomplete => exact hinitial _ _ h
  case deleteOriginal =>
    simp only [Queue.prepareDeleteOriginal] at h
    split_ifs at h with h1 h2 h3 <;> cases h
    · decide
    · decide
    · exact h3

/-- A queue with an admission under way. -/
def ChargedQueue.entered (q : ChargedQueue) (admission : Admission) : ChargedQueue :=
  { q with
    actionCount := q.actionCount + 1
    reservedBytes := q.reservedBytes + admission.reservedBytes
    admission := some admission }

/-- **The first part of an admission** charges an entry that may be admitted, or changes nothing
but what it counts about itself. -/
theorem enter_cases (h : Balanced limits c q bytes number) (hstage : q.stage = .live)
    (env : Environment) (operation : Operation) (sizes : RequestSizes) :
    (∃ status c', status ≠ .ok ∧ q.enter limits c env operation sizes = (status, c', q) ∧
        SameSums c c') ∨
      ∃ a c', q.enter limits c env operation sizes = (.ok, c', q.entered a) ∧
        Admissible q.queue a.entry.action ∧ a.entry.Fits q.queue ∧ 0 < a.reservedBytes ∧
        c'.interactionReservedBytes = c.interactionReservedBytes + a.reservedBytes ∧
        c'.interactionActions = c.interactionActions + 1 ∧
        q.reservedBytes + a.reservedBytes ≤ limits.maxReservedBytesPerQueue ∧
        c.interactionReservedBytes + a.reservedBytes ≤ limits.maxReservedBytesTotal := by
  rw [ChargedQueue.enter]
  cases hprepare : q.queue.prepare env operation with
  | error status => exact Or.inl ⟨status, c, prepare_error hprepare, rfl, .refl c⟩
  | ok entry =>
    obtain ⟨hadmissible, hfits⟩ := prepare_ok hprepare
    cases hmeasure : actionMeasure limits sizes with
    | error status =>
      left
      refine ⟨status, c, ?_, rfl, .refl c⟩
      simp only [actionMeasure] at hmeasure
      split_ifs at hmeasure
      cases hmeasure
      decide
    | ok charge =>
      have hpos := actionMeasure_pos hmeasure
      rcases actionReserve_cases h hstage hpos with
        ⟨c', heq, hsame⟩ | ⟨c', heq, hreserved, hactions, hqueue, htotal⟩
      · left
        exact ⟨.resourceLimit, c', by decide, by simp [heq], hsame⟩
      · right
        refine ⟨⟨entry, charge⟩, c', ?_, hadmissible, hfits, hpos, hreserved, hactions, hqueue,
          htotal⟩
        simp [heq, ChargedQueue.entered]

variable {a : Admission}

/-- **The second part of an admission** leaves the queue with the action, or takes the charge
back and leaves it as it was. -/
theorem chargedFinish_cases (hphase : Phase q.queue)
    (hadmissible : Admissible q.queue a.entry.action) (hfits : a.entry.Fits q.queue)
    (storage submit : Status) :
    (∃ status, status ≠ .ok ∧ q.finish c a storage submit =
        (status, actionRelease c { q with admission := none } a.reservedBytes)) ∨
      q.finish c a storage submit = (.ok, c, { q with
            queue := q.queue.admitAction a.entry.action a.entry.projectedState
            charges := q.charges ++ [a.reservedBytes]
            admission := none }) := by
  rw [ChargedQueue.finish]
  by_cases hstorage : storage = .ok
  · rw [if_neg (by simpa using hstorage)]
    rcases finish_cases hphase hadmissible hfits submit with ⟨status, hstatus, heq⟩ | heq
    · left
      refine ⟨status, hstatus, ?_⟩
      rw [heq]
      simp only [hstatus, ne_eq, not_false_eq_true, if_true]
      rfl
    · right
      rw [heq]
      rfl
  · left
    refine ⟨storage, hstorage, ?_⟩
    rw [if_pos hstorage]
    rfl

theorem Balanced.enter (h : Balanced limits c q bytes number) (hstage : q.stage = .live)
    (hfinalized : q.queue.finalized = 0) (hnone : q.admission = none) (env : Environment)
    (operation : Operation) (sizes : RequestSizes) :
    Balanced limits (q.enter limits c env operation sizes).2.1
      (q.enter limits c env operation sizes).2.2 bytes number := by
  obtain ⟨hformed, ⟨hqbytes, hqcount, hqle⟩, hreserved, hactions⟩ := h.live hstage
  rcases enter_cases h hstage env operation sizes with
    ⟨status, c', -, heq, hsame⟩ |
      ⟨a, c', heq, hadmissible, hfits, hpos, hcreserved, hcactions, hqueue, htotal⟩
  · rw [heq]
    exact ⟨h.ledger, hsame.reserved.trans h.reserved, hsame.actions.trans h.actions,
      hsame.reserved.trans_le h.fits, h.others⟩
  · have hgrants : (q.entered a).grants = q.grants ++ [a.reservedBytes] := by
      have hold : q.grants = q.retained.map q.charge := by
        simp [ChargedQueue.grants, ChargedQueue.entering, hnone]
      rw [hold]
      rfl
    have hsum : (q.entered a).grants.sum = q.grants.sum + a.reservedBytes := by
      rw [hgrants, List.sum_append, List.sum_singleton]
    have hlength : (q.entered a).grants.length = q.grants.length + 1 := by
      rw [hgrants, List.length_append, List.length_singleton]
    have hidentity : (q.entered a).identityCharge = q.identityCharge := rfl
    rw [heq]
    refine .of_live hstage ?_ ⟨?_, ?_, ?_⟩ ?_ ?_ ?_ h.others
    · refine ⟨hformed.queue, hformed.charged, hformed.numbers, hformed.positive,
        hformed.settling, ?_⟩
      intro a' ha'
      cases ha'
      exact ⟨hfinalized, hadmissible, hfits, hpos⟩
    · rw [hsum, hidentity]
      show q.reservedBytes + a.reservedBytes = _
      omega
    · rw [hlength]
      show q.actionCount + 1 = _
      omega
    · exact hqueue
    · rw [hsum, hidentity, hcreserved]
      omega
    · rw [hlength, hcactions]
      omega
    · rw [hcreserved]
      exact htotal

theorem charge_concat {q q' : ChargedQueue} {charge : Nat}
    (hcharges : q'.charges = q.charges ++ [charge])
    (hlt : action.number < q.charges.length) :
    q'.charge action = q.charge action := by
  rw [ChargedQueue.charge, ChargedQueue.charge, hcharges, List.getD_eq_getElem?_getD,
    List.getD_eq_getElem?_getD, List.getElem?_append_left hlt]

theorem retained_admitAction (q : Queue) (action : Action) (projectedState : FlowState) :
    (q.admitAction action projectedState).retained.Perm (q.retained ++ [action]) := by
  simp only [Queue.retained, Queue.admitAction, List.append_assoc]
  exact List.perm_append_comm.append_left q.actions

theorem Balanced.finish (h : Balanced limits c q bytes number) (hstage : q.stage = .live)
    (hsome : q.admission = some a) (storage submit : Status) :
    Balanced limits (q.finish c a storage submit).2.1 (q.finish c a storage submit).2.2 bytes
      number := by
  obtain ⟨hformed, hcounted, hreserved, hactions⟩ := h.live hstage
  obtain ⟨hfinalized, hadmissible, hfits, hpos⟩ := hformed.admission a hsome
  have hgrants : q.grants = q.retained.map q.charge ++ [a.reservedBytes] := by
    simp [ChargedQueue.grants, ChargedQueue.entering, hsome]
  rcases chargedFinish_cases (c := c) hformed.queue.phase hadmissible hfits storage submit with
    ⟨status, hstatus, heq⟩ | heq
  · rw [heq]
    refine h.release { q with admission := none } hstage hstage ?_ ?_ rfl rfl rfl
    · rw [hgrants]
      simp only [ChargedQueue.grants, ChargedQueue.entering, Option.map_none, Option.toList_none,
        List.append_nil]
      exact List.perm_append_singleton _ _
    · exact ⟨hformed.queue, hformed.charged, hformed.numbers, hformed.positive, hformed.settling,
        fun a' ha' => by cases ha'⟩
  · rw [heq]
    generalize hq' : ({ q with
      queue := q.queue.admitAction a.entry.action a.entry.projectedState
      charges := q.charges ++ [a.reservedBytes]
      admission := none } : ChargedQueue) = q'
    have hqueue : q'.queue = q.queue.admitAction a.entry.action a.entry.projectedState := by
      rw [← hq']
    have hcharges : q'.charges = q.charges ++ [a.reservedBytes] := by rw [← hq']
    have hsettling : q'.settling = q.settling := by rw [← hq']
    have hnone : q'.admission = none := by rw [← hq']
    have hnumber : a.entry.action.number = q.charges.length := by
      rw [hadmissible.number, hformed.charged]
    have hretained : q'.retained.Perm (q.retained ++ [a.entry.action]) := by
      rw [ChargedQueue.retained, hqueue, hsettling, ChargedQueue.retained]
      refine ((retained_admitAction q.queue _ _).append_right _).trans ?_
      rw [List.append_assoc, List.append_assoc]
      exact List.perm_append_comm.append_left _
    have hold : q.retained.map q'.charge = q.retained.map q.charge :=
      List.map_congr_left fun action haction =>
        charge_concat hcharges (hformed.numbers action haction)
    have hnew : q'.charge a.entry.action = a.reservedBytes := by
      rw [ChargedQueue.charge, hcharges, hnumber, List.getD_eq_getElem?_getD]
      simp
    refine h.same q' hstage (by rw [← hq']; exact hstage) ?_ ?_ (by rw [← hq']) (by rw [← hq'])
      (by rw [← hq'])
    · refine ⟨?_, ?_, ?_, ?_, ?_, ?_⟩
      · rw [hqueue]
        exact hformed.queue.admitAction hfinalized hadmissible _
      · rw [hcharges, hqueue, Queue.admitAction]
        simp [hformed.charged]
      · intro action haction
        rw [hcharges, List.length_append, List.length_singleton]
        rcases List.mem_append.mp (hretained.mem_iff.mp haction) with hmem | hmem
        · exact Nat.lt_succ_of_lt (hformed.numbers action hmem)
        · rw [List.mem_singleton.mp hmem, hnumber]
          exact Nat.lt_succ_self _
      · intro charge hmem
        rw [hcharges] at hmem
        rcases List.mem_append.mp hmem with hmem | hmem
        · exact hformed.positive charge hmem
        · rw [List.mem_singleton.mp hmem]
          exact hpos
      · rw [hsettling, hqueue]
        exact hformed.settling
      · intro a' ha'
        rw [hnone] at ha'
        cases ha'
    · have hentering : q'.entering = [] := by simp [ChargedQueue.entering, hnone]
      rw [hgrants, ChargedQueue.grants, hentering, List.append_nil]
      refine List.Perm.trans ?_ (hretained.map q'.charge).symm
      rw [List.map_append, hold, List.map_singleton, hnew]

/-! ## Steps -/

theorem Formed.congr {q : ChargedQueue} (h : Formed q) {queue : Queue} (hqueue : QueueFormed queue)
    (hadmitted : queue.admitted = q.queue.admitted) {settling : Option Action}
    (hretained : ∀ action ∈ queue.retained ++ settling.toList, action ∈ q.retained)
    (hsettling : settling ≠ none → queue.flushes ≠ 0)
    (hadmission : ∀ a, q.admission = some a → queue.finalized = 0 ∧
      Admissible queue a.entry.action ∧ a.entry.Fits queue ∧ 0 < a.reservedBytes) :
    Formed { q with queue, settling } where
  queue := hqueue
  charged := by
    rw [hadmitted]
    exact h.charged
  numbers := fun action haction => h.numbers action (hretained action haction)
  positive := h.positive
  settling := hsettling
  admission := hadmission

theorem flushes_congr {q q' : Queue} (h : q'.hooks = q.hooks) : q'.flushes = q.flushes := by
  rw [Queue.flushes, Queue.flushes, h]

theorem grants_perm (q q' : ChargedQueue) (released : List Action)
    (hadmission : q'.admission = q.admission) (hcharges : q'.charges = q.charges)
    (hretained : q.retained.Perm (released ++ q'.retained)) :
    q.grants.Perm (released.map q.charge ++ q'.grants) := by
  have hcharge : q'.charge = q.charge := by
    funext action
    rw [ChargedQueue.charge, ChargedQueue.charge, hcharges]
  have hentering : q'.entering = q.entering := by
    rw [ChargedQueue.entering, hadmission, ChargedQueue.entering]
  rw [ChargedQueue.grants, ChargedQueue.grants, hcharge, hentering, ← List.append_assoc,
    ← List.map_append]
  exact (hretained.map q.charge).append_right q.entering

theorem Balanced.kept (h : Balanced limits c q bytes number) (hstage : q.stage = .live)
    (hfinalized : q.queue.finalized = 0) {move : Move} (hkeeps : move.keeps = true)
    (hfree : q.admission = none ∨ move.isCancel = true) :
    Balanced limits c { q with queue := q.queue.move move } bytes number := by
  obtain ⟨hformed, -⟩ := h.live hstage
  obtain ⟨hactions, hhooks, hadmitted⟩ := move_kept q.queue hkeeps
  have hretained := retained_congr hactions hhooks
  have hqueue : QueueFormed (q.queue.move move) := by
    refine hformed.queue.move hfinalized ?_
    intro env operation heq
    subst heq
    cases hkeeps
  refine h.same { q with queue := q.queue.move move } hstage hstage ?_ ?_ rfl rfl rfl
  · refine hformed.congr hqueue hadmitted ?_ ?_ ?_
    · rw [hretained]
      exact fun action haction => haction
    · rw [flushes_congr hhooks]
      exact hformed.settling
    · intro a ha
      rcases hfree with hnone | hcancel
      · rw [hnone] at ha
        cases ha
      · cases move with
        | cancel target =>
          obtain ⟨hf, ⟨h1, h2, h3, h4, h5, h6, h7, h8⟩, hfits, hpos⟩ := hformed.admission a ha
          simp only [Queue.move]
          split
          · exact ⟨hf, ⟨h1, h2, h3, h4, h5, h6, h7, h8⟩, hfits, hpos⟩
          · exact ⟨hf, ⟨h1, h2, h3, h4, h5, h6, h7, h8⟩, hfits, hpos⟩
        | _ => cases hcancel
  · refine grants_perm q { q with queue := q.queue.move move } [] rfl rfl ?_
    rw [ChargedQueue.retained, ChargedQueue.retained, hretained]
    exact .refl _

theorem step_eq_move {q : Queue} (hfinalized : q.finalized = 0) (move : Move) :
    q.step move = q.move move := by
  rw [Queue.step, if_neg (by simpa using hfinalized)]

section

variable (h : Balanced limits c q bytes number) (hstage : q.stage = .live)
include h hstage

/-- **A step of the queue other than an admission** keeps the balance. -/
theorem Balanced.move (hfinalized : q.queue.finalized = 0) {move : Move}
    (hfree : q.admission = none ∨ move.isCancel = true) :
    Balanced limits (q.move c move).1 (q.move c move).2 bytes number := by
  obtain ⟨hformed, -⟩ := h.live hstage
  cases hkeeps : move.keeps with
  | true =>
    have hmove : q.move c move = (c, { q with queue := q.queue.move move }) := by
      rw [← step_eq_move hfinalized]
      cases move with
      | operate | post | deliver | leave => cases hkeeps
      | _ => rfl
    rw [hmove]
    exact h.kept hstage hfinalized hkeeps hfree
  | false =>
    have hnone : q.admission = none := by
      rcases hfree with hnone | hcancel
      · exact hnone
      · cases move with
        | cancel => cases hkeeps
        | _ => cases hcancel
    have hidle : ∀ queue : Queue, ∀ a, q.admission = some a → queue.finalized = 0 ∧
        Admissible queue a.entry.action ∧ a.entry.Fits queue ∧ 0 < a.reservedBytes := by
      intro queue a ha
      rw [hnone] at ha
      cases ha
    have hqueue : (∀ env operation, move ≠ .operate env operation) →
        QueueFormed (q.queue.move move) := hformed.queue.move hfinalized
    cases move with
    | operate env operation => exact h
    | post index submit =>
      simp only [ChargedQueue.move, step_eq_move hfinalized]
      split
      next action terminal hget =>
        obtain ⟨hperm, hadmitted, hook, hhooks, -⟩ :=
          retained_post hformed.queue.phase hget submit
        refine h.release { q with queue := q.queue.move (.post index submit) }
          hstage hstage ?_ ?_ rfl rfl rfl
        · refine grants_perm q { q with queue := q.queue.move (.post index submit) }
            [action] rfl rfl ?_
          exact hperm.append_right q.settling.toList
        · refine hformed.congr (hqueue fun _ _ => by simp) hadmitted ?_ ?_ (hidle _)
          · intro action' haction
            refine (hperm.append_right q.settling.toList).mem_iff.mpr ?_
            exact List.mem_cons_of_mem _ haction
          · intro hsettling
            have hpositive := hformed.settling hsettling
            rw [Queue.flushes] at hpositive ⊢
            rw [hhooks, List.countP_cons]
            omega
      next => exact h
    | deliver index =>
      simp only [ChargedQueue.move, step_eq_move hfinalized]
      split
      next action dependents status flushed hget =>
        obtain ⟨hperm, hadmitted, hhooks⟩ := retained_deliver hget
        split_ifs with hsettling
        · exact h
        have hfree : q.settling = none := by simpa using hsettling
        have hall : q.retained.Perm
            ((q.queue.move (.deliver index)).retained ++ [action]) := by
          rw [ChargedQueue.retained, hfree, Option.toList_none, List.append_nil]
          exact hperm.trans (List.perm_append_singleton _ _).symm
        have hflushed : flushed = true :=
          hformed.queue.flushed _ (List.mem_of_getElem? hget) (List.cons_ne_nil _ _)
        refine h.same { q with
          queue := q.queue.move (.deliver index), settling := some action } hstage hstage
            ?_ ?_ rfl rfl rfl
        · refine hformed.congr (hqueue fun _ _ => by simp) hadmitted ?_ ?_ (hidle _)
          · exact fun action' haction => hall.mem_iff.mpr haction
          · intro _
            rw [Queue.flushes, hhooks, List.countP_cons, hflushed]
            simp
        · exact grants_perm q { q with
            queue := q.queue.move (.deliver index), settling := some action } [] rfl rfl hall
      next => exact h
    | leave index =>
      simp only [ChargedQueue.move, step_eq_move hfinalized]
      split
      next dependents status flushed hget =>
        obtain ⟨hperm, hadmitted, hhooks⟩ := retained_leave hget
        split_ifs with hbusy
        · exact h
        refine h.same { q with queue := q.queue.move (.leave index) } hstage hstage
            ?_ ?_ rfl rfl rfl
        · refine hformed.congr (hqueue fun _ _ => by simp) hadmitted ?_ ?_ (hidle _)
          · intro action' haction
            exact (hperm.append_right q.settling.toList).mem_iff.mpr haction
          · intro hsettling
            have hpositive := hformed.settling hsettling
            have hquiet : flushed = false := by
              have hsome : q.settling.isSome = true := Option.isSome_iff_ne_none.mpr hsettling
              simpa [hsome] using hbusy
            rcases hhooks with hhooks | hhooks
            · rw [flushes_congr hhooks]
              exact hpositive
            · rw [Queue.flushes, hhooks]
              rw [flushes_perm hget, hquiet] at hpositive
              simpa using hpositive
        · exact grants_perm q { q with queue := q.queue.move (.leave index) } [] rfl rfl
            (hperm.append_right q.settling.toList)
      next => exact h
    | _ => cases hkeeps

theorem Balanced.settle (hsettling : q.settling = some action) :
    Balanced limits (actionRelease c { q with settling := none } (q.charge action)).1
      (actionRelease c { q with settling := none } (q.charge action)).2 bytes number := by
  obtain ⟨hformed, -⟩ := h.live hstage
  have hretained : q.retained.Perm (action :: q.queue.retained) := by
    rw [ChargedQueue.retained, hsettling]
    exact List.perm_append_singleton _ _
  refine h.release { q with settling := none } hstage hstage ?_ ?_ rfl rfl rfl
  · refine grants_perm q { q with settling := none } [action] rfl rfl ?_
    simpa [ChargedQueue.retained] using hretained
  · refine hformed.congr hformed.queue rfl ?_ ?_ ?_
    · intro action' haction
      rw [Option.toList_none, List.append_nil] at haction
      exact hretained.mem_iff.mpr (List.mem_cons_of_mem _ haction)
    · exact fun hne => absurd rfl hne
    · exact hformed.admission

/-- **Only the identity is left** of a queue that is finalized. -/
theorem Balanced.finalize (hfinalized : q.queue.finalized ≠ 0) :
    Balanced limits (q.finalize c).1 (q.finalize c).2 bytes number := by
  obtain ⟨hformed, -, hreserved, hactions⟩ := h.live hstage
  obtain ⟨hempty, hhooks⟩ := hformed.queue.nothing_left hfinalized
  have hsettling : q.settling = none := by
    by_contra hne
    have hflushes := hformed.settling hne
    rw [Queue.flushes, hhooks] at hflushes
    exact hflushes rfl
  have hnone : q.admission = none := by
    cases hadmission : q.admission with
    | none => rfl
    | some a => exact absurd (hformed.admission a hadmission).1 hfinalized
  have hgrants : q.grants = [] := by
    simp [ChargedQueue.grants, ChargedQueue.entering, ChargedQueue.retained, Queue.retained, hempty,
      hhooks, hsettling, hnone]
  rw [hgrants, List.sum_nil, Nat.add_zero] at hreserved
  rw [hgrants, List.length_nil] at hactions
  have hle : q.identityCharge ≤ c.interactionReservedBytes := by omega
  simp only [ChargedQueue.finalize, hempty, List.foldl_nil, decrementBytes_of_le hle]
  have hfits := h.fits
  refine ⟨⟨hnone, hsettling⟩, ?_, hactions, ?_, h.others⟩
  · show c.interactionReservedBytes - q.identityCharge = 0 + bytes
    omega
  · show c.interactionReservedBytes - q.identityCharge ≤ limits.maxReservedBytesTotal
    omega

end

theorem Balanced.created (h : Balanced limits c q bytes number) (hstage : q.stage = .opening)
    (status : Status) :
    Balanced limits (q.step limits c (.created status)).1 (q.step limits c (.created status)).2
      bytes number := by
  obtain ⟨hledger, hreserved, hactions, hfits, hothers⟩ := h
  have htotal := limits.total_lt
  rw [Ledger, hstage] at hledger
  obtain ⟨hopening, hle⟩ := hledger
  rw [ChargedQueue.held, hstage] at hreserved
  rw [ChargedQueue.count, hstage] at hactions
  simp only at hreserved hactions
  simp only [ChargedQueue.step, hstage, ne_eq, not_true_eq_false, if_false]
  split_ifs with hstatus
  · rw [hopening]
    refine .of_live rfl ⟨.create, rfl, ?_, ?_, ?_, ?_⟩ ⟨rfl, rfl, hle⟩ hreserved hactions hfits
      hothers
    · exact fun action haction => by cases haction
    · exact fun charge hcharge => by cases hcharge
    · exact fun hne => absurd rfl hne
    · exact fun a ha => by cases ha
  · have hsub : wordSub c.interactionReservedBytes q.identityCharge =
        c.interactionReservedBytes - q.identityCharge := wordSub_of_le (by omega) (by omega)
    have hidle : q.admission = none ∧ q.settling = none := by
      rw [hopening]
      exact ⟨rfl, rfl⟩
    refine ⟨hidle, ?_, hactions, ?_, hothers⟩
    · show wordSub c.interactionReservedBytes q.identityCharge = 0 + bytes
      omega
    · show wordSub c.interactionReservedBytes q.identityCharge ≤ limits.maxReservedBytesTotal
      omega

theorem live_of_some (h : Ledger limits q) (hsome : q.admission ≠ none ∨ q.settling ≠ none) :
    q.stage = .live := by
  rw [Ledger] at h
  cases hstage : q.stage with
  | live => rfl
  | gone =>
    rw [hstage] at h
    rcases hsome with hne | hne
    · exact absurd h.1 hne
    · exact absurd h.2 hne
  | opening =>
    rw [hstage] at h
    obtain ⟨hopening, -⟩ := h
    rw [hopening] at hsome
    rcases hsome with hne | hne
    · exact absurd rfl hne
    · exact absurd rfl hne

/-- **Every step of a queue keeps the balance.** -/
theorem step_balanced (h : Balanced limits c q bytes number) (move : QueueMove) :
    Balanced limits (q.step limits c move).1 (q.step limits c move).2 bytes number := by
  cases move with
  | created status =>
    by_cases hstage : q.stage = .opening
    · exact h.created hstage status
    · simp only [ChargedQueue.step, hstage, ne_eq, not_false_eq_true, if_true]
      exact h
  | enter env operation sizes =>
    simp only [ChargedQueue.step]
    split_ifs with hfree
    · exact h.enter hfree.1 hfree.2.1 hfree.2.2 env operation sizes
    · exact h
  | finish storage submit =>
    simp only [ChargedQueue.step]
    split
    next a hsome =>
      exact h.finish (live_of_some h.ledger (Or.inl (by simp [hsome]))) hsome storage submit
    next => exact h
  | move move =>
    simp only [ChargedQueue.step]
    split_ifs with hfree
    · exact h.move hfree.1 hfree.2.1 hfree.2.2
    · exact h
  | settle =>
    simp only [ChargedQueue.step]
    split
    next action hsettling hnone =>
      exact h.settle (live_of_some h.ledger (Or.inr (by simp [hsettling]))) hsettling
    next => exact h
  | finalize =>
    simp only [ChargedQueue.step]
    split_ifs with hdone
    · exact h.finalize hdone.1 hdone.2
    · exact h

/-! ## Clients -/

/-- The counters of a client are the sums over its queues, and within its limits. -/
structure Sums (limits : BudgetLimits) (s : Client) : Prop where
  ledgers : ∀ q ∈ s.queues, Ledger limits q
  reserved : s.counters.interactionReservedBytes = (s.queues.map ChargedQueue.held).sum
  actions : s.counters.interactionActions = (s.queues.map ChargedQueue.count).sum
  fits : s.counters.interactionReservedBytes ≤ limits.maxReservedBytesTotal

theorem sum_count_le {queues : List ChargedQueue} (h : ∀ q ∈ queues, Ledger limits q) :
    (queues.map ChargedQueue.count).sum ≤ (queues.map ChargedQueue.held).sum := by
  induction queues with
  | nil => simp
  | cons q queues ih =>
    have hq := count_le_held (h q List.mem_cons_self)
    have hqueues := ih fun q hq => h q (List.mem_cons_of_mem _ hq)
    rw [List.map_cons, List.map_cons, List.sum_cons, List.sum_cons]
    omega

variable {s : Client}

theorem Sums.balanced (h : Sums limits s) {before after : List ChargedQueue}
    (hsplit : s.queues = before ++ q :: after) :
    Balanced limits s.counters q
      ((before.map ChargedQueue.held).sum + (after.map ChargedQueue.held).sum)
      ((before.map ChargedQueue.count).sum + (after.map ChargedQueue.count).sum) := by
  obtain ⟨hledgers, hreserved, hactions, hfits⟩ := h
  rw [hsplit] at hledgers hreserved hactions
  simp only [List.map_append, List.map_cons, List.sum_append, List.sum_cons] at hreserved hactions
  have hbefore := sum_count_le fun q hq => hledgers q (List.mem_append_left _ hq)
  have hafter := sum_count_le fun q hq =>
    hledgers q (List.mem_append_right _ (List.mem_cons_of_mem _ hq))
  exact ⟨hledgers q (List.mem_append_right _ List.mem_cons_self), by omega, by omega, hfits,
    by omega⟩

theorem Sums.set (h : Sums limits s) {before after : List ChargedQueue}
    (hsplit : s.queues = before ++ q :: after)
    (hnew : Balanced limits c q'
      ((before.map ChargedQueue.held).sum + (after.map ChargedQueue.held).sum)
      ((before.map ChargedQueue.count).sum + (after.map ChargedQueue.count).sum)) :
    Sums limits { counters := c, queues := before ++ q' :: after } := by
  obtain ⟨hledger, hreserved, hactions, hfits, -⟩ := hnew
  refine ⟨?_, ?_, ?_, hfits⟩
  · intro p hp
    rcases List.mem_append.mp hp with hp | hp
    · exact h.ledgers p (by rw [hsplit]; exact List.mem_append_left _ hp)
    · rcases List.mem_cons.mp hp with rfl | hp
      · exact hledger
      · exact h.ledgers p (by
          rw [hsplit]
          exact List.mem_append_right _ (List.mem_cons_of_mem _ hp))
  · simp only [List.map_append, List.map_cons, List.sum_append, List.sum_cons]
    omega
  · simp only [List.map_append, List.map_cons, List.sum_append, List.sum_cons]
    omega

theorem Sums.create : Sums limits Client.create :=
  ⟨fun q hq => (by cases hq), rfl, rfl, Nat.zero_le _⟩

theorem Sums.openQueue (h : Sums limits s) (identityCharge : Nat) :
    Sums limits (s.openQueue limits identityCharge).2 := by
  obtain ⟨hledgers, hreserved, hactions, hfits⟩ := h
  have htotal := limits.total_lt
  simp only [Client.openQueue, wordSub_of_le hfits htotal]
  split_ifs with hzero hfull hqueue
  · exact ⟨hledgers, hreserved, hactions, hfits⟩
  · exact ⟨hledgers, hreserved, hactions, hfits⟩
  · exact ⟨hledgers, hreserved, hactions, hfits⟩
  · have hadd : wordAdd s.counters.interactionReservedBytes identityCharge =
        s.counters.interactionReservedBytes + identityCharge := wordAdd_of_lt (by omega)
    refine ⟨?_, ?_, ?_, ?_⟩
    · intro q hq
      rcases List.mem_append.mp hq with hq | hq
      · exact hledgers q hq
      · rw [List.mem_singleton.mp hq]
        exact ⟨rfl, by simp only [ChargedQueue.opening]; omega⟩
    · show wordAdd s.counters.interactionReservedBytes identityCharge = _
      rw [hadd, hreserved, List.map_append, List.sum_append, List.map_singleton, List.sum_singleton]
      rfl
    · simp only [hactions, List.map_append, List.map_singleton, List.sum_append, List.sum_singleton]
      rfl
    · simp only [hadd]
      omega

/-- **Every step of a client** keeps its counters the sums of what its queues hold. -/
theorem sums_step (h : Sums limits s) (move : ClientMove) :
    Sums limits (s.step limits move) := by
  cases move with
  | openQueue identityCharge => exact h.openQueue identityCharge
  | queue index move =>
    simp only [Client.step]
    cases hget : s.queues[index]? with
    | none => exact h
    | some q =>
      obtain ⟨before, after, hsplit, hset, -⟩ := exists_split hget
      simp only [hset]
      exact h.set hsplit (step_balanced (h.balanced hsplit) move)

/-! ## Admissions among others -/

/-- The move ends the admission of a queue. -/
def ClientMove.finishes (index : Nat) : ClientMove → Bool
  | .queue i (.finish _ _) => decide (i = index)
  | _ => false

/-- A queue but for its cancellations. -/
def ChargedQueue.canceling (q : ChargedQueue) (canceled : List Nat) : ChargedQueue :=
  { q with queue := { q.queue with canceled } }

theorem step_entered (hsome : q.admission = some a) (hstage : q.stage = .live)
    (hfinalized : q.queue.finalized = 0) {move : QueueMove}
    (hmove : ∀ storage submit, move ≠ .finish storage submit) :
    ∃ canceled, q.step limits c move = (c, q.canceling canceled) := by
  have hsame : ∃ canceled, (c, q) = (c, q.canceling canceled) := ⟨q.queue.canceled, rfl⟩
  cases move with
  | created status => simpa [ChargedQueue.step, hstage] using hsame
  | enter env operation sizes => simpa [ChargedQueue.step, hsome] using hsame
  | finish storage submit => exact absurd rfl (hmove storage submit)
  | settle =>
    simp only [ChargedQueue.step]
    split
    next action hsettling hnone =>
      rw [hsome] at hnone
      cases hnone
    next => exact hsame
  | finalize => simpa [ChargedQueue.step, hfinalized] using hsame
  | move move =>
    cases move with
    | cancel target =>
      have hmoved : q.step limits c (.move (.cancel target)) =
          (c, { q with queue := q.queue.move (.cancel target) }) := by
        simp [ChargedQueue.step, ChargedQueue.move, hstage, hfinalized, Move.isCancel,
          step_eq_move hfinalized]
      rw [hmoved, Queue.move]
      split
      · exact ⟨target :: q.queue.canceled, rfl⟩
      · exact hsame
    | _ => simpa [ChargedQueue.step, hsome, Move.isCancel] using hsame

theorem clientStep_entered {index : Nat}
    (hget : s.queues[index]? = some q) (hsome : q.admission = some a) (hstage : q.stage = .live)
    (hfinalized : q.queue.finalized = 0) {move : ClientMove} (hmove : move.finishes index = false) :
    ∃ canceled, (s.step limits move).queues[index]? = some (q.canceling canceled) := by
  have hlt : index < s.queues.length := (List.getElem?_eq_some_iff.mp hget).1
  have hsame : ∃ canceled, s.queues[index]? = some (q.canceling canceled) :=
    ⟨q.queue.canceled, hget⟩
  cases move with
  | openQueue identityCharge =>
    simp only [Client.step, Client.openQueue]
    split_ifs
    · exact hsame
    · exact hsame
    · exact hsame
    · rw [List.getElem?_append_left hlt]
      exact hsame
  | queue i move =>
    simp only [Client.step]
    by_cases hi : i = index
    · subst hi
      have hother : ∀ storage submit, move ≠ .finish storage submit := by
        intro storage submit heq
        rw [heq] at hmove
        simp [ClientMove.finishes] at hmove
      obtain ⟨canceled, heq⟩ :
          ∃ canceled, q.step limits s.counters move = (s.counters, q.canceling canceled) :=
        step_entered hsome hstage hfinalized hother
      simp only [hget, heq]
      exact ⟨canceled, List.getElem?_set_self hlt⟩
    · cases hother : s.queues[i]? with
      | none => exact hsame
      | some p =>
        simp only
        rw [List.getElem?_set_ne hi]
        exact hsame

theorem run_entered {index : Nat} {others : List ClientMove}
    (hothers : ∀ move ∈ others, move.finishes index = false) (hget : s.queues[index]? = some q)
    (hsome : q.admission = some a) (hstage : q.stage = .live)
    (hfinalized : q.queue.finalized = 0) :
    ∃ canceled,
      (others.foldl (Client.step limits) s).queues[index]? = some (q.canceling canceled) := by
  induction others generalizing s q with
  | nil => exact ⟨q.queue.canceled, hget⟩
  | cons move others ih =>
    obtain ⟨canceled, hstep⟩ :
        ∃ canceled, (s.step limits move).queues[index]? = some (q.canceling canceled) :=
      clientStep_entered hget hsome hstage hfinalized (hothers move List.mem_cons_self)
    obtain ⟨canceled', hrun⟩ := ih (q := q.canceling canceled)
      (fun m hm => hothers m (List.mem_cons_of_mem _ hm)) hstep hsome hstage hfinalized
    exact ⟨canceled', hrun⟩

/-- A call that admits an answer, with what the others do while it holds the lock of its queue:
its status, and the client that it leaves. -/
def Client.call (limits : BudgetLimits) (s : Client) (index : Nat) (env : Environment)
    (operation : Operation) (sizes : RequestSizes) (others : List ClientMove)
    (storage submit : Status) : Option (Status × Client) := do
  let q ← s.queues[index]?
  let status := (q.enter limits s.counters env operation sizes).1
  let s := s.step limits (.queue index (.enter env operation sizes))
  if status ≠ .ok then
    return (status, s)
  let s := others.foldl (Client.step limits) s
  let q ← s.queues[index]?
  let admission ← q.admission
  let status := (q.finish s.counters admission storage submit).1
  return (status, s.step limits (.queue index (.finish storage submit)))

/-- The budget of a client: its counters are what its queues hold, and no limit is exceeded.  So
the differences between a limit and a counter, and between a counter and what is released, are
those of the numbers. -/
structure WithinBudget (limits : BudgetLimits) (s : Client) : Prop where
  /-- The reserved bytes are the identities of the queues and the charges that they hold. -/
  reserved : s.counters.interactionReservedBytes = (s.queues.map ChargedQueue.held).sum
  actions : s.counters.interactionActions = (s.queues.map ChargedQueue.count).sum
  reserved_le : s.counters.interactionReservedBytes ≤ limits.maxReservedBytesTotal
  queue_reserved : ∀ q ∈ s.queues, q.stage = .live →
    q.reservedBytes = q.identityCharge + q.grants.sum ∧ q.actionCount = q.grants.length ∧
      q.reservedBytes ≤ limits.maxReservedBytesPerQueue
  /-- What is released is there. -/
  charge_le : ∀ q ∈ s.queues, q.stage = .live → ∀ charge ∈ q.grants,
    charge ≤ q.reservedBytes ∧ charge ≤ s.counters.interactionReservedBytes ∧
      0 < q.actionCount ∧ 0 < s.counters.interactionActions
  identity_le : ∀ q ∈ s.queues, q.stage ≠ .gone →
    q.identityCharge ≤ s.counters.interactionReservedBytes

theorem Sums.withinBudget (h : Sums limits s) : WithinBudget limits s where
  reserved := h.reserved
  actions := h.actions
  reserved_le := h.fits
  queue_reserved := by
    intro q hq hstage
    obtain ⟨before, after, hsplit⟩ := List.append_of_mem hq
    obtain ⟨-, ⟨hbytes, hcount, hle⟩, -⟩ := (h.balanced hsplit).live hstage
    exact ⟨hbytes, hcount, hle⟩
  charge_le := by
    intro q hq hstage charge hcharge
    obtain ⟨before, after, hsplit⟩ := List.append_of_mem hq
    obtain ⟨hpos, hle, hcle, hcpos⟩ := (h.balanced hsplit).covers hstage hcharge
    exact ⟨hle, hcle, hpos, hcpos⟩
  identity_le := by
    intro q hq hstage
    obtain ⟨before, after, hsplit⟩ := List.append_of_mem hq
    have hreserved := (h.balanced hsplit).reserved
    rw [ChargedQueue.held] at hreserved
    cases hstage' : q.stage with
    | opening =>
      simp only [hstage'] at hreserved
      omega
    | live =>
      simp only [hstage'] at hreserved
      omega
    | gone => exact absurd hstage' hstage

/-- What a call leaves behind that admits an answer to a live queue: it returns and stays within
the budget, and where it fails the queue is as it was, but for cancellations that came meanwhile.
Where nobody else has moved, that is the whole client. -/
def AllOrNothing (limits : BudgetLimits) (s : Client) : Prop :=
  ∀ index q env operation sizes others storage submit,
    s.queues[index]? = some q → q.stage = .live → q.queue.finalized = 0 → q.admission = none →
    (∀ move ∈ others, ClientMove.finishes index move = false) →
    ∃ status s', s.call limits index env operation sizes others storage submit = some (status, s') ∧
      WithinBudget limits s' ∧
      (status ≠ .ok → (∃ canceled, s'.queues[index]? = some (q.canceling canceled)) ∧
          (others = [] → s'.queues = s.queues ∧ SameSums s.counters s'.counters))

theorem sums_run (h : Sums limits s) (moves : List ClientMove) :
    Sums limits (moves.foldl (Client.step limits) s) := by
  induction moves generalizing s with
  | nil => exact h
  | cons move moves ih => exact ih (sums_step h move)

theorem release_entered (hnone : q.admission = none) (canceled : List Nat)
    (hreserved : a.reservedBytes ≤ c.interactionReservedBytes)
    (hactions : 0 < c.interactionActions) :
    (actionRelease c { (q.entered a).canceling canceled with admission := none }
        a.reservedBytes).2 = q.canceling canceled ∧
      (actionRelease c { (q.entered a).canceling canceled with admission := none }
        a.reservedBytes).1.interactionReservedBytes = c.interactionReservedBytes - a.reservedBytes ∧
      (actionRelease c { (q.entered a).canceling canceled with admission := none }
        a.reservedBytes).1.interactionActions = c.interactionActions - 1 := by
  rw [actionRelease_eq (Nat.succ_pos _) (Nat.le_add_left _ _) hreserved hactions]
  refine ⟨?_, rfl, rfl⟩
  simp only [ChargedQueue.canceling, ChargedQueue.entered, Nat.add_sub_cancel, ← hnone]

/-- **Admission is all or nothing**, in every run of a client: a call that fails leaves the
actions, the states, the flags and the counters as they were, and the counters are what the
queues hold, within the limits. -/
theorem admission_all_or_nothing {limits : BudgetLimits} {s : Client}
    (h : Machine.Reach (Client.step limits) (fun _ _ => True) Client.create s) :
    WithinBudget limits s ∧ AllOrNothing limits s := by
  have hsums : Sums limits s := h.invariant Sums.create fun s move hs _ => sums_step hs move
  refine ⟨hsums.withinBudget, ?_⟩
  intro index q env operation sizes others storage submit hget hstage hfinalized hnone hothers
  obtain ⟨before, after, hsplit, hset, -⟩ := exists_split hget
  have hbalanced := hsums.balanced hsplit
  have hlt : index < s.queues.length := (List.getElem?_eq_some_iff.mp hget).1
  have henter : s.step limits (.queue index (.enter env operation sizes)) =
      { counters := (q.enter limits s.counters env operation sizes).2.1
        queues := s.queues.set index (q.enter limits s.counters env operation sizes).2.2 } := by
    simp [Client.step, hget, ChargedQueue.step, hstage, hfinalized, hnone]
  have hentered := sums_step hsums (.queue index (.enter env operation sizes))
  have hself : s.queues.set index q = s.queues := by
    rw [hset, hsplit]
  rcases enter_cases hbalanced hstage env operation sizes with
    ⟨status, c', hstatus, heq, hsame⟩ |
      ⟨a, c', heq, hadmissible, hfits, hpos, hreserved, hactions, -, -⟩
  · -- the call is refused before anything is charged
    refine ⟨status, s.step limits (.queue index (.enter env operation sizes)), ?_,
      hentered.withinBudget, fun _ => ?_⟩
    · simp [Client.call, hget, heq, hstatus]
    · rw [henter, heq]
      refine ⟨⟨q.queue.canceled, ?_⟩, fun _ => ⟨hself, hsame⟩⟩
      exact List.getElem?_set_self hlt
  · -- the entry is charged, and the others move before the call goes on
    have hget' : (s.step limits (.queue index (.enter env operation sizes))).queues[index]? =
        some (q.entered a) := by
      rw [henter, heq]
      exact List.getElem?_set_self hlt
    obtain ⟨canceled, hrun⟩ := run_entered hothers hget' rfl hstage
      hfinalized
    have hlater := sums_run hentered others
    generalize hs₂ : others.foldl (Client.step limits)
      (s.step limits (.queue index (.enter env operation sizes))) = s₂ at hrun hlater
    have hlt₂ : index < s₂.queues.length := (List.getElem?_eq_some_iff.mp hrun).1
    have hfinish : s₂.step limits (.queue index (.finish storage submit)) =
        { counters := (((q.entered a).canceling canceled).finish s₂.counters a storage submit).2.1
          queues := s₂.queues.set index
            (((q.entered a).canceling canceled).finish s₂.counters a storage submit).2.2 } := by
      simp [Client.step, hrun, ChargedQueue.step, ChargedQueue.canceling, ChargedQueue.entered]
    have hfinished := sums_step hlater (.queue index (.finish storage submit))
    refine ⟨(((q.entered a).canceling canceled).finish s₂.counters a storage submit).1,
      s₂.step limits (.queue index (.finish storage submit)), ?_,
      hfinished.withinBudget, fun hfailed => ?_⟩
    · simp only [Client.call, hget, heq, hs₂, hrun, Option.bind_eq_bind, Option.bind_some,
        ne_eq, not_true_eq_false, if_false]
      rfl
    · obtain ⟨before₂, after₂, hsplit₂, -, -⟩ := exists_split hrun
      have hbalanced₂ := hlater.balanced hsplit₂
      obtain ⟨hformed₂, -⟩ := hbalanced₂.live hstage
      obtain ⟨-, hadmissible₂, hfits₂, -⟩ := hformed₂.admission a rfl
      have hmem : a.reservedBytes ∈ ((q.entered a).canceling canceled).grants := by
        simp [ChargedQueue.grants, ChargedQueue.entering, ChargedQueue.entered,
          ChargedQueue.canceling]
      obtain ⟨-, -, hle, hcount⟩ := hbalanced₂.covers hstage hmem
      obtain ⟨hqueue, hbytes, hnumber⟩ := release_entered hnone canceled hle hcount
      rcases chargedFinish_cases (c := s₂.counters) hformed₂.queue.phase hadmissible₂ hfits₂
        storage submit with ⟨status, hstatus, hfin⟩ | hfin
      · rw [hfinish, hfin]
        simp only [hqueue]
        refine ⟨⟨canceled, List.getElem?_set_self hlt₂⟩, ?_⟩
        intro halone
        subst halone
        have hs : s₂ = { counters := c', queues := s.queues.set index (q.entered a) } := by
          rw [← hs₂, List.foldl_nil, henter, heq]
        have hsame : q.canceling canceled = q := by
          rw [hs, List.getElem?_set_self hlt, Option.some.injEq] at hrun
          have hcanceled := congrArg (fun q : ChargedQueue => q.queue.canceled) hrun
          rw [show canceled = q.queue.canceled from hcanceled.symm]
          rfl
        have hcounters : s₂.counters = c' := by rw [hs]
        refine ⟨?_, ?_, ?_⟩
        · rw [hsame, hs, List.set_set, hself]
        · rw [hbytes, hcounters, hreserved, Nat.add_sub_cancel]
        · rw [hnumber, hcounters, hactions, Nat.add_sub_cancel]
      · rw [hfin] at hfailed
        exact absurd rfl hfailed

/-- The limits of a client that takes one answer at a time for each interaction. -/
def oneAnswer : BudgetLimits where
  maxActionsPerQueue := 1
  maxReservedBytesPerQueue := 1000
  maxReservedBytesTotal := 1500
  storageSize := 400
  total_lt := by decide
  perQueue_le_total := by decide
  storage_pos := by decide
  storage_lt := by decide

/-- Two interactions, and a deferral of the first one whose submission the runtime refuses while
the second one is deferred. -/
def twoInteractions : List ClientMove :=
  [.openQueue 100, .queue 0 (.created .ok), .openQueue 100, .queue 1 (.created .ok),
    .queue 0 (.enter .fine (.defer false false) ⟨40, some 10⟩),
    .queue 1 (.enter .fine (.defer false false) ⟨40, some 10⟩),
    .queue 0 (.finish .ok .network), .queue 1 (.finish .ok .ok)]

theorem admission_all_or_nothing_twoInteractions :
    (twoInteractions.foldl (Client.step oneAnswer) .create).counters.interactionReservedBytes =
        652 ∧
      ((twoInteractions.foldl (Client.step oneAnswer) .create).call oneAnswer 1 .fine
        (.followup true) ⟨40, some 10⟩ [] .ok .ok).map Prod.fst = some .resourceLimit ∧
      WithinBudget oneAnswer (twoInteractions.foldl (Client.step oneAnswer) .create) ∧
      AllOrNothing oneAnswer (twoInteractions.foldl (Client.step oneAnswer) .create) :=
  ⟨by decide, by decide, admission_all_or_nothing (Machine.Reach.start.run (by
    simp [Machine.Permitted, twoInteractions]))⟩

end Dcc.Flow
