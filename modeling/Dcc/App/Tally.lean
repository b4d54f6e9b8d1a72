import Dcc.Lib.Stacks
import Dcc.App.Listener

/-!
# A listener and the operations on it

The flags and counters of a listener are compared with the operations on the stacks of
the tasks: what is in flight, who detaches, who finalizes, and who will still finalize.

* `Flying`, `Detaching`, `Finalizing`, `Removal` — the four parts of this comparison;
* `detachStep_cases`, `finalizeStep_cases` — what the two shared functions can do;
* `Sound.detach`, `Sound.finalize` — what their steps do to the comparison.
-/

namespace Dcc.App

open Stacks

/-! ## Kinds of operations -/

def DetachPhase.isCalling : DetachPhase → Bool
  | .calling => true
  | _ => false

/-- The function has set `detach_started` and not yet `detach_done`. -/
def DetachPhase.isBusy : DetachPhase → Bool
  | .calling | .called _ => true
  | _ => false

def FinalizePhase.isDetaching : FinalizePhase → Bool
  | .detaching _ => true
  | _ => false

/-- The function has set `finalize_started` and not yet `finalize_done`. -/
def FinalizePhase.isBusy : FinalizePhase → Bool
  | .detaching _ | .cleaning _ => true
  | _ => false

/-- The source that is detached on behalf of a finalization. -/
def FinalizePhase.detach? : FinalizePhase → Option DetachPhase
  | .detaching phase => some phase
  | _ => none

/-- Where the operation is in the finalization of a listener. -/
def Op.finalizeOn (listener : Nat) : Op → Option FinalizePhase
  | .dispatch other (.finalizing phase) | .unlisten other (.finalizing phase)
  | .destroyAll (.finalizing other phase _) => if other = listener then some phase else none
  | _ => none

/-- Where the operation is in the detachment of the source of a listener. -/
def Op.detachOn (listener : Nat) : Op → Option DetachPhase
  | .dispatch other (.claimed phase) | .unlisten other (.detaching _ phase)
  | .destroyAll (.detaching other phase _) => if other = listener then some phase else none
  | op => (op.finalizeOn listener).bind FinalizePhase.detach?

/-- The operation holds the listener in flight. -/
def Op.flies (listener : Nat) : Op → Bool
  | .dispatch _ (.finalizing _) => false
  | .dispatch other _ => other == listener
  | _ => false

def Op.runs (listener : Nat) : Op → Bool
  | .dispatch other .running => other == listener
  | _ => false

/-- The operation is before the call of the handler. -/
def Op.isFresh (listener : Nat) : Op → Bool
  | .dispatch other (.claimed _) | .dispatch other .acquired | .dispatch other .entered =>
    other == listener
  | _ => false

def Op.calls (listener : Nat) (op : Op) : Bool := (op.detachOn listener).any DetachPhase.isCalling

def Op.detaches (listener : Nat) (op : Op) : Bool := (op.detachOn listener).any DetachPhase.isBusy

def Op.finalizes (listener : Nat) (op : Op) : Bool := (op.finalizeOn listener).isSome

def Op.precleans (listener : Nat) (op : Op) : Bool :=
  (op.finalizeOn listener).any FinalizePhase.isDetaching

def Op.cleans (listener : Nat) (op : Op) : Bool :=
  (op.finalizeOn listener).any FinalizePhase.isBusy

/-- The operation works on a listener that was removed. -/
def Op.touches (listener : Nat) : Op → Bool
  | .dispatch other (.claimed _) | .dispatch other (.finalizing _) => other == listener
  | .unlisten other _ => other == listener
  | .destroyAll (.detaching other _ rest) | .destroyAll (.waiting other rest)
  | .destroyAll (.finalizing other _ rest) => (other :: rest).contains listener
  | _ => false

/-- The operation will still come to finalize the listener; the first loop of
`dcc_app_listener_destroy_all` comes to every listener that was removed. -/
def Op.pursues (listener : Nat) : Op → Bool
  | .dispatch other (.finalizing .enter) | .unlisten other (.finalizing .enter)
  | .unlisten other .waiting | .unlisten other (.detaching false _) => other == listener
  | .destroyAll (.detaching _ _ _) => true
  | .destroyAll (.waiting other rest) | .destroyAll (.finalizing other .enter rest) =>
    (other :: rest).contains listener
  | .destroyAll (.finalizing _ _ rest) => rest.contains listener
  | _ => false

/-- The operation is about the listener. -/
def Op.mentions (listener : Nat) (op : Op) : Bool :=
  op.touches listener || op.flies listener

/-! ## The comparison -/

/-- The operations of a kind in all tasks. -/
def Listening.count (app : Listening) (p : Op → Bool) : Nat := Stacks.count p app.tasks

section Parts

variable (count : (Op → Bool) → Nat) (listener : Nat) (entry : Entry)

/-- What is in flight and what runs; a listener for one time is claimed once. -/
structure Flying : Prop where
  flight : entry.inFlight = count (Op.flies listener)
  running : entry.running = count (Op.runs listener)
  once : entry.once = true → entry.invoked + count (Op.isFresh listener) ≤ entry.fired.toNat

/-- The source is detached by the operation that has set `detach_started`. -/
structure Detaching : Prop where
  calls : entry.detaches + count (Op.calls listener) = entry.detachStarted.toNat
  busy : entry.detachDone.toNat + count (Op.detaches listener) = entry.detachStarted.toNat

/-- The cleanup is run by the operation that has set `finalize_started`, when nothing is in
flight any more and the source is detached. -/
structure Finalizing : Prop where
  cleans : entry.cleanups + count (Op.precleans listener) = entry.finalizeStarted.toNat
  busy : entry.finalizeDone.toNat + count (Op.cleans listener) = entry.finalizeStarted.toNat
  landed : entry.finalizeStarted = true ∨ 0 < count (Op.finalizes listener) → entry.inFlight = 0
  detached : 0 < entry.cleanups → entry.detachDone = true

/-- A listener that was removed is in the list of the retired ones, and somebody will
finalize it. -/
structure Removal (retired : Prop) : Prop where
  removed : entry.detachStarted = true ∨ entry.finalizeStarted = true ∨
    0 < count (Op.touches listener) ∨ entry.retired = true ∨ retired → entry.active = false
  retired : entry.active = false → entry.retired = true ∧ retired
  pursued : entry.active = false → entry.finalizeStarted = false →
    0 < entry.inFlight ∨ 0 < count (Op.pursues listener)

/-- All parts; `barred` stands for a `dcc_app_unlisten` that has returned. -/
structure Sound (retired barred : Prop) : Prop where
  flying : Flying count listener entry
  detaching : Detaching count listener entry
  finalizing : Finalizing count listener entry
  removal : Removal count listener entry retired
  barred : barred → entry.active = false ∧ entry.inFlight = 0

end Parts

/-- A `dcc_app_unlisten` that removed the listener, and was not called from a handler of it,
has returned. -/
def Barred (unlistened : List Unlistened) (listener : Nat) : Prop :=
  ∃ record ∈ unlistened, record.listener = listener ∧ record.own = false ∧
    record.status ≠ .invalidArg

/-- What holds between two steps. -/
structure Living (app : Listening) : Prop where
  sound : ∀ listener entry, app.entries[listener]? = some entry →
    Sound app.count listener entry (listener ∈ app.retired) (Barred app.unlistened listener)
  absent : ∀ listener, app.entries.length ≤ listener → app.count (Op.mentions listener) = 0 ∧
    listener ∉ app.retired ∧ ¬ Barred app.unlistened listener

/-! ## The shared functions -/

/-- How many phases of a kind an outcome leaves. -/
def Outcome.weight {φ : Type} (p : φ → Bool) : Outcome φ → Nat
  | .next phase => (p phase).toNat
  | .done _ => 0

section Shared

variable {count after : (Op → Bool) → Nat} {listener : Nat} {entry next : Entry} {wait : Bool}
  {result : Status}

/-- What one step of `dcc_app_listener_detach_source` can do. -/
theorem detachStep_cases {phase : DetachPhase} {outcome : Outcome DetachPhase}
    (h : detachStep entry wait result phase = some (next, outcome)) :
    (∃ status, next = entry ∧ outcome = .done status ∧ phase.isBusy = false ∧
      (entry.detachDone = true ∨ wait = false ∨ entry.source = .route ∧ entry.inFlight ≠ 0)) ∨
    (phase = .enter ∧ next = entry ∧ outcome = .next .waiting) ∨
    (phase = .enter ∧ entry.detachStarted = false ∧
      next = { entry with detachStarted := true } ∧ outcome = .next .calling) ∨
    (∃ status, phase = .calling ∧ next = { entry with detaches := entry.detaches + 1 } ∧
      outcome = .next (.called status)) ∨
    (∃ status, phase = .called status ∧
      next = { entry with detachStatus := status, detachDone := true } ∧
      outcome = .done status) := by
  cases phase with
  | enter =>
    simp only [detachStep] at h
    by_cases hdone : entry.detachDone = true
    · rw [if_pos hdone] at h
      cases h
      exact .inl ⟨_, rfl, rfl, rfl, .inl hdone⟩
    · rw [if_neg hdone] at h
      by_cases hstarted : entry.detachStarted = true
      · rw [if_pos hstarted] at h
        cases wait with
        | true =>
          cases h
          exact .inr (.inl ⟨rfl, rfl, rfl⟩)
        | false =>
          cases h
          exact .inl ⟨_, rfl, rfl, rfl, .inr (.inl rfl)⟩
      · rw [if_neg hstarted] at h
        by_cases hroute : entry.source = .route ∧ entry.inFlight ≠ 0
        · rw [if_pos hroute] at h
          cases h
          exact .inl ⟨_, rfl, rfl, rfl, .inr (.inr hroute)⟩
        · rw [if_neg hroute] at h
          cases h
          exact .inr (.inr (.inl ⟨rfl, by simpa using hstarted, rfl, rfl⟩))
  | calling =>
    cases h
    exact .inr (.inr (.inr (.inl ⟨_, rfl, rfl, rfl⟩)))
  | called status =>
    cases h
    exact .inr (.inr (.inr (.inr ⟨_, rfl, rfl, rfl⟩)))
  | waiting =>
    simp only [detachStep] at h
    split at h
    · rename_i hdone
      cases h
      exact .inl ⟨_, rfl, rfl, rfl, .inl hdone⟩
    · cases h

/-- What one step of `dcc_app_listener_finalize` can do. -/
theorem finalizeStep_cases {phase : FinalizePhase} {outcome : Outcome FinalizePhase}
    (h : finalizeStep entry wait result phase = some (next, outcome)) :
    (∃ status, next = entry ∧ outcome = .done status ∧ phase.isBusy = false ∧
      (entry.active = true ∨ entry.inFlight ≠ 0 ∨ entry.finalizeDone = true ∨
        entry.finalizeStarted = true)) ∨
    (phase = .enter ∧ next = entry ∧ outcome = .next .waiting ∧ entry.finalizeStarted = true) ∨
    (phase = .enter ∧ entry.inFlight = 0 ∧ entry.finalizeStarted = false ∧
      next = { entry with finalizeStarted := true } ∧ outcome = .next (.detaching .enter)) ∨
    (∃ inner inner', phase = .detaching inner ∧ outcome = .next (.detaching inner') ∧
      detachStep entry true result inner = some (next, .next inner')) ∨
    (∃ inner detached status, phase = .detaching inner ∧ outcome = .next (.cleaning status) ∧
      detachStep entry true result inner = some (detached, .done status) ∧
      next = { detached with cleanups := detached.cleanups + 1 }) ∨
    (∃ status, phase = .cleaning status ∧ outcome = .done status ∧
      next = { entry with finalizeStatus := status, finalizeDone := true }) := by
  cases phase with
  | enter =>
    simp only [finalizeStep] at h
    by_cases hbusy : entry.active = true ∨ entry.inFlight ≠ 0
    · rw [if_pos hbusy] at h
      cases h
      exact .inl ⟨_, rfl, rfl, rfl, hbusy.imp_right .inl⟩
    · rw [if_neg hbusy] at h
      by_cases hdone : entry.finalizeDone = true
      · rw [if_pos hdone] at h
        cases h
        exact .inl ⟨_, rfl, rfl, rfl, .inr (.inr (.inl hdone))⟩
      · rw [if_neg hdone] at h
        by_cases hstarted : entry.finalizeStarted = true
        · rw [if_pos hstarted] at h
          cases wait with
          | true =>
            cases h
            exact .inr (.inl ⟨rfl, rfl, rfl, hstarted⟩)
          | false =>
            cases h
            exact .inl ⟨_, rfl, rfl, rfl, .inr (.inr (.inr hstarted))⟩
        · rw [if_neg hstarted] at h
          cases h
          have hlanded : entry.inFlight = 0 := by
            by_contra hflying
            exact hbusy (.inr hflying)
          exact .inr (.inr (.inl ⟨rfl, hlanded, by simpa using hstarted, rfl, rfl⟩))
  | detaching inner =>
    simp only [finalizeStep] at h
    split at h
    · cases h
    · rename_i hinner
      cases h
      exact .inr (.inr (.inr (.inl ⟨_, _, rfl, rfl, hinner⟩)))
    · rename_i hinner
      cases h
      exact .inr (.inr (.inr (.inr (.inl ⟨_, _, _, rfl, rfl, hinner, rfl⟩))))
  | cleaning status =>
    cases h
    exact .inr (.inr (.inr (.inr (.inr ⟨_, rfl, rfl, rfl⟩))))
  | waiting =>
    simp only [finalizeStep] at h
    split at h
    · rename_i hdone
      cases h
      exact .inl ⟨_, rfl, rfl, rfl, .inr (.inr (.inl hdone))⟩
    · cases h

theorem detachStep_frame {phase : DetachPhase} {outcome : Outcome DetachPhase}
    (h : detachStep entry wait result phase = some (next, outcome)) :
    next = { entry with
      detachStarted := next.detachStarted
      detachDone := next.detachDone
      detachStatus := next.detachStatus
      detaches := next.detaches } ∧
    (entry.detachDone = true → next.detachDone = true) := by
  rcases detachStep_cases h with ⟨_, rfl, _⟩ | ⟨_, rfl, _⟩ | ⟨_, _, rfl, _⟩ | ⟨_, _, rfl, _⟩ |
    ⟨_, _, rfl, _⟩
  all_goals exact ⟨rfl, by simp⟩

theorem detachStep_done {phase : DetachPhase} {status : Status}
    (h : detachStep entry true result phase = some (next, .done status))
    (hlanded : entry.inFlight = 0) : next.detachDone = true := by
  rcases detachStep_cases h with ⟨_, rfl, _, _, hdone | hwait | hroute⟩ | ⟨_, _, hout⟩ |
    ⟨_, _, _, hout⟩ | ⟨_, _, _, hout⟩ | ⟨_, _, rfl, _⟩
  · exact hdone
  · cases hwait
  · exact absurd hlanded hroute.2
  · cases hout
  · cases hout
  · cases hout
  · rfl

theorem detachStep_detaching {phase : DetachPhase} {outcome : Outcome DetachPhase}
    (h : Detaching count listener entry)
    (hstep : detachStep entry wait result phase = some (next, outcome))
    (hcalls : after (Op.calls listener) + phase.isCalling.toNat =
      count (Op.calls listener) + outcome.weight DetachPhase.isCalling)
    (hbusy : after (Op.detaches listener) + phase.isBusy.toNat =
      count (Op.detaches listener) + outcome.weight DetachPhase.isBusy) :
    Detaching after listener next := by
  obtain ⟨hc, hb⟩ := h
  rcases detachStep_cases hstep with ⟨_, rfl, rfl, hidle, _⟩ | ⟨rfl, rfl, rfl⟩ |
    ⟨rfl, hstarted, rfl, rfl⟩ | ⟨_, rfl, rfl, rfl⟩ | ⟨_, rfl, rfl, rfl⟩
  · have hcalling : phase.isCalling = false := by
      cases phase <;> first | rfl | cases hidle
    simp only [hidle, hcalling, Outcome.weight, Bool.toNat_false, Nat.add_zero] at hcalls hbusy
    exact ⟨by rw [hcalls]; exact hc, by rw [hbusy]; exact hb⟩
  · simp only [DetachPhase.isCalling, DetachPhase.isBusy, Outcome.weight, Bool.toNat_false,
      Nat.add_zero] at hcalls hbusy
    exact ⟨by rw [hcalls]; exact hc, by rw [hbusy]; exact hb⟩
  · simp only [DetachPhase.isCalling, DetachPhase.isBusy, Outcome.weight, Bool.toNat_false,
      Bool.toNat_true, Nat.add_zero, hstarted] at hcalls hbusy hc hb
    exact ⟨by simp only [Bool.toNat_true]; omega, by simp only [Bool.toNat_true]; omega⟩
  · simp only [DetachPhase.isCalling, DetachPhase.isBusy, Outcome.weight, Bool.toNat_false,
      Bool.toNat_true, Nat.add_zero] at hcalls hbusy
    exact ⟨by simp only; omega, by simp only; omega⟩
  · simp only [DetachPhase.isCalling, DetachPhase.isBusy, Outcome.weight, Bool.toNat_false,
      Bool.toNat_true, Nat.add_zero] at hcalls hbusy
    have hle := Bool.toNat_le entry.detachStarted
    refine ⟨by simp only; omega, ?_⟩
    simp only [Bool.toNat_true]
    omega

/-- The phase is one of a detachment of some kind. -/
def FinalizePhase.inDetach (p : DetachPhase → Bool) (phase : FinalizePhase) : Bool :=
  phase.detach?.any p

theorem finalizeStep_frame {phase : FinalizePhase} {outcome : Outcome FinalizePhase}
    (h : finalizeStep entry wait result phase = some (next, outcome)) :
    next = { entry with
      detachStarted := next.detachStarted
      detachDone := next.detachDone
      detachStatus := next.detachStatus
      detaches := next.detaches
      finalizeStarted := next.finalizeStarted
      finalizeDone := next.finalizeDone
      finalizeStatus := next.finalizeStatus
      cleanups := next.cleanups } := by
  rcases finalizeStep_cases h with ⟨_, rfl, _⟩ | ⟨_, rfl, _⟩ | ⟨_, _, _, rfl, _⟩ |
    ⟨_, _, _, _, hinner⟩ | ⟨_, detached, _, _, _, hinner, rfl⟩ | ⟨_, _, _, rfl⟩
  · rfl
  · rfl
  · rfl
  · rw [(detachStep_frame hinner).1]
  · rw [(detachStep_frame hinner).1]
  · rfl

theorem finalizeStep_detaching {phase : FinalizePhase} {outcome : Outcome FinalizePhase}
    (h : Detaching count listener entry)
    (hstep : finalizeStep entry wait result phase = some (next, outcome))
    (hcalls : after (Op.calls listener) + (phase.inDetach DetachPhase.isCalling).toNat =
      count (Op.calls listener) + outcome.weight (FinalizePhase.inDetach DetachPhase.isCalling))
    (hbusy : after (Op.detaches listener) + (phase.inDetach DetachPhase.isBusy).toNat =
      count (Op.detaches listener) + outcome.weight (FinalizePhase.inDetach DetachPhase.isBusy)) :
    Detaching after listener next := by
  rcases finalizeStep_cases hstep with ⟨_, rfl, rfl, hidle, _⟩ | ⟨rfl, rfl, rfl, _⟩ |
    ⟨rfl, _, _, rfl, rfl⟩ | ⟨inner, inner', rfl, rfl, hinner⟩ |
    ⟨inner, detached, _, rfl, rfl, hinner, rfl⟩ | ⟨_, rfl, rfl, rfl⟩
  · have hnone : phase.detach? = none := by
      cases phase <;> first | rfl | cases hidle
    simp only [FinalizePhase.inDetach, hnone, Option.any_none, Outcome.weight, Bool.toNat_false,
      Nat.add_zero] at hcalls hbusy
    exact ⟨by rw [hcalls]; exact h.calls, by rw [hbusy]; exact h.busy⟩
  · exact ⟨by rw [show after _ = _ from hcalls]; exact h.calls,
      by rw [show after _ = _ from hbusy]; exact h.busy⟩
  · exact ⟨by rw [show after _ = _ from hcalls]; exact h.calls,
      by rw [show after _ = _ from hbusy]; exact h.busy⟩
  · exact detachStep_detaching h hinner hcalls hbusy
  · have hdetached : Detaching after listener detached :=
      detachStep_detaching h hinner hcalls hbusy
    exact ⟨hdetached.calls, hdetached.busy⟩
  · exact ⟨by rw [show after _ = _ from hcalls]; exact h.calls,
      by rw [show after _ = _ from hbusy]; exact h.busy⟩

theorem finalizeStep_finalizing {phase : FinalizePhase} {outcome : Outcome FinalizePhase}
    (h : Finalizing count listener entry)
    (hstep : finalizeStep entry wait result phase = some (next, outcome))
    (hpos : 0 < count (Op.finalizes listener))
    (hcleans : after (Op.precleans listener) + phase.isDetaching.toNat =
      count (Op.precleans listener) + outcome.weight FinalizePhase.isDetaching)
    (hbusy : after (Op.cleans listener) + phase.isBusy.toNat =
      count (Op.cleans listener) + outcome.weight FinalizePhase.isBusy) :
    Finalizing after listener next := by
  have hlanded : entry.inFlight = 0 := h.landed (.inr hpos)
  have hnext : next.inFlight = 0 := by
    rw [finalizeStep_frame hstep]
    exact hlanded
  have hle := Bool.toNat_le entry.finalizeStarted
  obtain ⟨hc, hb, _, hd⟩ := h
  rcases finalizeStep_cases hstep with ⟨_, rfl, rfl, hidle, _⟩ | ⟨rfl, rfl, rfl, _⟩ |
    ⟨rfl, _, hstarted, rfl, rfl⟩ | ⟨inner, inner', rfl, rfl, hinner⟩ |
    ⟨inner, detached, _, rfl, rfl, hinner, rfl⟩ | ⟨_, rfl, rfl, rfl⟩
  · have hdetaching : phase.isDetaching = false := by
      cases phase <;> first | rfl | cases hidle
    simp only [hidle, hdetaching, Outcome.weight, Bool.toNat_false, Nat.add_zero] at hcleans hbusy
    exact ⟨by rw [hcleans]; exact hc, by rw [hbusy]; exact hb, fun _ => hnext, hd⟩
  · simp only [FinalizePhase.isDetaching, FinalizePhase.isBusy, Outcome.weight, Bool.toNat_false,
      Nat.add_zero] at hcleans hbusy
    exact ⟨by rw [hcleans]; exact hc, by rw [hbusy]; exact hb, fun _ => hnext, hd⟩
  · simp only [FinalizePhase.isDetaching, FinalizePhase.isBusy, Outcome.weight, Bool.toNat_false,
      Bool.toNat_true, Nat.add_zero, hstarted] at hcleans hbusy hc hb
    refine ⟨?_, ?_, fun _ => hnext, hd⟩
    · simp only [Bool.toNat_true]
      omega
    · simp only [Bool.toNat_true]
      omega
  · simp only [FinalizePhase.isDetaching, FinalizePhase.isBusy, Outcome.weight,
      Bool.toNat_true] at hcleans hbusy
    obtain ⟨hframe, hkept⟩ := detachStep_frame hinner
    rw [hframe]
    exact ⟨by simp only; omega, by simp only; omega, fun _ => hlanded, fun hpos => hkept (hd hpos)⟩
  · simp only [FinalizePhase.isDetaching, FinalizePhase.isBusy, Outcome.weight, Bool.toNat_false,
      Bool.toNat_true, Nat.add_zero] at hcleans hbusy
    have hdone : detached.detachDone = true := detachStep_done hinner hlanded
    rw [(detachStep_frame hinner).1]
    exact ⟨by simp only; omega, by simp only; omega, fun _ => hlanded, fun _ => hdone⟩
  · simp only [FinalizePhase.isDetaching, FinalizePhase.isBusy, Outcome.weight, Bool.toNat_false,
      Bool.toNat_true, Nat.add_zero] at hcleans hbusy
    refine ⟨by simp only; omega, ?_, fun _ => hnext, hd⟩
    simp only [Bool.toNat_true]
    omega

end Shared

/-! ## One listener in one step -/

/-- A step replaces operations: the counts of all kinds change with them. -/
def Moves (count after : (Op → Bool) → Nat) (old new : List Op) : Prop :=
  ∀ p, after p + old.countP p = count p + new.countP p

section Moves

variable {count after : (Op → Bool) → Nat} {op op' : Op} {p : Op → Bool}

theorem Moves.weigh (h : Moves count after [op] [op']) (p : Op → Bool) :
    after p + (p op).toNat = count p + (p op').toNat := by
  have hp := h p
  cases hop : p op <;> cases hop' : p op' <;> simpa [hop, hop'] using hp

theorem Moves.same (h : Moves count after [op] [op']) (hp : p op = p op') : after p = count p := by
  have hweigh := h.weigh p
  rw [hp] at hweigh
  omega

theorem Moves.push (h : Moves count after [] [op]) (p : Op → Bool) :
    after p = count p + (p op).toNat := by
  have hp := h p
  cases hop : p op <;> simpa [hop] using hp

theorem Moves.pop (h : Moves count after [op] []) (p : Op → Bool) :
    after p + (p op).toNat = count p := by
  have hp := h p
  cases hop : p op <;> simpa [hop] using hp

theorem Moves.pop_same (h : Moves count after [op] []) (hp : p op = false) : after p = count p := by
  have hpop := h.pop p
  simpa [hp] using hpop

end Moves

section Self

variable {count after : (Op → Bool) → Nat} {listener : Nat} {entry next : Entry}
  {retired barred barred' : Prop} {wait : Bool} {result : Status}

theorem Flying.congr (h : Flying count listener entry)
    (hflies : after (Op.flies listener) = count (Op.flies listener))
    (hruns : after (Op.runs listener) = count (Op.runs listener))
    (hfresh : after (Op.isFresh listener) ≤ count (Op.isFresh listener))
    (hframe : next.inFlight = entry.inFlight ∧ next.running = entry.running ∧
      next.once = entry.once ∧ next.invoked = entry.invoked ∧ next.fired = entry.fired) :
    Flying after listener next := by
  obtain ⟨h1, h2, h3, h4, h5⟩ := hframe
  constructor
  · rw [h1, hflies]
    exact h.flight
  · rw [h2, hruns]
    exact h.running
  · rw [h3, h4, h5]
    intro honce
    have := h.once honce
    omega

theorem Detaching.congr (h : Detaching count listener entry)
    (hcalls : after (Op.calls listener) = count (Op.calls listener))
    (hbusy : after (Op.detaches listener) = count (Op.detaches listener))
    (hframe : next.detaches = entry.detaches ∧ next.detachStarted = entry.detachStarted ∧
      next.detachDone = entry.detachDone) : Detaching after listener next := by
  obtain ⟨h1, h2, h3⟩ := hframe
  constructor
  · rw [h1, h2, hcalls]
    exact h.calls
  · rw [h2, h3, hbusy]
    exact h.busy

theorem Finalizing.congr (h : Finalizing count listener entry)
    (hcleans : after (Op.precleans listener) = count (Op.precleans listener))
    (hbusy : after (Op.cleans listener) = count (Op.cleans listener))
    (hlanded : next.finalizeStarted = true ∨ 0 < after (Op.finalizes listener) → next.inFlight = 0)
    (hframe : next.cleanups = entry.cleanups ∧ next.finalizeStarted = entry.finalizeStarted ∧
      next.finalizeDone = entry.finalizeDone)
    (hdone : entry.detachDone = true → next.detachDone = true) :
    Finalizing after listener next := by
  obtain ⟨h1, h2, h3⟩ := hframe
  constructor
  · rw [h1, h2, hcleans]
    exact h.cleans
  · rw [h2, h3, hbusy]
    exact h.busy
  · exact hlanded
  · rw [h1]
    exact fun hpos => hdone (h.detached hpos)

theorem Removal.of_inactive (h : Removal count listener entry retired)
    (hactive : entry.active = false) (hnext : next.active = false)
    (hretired : next.retired = entry.retired)
    (hpursued : next.finalizeStarted = false →
      0 < next.inFlight ∨ 0 < after (Op.pursues listener)) :
    Removal after listener next retired := by
  refine ⟨fun _ => hnext, ?_, fun _ => hpursued⟩
  rw [hretired]
  exact fun _ => h.retired hactive

/-- The counts of the kinds that a detachment alone does not change. -/
structure DetachOnly (count after : (Op → Bool) → Nat) (listener : Nat) : Prop where
  flies : after (Op.flies listener) = count (Op.flies listener)
  runs : after (Op.runs listener) = count (Op.runs listener)
  isFresh : after (Op.isFresh listener) ≤ count (Op.isFresh listener)
  precleans : after (Op.precleans listener) = count (Op.precleans listener)
  cleans : after (Op.cleans listener) = count (Op.cleans listener)
  finalizes : after (Op.finalizes listener) = count (Op.finalizes listener)

/-- **A step of a detachment**, for the listener that was removed. -/
theorem Sound.detach {phase : DetachPhase} {outcome : Outcome DetachPhase}
    (h : Sound count listener entry retired barred)
    (hstep : detachStep entry wait result phase = some (next, outcome))
    (hactive : entry.active = false) (honly : DetachOnly count after listener)
    (hcalls : after (Op.calls listener) + phase.isCalling.toNat =
      count (Op.calls listener) + outcome.weight DetachPhase.isCalling)
    (hbusy : after (Op.detaches listener) + phase.isBusy.toNat =
      count (Op.detaches listener) + outcome.weight DetachPhase.isBusy)
    (hpursued : entry.finalizeStarted = false →
      0 < entry.inFlight ∨ 0 < after (Op.pursues listener)) :
    Sound after listener next retired barred := by
  have hdetaching := detachStep_detaching h.detaching hstep hcalls hbusy
  obtain ⟨hframe, hkept⟩ := detachStep_frame hstep
  have hflight : next.inFlight = entry.inFlight := by rw [hframe]
  have hstarted : next.finalizeStarted = entry.finalizeStarted := by rw [hframe]
  constructor
  · apply h.flying.congr honly.flies honly.runs honly.isFresh
    rw [hframe]
    exact ⟨rfl, rfl, rfl, rfl, rfl⟩
  · exact hdetaching
  · refine h.finalizing.congr honly.precleans honly.cleans ?_ ?_ hkept
    · rw [hflight, hstarted, honly.finalizes]
      exact h.finalizing.landed
    · rw [hframe]
      exact ⟨rfl, rfl, rfl⟩
  · refine h.removal.of_inactive hactive (by rw [hframe]; exact hactive) (by rw [hframe]) ?_
    rw [hflight, hstarted]
    exact hpursued
  · rw [hflight, show next.active = entry.active by rw [hframe]]
    exact h.barred

/-- Two operations that differ for a listener by a step of its detachment alone. -/
structure Op.Detaching (listener : Nat) (phase : DetachPhase) (outcome : Outcome DetachPhase)
    (op op' : Op) : Prop where
  old : op.detachOn listener = some phase
  new : ∀ p : DetachPhase → Bool, ((op'.detachOn listener).any p).toNat = outcome.weight p
  flies : Op.flies listener op = Op.flies listener op'
  runs : Op.runs listener op = Op.runs listener op'
  isFresh : Op.isFresh listener op = Op.isFresh listener op'
  precleans : Op.precleans listener op = Op.precleans listener op'
  cleans : Op.cleans listener op = Op.cleans listener op'
  finalizes : Op.finalizes listener op = Op.finalizes listener op'

theorem Sound.detach_move {phase : DetachPhase} {outcome : Outcome DetachPhase} {op op' : Op}
    (h : Sound count listener entry retired barred)
    (hstep : detachStep entry wait result phase = some (next, outcome))
    (hactive : entry.active = false) (hmoves : Moves count after [op] [op'])
    (hop : op.Detaching listener phase outcome op')
    (hpursued : entry.finalizeStarted = false →
      0 < entry.inFlight ∨ 0 < after (Op.pursues listener)) :
    Sound after listener next retired barred := by
  have hcalls := hmoves.weigh (Op.calls listener)
  have hbusy := hmoves.weigh (Op.detaches listener)
  simp only [Op.calls, Op.detaches, hop.old, hop.new, Option.any_some] at hcalls hbusy
  exact h.detach hstep hactive ⟨hmoves.same hop.flies, hmoves.same hop.runs,
    Nat.le_of_eq (hmoves.same hop.isFresh), hmoves.same hop.precleans, hmoves.same hop.cleans,
    hmoves.same hop.finalizes⟩ hcalls hbusy hpursued

theorem finalizeStep_started {phase : FinalizePhase} {outcome : Outcome FinalizePhase}
    (h : Finalizing count listener entry)
    (hstep : finalizeStep entry wait result phase = some (next, outcome))
    (hactive : entry.active = false) (hlanded : entry.inFlight = 0)
    (hin : phase.isBusy.toNat ≤ count (Op.cleans listener)) : next.finalizeStarted = true := by
  have hcount := h.busy
  have hstarted : phase.isBusy = true → entry.finalizeStarted = true := by
    intro hbusy
    rw [hbusy] at hin
    cases hflag : entry.finalizeStarted with
    | true => rfl
    | false =>
      simp only [hflag, Bool.toNat_true, Bool.toNat_false] at hin hcount
      omega
  rcases finalizeStep_cases hstep with ⟨_, rfl, _, _, hreason⟩ | ⟨_, rfl, _, hsome⟩ |
    ⟨_, _, _, rfl, _⟩ | ⟨_, _, rfl, _, hinner⟩ | ⟨_, _, _, rfl, _, hinner, rfl⟩ | ⟨_, rfl, _, rfl⟩
  · rcases hreason with hon | hfly | hdone | hsome
    · simp [hactive] at hon
    · exact absurd hlanded hfly
    · cases hflag : next.finalizeStarted with
      | true => rfl
      | false =>
        simp only [hflag, hdone, Bool.toNat_true, Bool.toNat_false] at hcount
        omega
    · exact hsome
  · exact hsome
  · rfl
  · rw [(detachStep_frame hinner).1]
    exact hstarted rfl
  · rw [(detachStep_frame hinner).1]
    exact hstarted rfl
  · exact hstarted rfl

/-- **A step of a finalization.** -/
theorem Sound.finalize {phase : FinalizePhase} {outcome : Outcome FinalizePhase}
    (h : Sound count listener entry retired barred)
    (hstep : finalizeStep entry wait result phase = some (next, outcome))
    (hactive : entry.active = false) (hpos : 0 < count (Op.finalizes listener))
    (hin : phase.isBusy.toNat ≤ count (Op.cleans listener))
    (hflies : after (Op.flies listener) = count (Op.flies listener))
    (hruns : after (Op.runs listener) = count (Op.runs listener))
    (hfresh : after (Op.isFresh listener) = count (Op.isFresh listener))
    (hcalls : after (Op.calls listener) + (phase.inDetach DetachPhase.isCalling).toNat =
      count (Op.calls listener) + outcome.weight (FinalizePhase.inDetach DetachPhase.isCalling))
    (hdetaches : after (Op.detaches listener) + (phase.inDetach DetachPhase.isBusy).toNat =
      count (Op.detaches listener) + outcome.weight (FinalizePhase.inDetach DetachPhase.isBusy))
    (hcleans : after (Op.precleans listener) + phase.isDetaching.toNat =
      count (Op.precleans listener) + outcome.weight FinalizePhase.isDetaching)
    (hbusy : after (Op.cleans listener) + phase.isBusy.toNat =
      count (Op.cleans listener) + outcome.weight FinalizePhase.isBusy) :
    Sound after listener next retired barred := by
  have hlanded : entry.inFlight = 0 := h.finalizing.landed (.inr hpos)
  have hframe := finalizeStep_frame hstep
  have hflight : next.inFlight = entry.inFlight := by rw [hframe]
  have hstill : next.active = entry.active := by rw [hframe]
  constructor
  · apply h.flying.congr hflies hruns (Nat.le_of_eq hfresh)
    rw [hframe]
    exact ⟨rfl, rfl, rfl, rfl, rfl⟩
  · exact finalizeStep_detaching h.detaching hstep hcalls hdetaches
  · exact finalizeStep_finalizing h.finalizing hstep hpos hcleans hbusy
  · refine h.removal.of_inactive hactive (hstill.trans hactive) (by rw [hframe]) ?_
    intro hnot
    rw [finalizeStep_started h.finalizing hstep hactive hlanded hin] at hnot
    cases hnot
  · rw [hflight, hstill]
    exact h.barred

/-- The operation does nothing to the listener but what `touches` and `pursues` say. -/
structure Op.Idle (listener : Nat) (op : Op) : Prop where
  finalize : op.finalizeOn listener = none
  detach : op.detachOn listener = none
  flies : op.flies listener = false
  runs : op.runs listener = false
  isFresh : op.isFresh listener = false

/-- The operation is in the finalization of the listener. -/
structure Op.Finishing (listener : Nat) (phase : FinalizePhase) (op : Op) : Prop where
  finalize : op.finalizeOn listener = some phase
  detach : op.detachOn listener = phase.detach?
  flies : op.flies listener = false
  runs : op.runs listener = false
  isFresh : op.isFresh listener = false

/-- What the step of a finalization leaves on the stack. -/
def Outcome.Leaves (listener : Nat) (new : List Op) : Outcome FinalizePhase → Prop
  | .next phase => ∃ op, new = [op] ∧ op.Finishing listener phase
  | .done _ => ∀ op ∈ new, op.Idle listener

theorem Sound.finalizeMoves {phase : FinalizePhase} {outcome : Outcome FinalizePhase} {op : Op}
    {new : List Op} (h : Sound count listener entry retired barred)
    (hstep : finalizeStep entry wait result phase = some (next, outcome))
    (hactive : entry.active = false) (hpos : 0 < count (Op.finalizes listener))
    (hin : (op.cleans listener).toNat ≤ count (Op.cleans listener))
    (hmoves : Moves count after [op] new) (hop : op.Finishing listener phase)
    (hnew : outcome.Leaves listener new) : Sound after listener next retired barred := by
  have hold : ∀ (p : Op → Bool), [op].countP p = (p op).toNat := by
    intro p
    cases hp : p op <;> simp [hp]
  have hweigh : ∀ (p : Op → Bool) (q : FinalizePhase → Bool),
      (∀ op phase, op.Finishing listener phase → p op = q phase) →
      (∀ op, op.Idle listener → p op = false) →
      after p + (q phase).toNat = count p + outcome.weight q := by
    intro p q hfinishing hidle
    have hp := hmoves p
    rw [hold p, hfinishing op phase hop] at hp
    have hright : new.countP p = outcome.weight q := by
      cases outcome with
      | next phase' =>
        obtain ⟨op', rfl, hop'⟩ := hnew
        have hsame := hfinishing op' phase' hop'
        cases hq : q phase' <;> simp [Outcome.weight, hq, hsame]
      | done status =>
        simp only [Outcome.weight, List.countP_eq_zero]
        intro op' hmem
        simp [hidle op' (hnew op' hmem)]
    omega
  have hnone : ∀ p : Op → Bool, (∀ op phase, op.Finishing listener phase → p op = false) →
      (∀ op, op.Idle listener → p op = false) → after p = count p := by
    intro p hfinishing hidle
    have hp := hweigh p (fun _ => false) hfinishing hidle
    cases outcome <;> simpa [Outcome.weight] using hp
  have hcleans : op.cleans listener = phase.isBusy := by simp [Op.cleans, hop.finalize]
  refine h.finalize hstep hactive hpos (by rw [← hcleans]; exact hin) ?_ ?_ ?_ ?_ ?_ ?_ ?_
  · exact hnone _ (fun _ _ hf => hf.flies) fun _ hi => hi.flies
  · exact hnone _ (fun _ _ hf => hf.runs) fun _ hi => hi.runs
  · exact hnone _ (fun _ _ hf => hf.isFresh) fun _ hi => hi.isFresh
  · exact hweigh _ _ (fun _ _ hf => by simp [Op.calls, hf.detach, FinalizePhase.inDetach])
      fun _ hi => by simp [Op.calls, hi.detach]
  · exact hweigh _ _ (fun _ _ hf => by simp [Op.detaches, hf.detach, FinalizePhase.inDetach])
      fun _ hi => by simp [Op.detaches, hi.detach]
  · exact hweigh _ _ (fun _ _ hf => by simp [Op.precleans, hf.finalize])
      fun _ hi => by simp [Op.precleans, hi.finalize]
  · exact hweigh _ _ (fun _ _ hf => by simp [Op.cleans, hf.finalize])
      fun _ hi => by simp [Op.cleans, hi.finalize]

theorem Sound.enterFinalize {op op' : Op} (h : Sound count listener entry retired barred)
    (hactive : entry.active = false) (hlanded : entry.inFlight = 0)
    (hmoves : Moves count after [op] [op']) (hop : op.Idle listener)
    (hop' : op'.Finishing listener .enter) (hpursues : op.pursues listener = op'.pursues listener) :
    Sound after listener entry retired barred := by
  have hdetach : op'.detachOn listener = none := hop'.detach
  refine ⟨?_, ?_, ?_, ?_, h.barred⟩
  · refine h.flying.congr (hmoves.same ?_) (hmoves.same ?_) (Nat.le_of_eq (hmoves.same ?_))
      ⟨rfl, rfl, rfl, rfl, rfl⟩
    · rw [hop.flies, hop'.flies]
    · rw [hop.runs, hop'.runs]
    · rw [hop.isFresh, hop'.isFresh]
  · refine h.detaching.congr (hmoves.same ?_) (hmoves.same ?_) ⟨rfl, rfl, rfl⟩
    · simp [Op.calls, hop.detach, hdetach]
    · simp [Op.detaches, hop.detach, hdetach]
  · refine h.finalizing.congr (hmoves.same ?_) (hmoves.same ?_) (fun _ => hlanded)
      ⟨rfl, rfl, rfl⟩ id
    · simp [Op.precleans, hop.finalize, hop'.finalize, FinalizePhase.isDetaching]
    · simp [Op.cleans, hop.finalize, hop'.finalize, FinalizePhase.isBusy]
  · refine h.removal.of_inactive hactive hactive rfl ?_
    rw [hmoves.same hpursues]
    exact h.removal.pursued hactive

end Self

end Dcc.App
