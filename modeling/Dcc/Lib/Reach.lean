import Mathlib.Logic.Basic

/-!
# Reachable states of a machine with permitted inputs

A machine is a function that takes a state and an input to the next state; a
policy says which inputs may come in which state.  `Reach` is what a machine
can reach under a policy, and `Reach.invariant` is the one induction over runs
that every safety property here uses.
-/

namespace Machine

variable {σ α : Type*} {next : σ → α → σ} {ok : σ → α → Prop} {start s : σ}

/-- The states that `next` reaches from `start` by inputs that `ok` permits. -/
inductive Reach (next : σ → α → σ) (ok : σ → α → Prop) (start : σ) : σ → Prop
  | start : Reach next ok start start
  | step {s : σ} {a : α} (hs : Reach next ok start s) (ha : ok s a) : Reach next ok start (next s a)

/-- What holds at the start and is kept by every permitted input holds in every
reachable state. -/
theorem Reach.invariant {P : σ → Prop} (hstart : P start)
    (hstep : ∀ s a, P s → ok s a → P (next s a)) (h : Reach next ok start s) : P s := by
  induction h with
  | start => exact hstart
  | step _ ha ih => exact hstep _ _ ih ha

/-- Every input of a list is permitted in the state it comes in. -/
def Permitted (next : σ → α → σ) (ok : σ → α → Prop) : σ → List α → Prop
  | _, [] => True
  | s, a :: inputs => ok s a ∧ Permitted next ok (next s a) inputs

theorem permitted_append {first rest : List α} :
    Permitted next ok s (first ++ rest) ↔
      Permitted next ok s first ∧ Permitted next ok (first.foldl next s) rest := by
  induction first generalizing s with
  | nil => simp [Permitted]
  | cons a first ih => simp [Permitted, ih, and_assoc]

theorem Reach.run (h : Reach next ok start s) {inputs : List α}
    (hok : Permitted next ok s inputs) : Reach next ok start (inputs.foldl next s) := by
  induction inputs generalizing s with
  | nil => exact h
  | cons a inputs ih => exact ih (h.step hok.1) hok.2

end Machine
