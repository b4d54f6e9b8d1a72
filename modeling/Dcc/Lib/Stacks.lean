import Mathlib.Data.List.Basic
import Mathlib.Data.List.Count

/-!
# Tasks as stacks of frames

A program with several tasks is a list of stacks, one for each task; a step of a task
replaces the frames on top of its stack.  Invariants of such programs compare a counter
of the shared state with the number of frames of a kind in all stacks, and `count_set`
tells how a step changes that number.
-/

namespace Stacks

variable {α : Type*} {p q : α → Bool} {tasks : List (List α)} {task : Nat} {stack old new : List α}

/-- The number of frames of a kind in all stacks. -/
def count (p : α → Bool) (tasks : List (List α)) : Nat := tasks.flatten.countP p

/-- A step replaces the frames on top of one stack. -/
theorem count_set (p : α → Bool) (h : tasks[task]? = some (old ++ stack)) :
    count p (tasks.set task (new ++ stack)) + old.countP p = count p tasks + new.countP p := by
  induction tasks generalizing task with
  | nil => simp at h
  | cons first rest ih =>
    cases task with
    | zero =>
      obtain rfl : first = old ++ stack := by simpa using h
      simp only [count, List.set_cons_zero, List.flatten_cons, List.countP_append]
      omega
    | succ task =>
      have hrest := ih (by simpa using h)
      simp only [count, List.set_cons_succ, List.flatten_cons, List.countP_append] at hrest ⊢
      omega

@[simp] theorem count_spawn (p : α → Bool) (tasks : List (List α)) :
    count p (tasks ++ [[]]) = count p tasks := by
  simp [count]

theorem countP_le_count (p : α → Bool) (h : tasks[task]? = some stack) :
    stack.countP p ≤ count p tasks := by
  have hmem := List.mem_of_getElem? h
  obtain ⟨before, after, rfl⟩ := List.append_of_mem hmem
  simp only [count, List.flatten_append, List.flatten_cons, List.countP_append]
  omega

theorem count_pos_of_any (h : tasks[task]? = some stack) (hany : stack.any p = true) :
    0 < count p tasks := by
  have hpos : 0 < stack.countP p := by
    rw [List.countP_pos_iff]
    simpa using hany
  exact Nat.lt_of_lt_of_le hpos (countP_le_count p h)

theorem count_mono (h : ∀ frame, p frame = true → q frame = true) : count p tasks ≤ count q tasks :=
  List.countP_mono_left fun frame _ => h frame

theorem count_eq_zero (h : ∀ frame ∈ tasks.flatten, p frame = false) : count p tasks = 0 := by
  rw [count, List.countP_eq_zero]
  intro frame hmem
  simp [h frame hmem]

end Stacks
