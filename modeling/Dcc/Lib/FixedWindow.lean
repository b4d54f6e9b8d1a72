import Mathlib.Data.List.Basic

/-!
# A counter over fixed windows

A window opens at the first visit after the previous one is over, and lets at most `limit`
visits pass before `length` has gone by.
-/

namespace FixedWindow

/-- A window: when it was opened, and how many visits it let pass. -/
structure Window where
  opened : Nat
  admitted : Nat
  deriving DecidableEq, Repr

variable (limit length : Nat)

/-- The window is still open. -/
def Window.Open (length : Nat) (window : Window) (now : Nat) : Prop := now < window.opened + length

instance (length : Nat) (window : Window) (now : Nat) : Decidable (window.Open length now) :=
  inferInstanceAs (Decidable (now < window.opened + length))

/-- The window that a visit falls into. -/
def current (last : Option Window) (now : Nat) : Window :=
  match last with
  | some window => if window.Open length now then window else ⟨now, 0⟩
  | none => ⟨now, 0⟩

/-- One visit: the window afterwards, and whether the visit passes. -/
def visit (last : Option Window) (now : Nat) : Window × Bool :=
  let window := current length last now
  if window.admitted < limit then ({ window with admitted := window.admitted + 1 }, true)
  else (window, false)

/-- The decisions over the visits at the given times. -/
def decisions : Option Window → List Nat → List Bool
  | _, [] => []
  | last, now :: times =>
    (visit limit length last now).2 :: decisions (some (visit limit length last now).1) times

variable {limit length : Nat}

theorem current_of_over {last : Option Window} {now : Nat}
    (h : ∀ window, last = some window → ¬ window.Open length now) :
    current length last now = ⟨now, 0⟩ := by
  cases last with
  | none => rfl
  | some window => exact if_neg (h window rfl)

theorem Window.Open.of_le {window : Window} {now later : Nat} (h : window.Open length later)
    (hle : now ≤ later) : window.Open length now := by
  unfold Window.Open at h ⊢
  omega

end FixedWindow
