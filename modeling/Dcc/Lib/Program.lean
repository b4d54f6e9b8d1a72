import Mathlib.Data.List.Basic

/-!
# Programs that make calls

A `Program` is a finite procedure that does nothing but call its environment: it makes a call,
gets the reply, and goes on.  What a reply can be is left to whoever runs it.

* `Program.Run` — the runs of a program, as the list of calls with their replies;
* `run_bind` — the runs of one program after another;
* `Program.Always` — what holds of every value, whatever is replied.
-/

namespace Dcc

/-- A program with calls `Op`, each answered by a `Reply`. -/
inductive Program (Op : Type) (Reply : Op → Type) (α : Type) : Type
  | ret (a : α)
  | call (op : Op) (next : Reply op → Program Op Reply α)

namespace Program

variable {Op : Type} {Reply : Op → Type} {α β : Type}

/-- One program, and another one that depends on its value. -/
def bind : Program Op Reply α → (α → Program Op Reply β) → Program Op Reply β
  | .ret a, f => f a
  | .call op next, f => .call op fun reply => (next reply).bind f

instance : Monad (Program Op Reply) where
  pure := .ret
  bind := Program.bind

/-- The program that makes one call. -/
def perform (op : Op) : Program Op Reply (Reply op) := .call op .ret

@[simp] theorem pure_eq (a : α) : (pure a : Program Op Reply α) = .ret a := rfl

@[simp] theorem bind_eq (p : Program Op Reply α) (f : α → Program Op Reply β) :
    p >>= f = p.bind f := rfl

@[simp] theorem ret_bind (a : α) (f : α → Program Op Reply β) : (ret a).bind f = f a := rfl

@[simp] theorem call_bind (op : Op) (next : Reply op → Program Op Reply α)
    (f : α → Program Op Reply β) :
    (call op next).bind f = call op fun reply => (next reply).bind f := rfl

@[simp] theorem perform_bind (op : Op) (f : Reply op → Program Op Reply β) :
    (perform op).bind f = call op f := rfl

/-! ## Runs -/

/-- A call with its reply. -/
abbrev Event (Op : Type) (Reply : Op → Type) : Type := (op : Op) × Reply op

/-- The run of a program: its calls with their replies, and its value. -/
inductive Run : Program Op Reply α → List (Event Op Reply) → α → Prop
  | ret (a : α) : Run (.ret a) [] a
  | call {op : Op} {next : Reply op → Program Op Reply α} (reply : Reply op)
      {trace : List (Event Op Reply)} {a : α} (h : Run (next reply) trace a) :
      Run (.call op next) (⟨op, reply⟩ :: trace) a

variable {p : Program Op Reply α} {f : α → Program Op Reply β}

/-- A run of two programs is a run of the first and one of the second. -/
theorem run_bind {trace : List (Event Op Reply)} {b : β} :
    Run (p.bind f) trace b ↔
      ∃ first a rest, trace = first ++ rest ∧ Run p first a ∧ Run (f a) rest b := by
  induction p generalizing trace with
  | ret a =>
    constructor
    · intro h
      exact ⟨[], a, trace, rfl, .ret a, h⟩
    · intro h
      obtain ⟨first, _, rest, rfl, hfirst, hrest⟩ := h
      cases hfirst
      exact hrest
  | call op next ih =>
    constructor
    · intro h
      cases h with
      | call reply h =>
        obtain ⟨first, a, rest, rfl, hfirst, hrest⟩ := (ih reply).mp h
        exact ⟨_, a, rest, rfl, .call reply hfirst, hrest⟩
    · intro h
      obtain ⟨first, a, rest, rfl, hfirst, hrest⟩ := h
      cases hfirst with
      | call reply hfirst => exact .call reply ((ih reply).mpr ⟨_, a, rest, rfl, hfirst, hrest⟩)

/-! ## What holds whatever is replied -/

/-- Every value of a program has a property, whatever is replied. -/
def Always (P : α → Prop) : Program Op Reply α → Prop
  | .ret a => P a
  | .call _ next => ∀ reply, (next reply).Always P

theorem always_trivial {P : α → Prop} (hP : ∀ a, P a) (p : Program Op Reply α) : p.Always P := by
  induction p with
  | ret a => exact hP a
  | call op next ih => exact ih

theorem always_mono {P Q : α → Prop} (hPQ : ∀ a, P a → Q a) (h : p.Always P) : p.Always Q := by
  induction p with
  | ret a => exact hPQ a h
  | call op next ih =>
    intro reply
    exact ih reply (h reply)

theorem always_bind {P : β → Prop}
    (h : p.Always fun a => (f a).Always P) : (p.bind f).Always P := by
  induction p with
  | ret a => exact h
  | call op next ih =>
    intro reply
    exact ih reply (h reply)

end Program

end Dcc
