import Mathlib.Algebra.GroupWithZero.Nat
import Mathlib.Algebra.Ring.Int.Defs
import Mathlib.Data.List.Basic

/-!
# Machine-level vocabulary shared by every part of the client

The library is written in C, so the data of the model is bytes, bounded
machine words and status codes.  Text (route keys, header values, JSON input)
is a list of bytes; a pointer into a buffer is the suffix of the buffer that
starts there; `size_t` and `uint64_t` are natural numbers with the wrap at
`2 ^ 64` written out where the code can reach it.
-/

namespace Dcc

/-- A buffer, or the part of a buffer from a cursor to its end. -/
abbrev Bytes := List UInt8

/-- The bytes of an ASCII text. -/
def asciiText (text : String) : Bytes := text.toList.map fun c => UInt8.ofNat c.toNat

/-- `dcc_status_t`. -/
inductive Status
  | ok
  | invalidArg
  | nomem
  | runtime
  | network
  | tls
  | json
  | discord
  | rateLimited
  | canceled
  | state
  | timeout
  | notFound
  | resourceLimit
  deriving DecidableEq, Repr

/-- `dcc_status_string`. -/
def statusString : Status → String
  | .ok => "ok"
  | .invalidArg => "invalid argument"
  | .nomem => "out of memory"
  | .runtime => "runtime error"
  | .network => "network error"
  | .tls => "tls error"
  | .json => "json error"
  | .discord => "discord error"
  | .rateLimited => "rate limited"
  | .canceled => "canceled"
  | .state => "invalid state"
  | .timeout => "timeout"
  | .notFound => "not found"
  | .resourceLimit => "resource limit"

/-- Number of values of `size_t` and of `uint64_t`. -/
def wordSize : Nat := 2 ^ 64

/-- `SIZE_MAX` and `UINT64_MAX`. -/
def wordMax : Nat := wordSize - 1

/-- Unsigned subtraction of two words: it wraps below zero. -/
def wordSub (a b : Nat) : Nat := (a + (wordSize - b % wordSize)) % wordSize

/-- Unsigned addition of two words. -/
def wordAdd (a b : Nat) : Nat := (a + b) % wordSize

/-- `dcc_rest_add_ms` and `dcc_firewall_add_ms`: addition that stops at the
largest word. -/
def addMs (base delta : Nat) : Nat := if wordMax - base < delta then wordMax else base + delta

/-- `increment` of the resource counters, and how the firewall counts: the
counter stops at the largest word. -/
def increment (value : Nat) : Nat := if value ≠ wordMax then value + 1 else value

theorem wordSub_of_le {a b : Nat} (hb : b ≤ a) (ha : a < wordSize) : wordSub a b = a - b := by
  have hmod : b % wordSize = b := Nat.mod_eq_of_lt (by omega)
  rw [wordSub, hmod, show a + (wordSize - b) = (a - b) + wordSize by omega,
    Nat.add_mod_right, Nat.mod_eq_of_lt (by omega)]

theorem wordAdd_of_lt {a b : Nat} (h : a + b < wordSize) : wordAdd a b = a + b :=
  Nat.mod_eq_of_lt h

theorem bind_ok {α β : Type} {x : Except Status α} {f : α → Except Status β} {r : β}
    (h : (do let a ← x; f a) = .ok r) : ∃ a, x = .ok a ∧ f a = .ok r := by
  cases x with
  | error status => simp [bind, Except.bind] at h
  | ok a => exact ⟨a, rfl, h⟩

end Dcc
