import Dcc.Basic

/-!
# Numbers and records in memory

A record that is copied into a pipe as it lies in memory is the text of its fields one after
another, each one the digits of a number with the least one first.

* `readLE_littleEndian` — a number reads back from its digits;
* `field_append_left`, `field_append_right` — a field of a record is a field of the part that
  holds it.
-/

namespace Dcc

/-- A number in a field of some bytes, the least byte first. -/
def littleEndian : Nat → Nat → Bytes
  | 0, _ => []
  | width + 1, n => UInt8.ofNat n :: littleEndian width (n / 256)

/-- The number that some bytes are. -/
def readLE : Bytes → Nat
  | [] => 0
  | b :: bytes => b.toNat + 256 * readLE bytes

@[simp] theorem length_littleEndian (width n : Nat) : (littleEndian width n).length = width := by
  induction width generalizing n with
  | zero => rfl
  | succ width ih => rw [littleEndian, List.length_cons, ih]

variable {width n : Nat}

/-- **A number reads back from its digits**, where it fits. -/
theorem readLE_littleEndian (h : n < 256 ^ width) :
    readLE (littleEndian width n) = n := by
  induction width generalizing n with
  | zero =>
    have hn : n = 0 := by simpa using h
    simp [littleEndian, readLE, hn]
  | succ width ih =>
    have hrest : n / 256 < 256 ^ width := by
      rw [Nat.div_lt_iff_lt_mul (by decide), ← Nat.pow_succ]
      exact h
    have hlow : (UInt8.ofNat n).toNat = n % 256 := by simp
    rw [littleEndian, readLE, ih hrest, hlow]
    omega

/-- A field of a record: its bytes from an offset on, as a number. -/
def field (record : Bytes) (offset width : Nat) : Nat :=
  readLE ((record.drop offset).take width)

/-- The field at the start of a record. -/
theorem field_append_left (h : n < 256 ^ width) (rest : Bytes) :
    field (littleEndian width n ++ rest) 0 width = n := by
  have htake : (littleEndian width n ++ rest).take width = littleEndian width n :=
    List.take_left' (length_littleEndian width n)
  rw [field, List.drop_zero, htake, readLE_littleEndian h]

/-- The fields after the first one. -/
theorem field_append_right (size n : Nat) (rest : Bytes) {offset width : Nat} (h : size ≤ offset) :
    field (littleEndian size n ++ rest) offset width = field rest (offset - size) width := by
  have hdrop : (littleEndian size n ++ rest).drop offset = rest.drop (offset - size) := by
    rw [List.drop_append, List.drop_eq_nil_of_le (by simpa using h), length_littleEndian,
      List.nil_append]
  rw [field, field, hdrop]

theorem field_last (h : n < 256 ^ width) :
    field (littleEndian width n) 0 width = n := by
  simpa using field_append_left h []

end Dcc
