import Mathlib.Algebra.Group.Nat.Defs
import Mathlib.Data.Nat.Basic

/-!
# Decimal numbers as bytes

Printing writes the digits of a number, most significant first.  Reading takes
the digits one by one and stops before the number would pass a limit.  What was
printed is read back (`readDecimal_decimalText`) wherever the number is within
the limit.
-/

namespace Decimal

/-- The digits of a number, as `printf` writes them. -/
def decimalText (n : Nat) : List UInt8 := (Nat.toDigits 10 n).map fun c => UInt8.ofNat c.toNat

/-- One digit more: `none` for a byte that is no digit, and where the number
would pass `max`. -/
def readDigit (max value : Nat) (c : UInt8) : Option Nat :=
  if c < 0x30 ∨ 0x39 < c then none
  else if (max - (c.toNat - 0x30)) / 10 < value then none
  else some (value * 10 + (c.toNat - 0x30))

/-- A number of at least one digit. -/
def readDecimal (max : Nat) (text : List UInt8) : Option Nat :=
  if text = [] then none else text.foldlM (readDigit max) 0

/-- The byte of a digit. -/
def digitByte (d : Nat) : UInt8 := UInt8.ofNat d.digitChar.toNat

theorem digitByte_toNat {d : Nat} (hd : d < 10) : (digitByte d).toNat = 0x30 + d := by
  have hall : ∀ d < 10, (digitByte d).toNat = 0x30 + d := by decide
  exact hall d hd

variable {n : Nat}

theorem decimalText_of_lt (hn : n < 10) : decimalText n = [digitByte n] := by
  rw [decimalText, Nat.toDigits_of_lt_base hn]
  rfl

theorem decimalText_of_le (hn : 10 ≤ n) :
    decimalText n = decimalText (n / 10) ++ [digitByte (n % 10)] := by
  rw [decimalText, Nat.toDigits_of_base_le (by decide) hn, List.map_append]
  rfl

theorem decimalText_ne_nil (n : Nat) : decimalText n ≠ [] := by
  rw [decimalText]
  simp

theorem digit_of_mem {c : UInt8} (hc : c ∈ decimalText n) :
    0x30 ≤ c.toNat ∧ c.toNat ≤ 0x39 := by
  induction n using Nat.strong_induction_on with
  | _ n ih =>
    by_cases hn : n < 10
    · rw [decimalText_of_lt hn, List.mem_singleton] at hc
      rw [hc, digitByte_toNat hn]
      omega
    · rw [decimalText_of_le (by omega), List.mem_append, List.mem_singleton] at hc
      rcases hc with hc | rfl
      · exact ih (n / 10) (by omega) hc
      · rw [digitByte_toNat (Nat.mod_lt _ (by decide))]
        omega

theorem decimalText_head (hn : 0 < n) :
    ∃ c w, decimalText n = c :: w ∧ 0x31 ≤ c.toNat := by
  induction n using Nat.strong_induction_on with
  | _ n ih =>
    by_cases hlt : n < 10
    · refine ⟨digitByte n, [], decimalText_of_lt hlt, ?_⟩
      rw [digitByte_toNat hlt]
      omega
    · obtain ⟨c, w, htext, hc⟩ := ih (n / 10) (by omega) (by omega)
      exact ⟨c, w ++ [digitByte (n % 10)], by rw [decimalText_of_le (by omega), htext]; rfl, hc⟩

theorem length_decimalText_le {n k : Nat} (hk : 0 < k) (hn : n < 10 ^ k) :
    (decimalText n).length ≤ k := by
  rw [decimalText, List.length_map]
  exact (Nat.length_toDigits_le_iff (by decide) hk).mpr hn

theorem readDigit_digitByte {max value d : Nat} (hd : d < 10) (hmax : value * 10 + d ≤ max) :
    readDigit max value (digitByte d) = some (value * 10 + d) := by
  have hbyte := digitByte_toNat hd
  have hrange : ¬ (digitByte d < 0x30 ∨ 0x39 < digitByte d) := by
    rw [UInt8.lt_iff_toNat_lt, UInt8.lt_iff_toNat_lt, hbyte]
    change ¬ (0x30 + d < 0x30 ∨ 0x39 < 0x30 + d)
    omega
  have hroom : ¬ (max - ((digitByte d).toNat - 0x30)) / 10 < value := by
    rw [hbyte]
    omega
  rw [readDigit, if_neg hrange, if_neg hroom, hbyte, Nat.add_sub_cancel_left]

theorem readDecimal_le {text : List UInt8} {n max : Nat} (hmax : 9 ≤ max)
    (h : readDecimal max text = some n) : n ≤ max := by
  unfold readDecimal at h
  split at h
  · cases h
  · next hne =>
    -- the last digit is taken only within the limit
    obtain ⟨front, c, rfl⟩ := (List.eq_nil_or_concat text).resolve_left hne
    rw [List.concat_eq_append, List.foldlM_append] at h
    obtain ⟨value, -, hlast⟩ := Option.bind_eq_some_iff.mp h
    have hdigit : readDigit max value c = some n := by simpa using hlast
    unfold readDigit at hdigit
    split_ifs at hdigit with hrange hroom
    simp only [UInt8.lt_iff_toNat_lt, not_or, not_lt] at hrange
    change 0x30 ≤ c.toNat ∧ c.toNat ≤ 0x39 at hrange
    cases hdigit
    omega

/-- **What was printed is read back.** -/
theorem readDecimal_decimalText {n max : Nat} (hn : n ≤ max) :
    readDecimal max (decimalText n) = some n := by
  rw [readDecimal, if_neg (decimalText_ne_nil n)]
  induction n using Nat.strong_induction_on with
  | _ n ih =>
    by_cases hlt : n < 10
    · rw [decimalText_of_lt hlt]
      have hdigit := @readDigit_digitByte max 0 n hlt (by omega)
      simpa using hdigit
    · rw [decimalText_of_le (by omega), List.foldlM_append, ih (n / 10) (by omega) (by omega)]
      have hdigit := @readDigit_digitByte max (n / 10) (n % 10) (Nat.mod_lt _ (by decide))
        (by omega)
      have hn' : n / 10 * 10 + n % 10 = n := by omega
      rw [hn'] at hdigit
      simpa using hdigit

end Decimal
