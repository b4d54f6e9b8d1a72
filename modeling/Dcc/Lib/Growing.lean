import Mathlib.Algebra.Group.Nat.Defs
import Mathlib.Data.List.Basic

/-!
# Arrays that grow by doubling and are compacted in place

* `grow`: the loop that doubles a capacity until it is enough, and gives up where
  doubling would pass the largest size there is;
* `compact`: the loop that moves the elements to be kept to the front of the array that
  it reads, so that the front it leaves is the filtered array (`compact_eq_filter`).
-/

namespace Growing

/-! ## Doubling -/

/-- Doubles `cap` until `need` fits; `none` where the double passes `max`. -/
def grow (max : Nat) : Nat → Nat → Nat → Option Nat
  | 0, _, _ => none
  | fuel + 1, cap, need =>
    if need ≤ cap then some cap
    else if max / 2 < cap then none
    else grow max fuel (cap * 2) need

variable {max fuel cap need next : Nat}

theorem grow_spec (hcap : cap ≤ max) (h : grow max fuel cap need = some next) :
    need ≤ next ∧ cap ≤ next ∧ next ≤ max := by
  induction fuel generalizing cap with
  | zero => cases h
  | succ fuel ih =>
    rw [grow] at h
    split at h
    · next henough =>
      cases h
      exact ⟨henough, Nat.le_refl _, hcap⟩
    · split at h
      · cases h
      · next hroom =>
        obtain ⟨hneed, hle, hmax⟩ := @ih (cap * 2) (by omega) h
        exact ⟨hneed, by omega, hmax⟩

theorem le_of_grow (h : grow max fuel cap need = some next) : need ≤ next := by
  induction fuel generalizing cap with
  | zero => cases h
  | succ fuel ih =>
    rw [grow] at h
    split at h
    · next henough =>
      cases h
      exact henough
    · split at h
      · cases h
      · exact ih h

theorem grow_lt (h : grow max fuel cap need = some next) : next = cap ∨ next < 2 * need := by
  induction fuel generalizing cap with
  | zero => cases h
  | succ fuel ih =>
    rw [grow] at h
    split at h
    · cases h
      exact .inl rfl
    · split at h
      · cases h
      · rcases ih h with rfl | hlt
        · right
          omega
        · exact .inr hlt

theorem grow_isSome (hneed : need ≤ max / 2 + 1) (hfuel : need ≤ cap * 2 ^ fuel) :
    ∃ next, grow max (fuel + 1) cap need = some next := by
  induction fuel generalizing cap with
  | zero =>
    rw [grow, if_pos (by simpa using hfuel)]
    exact ⟨_, rfl⟩
  | succ fuel ih =>
    rw [grow]
    by_cases henough : need ≤ cap
    · exact ⟨_, if_pos henough⟩
    · rw [if_neg henough, if_neg (by omega)]
      apply ih
      rw [Nat.mul_assoc, ← Nat.pow_succ']
      exact hfuel

/-! ## Compaction -/

variable {α : Type*}

/-- The loop over the `todo` elements from `i` on: what is kept goes to `out`. -/
def compact (keep : α → Bool) : Nat → Nat → Nat → List α → List α × Nat
  | 0, _, out, xs => (xs, out)
  | todo + 1, i, out, xs =>
    match xs[i]? with
    | none => (xs, out)
    | some x =>
      if keep x then
        compact keep todo (i + 1) (out + 1) (if out ≠ i then xs.set out x else xs)
      else compact keep todo (i + 1) out xs

variable {keep : α → Bool} {kept gap rest : List α}

theorem compact_split :
    let r := compact keep rest.length (kept.length + gap.length) kept.length (kept ++ (gap ++ rest))
    r.1.take r.2 = kept ++ rest.filter keep ∧ r.2 = (kept ++ rest.filter keep).length := by
  induction rest generalizing kept gap with
  | nil => simp [compact]
  | cons x rest ih =>
    have hget : (kept ++ (gap ++ x :: rest))[kept.length + gap.length]? = some x := by
      rw [List.getElem?_append_right (by omega), List.getElem?_append_right (by omega)]
      simp
    simp only [List.length_cons, compact, hget]
    by_cases hkeep : keep x
    · rw [if_pos hkeep, List.filter_cons_of_pos hkeep]
      cases gap with
      | nil =>
        have hnext := @ih (kept ++ [x]) []
        simp only [List.length_append, List.length_cons, List.length_nil, List.append_assoc,
          List.cons_append, List.nil_append, Nat.add_zero, ne_eq, not_true_eq_false,
          if_false, Nat.zero_add] at hnext ⊢
        exact hnext
      | cons g gap =>
        have hnext := @ih (kept ++ [x]) (gap ++ [x])
        have hset : (kept ++ (g :: gap ++ x :: rest)).set kept.length x =
            kept ++ [x] ++ (gap ++ [x] ++ rest) := by
          simp
        have hindex : (kept ++ [x]).length + (gap ++ [x]).length =
            kept.length + (g :: gap).length + 1 := by
          simp only [List.length_append, List.length_cons, List.length_nil]
          omega
        have hne : kept.length ≠ kept.length + (g :: gap).length := by simp
        rw [if_pos hne, hset]
        rw [hindex, @List.length_append _ kept [x]] at hnext
        simpa using hnext
    · rw [if_neg hkeep, List.filter_cons_of_neg hkeep]
      have hnext := @ih kept (gap ++ [x])
      simpa [Nat.add_assoc] using hnext

/-- **Compaction in place is filtering.** -/
theorem compact_eq_filter (keep : α → Bool) (xs : List α) :
    let r := compact keep xs.length 0 0 xs
    r.1.take r.2 = xs.filter keep := by
  have h := @compact_split α keep [] [] xs
  exact h.1

end Growing
