import Mathlib.Data.List.ReduceOption
import Mathlib.Data.List.Perm.Basic

/-!
# Tables of slots

A table of fixed size is a list of slots, each free or holding one entry.  What it holds
is `List.reduceOption` of that list; the lemmas here say how the operations of such a
table (write to a free slot, clear the slot of an entry, clear every slot of a kind)
change what it holds.
-/

namespace Slots

variable {α : Type*} {slots : List (Option α)} {i : Nat} {a : α}

theorem reduceOption_set (h : slots[i]? = some none) :
    (slots.set i (some a)).reduceOption.Perm (a :: slots.reduceOption) := by
  induction slots generalizing i with
  | nil => simp at h
  | cons slot slots ih =>
    cases i with
    | zero =>
      obtain rfl : slot = none := by simpa using h
      simp [List.reduceOption_cons_of_some, List.reduceOption_cons_of_none]
    | succ i =>
      have hrest := ih (by simpa using h)
      cases slot with
      | none => simpa [List.reduceOption_cons_of_none] using hrest
      | some b =>
        simp only [List.set_cons_succ, List.reduceOption_cons_of_some]
        exact (hrest.cons b).trans (List.Perm.swap a b _)

theorem exists_free (h : slots.reduceOption.length < slots.length) :
    none ∈ slots := by
  induction slots with
  | nil => simp at h
  | cons slot slots ih =>
    cases slot with
    | none => exact List.mem_cons_self
    | some b =>
      rw [List.reduceOption_cons_of_some] at h
      exact List.mem_cons_of_mem _ (ih (by simpa using h))

/-- The first free slot gets the entry; the full table stays as it is. -/
def fill (a : α) : List (Option α) → List (Option α)
  | [] => []
  | none :: slots => some a :: slots
  | some b :: slots => some b :: fill a slots

theorem length_fill : (fill a slots).length = slots.length := by
  fun_induction fill a slots <;> simp_all

theorem reduceOption_fill (h : none ∈ slots) :
    (fill a slots).reduceOption.Perm (a :: slots.reduceOption) := by
  fun_induction fill a slots with
  | case1 => simp at h
  | case2 slots => simp [List.reduceOption_cons_of_some, List.reduceOption_cons_of_none]
  | case3 b slots ih =>
    simp only [List.reduceOption_cons_of_some]
    exact ((ih (by simpa using h)).cons b).trans (List.Perm.swap a b _)

/-- The first slot that holds the entry is cleared. -/
def clear [DecidableEq α] (a : α) : List (Option α) → List (Option α)
  | [] => []
  | slot :: slots => if slot = some a then none :: slots else slot :: clear a slots

theorem reduceOption_clear [DecidableEq α] :
    (clear a slots).reduceOption = slots.reduceOption.erase a := by
  fun_induction clear a slots with
  | case1 => rfl
  | case2 slots => simp [List.reduceOption_cons_of_some, List.reduceOption_cons_of_none]
  | case3 slot slots hne ih =>
    cases slot with
    | none => simpa [List.reduceOption_cons_of_none] using ih
    | some b =>
      have hba : b ≠ a := fun h => hne (congrArg some h)
      rw [List.reduceOption_cons_of_some, List.reduceOption_cons_of_some, ih,
        List.erase_cons_tail (by simpa using hba)]

end Slots
