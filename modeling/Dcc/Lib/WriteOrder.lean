import Mathlib.Data.List.Basic
import Mathlib.Data.List.Nodup

/-!
# Finite maps that remember the order of their writes

A bounded cache is a finite map together with the order in which its keys were
last written: a write moves its key to the end, and a limit takes keys from the
front.  The list of pairs carries both, the least recently written key first.
-/

/-- A finite map as the list of its last writes, the oldest first. -/
structure WriteOrder (K V : Type*) where
  writes : List (K × V)
  distinct : (writes.map Prod.fst).Nodup

namespace WriteOrder

variable {K V : Type*} {key other : K} {value : V} {m : WriteOrder K V}

/-- No write at all. -/
def empty : WriteOrder K V where
  writes := []
  distinct := List.nodup_nil

/-- The oldest writes leave until at most `max` are left; zero is no limit. -/
def trim (max : Nat) (m : WriteOrder K V) : WriteOrder K V where
  writes := if max = 0 then m.writes else m.writes.drop (m.writes.length - max)
  distinct := by
    split
    · exact m.distinct
    · rw [List.map_drop]
      exact m.distinct.sublist (List.drop_sublist _ _)

theorem length_trim_le {max : Nat} (hmax : max ≠ 0) (m : WriteOrder K V) :
    (m.trim max).writes.length ≤ max := by
  simp only [trim, if_neg hmax, List.length_drop]
  omega

theorem trim_of_le {max : Nat} (h : max ≠ 0 → m.writes.length ≤ max) : m.trim max = m := by
  unfold trim
  split
  · rfl
  · next hmax =>
    have hzero : m.writes.length - max = 0 := Nat.sub_eq_zero_of_le (h hmax)
    simp [hzero]

variable [DecidableEq K]

/-- The value last written for a key. -/
def lookup (m : WriteOrder K V) (key : K) : Option V := m.writes.lookup key

/-- The map without a key. -/
def remove (key : K) (m : WriteOrder K V) : WriteOrder K V where
  writes := m.writes.filter (fun w => w.1 ≠ key)
  distinct := m.distinct.sublist (List.filter_sublist.map _)

/-- The map with a key written last. -/
def append (key : K) (value : V) (m : WriteOrder K V) : WriteOrder K V where
  writes := (m.remove key).writes ++ [(key, value)]
  distinct := by
    rw [List.map_append, List.map_singleton, ← List.concat_eq_append]
    refine List.Nodup.concat ?_ (m.remove key).distinct
    simp [remove]

/-- A write under a limit. -/
def write (max : Nat) (key : K) (value : V) (m : WriteOrder K V) : WriteOrder K V :=
  (m.append key value).trim max

theorem lookup_eq_some_iff : m.lookup key = some value ↔ (key, value) ∈ m.writes := by
  obtain ⟨writes, hdistinct⟩ := m
  simp only [lookup]
  induction writes with
  | nil => simp
  | cons w rest ih =>
    obtain ⟨first, v⟩ := w
    rw [List.map_cons, List.nodup_cons] at hdistinct
    by_cases hkey : key = first
    · subst hkey
      have hnot : (key, value) ∉ rest := by
        intro hmem
        exact hdistinct.1 (List.mem_map.mpr ⟨(key, value), hmem, rfl⟩)
      simp [hnot, eq_comm]
    · have hbeq : (key == first) = false := by simpa using hkey
      rw [List.lookup_cons, hbeq, List.mem_cons]
      simp [hkey, ih hdistinct.2]

end WriteOrder
