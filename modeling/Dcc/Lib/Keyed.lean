import Mathlib.Data.List.Nodup
import Mathlib.Data.List.Perm.Basic
import Mathlib.Logic.Function.Basic

/-!
# Lists of keyed values

A list of pairs without a repeated key stands for a partial function: `Represents l f`.
Appending a pair with a new key, replacing the value at a key and dropping a key are
updates of the function, and two lists that stand for the same function hold the same
pairs.
-/

namespace Keyed

variable {κ β : Type*} {l m : List (κ × β)} {f : κ → Option β} {k : κ} {v : β}

/-- `l` lists the graph of `f`, every key once. -/
structure Represents (l : List (κ × β)) (f : κ → Option β) : Prop where
  nodup : (l.map Prod.fst).Nodup
  mem_iff : ∀ k v, (k, v) ∈ l ↔ f k = some v

theorem Represents.perm (hl : Represents l f) (hm : Represents m f) : l.Perm m := by
  refine (List.perm_ext_iff_of_nodup hl.nodup.of_map hm.nodup.of_map).mpr ?_
  rintro ⟨k, v⟩
  rw [hl.mem_iff, hm.mem_iff]

theorem represents_of_nodup [DecidableEq κ] (h : (l.map Prod.fst).Nodup) :
    Represents l fun k => (l.find? fun p => p.1 = k).map Prod.snd := by
  refine ⟨h, ?_⟩
  intro k v
  induction l with
  | nil => simp
  | cons p l ih =>
    obtain ⟨hnew, hrest⟩ := List.nodup_cons.mp h
    by_cases hp : p.1 = k
    · have hnone : (k, v) ∉ l := by
        intro hmem
        exact hnew (hp ▸ List.mem_map_of_mem (f := Prod.fst) hmem)
      simp [List.find?_cons_of_pos, hp, hnone, Prod.ext_iff, eq_comm]
    · rw [List.find?_cons_of_neg (by simpa using hp), ← ih hrest, List.mem_cons]
      have hne : (k, v) ≠ p := fun heq => hp (heq ▸ rfl)
      simp [hne]

theorem Represents.key_mem (h : Represents l f) : k ∈ l.map Prod.fst ↔ f k ≠ none := by
  rw [Option.ne_none_iff_exists']
  simp [h.mem_iff]

variable [DecidableEq κ]

theorem Represents.append (h : Represents l f) (hnew : f k = none) :
    Represents (l ++ [(k, v)]) (Function.update f k (some v)) := by
  refine ⟨?_, ?_⟩
  · rw [List.map_append, List.nodup_append]
    refine ⟨h.nodup, by simp, ?_⟩
    intro a ha b hb hsame
    rw [List.map_singleton, List.mem_singleton] at hb
    obtain rfl : a = k := hsame.trans hb
    exact h.key_mem.mp ha hnew
  · intro a w
    by_cases ha : a = k
    · subst ha
      simp [h.mem_iff, hnew, eq_comm]
    · simp [h.mem_iff, ha]

theorem Represents.replace (h : Represents l f) (hold : f k ≠ none) :
    Represents (l.map fun p => if p.1 = k then (p.1, v) else p)
      (Function.update f k (some v)) := by
  have hkeys : (fun p : κ × β => (if p.1 = k then (p.1, v) else p).1) = Prod.fst := by
    funext p
    split <;> rfl
  refine ⟨?_, ?_⟩
  · rw [List.map_map]
    exact (congrArg List.Nodup (congrArg (List.map · l) hkeys)).mpr h.nodup
  · intro a w
    obtain ⟨old, hold⟩ := Option.ne_none_iff_exists'.mp hold
    by_cases ha : a = k
    · subst ha
      rw [Function.update_self, List.mem_map, Option.some.injEq]
      constructor
      · rintro ⟨p, _, hp⟩
        split at hp
        · exact congrArg Prod.snd hp
        · rename_i hne
          exact absurd (congrArg Prod.fst hp) hne
      · intro hw
        exact ⟨(a, old), (h.mem_iff a old).mpr hold, by simp [hw]⟩
    · rw [Function.update_of_ne ha, ← h.mem_iff, List.mem_map]
      constructor
      · rintro ⟨p, hp, heq⟩
        split at heq
        · rename_i hk
          exact absurd ((congrArg Prod.fst heq).symm.trans hk) ha
        · exact heq ▸ hp
      · intro hmem
        exact ⟨(a, w), hmem, by simp [ha]⟩

theorem Represents.erase (h : Represents l f) :
    Represents (l.filter fun p => p.1 ≠ k) (Function.update f k none) := by
  refine ⟨h.nodup.sublist (List.filter_sublist.map _), ?_⟩
  intro a w
  by_cases ha : a = k
  · subst ha
    simp
  · simp [h.mem_iff, ha]

end Keyed
