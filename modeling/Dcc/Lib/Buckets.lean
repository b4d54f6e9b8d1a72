import Mathlib.Data.List.Basic
import Mathlib.Data.List.Perm.Basic

/-!
# Rows of chains

A hash table with separate chaining is a row of chains, and what it holds is the
row flattened.  The lemmas here say what writing one chain, pushing onto one,
taking the first match out of the row and distributing a list over a new row do
to the flattened row (up to order) and to the place of each element.
-/

namespace Buckets

variable {α : Type*} {chains : List (List α)} {slot : α → Nat} {a : α}

/-- Every element stands in the chain that `slot` selects for it. -/
def Placed (slot : α → Nat) (chains : List (List α)) : Prop :=
  ∀ i chain, chains[i]? = some chain → ∀ a ∈ chain, slot a = i

variable {i : Nat}

theorem flatten_set_perm (h : i < chains.length) (chain : List α) :
    (chains.set i chain).flatten.Perm (chain ++ (chains.eraseIdx i).flatten) := by
  induction chains generalizing i with
  | nil => simp at h
  | cons first rest ih =>
    cases i with
    | zero => simp
    | succ i =>
      have hrest := ih (i := i) (by simpa using h)
      have hswap : (first ++ (chain ++ (rest.eraseIdx i).flatten)).Perm
          (chain ++ (first ++ (rest.eraseIdx i).flatten)) := by
        rw [← List.append_assoc, ← List.append_assoc]
        exact List.perm_append_comm.append_right _
      simpa using (hrest.append_left first).trans hswap

theorem flatten_perm (h : i < chains.length) :
    chains.flatten.Perm (chains[i] ++ (chains.eraseIdx i).flatten) := by
  have hset := flatten_set_perm h chains[i]
  rwa [List.set_getElem_self] at hset

theorem Placed.mem_chain (h : Placed slot chains) (ha : a ∈ chains.flatten) :
    ∃ chain, chains[slot a]? = some chain ∧ a ∈ chain := by
  obtain ⟨chain, hchain, hmem⟩ := List.mem_flatten.mp ha
  obtain ⟨i, hi⟩ := List.mem_iff_getElem?.mp hchain
  rw [h i chain hi a hmem]
  exact ⟨chain, hi, hmem⟩

theorem Placed.set (h : Placed slot chains) {chain : List α}
    (hchain : ∀ a ∈ chain, slot a = i) : Placed slot (chains.set i chain) := by
  intro j other hj b hb
  by_cases hij : i = j
  · subst hij
    have hlt : i < chains.length := by
      by_contra hge
      rw [List.getElem?_eq_none (by simpa using Nat.not_lt.mp hge)] at hj
      simp at hj
    rw [List.getElem?_set_self hlt] at hj
    obtain rfl := Option.some.inj hj
    exact hchain b hb
  · rw [List.getElem?_set_ne hij] at hj
    exact h j other hj b hb

/-- The row without the first element, in the order of the chains, that satisfies
`p`. -/
def eraseFirst (p : α → Bool) : List (List α) → List (List α)
  | [] => []
  | chain :: rest =>
    if chain.any p then chain.eraseP p :: rest else chain :: eraseFirst p rest

theorem flatten_eraseFirst (p : α → Bool) (chains : List (List α)) :
    (eraseFirst p chains).flatten = chains.flatten.eraseP p := by
  induction chains with
  | nil => rfl
  | cons chain rest ih =>
    unfold eraseFirst
    split
    · next hany =>
      obtain ⟨a, ha, hp⟩ := List.any_eq_true.mp hany
      rw [List.flatten_cons, List.flatten_cons, List.eraseP_append_left hp _ ha]
    · next hnone =>
      have hnot : ∀ a ∈ chain, ¬ p a = true := by
        intro a ha hp
        exact hnone (List.any_eq_true.mpr ⟨a, ha, hp⟩)
      rw [List.flatten_cons, List.flatten_cons, List.eraseP_append_right _ hnot, ih]

theorem length_eraseFirst (p : α → Bool) (chains : List (List α)) :
    (eraseFirst p chains).length = chains.length := by
  induction chains with
  | nil => rfl
  | cons chain rest ih =>
    unfold eraseFirst
    split
    · rfl
    · rw [List.length_cons, List.length_cons, ih]

theorem Placed.eraseFirst (h : Placed slot chains) (p : α → Bool) :
    Placed slot (eraseFirst p chains) := by
  have hsub : ∀ (row : List (List α)) (i : Nat) (chain : List α),
      (Buckets.eraseFirst p row)[i]? = some chain →
      ∃ old : List α, row[i]? = some old ∧ chain ⊆ old := by
    intro row
    induction row with
    | nil => simp [Buckets.eraseFirst]
    | cons first rest ih =>
      intro i chain hi
      unfold Buckets.eraseFirst at hi
      split at hi
      · cases i with
        | zero =>
          obtain rfl : first.eraseP p = chain := by simpa using hi
          exact ⟨first, rfl, List.eraseP_subset⟩
        | succ i => exact ⟨chain, by simpa using hi, List.Subset.refl _⟩
      · cases i with
        | zero =>
          obtain rfl : first = chain := by simpa using hi
          exact ⟨first, rfl, List.Subset.refl _⟩
        | succ i => simpa using ih i chain (by simpa using hi)
  intro i chain hi a ha
  obtain ⟨old, hold, hmem⟩ := hsub chains i chain hi
  exact h i old hold a (hmem ha)

theorem eraseP_eq_filter {p : α → Bool} {l : List α}
    (h : l.Pairwise (fun a b => p a → p b → False)) : l.eraseP p = l.filter (fun a => !p a) := by
  induction l with
  | nil => rfl
  | cons a rest ih =>
    rw [List.pairwise_cons] at h
    by_cases ha : p a = true
    · have hrest : rest.filter (fun b => !p b) = rest := by
        refine List.filter_eq_self.mpr ?_
        intro b hb
        simpa using h.1 b hb ha
      rw [List.eraseP_cons_of_pos ha, List.filter_cons_of_neg (by simpa using ha), hrest]
    · rw [List.eraseP_cons_of_neg ha, List.filter_cons_of_pos (by simpa using ha), ih h.2]

/-- A list with the first element that satisfies `p` changed by `f`. -/
def modifyFirst (p : α → Bool) (f : α → α) : List α → List α
  | [] => []
  | a :: rest => if p a then f a :: rest else a :: modifyFirst p f rest

theorem modifyFirst_perm {p : α → Bool} {f : α → α} {l : List α} (h : l.find? p = some a) :
    (modifyFirst p f l).Perm (f a :: l.eraseP p) := by
  induction l with
  | nil => simp at h
  | cons b rest ih =>
    by_cases hb : p b = true
    · rw [List.find?_cons_of_pos hb] at h
      obtain rfl := Option.some.inj h
      rw [modifyFirst, if_pos hb, List.eraseP_cons_of_pos hb]
    · rw [List.find?_cons_of_neg hb] at h
      rw [modifyFirst, if_neg hb, List.eraseP_cons_of_neg hb]
      exact ((ih h).cons b).trans (List.Perm.swap _ _ _)

/-- Pushing an element onto the front of one chain. -/
def pushAt (chains : List (List α)) (i : Nat) (a : α) : List (List α) :=
  chains.set i (a :: chains.getD i [])

theorem length_pushAt (chains : List (List α)) (i : Nat) (a : α) :
    (pushAt chains i a).length = chains.length := by simp [pushAt]

theorem flatten_pushAt_perm (h : i < chains.length) (a : α) :
    (pushAt chains i a).flatten.Perm (a :: chains.flatten) := by
  have hget : chains.getD i [] = chains[i] := by simp [List.getD_eq_getElem?_getD, h]
  rw [pushAt, hget]
  exact (flatten_set_perm h _).trans ((flatten_perm h).symm.cons a)

theorem Placed.pushAt (h : Placed slot chains) : Placed slot (pushAt chains (slot a) a) := by
  refine h.set ?_
  intro b hb
  rcases List.mem_cons.mp hb with rfl | hb
  · rfl
  · cases hchain : chains[slot a]? with
    | none => simp [List.getD_eq_getElem?_getD, hchain] at hb
    | some chain =>
      rw [List.getD_eq_getElem?_getD, hchain] at hb
      exact h (slot a) chain hchain b hb

/-- The elements of a list, distributed over `n` new chains. -/
def distribute (slot : α → Nat) (n : Nat) (elements : List α) : List (List α) :=
  elements.foldl (fun row a => pushAt row (slot a) a) (List.replicate n [])

theorem foldl_pushAt {n : Nat} (hslot : ∀ a, slot a < n) (elements : List α)
    (row : List (List α)) (hlength : row.length = n) (hplaced : Placed slot row) :
    (elements.foldl (fun row a => pushAt row (slot a) a) row).length = n ∧
      Placed slot (elements.foldl (fun row a => pushAt row (slot a) a) row) ∧
      (elements.foldl (fun row a => pushAt row (slot a) a) row).flatten.Perm
        (elements ++ row.flatten) := by
  induction elements generalizing row with
  | nil => exact ⟨hlength, hplaced, List.Perm.refl _⟩
  | cons a elements ih =>
    have hlt : slot a < row.length := by
      rw [hlength]
      exact hslot a
    obtain ⟨hlen, hrow, hperm⟩ := ih (Buckets.pushAt row (slot a) a)
      ((length_pushAt _ _ _).trans hlength) hplaced.pushAt
    refine ⟨hlen, hrow, hperm.trans ?_⟩
    exact ((flatten_pushAt_perm hlt a).append_left elements).trans List.perm_middle

theorem placed_replicate (slot : α → Nat) (n : Nat) : Placed slot (List.replicate n []) := by
  intro i chain hi a ha
  obtain ⟨-, rfl⟩ : i < n ∧ [] = chain := by simpa [List.getElem?_replicate] using hi
  simp at ha

theorem distribute_spec {n : Nat} (hslot : ∀ a, slot a < n) (elements : List α) :
    (distribute slot n elements).length = n ∧ Placed slot (distribute slot n elements) ∧
      (distribute slot n elements).flatten.Perm elements := by
  have hspec := foldl_pushAt hslot elements (List.replicate n []) (by simp)
    (placed_replicate slot n)
  simpa [distribute] using hspec

end Buckets
