import Mathlib.Data.List.Basic
import Mathlib.Data.List.Nodup
import Mathlib.Logic.Function.Basic

/-!
# Singly linked lists in a memory of cells

A memory is given by its link function `next`: the cell after a cell, or none.
`Seg next p l q` says that following the links from `p` visits exactly the
cells of `l`, in this order, and arrives at `q`; a list ends at `none`.

* `Seg.unique` and `Seg.nodup`: the cells of a list are determined by its head,
  and no cell comes twice;
* `relink` redirects the link that leads out of a prefix, which is the head
  pointer when the prefix is empty and the last cell's link otherwise;
* `Listed` is a list with a head and a tail pointer; `Listed.insert`,
  `Listed.snoc` and `Listed.unlink` are its updates, and `Listed.insert_unlink`
  says that the first undoes the last.
-/

namespace Linked

variable {α : Type*} {next next' : α → Option α} {p q r head tail : Option α} {l m : List α}

/-- Following `next` from `p` visits the cells of `l` and arrives at `q`. -/
def Seg (next : α → Option α) : Option α → List α → Option α → Prop
  | p, [], q => p = q
  | p, a :: l, q => p = some a ∧ Seg next (next a) l q

@[simp] theorem seg_nil : Seg next p [] q ↔ p = q := Iff.rfl

@[simp] theorem seg_cons {a : α} : Seg next p (a :: l) q ↔ p = some a ∧ Seg next (next a) l q :=
  Iff.rfl

theorem seg_append : Seg next p (l ++ m) q ↔ ∃ r, Seg next p l r ∧ Seg next r m q := by
  induction l generalizing p with
  | nil => simp
  | cons a l ih => simp [ih, and_assoc]

theorem Seg.congr (h : Seg next p l q) (hnext : ∀ a ∈ l, next' a = next a) : Seg next' p l q := by
  induction l generalizing p with
  | nil => exact h
  | cons a l ih =>
    refine ⟨h.1, ?_⟩
    rw [hnext a List.mem_cons_self]
    exact ih h.2 fun b hb => hnext b (List.mem_cons_of_mem a hb)

theorem Seg.head_eq (h : Seg next p l none) : p = l.head? := by
  cases l with
  | nil => exact h
  | cons a l => exact h.1

/-- A list is determined by its head. -/
theorem Seg.unique (hl : Seg next p l none) (hm : Seg next p m none) : l = m := by
  induction l generalizing p m with
  | nil =>
    cases m with
    | nil => rfl
    | cons b m =>
      have hp : p = none := hl
      rw [hp] at hm
      exact absurd hm.1 (by simp)
  | cons a l ih =>
    obtain ⟨rfl, hl⟩ := hl
    cases m with
    | nil => exact absurd hm (by simp)
    | cons b m =>
      obtain ⟨hab, hm⟩ := hm
      obtain rfl : a = b := by simpa using hab
      rw [ih hl hm]

/-- No cell comes twice in a list. -/
theorem Seg.nodup (h : Seg next p l none) : l.Nodup := by
  induction l generalizing p with
  | nil => exact List.nodup_nil
  | cons a l ih =>
    obtain ⟨-, hl⟩ := h
    refine List.nodup_cons.mpr ⟨fun ha => ?_, ih hl⟩
    -- a second visit to `a` would make the rest of the list its own proper tail
    obtain ⟨l₁, l₂, rfl⟩ := List.append_of_mem ha
    obtain ⟨_, -, hagain⟩ := seg_append.mp hl
    have hsame := congrArg List.length (hl.unique hagain.2)
    simp at hsame
    omega

section Update

variable [DecidableEq α] {a b : α} {v : Option α}

theorem Seg.update (h : Seg next p l q) (ha : a ∉ l) : Seg (Function.update next a v) p l q := by
  refine h.congr fun b hb => Function.update_of_ne (fun hba : b = a => ha ?_) _ _
  rwa [hba] at hb

/-- The links and the head after the link out of a prefix has been redirected to
`v`; `previous` is the last cell of the prefix. -/
def relink (next : α → Option α) (head previous v : Option α) : (α → Option α) × Option α :=
  match previous with
  | none => (next, v)
  | some b => (Function.update next b v, head)

/-- Redirecting the link out of `l` leads `l` to the new place. -/
theorem Seg.relink (h : Seg next head l r) (hl : l.Nodup) :
    Seg (relink next head l.getLast? v).1 (relink next head l.getLast? v).2 l v := by
  rcases List.eq_nil_or_concat l with rfl | ⟨l, b, rfl⟩
  · exact rfl
  · rw [List.concat_eq_append] at h hl ⊢
    have hb : b ∉ l := fun hb =>
      (List.nodup_append.mp hl).2.2 b hb b List.mem_cons_self rfl
    obtain ⟨r, h, rfl, -⟩ := seg_append.mp h
    rw [List.getLast?_append]
    exact seg_append.mpr ⟨some b, h.update hb, rfl, Function.update_self _ _ _⟩

theorem Seg.relink_frame (h : Seg next p m q) (hlm : ∀ b ∈ l, b ∉ m) :
    Seg (Linked.relink next head l.getLast? v).1 p m q := by
  rcases hlast : l.getLast? with _ | b
  · exact h
  · exact h.update (hlm b (List.mem_of_getLast? hlast))

theorem relink_of_notMem (ha : a ∉ l) : (relink next head l.getLast? v).1 a = next a := by
  rcases hlast : l.getLast? with _ | b
  · rfl
  · refine Function.update_of_ne (fun hab => ha ?_) _ _
    rw [hab]
    exact List.mem_of_getLast? hlast

end Update

/-! ## Lists with a tail pointer -/

/-- The cells of `l` are linked from `head`, and `tail` is the last of them. -/
structure Listed (next : α → Option α) (head tail : Option α) (l : List α) : Prop where
  seg : Seg next head l none
  tail_eq : tail = l.getLast?

theorem Listed.nil : Listed next none none [] := ⟨rfl, rfl⟩

theorem Listed.nodup (h : Listed next head tail l) : l.Nodup := h.seg.nodup

theorem Listed.tail_none_iff (h : Listed next head tail l) : tail = none ↔ head = none := by
  rw [h.tail_eq, h.seg.head_eq, List.getLast?_eq_none_iff, List.head?_eq_none_iff]

theorem Listed.congr (h : Listed next head tail l) (hnext : ∀ a ∈ l, next' a = next a) :
    Listed next' head tail l :=
  ⟨h.seg.congr hnext, h.tail_eq⟩

section Update

variable [DecidableEq α] {a : α} {l₁ l₂ : List α}

/-- A cell linked in between `l₁` and `l₂`. -/
theorem Listed.insert (h : Listed next head tail (l₁ ++ l₂)) (ha : a ∉ l₁ ++ l₂) :
    Listed (relink (Function.update next a l₂.head?) head l₁.getLast? (some a)).1
      (relink (Function.update next a l₂.head?) head l₁.getLast? (some a)).2
      (if l₂.head? = none then some a else tail) (l₁ ++ a :: l₂) := by
  have hnodup := List.nodup_append.mp h.nodup
  have ha₁ : a ∉ l₁ := fun h₁ => ha (List.mem_append_left _ h₁)
  have ha₂ : a ∉ l₂ := fun h₂ => ha (List.mem_append_right _ h₂)
  obtain ⟨r, h₁, h₂⟩ := seg_append.mp h.seg
  have hr := h₂.head_eq
  subst hr
  refine ⟨seg_append.mpr ⟨some a, (h₁.update ha₁).relink hnodup.1, rfl, ?_⟩, ?_⟩
  · rw [relink_of_notMem ha₁, Function.update_self]
    exact (h₂.update ha₂).relink_frame fun b hb₁ hb₂ => hnodup.2.2 b hb₁ b hb₂ rfl
  · rcases l₂ with _ | ⟨c, l₂⟩
    · simp
    · simp [h.tail_eq]

/-- A cell linked in at the end. -/
theorem Listed.snoc (h : Listed next head tail l) (ha : a ∉ l) :
    Listed (relink (Function.update next a none) head tail (some a)).1
      (relink (Function.update next a none) head tail (some a)).2 (some a) (l ++ [a]) := by
  have hl : Listed next head tail (l ++ []) := by rwa [List.append_nil]
  have hinsert := hl.insert (a := a) (by rwa [List.append_nil])
  rw [h.tail_eq]
  exact hinsert

section

variable (h : Listed next head tail (l₁ ++ a :: l₂))
include h

/-- A cell linked out of the middle; its own link is cleared. -/
theorem Listed.unlink :
    Listed (Function.update (relink next head l₁.getLast? (next a)).1 a none)
      (relink next head l₁.getLast? (next a)).2
      (if tail = some a then l₁.getLast? else tail) (l₁ ++ l₂) := by
  have hnodup := List.nodup_append.mp h.nodup
  have ha₁ : a ∉ l₁ := fun h₁ => hnodup.2.2 a h₁ a List.mem_cons_self rfl
  have ha₂ : a ∉ l₂ := (List.nodup_cons.mp hnodup.2.1).1
  obtain ⟨r, h₁, rfl, h₂⟩ := seg_append.mp h.seg
  refine ⟨seg_append.mpr ⟨next a, (h₁.relink hnodup.1).update ha₁, ?_⟩, ?_⟩
  · refine (h₂.relink_frame fun b hb₁ hb₂ => ?_).update ha₂
    exact hnodup.2.2 b hb₁ b (List.mem_cons_of_mem a hb₂) rfl
  · rw [h.tail_eq]
    rcases List.eq_nil_or_concat l₂ with rfl | ⟨l₂, c, rfl⟩
    · simp
    · have hca : c ≠ a := by
        rintro rfl
        exact ha₂ (by simp)
      simp [List.getLast?_cons, List.getLast?_append, hca]

/-- **A cell linked back.**  Linking a cell out of the middle and in again leaves
the links and the head as they were. -/
theorem Listed.insert_unlink :
    relink
        (Function.update
          (Function.update (relink next head l₁.getLast? (next a)).1 a none) a l₂.head?)
        (relink next head l₁.getLast? (next a)).2 l₁.getLast? (some a) = (next, head) := by
  have hnodup := List.nodup_append.mp h.nodup
  obtain ⟨r, h₁, rfl, h₂⟩ := seg_append.mp h.seg
  have hnext : next a = l₂.head? := h₂.head_eq
  rw [Function.update_idem]
  rcases List.eq_nil_or_concat l₁ with rfl | ⟨l₁, b, rfl⟩
  · have hhead : head = some a := h₁
    simp only [List.getLast?_nil, relink]
    rw [← hnext, Function.update_eq_self, hhead]
  · rw [List.concat_eq_append] at h₁ hnodup ⊢
    have hba : b ≠ a := fun hba => hnodup.2.2 b (by simp) a List.mem_cons_self hba
    obtain ⟨_, -, -, hb⟩ := seg_append.mp h₁
    have hb : next b = some a := hb
    rw [List.getLast?_concat]
    simp only [relink]
    rw [← hnext, Function.update_comm hba, Function.update_idem, ← hb, Function.update_comm hba.symm,
      Function.update_eq_self, Function.update_eq_self]

theorem Listed.tail_insert_unlink :
    (if l₂.head? = none then some a
      else if tail = some a then l₁.getLast? else tail) = tail := by
  have hnodup := (List.nodup_append.mp h.nodup).2.1
  rw [h.tail_eq]
  rcases List.eq_nil_or_concat l₂ with rfl | ⟨l₂, b, rfl⟩
  · simp
  · have hba : b ≠ a := fun hba => (List.nodup_cons.mp hnodup).1 (by simp [hba])
    simp [List.getLast?_cons, List.getLast?_append, hba]

end

end Update

end Linked
