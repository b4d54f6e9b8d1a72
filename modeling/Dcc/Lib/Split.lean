import Mathlib.Data.List.Basic

/-!
# Texts split at a separator

`List.splitOn` cuts a text over any alphabet at every occurrence of a separator.
The parts are the stretches without a separator that lie between separators or
the ends of the text (`between_of_mem`, `mem_of_between`).
-/

namespace Split

variable {α : Type*} [DecidableEq α] {a : α} {text part pre post : List α}

/-- Nothing but a separator stands in front of a stretch and behind it. -/
def Between (a : α) (pre post : List α) : Prop :=
  (∀ c ∈ pre.getLast?, c = a) ∧ ∀ c ∈ post.head?, c = a

/-- Parts have no separator and stand between separators. -/
theorem between_of_mem (h : part ∈ text.splitOn a) :
    a ∉ part ∧ ∃ pre post, text = pre ++ (part ++ post) ∧ Between a pre post := by
  induction hlength : text.length using Nat.strongRecOn generalizing text with
  | ind n ih =>
    by_cases hmem : a ∈ text
    · obtain ⟨front, back, rfl, hfront⟩ := List.eq_append_cons_of_mem hmem
      rw [List.splitOn_append_cons_self, List.splitOn_eq_singleton hfront, List.singleton_append,
        List.mem_cons] at h
      obtain rfl | h := h
      · exact ⟨hfront, [], a :: back, rfl, by simp [Between]⟩
      · have hshorter : back.length < n := by
          rw [← hlength, List.length_append, List.length_cons]
          omega
        obtain ⟨hpart, pre, post, rfl, hpre, hpost⟩ := ih _ hshorter h rfl
        refine ⟨hpart, front ++ a :: pre, post, by simp, fun c hc => ?_, hpost⟩
        rw [List.getLast?_append_of_ne_nil _ (List.cons_ne_nil _ _), List.getLast?_cons] at hc
        cases hlast : pre.getLast? with
        | none =>
          rw [hlast] at hc
          exact (Option.some.inj hc).symm
        | some d =>
          rw [hlast] at hc
          exact hpre c (by rw [hlast]; exact hc)
    · rw [List.splitOn_eq_singleton hmem, List.mem_singleton] at h
      subst h
      exact ⟨hmem, [], [], by simp, by simp [Between]⟩

/-- What stands between separators, and has none, is a part. -/
theorem mem_of_between (hpart : a ∉ part) (h : Between a pre post) :
    part ∈ (pre ++ (part ++ post)).splitOn a := by
  have hrest : part ∈ (part ++ post).splitOn a := by
    cases post with
    | nil => rw [List.append_nil, List.splitOn_eq_singleton hpart, List.mem_singleton]
    | cons c post =>
      obtain rfl : c = a := h.2 c rfl
      rw [List.splitOn_append_cons_self, List.splitOn_eq_singleton hpart]
      simp
  obtain rfl | ⟨front, c, rfl⟩ := List.eq_nil_or_concat pre
  · exact hrest
  · rw [List.concat_eq_append] at h ⊢
    obtain rfl : c = a := h.1 c (by simp)
    rw [List.append_assoc, List.singleton_append, List.splitOn_append_cons_self]
    exact List.mem_append_right _ hrest

end Split
