import Mathlib.Data.List.Basic

/-!
# Texts cut at a word

`cut` cuts a text over any alphabet at the first occurrence of a word, `splitAll` at all of them.
A word whose first letter stands nowhere else in it cannot overlap itself, so parts without the
word come back from the text that joins them (`splitAll_join`); and what a text is split into never
holds the word (`free_of_mem_splitAll`).
-/

namespace SplitWord

variable {α : Type*}

/-- The first letter of the word stands nowhere else in it. -/
def Solid (word : List α) : Prop := ∃ c tail, word = c :: tail ∧ c ∉ tail

/-- The word does not occur in the text. -/
def Free (word text : List α) : Prop := ¬ word <:+: text

theorem Solid.ne_nil {word : List α} (h : Solid word) : word ≠ [] := by
  obtain ⟨c, tail, rfl, -⟩ := h
  exact List.cons_ne_nil _ _

theorem Free.of_infix {word text part : List α} (h : Free word text) (hpart : part <:+: text) :
    Free word part := fun hword => h (hword.trans hpart)

theorem free_of_not_mem {c : α} {tail text : List α} (h : c ∉ text) : Free (c :: tail) text := by
  intro hword
  obtain ⟨front, back, rfl⟩ := hword
  exact h (by simp)

theorem free_append {c : α} {tail front text : List α} (hfront : c ∉ front)
    (h : Free (c :: tail) text) : Free (c :: tail) (front ++ text) := by
  induction front with
  | nil => exact h
  | cons b front ih =>
    obtain ⟨hb, hfront⟩ := not_or.mp (mt List.mem_cons.mpr hfront)
    intro hword
    rcases List.infix_cons_iff.mp hword with hprefix | hinfix
    · exact hb (List.cons_prefix_cons.mp hprefix).1
    · exact ih hfront hinfix

variable [DecidableEq α] {word text front rest : List α}

/-- The text before the first occurrence of a word and the text after it. -/
def cut (word : List α) : List α → Option (List α × List α)
  | [] => none
  | c :: text =>
    if word.isPrefixOf (c :: text) then some ([], (c :: text).drop word.length)
    else (cut word text).map fun found => (c :: found.1, found.2)

theorem cut_some (hne : word ≠ []) (h : cut word text = some (front, rest)) :
    text = front ++ (word ++ rest) ∧ Free word front := by
  induction text generalizing front with
  | nil => cases h
  | cons c text ih =>
    rw [cut] at h
    split at h
    · next hword =>
      cases h
      obtain ⟨after, hafter⟩ := List.isPrefixOf_iff_prefix.mp hword
      rw [← hafter, List.drop_left]
      exact ⟨rfl, fun hinfix => hne (List.infix_nil.mp hinfix)⟩
    · next hword =>
      obtain ⟨found, hfound, heq⟩ := Option.map_eq_some_iff.mp h
      cases heq
      obtain ⟨htext, hfree⟩ := ih hfound
      refine ⟨congrArg (c :: ·) htext, fun hinfix => ?_⟩
      rcases List.infix_cons_iff.mp hinfix with hprefix | hinfix
      · apply hword
        rw [htext, List.isPrefixOf_iff_prefix]
        exact hprefix.trans (List.prefix_append (c :: found.1) (word ++ found.2))
      · exact hfree hinfix

theorem cut_none (hne : word ≠ []) (h : cut word text = none) : Free word text := by
  induction text with
  | nil => exact fun hinfix => hne (List.infix_nil.mp hinfix)
  | cons c text ih =>
    rw [cut] at h
    split at h
    · cases h
    · next hword =>
      intro hinfix
      rcases List.infix_cons_iff.mp hinfix with hprefix | hinfix
      · exact hword (List.isPrefixOf_iff_prefix.mpr hprefix)
      · exact ih (Option.map_eq_none_iff.mp h) hinfix

/-- **A text without the word** is cut at the one that follows it. -/
theorem cut_append (hword : Solid word) (hfree : Free word front) (rest : List α) :
    cut word (front ++ (word ++ rest)) = some (front, rest) := by
  obtain ⟨c, tail, rfl, hc⟩ := hword
  induction front with
  | nil =>
    rw [List.nil_append, List.cons_append, cut, if_pos]
    · simp
    · rw [List.isPrefixOf_iff_prefix]
      exact List.prefix_append (c :: tail) rest
  | cons b front ih =>
    have hrest := ih (hfree.of_infix (List.infix_cons (List.infix_refl _)))
    rw [List.cons_append, cut, hrest, if_neg]
    · rfl
    · intro hprefix
      rw [List.isPrefixOf_iff_prefix, ← List.cons_append] at hprefix
      rcases Nat.le_total (c :: tail).length (b :: front).length with hshort | hlong
      · exact hfree (List.prefix_of_prefix_length_le hprefix (List.prefix_append _ _)
          hshort).isInfix
      · -- the word would begin in the front and end in the word behind it
        obtain ⟨more, hmore⟩ := List.prefix_of_prefix_length_le (List.prefix_append _ _)
          hprefix hlong
        cases more with
        | nil =>
          rw [List.append_nil] at hmore
          rw [hmore] at hfree
          exact hfree (List.infix_refl _)
        | cons d more =>
          rw [← hmore, List.prefix_append_right_inj, hmore] at hprefix
          have hd : d = c := by
            obtain ⟨after, hafter⟩ := hprefix
            exact (List.cons.inj hafter).1
          have htail : front ++ d :: more = tail := (List.cons.inj hmore).2
          rw [← htail, hd] at hc
          exact hc (by simp)

/-- The text is cut at every occurrence of the word, at most so often. -/
def split (word : List α) : Nat → List α → List (List α)
  | 0, text => [text]
  | fuel + 1, text =>
    match cut word text with
    | none => [text]
    | some (front, rest) => front :: split word fuel rest

/-- The text is cut at every occurrence of the word. -/
def splitAll (word text : List α) : List (List α) := split word text.length text

omit [DecidableEq α] in
theorem length_le_joined (hne : word ≠ []) (more : List (List α)) :
    more.length ≤ (more.flatMap (word ++ ·)).length := by
  have hpos := List.length_pos_iff.mpr hne
  induction more with
  | nil => exact Nat.le_refl _
  | cons second more ih =>
    rw [List.flatMap_cons, List.length_append, List.length_append, List.length_cons]
    omega

/-- **Parts without the word** come back from the text that joins them. -/
theorem splitAll_join (hword : Solid word) {first : List α} {more : List (List α)}
    (hfree : ∀ part ∈ first :: more, Free word part) :
    splitAll word (first ++ more.flatMap (word ++ ·)) = first :: more := by
  have hsplit : ∀ fuel, more.length ≤ fuel →
      split word fuel (first ++ more.flatMap (word ++ ·)) = first :: more := by
    intro fuel hfuel
    induction more generalizing first fuel with
    | nil =>
      rw [List.flatMap_nil, List.append_nil]
      cases fuel with
      | zero => rfl
      | succ fuel =>
        cases hcut : cut word first with
        | none => rw [split, hcut]
        | some found =>
          obtain ⟨htext, -⟩ := cut_some hword.ne_nil hcut
          refine absurd ?_ (hfree first List.mem_cons_self)
          rw [htext]
          exact List.infix_append' _ _ _
    | cons second more ih =>
      obtain ⟨fuel, rfl⟩ := Nat.exists_eq_add_of_le' (Nat.le_trans (Nat.succ_pos _) hfuel)
      have hfirst := hfree first List.mem_cons_self
      rw [List.flatMap_cons, List.append_assoc, split, cut_append hword hfirst]
      have hrest := ih (fun part hpart => hfree part (List.mem_cons_of_mem _ hpart)) fuel
        (Nat.le_of_succ_le_succ hfuel)
      simp only [hrest]
  refine hsplit _ ?_
  have hcount := length_le_joined hword.ne_nil more
  rw [List.length_append]
  omega

/-- What a text is split into never holds the word. -/
theorem free_of_mem_splitAll (hne : word ≠ []) {part : List α} (h : part ∈ splitAll word text) :
    Free word part := by
  have hsplit : ∀ fuel (text : List α), text.length ≤ fuel → part ∈ split word fuel text →
      Free word part := by
    intro fuel
    induction fuel with
    | zero =>
      intro text hfuel hmem
      rw [List.length_eq_zero_iff.mp (Nat.le_zero.mp hfuel)] at hmem
      rw [List.mem_singleton.mp hmem]
      exact fun hinfix => hne (List.infix_nil.mp hinfix)
    | succ fuel ih =>
      intro text hfuel hmem
      rw [split] at hmem
      split at hmem
      · next hcut =>
        rw [List.mem_singleton.mp hmem]
        exact cut_none hne hcut
      · next front rest hcut =>
        obtain ⟨htext, hfree⟩ := cut_some hne hcut
        rcases List.mem_cons.mp hmem with rfl | hmem
        · exact hfree
        · refine ih rest ?_ hmem
          have hlength := congrArg List.length htext
          have hpos := List.length_pos_iff.mpr hne
          rw [List.length_append, List.length_append] at hlength
          omega
  exact hsplit _ text (Nat.le_refl _) h

end SplitWord
