import Dcc.Lib.Lines

/-!
# Lines read through a buffer

A text is read line by line into a buffer of limited size.  A line that does not fit comes in
pieces, and a reader that takes each piece for a line reads another text.

* `pieces` — what a buffer gets;
* `pieces_eq_flatMap` — the pieces of a text are the pieces of its lines;
* `pieces_of_le`, `pieces_of_lt` — a line that fits is one piece, and a longer one is cut.
-/

namespace LineReader

open Lines

variable {α : Type*} [DecidableEq α] (t : α)

/-- One read: up to the end of the line, and no more than `limit`. -/
def takeLine : Nat → List α → List α × List α
  | 0, rest => ([], rest)
  | _ + 1, [] => ([], [])
  | limit + 1, b :: rest =>
    if b = t then ([b], rest)
    else (b :: (takeLine limit rest).1, (takeLine limit rest).2)

theorem takeLine_length (limit : Nat) (text : List α) :
    (takeLine t limit text).2.length ≤ text.length := by
  induction text generalizing limit with
  | nil => cases limit <;> simp [takeLine]
  | cons b rest ih =>
    cases limit with
    | zero => simp [takeLine]
    | succ limit =>
      rw [takeLine]
      split
      · simp
      · exact Nat.le_succ_of_le (ih limit)

variable {limit : Nat}

theorem takeLine_lt {text : List α} (hlimit : limit ≠ 0) (htext : text ≠ []) :
    (takeLine t limit text).2.length < text.length := by
  obtain ⟨limit, rfl⟩ := Nat.exists_eq_succ_of_ne_zero hlimit
  obtain ⟨b, rest, rfl⟩ := List.exists_cons_of_ne_nil htext
  rw [takeLine]
  split
  · simp
  · exact Nat.lt_succ_of_le (takeLine_length t limit rest)

/-- All reads. -/
def pieces (limit : Nat) (text : List α) : List (List α) :=
  if _h : limit ≠ 0 ∧ text ≠ [] then
    (takeLine t limit text).1 :: pieces limit (takeLine t limit text).2
  else []
termination_by text.length
decreasing_by exact takeLine_lt t _h.1 _h.2

variable {t}

theorem pieces_nil (limit : Nat) : pieces t limit [] = [] := by
  rw [pieces]
  simp

theorem pieces_of_ne {text : List α} (hlimit : limit ≠ 0) (htext : text ≠ []) :
    pieces t limit text =
      (takeLine t limit text).1 :: pieces t limit (takeLine t limit text).2 := by
  rw [pieces]
  exact dif_pos ⟨hlimit, htext⟩

/-- A line and what follows it: something follows only where the line has its end. -/
inductive Line (t : α) : List α → List α → Prop
  | last (b : α) : Line t [b] []
  | ended (rest : List α) : Line t [t] rest
  | more {b : α} {line rest : List α} (h : b ≠ t) (hline : Line t line rest) :
      Line t (b :: line) rest

variable {line rest : List α}

omit [DecidableEq α] in
theorem Line.ne_nil (h : Line t line rest) : line ≠ [] := by
  cases h <;> simp

theorem exists_line {text : List α} (htext : text ≠ []) :
    ∃ line rest, text = line ++ rest ∧ Line t line rest := by
  induction text with
  | nil => exact absurd rfl htext
  | cons b rest ih =>
    by_cases hend : b = t
    · subst hend
      exact ⟨[b], rest, rfl, .ended rest⟩
    · by_cases hrest : rest = []
      · subst hrest
        exact ⟨[b], [], rfl, .last b⟩
      · obtain ⟨line, after, hsplit, hline⟩ := ih hrest
        exact ⟨b :: line, after, by rw [hsplit]; rfl, .more hend hline⟩

section

variable (h : Line t line rest)
include h

theorem lines_append :
    lines t (line ++ rest) = line :: lines t rest := by
  induction h with
  | last b => by_cases hb : b = t <;> simp [lines, hb]
  | ended rest => simp [lines]
  | more hb _ ih => simp [lines, hb, ih]

omit [DecidableEq α] in
theorem Line.drop (hlong : limit < line.length) : Line t (line.drop limit) rest := by
  induction h generalizing limit with
  | last b =>
    have hzero : limit = 0 := by simpa using hlong
    rw [hzero]
    exact .last b
  | ended rest =>
    have hzero : limit = 0 := by simpa using hlong
    rw [hzero]
    exact .ended rest
  | more hb hline ih =>
    cases limit with
    | zero => exact .more hb hline
    | succ limit => exact ih (by simpa using hlong)

theorem takeLine_append (limit : Nat) :
    takeLine t limit (line ++ rest) = (line.take limit, line.drop limit ++ rest) := by
  induction h generalizing limit with
  | last b =>
    cases limit with
    | zero => rfl
    | succ limit =>
      cases limit with
      | zero => by_cases hb : b = t <;> simp [takeLine, hb]
      | succ limit => by_cases hb : b = t <;> simp [takeLine, hb]
  | ended rest =>
    cases limit with
    | zero => rfl
    | succ limit => simp [takeLine]
  | more hb _ ih =>
    cases limit with
    | zero => rfl
    | succ limit => simp [takeLine, hb, ih limit]

omit [DecidableEq α] in
theorem Line.alone : Line t line [] := by
  induction h with
  | last b => exact .last b
  | ended _ => exact .ended []
  | more hb _ ih => exact .more hb ih

/-- A line that fits is one piece. -/
theorem pieces_of_le (hlimit : limit ≠ 0) (hfits : line.length ≤ limit) :
    pieces t limit line = [line] := by
  have hread := takeLine_append h.alone limit
  rw [List.append_nil, List.take_of_length_le hfits, List.drop_of_length_le hfits] at hread
  rw [pieces_of_ne hlimit h.ne_nil, hread, List.append_nil, pieces_nil]

/-- A longer line is cut. -/
theorem pieces_of_lt (hlimit : limit ≠ 0) :
    pieces t limit line = line.take limit :: pieces t limit (line.drop limit) := by
  have hread := takeLine_append h.alone limit
  rw [List.append_nil, List.append_nil] at hread
  rw [pieces_of_ne hlimit h.ne_nil, hread]

theorem pieces_append (hlimit : limit ≠ 0) :
    pieces t limit (line ++ rest) = pieces t limit line ++ pieces t limit rest := by
  induction hn : line.length using Nat.strongRecOn generalizing line with
  | ind n ih =>
    have hne : line ++ rest ≠ [] := List.append_ne_nil_of_left_ne_nil h.ne_nil rest
    rw [pieces_of_ne hlimit hne, takeLine_append h, pieces_of_lt h hlimit, List.cons_append]
    congr 1
    by_cases hfits : line.length ≤ limit
    · rw [List.drop_of_length_le hfits, pieces_nil]
      rfl
    · have hshorter : (line.drop limit).length < n := by
        rw [List.length_drop]
        omega
      exact ih _ hshorter (h.drop (by omega)) rfl

end

theorem text_induction {motive : List α → Prop} (nil : motive [])
    (line : ∀ line rest, Line t line rest → motive rest → motive (line ++ rest))
    (text : List α) : motive text := by
  induction hn : text.length using Nat.strongRecOn generalizing text with
  | ind n ih =>
    by_cases htext : text = []
    · rw [htext]
      exact nil
    · obtain ⟨first, rest, hsplit, hline⟩ := @exists_line _ _ t _ htext
      have hshorter : rest.length < n := by
        have hpos := List.length_pos_of_ne_nil hline.ne_nil
        rw [← hn, hsplit, List.length_append]
        omega
      rw [hsplit]
      exact line first rest hline (ih _ hshorter rest rfl)

/-- **The pieces of a text** are the pieces of its lines. -/
theorem pieces_eq_flatMap (hlimit : limit ≠ 0) (text : List α) :
    pieces t limit text = (lines t text).flatMap (pieces t limit) := by
  induction text using @text_induction _ _ t with
  | nil =>
    rw [pieces_nil]
    rfl
  | line line rest hline ih =>
    rw [pieces_append hline hlimit, lines_append hline, List.flatMap_cons, ih]

theorem line_of_mem {text line : List α} (h : line ∈ lines t text) :
    ∃ rest, Line t line rest := by
  induction text using @text_induction _ _ t with
  | nil => cases h
  | line first rest hline ih =>
    rw [lines_append hline] at h
    rcases List.mem_cons.mp h with rfl | h
    · exact ⟨rest, hline⟩
    · exact ih h

end LineReader
