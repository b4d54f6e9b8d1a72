import Mathlib.Data.List.Basic
import Mathlib.Data.List.TakeWhile

/-!
# Texts cut into lines

A text over any alphabet is cut after every terminator; the last line may lack
its terminator.  A text is its lines put together again (`lines_flatten`), and
lines put together are cut where they were joined (`lines_of_cut`), so copying
some of the lines of a text gives a text with exactly those lines.
-/

namespace Lines

variable {α : Type*} [DecidableEq α] {t : α}

/-- The lines of a text, each with its terminator. -/
def lines (t : α) : List α → List (List α)
  | [] => []
  | c :: p =>
    if c = t then [c] :: lines t p
    else
      match lines t p with
      | [] => [[c]]
      | l :: ls => (c :: l) :: ls

/-- A line without its terminator. -/
def content (t : α) (l : List α) : List α := if l.getLast? = some t then l.dropLast else l

/-- A line with its terminator. -/
def Terminated (t : α) (l : List α) : Prop := ∃ w, t ∉ w ∧ l = w ++ [t]

/-- A row of lines of which only the last may lack its terminator. -/
inductive Cut (t : α) : List (List α) → Prop
  | nil : Cut t []
  | last {l : List α} (hne : l ≠ []) (hl : t ∉ l) : Cut t [l]
  | cons {l : List α} {ls : List (List α)} (hl : Terminated t l) (h : Cut t ls) : Cut t (l :: ls)

theorem content_of_terminated {w : List α} : content t (w ++ [t]) = w := by
  simp [content]

theorem content_of_open {l : List α} (hl : t ∉ l) : content t l = l := by
  rw [content, if_neg]
  intro hlast
  exact hl (List.mem_of_getLast? hlast)

/-- **A text is its lines put together.** -/
theorem lines_flatten (p : List α) : (lines t p).flatten = p := by
  induction p with
  | nil => rfl
  | cons c p ih =>
    rw [lines]
    split
    · rw [List.flatten_cons, ih]
      rfl
    · cases hp : lines t p with
      | nil =>
        rw [hp] at ih
        rw [← ih]
        rfl
      | cons l ls =>
        rw [hp] at ih
        rw [← ih]
        rfl

theorem lines_eq_cons {p : List α} (hp : p ≠ []) :
    lines t p = (p.takeWhile (· ≠ t) ++ (p.dropWhile (· ≠ t)).take 1) ::
        lines t ((p.dropWhile (· ≠ t)).drop 1) := by
  induction p with
  | nil => exact absurd rfl hp
  | cons c p ih =>
    by_cases hc : c = t
    · subst hc
      simp [lines]
    · have htake : (c :: p).takeWhile (· ≠ t) = c :: p.takeWhile (· ≠ t) := by
        simp [hc]
      have hdrop : (c :: p).dropWhile (· ≠ t) = p.dropWhile (· ≠ t) := by
        simp [hc]
      rw [lines, if_neg hc, htake, hdrop]
      by_cases hnil : p = []
      · subst hnil
        simp [lines]
      · rw [ih hnil]
        rfl

theorem content_first (p : List α) :
    content t (p.takeWhile (· ≠ t) ++ (p.dropWhile (· ≠ t)).take 1) = p.takeWhile (· ≠ t) := by
  have hopen : t ∉ p.takeWhile (· ≠ t) := by
    intro hmem
    simpa using List.mem_takeWhile_imp hmem
  cases hrest : p.dropWhile (· ≠ t) with
  | nil => simpa using content_of_open hopen
  | cons c q =>
    have hc : c = t := by
      have hhead := List.head?_dropWhile_not (· ≠ t) p
      rw [hrest] at hhead
      simpa using hhead
    subst hc
    exact content_of_terminated

theorem lines_terminated_append {l : List α} (hl : Terminated t l) (p : List α) :
    lines t (l ++ p) = l :: lines t p := by
  obtain ⟨w, hw, rfl⟩ := hl
  induction w with
  | nil => simp [lines]
  | cons c w ih =>
    have hc : c ≠ t := fun h => hw (h ▸ List.mem_cons_self)
    have hrest := ih fun h => hw (List.mem_cons_of_mem _ h)
    rw [List.cons_append, List.cons_append, lines, if_neg hc, hrest]

theorem lines_open {l : List α} (hne : l ≠ []) (hl : t ∉ l) : lines t l = [l] := by
  induction l with
  | nil => exact absurd rfl hne
  | cons c l ih =>
    have hc : c ≠ t := fun h => hl (h ▸ List.mem_cons_self)
    rw [lines, if_neg hc]
    by_cases hnil : l = []
    · subst hnil
      rfl
    · rw [ih hnil fun h => hl (List.mem_cons_of_mem _ h)]

variable {ls : List (List α)}

/-- **Lines put together are cut where they were joined.** -/
theorem lines_of_cut (h : Cut t ls) : lines t ls.flatten = ls := by
  induction h with
  | nil => rfl
  | last hne hl =>
    rw [List.flatten_cons, List.flatten_nil, List.append_nil]
    exact lines_open hne hl
  | cons hl _ ih => rw [List.flatten_cons, lines_terminated_append hl, ih]

theorem cut_lines (p : List α) : Cut t (lines t p) := by
  induction p with
  | nil => exact Cut.nil
  | cons c p ih =>
    rw [lines]
    split
    · next hc => exact Cut.cons ⟨[], by simp, by rw [hc]; rfl⟩ ih
    · next hc =>
      cases hp : lines t p with
      | nil => exact Cut.last (by simp) (by simpa using Ne.symm hc)
      | cons l ls =>
        rw [hp] at ih
        cases ih with
        | last hne hl => exact Cut.last (by simp) (by simp [hl, Ne.symm hc])
        | cons hl h =>
          obtain ⟨w, hw, rfl⟩ := hl
          exact Cut.cons ⟨c :: w, by simp [hw, Ne.symm hc], rfl⟩ h

omit [DecidableEq α] in
theorem Cut.filter (h : Cut t ls) (keep : List α → Bool) :
    Cut t (ls.filter keep) := by
  induction h with
  | nil => exact Cut.nil
  | @last l hne hl =>
    by_cases hkeep : keep l = true
    · rw [List.filter_cons_of_pos hkeep]
      exact Cut.last hne hl
    · rw [List.filter_cons_of_neg hkeep]
      exact Cut.nil
  | @cons l ls hl _ ih =>
    by_cases hkeep : keep l = true
    · rw [List.filter_cons_of_pos hkeep]
      exact Cut.cons hl ih
    · rw [List.filter_cons_of_neg hkeep]
      exact ih

/-- The contents of the lines of a text. -/
def contents (t : α) (p : List α) : List (List α) := (lines t p).map (content t)

/-- Appending a terminator to an unterminated text changes no content, and the
text is then cut before anything that follows. -/
theorem contents_closed (h : Cut t ls) (p : List α) :
    contents t (ls.flatten ++
        ((if ls.flatten ≠ [] ∧ ls.flatten.getLast? ≠ some t then [t] else []) ++ p)) =
      ls.map (content t) ++ contents t p := by
  induction h with
  | nil => simp
  | @last l hne hl =>
    have hlast : l.getLast? ≠ some t := fun hlast => hl (List.mem_of_getLast? hlast)
    have hclosed : Terminated t (l ++ [t]) := ⟨l, hl, rfl⟩
    rw [List.flatten_cons, List.flatten_nil, List.append_nil, if_pos ⟨hne, hlast⟩,
      ← List.append_assoc, contents, lines_terminated_append hclosed, List.map_cons,
      content_of_terminated, List.map_singleton, content_of_open hl]
    rfl
  | @cons l ls hl h ih =>
    obtain ⟨w, hw, rfl⟩ := hl
    have hcond : ((w ++ [t]) :: ls).flatten ≠ [] ∧ ((w ++ [t]) :: ls).flatten.getLast? ≠ some t ↔
        ls.flatten ≠ [] ∧ ls.flatten.getLast? ≠ some t := by
      by_cases hnil : ls.flatten = []
      · simp [hnil]
      · have hlast : ((w ++ [t]) ++ ls.flatten).getLast? = ls.flatten.getLast? :=
          List.getLast?_append_of_ne_nil _ hnil
        rw [List.flatten_cons, hlast]
        simp [hnil]
    simp only [hcond]
    rw [List.flatten_cons, List.append_assoc, contents, lines_terminated_append ⟨w, hw, rfl⟩,
      List.map_cons, List.map_cons, List.cons_append]
    exact congrArg _ ih

end Lines
