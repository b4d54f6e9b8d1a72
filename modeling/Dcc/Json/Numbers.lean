import Dcc.Json.Grammar

/-!
# Numbers of the DOM parser against the grammar

The number scanner reads an integer part, a fraction and an exponent, each as
far as it goes, and then refuses a number that one more number character
follows.  What it reads is a number of the grammar, and a number of the grammar
is read whole where nothing of a number follows it.

* `parseNumberSpan_sound`: what the scanner reads is a `Number`;
* `parseNumberSpan_complete`: a `Number` is read, to its end.
-/

namespace Dcc.Json

open Grammar

/-! ## Digits -/

variable {c : UInt8}

theorem isDigit_iff : isDigit c = true ↔ Digit c := by
  simp [isDigit, Digit]

/-- No byte of the kind comes next. -/
def NoneNext (kind : UInt8 → Bool) (rest : Bytes) : Prop := ∀ c ∈ rest.head?, kind c = false

theorem NoneNext.nil (kind : UInt8 → Bool) : NoneNext kind [] := by
  intro c hc
  cases hc

theorem NoneNext.cons {kind : UInt8 → Bool} {c : UInt8} (hc : kind c = false) (rest : Bytes) :
    NoneNext kind (c :: rest) := by
  intro d hd
  cases hd
  exact hc

theorem NoneNext.mono {kind kind' : UInt8 → Bool} {rest : Bytes} (h : NoneNext kind rest)
    (hkind : ∀ c, kind' c = true → kind c = true) : NoneNext kind' rest := by
  intro c hc
  have hno := h c hc
  by_contra hyes
  rw [hkind c (by simpa using hyes)] at hno
  cases hno

theorem isNumberChar_of_isDigit (h : isDigit c = true) : isNumberChar c = true := by
  simp [isNumberChar, h]

variable {kind : UInt8 → Bool}

theorem NoneNext.dropWhile {rest : Bytes} (h : NoneNext kind rest) :
    rest.dropWhile kind = rest := by
  cases rest with
  | nil => rfl
  | cons c rest =>
    have hc : ¬ kind c = true := by
      rw [h c rfl]
      simp
    exact List.dropWhile_cons_of_neg hc

variable {w rest : Bytes}

theorem dropWhile_run (hw : ∀ c ∈ w, kind c = true)
    (hrest : NoneNext kind rest) : (w ++ rest).dropWhile kind = rest := by
  rw [List.dropWhile_append_of_pos hw, hrest.dropWhile]

theorem digits1_sound {cur rest : Bytes} (h : digits1 cur = some rest) :
    ∃ w, cur = w ++ rest ∧ Digits w := by
  unfold digits1 at h
  split at h
  · next hhead =>
    cases h
    refine ⟨cur.takeWhile isDigit, List.takeWhile_append_dropWhile.symm, ?_, ?_⟩
    · cases cur with
      | nil => cases hhead
      | cons c p =>
        have hc : isDigit c = true := by simpa using hhead
        simp [List.takeWhile_cons_of_pos hc]
    · intro c hc
      exact isDigit_iff.mp (List.mem_takeWhile_imp hc)
  · cases h

theorem digits1_complete (hw : Digits w) (hrest : NoneNext isDigit rest) :
    digits1 (w ++ rest) = some rest := by
  have hrun : ∀ c ∈ w, isDigit c = true := fun c hc => isDigit_iff.mpr (hw.2 c hc)
  obtain ⟨c, w', rfl⟩ := List.exists_cons_of_ne_nil hw.1
  have hhead : ((c :: w') ++ rest).head?.any isDigit = true := hrun c List.mem_cons_self
  rw [digits1, if_pos hhead, dropWhile_run hrun hrest]

/-! ## The parts of a number -/

theorem numberInteger_sound {cur rest : Bytes} (h : numberInteger cur = some rest) :
    ∃ w, cur = w ++ rest ∧ Grammar.Int w := by
  cases cur with
  | nil => cases h
  | cons c p =>
    simp only [numberInteger] at h
    split at h
    · next hzero =>
      cases h
      subst hzero
      exact ⟨[chZero], rfl, Int.zero⟩
    next hzero =>
    split at h
    · next hdigit =>
      cases h
      obtain ⟨hlo, hhi⟩ := isDigit_iff.mp hdigit
      have hne : c.toNat ≠ 0x30 := fun h => hzero (UInt8.toNat_inj.mp h)
      have hlo' : 0x30 ≤ c.toNat := UInt8.le_iff_toNat_le.mp hlo
      have hone : 0x31 ≤ c := by
        rw [UInt8.le_iff_toNat_le]
        change 0x31 ≤ c.toNat
        omega
      refine ⟨c :: p.takeWhile isDigit, ?_, Int.digits ⟨hone, hhi⟩ ?_⟩
      · rw [List.dropWhile_cons_of_pos hdigit, List.cons_append, List.takeWhile_append_dropWhile]
      · intro d hd
        exact isDigit_iff.mp (List.mem_takeWhile_imp hd)
    · cases h

theorem isDigit_of_nonzero (hc : 0x31 ≤ c ∧ c ≤ 0x39) : isDigit c = true :=
  isDigit_iff.mpr ⟨UInt8.le_trans (by decide) hc.1, hc.2⟩

theorem numberInteger_complete (hw : Grammar.Int w)
    (hrest : NoneNext isDigit rest) : numberInteger (w ++ rest) = some rest := by
  cases hw with
  | zero => rfl
  | @digits c w hc hw =>
    have hzero : c ≠ chZero := by
      rintro rfl
      exact absurd hc.1 (by decide)
    have hdigit := isDigit_of_nonzero hc
    have hrun : ∀ d ∈ c :: w, isDigit d = true :=
      List.forall_mem_cons.mpr ⟨hdigit, fun d hd => isDigit_iff.mpr (hw d hd)⟩
    have hdrop := dropWhile_run hrun hrest
    rw [List.cons_append] at hdrop ⊢
    rw [numberInteger, if_neg hzero, if_pos hdigit, hdrop]

theorem eq_cons_of_head {cur : Bytes} (h : cur.head? = some c) :
    cur = c :: cur.drop 1 := by
  cases cur with
  | nil => cases h
  | cons d p =>
    cases h
    rfl

theorem numberFraction_sound {cur rest : Bytes} {i j : Bool}
    (h : numberFraction cur i = some (rest, j)) : ∃ w, cur = w ++ rest ∧ Frac w := by
  unfold numberFraction at h
  split at h
  · next hdot =>
    obtain ⟨q, hq, heq⟩ := Option.map_eq_some_iff.mp h
    cases heq
    obtain ⟨w, hcur, hw⟩ := digits1_sound hq
    refine ⟨chDot :: w, ?_, Frac.present hw⟩
    rw [eq_cons_of_head hdot, hcur]
    rfl
  · cases h
    exact ⟨[], rfl, Frac.absent⟩

theorem numberFraction_complete (hw : Frac w) (hdigit : NoneNext isDigit rest)
    (hdot : NoneNext (· == chDot) rest) (i : Bool) :
    ∃ j, numberFraction (w ++ rest) i = some (rest, j) := by
  cases hw with
  | absent =>
    have hno : ¬ rest.head? = some chDot := by
      intro hhead
      exact absurd (hdot chDot hhead) (by decide)
    exact ⟨i, by rw [List.nil_append, numberFraction, if_neg hno]⟩
  | @present w hw =>
    have hhead : (chDot :: (w ++ rest)).head? = some chDot := rfl
    refine ⟨false, ?_⟩
    rw [List.cons_append, numberFraction, if_pos hhead, List.drop_one, List.tail_cons,
      digits1_complete hw hdigit]
    rfl

theorem numberExponent_sound {cur rest : Bytes} {i j : Bool}
    (h : numberExponent cur i = some (rest, j)) : ∃ w, cur = w ++ rest ∧ Exp w := by
  unfold numberExponent at h
  split at h
  · next hletter =>
    obtain ⟨q, hq, heq⟩ := Option.map_eq_some_iff.mp h
    cases heq
    obtain ⟨e, he, hcur⟩ : ∃ e : UInt8, (e = 0x65 ∨ e = 0x45) ∧ cur = e :: cur.drop 1 := by
      rcases hletter with hhead | hhead
      · exact ⟨_, Or.inl rfl, eq_cons_of_head hhead⟩
      · exact ⟨_, Or.inr rfl, eq_cons_of_head hhead⟩
    obtain ⟨w, hw, hdigits⟩ := digits1_sound hq
    split at hw
    · next hsign =>
      obtain ⟨s, hs, hdrop⟩ : ∃ s : UInt8, (s = 0x2b ∨ s = 0x2d) ∧
          cur.drop 1 = s :: (cur.drop 1).drop 1 := by
        rcases hsign with hhead | hhead
        · exact ⟨_, Or.inl rfl, eq_cons_of_head hhead⟩
        · exact ⟨_, Or.inr rfl, eq_cons_of_head hhead⟩
      refine ⟨e :: ([s] ++ w), ?_, Exp.present he (by simpa using hs) hdigits⟩
      rw [hcur, hdrop, hw]
      rfl
    · refine ⟨e :: ([] ++ w), ?_, Exp.present he (Or.inl rfl) hdigits⟩
      rw [hcur, hw]
      rfl
  · cases h
    exact ⟨[], rfl, Exp.absent⟩

theorem sign_of_digits (hw : Digits w) :
    ¬ ((w ++ rest).head? = some chPlus ∨ (w ++ rest).head? = some chMinus) := by
  obtain ⟨c, w', rfl⟩ := List.exists_cons_of_ne_nil hw.1
  have hc := isDigit_iff.mpr (hw.2 c List.mem_cons_self)
  rintro (hhead | hhead)
  · cases hhead
    exact absurd hc (by decide)
  · cases hhead
    exact absurd hc (by decide)

theorem numberExponent_complete (hw : Exp w) (hrest : NoneNext isNumberChar rest)
    (i : Bool) : ∃ j, numberExponent (w ++ rest) i = some (rest, j) := by
  have hdigit : NoneNext isDigit rest := hrest.mono fun c hc => isNumberChar_of_isDigit hc
  cases hw with
  | absent =>
    have hno : ¬ (rest.head? = some 0x65 ∨ rest.head? = some 0x45) := by
      rintro (hhead | hhead)
      · exact absurd (hrest _ hhead) (by decide)
      · exact absurd (hrest _ hhead) (by decide)
    exact ⟨i, by rw [List.nil_append, numberExponent, if_neg hno]⟩
  | @present e sign w he hsign hw =>
    refine ⟨false, ?_⟩
    have hletter : (e :: (sign ++ w) ++ rest).head? = some 0x65 ∨
        (e :: (sign ++ w) ++ rest).head? = some 0x45 := by
      rcases he with rfl | rfl
      · exact Or.inl rfl
      · exact Or.inr rfl
    rw [numberExponent, if_pos hletter]
    have hskip : (if (sign ++ (w ++ rest)).head? = some chPlus ∨
        (sign ++ (w ++ rest)).head? = some chMinus then (sign ++ (w ++ rest)).drop 1
        else sign ++ (w ++ rest)) = w ++ rest := by
      rcases hsign with rfl | rfl | rfl
      · exact if_neg (sign_of_digits hw)
      · exact if_pos (Or.inl rfl)
      · exact if_pos (Or.inr rfl)
    have hdrop : (e :: (sign ++ w) ++ rest).drop 1 = sign ++ (w ++ rest) := by
      rw [List.cons_append, List.append_assoc]
      rfl
    simp only [hdrop, hskip, digits1_complete hw hdigit]
    rfl

/-! ## Numbers -/

/-- **What the scanner reads is a number.** -/
theorem parseNumberSpan_sound {cur text rest : Bytes} {integer : Bool}
    (h : parseNumberSpan cur = some (text, integer, rest)) : cur = text ++ rest ∧ Number text := by
  obtain ⟨q, hq, h⟩ := Option.bind_eq_some_iff.mp h
  obtain ⟨⟨f, i⟩, hf, h⟩ := Option.bind_eq_some_iff.mp h
  obtain ⟨⟨e, j⟩, he, h⟩ := Option.bind_eq_some_iff.mp h
  simp only at h
  split at h
  · cases h
  · cases h
    obtain ⟨minus, hminus, hcur⟩ : ∃ minus : Bytes, (minus = [] ∨ minus = [0x2d]) ∧
        cur = minus ++ (if cur.head? = some chMinus then cur.drop 1 else cur) := by
      split
      · next hhead => exact ⟨[chMinus], Or.inr rfl, eq_cons_of_head hhead⟩
      · exact ⟨[], Or.inl rfl, rfl⟩
    obtain ⟨int, hint, hintW⟩ := numberInteger_sound hq
    obtain ⟨frac, rfl, hfracW⟩ := numberFraction_sound hf
    obtain ⟨exp, rfl, hexpW⟩ := numberExponent_sound he
    rw [hint] at hcur
    have hcur' : cur = (minus ++ (int ++ (frac ++ exp))) ++ rest := by
      rw [hcur]
      simp only [List.append_assoc]
    have htext : cur.take (cur.length - rest.length) = minus ++ (int ++ (frac ++ exp)) := by
      rw [hcur', List.length_append, Nat.add_sub_cancel, List.take_left]
    rw [htext]
    exact ⟨hcur', Number.mk hminus hintW hfracW hexpW⟩

theorem noneNext_after_int {frac exp rest : Bytes} (hfrac : Frac frac) (hexp : Exp exp)
    (hrest : NoneNext isNumberChar rest) : NoneNext isDigit (frac ++ (exp ++ rest)) := by
  cases hfrac with
  | present => exact NoneNext.cons (by decide) _
  | absent =>
    cases hexp with
    | present he =>
      rcases he with rfl | rfl
      · exact NoneNext.cons (by decide) _
      · exact NoneNext.cons (by decide) _
    | absent => exact hrest.mono fun c hc => isNumberChar_of_isDigit hc

theorem noneNext_after_frac {exp rest : Bytes} (hexp : Exp exp)
    (hrest : NoneNext isNumberChar rest) :
    NoneNext isDigit (exp ++ rest) ∧ NoneNext (· == chDot) (exp ++ rest) := by
  cases hexp with
  | present he =>
    rcases he with rfl | rfl
    · exact ⟨NoneNext.cons (by decide) _, NoneNext.cons (by decide) _⟩
    · exact ⟨NoneNext.cons (by decide) _, NoneNext.cons (by decide) _⟩
  | absent =>
    refine ⟨hrest.mono fun c hc => isNumberChar_of_isDigit hc, hrest.mono fun c hc => ?_⟩
    rw [beq_iff_eq.mp hc]
    decide

theorem head_of_int {int rest : Bytes} (h : Grammar.Int int) :
    ∃ c ∈ (int ++ rest).head?, isDigit c = true := by
  cases h with
  | zero => exact ⟨_, rfl, by decide⟩
  | @digits c w hc hw => exact ⟨c, rfl, isDigit_of_nonzero hc⟩

/-- **A number is read to its end.** -/
theorem parseNumberSpan_complete {text rest : Bytes} (h : Number text)
    (hrest : NoneNext isNumberChar rest) :
    ∃ integer, parseNumberSpan (text ++ rest) = some (text, integer, rest) := by
  obtain @⟨minus, int, frac, exp, hminus, hint, hfrac, hexp⟩ := h
  have hstart : (minus ++ (int ++ (frac ++ exp))) ++ rest =
      minus ++ (int ++ (frac ++ (exp ++ rest))) := by
    simp only [List.append_assoc]
  have hsign : (if (minus ++ (int ++ (frac ++ (exp ++ rest)))).head? = some chMinus then
      (minus ++ (int ++ (frac ++ (exp ++ rest)))).drop 1
      else minus ++ (int ++ (frac ++ (exp ++ rest)))) = int ++ (frac ++ (exp ++ rest)) := by
    rcases hminus with rfl | rfl
    · obtain ⟨c, hhead, hc⟩ := @head_of_int int (frac ++ (exp ++ rest)) hint
      have hno : ¬ (int ++ (frac ++ (exp ++ rest))).head? = some chMinus := by
        intro hm
        rw [hhead] at hm
        cases hm
        exact absurd hc (by decide)
      rw [List.nil_append, if_neg hno]
    · rfl
  obtain ⟨i, hfraction⟩ := numberFraction_complete hfrac (noneNext_after_frac hexp hrest).1
    (noneNext_after_frac hexp hrest).2 true
  obtain ⟨j, hexponent⟩ := numberExponent_complete hexp hrest i
  have hend : ¬ rest.head?.any isNumberChar = true := by
    cases rest with
    | nil => simp
    | cons c rest => simpa using hrest c rfl
  refine ⟨j, ?_⟩
  rw [hstart]
  simp only [parseNumberSpan, hsign,
    numberInteger_complete hint (noneNext_after_int hfrac hexp hrest), hfraction, hexponent,
    Option.bind_some, if_neg hend]
  rw [← hstart, List.length_append, Nat.add_sub_cancel, List.take_left]

end Dcc.Json
