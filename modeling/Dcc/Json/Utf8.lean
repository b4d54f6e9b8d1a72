import Dcc.Json.Tokens

/-!
# UTF-8 in the JSON parsers

The scanner tests the bytes of a code point against the ranges of its lead
byte, and the escape decoder writes a code point by masks and shifts.  Both are
held to one encoding, `String.utf8EncodeChar` of a Unicode scalar value:

* `utf8ScanOne_sound`, `utf8ScanOne_encode`: the scanner passes over exactly the
  encodings of the characters from U+0080 on;
* `utf8Append_eq`: the decoder appends the encoding of a character.
-/

namespace Dcc.Json

/-- The bytes of a character. -/
abbrev encode (c : Char) : Bytes := String.utf8EncodeChar c

/-! ## Bytes as numbers -/

theorem isCont_iff {c : UInt8} : isCont c = true ↔ 0x80 ≤ c.toNat ∧ c.toNat ≤ 0xbf := by
  have h : ∀ n < 256, (n &&& 0xc0 = 0x80) ↔ 0x80 ≤ n ∧ n ≤ 0xbf := by decide +kernel
  rw [← h c.toNat c.toNat_lt]
  simp [isCont, ← UInt8.toNat_inj]

theorem inRange_iff {lo hi c : UInt8} :
    inRange lo hi c = true ↔ lo.toNat ≤ c.toNat ∧ c.toNat ≤ hi.toNat := by
  simp [inRange, UInt8.le_iff_toNat_le]

theorem exists_char {n : Nat} (h : n < 0xd800 ∨ (0xdfff < n ∧ n < 0x110000)) :
    ∃ c : Char, c.toNat = n := by
  have hvalid : n.isValidChar := h
  exact ⟨Char.ofNatAux n hvalid, rfl⟩

theorem char_valid (c : Char) : c.toNat < 0xd800 ∨ (0xdfff < c.toNat ∧ c.toNat < 0x110000) :=
  c.valid

/-! ## Encodings by length -/

theorem encode_eq (c : Char) :
    encode c = if c.toNat ≤ 0x7f then [UInt8.ofNat c.toNat]
      else if c.toNat ≤ 0x7ff then
        [UInt8.ofNat (c.toNat / 64 % 0x20 + 0xc0), UInt8.ofNat (c.toNat % 0x40 + 0x80)]
      else if c.toNat ≤ 0xffff then
        [UInt8.ofNat (c.toNat / 4096 % 0x10 + 0xe0), UInt8.ofNat (c.toNat / 64 % 0x40 + 0x80),
          UInt8.ofNat (c.toNat % 0x40 + 0x80)]
      else
        [UInt8.ofNat (c.toNat / 262144 % 0x08 + 0xf0), UInt8.ofNat (c.toNat / 4096 % 0x40 + 0x80),
          UInt8.ofNat (c.toNat / 64 % 0x40 + 0x80), UInt8.ofNat (c.toNat % 0x40 + 0x80)] := rfl

variable {n : Nat}

theorem ofNat_eq_of_toNat {b : UInt8} (h : n = b.toNat) : UInt8.ofNat n = b := by
  rw [h, UInt8.ofNat_toNat]

/-! ## The scanner -/

theorem encode_of_two {a b : UInt8} (ha : 0xc2 ≤ a.toNat ∧ a.toNat ≤ 0xdf)
    (hb : 0x80 ≤ b.toNat ∧ b.toNat ≤ 0xbf) : ∃ c : Char, 0x80 ≤ c.toNat ∧ encode c = [a, b] := by
  obtain ⟨c, hc⟩ := exists_char (n := (a.toNat - 0xc0) * 64 + (b.toNat - 0x80)) (by omega)
  refine ⟨c, by omega, ?_⟩
  rw [encode_eq, if_neg (by omega), if_pos (by omega), ofNat_eq_of_toNat (b := a) (by omega),
    ofNat_eq_of_toNat (b := b) (by omega)]

theorem encode_of_three {a b d : UInt8} (ha : 0xe0 ≤ a.toNat ∧ a.toNat ≤ 0xef)
    (hb : 0x80 ≤ b.toNat ∧ b.toNat ≤ 0xbf) (hd : 0x80 ≤ d.toNat ∧ d.toNat ≤ 0xbf)
    (hlow : a.toNat = 0xe0 → 0xa0 ≤ b.toNat) (hsurr : a.toNat = 0xed → b.toNat ≤ 0x9f) :
    ∃ c : Char, 0x80 ≤ c.toNat ∧ encode c = [a, b, d] := by
  obtain ⟨c, hc⟩ := exists_char
    (n := (a.toNat - 0xe0) * 4096 + (b.toNat - 0x80) * 64 + (d.toNat - 0x80)) (by omega)
  refine ⟨c, by omega, ?_⟩
  rw [encode_eq, if_neg (by omega), if_neg (by omega), if_pos (by omega),
    ofNat_eq_of_toNat (b := a) (by omega), ofNat_eq_of_toNat (b := b) (by omega),
    ofNat_eq_of_toNat (b := d) (by omega)]

theorem encode_of_four {a b d f : UInt8} (ha : 0xf0 ≤ a.toNat ∧ a.toNat ≤ 0xf4)
    (hb : 0x80 ≤ b.toNat ∧ b.toNat ≤ 0xbf) (hd : 0x80 ≤ d.toNat ∧ d.toNat ≤ 0xbf)
    (hf : 0x80 ≤ f.toNat ∧ f.toNat ≤ 0xbf)
    (hlow : a.toNat = 0xf0 → 0x90 ≤ b.toNat) (hhigh : a.toNat = 0xf4 → b.toNat ≤ 0x8f) :
    ∃ c : Char, 0x80 ≤ c.toNat ∧ encode c = [a, b, d, f] := by
  obtain ⟨c, hc⟩ := exists_char
    (n := (a.toNat - 0xf0) * 262144 + (b.toNat - 0x80) * 4096 + (d.toNat - 0x80) * 64 +
      (f.toNat - 0x80)) (by omega)
  refine ⟨c, by omega, ?_⟩
  rw [encode_eq, if_neg (by omega), if_neg (by omega), if_neg (by omega),
    ofNat_eq_of_toNat (b := a) (by omega), ofNat_eq_of_toNat (b := b) (by omega),
    ofNat_eq_of_toNat (b := d) (by omega), ofNat_eq_of_toNat (b := f) (by omega)]

variable {t : UInt8 → Bool} {ts : List (UInt8 → Bool)} {p q : Bytes}

theorem utf8Tail_cons (h : utf8Tail (t :: ts) p = some q) :
    ∃ b p', t b = true ∧ p = b :: p' ∧ utf8Tail ts p' = some q := by
  cases p with
  | nil => cases h
  | cons b p =>
    simp only [utf8Tail] at h
    split at h
    · next hb => exact ⟨b, p, hb, rfl, h⟩
    · cases h

theorem utf8ScanOne_eq (c0 : UInt8) (p : Bytes) :
    utf8ScanOne (c0 :: p) = if c0.toNat ≤ 0x7f then
        if c0.toNat < 0x20 then none else some p
      else if 0xc2 ≤ c0.toNat ∧ c0.toNat ≤ 0xdf then utf8Tail [isCont] p
      else if c0.toNat = 0xe0 then utf8Tail [inRange 0xa0 0xbf, isCont] p
      else if 0xe1 ≤ c0.toNat ∧ c0.toNat ≤ 0xec then utf8Tail [isCont, isCont] p
      else if c0.toNat = 0xed then utf8Tail [inRange 0x80 0x9f, isCont] p
      else if 0xee ≤ c0.toNat ∧ c0.toNat ≤ 0xef then utf8Tail [isCont, isCont] p
      else if c0.toNat = 0xf0 then utf8Tail [inRange 0x90 0xbf, isCont, isCont] p
      else if 0xf1 ≤ c0.toNat ∧ c0.toNat ≤ 0xf3 then utf8Tail [isCont, isCont, isCont] p
      else if c0.toNat = 0xf4 then utf8Tail [inRange 0x80 0x8f, isCont, isCont] p
      else none := by
  simp only [utf8ScanOne, UInt8.le_iff_toNat_le, UInt8.lt_iff_toNat_lt, ← UInt8.toNat_inj]
  rfl

theorem utf8Tail_two (h : utf8Tail [t, isCont] p = some q) :
    ∃ b d, t b = true ∧ (0x80 ≤ d.toNat ∧ d.toNat ≤ 0xbf) ∧ p = b :: d :: q := by
  obtain ⟨b, p1, hb, rfl, h1⟩ := utf8Tail_cons h
  obtain ⟨d, p2, hd, rfl, h2⟩ := utf8Tail_cons h1
  cases h2
  exact ⟨b, d, hb, isCont_iff.mp hd, rfl⟩

theorem utf8Tail_three (h : utf8Tail [t, isCont, isCont] p = some q) :
    ∃ b d f, t b = true ∧ (0x80 ≤ d.toNat ∧ d.toNat ≤ 0xbf) ∧
      (0x80 ≤ f.toNat ∧ f.toNat ≤ 0xbf) ∧ p = b :: d :: f :: q := by
  obtain ⟨b, p1, hb, rfl, h1⟩ := utf8Tail_cons h
  obtain ⟨d, f, hd, hf, rfl⟩ := utf8Tail_two h1
  exact ⟨b, d, f, hb, isCont_iff.mp hd, hf, rfl⟩

/-- A scanned code point is the encoding of a character. -/
theorem utf8ScanOne_sound {c0 : UInt8} (hc : 0x80 ≤ c0.toNat) (h : utf8ScanOne (c0 :: p) = some q) :
    ∃ c : Char, 0x80 ≤ c.toNat ∧ c0 :: p = encode c ++ q := by
  rw [utf8ScanOne_eq, if_neg (by omega)] at h
  split at h
  · next hlead =>
    obtain ⟨b, p1, hb, rfl, h1⟩ := utf8Tail_cons h
    cases h1
    obtain ⟨c, hc, henc⟩ := encode_of_two hlead (isCont_iff.mp hb)
    exact ⟨c, hc, by rw [henc]; rfl⟩
  have hthree : ∀ {t : UInt8 → Bool}, utf8Tail [t, isCont] p = some q →
      0xe0 ≤ c0.toNat ∧ c0.toNat ≤ 0xef →
      (∀ b, t b = true → (0x80 ≤ b.toNat ∧ b.toNat ≤ 0xbf) ∧ (c0.toNat = 0xe0 → 0xa0 ≤ b.toNat) ∧
        (c0.toNat = 0xed → b.toNat ≤ 0x9f)) →
      ∃ c : Char, 0x80 ≤ c.toNat ∧ c0 :: p = encode c ++ q := by
    intro t ht hlead htest
    obtain ⟨b, d, hb, hd, rfl⟩ := utf8Tail_two ht
    obtain ⟨hcont, hlow, hsurr⟩ := htest b hb
    obtain ⟨c, hc, henc⟩ := encode_of_three hlead hcont hd hlow hsurr
    exact ⟨c, hc, by rw [henc]; rfl⟩
  have hfour : ∀ {t : UInt8 → Bool}, utf8Tail [t, isCont, isCont] p = some q →
      0xf0 ≤ c0.toNat ∧ c0.toNat ≤ 0xf4 →
      (∀ b, t b = true → (0x80 ≤ b.toNat ∧ b.toNat ≤ 0xbf) ∧ (c0.toNat = 0xf0 → 0x90 ≤ b.toNat) ∧
        (c0.toNat = 0xf4 → b.toNat ≤ 0x8f)) →
      ∃ c : Char, 0x80 ≤ c.toNat ∧ c0 :: p = encode c ++ q := by
    intro t ht hlead htest
    obtain ⟨b, d, f, hb, hd, hf, rfl⟩ := utf8Tail_three ht
    obtain ⟨hcont, hlow, hhigh⟩ := htest b hb
    obtain ⟨c, hc, henc⟩ := encode_of_four hlead hcont hd hf hlow hhigh
    exact ⟨c, hc, by rw [henc]; rfl⟩
  split at h
  · next hlead =>
    apply hthree h (by omega)
    intro b hb
    have hrange := inRange_iff.mp hb
    change 0xa0 ≤ b.toNat ∧ b.toNat ≤ 0xbf at hrange
    omega
  split at h
  · apply hthree h (by omega)
    intro b hb
    have hrange := isCont_iff.mp hb
    omega
  split at h
  · apply hthree h (by omega)
    intro b hb
    have hrange := inRange_iff.mp hb
    change 0x80 ≤ b.toNat ∧ b.toNat ≤ 0x9f at hrange
    omega
  split at h
  · apply hthree h (by omega)
    intro b hb
    have hrange := isCont_iff.mp hb
    omega
  split at h
  · apply hfour h (by omega)
    intro b hb
    have hrange := inRange_iff.mp hb
    change 0x90 ≤ b.toNat ∧ b.toNat ≤ 0xbf at hrange
    omega
  split at h
  · apply hfour h (by omega)
    intro b hb
    have hrange := isCont_iff.mp hb
    omega
  split at h
  · apply hfour h (by omega)
    intro b hb
    have hrange := inRange_iff.mp hb
    change 0x80 ≤ b.toNat ∧ b.toNat ≤ 0x8f at hrange
    omega
  · cases h

theorem toNat_ofNat_of_lt (h : n < 256) : (UInt8.ofNat n).toNat = n :=
  Nat.mod_eq_of_lt h

theorem utf8Tail_pass {b : UInt8} (p : Bytes)
    (hb : t b = true) : utf8Tail (t :: ts) (b :: p) = utf8Tail ts p := by
  simp only [utf8Tail, hb, if_true]

theorem isCont_ofNat (n : Nat) : isCont (UInt8.ofNat (n % 0x40 + 0x80)) = true := by
  rw [isCont_iff, toNat_ofNat_of_lt (by omega)]
  omega

theorem inRange_ofNat {lo hi : UInt8} (h : lo.toNat ≤ n ∧ n ≤ hi.toNat)
    (hn : n < 256) : inRange lo hi (UInt8.ofNat n) = true := by
  rw [inRange_iff, toNat_ofNat_of_lt hn]
  exact h

/-- The scanner passes over the encoding of a character. -/
theorem utf8ScanOne_encode {c : Char} (hc : 0x80 ≤ c.toNat) (q : Bytes) :
    utf8ScanOne (encode c ++ q) = some q := by
  have hvalid := char_valid c
  rw [encode_eq, if_neg (by omega)]
  split
  · simp only [List.cons_append, List.nil_append]
    rw [utf8ScanOne_eq, toNat_ofNat_of_lt (by omega), if_neg (by omega), if_pos (by omega),
      utf8Tail_pass _ (isCont_ofNat _)]
    rfl
  split
  · simp only [List.cons_append, List.nil_append]
    rw [utf8ScanOne_eq, toNat_ofNat_of_lt (by omega), if_neg (by omega), if_neg (by omega)]
    split
    · rw [utf8Tail_pass _ (inRange_ofNat (by change 0xa0 ≤ _ ∧ _ ≤ 0xbf; omega) (by omega)),
        utf8Tail_pass _ (isCont_ofNat _)]
      rfl
    split
    · rw [utf8Tail_pass _ (isCont_ofNat _), utf8Tail_pass _ (isCont_ofNat _)]
      rfl
    split
    · rw [utf8Tail_pass _ (inRange_ofNat (by change 0x80 ≤ _ ∧ _ ≤ 0x9f; omega) (by omega)),
        utf8Tail_pass _ (isCont_ofNat _)]
      rfl
    · rw [if_pos (by omega), utf8Tail_pass _ (isCont_ofNat _), utf8Tail_pass _ (isCont_ofNat _)]
      rfl
  · simp only [List.cons_append, List.nil_append]
    rw [utf8ScanOne_eq, toNat_ofNat_of_lt (by omega), if_neg (by omega), if_neg (by omega),
      if_neg (by omega), if_neg (by omega), if_neg (by omega), if_neg (by omega)]
    split
    · rw [utf8Tail_pass _ (inRange_ofNat (by change 0x90 ≤ _ ∧ _ ≤ 0xbf; omega) (by omega)),
        utf8Tail_pass _ (isCont_ofNat _), utf8Tail_pass _ (isCont_ofNat _)]
      rfl
    split
    · rw [utf8Tail_pass _ (isCont_ofNat _), utf8Tail_pass _ (isCont_ofNat _),
        utf8Tail_pass _ (isCont_ofNat _)]
      rfl
    · rw [if_pos (by omega),
        utf8Tail_pass _ (inRange_ofNat (by change 0x80 ≤ _ ∧ _ ≤ 0x8f; omega) (by omega)),
        utf8Tail_pass _ (isCont_ofNat _), utf8Tail_pass _ (isCont_ofNat _)]
      rfl

/-! ## The decoder -/

theorem mask_eq (n k marker : Nat) :
    marker * 2 ^ k ||| (n &&& (2 ^ k - 1)) = n % 2 ^ k + marker * 2 ^ k := by
  rw [Nat.and_two_pow_sub_one_eq_mod, Nat.mul_comm marker, ← Nat.two_pow_add_eq_or_of_lt
    (Nat.mod_lt _ (Nat.two_pow_pos k)), Nat.add_comm]

/-- **The decoder appends the encoding of the character.** -/
theorem utf8Append_eq (room : Nat) (c : Char) :
    utf8Append room c.toNat = if room < (encode c).length then none else some (encode c) := by
  have hvalid := char_valid c
  have h1 : 0xc0 ||| ((c.toNat >>> 6) &&& 0x1f) = c.toNat / 64 % 0x20 + 0xc0 := by
    rw [Nat.shiftRight_eq_div_pow]
    exact mask_eq _ 5 6
  have h2 : ∀ n, 0x80 ||| (n &&& 0x3f) = n % 0x40 + 0x80 := fun n => mask_eq n 6 2
  have h3 : 0xe0 ||| ((c.toNat >>> 12) &&& 0x0f) = c.toNat / 4096 % 0x10 + 0xe0 := by
    rw [Nat.shiftRight_eq_div_pow]
    exact mask_eq _ 4 14
  have h4 : 0xf0 ||| ((c.toNat >>> 18) &&& 0x07) = c.toNat / 262144 % 0x08 + 0xf0 := by
    rw [Nat.shiftRight_eq_div_pow]
    exact mask_eq _ 3 30
  have hsurr : (decide (0xd800 ≤ c.toNat) && decide (c.toNat ≤ 0xdfff)) = false := by
    simp only [Bool.and_eq_false_iff, decide_eq_false_iff_not]
    omega
  unfold utf8Append
  rw [h1, h3, h4, h2, h2, h2, Nat.shiftRight_eq_div_pow, Nat.shiftRight_eq_div_pow, hsurr,
    encode_eq]
  by_cases hone : c.toNat ≤ 0x7f
  · simp [hone]
  by_cases htwo : c.toNat ≤ 0x7ff
  · simp [hone, htwo]
  by_cases hthree : c.toNat ≤ 0xffff
  · simp [hone, htwo, hthree]
  · have hfour : c.toNat ≤ 0x10ffff := by omega
    simp [hone, htwo, hthree, hfour]

end Dcc.Json
