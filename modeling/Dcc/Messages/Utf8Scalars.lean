import Dcc.Json.Strings

/-!
# Counting the code points of a message text

`dcc_message_utf8_scalars` walks over a C string, puts the value of each code point together and
tests it against the range of its width.  The scanner of the JSON parsers tests bytes instead.  The
block is the text with its terminator, so a walk that leaves it is `outside`.

* `scalar_sound`, `scalar_encode` — one round passes over exactly the encodings of the characters;
* `utf8Scalars_agrees` — the walk, the scanner and the encoding of Unicode agree on every text, and
  the walk stays in the block.
-/

namespace Dcc.Messages

open Dcc.Json Grammar

/-! ## The walk -/

/-- What a walk over a block comes to. -/
inductive Walk (α : Type)
  | outside
  | refused
  | done (result : α)
  deriving DecidableEq, Repr

/-- The first byte of a code point: its part of the value, and the width. -/
def leadByte (b : UInt8) : Option (Nat × Nat) :=
  if b < 0x80 then some (b.toNat, 1)
  else if 0xc2 ≤ b ∧ b ≤ 0xdf then some (b.toNat &&& 0x1f, 2)
  else if 0xe0 ≤ b ∧ b ≤ 0xef then some (b.toNat &&& 0x0f, 3)
  else if 0xf0 ≤ b ∧ b ≤ 0xf4 then some (b.toNat &&& 0x07, 4)
  else none

/-- The loop over the bytes behind the first one. -/
def continuation : Nat → Nat → Bytes → Walk (Nat × Bytes)
  | 0, value, p => .done (value, p)
  | _ + 1, _, [] => .outside
  | n + 1, value, b :: p =>
    if b &&& 0xc0 ≠ 0x80 then .refused
    else continuation n ((value <<< 6) ||| (b.toNat &&& 0x3f)) p

/-- The values that a width must not have. -/
def badValue (width value : Nat) : Bool :=
  (width = 2 && value < 0x80) || (width = 3 && value < 0x800) || (width = 4 && value < 0x10000) ||
    (0xd800 ≤ value && value ≤ 0xdfff) || 0x10ffff < value

/-- One round of `dcc_message_utf8_scalars`. -/
def scalar : Bytes → Walk Bytes
  | [] => .outside
  | b :: p =>
    match leadByte b with
    | none => .refused
    | some (value, width) =>
      match continuation (width - 1) value p with
      | .outside => .outside
      | .refused => .refused
      | .done (value, rest) => if badValue width value then .refused else .done rest

/-- The rounds, with as much fuel as the block has bytes. -/
def utf8ScalarsLoop : Nat → Bytes → Nat → Walk Nat
  | 0, _, _ => .outside
  | _ + 1, [], _ => .outside
  | fuel + 1, b :: p, count =>
    if b = 0 then .done count
    else
      match scalar (b :: p) with
      | .outside => .outside
      | .refused => .refused
      | .done rest => utf8ScalarsLoop fuel rest (count + 1)

/-- `dcc_message_utf8_scalars` of a block, which is a null pointer where there is none. -/
def utf8Scalars : Option Bytes → Walk Nat
  | none => .refused
  | some block => utf8ScalarsLoop block.length block 0

/-! ## One code point -/

section

variable {b : UInt8} {p rest text : Bytes}

theorem value_step (value : Nat) (hb : isCont b = true) :
    (value <<< 6) ||| (b.toNat &&& 0x3f) = value * 64 + (b.toNat - 0x80) := by
  have hrange := isCont_iff.mp hb
  have hmask : b.toNat &&& 0x3f = b.toNat - 0x80 := by
    rw [show 0x3f = 2 ^ 6 - 1 from rfl, Nat.and_two_pow_sub_one_eq_mod]
    omega
  rw [hmask, Nat.shiftLeft_eq, Nat.mul_comm, ← Nat.two_pow_add_eq_or_of_lt (i := 6) (by omega),
    Nat.mul_comm]

theorem continuation_cons (n value : Nat) (hb : isCont b = true) :
    continuation (n + 1) value (b :: p) = continuation n (value * 64 + (b.toNat - 0x80)) p := by
  rw [continuation, if_neg (by simpa [isCont] using hb), value_step value hb]

theorem continuation_ofNat (n value k : Nat) (p : Bytes) :
    continuation (n + 1) value (UInt8.ofNat (k % 0x40 + 0x80) :: p) =
      continuation n (value * 64 + k % 0x40) p := by
  rw [continuation_cons n value (isCont_ofNat k), toNat_ofNat_of_lt (by omega), Nat.add_sub_cancel]

theorem continuation_done {n value : Nat} {r : Nat × Bytes}
    (h : continuation (n + 1) value p = .done r) :
    ∃ b q, p = b :: q ∧ (0x80 ≤ b.toNat ∧ b.toNat ≤ 0xbf) ∧
      continuation n (value * 64 + (b.toNat - 0x80)) q = .done r := by
  cases p with
  | nil => cases h
  | cons b q =>
    by_cases hb : isCont b = true
    · rw [continuation_cons n value hb] at h
      exact ⟨b, q, rfl, isCont_iff.mp hb, h⟩
    · rw [continuation, if_pos (by simpa [isCont] using hb)] at h
      cases h

theorem continuation_end {part value : Nat} (h : continuation 0 part p = .done (value, rest)) :
    part = value ∧ p = rest := by
  simpa [continuation] using h

theorem continuation_inside {n value : Nat} (hp : 0 ∈ p) : continuation n value p ≠ .outside := by
  induction n generalizing value p with
  | zero => simp [continuation]
  | succ n ih =>
    cases p with
    | nil => cases hp
    | cons b p =>
      rw [continuation]
      split
      · simp
      · next hb =>
        rcases List.mem_cons.mp hp with rfl | hp
        · exact absurd (by decide) hb
        · exact ih hp

theorem scalar_inside (hp : 0 ∈ p) : scalar (b :: p) ≠ .outside := by
  rw [scalar]
  split
  · simp
  · split
    · next heq => exact absurd heq (continuation_inside hp)
    · simp
    · split <;> simp

theorem leadByte_eq (b : UInt8) :
    leadByte b = if b.toNat < 0x80 then some (b.toNat, 1)
      else if 0xc2 ≤ b.toNat ∧ b.toNat ≤ 0xdf then some (b.toNat % 0x20, 2)
      else if 0xe0 ≤ b.toNat ∧ b.toNat ≤ 0xef then some (b.toNat % 0x10, 3)
      else if 0xf0 ≤ b.toNat ∧ b.toNat ≤ 0xf4 then some (b.toNat % 0x08, 4)
      else none := by
  rw [← Nat.and_two_pow_sub_one_eq_mod _ 5, ← Nat.and_two_pow_sub_one_eq_mod _ 4,
    ← Nat.and_two_pow_sub_one_eq_mod _ 3]
  simp only [leadByte, UInt8.le_iff_toNat_le, UInt8.lt_iff_toNat_lt]
  rfl

theorem scalar_done (h : scalar (b :: p) = .done rest) :
    ∃ part width value, leadByte b = some (part, width) ∧
      continuation (width - 1) part p = .done (value, rest) ∧ badValue width value = false := by
  rw [scalar] at h
  split at h
  · cases h
  · next part width hlead =>
    split at h
    case h_3 value q hcont =>
      split at h
      · cases h
      · next hgood =>
        cases h
        exact ⟨part, width, value, hlead, hcont, by simpa using hgood⟩
    all_goals cases h

/-- What a round passes over is the encoding of a character. -/
theorem scalar_sound (h : scalar (b :: p) = .done rest) :
    ∃ c : Char, b :: p = encode c ++ rest := by
  obtain ⟨part, width, value, hlead, hcont, hgood⟩ := scalar_done h
  rw [leadByte_eq] at hlead
  split at hlead
  · next hone =>
    cases hlead
    obtain ⟨rfl, rfl⟩ := continuation_end hcont
    obtain ⟨c, hc⟩ := exists_char (n := b.toNat) (by omega)
    exact ⟨c, by rw [encode_ascii hc hone]; rfl⟩
  split at hlead
  · next htwo =>
    cases hlead
    obtain ⟨x, q, rfl, hx, hcont⟩ := continuation_done hcont
    obtain ⟨rfl, rfl⟩ := continuation_end hcont
    obtain ⟨c, -, hc⟩ := encode_of_two htwo hx
    exact ⟨c, by rw [hc]; rfl⟩
  split at hlead
  · next hthree =>
    cases hlead
    obtain ⟨x, q, rfl, hx, hcont⟩ := continuation_done hcont
    obtain ⟨y, q, rfl, hy, hcont⟩ := continuation_done hcont
    obtain ⟨rfl, rfl⟩ := continuation_end hcont
    simp [badValue] at hgood
    obtain ⟨c, -, hc⟩ := encode_of_three hthree hx hy (by omega) (by omega)
    exact ⟨c, by rw [hc]; rfl⟩
  split at hlead
  · next hfour =>
    cases hlead
    obtain ⟨x, q, rfl, hx, hcont⟩ := continuation_done hcont
    obtain ⟨y, q, rfl, hy, hcont⟩ := continuation_done hcont
    obtain ⟨z, q, rfl, hz, hcont⟩ := continuation_done hcont
    obtain ⟨rfl, rfl⟩ := continuation_end hcont
    simp [badValue] at hgood
    obtain ⟨c, -, hc⟩ := encode_of_four hfour hx hy hz (by omega) (by omega)
    exact ⟨c, by rw [hc]; rfl⟩
  · cases hlead

/-- A round passes over the encoding of a character. -/
theorem scalar_encode (c : Char) (rest : Bytes) : scalar (encode c ++ rest) = .done rest := by
  have hvalid := char_valid c
  have hdone : ∀ width value, badValue width value = false → (match continuation 0 value rest with
        | .outside => .outside
        | .refused => .refused
        | .done (value, rest) => if badValue width value then .refused else .done rest) =
        Walk.done rest := by
    intro width value hgood
    simp only [continuation, hgood, Bool.false_eq_true, if_false]
  rw [encode_eq]
  split
  · simp only [List.cons_append, List.nil_append, scalar, leadByte_eq]
    rw [toNat_ofNat_of_lt (by omega), if_pos (by omega)]
    exact hdone _ _ (by simp [badValue]; omega)
  split
  · simp only [List.cons_append, List.nil_append, scalar, leadByte_eq]
    rw [toNat_ofNat_of_lt (by omega), if_neg (by omega), if_pos (by omega)]
    simp only [Nat.reduceSub, continuation_ofNat]
    exact hdone _ _ (by simp [badValue]; omega)
  split
  · simp only [List.cons_append, List.nil_append, scalar, leadByte_eq]
    rw [toNat_ofNat_of_lt (by omega), if_neg (by omega), if_neg (by omega), if_pos (by omega)]
    simp only [Nat.reduceSub, continuation_ofNat]
    exact hdone _ _ (by simp [badValue]; omega)
  · simp only [List.cons_append, List.nil_append, scalar, leadByte_eq]
    rw [toNat_ofNat_of_lt (by omega), if_neg (by omega), if_neg (by omega), if_neg (by omega),
      if_pos (by omega)]
    simp only [Nat.reduceSub, continuation_ofNat]
    exact hdone _ _ (by simp [badValue]; omega)

/-! ## A whole text -/

theorem zero_not_mem_encode {c : Char} (hc : c.toNat ≠ 0) : 0 ∉ encode c := by
  intro hmem
  by_cases hhigh : 0x80 ≤ c.toNat
  · exact absurd (encode_high hhigh 0 hmem) (by decide)
  · rw [encode_low hhigh, List.mem_singleton] at hmem
    have hbyte := congrArg UInt8.toNat hmem
    rw [toNat_ofNat_of_lt (by omega)] at hbyte
    exact hc hbyte.symm

theorem split_terminated {c : Char} (hc : c.toNat ≠ 0) (h : text ++ [0] = encode c ++ rest) :
    ∃ tail, text = encode c ++ tail ∧ rest = tail ++ [0] := by
  rcases List.append_eq_append_iff.mp h with ⟨more, hmore, hrest⟩ | ⟨tail, rfl, rfl⟩
  · cases more with
    | nil => exact ⟨[], by simpa using hmore.symm, by simpa using hrest.symm⟩
    | cons z more =>
      obtain ⟨rfl, -⟩ := List.cons.inj hrest
      exact absurd (hmore ▸ List.mem_append_right _ List.mem_cons_self) (zero_not_mem_encode hc)
  · exact ⟨tail, rfl, rfl⟩

theorem loop_counts {cs : List Char} (hnul : 0 ∉ utf8 cs) {fuel : Nat}
    (hfuel : (utf8 cs).length < fuel) (count : Nat) :
    utf8ScalarsLoop fuel (utf8 cs ++ [0]) count = .done (count + cs.length) := by
  induction cs generalizing fuel count with
  | nil =>
    obtain ⟨fuel, rfl⟩ : ∃ k, fuel = k + 1 := ⟨fuel - 1, by omega⟩
    rfl
  | cons c cs ih =>
    have hround := scalar_encode c (utf8 cs ++ [0])
    obtain ⟨b, w, hbw⟩ := List.exists_cons_of_ne_nil (encode_ne_nil c)
    rw [utf8_cons, hbw] at hnul hfuel
    rw [utf8_cons, List.append_assoc]
    rw [hbw] at hround ⊢
    have hb : b ≠ 0 := fun h => hnul (by simp [h])
    simp only [List.cons_append, List.length_cons, List.length_append] at hfuel hround ⊢
    obtain ⟨fuel, rfl⟩ : ∃ k, fuel = k + 1 := ⟨fuel - 1, by omega⟩
    simp only [utf8ScalarsLoop, if_neg hb, hround]
    rw [ih (fun h => hnul (List.mem_append_right _ h)) (by omega)]
    congr 1
    omega

theorem loop_refuses (hnul : 0 ∉ text) (hnone : ¬ ∃ cs, text = utf8 cs) {fuel : Nat}
    (hfuel : text.length < fuel) (count : Nat) :
    utf8ScalarsLoop fuel (text ++ [0]) count = .refused := by
  induction fuel generalizing text count with
  | zero => cases hfuel
  | succ fuel ih =>
    cases text with
    | nil => exact absurd ⟨[], rfl⟩ hnone
    | cons b p =>
      obtain ⟨hb, hp⟩ := not_or.mp (mt List.mem_cons.mpr hnul)
      rw [List.cons_append, utf8ScalarsLoop, if_neg (Ne.symm hb)]
      cases hround : scalar (b :: (p ++ [0])) with
      | outside =>
        exact absurd hround (scalar_inside (List.mem_append_right _ List.mem_cons_self))
      | refused => rfl
      | done rest =>
        obtain ⟨c, hc⟩ := scalar_sound hround
        have hzero : c.toNat ≠ 0 := by
          intro hzero
          rw [encode_low (by omega), hzero] at hc
          exact hb (List.cons.inj hc).1.symm
        rw [← List.cons_append] at hc
        obtain ⟨tail, htext, rfl⟩ := split_terminated hzero hc
        rw [htext] at hnul hnone hfuel
        have hpos := List.length_pos_iff.mpr (encode_ne_nil c)
        rw [List.length_append] at hfuel
        refine ih (fun h => hnul (List.mem_append_right _ h)) (fun ⟨cs, hcs⟩ => ?_) (by omega) _
        exact hnone ⟨c :: cs, by rw [hcs, utf8_cons]⟩

/-! ## The scanner -/

/-- A text that the JSON parser would pass over: a byte below 0x80 on its own, and the others as
`dcc_json_utf8_scan_one` takes them. -/
inductive Scans : Bytes → Prop
  | nil : Scans []
  | ascii {b : UInt8} {p : Bytes} (hb : b < 0x80) (h : Scans p) : Scans (b :: p)
  | sequence {b : UInt8} {p q : Bytes} (hb : 0x80 ≤ b) (hscan : utf8ScanOne (b :: p) = some q)
      (h : Scans q) : Scans (b :: p)

theorem scans_iff : Scans text ↔ ∃ cs, text = utf8 cs := by
  constructor
  · intro h
    induction h with
    | nil => exact ⟨[], rfl⟩
    | @ascii b p hb h ih =>
      obtain ⟨cs, rfl⟩ := ih
      have hlow : b.toNat < 0x80 := UInt8.lt_iff_toNat_lt.mp hb
      obtain ⟨c, hc⟩ := exists_char (n := b.toNat) (by omega)
      exact ⟨c :: cs, by rw [utf8_cons, encode_ascii hc hlow]; rfl⟩
    | @sequence b p q hb hscan h ih =>
      obtain ⟨cs, rfl⟩ := ih
      obtain ⟨c, -, hc⟩ := utf8ScanOne_sound (UInt8.le_iff_toNat_le.mp hb) hscan
      exact ⟨c :: cs, hc⟩
  · intro h
    obtain ⟨cs, rfl⟩ := h
    induction cs with
    | nil => exact .nil
    | cons c cs ih =>
      rw [utf8_cons]
      by_cases hhigh : 0x80 ≤ c.toNat
      · have hscan := utf8ScanOne_encode hhigh (utf8 cs)
        obtain ⟨b, w, hbw⟩ := List.exists_cons_of_ne_nil (encode_ne_nil c)
        have hb := encode_high hhigh b (hbw ▸ List.mem_cons_self)
        rw [hbw, List.cons_append] at hscan ⊢
        exact .sequence (UInt8.le_iff_toNat_le.mpr hb) hscan ih
      · rw [encode_low hhigh]
        refine .ascii (UInt8.lt_iff_toNat_lt.mpr ?_) ih
        rw [toNat_ofNat_of_lt (by omega)]
        exact Nat.not_le.mp hhigh

/-- **The two validators agree.**  Of a text with its terminator the walk reads nothing else; it
ends well exactly where the scanner takes every sequence of the text, which is where the text is
UTF-8, and then it has counted the code points. -/
theorem utf8Scalars_agrees (hnul : 0 ∉ text) :
    utf8Scalars (some (text ++ [0])) ≠ .outside ∧
      ((∃ n, utf8Scalars (some (text ++ [0])) = .done n) ↔ Scans text) ∧
      (Scans text ↔ ∃ cs, text = utf8 cs) ∧
      ∀ cs, text = utf8 cs → utf8Scalars (some (text ++ [0])) = .done cs.length := by
  have hfuel : text.length < (text ++ [0]).length := by simp
  have hcounts : ∀ cs, text = utf8 cs → utf8Scalars (some (text ++ [0])) = .done cs.length := by
    intro cs hcs
    subst hcs
    rw [utf8Scalars, loop_counts hnul hfuel, Nat.zero_add]
  by_cases hutf8 : ∃ cs, text = utf8 cs
  · obtain ⟨cs, hcs⟩ := hutf8
    have hdone := hcounts cs hcs
    refine ⟨by simp [hdone], iff_of_true ⟨_, hdone⟩ (scans_iff.mpr ⟨cs, hcs⟩), scans_iff, hcounts⟩
  · have hrefused : utf8Scalars (some (text ++ [0])) = .refused :=
      loop_refuses hnul hutf8 hfuel 0
    refine ⟨by simp [hrefused], iff_of_false ?_ (mt scans_iff.mp hutf8), scans_iff, hcounts⟩
    simp [hrefused]

/-- Three code points of one, two and three bytes, and a text that ends within one. -/
theorem utf8Scalars_agrees_texts :
    utf8Scalars (some ([0x61, 0xc3, 0xa9, 0xe2, 0x82, 0xac] ++ [0])) = .done 3 ∧
      ¬ Scans [0x61, 0xe2, 0x82] := by
  refine ⟨?_, fun h => ?_⟩
  · exact (@utf8Scalars_agrees [0x61, 0xc3, 0xa9, 0xe2, 0x82, 0xac] (by decide)).2.2.2
      ['a', 'é', '€'] (by decide)
  · obtain ⟨n, hn⟩ := (@utf8Scalars_agrees [0x61, 0xe2, 0x82] (by decide)).2.1.mpr h
    have hrefused : utf8Scalars (some ([0x61, 0xe2, 0x82] ++ [0])) = .refused := by decide
    rw [hrefused] at hn
    cases hn

end

end Dcc.Messages
