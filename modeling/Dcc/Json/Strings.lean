import Dcc.Json.Grammar

/-!
# Strings of the DOM parser against the grammar

A string is read in two passes.  The first finds the closing quote and checks
control characters, UTF-8 and the form of the escapes; the second decodes the
bytes between the quotes, and only there a surrogate without its other half is
found.  `Scanned` is what the first pass accepts, `Chars` what both accept.

* `parseStringArena_sound`: what the parser reads is spelled by the grammar;
* `parseStringArena_complete`: what the grammar spells is read.
-/

namespace Dcc.Json

open Grammar

/-! ## Hexadecimal digits -/

variable {n : Nat}

theorem hexValue_lt {c : UInt8} (h : hexValue c = some n) : n < 16 := by
  have hlt := c.toNat_lt
  simp only [hexValue, Bool.and_eq_true, decide_eq_true_eq, UInt8.le_iff_toNat_le] at h
  split at h
  · next hr =>
    change 0x30 ≤ c.toNat ∧ c.toNat ≤ 0x39 at hr
    cases h
    omega
  · split at h
    · next hr =>
      change 0x61 ≤ c.toNat ∧ c.toNat ≤ 0x66 at hr
      cases h
      omega
    · split at h
      · next hr =>
        change 0x41 ≤ c.toNat ∧ c.toNat ≤ 0x46 at hr
        cases h
        omega
      · cases h

theorem shift_or {value h : Nat} (hh : h < 16) : (value <<< 4) ||| h = value * 16 + h := by
  rw [Nat.shiftLeft_eq, Nat.mul_comm, ← Nat.two_pow_add_eq_or_of_lt (i := 4) hh]

theorem parseHex4At_four {a b c d : UInt8} {rest : Bytes} {n : Nat} :
    parseHex4At (a :: b :: c :: d :: rest) = some n ↔ Hex4 [a, b, c, d] n := by
  have htake : (a :: b :: c :: d :: rest).take 4 = [a, b, c, d] := rfl
  unfold parseHex4At
  rw [htake]
  constructor
  · intro h
    simp only [List.foldlM_cons, List.foldlM_nil, Option.bind_eq_bind, Option.bind_eq_some_iff,
      Option.map_eq_some_iff] at h
    obtain ⟨_, ⟨i, hi, rfl⟩, _, ⟨j, hj, rfl⟩, _, ⟨k, hk, rfl⟩, _, ⟨l, hl, rfl⟩, h⟩ := h
    rw [shift_or (hexValue_lt hi), shift_or (hexValue_lt hj), shift_or (hexValue_lt hk),
      shift_or (hexValue_lt hl)] at h
    cases h
    simp only [Nat.zero_mul, Nat.zero_add]
    exact Hex4.mk hi hj hk hl
  · rintro ⟨hi, hj, hk, hl⟩
    simp only [List.foldlM_cons, List.foldlM_nil, hi, hj, hk, hl, Option.map_some,
      Option.bind_eq_bind, Option.bind_some]
    rw [shift_or (hexValue_lt hi), shift_or (hexValue_lt hj), shift_or (hexValue_lt hk),
      shift_or (hexValue_lt hl)]
    simp

theorem exists_hex4 {q : Bytes} (hlen : 4 ≤ q.length) (h : parseHex4At q = some n) :
    ∃ d r, q = d ++ r ∧ d.length = 4 ∧ Hex4 d n := by
  match q, hlen with
  | a :: b :: c :: d :: r, _ => exact ⟨[a, b, c, d], r, rfl, rfl, parseHex4At_four.mp h⟩

variable {d : Bytes}

theorem parseHex4At_append (h : Hex4 d n) (r : Bytes) :
    parseHex4At (d ++ r) = some n := by
  cases h with
  | mk ha hb hc hd => exact parseHex4At_four.mpr (Hex4.mk ha hb hc hd)

theorem Grammar.Hex4.length (h : Hex4 d n) : d.length = 4 := by
  cases h
  rfl

theorem Grammar.Hex4.lt (h : Hex4 d n) : n < 0x10000 := by
  cases h with
  | mk ha hb hc hd =>
    have hi := hexValue_lt ha
    have hj := hexValue_lt hb
    have hk := hexValue_lt hc
    have hl := hexValue_lt hd
    omega

/-! ## The bytes of a character -/

variable {c : Char}

theorem encode_high (hc : 0x80 ≤ c.toNat) : ∀ b ∈ encode c, 0x80 ≤ b.toNat := by
  have hvalid := char_valid c
  have hbyte : ∀ {n : Nat}, 0x80 ≤ n → n < 256 → 0x80 ≤ (UInt8.ofNat n).toNat := by
    intro n hn hlt
    rw [toNat_ofNat_of_lt hlt]
    exact hn
  rw [encode_eq, if_neg (by omega)]
  split
  · simp only [List.mem_cons, List.not_mem_nil, or_false, forall_eq_or_imp, forall_eq]
    exact ⟨hbyte (by omega) (by omega), hbyte (by omega) (by omega)⟩
  split
  · simp only [List.mem_cons, List.not_mem_nil, or_false, forall_eq_or_imp, forall_eq]
    exact ⟨hbyte (by omega) (by omega), hbyte (by omega) (by omega), hbyte (by omega) (by omega)⟩
  · simp only [List.mem_cons, List.not_mem_nil, or_false, forall_eq_or_imp, forall_eq]
    exact ⟨hbyte (by omega) (by omega), hbyte (by omega) (by omega), hbyte (by omega) (by omega),
      hbyte (by omega) (by omega)⟩

theorem encode_ascii {b : UInt8} (h : c.toNat = b.toNat) (hb : b.toNat < 0x80) :
    encode c = [b] := by
  rw [encode_eq, if_pos (by omega), ofNat_eq_of_toNat h]

theorem encode_low (hc : ¬ 0x80 ≤ c.toNat) : encode c = [UInt8.ofNat c.toNat] := by
  rw [encode_eq, if_pos (by omega)]

/-- A character that stands for itself in a string. -/
structure Plain (c : Char) : Prop where
  ctl : 0x20 ≤ c.toNat
  quote : c.toNat ≠ 0x22
  back : c.toNat ≠ 0x5c

theorem Plain.byte (h : Plain c) :
    ∀ b ∈ encode c, 0x20 ≤ b.toNat ∧ b.toNat ≠ 0x22 ∧ b.toNat ≠ 0x5c := by
  by_cases hhigh : 0x80 ≤ c.toNat
  · intro b hb
    have := encode_high hhigh b hb
    omega
  · rw [encode_low hhigh]
    simp only [List.mem_singleton, forall_eq]
    rw [toNat_ofNat_of_lt (by omega)]
    exact ⟨h.ctl, h.quote, h.back⟩

theorem encode_ne_nil (c : Char) : encode c ≠ [] := String.utf8EncodeChar_ne_nil

/-! ## What the first pass accepts -/

/-- The bytes between the quotes that `dcc_json_find_string_end` passes over,
and whether it saw an escape. -/
inductive Scanned : Bytes → Bool → Prop
  | nil : Scanned [] false
  | plain {c : Char} {raw : Bytes} {e : Bool} (hc : Plain c) (h : Scanned raw e) :
      Scanned (encode c ++ raw) e
  | short {esc : UInt8} {raw : Bytes} {e : Bool} (hesc : isShortEscape esc = true)
      (h : Scanned raw e) : Scanned (chBackslash :: esc :: raw) true
  | unicode {d raw : Bytes} {n : Nat} {e : Bool} (hd : Hex4 d n) (h : Scanned raw e) :
      Scanned (chBackslash :: 0x75 :: (d ++ raw)) true

/-- The scan stops at the quote that closes a scanned span. -/
theorem scanned_of_loop :
    ∀ {fuel : Nat} {p q : Bytes} {escaped flag : Bool},
      findStringEndLoop fuel p escaped = some (q, flag) →
        ∃ raw e rest, p = raw ++ chQuote :: rest ∧ q = chQuote :: rest ∧ Scanned raw e ∧
          flag = (escaped || e) := by
  intro fuel
  induction fuel with
  | zero =>
    intro p q escaped flag h
    cases h
  | succ fuel ih =>
    intro p q escaped flag h
    cases p with
    | nil => cases h
    | cons c p =>
      simp only [findStringEndLoop] at h
      split at h
      · next hquote =>
        cases h
        subst hquote
        exact ⟨[], false, p, rfl, rfl, Scanned.nil, by simp⟩
      next hquote =>
      split at h
      · cases h
      next hctl =>
      split at h
      · next hback =>
        subst hback
        cases p with
        | nil => cases h
        | cons esc p =>
          simp only at h
          split at h
          · next hesc =>
            obtain ⟨raw, e, rest, rfl, rfl, hraw, rfl⟩ := ih h
            exact ⟨_, true, rest, rfl, rfl, Scanned.short hesc hraw, by simp⟩
          · split at h
            · next hu =>
              subst hu
              split at h
              · cases h
              · next hhex =>
                simp only [Bool.or_eq_true, decide_eq_true_eq,
                  Option.isNone_iff_eq_none, not_or, Nat.not_lt] at hhex
                obtain ⟨n, hn⟩ := Option.ne_none_iff_exists'.mp hhex.2
                obtain ⟨d, r, rfl, hdlen, hd⟩ := exists_hex4 hhex.1 hn
                rw [← hdlen, List.drop_left] at h
                obtain ⟨raw, e, rest, rfl, rfl, hraw, rfl⟩ := ih h
                refine ⟨_, true, rest, ?_, rfl, Scanned.unicode hd hraw, by simp⟩
                simp
            · cases h
      next hback =>
      split at h
      · next hhigh =>
        split at h
        · cases h
        · next p' hscan =>
          have hge : 0x80 ≤ c.toNat := UInt8.le_iff_toNat_le.mp hhigh
          obtain ⟨ch, hch, heq⟩ := utf8ScanOne_sound hge hscan
          obtain ⟨raw, e, rest, rfl, rfl, hraw, rfl⟩ := ih h
          have hplain : Plain ch := ⟨by omega, by omega, by omega⟩
          refine ⟨_, e, rest, ?_, rfl, Scanned.plain hplain hraw, rfl⟩
          rw [heq, List.append_assoc]
      · next hhigh =>
        have hlt : c.toNat < 0x80 := Nat.not_le.mp fun h => hhigh (UInt8.le_iff_toNat_le.mpr h)
        obtain ⟨ch, hch⟩ := exists_char (n := c.toNat) (by omega)
        obtain ⟨raw, e, rest, rfl, rfl, hraw, rfl⟩ := ih h
        have hctl' : 0x20 ≤ c.toNat :=
          Nat.not_lt.mp fun h => hctl (UInt8.lt_iff_toNat_lt.mpr h)
        have hplain : Plain ch := by
          refine ⟨by omega, fun h => hquote ?_, fun h => hback ?_⟩
          · exact UInt8.toNat_inj.mp (hch.symm.trans h)
          · exact UInt8.toNat_inj.mp (hch.symm.trans h)
        have henc : encode ch = [c] := encode_ascii hch hlt
        refine ⟨encode ch ++ raw, e, rest, ?_, rfl, Scanned.plain hplain hraw, rfl⟩
        rw [henc]
        rfl

theorem backslash_ne_quote : chBackslash ≠ chQuote := by decide

theorem backslash_not_control : ¬ chBackslash < 0x20 := by decide

/-- The scan reaches the quote that closes a scanned span. -/
theorem loop_of_scanned {raw rest : Bytes} {e : Bool} (h : Scanned raw e) :
    ∀ {fuel : Nat} {escaped : Bool}, raw.length + 1 ≤ fuel →
      findStringEndLoop fuel (raw ++ chQuote :: rest) escaped =
        some (chQuote :: rest, escaped || e) := by
  induction h with
  | nil =>
    intro fuel escaped hfuel
    obtain ⟨fuel, rfl⟩ : ∃ k, fuel = k + 1 := ⟨fuel - 1, by simp at hfuel; omega⟩
    simp [findStringEndLoop]
  | @plain c raw e hc h ih =>
    intro fuel escaped hfuel
    have hne := encode_ne_nil c
    obtain ⟨fuel, rfl⟩ : ∃ k, fuel = k + 1 := ⟨fuel - 1, by omega⟩
    have hpos : 0 < (encode c).length := List.length_pos_iff.mpr hne
    rw [List.length_append] at hfuel
    rw [List.append_assoc]
    by_cases hhigh : 0x80 ≤ c.toNat
    · have hscan := utf8ScanOne_encode hhigh (raw ++ chQuote :: rest)
      obtain ⟨b, w, hbw⟩ := List.exists_cons_of_ne_nil hne
      have hb := encode_high hhigh b (by rw [hbw]; exact List.mem_cons_self)
      rw [hbw, List.cons_append] at hscan ⊢
      have hquote : b ≠ chQuote := by
        rintro rfl
        exact absurd hb (by decide)
      have hctl : ¬ b < 0x20 := by
        intro hlt
        have hlt' : b.toNat < 0x20 := UInt8.lt_iff_toNat_lt.mp hlt
        omega
      have hback : b ≠ chBackslash := by
        rintro rfl
        exact absurd hb (by decide)
      have hge : 0x80 ≤ b := UInt8.le_iff_toNat_le.mpr hb
      simp only [findStringEndLoop, if_neg hquote, if_neg hctl, if_neg hback, if_pos hge, hscan]
      exact ih (by omega)
    · have hbyte := hc.byte
      rw [encode_low hhigh] at hbyte ⊢
      obtain ⟨hctl, hquote, hback⟩ := hbyte _ List.mem_cons_self
      have hquote' : UInt8.ofNat c.toNat ≠ chQuote := fun h => hquote (by rw [h]; rfl)
      have hback' : UInt8.ofNat c.toNat ≠ chBackslash := fun h => hback (by rw [h]; rfl)
      have hctl' : ¬ UInt8.ofNat c.toNat < 0x20 := by
        intro hlt
        have hlt' : (UInt8.ofNat c.toNat).toNat < 0x20 := UInt8.lt_iff_toNat_lt.mp hlt
        omega
      have hlow : ¬ 0x80 ≤ UInt8.ofNat c.toNat := by
        intro hle
        have hle' : 0x80 ≤ (UInt8.ofNat c.toNat).toNat := UInt8.le_iff_toNat_le.mp hle
        rw [toNat_ofNat_of_lt (by omega)] at hle'
        exact hhigh hle'
      simp only [List.cons_append, List.nil_append, findStringEndLoop, if_neg hquote',
        if_neg hctl', if_neg hback', if_neg hlow]
      exact ih (by omega)
  | @short esc raw e hesc h ih =>
    intro fuel escaped hfuel
    simp only [List.length_cons] at hfuel
    obtain ⟨fuel, rfl⟩ : ∃ k, fuel = k + 1 := ⟨fuel - 1, by omega⟩
    have hstep : findStringEndLoop (fuel + 1) (chBackslash :: esc :: (raw ++ chQuote :: rest))
        escaped = findStringEndLoop fuel (raw ++ chQuote :: rest) true := by
      simp only [findStringEndLoop, if_neg backslash_ne_quote, if_neg backslash_not_control,
        if_true, if_pos hesc]
    rw [List.cons_append, List.cons_append, hstep, ih (by omega)]
    simp
  | @unicode d raw n e hd h ih =>
    intro fuel escaped hfuel
    simp only [List.length_cons, List.length_append] at hfuel
    obtain ⟨fuel, rfl⟩ : ∃ k, fuel = k + 1 := ⟨fuel - 1, by omega⟩
    have hhex := parseHex4At_append hd (raw ++ chQuote :: rest)
    have hdrop : (d ++ (raw ++ chQuote :: rest)).drop 4 = raw ++ chQuote :: rest := by
      rw [← hd.length, List.drop_left]
    have hlong : ¬ (d ++ (raw ++ chQuote :: rest)).length < 4 := by
      rw [List.length_append, hd.length]
      omega
    have hstep : findStringEndLoop (fuel + 1)
        (chBackslash :: 0x75 :: (d ++ (raw ++ chQuote :: rest))) escaped =
          findStringEndLoop fuel (raw ++ chQuote :: rest) true := by
      have hu : ¬ isShortEscape 0x75 = true := by decide
      have hgood : ¬ (decide ((d ++ (raw ++ chQuote :: rest)).length < 4) ||
          (parseHex4At (d ++ (raw ++ chQuote :: rest))).isNone) = true := by
        rw [hhex, decide_eq_false hlong]
        simp
      simp only [findStringEndLoop, if_neg backslash_ne_quote, if_neg backslash_not_control,
        if_true, if_neg hu, if_neg hgood, hdrop]
    rw [List.cons_append, List.cons_append, List.append_assoc, hstep, ih (by omega)]
    simp

/-! ## What the second pass decodes -/

variable {raw : Bytes}

theorem chars_of_scanned {e : Bool} (h : Scanned raw e) (he : e = false) :
    ∃ cs, Chars raw cs ∧ utf8 cs = raw := by
  induction h with
  | nil => exact ⟨[], Chars.nil, rfl⟩
  | @plain c raw e hc h ih =>
    obtain ⟨cs, hcs, hutf8⟩ := ih he
    refine ⟨c :: cs, Chars.cons (Spells.plain hc.ctl hc.quote hc.back) hcs, ?_⟩
    rw [utf8, List.flatMap_cons, ← utf8, hutf8]
  | _ => cases he

theorem decode_copy {u raw : Bytes} (hu : ∀ b ∈ u, b ≠ chBackslash) :
    ∀ {fuel room : Nat} {text : Bytes}, decodeStringLoop fuel (u ++ raw) room = some text →
      ∃ fuel' room' text', text = u ++ text' ∧ decodeStringLoop fuel' raw room' = some text' := by
  induction u with
  | nil =>
    intro fuel room text h
    exact ⟨fuel, room, text, rfl, h⟩
  | cons b u ih =>
    intro fuel room text h
    cases fuel with
    | zero => cases h
    | succ fuel =>
      have hb : b ≠ chBackslash := hu b List.mem_cons_self
      simp only [List.cons_append, decodeStringLoop, ne_eq, hb, not_false_eq_true, if_true] at h
      split at h
      · cases h
      · obtain ⟨text1, h1, rfl⟩ := Option.map_eq_some_iff.mp h
        obtain ⟨fuel', room', text', rfl, h'⟩ :=
          ih (fun b hb => hu b (List.mem_cons_of_mem _ hb)) h1
        exact ⟨fuel', room', text', rfl, h'⟩

variable {esc : UInt8}

theorem escapes_of_short (h : isShortEscape esc = true) :
    ∃ c, (esc, c) ∈ escapes ∧ encode c = [shortEscapeByte esc] := by
  simp only [isShortEscape, Bool.or_eq_true, beq_iff_eq] at h
  rcases h with ((((((rfl | rfl) | rfl) | rfl) | rfl) | rfl) | rfl) | rfl
  · exact ⟨'"', by decide, by decide⟩
  · exact ⟨'\\', by decide, by decide⟩
  · exact ⟨'/', by decide, by decide⟩
  · exact ⟨'\x08', by decide, by decide⟩
  · exact ⟨'\x0c', by decide, by decide⟩
  · exact ⟨'\n', by decide, by decide⟩
  · exact ⟨'\r', by decide, by decide⟩
  · exact ⟨'\t', by decide, by decide⟩

theorem short_of_escapes (h : (esc, c) ∈ escapes) :
    isShortEscape esc = true ∧ encode c = [shortEscapeByte esc] := by
  simp only [escapes, List.mem_cons, Prod.mk.injEq, List.not_mem_nil, or_false] at h
  rcases h with ⟨rfl, rfl⟩ | ⟨rfl, rfl⟩ | ⟨rfl, rfl⟩ | ⟨rfl, rfl⟩ | ⟨rfl, rfl⟩ | ⟨rfl, rfl⟩ |
    ⟨rfl, rfl⟩ | ⟨rfl, rfl⟩ <;> exact ⟨by decide, by decide⟩

theorem pair_number {hi lo : Nat} (hlo : 0xdc00 ≤ lo ∧ lo ≤ 0xdfff) :
    0x10000 + (((hi - 0xd800) <<< 10) ||| (lo - 0xdc00)) =
      0x10000 + (hi - 0xd800) * 0x400 + (lo - 0xdc00) := by
  have hlt : lo - 0xdc00 < 2 ^ 10 := by omega
  rw [Nat.shiftLeft_eq, Nat.mul_comm, ← Nat.two_pow_add_eq_or_of_lt hlt, Nat.add_assoc,
    Nat.mul_comm]

theorem decodeUnicodeEscape_sound {d raw q : Bytes} {n cp : Nat} (hd : Hex4 d n)
    (h : decodeUnicodeEscape (d ++ raw) = some (cp, q)) :
    (cp = n ∧ q = raw ∧ (n < 0xd800 ∨ 0xdfff < n)) ∨
      ∃ l lo, raw = chBackslash :: 0x75 :: (l ++ q) ∧ Hex4 l lo ∧ (0xd800 ≤ n ∧ n ≤ 0xdbff) ∧
        (0xdc00 ≤ lo ∧ lo ≤ 0xdfff) ∧ cp = 0x10000 + (n - 0xd800) * 0x400 + (lo - 0xdc00) := by
  have hdrop : (d ++ raw).drop 4 = raw := by rw [← hd.length, List.drop_left]
  have hlong : ¬ (d ++ raw).length < 4 := by
    rw [List.length_append, hd.length]
    omega
  simp only [decodeUnicodeEscape, if_neg hlong, parseHex4At_append hd, Option.bind_some, hdrop,
    Bool.and_eq_true, decide_eq_true_eq, Bool.or_eq_true, bne_iff_ne] at h
  split at h
  · next hhi =>
    right
    split at h
    · cases h
    · next hnext =>
      obtain ⟨hsix, htwo⟩ := not_or.mp hnext
      rw [not_not] at htwo
      obtain ⟨lo, hlo, h⟩ := Option.bind_eq_some_iff.mp h
      split at h
      · cases h
      · next hrange =>
        cases h
        have hrest : raw = chBackslash :: 0x75 :: raw.drop 2 := by
          have hcut := List.take_append_drop 2 raw
          rw [htwo] at hcut
          exact hcut.symm
        have hfour : 4 ≤ (raw.drop 2).length := by
          rw [List.length_drop]
          omega
        obtain ⟨l, r, hl, hllen, hlhex⟩ := exists_hex4 hfour hlo
        have hlorange : 0xdc00 ≤ lo ∧ lo ≤ 0xdfff := by omega
        have hsixth : raw.drop 6 = r := by
          rw [show (6 : Nat) = 2 + 4 from rfl, ← List.drop_drop, hl, ← hllen, List.drop_left]
        refine ⟨l, lo, ?_, hlhex, hhi, hlorange, pair_number hlorange⟩
        rw [hsixth, ← hl]
        exact hrest
  · next hhi =>
    split at h
    · cases h
    · next hlo =>
      cases h
      exact Or.inl ⟨rfl, rfl, by omega⟩

theorem decodeUnicodeEscape_one (hd : Hex4 d n) (hn : n < 0xd800 ∨ 0xdfff < n) (raw : Bytes) :
    decodeUnicodeEscape (d ++ raw) = some (n, raw) := by
  have hdrop : (d ++ raw).drop 4 = raw := by rw [← hd.length, List.drop_left]
  have hlong : ¬ (d ++ raw).length < 4 := by
    rw [List.length_append, hd.length]
    omega
  have hhi : ¬ (0xd800 ≤ n ∧ n ≤ 0xdbff) := by omega
  have hlo : ¬ (0xdc00 ≤ n ∧ n ≤ 0xdfff) := by omega
  simp only [decodeUnicodeEscape, if_neg hlong, parseHex4At_append hd, Option.bind_some, hdrop,
    Bool.and_eq_true, decide_eq_true_eq, if_neg hhi, if_neg hlo]

theorem decodeUnicodeEscape_pair {d l : Bytes} {hi lo : Nat} (hd : Hex4 d hi) (hl : Hex4 l lo)
    (hhi : 0xd800 ≤ hi ∧ hi ≤ 0xdbff) (hlo : 0xdc00 ≤ lo ∧ lo ≤ 0xdfff) (raw : Bytes) :
    decodeUnicodeEscape (d ++ chBackslash :: 0x75 :: (l ++ raw)) =
      some (0x10000 + (hi - 0xd800) * 0x400 + (lo - 0xdc00), raw) := by
  have hdrop : (d ++ chBackslash :: 0x75 :: (l ++ raw)).drop 4 =
      chBackslash :: 0x75 :: (l ++ raw) := by rw [← hd.length, List.drop_left]
  have hlong : ¬ (d ++ chBackslash :: 0x75 :: (l ++ raw)).length < 4 := by
    rw [List.length_append, hd.length]
    omega
  have hnext : ¬ ((chBackslash :: 0x75 :: (l ++ raw)).length < 6 ∨
      (chBackslash :: 0x75 :: (l ++ raw)).take 2 ≠ [chBackslash, 0x75]) := by
    simp only [List.length_cons, List.length_append, hl.length, List.take_succ_cons,
      List.take_zero, ne_eq, not_true_eq_false, or_false]
    omega
  have hsecond : (chBackslash :: 0x75 :: (l ++ raw)).drop 2 = l ++ raw := rfl
  have hsixth : (chBackslash :: 0x75 :: (l ++ raw)).drop 6 = raw := by
    have hfour : (l ++ raw).drop 4 = raw := by rw [← hl.length, List.drop_left]
    exact hfour
  have hrange : ¬ (lo < 0xdc00 ∨ 0xdfff < lo) := by omega
  simp only [decodeUnicodeEscape, if_neg hlong, parseHex4At_append hd, Option.bind_some, hdrop,
    Bool.and_eq_true, decide_eq_true_eq, if_pos hhi, Bool.or_eq_true, bne_iff_ne, if_neg hnext,
    hsecond, parseHex4At_append hl, if_neg hrange, hsixth, pair_number hlo]

theorem Scanned.after_unicode {l raw : Bytes} {lo : Nat} {e : Bool} (hl : Hex4 l lo)
    (h : Scanned (chBackslash :: 0x75 :: (l ++ raw)) e) : ∃ e', Scanned raw e' := by
  generalize hs : chBackslash :: 0x75 :: (l ++ raw) = s at h
  cases h with
  | nil => cases hs
  | @plain c raw' e hc h =>
    obtain ⟨b, w, hbw⟩ := List.exists_cons_of_ne_nil (encode_ne_nil c)
    have hb := hc.byte b (by rw [hbw]; exact List.mem_cons_self)
    rw [hbw, List.cons_append] at hs
    injection hs with hhead
    exact absurd (congrArg UInt8.toNat hhead.symm) hb.2.2
  | short hesc h =>
    injection hs with _ hs
    injection hs with hhead
    rw [← hhead] at hesc
    exact absurd hesc (by decide)
  | @unicode d raw' n e hd h =>
    injection hs with _ hs
    injection hs with _ hs
    have hlen : l.length = d.length := by rw [hl.length, hd.length]
    rw [(List.append_inj hs hlen).2]
    exact ⟨e, h⟩

theorem decodeStringLoop_unicode (fuel room : Nat) (q : Bytes) :
    decodeStringLoop (fuel + 1) (chBackslash :: 0x75 :: q) room =
      (decodeUnicodeEscape q).bind fun r =>
        (utf8Append room r.1).bind fun bytes =>
          (decodeStringLoop fuel r.2 (room - bytes.length)).map (bytes ++ ·) := by
  have hu : ¬ isShortEscape 0x75 = true := by decide
  simp only [decodeStringLoop, ne_eq, not_true_eq_false, if_false, if_neg hu, if_true]

theorem decodeStringLoop_short (hesc : isShortEscape esc = true) (fuel room : Nat) (q : Bytes) :
    decodeStringLoop (fuel + 1) (chBackslash :: esc :: q) room = if room = 0 then none
      else (decodeStringLoop fuel q (room - 1)).map (shortEscapeByte esc :: ·) := by
  simp only [decodeStringLoop, ne_eq, not_true_eq_false, if_false, if_pos hesc]

theorem utf8_cons (c : Char) (cs : List Char) : utf8 (c :: cs) = encode c ++ utf8 cs :=
  List.flatMap_cons

/-- **What the decoder writes is the encoding of the characters spelled.** -/
theorem decode_sound (n : Nat) :
    ∀ {raw text : Bytes} {e : Bool} {fuel room : Nat}, raw.length ≤ n → Scanned raw e →
      decodeStringLoop fuel raw room = some text → ∃ cs, Chars raw cs ∧ text = utf8 cs := by
  induction n using Nat.strong_induction_on with
  | _ n ih =>
    intro raw text e fuel room hlen hscan h
    cases hscan with
    | nil =>
      simp only [decodeStringLoop] at h
      split at h
      · cases h
      · cases h
        exact ⟨[], Chars.nil, rfl⟩
    | @plain c raw e hc hraw =>
      have hcopy : ∀ b ∈ encode c, b ≠ chBackslash := by
        intro b hb hback
        exact (hc.byte b hb).2.2 (congrArg UInt8.toNat hback)
      have hpos : 0 < (encode c).length := List.length_pos_iff.mpr (encode_ne_nil c)
      rw [List.length_append] at hlen
      obtain ⟨fuel', room', text', rfl, h'⟩ := decode_copy hcopy h
      obtain ⟨cs, hcs, rfl⟩ := ih raw.length (by omega) (Nat.le_refl _) hraw h'
      refine ⟨c :: cs, Chars.cons (Spells.plain hc.ctl hc.quote hc.back) hcs, ?_⟩
      rw [utf8_cons]
    | @short esc raw e hesc hraw =>
      cases fuel with
      | zero => cases h
      | succ fuel =>
        rw [decodeStringLoop_short hesc] at h
        split at h
        · cases h
        · obtain ⟨text', h', rfl⟩ := Option.map_eq_some_iff.mp h
          simp only [List.length_cons] at hlen
          obtain ⟨cs, hcs, rfl⟩ := ih raw.length (by omega) (Nat.le_refl _) hraw h'
          obtain ⟨c, hmem, henc⟩ := escapes_of_short hesc
          refine ⟨c :: cs, Chars.cons (Spells.short hmem) hcs, ?_⟩
          rw [utf8_cons, henc]
          rfl
    | @unicode d raw k e hd hraw =>
      cases fuel with
      | zero => cases h
      | succ fuel =>
        simp only [List.length_cons, List.length_append] at hlen
        rw [decodeStringLoop_unicode] at h
        obtain ⟨⟨cp, q⟩, hcp, h⟩ := Option.bind_eq_some_iff.mp h
        obtain ⟨bytes, hbytes, h⟩ := Option.bind_eq_some_iff.mp h
        obtain ⟨text', h', rfl⟩ := Option.map_eq_some_iff.mp h
        have hk := hd.lt
        have hwritten : ∀ {c : Char}, c.toNat = cp → bytes = encode c := by
          intro c hc
          simp only [← hc, utf8Append_eq] at hbytes
          split at hbytes
          · cases hbytes
          · cases hbytes
            rfl
        rcases decodeUnicodeEscape_sound hd hcp with
          ⟨rfl, rfl, hown⟩ | ⟨l, lo, rfl, hl, hhi, hlo, hpair⟩
        · obtain ⟨c, hc⟩ := @exists_char cp (by omega)
          obtain ⟨cs, hcs, rfl⟩ := ih _ (by omega) (Nat.le_refl _) hraw h'
          refine ⟨c :: cs, Chars.cons (Spells.unicode hd hc) hcs, ?_⟩
          rw [utf8_cons, hwritten hc]
        · simp only [List.length_cons, List.length_append] at hlen
          obtain ⟨e', hq⟩ := hraw.after_unicode hl
          obtain ⟨c, hc⟩ := @exists_char cp (by omega)
          obtain ⟨cs, hcs, rfl⟩ := ih _ (by omega) (Nat.le_refl _) hq h'
          have hchars := Chars.cons (Spells.pair hd hl hhi hlo (hc.trans hpair)) hcs
          refine ⟨c :: cs, by simpa using hchars, ?_⟩
          rw [utf8_cons, hwritten hc]

variable {cs : List Char}

theorem scanned_of_chars (h : Chars raw cs) :
    ∃ e, Scanned raw e ∧ (e = false → utf8 cs = raw) := by
  induction h with
  | nil => exact ⟨false, Scanned.nil, fun _ => rfl⟩
  | @cons u raw c cs hu hraw ih =>
    obtain ⟨e, hscan, hsame⟩ := ih
    cases hu with
    | plain hctl hquote hback =>
      refine ⟨e, Scanned.plain ⟨hctl, hquote, hback⟩ hscan, fun he => ?_⟩
      rw [utf8_cons, hsame he]
    | short hmem => exact ⟨true, Scanned.short (short_of_escapes hmem).1 hscan, by simp⟩
    | unicode hd hc => exact ⟨true, Scanned.unicode hd hscan, by simp⟩
    | pair hd hl hhi hlo hc =>
      have hboth := Scanned.unicode hd (Scanned.unicode hl hscan)
      exact ⟨true, by simpa using hboth, by simp⟩

theorem decode_plain {u raw : Bytes} (hu : ∀ b ∈ u, b ≠ chBackslash) :
    ∀ {fuel room : Nat}, u.length ≤ fuel → u.length ≤ room → decodeStringLoop fuel (u ++ raw) room =
        (decodeStringLoop (fuel - u.length) raw (room - u.length)).map (u ++ ·) := by
  induction u with
  | nil => exact fun _ _ => Option.map_id'.symm
  | cons b u ih =>
    intro fuel room hfuel hroom
    simp only [List.length_cons] at hfuel hroom
    obtain ⟨fuel, rfl⟩ : ∃ k, fuel = k + 1 := ⟨fuel - 1, by omega⟩
    have hb : b ≠ chBackslash := hu b List.mem_cons_self
    have hspace : ¬ room = 0 := by omega
    have hrest := ih (fun d hd => hu d (List.mem_cons_of_mem _ hd))
      (show u.length ≤ fuel by omega) (show u.length ≤ room - 1 by omega)
    simp only [List.cons_append, decodeStringLoop, if_pos hb, if_neg hspace, hrest,
      Option.map_map, List.length_cons]
    rw [show room - 1 - u.length = room - (u.length + 1) by omega,
      show fuel - u.length = fuel + 1 - (u.length + 1) by omega]
    rfl

theorem decode_append {u raw text : Bytes} {room fuel : Nat} (hu : ∀ b ∈ u, b ≠ chBackslash)
    (hfuel : u.length ≤ fuel) (hroom : u.length ≤ room)
    (h : decodeStringLoop (fuel - u.length) raw (room - u.length) = some text) :
    decodeStringLoop fuel (u ++ raw) room = some (u ++ text) := by
  rw [decode_plain hu hfuel hroom, h]
  rfl

theorem encode_length_le {u : Bytes} (h : Spells u c) :
    (encode c).length ≤ u.length := by
  have hvalid := char_valid c
  cases h with
  | plain => exact Nat.le_refl _
  | short hmem =>
    rw [(short_of_escapes hmem).2]
    simp
  | unicode hd hc =>
    have hlt := hd.lt
    rw [encode_eq, List.length_cons, List.length_cons, hd.length]
    split_ifs <;> first | omega | simp
  | pair hd hl hhi hlo hc =>
    rw [encode_eq, List.length_cons, List.length_cons, List.length_append, hd.length,
      List.length_cons, List.length_cons, hl.length]
    split_ifs <;> simp

theorem utf8_length_le (h : Chars raw cs) :
    (utf8 cs).length ≤ raw.length := by
  induction h with
  | nil => exact Nat.le_refl _
  | cons hu _ ih =>
    rw [utf8_cons, List.length_append, List.length_append]
    exact Nat.add_le_add (encode_length_le hu) ih

/-- **The decoder reads every spelled string**, where there is room for its characters. -/
theorem decode_complete (h : Chars raw cs) :
    ∀ {fuel room : Nat}, raw.length ≤ fuel → (utf8 cs).length < room →
      decodeStringLoop fuel raw room = some (utf8 cs) := by
  induction h with
  | nil =>
    intro fuel room _ hroom
    rw [decodeStringLoop, if_neg (by omega)]
    rfl
  | @cons u raw c cs hu hraw ih =>
    intro fuel room hfuel hroom
    have hlen := encode_length_le hu
    rw [List.length_append] at hfuel
    rw [utf8_cons, List.length_append] at hroom
    have hwrite : ∀ {n : Nat}, c.toNat = n → utf8Append room n = some (encode c) := by
      intro n hn
      rw [← hn, utf8Append_eq, if_neg (by omega)]
    rw [utf8_cons]
    cases hu with
    | plain hctl hquote hback =>
      have hplain : Plain c := ⟨hctl, hquote, hback⟩
      apply decode_append
      · intro b hb hb'
        exact (hplain.byte b hb).2.2 (congrArg UInt8.toNat hb')
      · omega
      · omega
      · exact ih (by omega) (by omega)
    | @short esc _ hmem =>
      obtain ⟨hesc, henc⟩ := short_of_escapes hmem
      simp only [henc, List.length_cons, List.length_nil] at hfuel hroom
      obtain ⟨fuel, rfl⟩ : ∃ k, fuel = k + 1 := ⟨fuel - 1, by omega⟩
      have hstep := decodeStringLoop_short hesc fuel room raw
      rw [if_neg (by omega), ih (by omega) (by omega)] at hstep
      rw [henc]
      exact hstep
    | @unicode d n _ hd hc =>
      simp only [List.length_cons, hd.length] at hfuel hroom hlen
      obtain ⟨fuel, rfl⟩ : ∃ k, fuel = k + 1 := ⟨fuel - 1, by omega⟩
      have hvalid := char_valid c
      rw [List.cons_append, List.cons_append, decodeStringLoop_unicode,
        decodeUnicodeEscape_one hd (by omega), Option.bind_some, hwrite hc, Option.bind_some,
        ih (by omega) (by omega)]
      rfl
    | @pair d l hi lo _ hd hl hhi hlo hc =>
      simp only [List.length_cons, List.length_append, hd.length, hl.length]
        at hfuel hroom hlen
      obtain ⟨fuel, rfl⟩ : ∃ k, fuel = k + 1 := ⟨fuel - 1, by omega⟩
      rw [List.cons_append, List.cons_append, List.append_assoc, List.cons_append,
        List.cons_append, decodeStringLoop_unicode, decodeUnicodeEscape_pair hd hl hhi hlo,
        Option.bind_some, hwrite hc, Option.bind_some, ih (by omega) (by omega)]
      rfl

/-! ## Strings -/

theorem findStringEnd_scanned {cur : Bytes} {span : StringSpan}
    (h : findStringEnd cur = some span) :
    cur = chQuote :: (span.raw ++ chQuote :: span.after) ∧ Scanned span.raw span.escaped := by
  cases cur with
  | nil => cases h
  | cons c p =>
    simp only [findStringEnd] at h
    split at h
    · next hquote =>
      subst hquote
      obtain ⟨⟨q, flag⟩, hloop, rfl⟩ := Option.map_eq_some_iff.mp h
      obtain ⟨raw, e, tail, rfl, rfl, hscan, hflag⟩ := scanned_of_loop hloop
      rw [Bool.false_or] at hflag
      subst hflag
      have hraw : StringSpan.raw ⟨raw ++ chQuote :: tail, chQuote :: tail, flag⟩ = raw := by
        simp [StringSpan.raw]
      rw [hraw]
      exact ⟨rfl, hscan⟩
    · cases h

/-- **What the parser reads as a string is spelled by the grammar.** -/
theorem parseStringArena_sound {cur text rest : Bytes}
    (h : parseStringArena cur = some (text, rest)) :
    ∃ raw cs, cur = chQuote :: (raw ++ chQuote :: rest) ∧ Chars raw cs ∧ text = utf8 cs := by
  obtain ⟨span, hspan, h⟩ := Option.bind_eq_some_iff.mp h
  obtain ⟨hcur, hscan⟩ := findStringEnd_scanned hspan
  cases hflag : span.escaped with
  | false =>
    simp only [hflag, Bool.false_eq_true, if_false, Option.some.injEq, Prod.mk.injEq] at h
    obtain ⟨rfl, rfl⟩ := h
    obtain ⟨cs, hcs, hutf8⟩ := chars_of_scanned hscan hflag
    exact ⟨span.raw, cs, hcur, hcs, hutf8.symm⟩
  | true =>
    simp only [hflag, if_true] at h
    obtain ⟨text', hdecode, heq⟩ := Option.map_eq_some_iff.mp h
    obtain ⟨rfl, rfl⟩ := Prod.mk.inj heq
    obtain ⟨cs, hcs, rfl⟩ := decode_sound _ (Nat.le_refl _) hscan hdecode
    exact ⟨span.raw, cs, hcur, hcs, rfl⟩

theorem findStringEnd_complete (h : Chars raw cs) (rest : Bytes) :
    ∃ e, findStringEnd (chQuote :: (raw ++ chQuote :: rest)) =
      some ⟨raw ++ chQuote :: rest, chQuote :: rest, e⟩ ∧ (e = false → utf8 cs = raw) := by
  obtain ⟨e, hscan, hsame⟩ := scanned_of_chars h
  have hfuel : raw.length + 1 ≤ (raw ++ chQuote :: rest).length := by
    rw [List.length_append, List.length_cons]
    omega
  have hloop := @loop_of_scanned raw rest e hscan _ false hfuel
  refine ⟨e, ?_, hsame⟩
  simp only [findStringEnd, if_true, hloop, Option.map_some, Bool.false_or]

/-- **What the grammar spells as a string is read by the parser.** -/
theorem parseStringArena_complete (h : Chars raw cs) (rest : Bytes) :
    parseStringArena (chQuote :: (raw ++ chQuote :: rest)) = some (utf8 cs, rest) := by
  obtain ⟨e, hspan, hsame⟩ := findStringEnd_complete h rest
  have hraw : StringSpan.raw ⟨raw ++ chQuote :: rest, chQuote :: rest, e⟩ = raw := by
    simp [StringSpan.raw]
  simp only [parseStringArena, hspan, Option.bind_some, hraw]
  cases e with
  | false =>
    simp only [Bool.false_eq_true, if_false, hsame rfl]
    rfl
  | true =>
    simp only [if_true, decodeStringSpan,
      decode_complete h (Nat.le_refl _) (Nat.lt_succ_of_le (utf8_length_le h)), Option.map_some]
    rfl

end Dcc.Json
