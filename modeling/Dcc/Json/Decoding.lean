import Dcc.Json.Strings

/-!
# What a string span denotes

A span that `dcc_json_find_string_end` accepts is a row of tokens: characters,
written plainly or by an escape of one letter, and the UTF-16 units of `\u`
escapes.  `denote` reads the units as UTF-16: a high surrogate and a low one
behind it are one character, a surrogate on its own is none.  The decoder works
on bytes and knows nothing of tokens.

* `denote_none_iff` — a row denotes nothing exactly when it has a lonely surrogate;
* `decode_tokens` — the decoder writes the UTF-8 encoding of what a span denotes,
  into as many bytes as the span has and one more;
* `decodeStringSpan_exact` — both for every span that is accepted, with the bound
  on the length and the validity of what is written.
-/

namespace Dcc.Json

open Grammar

/-! ## Tokens -/

/-- A character, or the UTF-16 unit of a `\u` escape. -/
inductive Token
  | char (c : Char)
  | unit (n : Nat)
  deriving DecidableEq, Repr

/-- The tokens that a span is a row of. -/
inductive Tokens : Bytes → List Token → Prop
  | nil : Tokens [] []
  | plain {c : Char} {raw : Bytes} {ts : List Token} (hc : Plain c) (h : Tokens raw ts) :
      Tokens (encode c ++ raw) (.char c :: ts)
  | short {esc : UInt8} {c : Char} {raw : Bytes} {ts : List Token} (hesc : (esc, c) ∈ escapes)
      (h : Tokens raw ts) : Tokens (chBackslash :: esc :: raw) (.char c :: ts)
  | unicode {d raw : Bytes} {n : Nat} {ts : List Token} (hd : Hex4 d n) (h : Tokens raw ts) :
      Tokens (chBackslash :: 0x75 :: (d ++ raw)) (.unit n :: ts)

/-- The first half of a surrogate pair. -/
def IsHigh (n : Nat) : Prop := 0xd800 ≤ n ∧ n ≤ 0xdbff

/-- The second half of a surrogate pair. -/
def IsLow (n : Nat) : Prop := 0xdc00 ≤ n ∧ n ≤ 0xdfff

instance (n : Nat) : Decidable (IsHigh n) := inferInstanceAs (Decidable (_ ∧ _))

instance (n : Nat) : Decidable (IsLow n) := inferInstanceAs (Decidable (_ ∧ _))

/-- The characters that a row of tokens denotes, its units read as UTF-16. -/
def denote : List Token → Option (List Char)
  | [] => some []
  | .char c :: ts => (denote ts).map (c :: ·)
  | .unit n :: ts =>
    if IsHigh n then
      match ts with
      | .unit lo :: rest =>
        if IsLow lo then
          (denote rest).map (Char.ofNat (0x10000 + (n - 0xd800) * 0x400 + (lo - 0xdc00)) :: ·)
        else none
      | _ => none
    else if IsLow n then none
    else (denote ts).map (Char.ofNat n :: ·)

/-- The row starts with the second half of a pair. -/
def StartsLow (ts : List Token) : Prop := ∃ lo rest, ts = .unit lo :: rest ∧ IsLow lo

/-- The row ends with the first half of a pair. -/
def EndsHigh (ts : List Token) : Prop := ∃ front hi, ts = front ++ [.unit hi] ∧ IsHigh hi

/-- Some surrogate in the row is without its other half. -/
def Lonely (ts : List Token) : Prop :=
  ∃ front n rest, ts = front ++ .unit n :: rest ∧
    ((IsHigh n ∧ ¬ StartsLow rest) ∨ (IsLow n ∧ ¬ EndsHigh front))

section Denotation

variable {ts : List Token} {n hi lo : Nat}

theorem not_low_of_high (h : IsHigh n) : ¬ IsLow n := by
  unfold IsHigh IsLow at *
  omega

theorem denote_pair (hhi : IsHigh hi) (hlo : IsLow lo) :
    denote (.unit hi :: .unit lo :: ts) =
      (denote ts).map (Char.ofNat (0x10000 + (hi - 0xd800) * 0x400 + (lo - 0xdc00)) :: ·) := by
  rw [denote, if_pos hhi]
  exact if_pos hlo

theorem denote_high (hn : IsHigh n) (h : ¬ StartsLow ts) : denote (.unit n :: ts) = none := by
  rw [denote.eq_def]
  simp only [if_pos hn]
  split
  · rename_i lo rest
    exact if_neg fun hlo => h ⟨lo, rest, rfl, hlo⟩
  · rfl

theorem denote_low (hn : IsLow n) : denote (.unit n :: ts) = none := by
  rw [denote.eq_def]
  simp only [if_neg fun h => not_low_of_high h hn, if_pos hn]

theorem denote_unit (hhi : ¬ IsHigh n) (hlo : ¬ IsLow n) :
    denote (.unit n :: ts) = (denote ts).map (Char.ofNat n :: ·) := by
  rw [denote.eq_def]
  simp only [if_neg hhi, if_neg hlo]

theorem EndsHigh.append {front : List Token} (h : EndsHigh ts) : EndsHigh (front ++ ts) := by
  obtain ⟨start, hi, rfl, hhi⟩ := h
  exact ⟨front ++ start, hi, by rw [List.append_assoc], hhi⟩

variable {front : List Token}

theorem EndsHigh.of_append (hne : ts ≠ []) (h : EndsHigh (front ++ ts)) :
    EndsHigh ts := by
  obtain ⟨start, hi, heq, hhi⟩ := h
  obtain ⟨start', last, rfl⟩ := List.eq_nil_or_concat' ts |>.resolve_left hne
  rw [← List.append_assoc] at heq
  obtain ⟨-, hlast⟩ := List.append_inj' heq rfl
  exact ⟨start', hi, by rw [hlast], hhi⟩

theorem startsLow_append (hne : front ≠ []) :
    StartsLow (front ++ ts) ↔ StartsLow front := by
  obtain ⟨t, front, rfl⟩ := List.exists_cons_of_ne_nil hne
  constructor
  · intro h
    obtain ⟨lo, rest, heq, hlo⟩ := h
    exact ⟨lo, front, by rw [(List.cons.inj heq).1], hlo⟩
  · intro h
    obtain ⟨lo, rest, heq, hlo⟩ := h
    exact ⟨lo, front ++ ts, by rw [(List.cons.inj heq).1, List.cons_append], hlo⟩

theorem lonely_append_iff (hfront : ¬ EndsHigh front) :
    Lonely (front ++ ts) ↔ Lonely front ∨ Lonely ts := by
  constructor
  · intro h
    obtain ⟨before, n, rest, heq, hlone⟩ := h
    rcases List.append_eq_append_iff.mp heq with ⟨mid, rfl, rfl⟩ | ⟨mid, rfl, hmid⟩
    · exact Or.inr ⟨mid, n, rest, rfl,
        hlone.imp_right fun hlow => ⟨hlow.1, fun hends => hlow.2 hends.append⟩⟩
    · cases mid with
      | nil =>
        exact Or.inr ⟨[], n, rest, hmid.symm, hlone.imp_right fun hlow =>
          ⟨hlow.1, fun ⟨start, _, hends, _⟩ => by simp at hends⟩⟩
      | cons t mid =>
        obtain ⟨rfl, rfl⟩ := List.cons.inj hmid
        refine Or.inl ⟨before, n, mid, rfl, hlone.imp_left fun hhigh => ⟨hhigh.1, ?_⟩⟩
        have hne : mid ≠ [] := by
          intro hnil
          exact hfront ⟨before, n, by rw [hnil], hhigh.1⟩
        rw [← startsLow_append hne]
        exact hhigh.2
  · intro h
    rcases h with ⟨before, n, rest, rfl, hlone⟩ | ⟨before, n, rest, rfl, hlone⟩
    · refine ⟨before, n, rest ++ ts, by simp, hlone.imp_left fun hhigh => ⟨hhigh.1, ?_⟩⟩
      have hne : rest ≠ [] := by
        intro hnil
        exact hfront ⟨before, n, by rw [hnil], hhigh.1⟩
      rw [startsLow_append hne]
      exact hhigh.2
    · refine ⟨front ++ before, n, rest, by simp, hlone.imp_right fun hlow => ⟨hlow.1, ?_⟩⟩
      intro hends
      by_cases hne : before = []
      · rw [hne, List.append_nil] at hends
        exact hfront hends
      · exact hlow.2 (hends.of_append hne)

theorem EndsHigh.last {front : List Token} {t : Token} (h : EndsHigh (front ++ [t])) :
    ∃ hi, t = .unit hi ∧ IsHigh hi := by
  obtain ⟨start, hi, heq, hhi⟩ := h
  obtain ⟨-, hlast⟩ := List.append_inj' heq rfl
  exact ⟨hi, (List.cons.inj hlast).1, hhi⟩

theorem lonely_cons_iff {t : Token} (ht : ∀ n, t = .unit n → ¬ IsHigh n ∧ ¬ IsLow n) :
    Lonely (t :: ts) ↔ Lonely ts := by
  have hends : ¬ EndsHigh [t] := by
    intro hends
    obtain ⟨hi, hhead, hhi⟩ := @EndsHigh.last [] t hends
    exact (ht hi hhead).1 hhi
  have hself : ¬ Lonely [t] := by
    intro hself
    obtain ⟨before, n, rest, heq, hlone⟩ := hself
    have hmem : Token.unit n ∈ [t] := by
      rw [heq]
      exact List.mem_append_right _ List.mem_cons_self
    obtain ⟨hhi, hlo⟩ := ht n (List.mem_singleton.mp hmem).symm
    exact hlone.elim (fun hhigh => hhi hhigh.1) fun hlow => hlo hlow.1
  exact (lonely_append_iff hends).trans (or_iff_right hself)

theorem lonely_pair_iff (hhi : IsHigh hi) (hlo : IsLow lo) :
    Lonely (.unit hi :: .unit lo :: ts) ↔ Lonely ts := by
  have hlo' : ¬ IsHigh lo := fun h => not_low_of_high h hlo
  have hends : ¬ EndsHigh [.unit hi, .unit lo] := by
    intro hends
    obtain ⟨last, hunit, hlast⟩ := @EndsHigh.last [.unit hi] (.unit lo) hends
    injection hunit with hunit
    exact hlo' (hunit ▸ hlast)
  have hself : ¬ Lonely [.unit hi, .unit lo] := by
    intro hself
    obtain ⟨before, n, rest, heq, hlone⟩ := hself
    cases before with
    | nil =>
      obtain ⟨hn, rfl⟩ := List.cons.inj heq
      injection hn with hn
      subst hn
      rcases hlone with hhigh | hlow
      · exact hhigh.2 ⟨lo, [], rfl, hlo⟩
      · exact not_low_of_high hhi hlow.1
    | cons t before =>
      obtain ⟨rfl, htail⟩ := List.cons.inj heq
      cases before with
      | nil =>
        obtain ⟨hn, -⟩ := List.cons.inj htail
        injection hn with hn
        subst hn
        rcases hlone with hhigh | hlow
        · exact hlo' hhigh.1
        · exact hlow.2 ⟨[], hi, rfl, hhi⟩
      | cons u before => simp at htail
  exact (lonely_append_iff hends).trans (or_iff_right hself)

theorem row_induction {motive : List Token → Prop} (nil : motive [])
    (char : ∀ c ts, motive ts → motive (.char c :: ts))
    (pair : ∀ hi lo ts, IsHigh hi → IsLow lo → motive ts → motive (.unit hi :: .unit lo :: ts))
    (high : ∀ n ts, IsHigh n → ¬ StartsLow ts → motive (.unit n :: ts))
    (low : ∀ n ts, IsLow n → motive (.unit n :: ts))
    (unit : ∀ n ts, ¬ IsHigh n → ¬ IsLow n → motive ts → motive (.unit n :: ts))
    (ts : List Token) : motive ts := by
  induction ts using denote.induct with
  | case1 => exact nil
  | case2 c ts ih => exact char c ts ih
  | case3 n hn lo rest hlo ih => exact pair n lo rest hn hlo ih
  | case4 n hn lo rest hlo =>
    refine high n _ hn fun hstarts => ?_
    obtain ⟨lo', rest', heq, hlo'⟩ := hstarts
    injection heq with heq
    injection heq with heq
    exact hlo (heq ▸ hlo')
  | case5 n ts hn hts =>
    refine high n ts hn fun hstarts => ?_
    obtain ⟨lo, rest, heq, -⟩ := hstarts
    exact hts lo rest heq
  | case6 n ts hn hlo => exact low n ts hlo
  | case7 n ts hn hlo ih => exact unit n ts hn hlo ih

/-- **A row denotes nothing exactly when it has a lonely surrogate.** -/
theorem denote_none_iff (ts : List Token) : denote ts = none ↔ Lonely ts := by
  induction ts using row_induction with
  | nil =>
    refine iff_of_false (by simp [denote]) fun hlonely => ?_
    obtain ⟨before, n, rest, heq, -⟩ := hlonely
    simp at heq
  | char c ts ih =>
    have hc : ∀ m, Token.char c = .unit m → ¬ IsHigh m ∧ ¬ IsLow m := by
      intro m hm
      cases hm
    rw [denote, Option.map_eq_none_iff, ih, lonely_cons_iff hc]
  | pair hi lo ts hhi hlo ih =>
    rw [denote_pair hhi hlo, Option.map_eq_none_iff, ih, lonely_pair_iff hhi hlo]
  | high n ts hn hts =>
    exact iff_of_true (denote_high hn hts) ⟨[], n, ts, rfl, Or.inl ⟨hn, hts⟩⟩
  | low n ts hn =>
    have hends : ¬ EndsHigh [] := fun ⟨start, hi, heq, _⟩ => by simp at heq
    exact iff_of_true (denote_low hn) ⟨[], n, ts, rfl, Or.inr ⟨hn, hends⟩⟩
  | unit n ts hhi hlo ih =>
    have hn : ∀ m, Token.unit n = .unit m → ¬ IsHigh m ∧ ¬ IsLow m := by
      intro m hm
      injection hm with hm
      exact hm ▸ ⟨hhi, hlo⟩
    rw [denote_unit hhi hlo, Option.map_eq_none_iff, ih, lonely_cons_iff hn]

end Denotation

/-! ## The decoder -/

theorem Grammar.Hex4.unique {d : Bytes} {m n : Nat} (hm : Hex4 d m) (hn : Hex4 d n) : m = n := by
  have hfirst := parseHex4At_append hm []
  rw [parseHex4At_append hn []] at hfirst
  exact (Option.some.inj hfirst).symm

theorem Tokens.unit_head {l raw : Bytes} {n : Nat} {ts : List Token} (hl : Hex4 l n)
    (h : Tokens (chBackslash :: 0x75 :: (l ++ raw)) ts) : ∃ rest, ts = .unit n :: rest := by
  generalize hs : chBackslash :: 0x75 :: (l ++ raw) = s at h
  cases h with
  | nil => cases hs
  | @plain c raw' ts hc h =>
    obtain ⟨b, w, hbw⟩ := List.exists_cons_of_ne_nil (encode_ne_nil c)
    have hb := hc.byte b (by rw [hbw]; exact List.mem_cons_self)
    rw [hbw, List.cons_append] at hs
    injection hs with hhead
    exact absurd (congrArg UInt8.toNat hhead.symm) hb.2.2
  | @short esc c raw' ts hesc h =>
    injection hs with _ hs
    injection hs with hhead
    rw [← hhead] at hesc
    exact absurd (short_of_escapes hesc).1 (by decide)
  | @unicode d raw' k ts hd h =>
    injection hs with _ hs
    injection hs with _ hs
    have hlen : l.length = d.length := by rw [hl.length, hd.length]
    obtain ⟨rfl, -⟩ := List.append_inj hs hlen
    rw [hl.unique hd]
    exact ⟨ts, rfl⟩

theorem decodeUnicodeEscape_high {d raw : Bytes} {n : Nat} {ts : List Token} (hd : Hex4 d n)
    (hn : IsHigh n) (h : Tokens raw ts) (hts : ¬ StartsLow ts) :
    decodeUnicodeEscape (d ++ raw) = none := by
  cases hdecode : decodeUnicodeEscape (d ++ raw) with
  | none => rfl
  | some r =>
    rcases decodeUnicodeEscape_sound hd hdecode with ⟨-, -, hown⟩ | ⟨l, lo, rfl, hl, -, hlo, -⟩
    · unfold IsHigh at hn
      omega
    · obtain ⟨rest, rfl⟩ := h.unit_head hl
      exact absurd ⟨lo, rest, rfl, hlo⟩ hts

theorem decodeUnicodeEscape_low {d : Bytes} {n : Nat} (hd : Hex4 d n) (hn : IsLow n)
    (raw : Bytes) : decodeUnicodeEscape (d ++ raw) = none := by
  unfold IsLow at hn
  cases hdecode : decodeUnicodeEscape (d ++ raw) with
  | none => rfl
  | some r =>
    rcases decodeUnicodeEscape_sound hd hdecode with ⟨-, -, hown⟩ | ⟨l, lo, -, -, hhi, -, -⟩
    · omega
    · omega

theorem decodeStringLoop_char {q rest : Bytes} {c : Char} {room : Nat}
    (hcode : decodeUnicodeEscape q = some (c.toNat, rest)) (hroom : (encode c).length ≤ room)
    (fuel : Nat) :
    decodeStringLoop (fuel + 1) (chBackslash :: 0x75 :: q) room =
      (decodeStringLoop fuel rest (room - (encode c).length)).map (encode c ++ ·) := by
  rw [decodeStringLoop_unicode, hcode, Option.bind_some, utf8Append_eq, if_neg (by omega),
    Option.bind_some]

theorem encode_length_four (c : Char) : (encode c).length ≤ 4 := by
  rw [String.length_utf8EncodeChar]
  exact c.utf8Size_le_four

theorem map_utf8_cons (c : Char) (o : Option (List Char)) :
    (o.map utf8).map (encode c ++ ·) = (o.map (c :: ·)).map utf8 := by
  rw [Option.map_map, Option.map_map]
  congr 1

/-- **The decoder writes the encoding of what the row denotes.**  When it fails the row
denotes nothing, whatever is left of the room. -/
theorem decode_tokens (ts : List Token) :
    ∀ {raw : Bytes} {fuel room : Nat}, Tokens raw ts → raw.length ≤ fuel →
      raw.length + 1 ≤ room → decodeStringLoop fuel raw room = (denote ts).map utf8 := by
  induction ts using row_induction with
  | nil =>
    intro raw fuel room h _ hroom
    cases h
    rw [decodeStringLoop, if_neg (by omega)]
    rfl
  | char c ts ih =>
    intro raw fuel room h hfuel hroom
    cases h with
    | plain hc h =>
      have hcopy : ∀ b ∈ encode c, b ≠ chBackslash := by
        intro b hb hback
        exact (hc.byte b hb).2.2 (congrArg UInt8.toNat hback)
      rw [List.length_append] at hfuel hroom
      rw [decode_plain hcopy (by omega) (by omega), ih h (by omega) (by omega), denote,
        map_utf8_cons]
    | short hesc h =>
      obtain ⟨hshort, henc⟩ := short_of_escapes hesc
      simp only [List.length_cons] at hfuel hroom
      obtain ⟨fuel, rfl⟩ : ∃ k, fuel = k + 1 := ⟨fuel - 1, by omega⟩
      rw [decodeStringLoop_short hshort, if_neg (by omega), ih h (by omega) (by omega), denote,
        ← map_utf8_cons, henc]
      rfl
  | pair hi lo ts hhi hlo ih =>
    intro raw fuel room h hfuel hroom
    cases h with
    | unicode hd h =>
      cases h with
      | @unicode l raw _ _ hl h =>
        simp only [List.length_cons, List.length_append, hd.length, hl.length]
          at hfuel hroom
        obtain ⟨fuel, rfl⟩ : ∃ k, fuel = k + 1 := ⟨fuel - 1, by omega⟩
        have hnumber : 0xdfff < 0x10000 + (hi - 0xd800) * 0x400 + (lo - 0xdc00) ∧
            0x10000 + (hi - 0xd800) * 0x400 + (lo - 0xdc00) < 0x110000 := by
          unfold IsHigh IsLow at *
          omega
        obtain ⟨c, hc⟩ := exists_char (Or.inr hnumber)
        have hlen := encode_length_four c
        have hcode := decodeUnicodeEscape_pair hd hl hhi hlo raw
        rw [← hc] at hcode
        rw [decodeStringLoop_char hcode (by omega), ih h (by omega) (by omega),
          denote_pair hhi hlo, map_utf8_cons, ← hc, Char.ofNat_toNat]
  | high n ts hn hts =>
    intro raw fuel room h hfuel _
    cases h with
    | unicode hd h =>
      simp only [List.length_cons] at hfuel
      obtain ⟨fuel, rfl⟩ : ∃ k, fuel = k + 1 := ⟨fuel - 1, by omega⟩
      rw [decodeStringLoop_unicode, decodeUnicodeEscape_high hd hn h hts, denote_high hn hts]
      rfl
  | low n ts hn =>
    intro raw fuel room h hfuel _
    cases h with
    | unicode hd h =>
      simp only [List.length_cons] at hfuel
      obtain ⟨fuel, rfl⟩ : ∃ k, fuel = k + 1 := ⟨fuel - 1, by omega⟩
      rw [decodeStringLoop_unicode, decodeUnicodeEscape_low hd hn, denote_low hn]
      rfl
  | unit n ts hhi hlo ih =>
    intro raw fuel room h hfuel hroom
    cases h with
    | @unicode d raw _ _ hd h =>
      simp only [List.length_cons, List.length_append, hd.length] at hfuel hroom
      obtain ⟨fuel, rfl⟩ : ∃ k, fuel = k + 1 := ⟨fuel - 1, by omega⟩
      have hlt := hd.lt
      have hown : n < 0xd800 ∨ 0xdfff < n := by
        unfold IsHigh IsLow at *
        omega
      obtain ⟨c, hc⟩ := @exists_char n (hown.imp_right fun h => ⟨h, by omega⟩)
      have hlen := encode_length_four c
      have hcode := decodeUnicodeEscape_one hd hown raw
      rw [← hc] at hcode
      rw [decodeStringLoop_char hcode (by omega), ih h (by omega) (by omega),
        denote_unit hhi hlo, map_utf8_cons, ← hc, Char.ofNat_toNat]

theorem utf8Append_fits {room n : Nat} {bytes : Bytes} (h : utf8Append room n = some bytes) :
    bytes.length ≤ room := by
  obtain ⟨tmp, -, h⟩ := Option.bind_eq_some_iff.mp h
  split at h
  · cases h
  · cases h
    omega

/-- The text and the NUL behind it have room, whatever the decoder is given. -/
theorem decode_fits :
    ∀ {fuel room : Nat} {raw text : Bytes}, decodeStringLoop fuel raw room = some text →
      text.length < room := by
  intro fuel
  induction fuel with
  | zero =>
    intro room raw text h
    cases raw with
    | nil =>
      simp only [decodeStringLoop] at h
      split at h
      · cases h
      · cases h
        exact Nat.pos_of_ne_zero ‹_›
    | cons => cases h
  | succ fuel ih =>
    intro room raw text h
    have hone : ∀ {q : Bytes} {b : UInt8},
        (if room = 0 then none else (decodeStringLoop fuel q (room - 1)).map (b :: ·)) =
          some text → text.length < room := by
      intro q b h
      split at h
      · cases h
      · obtain ⟨text', h', rfl⟩ := Option.map_eq_some_iff.mp h
        have := ih h'
        rw [List.length_cons]
        omega
    cases raw with
    | nil =>
      simp only [decodeStringLoop] at h
      split at h
      · cases h
      · cases h
        exact Nat.pos_of_ne_zero ‹_›
    | cons c p =>
      simp only [decodeStringLoop] at h
      split at h
      · exact hone h
      split at h
      · cases h
      split at h
      · exact hone h
      split at h
      · obtain ⟨⟨cp, q⟩, -, h⟩ := Option.bind_eq_some_iff.mp h
        obtain ⟨bytes, hbytes, h⟩ := Option.bind_eq_some_iff.mp h
        obtain ⟨text', h', rfl⟩ := Option.map_eq_some_iff.mp h
        have hfits := utf8Append_fits hbytes
        have hrest := ih h'
        rw [List.length_append]
        omega
      · cases h

/-- What the decoder writes it writes into every buffer that holds it. -/
theorem decode_of_fits :
    ∀ {fuel room room' : Nat} {raw text : Bytes}, decodeStringLoop fuel raw room = some text →
      text.length < room' → decodeStringLoop fuel raw room' = some text := by
  intro fuel
  induction fuel with
  | zero =>
    intro room room' raw text h hfits
    cases raw with
    | nil =>
      simp only [decodeStringLoop] at h ⊢
      split at h
      · cases h
      · rw [if_neg (by omega)]
        exact h
    | cons => cases h
  | succ fuel ih =>
    intro room room' raw text h hfits
    have hone : ∀ {q : Bytes} {b : UInt8},
        (if room = 0 then none else (decodeStringLoop fuel q (room - 1)).map (b :: ·)) = some text →
          (if room' = 0 then none else (decodeStringLoop fuel q (room' - 1)).map (b :: ·)) =
            some text := by
      intro q b h
      split at h
      · cases h
      · obtain ⟨text', h', rfl⟩ := Option.map_eq_some_iff.mp h
        rw [List.length_cons] at hfits
        rw [if_neg (by omega), ih h' (by omega)]
        rfl
    cases raw with
    | nil =>
      simp only [decodeStringLoop] at h ⊢
      split at h
      · cases h
      · rw [if_neg (by omega)]
        exact h
    | cons c p =>
      simp only [decodeStringLoop] at h ⊢
      by_cases hplain : c ≠ chBackslash
      · rw [if_pos hplain] at h ⊢
        exact hone h
      · rw [if_neg hplain] at h ⊢
        cases p with
        | nil => exact h
        | cons esc q =>
          simp only at h ⊢
          by_cases hesc : isShortEscape esc = true
          · rw [if_pos hesc] at h ⊢
            exact hone h
          · rw [if_neg hesc] at h ⊢
            by_cases hu : esc = 0x75
            · rw [if_pos hu] at h ⊢
              obtain ⟨r, hr, h⟩ := Option.bind_eq_some_iff.mp h
              obtain ⟨bytes, hbytes, h⟩ := Option.bind_eq_some_iff.mp h
              obtain ⟨text', h', rfl⟩ := Option.map_eq_some_iff.mp h
              rw [List.length_append] at hfits
              have happend : utf8Append room' r.1 = some bytes := by
                obtain ⟨tmp, htmp, h⟩ := Option.bind_eq_some_iff.mp hbytes
                refine Option.bind_eq_some_iff.mpr ⟨tmp, htmp, ?_⟩
                split at h
                · cases h
                · cases h
                  exact if_neg (by omega)
              rw [hr, Option.bind_some, happend, Option.bind_some, ih h' (by omega)]
              rfl
            · rw [if_neg hu] at h
              cases h

variable {raw : Bytes}

/-- **The decoder with a buffer of any size.**  It writes what the row denotes where
that fits with its NUL, and fails where it does not. -/
theorem decodeStringSpan_fits {ts : List Token} (h : Tokens raw ts) (outCap : Nat) :
    decodeStringSpan raw outCap =
      ((denote ts).map utf8).filter fun text => text.length < outCap := by
  have hexact := decode_tokens ts h (Nat.le_refl raw.length) (Nat.le_refl (raw.length + 1))
  cases htext : (denote ts).map utf8 with
  | none =>
    cases hdecode : decodeStringSpan raw outCap with
    | none => rfl
    | some text =>
      rw [htext] at hexact
      have hlong : text.length < raw.length + 1 + text.length := by omega
      have hbig := decode_of_fits hdecode hlong
      rw [decode_tokens ts h (Nat.le_refl _) (by omega), htext] at hbig
      cases hbig
  | some text =>
    rw [htext] at hexact
    by_cases hfits : text.length < outCap
    · rw [decodeStringSpan, decode_of_fits hexact hfits, Option.filter_some_pos]
      exact decide_eq_true hfits
    · cases hdecode : decodeStringSpan raw outCap with
      | none => exact (Option.filter_some_neg (by simpa using hfits)).symm
      | some text' =>
        have hcap := decode_fits hdecode
        have hbig : decodeStringLoop raw.length raw (raw.length + 1 + text'.length) =
            some text' := decode_of_fits hdecode (by omega)
        rw [decode_tokens ts h (Nat.le_refl _) (by omega), htext] at hbig
        cases hbig
        exact absurd hcap hfits

theorem tokens_of_scanned {e : Bool} (h : Scanned raw e) : ∃ ts, Tokens raw ts := by
  induction h with
  | nil => exact ⟨[], Tokens.nil⟩
  | @plain c raw e hc h ih =>
    obtain ⟨ts, hts⟩ := ih
    exact ⟨.char c :: ts, hts.plain hc⟩
  | @short esc raw e hesc h ih =>
    obtain ⟨ts, hts⟩ := ih
    obtain ⟨c, hmem, -⟩ := escapes_of_short hesc
    exact ⟨.char c :: ts, hts.short hmem⟩
  | @unicode d raw n e hd h ih =>
    obtain ⟨ts, hts⟩ := ih
    exact ⟨.unit n :: ts, hts.unicode hd⟩

theorem denote_of_unescaped {ts : List Token} (hscan : Scanned raw false)
    (h : Tokens raw ts) : (denote ts).map utf8 = some raw := by
  obtain ⟨cs, hcs, hutf8⟩ := chars_of_scanned hscan rfl
  rw [← decode_tokens ts h (Nat.le_refl _) (Nat.le_refl _),
    decode_complete hcs (Nat.le_refl _) (Nat.lt_succ_of_le (utf8_length_le hcs)), hutf8]

theorem utf8_valid (cs : List Char) : (utf8 cs).toByteArray.IsValidUTF8 :=
  ByteArray.isValidUTF8_utf8Encode

theorem parseStringArena_tokens {cur : Bytes} {span : StringSpan} {ts : List Token}
    (hspan : findStringEnd cur = some span) (h : Tokens span.raw ts) :
    parseStringArena cur = (denote ts).map fun cs => (utf8 cs, span.after) := by
  have hscan := (findStringEnd_scanned hspan).2
  rw [parseStringArena, hspan, Option.bind_some]
  cases hflag : span.escaped with
  | true =>
    rw [if_pos rfl, decodeStringSpan, decode_tokens ts h (Nat.le_refl _) (Nat.le_refl _),
      Option.map_map]
    rfl
  | false =>
    rw [hflag] at hscan
    have htext := denote_of_unescaped hscan h
    obtain ⟨cs, hcs, hraw⟩ := Option.map_eq_some_iff.mp htext
    rw [if_neg Bool.false_ne_true, hcs, Option.map_some, hraw]

/-- **The decoder is exact on every accepted span.**  The span is a row of tokens.  Into
`len + 1` bytes or more the decoder writes the UTF-8 encoding of what the row denotes, and
so does the parser; it fails only on a lonely surrogate, and always there.  What it writes
is valid UTF-8 and no longer than the span. -/
theorem decodeStringSpan_exact {cur : Bytes} {span : StringSpan}
    (hspan : findStringEnd cur = some span) :
    (∃ ts, Tokens span.raw ts) ∧ ∀ ts, Tokens span.raw ts →
        (∀ outCap, span.raw.length + 1 ≤ outCap →
          decodeStringSpan span.raw outCap = (denote ts).map utf8) ∧
        parseStringArena cur = (denote ts).map (fun cs => (utf8 cs, span.after)) ∧
        (denote ts = none ↔ Lonely ts) ∧
        ∀ cs, denote ts = some cs →
          (utf8 cs).length ≤ span.raw.length ∧ (utf8 cs).toByteArray.IsValidUTF8 := by
  refine ⟨tokens_of_scanned (findStringEnd_scanned hspan).2, fun ts hts => ?_⟩
  have hdecode : ∀ outCap, span.raw.length + 1 ≤ outCap →
      decodeStringSpan span.raw outCap = (denote ts).map utf8 :=
    fun outCap hcap => decode_tokens ts hts (Nat.le_refl _) hcap
  refine ⟨hdecode, parseStringArena_tokens hspan hts, denote_none_iff ts, fun cs hcs => ?_⟩
  have htext := hdecode _ (Nat.le_refl _)
  rw [hcs, Option.map_some] at htext
  have hfits := decode_fits htext
  exact ⟨by omega, utf8_valid cs⟩

/-- `"a\ud83d\ude00"` with something behind it. -/
def pairText : Bytes :=
  [0x22, 0x61, 0x5c, 0x75, 0x64, 0x38, 0x33, 0x64, 0x5c, 0x75, 0x64, 0x65, 0x30, 0x30, 0x22, 0x2c]

theorem decodeStringSpan_exact_pair :
    ∃ span, findStringEnd pairText = some span ∧
      Tokens span.raw [.char 'a', .unit 0xd83d, .unit 0xde00] ∧
      decodeStringSpan span.raw 14 = some (utf8 ['a', '😀']) := by
  have hspan : findStringEnd pairText =
      some ⟨pairText.drop 1, pairText.drop 14, true⟩ := by decide +kernel
  have htail : Tokens [] [] := Tokens.nil
  have hlo : Tokens [0x5c, 0x75, 0x64, 0x65, 0x30, 0x30] [.unit 0xde00] :=
    htail.unicode (Hex4.mk (i := 13) (j := 14) (k := 0) (l := 0) rfl rfl rfl rfl)
  have hhi : Tokens [0x5c, 0x75, 0x64, 0x38, 0x33, 0x64, 0x5c, 0x75, 0x64, 0x65, 0x30, 0x30]
      [.unit 0xd83d, .unit 0xde00] :=
    hlo.unicode (Hex4.mk (i := 13) (j := 8) (k := 3) (l := 13) rfl rfl rfl rfl)
  have htokens := hhi.plain (c := 'a') ⟨by decide, by decide, by decide⟩
  obtain ⟨-, hexact⟩ := decodeStringSpan_exact hspan
  refine ⟨_, hspan, htokens, ?_⟩
  rw [(hexact _ htokens).1 14 (by decide)]
  decide

end Dcc.Json
