import Dcc.Cache.UpdateValues
import Dcc.Json.Decoding

/-!
# Snowflakes in tokens and in keys

Discord writes its 64-bit ids as strings of digits.  `parseU64Token` reads one
as a value, `parseSnowflakeMapKey` as the key of a map; both look at the digits
in place, or decode them into 32 bytes where the string has escapes.

* `parseU64Ascii_iff`: the loop over the digits reads numbers below 2^64 and
  nothing else;
* `snowflakeOf_tokens`: what both parsers make of a string token depends on its
  content only;
* `snowflake_exact`: a token whose content has no NUL is accepted exactly where
  the content is a number below 2^64 of at most 31 digits.
-/

namespace Dcc.Json

open Grammar
open Cache.Merge (parseU64Ascii u64Digit decimal decimalDigit cText u64Text)

/-! ## The parsers -/

/-- `dcc_json_parse_u64_direct`: the number and the cursor after it. -/
def parseU64Direct (cur : Bytes) : Option (Nat × Bytes) :=
  (parseNumberSpan cur).bind fun r =>
    if r.2.1 = false ∨ r.1.length = 0 ∨ 64 ≤ r.1.length ∨ r.1.head? = some chMinus then none
    else (parseU64Ascii r.1).map fun value => (value, r.2.2)

/-- The digits of a delimited string: in place, or decoded into 32 bytes as a C string. -/
def snowflakeDigits (span : StringSpan) : Option Bytes :=
  if span.escaped then (decodeStringSpan span.raw 32).map cText
  else if 32 ≤ span.raw.length then none
  else some span.raw

/-- The number a delimited string spells, with the cursor after the string. -/
def snowflakeOf (span : StringSpan) : Option (Nat × Bytes) :=
  (snowflakeDigits span).bind fun digits =>
    (parseU64Ascii digits).map fun value => (value, span.after)

/-- `dcc_json_parse_u64_token`. -/
def parseU64Token (cur : Bytes) : Option (Nat × Bytes) :=
  match skipWs cur with
  | [] => none
  | c :: p => if c ≠ chQuote then parseU64Direct (c :: p) else (findStringEnd (c :: p)).bind snowflakeOf

/-- `dcc_json_parse_snowflake_map_key`. -/
def parseSnowflakeMapKey (cur : Bytes) : Option (Nat × Bytes) :=
  (findStringEnd cur).bind snowflakeOf

/-! ## Digits -/

variable {s : Bytes} {value n : Nat}

theorem le_of_digits (h : s.foldlM decimalDigit value = some n) :
    value ≤ n := by
  induction s generalizing value with
  | nil =>
    obtain rfl : value = n := by simpa using h
    exact Nat.le_refl _
  | cons c s ih =>
    rw [List.foldlM_cons] at h
    obtain ⟨value', hdigit, h⟩ := Option.bind_eq_some_iff.mp h
    unfold decimalDigit at hdigit
    split at hdigit
    · cases hdigit
    · cases hdigit
      have hle := ih h
      omega

theorem digits_of_le (h : s.foldlM decimalDigit value = some n)
    (hn : n ≤ wordMax) : s.foldlM u64Digit value = some n := by
  induction s generalizing value with
  | nil => exact h
  | cons c s ih =>
    rw [List.foldlM_cons] at h ⊢
    obtain ⟨value', hdigit, h⟩ := Option.bind_eq_some_iff.mp h
    refine Option.bind_eq_some_iff.mpr ⟨value', ?_, ih h⟩
    have hle := le_of_digits h
    unfold decimalDigit at hdigit
    unfold u64Digit
    split at hdigit
    · cases hdigit
    · next hc =>
      cases hdigit
      rw [if_neg hc, if_neg (by omega)]

theorem le_wordMax_of_digits (h : s.foldlM u64Digit value = some n)
    (hvalue : value ≤ wordMax) : n ≤ wordMax := by
  induction s generalizing value with
  | nil =>
    obtain rfl : value = n := by simpa using h
    exact hvalue
  | cons c s ih =>
    rw [List.foldlM_cons] at h
    obtain ⟨value', hdigit, h⟩ := Option.bind_eq_some_iff.mp h
    refine ih h ?_
    unfold u64Digit at hdigit
    split at hdigit
    · cases hdigit
    · next hc =>
      simp only at hdigit
      have hrange : c.toNat ≤ 0x39 := by
        have hnot := (not_or.mp hc).2
        rw [UInt8.lt_iff_toNat_lt, Nat.not_lt] at hnot
        exact hnot
      have hbig : 9 ≤ wordMax := by decide
      split at hdigit
      · cases hdigit
      · cases hdigit
        omega

/-- **The loop over the digits** reads the numbers below 2^64 and nothing else. -/
theorem parseU64Ascii_iff {n : Nat} :
    parseU64Ascii s = some n ↔ decimal s = some n ∧ n ≤ wordMax := by
  constructor
  · intro h
    refine ⟨Cache.Merge.parseU64Ascii_decimal h, ?_⟩
    unfold parseU64Ascii at h
    split at h
    · cases h
    · exact le_wordMax_of_digits h (Nat.zero_le _)
  · intro h
    obtain ⟨hdecimal, hn⟩ := h
    unfold decimal at hdecimal
    unfold parseU64Ascii
    split at hdecimal
    · cases hdecimal
    · next hs =>
      rw [if_neg hs]
      exact digits_of_le hdecimal hn

/-! ## String tokens -/

theorem Scanned.noNul {raw : Bytes} {e : Bool} (h : Scanned raw e) (he : e = false) :
    (0 : UInt8) ∉ raw := by
  induction h with
  | nil => exact List.not_mem_nil
  | @plain c raw e hc _ ih =>
    rw [List.mem_append, not_or]
    refine ⟨fun hmem => ?_, ih he⟩
    have hctl := (hc.byte 0 hmem).1
    exact absurd hctl (by decide)
  | _ => cases he

variable {span : StringSpan}

/-- **What a string token is read as.**  Only its content counts: it has to fit in 31
bytes, and is read up to its first NUL. -/
theorem snowflakeOf_tokens {cur : Bytes} {ts : List Token}
    (hspan : findStringEnd cur = some span) (h : Tokens span.raw ts) :
    snowflakeOf span =
      ((denote ts).map utf8).bind fun s => (u64Text s).map fun value => (value, span.after) := by
  have hscan := (findStringEnd_scanned hspan).2
  unfold snowflakeOf snowflakeDigits u64Text
  cases hflag : span.escaped with
  | true =>
    rw [if_pos rfl, decodeStringSpan_fits h]
    cases (denote ts).map utf8 with
    | none => rfl
    | some s =>
      rw [Option.bind_some]
      by_cases hfits : s.length < 32
      · rw [Option.filter_some_pos (by simpa using hfits), if_pos hfits]
        rfl
      · rw [Option.filter_some_neg (by simpa using hfits), if_neg hfits]
        rfl
  | false =>
    rw [hflag] at hscan
    rw [denote_of_unescaped hscan h, Option.bind_some, if_neg Bool.false_ne_true,
      Cache.Merge.cText_of_not_mem (hscan.noNul rfl)]
    by_cases hfits : span.raw.length < 32
    · rw [if_neg (by omega), if_pos hfits]
      rfl
    · rw [if_pos (by omega), if_neg hfits]
      rfl

/-- The content of a token is a number below 2^64, written with at most 31 digits. -/
def Spells64 (ts : List Token) (n : Nat) : Prop :=
  ∃ cs, denote ts = some cs ∧ (utf8 cs).length ≤ 31 ∧ decimal (utf8 cs) = some n ∧ n ≤ wordMax

theorem snowflakeOf_iff {cur rest : Bytes} {ts : List Token} {n : Nat}
    (hspan : findStringEnd cur = some span) (h : Tokens span.raw ts)
    (hnul : ∀ cs, denote ts = some cs → (0 : UInt8) ∉ utf8 cs) :
    snowflakeOf span = some (n, rest) ↔ rest = span.after ∧ Spells64 ts n := by
  rw [snowflakeOf_tokens hspan h]
  cases hcontent : denote ts with
  | none =>
    refine iff_of_false (by simp) fun hspells => ?_
    obtain ⟨-, cs, hcs, -⟩ := hspells
    rw [hcontent] at hcs
    cases hcs
  | some cs =>
    have hspells : Spells64 ts n ↔
        (utf8 cs).length ≤ 31 ∧ decimal (utf8 cs) = some n ∧ n ≤ wordMax := by
      simp only [Spells64, hcontent, Option.some.injEq, exists_eq_left']
    rw [hspells, Option.map_some, Option.bind_some, u64Text,
      Cache.Merge.cText_of_not_mem (hnul cs hcontent)]
    by_cases hfits : (utf8 cs).length < 32
    · rw [if_pos hfits, Option.map_eq_some_iff]
      constructor
      · intro hvalue
        obtain ⟨value, hvalue, heq⟩ := hvalue
        obtain ⟨rfl, rfl⟩ := Prod.mk.inj heq
        exact ⟨rfl, by omega, parseU64Ascii_iff.mp hvalue⟩
      · intro hvalue
        obtain ⟨rfl, -, hvalue⟩ := hvalue
        exact ⟨n, parseU64Ascii_iff.mpr hvalue, rfl⟩
    · rw [if_neg hfits]
      refine iff_of_false (by simp) fun hvalue => ?_
      omega

/-- **Snowflakes are read exactly.**  Both parsers accept a string token whose content
has no NUL exactly where the content is a number below 2^64 of at most 31 digits, and
return that number; what is no string token of JSON they reject. -/
theorem snowflake_exact (cur : Bytes) :
    (∀ span ts, findStringEnd (skipWs cur) = some span → Tokens span.raw ts →
      (∀ cs, denote ts = some cs → (0 : UInt8) ∉ utf8 cs) →
        ∀ n rest, parseU64Token cur = some (n, rest) ↔ rest = span.after ∧ Spells64 ts n) ∧
    (∀ span ts, findStringEnd cur = some span → Tokens span.raw ts →
      (∀ cs, denote ts = some cs → (0 : UInt8) ∉ utf8 cs) →
        ∀ n rest, parseSnowflakeMapKey cur = some (n, rest) ↔ rest = span.after ∧ Spells64 ts n) ∧
    ((skipWs cur).head? = some chQuote → findStringEnd (skipWs cur) = none →
      parseU64Token cur = none) ∧
    (findStringEnd cur = none → parseSnowflakeMapKey cur = none) := by
  have htoken : ∀ {p : Bytes}, skipWs cur = chQuote :: p →
      parseU64Token cur = (findStringEnd (skipWs cur)).bind snowflakeOf := by
    intro p hp
    rw [parseU64Token, hp]
    simp
  refine ⟨fun span ts hspan h hnul n rest => ?_, fun span ts hspan h hnul n rest => ?_,
    fun hquote hnone => ?_, fun hnone => ?_⟩
  · rw [htoken (findStringEnd_scanned hspan).1, hspan, Option.bind_some]
    exact snowflakeOf_iff hspan h hnul
  · rw [parseSnowflakeMapKey, hspan, Option.bind_some]
    exact snowflakeOf_iff hspan h hnul
  · cases hcur : skipWs cur with
    | nil =>
      rw [hcur] at hquote
      cases hquote
    | cons c p =>
      obtain rfl : c = chQuote := by simpa [hcur] using hquote
      rw [htoken hcur, hnone]
      rfl
  · rw [parseSnowflakeMapKey, hnone]
    rfl

theorem tokens_of_plain {cs : List Char} (h : ∀ c ∈ cs, Plain c) :
    Tokens (utf8 cs) (cs.map .char) := by
  induction cs with
  | nil => exact Tokens.nil
  | cons c cs ih =>
    rw [List.forall_mem_cons] at h
    rw [utf8_cons]
    exact (ih h.2).plain h.1

theorem denote_map_char (cs : List Char) : denote (cs.map .char) = some cs := by
  induction cs with
  | nil => rfl
  | cons c cs ih => rw [List.map_cons, denote, ih, Option.map_some]

/-- `"123"` with something behind it. -/
theorem snowflake_exact_123 :
    parseU64Token [0x20, 0x22, 0x31, 0x32, 0x33, 0x22, 0x2c] = some (123, [0x2c]) ∧
      parseSnowflakeMapKey [0x22, 0x31, 0x32, 0x33, 0x22, 0x3a] = some (123, [0x3a]) ∧
      parseU64Token [0x22, 0x31, 0x0a, 0x22] = none ∧ parseSnowflakeMapKey [0x31] = none := by
  have hplain : ∀ c ∈ ['1', '2', '3'], Plain c := by
    intro c hc
    simp only [List.mem_cons, List.not_mem_nil, or_false] at hc
    rcases hc with rfl | rfl | rfl
    · exact ⟨by decide, by decide, by decide⟩
    · exact ⟨by decide, by decide, by decide⟩
    · exact ⟨by decide, by decide, by decide⟩
  have htokens := tokens_of_plain hplain
  have hcontent := denote_map_char ['1', '2', '3']
  have hspells : Spells64 (['1', '2', '3'].map .char) 123 :=
    ⟨_, hcontent, by decide, by decide, by decide⟩
  have hnul : ∀ cs, denote (['1', '2', '3'].map .char) = some cs → (0 : UInt8) ∉ utf8 cs := by
    intro cs hcs
    rw [hcontent] at hcs
    cases hcs
    decide
  refine ⟨?_, ?_, ?_, ?_⟩
  · have hspan : findStringEnd (skipWs [0x20, 0x22, 0x31, 0x32, 0x33, 0x22, 0x2c]) =
        some ⟨[0x31, 0x32, 0x33, 0x22, 0x2c], [0x22, 0x2c], false⟩ := by decide +kernel
    exact ((snowflake_exact _).1 _ _ hspan htokens hnul 123 _).mpr ⟨rfl, hspells⟩
  · have hspan : findStringEnd [0x22, 0x31, 0x32, 0x33, 0x22, 0x3a] =
        some ⟨[0x31, 0x32, 0x33, 0x22, 0x3a], [0x22, 0x3a], false⟩ := by decide +kernel
    exact ((snowflake_exact _).2.1 _ _ hspan htokens hnul 123 _).mpr ⟨rfl, hspells⟩
  · exact (snowflake_exact [0x22, 0x31, 0x0a, 0x22]).2.2.1 (by decide +kernel) (by decide +kernel)
  · exact (snowflake_exact [0x31]).2.2.2 (by decide +kernel)

/-- The number one with 31 zeros in front is a number below 2^64, and is refused. -/
theorem padded_snowflake_refused :
    ¬ ∀ (cur : Bytes) (span : StringSpan) (ts : List Token),
      findStringEnd (skipWs cur) = some span → Tokens span.raw ts →
        ∀ n, (∃ rest, parseU64Token cur = some (n, rest)) ↔
          ∃ cs, denote ts = some cs ∧ decimal (utf8 cs) = some n ∧ n ≤ wordMax := by
  intro hall
  have hplain : ∀ c ∈ List.replicate 31 '0' ++ ['1'], Plain c := by
    intro c hc
    rcases List.mem_append.mp hc with hc | hc
    · rw [List.eq_of_mem_replicate hc]
      exact ⟨by decide, by decide, by decide⟩
    · rw [List.mem_singleton.mp hc]
      exact ⟨by decide, by decide, by decide⟩
  have hspan : findStringEnd
      (skipWs (0x22 :: (List.replicate 31 0x30 ++ [0x31, 0x22]))) =
        some ⟨List.replicate 31 0x30 ++ [0x31, 0x22], [0x22], false⟩ := by decide +kernel
  have hraw : utf8 (List.replicate 31 '0' ++ ['1']) =
      StringSpan.raw ⟨List.replicate 31 0x30 ++ [0x31, 0x22], [0x22], false⟩ := by decide +kernel
  have htokens := tokens_of_plain hplain
  rw [hraw] at htokens
  obtain ⟨rest, haccepted⟩ := (hall _ _ _ hspan htokens 1).mpr
    ⟨_, denote_map_char _, by decide +kernel, by decide⟩
  have hrefused : parseU64Token (0x22 :: (List.replicate 31 0x30 ++ [0x31, 0x22])) = none := by
    decide +kernel
  rw [hrefused] at haccepted
  cases haccepted

end Dcc.Json
