import Dcc.Basic
import Dcc.Lib.Base64

/-!
# The waveform of a voice message

`dcc_message_waveform_valid` counts the padding at the last two characters, computes the size of
the decoded bytes from it, and tests the characters and the unused bits of the last one.

* `valid_quads_iff` — what it tests of a text whose last group is known;
* `waveformValid_iff` — it takes exactly the encodings of up to 256 bytes.
-/

namespace Dcc.Messages

open Base64

/-- `dcc_message_base64_value`, `none` for -1. -/
def base64Value (c : UInt8) : Option Nat :=
  if 0x41 ≤ c ∧ c ≤ 0x5a then some (c.toNat - 0x41)
  else if 0x61 ≤ c ∧ c ≤ 0x7a then some (c.toNat - 0x61 + 26)
  else if 0x30 ≤ c ∧ c ≤ 0x39 then some (c.toNat - 0x30 + 52)
  else if c = 0x2b then some 62
  else if c = 0x2f then some 63
  else none

/-- `padding`, of a text of `len` characters. -/
def waveformPadding (value : Bytes) : Nat :=
  let len := value.length
  (if len ≠ 0 ∧ value[len - 1]? = some 0x3d then 1 else 0) +
    (if 1 < len ∧ value[len - 2]? = some 0x3d then 1 else 0)

/-- The unused bits of the last character in front of the padding. -/
def finalValid (value : Bytes) (padding : Nat) : Bool :=
  if padding = 1 then
    match value[value.length - 2]?.bind base64Value with
    | none => false
    | some final => final &&& 3 = 0
  else if padding = 2 then
    match value[value.length - 3]?.bind base64Value with
    | none => false
    | some final => final &&& 15 = 0
  else true

/-- `dcc_message_waveform_valid` of the characters in front of the terminator. -/
def waveformValid : Option Bytes → Bool
  | none => false
  | some value =>
    let len := value.length
    let padding := waveformPadding value
    if len &&& 3 ≠ 0 then false
    else if 2 < padding ∨ (wordMax - 2) / 3 < len / 4 ∨
        256 < wordSub (len / 4 * 3 % wordSize) padding then false
    else if (value.take (len - padding)).any fun c => (base64Value c).isNone then false
    else if (value.drop (len - padding)).any fun c => c ≠ 0x3d then false
    else finalValid value padding

section

variable {value body : Bytes} {c x y z w : UInt8} {n : Nat}

theorem base64Value_iff : base64Value c = some n ↔ n < 64 ∧ symbol n = c := by
  have hback : ∀ n < 64, base64Value (symbol n) = some n := by decide
  have hall : ∀ k < 256, ∀ n ∈ base64Value (UInt8.ofNat k), n < 64 ∧ symbol n = UInt8.ofNat k := by
    decide +kernel
  constructor
  · intro h
    have hbyte := hall c.toNat c.toNat_lt
    rw [UInt8.ofNat_toNat] at hbyte
    exact hbyte n h
  · intro h
    obtain ⟨hn, rfl⟩ := h
    exact hback n hn

theorem any_isNone_iff : (value.any fun c => (base64Value c).isNone) = false ↔ Symbols value := by
  simp only [List.any_eq_false, Option.isNone_iff_eq_none, ← ne_eq, Option.ne_none_iff_exists',
    base64Value_iff, Symbols, IsSymbol]

theorem final_iff (m : Nat) :
    (match base64Value c with
      | none => false
      | some final => decide (final &&& (2 ^ m - 1) = 0)) = true ↔ IsFinal (2 ^ m) c := by
  cases h : base64Value c with
  | none =>
    refine iff_of_false (by simp) fun ⟨n, hn, hsymbol, _⟩ => ?_
    rw [base64Value_iff.mpr ⟨hn, hsymbol⟩] at h
    cases h
  | some final =>
    obtain ⟨hfinal, rfl⟩ := base64Value_iff.mp h
    simp only [Nat.and_two_pow_sub_one_eq_mod, decide_eq_true_eq]
    refine ⟨fun hbits => ⟨final, hfinal, rfl, hbits⟩, fun ⟨n, hn, hsymbol, hbits⟩ => ?_⟩
    rw [base64Value_iff.mpr ⟨hn, hsymbol⟩, Option.some.injEq] at h
    rwa [← h]

theorem waveform_sizes (hlen : value.length ≤ wordMax) (hquads : value.length % 4 = 0) :
    value.length / 4 * 3 < wordSize ∧ waveformPadding value ≤ value.length / 4 * 3 ∧
      waveformPadding value ≤ 2 := by
  have hpadding : waveformPadding value ≤ 2 := by
    rw [waveformPadding]
    split <;> split <;> omega
  have hword : wordSize = wordMax + 1 := rfl
  refine ⟨by omega, ?_, hpadding⟩
  cases value with
  | nil => exact Nat.le_refl _
  | cons c rest =>
    simp only [List.length_cons] at hquads ⊢
    omega

theorem waveformValid_eq (hlen : value.length ≤ wordMax) :
    waveformValid (some value) = true ↔
      4 ∣ value.length ∧ value.length / 4 * 3 - waveformPadding value ≤ 256 ∧
        Symbols (value.take (value.length - waveformPadding value)) ∧
        (∀ c ∈ value.drop (value.length - waveformPadding value), c = pad) ∧
        finalValid value (waveformPadding value) = true := by
  have hmask : value.length &&& 3 = value.length % 4 := Nat.and_two_pow_sub_one_eq_mod _ 2
  rw [waveformValid, hmask, Nat.dvd_iff_mod_eq_zero]
  by_cases hquads : value.length % 4 = 0
  · obtain ⟨hword, hle, htwo⟩ := waveform_sizes hlen hquads
    have hmax : wordMax = 2 ^ 64 - 1 := rfl
    have hguard : ¬ (wordMax - 2) / 3 < value.length / 4 := by omega
    rw [Nat.mod_eq_of_lt hword, wordSub_of_le hle hword]
    simp only [hquads, ne_eq, not_true_eq_false, if_false, Nat.not_lt.mpr htwo, hguard, false_or,
      true_and]
    rw [← any_isNone_iff]
    by_cases hsize : 256 < value.length / 4 * 3 - waveformPadding value
    · simp [hsize, Nat.not_le.mpr hsize]
    · cases (value.take (value.length - waveformPadding value)).any
        fun c => (base64Value c).isNone <;> simp [hsize, Nat.not_lt.mp hsize, pad]
  · simp [hquads]

theorem exists_last (hquads : 4 ∣ value.length) (hne : value ≠ []) :
    ∃ body x y z w, value = body ++ [x, y, z, w] ∧ 4 ∣ body.length := by
  have hlength := List.length_pos_iff.mpr hne
  have hlast : (value.drop (value.length - 4)).length = 4 := by
    rw [List.length_drop]
    omega
  match htail : value.drop (value.length - 4), hlast with
  | [x, y, z, w], _ =>
    refine ⟨value.take (value.length - 4), x, y, z, w, ?_, ?_⟩
    · rw [← htail, List.take_append_drop]
    · rw [List.length_take]
      omega

/-- Behind whole groups the last one decides: without padding it is four symbols, with padding its
last symbol has no bits that are not used. -/
theorem valid_quads_iff (hlen : (body ++ [x, y, z, w]).length ≤ wordMax) (hbody : 4 ∣ body.length) :
    waveformValid (some (body ++ [x, y, z, w])) = true ↔ Symbols body ∧
      ((Symbols [x, y, z, w] ∧ body.length / 4 * 3 + 3 ≤ 256) ∨
        (IsSymbol x ∧ IsSymbol y ∧ IsFinal 4 z ∧ w = pad ∧ body.length / 4 * 3 + 2 ≤ 256) ∨
        (IsSymbol x ∧ IsFinal 16 y ∧ z = pad ∧ w = pad ∧ body.length / 4 * 3 + 1 ≤ 256)) := by
  have hlength : (body ++ [x, y, z, w]).length = body.length + 4 := by simp
  have hquads : 4 ∣ body.length + 4 := by omega
  have hlast : (body ++ [x, y, z, w])[body.length + 4 - 1]? = some w := by simp
  have hthird : (body ++ [x, y, z, w])[body.length + 4 - 2]? = some z := by simp
  have hsecond : (body ++ [x, y, z, w])[body.length + 4 - 3]? = some y := by simp
  have hpadding : waveformPadding (body ++ [x, y, z, w]) =
      (if w = pad then 1 else 0) + if z = pad then 1 else 0 := by
    simp [waveformPadding]
    rfl
  have hcut : ∀ k ≤ 4, (body ++ [x, y, z, w]).take (body.length + 4 - k) =
        body ++ [x, y, z, w].take (4 - k) ∧
      (body ++ [x, y, z, w]).drop (body.length + 4 - k) = [x, y, z, w].drop (4 - k) := by
    intro k hk
    rw [Nat.add_sub_assoc hk]
    exact ⟨List.take_length_add_append _, List.drop_length_add_append _⟩
  have hone : finalValid (body ++ [x, y, z, w]) 1 = true ↔ IsFinal 4 z := by
    rw [finalValid, if_pos rfl, hlength, hthird, Option.bind_some]
    exact final_iff 2
  have htwo : finalValid (body ++ [x, y, z, w]) 2 = true ↔ IsFinal 16 y := by
    rw [finalValid, if_neg (by decide), if_pos rfl, hlength, hsecond, Option.bind_some]
    exact final_iff 4
  have hpad := not_isSymbol_pad
  have hfinal : ∀ k c, IsFinal k c → IsSymbol c := fun _ _ h => h.isSymbol
  have hsize : (body.length + 4) / 4 * 3 = body.length / 4 * 3 + 3 := by omega
  rw [waveformValid_eq hlen, hpadding, hlength, hsize]
  clear hlen hbody hlength hpadding hsize hlast hthird hsecond
  by_cases hw : w = pad
  · by_cases hz : z = pad
    · obtain ⟨htake, hdrop⟩ := hcut 2 (by decide)
      simp only [if_pos hw, if_pos hz, Nat.reduceAdd, htake, hdrop, htwo, hquads]
      clear hcut htake hdrop htwo hone
      simp [symbols_append, symbols_cons, symbols_nil, hw, hz]
      grind
    · obtain ⟨htake, hdrop⟩ := hcut 1 (by decide)
      simp only [if_pos hw, if_neg hz, Nat.reduceAdd, htake, hdrop, hone, hquads]
      clear hcut htake hdrop htwo hone
      simp [symbols_append, symbols_cons, symbols_nil, hw, hz]
      grind
  · by_cases hz : z = pad
    · obtain ⟨htake, hdrop⟩ := hcut 1 (by decide)
      simp only [if_neg hw, if_pos hz, Nat.reduceAdd, htake, hdrop, hone]
      clear hcut htake hdrop htwo hone
      simp [symbols_append, symbols_cons, symbols_nil, hw, hz]
      grind
    · obtain ⟨htake, hdrop⟩ := hcut 0 (by decide)
      simp only [if_neg hw, if_neg hz, Nat.reduceAdd, htake, hdrop]
      clear hcut htake hdrop htwo hone
      simp [symbols_append, symbols_cons, symbols_nil, hw, hz, hquads, finalValid]
      grind

/-- **Exactly the encodings of up to 256 bytes are taken**, and the sizes are computed without a
wrap. -/
theorem waveformValid_iff (hlen : value.length ≤ wordMax) :
    (waveformValid (some value) = true ↔ ∃ data : Bytes, data.length ≤ 256 ∧ value = encode data) ∧
      (value.length % 4 = 0 →
        value.length / 4 * 3 < wordSize ∧ waveformPadding value ≤ value.length / 4 * 3) := by
  refine ⟨⟨fun h => ?_, fun h => ?_⟩, fun hquads => ?_⟩
  · obtain ⟨hquads, -⟩ := (waveformValid_eq hlen).mp h
    by_cases hne : value = []
    · exact ⟨[], by decide, hne⟩
    obtain ⟨body, x, y, z, w, rfl, hbody⟩ := exists_last hquads hne
    obtain ⟨hsymbols, hlast⟩ := (valid_quads_iff hlen hbody).mp h
    obtain ⟨data, hdata, rfl⟩ := exists_encode hsymbols hbody
    obtain ⟨-, hlength⟩ := symbols_encode hdata
    have hgroup : ∀ last, encode last = [x, y, z, w] → data.length + last.length ≤ 256 →
        ∃ data' : Bytes, data'.length ≤ 256 ∧ encode data ++ [x, y, z, w] = encode data' := by
      intro last hlast hsize
      exact ⟨data ++ last, by rwa [List.length_append], by rw [encode_append hdata, hlast]⟩
    rcases hlast with ⟨hwhole, hsize⟩ | ⟨hx, hy, hz, rfl, hsize⟩ | ⟨hx, hy, rfl, rfl, hsize⟩
    · obtain ⟨last, hthree, hlast⟩ := exists_encode hwhole ⟨1, rfl⟩
      obtain ⟨-, hfour⟩ := symbols_encode hthree
      rw [hlast] at hfour
      simp only [List.length_cons, List.length_nil] at hfour
      exact hgroup last hlast (by omega)
    · obtain ⟨a, b, hlast⟩ := exists_encode_two hx hy hz
      exact hgroup _ hlast (by simp only [List.length_cons, List.length_nil]; omega)
    · obtain ⟨a, hlast⟩ := exists_encode_one hx hy
      exact hgroup _ hlast (by simp only [List.length_cons, List.length_nil]; omega)
  · obtain ⟨data, hsize, rfl⟩ := h
    obtain ⟨front, last, rfl, hfront, hlast⟩ :
        ∃ front last, data = front ++ last ∧ 3 ∣ front.length ∧ last.length < 3 := by
      refine ⟨data.take (data.length / 3 * 3), data.drop (data.length / 3 * 3), by simp, ?_, ?_⟩
      · rw [List.length_take]
        omega
      · rw [List.length_drop]
        omega
    obtain ⟨hsymbols, hlength⟩ := symbols_encode hfront
    have hquads : 4 ∣ (encode front).length := by omega
    rw [List.length_append] at hsize
    rw [encode_append hfront] at hlen ⊢
    match last, hlast with
    | [], _ =>
      rw [encode, List.append_nil] at hlen ⊢
      by_cases hne : encode front = []
      · rw [hne]
        decide
      obtain ⟨body, x, y, z, w, heq, hbody⟩ := exists_last hquads hne
      rw [heq, symbols_append] at hsymbols
      rw [heq, List.length_append] at hlength
      rw [heq] at hlen ⊢
      simp only [List.length_cons, List.length_nil] at hlength hsize
      exact (valid_quads_iff hlen hbody).mpr ⟨hsymbols.1, .inl ⟨hsymbols.2, by omega⟩⟩
    | [a], _ =>
      have ha := a.toNat_lt
      simp only [List.length_cons, List.length_nil] at hsize
      exact (valid_quads_iff hlen hquads).mpr ⟨hsymbols, .inr (.inr ⟨⟨_, by omega, rfl⟩,
        ⟨_, by omega, rfl, by omega⟩, rfl, rfl, by omega⟩)⟩
    | [a, b], _ =>
      have ha := a.toNat_lt
      have hb := b.toNat_lt
      simp only [List.length_cons, List.length_nil] at hsize
      exact (valid_quads_iff hlen hquads).mpr ⟨hsymbols, .inr (.inl ⟨⟨_, by omega, rfl⟩,
        ⟨_, by omega, rfl⟩, ⟨_, by omega, rfl, by omega⟩, rfl, by omega⟩)⟩
  · obtain ⟨hword, hle, -⟩ := waveform_sizes hlen hquads
    exact ⟨hword, hle⟩

/-- `f/+3` is the encoding of three bytes, and `====` of none. -/
theorem waveformValid_iff_texts :
    (∃ data : Bytes, data.length ≤ 256 ∧ asciiText "f/+3" = encode data) ∧
      ¬ ∃ data : Bytes, data.length ≤ 256 ∧ asciiText "====" = encode data := by
  refine ⟨(waveformValid_iff (by decide)).1.mp (by decide), fun h => ?_⟩
  exact absurd ((waveformValid_iff (by decide)).1.mpr h) (by decide)

end

end Dcc.Messages
