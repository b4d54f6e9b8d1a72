import Dcc.Replay.Log

/-!
# The player's scan against the grammar

The player finds the payload of a line by scanning for quotes and brackets.  Over text that
the grammar derives, the scan passes a string as a whole, and it passes a value as a whole as
long as its nesting fits the scan's stack.

* `skips_of_derives` — the scan over a phrase, in terms of the depth of its value;
* `skipValue_container` — so an object or array is passed exactly when it is at most 128 deep.
-/

namespace Dcc.Replay

open Json Json.Grammar

/-! ## Strings -/

/-- Inside a string, the scan goes through these bytes. -/
def Passes (u : Bytes) : Prop := ∀ q, skipStringBody (u ++ q) = skipStringBody q

theorem Passes.nil : Passes [] := fun _ => rfl

theorem Passes.append {u w : Bytes} (hu : Passes u) (hw : Passes w) : Passes (u ++ w) := by
  intro q
  rw [List.append_assoc, hu, hw]

variable {c : UInt8}

theorem passes_inert (hc : StrInert c) : Passes [c] := by
  intro q
  rw [List.singleton_append, skipStringBody.eq_def]
  simp only [if_neg hc.2, if_neg hc.1]

theorem passes_all {u : Bytes} (hu : ∀ c ∈ u, StrInert c) : Passes u := by
  induction u with
  | nil => exact Passes.nil
  | cons c u ih =>
    exact (passes_inert (hu c List.mem_cons_self)).append
      (ih fun d hd => hu d (List.mem_cons_of_mem c hd))

theorem passes_escape (esc : UInt8) : Passes [chBackslash, esc] := by
  intro q
  rw [List.cons_append, skipStringBody.eq_def]
  rfl

theorem passes_hex4 {h : Bytes} {n : Nat} (hh : Hex4 h n) : Passes h := by
  obtain @⟨a, b, c, d, i, j, k, l, ha, hb, hc, hd⟩ := hh
  refine passes_all fun e he => ?_
  simp only [List.mem_cons, List.not_mem_nil, or_false] at he
  rcases he with rfl | rfl | rfl | rfl <;>
    exact strInert_of_hexValue (by simp_all)

theorem passes_spells {u : Bytes} {c : Char} (h : Spells u c) : Passes u := by
  cases h with
  | plain hctl hquote hback =>
    refine passes_all fun b hb => ?_
    obtain ⟨-, hq, hk⟩ := Plain.byte ⟨hctl, hquote, hback⟩ b hb
    exact ⟨fun heq => hq (heq ▸ rfl), fun heq => hk (heq ▸ rfl)⟩
  | short h => exact passes_escape _
  | unicode hh hc => exact (passes_escape _).append (passes_hex4 hh)
  | pair hh hl hhi hlo hc =>
    exact (passes_escape _).append ((passes_hex4 hh).append
      ((passes_escape _).append (passes_hex4 hl)))

variable {raw : Bytes}

theorem passes_chars {cs : List Char} (h : Chars raw cs) : Passes raw := by
  induction h with
  | nil => exact Passes.nil
  | cons hu _ ih => exact (passes_spells hu).append ih

theorem hexDigitLower_control (hc : c < 0x20) :
    Hex4 [0x30, 0x30, hexDigitLower (c >>> 4), hexDigitLower (c &&& 0x0f)] c.toNat := by
  have hall : ∀ n < 0x20, parseHex4At [0x30, 0x30, hexDigitLower (UInt8.ofNat n >>> 4),
      hexDigitLower (UInt8.ofNat n &&& 0x0f)] = some n := by decide
  have hn : c.toNat < 0x20 := UInt8.lt_iff_toNat_lt.mp hc
  have hdigits := hall c.toNat hn
  rw [UInt8.ofNat_toNat] at hdigits
  exact parseHex4At_four.mp hdigits

theorem passes_replayEscape (c : UInt8) : Passes (replayEscape c) := by
  rw [replayEscape]
  split_ifs with hquote hback h1 h2 h3 h4 h5 hctl
  · exact passes_escape _
  · exact passes_escape _
  · exact passes_escape _
  · exact passes_escape _
  · exact passes_escape _
  · exact passes_escape _
  · exact passes_escape _
  · exact (passes_escape 0x75).append (passes_hex4 (hexDigitLower_control hctl))
  · exact passes_inert ⟨hquote, hback⟩

theorem passes_jsonEscape (text : Bytes) : Passes (jsonEscape text) := by
  induction text with
  | nil => exact Passes.nil
  | cons c text ih => exact (passes_replayEscape c).append ih

theorem skipStringBody_close (h : Passes raw) (rest : Bytes) :
    skipStringBody (raw ++ chQuote :: rest) = some rest := by
  rw [h, skipStringBody.eq_def]
  rfl

theorem Passes.unique {raw raw' rest rest' : Bytes} (h : Passes raw) (h' : Passes raw')
    (heq : raw ++ chQuote :: rest = raw' ++ chQuote :: rest') : raw = raw' ∧ rest = rest' := by
  have hrest : rest = rest' := by
    have hscan := skipStringBody_close h rest
    rw [heq, skipStringBody_close h'] at hscan
    exact (Option.some.inj hscan).symm
  subst hrest
  exact ⟨List.append_cancel_right heq, rfl⟩

/-! ## Nesting -/

mutual

/-- How deep objects and arrays are nested. -/
def depth : Value → Nat
  | .array items => depthItems items + 1
  | .object entries => depthEntries entries + 1
  | _ => 0

def depthItems : List Value → Nat
  | [] => 0
  | v :: vs => max (depth v) (depthItems vs)

def depthEntries : List (Bytes × Value) → Nat
  | [] => 0
  | (_, v) :: entries => max (depth v) (depthEntries entries)

end

/-- The scan passes these bytes when there is room for `d` more brackets. -/
def Skips (d : Nat) (t : Bytes) : Prop :=
  ∀ bracket stack rest, stack.length < stackSize → skipNested (bracket :: stack) (t ++ rest) =
      if stack.length + d < stackSize then skipNested (bracket :: stack) rest else none

/-- A byte that the scan does not look at. -/
def ScanInert (c : UInt8) : Prop :=
  c ≠ chQuote ∧ c ≠ chLBrace ∧ c ≠ chLBracket ∧ c ≠ chRBrace ∧ c ≠ chRBracket

instance : DecidablePred ScanInert := fun _ => inferInstanceAs (Decidable (_ ∧ _ ∧ _ ∧ _ ∧ _))

theorem skipNested_inert (hc : ScanInert c) (bracket : UInt8) (stack : List UInt8)
    (p : Bytes) : skipNested (bracket :: stack) (c :: p) = skipNested (bracket :: stack) p := by
  obtain ⟨hquote, hlb, hlk, hrb, hrk⟩ := hc
  rw [skipNested, if_neg hquote, if_neg (by simp [hlb, hlk]), if_neg (by simp [hrb, hrk])]

theorem skips_nil : Skips 0 [] := by
  intro bracket stack rest hroom
  rw [if_pos (by omega)]
  rfl

theorem Skips.append {d e : Nat} {t u : Bytes} (ht : Skips d t) (hu : Skips e u) :
    Skips (max d e) (t ++ u) := by
  intro bracket stack rest hroom
  rw [List.append_assoc, ht bracket stack _ hroom, hu bracket stack _ hroom]
  split_ifs <;> first | rfl | omega

variable {t : Bytes}

theorem skips_inert (ht : ∀ c ∈ t, ScanInert c) : Skips 0 t := by
  induction t with
  | nil => exact skips_nil
  | cons c t ih =>
    intro bracket stack rest hroom
    rw [List.cons_append, skipNested_inert (ht c List.mem_cons_self)]
    exact ih (fun d hd => ht d (List.mem_cons_of_mem c hd)) bracket stack rest hroom

theorem skips_inert_all (ht : t.all (fun c => decide (ScanInert c)) = true) :
    Skips 0 t :=
  skips_inert fun c hc => of_decide_eq_true (List.all_eq_true.mp ht c hc)

theorem skips_string (h : Passes raw) :
    Skips 0 (chQuote :: (raw ++ [chQuote])) := by
  intro bracket stack rest hroom
  have hclose := skipStringBody_close h rest
  have htext : chQuote :: (raw ++ [chQuote]) ++ rest = chQuote :: (raw ++ chQuote :: rest) := by
    simp
  rw [htext, skipNested, if_pos rfl, if_pos (by omega)]
  split
  · rename_i hnone
    rw [hclose] at hnone
    cases hnone
  · rename_i q hsome
    rw [hclose] at hsome
    rw [Option.some.inj hsome]

/-- An opening bracket and its closing one. -/
def Pair (opening closing : UInt8) : Prop :=
  (opening = chLBrace ∧ closing = chRBrace) ∨ (opening = chLBracket ∧ closing = chRBracket)

variable {opening closing : UInt8}

theorem skipNested_open (hpair : Pair opening closing) (bracket : UInt8)
    (stack : List UInt8) (p : Bytes) :
    skipNested (bracket :: stack) (opening :: p) =
      if stack.length + 1 < stackSize then skipNested (opening :: bracket :: stack) p else none := by
  have hquote : opening ≠ chQuote := by
    rcases hpair with ⟨rfl, -⟩ | ⟨rfl, -⟩ <;> decide
  have hopen : opening = chLBrace ∨ opening = chLBracket := hpair.imp And.left And.left
  rw [skipNested, if_neg hquote, if_pos hopen, List.length_cons]
  split_ifs <;> first | rfl | omega

theorem skipNested_close (hpair : Pair opening closing) (stack : List UInt8) (p : Bytes) :
    skipNested (opening :: stack) (closing :: p) = skipNested stack p := by
  rcases hpair with ⟨rfl, rfl⟩ | ⟨rfl, rfl⟩
  · rw [skipNested, if_neg (by decide), if_neg (by decide), if_pos (by decide), if_neg (by decide)]
  · rw [skipNested, if_neg (by decide), if_neg (by decide), if_pos (by decide), if_neg (by decide)]

theorem skips_brackets {d : Nat} (hpair : Pair opening closing) (h : Skips d t) :
    Skips (d + 1) (opening :: (t ++ [closing])) := by
  intro bracket stack rest hroom
  have htext : opening :: (t ++ [closing]) ++ rest = opening :: (t ++ closing :: rest) := by simp
  rw [htext, skipNested_open hpair]
  by_cases hfits : stack.length + 1 < stackSize
  · rw [if_pos hfits, h opening (bracket :: stack) (closing :: rest) hfits,
      skipNested_close hpair, List.length_cons]
    split_ifs <;> first | rfl | omega
  · rw [if_neg hfits, if_neg (by omega)]

theorem scanInert_of_isWs (h : c = 0x20 ∨ c = 0x09 ∨ c = 0x0a ∨ c = 0x0d) :
    ScanInert c := by
  rcases h with rfl | rfl | rfl | rfl <;> decide

theorem skips_ws {w : Bytes} (hw : Ws w) : Skips 0 w :=
  skips_inert fun c hc => scanInert_of_isWs (hw c hc)

theorem skips_byte (hc : ScanInert c) : Skips 0 [c] := by
  refine skips_inert fun d hd => ?_
  rw [List.mem_singleton.mp hd]
  exact hc

theorem skips_number (h : Number t) : Skips 0 t := by
  obtain ⟨integer, hspan⟩ := parseNumberSpan_complete h (NoneNext.nil _)
  obtain ⟨w, hw, hchars⟩ := numberRun_span hspan
  rw [List.append_nil, List.append_nil] at hw
  subst hw
  refine skips_inert fun c hc => ?_
  have hnumber := hchars c hc
  refine ⟨?_, ?_, ?_, ?_, ?_⟩ <;>
    · intro heq
      rw [heq] at hnumber
      exact absurd hnumber (by decide)

/-- The depth of what a phrase stands for. -/
def phraseDepth : Phrase → Nat
  | .value v | .item v | .member _ v => depth v
  | .items vs => depthItems vs
  | .members entries => depthEntries entries

/-- **The scan passes what the grammar derives**, as deep as its value is. -/
theorem skips_of_derives {ph : Phrase} (h : Derives ph t) : Skips (phraseDepth ph) t := by
  induction h with
  | null => exact skips_inert_all (by decide)
  | true => exact skips_inert_all (by decide)
  | false => exact skips_inert_all (by decide)
  | number h => exact skips_number h
  | string h => exact skips_string (passes_chars h)
  | emptyArray hw => exact skips_brackets (Or.inr ⟨rfl, rfl⟩) (skips_ws hw)
  | array _ ih => exact skips_brackets (Or.inr ⟨rfl, rfl⟩) ih
  | emptyObject hw => exact skips_brackets (Or.inl ⟨rfl, rfl⟩) (skips_ws hw)
  | object _ ih => exact skips_brackets (Or.inl ⟨rfl, rfl⟩) ih
  | item ha _ hb ih =>
    have hall := (skips_ws ha).append (ih.append (skips_ws hb))
    simpa [phraseDepth] using hall
  | lastItem _ ih => simpa [phraseDepth, depthItems] using ih
  | moreItems _ _ ih ihMore =>
    have hall := ih.append ((skips_byte (c := chComma) (by decide)).append ihMore)
    simpa [phraseDepth, depthItems] using hall
  | @member a raw b t cs v ha hkey hb _ ih =>
    have hall := (skips_ws ha).append ((skips_string (passes_chars hkey)).append
      ((skips_ws hb).append ((skips_byte (c := chColon) (by decide)).append ih)))
    simpa [phraseDepth] using hall
  | lastMember _ ih => simpa [phraseDepth, depthEntries] using ih
  | moreMembers _ _ ih ihMore =>
    have hall := ih.append ((skips_byte (c := chComma) (by decide)).append ihMore)
    simpa [phraseDepth, depthEntries] using hall

/-! ## Values of a line -/

theorem skipValue_string (h : Passes raw) (rest : Bytes) :
    skipValue (chQuote :: (raw ++ chQuote :: rest)) = some rest := by
  have hskip : skipWs (chQuote :: (raw ++ chQuote :: rest)) =
      chQuote :: (raw ++ chQuote :: rest) := skipWs_cons (by decide) _
  simp only [skipValue, hskip, ↓reduceIte, skipString]
  exact skipStringBody_close h rest

theorem skipValue_decimal (n : Nat) (rest : Bytes) :
    skipValue (Decimal.decimalText n ++ chComma :: rest) = some (chComma :: rest) := by
  have hdigit : ∀ c ∈ Decimal.decimalText n, c.toNat ≠ 0x20 ∧ c.toNat ≠ 0x09 ∧ c.toNat ≠ 0x0a ∧
      c.toNat ≠ 0x0d ∧ c.toNat ≠ 0x22 ∧ c.toNat ≠ 0x7b ∧ c.toNat ≠ 0x5b ∧ c.toNat ≠ 0x2c ∧
      c.toNat ≠ 0x7d := by
    intro c hc
    have hrange := Decimal.digit_of_mem hc
    omega
  have hne : ∀ {c k : UInt8}, c.toNat ≠ k.toNat → c ≠ k := fun h heq => h (heq ▸ rfl)
  have hrun : (Decimal.decimalText n ++ chComma :: rest).dropWhile
      (fun d => d ≠ chComma && d ≠ chRBrace) = chComma :: rest := by
    refine dropWhile_run (fun c hc => ?_) (NoneNext.cons (by decide) rest)
    obtain ⟨-, -, -, -, -, -, -, hcomma, hbrace⟩ := hdigit c hc
    simp [hne (k := chComma) hcomma, hne (k := chRBrace) hbrace]
  cases htext : Decimal.decimalText n with
  | nil => exact absurd htext (Decimal.decimalText_ne_nil n)
  | cons c w =>
    obtain ⟨h1, h2, h3, h4, hquote, hlb, hlk, -⟩ := hdigit c (by rw [htext]; exact List.mem_cons_self)
    have hws : isWs c = false := by
      have h1 := hne (k := 0x20) h1
      have h2 := hne (k := 0x09) h2
      have h3 := hne (k := 0x0a) h3
      have h4 := hne (k := 0x0d) h4
      simp [isWs, h1, h2, h3, h4]
    rw [htext] at hrun
    rw [List.cons_append] at hrun ⊢
    rw [skipValue, skipWs_cons hws]
    simp only [if_neg (hne (k := chQuote) hquote),
      if_pos (And.intro (hne (k := chLBrace) hlb) (hne (k := chLBracket) hlk)), hrun]

/-- **An object or array is passed when its nesting fits the stack**, and is refused
otherwise. -/
theorem skipValue_container {v : Value} (h : Derives (.value v) t)
    (hv : isContainer v = true) (rest : Bytes) :
    skipValue (t ++ rest) = if depth v ≤ stackSize then some rest else none := by
  have hnested : ∀ {d : Nat} {t : Bytes} {opening closing : UInt8}, Pair opening closing →
      Skips d t → skipValue (opening :: (t ++ [closing]) ++ rest) =
        if d + 1 ≤ stackSize then some rest else none := by
    intro d t opening closing hpair hskips
    have htext : opening :: (t ++ [closing]) ++ rest = opening :: (t ++ closing :: rest) := by simp
    have hscan := hskips opening [] (closing :: rest) (by decide)
    have hend : skipNested [] rest = some rest := by rw [skipNested]
    rw [skipNested_close hpair, hend, List.length_nil] at hscan
    have hws : isWs opening = false := by
      rcases hpair with ⟨rfl, -⟩ | ⟨rfl, -⟩ <;> decide
    have hquote : opening ≠ chQuote := by
      rcases hpair with ⟨rfl, -⟩ | ⟨rfl, -⟩ <;> decide
    have hopen : ¬ (opening ≠ chLBrace ∧ opening ≠ chLBracket) := by
      rcases hpair with ⟨rfl, -⟩ | ⟨rfl, -⟩ <;> decide
    rw [htext, skipValue, skipWs_cons hws]
    simp only [if_neg hquote, if_neg hopen, hscan]
    split_ifs <;> first | rfl | omega
  cases h with
  | null => cases hv
  | true => cases hv
  | false => cases hv
  | number _ => cases hv
  | string _ => cases hv
  | emptyArray hw => exact hnested (Or.inr ⟨rfl, rfl⟩) (skips_ws hw)
  | array hitems => exact hnested (Or.inr ⟨rfl, rfl⟩) (skips_of_derives hitems)
  | emptyObject hw => exact hnested (Or.inl ⟨rfl, rfl⟩) (skips_ws hw)
  | object hmembers => exact hnested (Or.inl ⟨rfl, rfl⟩) (skips_of_derives hmembers)

end Dcc.Replay
