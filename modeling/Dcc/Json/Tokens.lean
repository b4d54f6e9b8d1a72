import Mathlib.Data.List.TakeWhile
import Mathlib.Data.List.DropRight
import Dcc.Json.Lexical

/-!
# What a token covers

Which bytes a token function can pass over, and that it passes over some: a
number is a run of number characters, a literal is its own text, and a string
is cut into rounds of the scanning loop, none of which holds an unescaped
quote.  Nothing here looks at the grammar around a token.
-/

namespace Dcc.Json

/-! ## Whitespace -/

theorem skipWs_skipWs (cur : Bytes) : skipWs (skipWs cur) = skipWs cur := by
  exact List.dropWhile_idempotent isWs cur

/-! ## Numbers and literals -/

/-- The bytes from `cur` to the later cursor `rest` all belong to a number. -/
def NumberRun (cur rest : Bytes) : Prop :=
  ∃ w : Bytes, cur = w ++ rest ∧ ∀ c ∈ w, isNumberChar c = true

theorem NumberRun.refl (cur : Bytes) : NumberRun cur cur := ⟨[], rfl, by simp⟩

theorem NumberRun.cons {c : UInt8} {p rest : Bytes} (hc : isNumberChar c = true)
    (h : NumberRun p rest) : NumberRun (c :: p) rest := by
  obtain ⟨w, rfl, hw⟩ := h
  exact ⟨c :: w, rfl, List.forall_mem_cons.mpr ⟨hc, hw⟩⟩

theorem NumberRun.trans {a b c : Bytes} (hab : NumberRun a b) (hbc : NumberRun b c) :
    NumberRun a c := by
  obtain ⟨w, rfl, hw⟩ := hab
  obtain ⟨x, rfl, hx⟩ := hbc
  refine ⟨w ++ x, by simp, fun d hd => ?_⟩
  rcases List.mem_append.mp hd with h | h
  · exact hw d h
  · exact hx d h

variable {c : UInt8}

theorem NumberRun.dropHead {cur : Bytes} (hc : isNumberChar c = true)
    (hcur : cur.head? = some c) : NumberRun cur (cur.drop 1) := by
  cases cur with
  | nil => cases hcur
  | cons d p =>
    cases hcur
    exact (NumberRun.refl p).cons hc

theorem numberRun_dropWhile_isDigit (cur : Bytes) : NumberRun cur (cur.dropWhile isDigit) := by
  refine ⟨cur.takeWhile isDigit, List.takeWhile_append_dropWhile.symm, fun c hc => ?_⟩
  have hdigit : isDigit c = true := List.mem_takeWhile_imp hc
  simp [isNumberChar, hdigit]

variable {cur rest : Bytes}

theorem numberRun_digits1 (h : digits1 cur = some rest) :
    NumberRun cur rest := by
  unfold digits1 at h
  split at h
  · cases h
    exact numberRun_dropWhile_isDigit cur
  · cases h

theorem numberRun_integer (h : numberInteger cur = some rest) :
    NumberRun cur rest := by
  cases cur with
  | nil => cases h
  | cons c p =>
    simp only [numberInteger] at h
    split at h
    · next hzero =>
      cases h
      exact (NumberRun.refl _).cons (by rw [hzero]; decide)
    · split at h
      · cases h
        exact numberRun_dropWhile_isDigit _
      · cases h

theorem numberRun_fraction {i j : Bool}
    (h : numberFraction cur i = some (rest, j)) : NumberRun cur rest := by
  unfold numberFraction at h
  split at h
  · next hdot =>
    obtain ⟨q, hq, heq⟩ := Option.map_eq_some_iff.mp h
    cases heq
    exact (NumberRun.dropHead (by decide) hdot).trans (numberRun_digits1 hq)
  · cases h
    exact NumberRun.refl _

theorem numberRun_exponent {i j : Bool}
    (h : numberExponent cur i = some (rest, j)) : NumberRun cur rest := by
  unfold numberExponent at h
  split at h
  · next hexp =>
    obtain ⟨q, hq, heq⟩ := Option.map_eq_some_iff.mp h
    cases heq
    have hletter : NumberRun cur (cur.drop 1) := by
      rcases hexp with he | he <;> exact NumberRun.dropHead (by decide) he
    refine hletter.trans ?_
    split at hq
    · next hsign =>
      have hs : NumberRun (cur.drop 1) ((cur.drop 1).drop 1) := by
        rcases hsign with hp | hm
        · exact NumberRun.dropHead (by decide) hp
        · exact NumberRun.dropHead (by decide) hm
      exact hs.trans (numberRun_digits1 hq)
    · exact numberRun_digits1 hq
  · cases h
    exact NumberRun.refl _

theorem numberRun_span {cur text rest : Bytes} {integer : Bool}
    (h : parseNumberSpan cur = some (text, integer, rest)) : NumberRun cur rest := by
  obtain ⟨q, hq, h⟩ := Option.bind_eq_some_iff.mp h
  obtain ⟨f, hf, h⟩ := Option.bind_eq_some_iff.mp h
  obtain ⟨e, he, h⟩ := Option.bind_eq_some_iff.mp h
  split at h
  · cases h
  · cases h
    have hsign : NumberRun cur (if cur.head? = some chMinus then cur.drop 1 else cur) := by
      split
      · next hm => exact NumberRun.dropHead (by decide) hm
      · exact NumberRun.refl _
    exact ((hsign.trans (numberRun_integer hq)).trans (numberRun_fraction hf)).trans
      (numberRun_exponent he)

theorem matchLiteral_eq_append {cur literal rest : Bytes}
    (h : matchLiteral cur literal = some rest) : cur = literal ++ rest := by
  unfold matchLiteral at h
  split at h
  · next hp =>
    cases h
    exact (List.prefix_iff_eq_append.mp (List.isPrefixOf_iff_prefix.mp hp)).symm
  · cases h

/-! ## Strings -/

/-- A byte that neither ends a string nor starts an escape. -/
def StrInert (c : UInt8) : Prop := c ≠ chQuote ∧ c ≠ chBackslash

theorem strInert_of_isCont (hc : isCont c = true) : StrInert c := by
  constructor <;> rintro rfl <;> exact absurd hc (by decide)

theorem strInert_of_ge (hc : 0x80 ≤ c) : StrInert c := by
  constructor <;> rintro rfl <;> exact absurd hc (by decide)

theorem strInert_of_inRange {lo hi c : UInt8} (hlo : 0x80 ≤ lo) (hc : inRange lo hi c = true) :
    StrInert c := by
  simp only [inRange, Bool.and_eq_true, decide_eq_true_eq] at hc
  exact strInert_of_ge (UInt8.le_trans hlo hc.1)

theorem utf8Tail_strInert :
    ∀ {tests : List (UInt8 → Bool)} {p q : Bytes},
      (∀ test ∈ tests, ∀ c, test c = true → StrInert c) → utf8Tail tests p = some q →
      ∃ w : Bytes, p = w ++ q ∧ ∀ d ∈ w, StrInert d
  | [], p, q, _, h => by
      cases h
      exact ⟨[], rfl, by simp⟩
  | test :: tests, [], q, _, h => by cases h
  | test :: tests, c :: p, q, htests, h => by
      simp only [utf8Tail] at h
      split at h
      · next hc =>
        obtain ⟨w, rfl, hw⟩ :=
          utf8Tail_strInert (fun t ht => htests t (List.mem_cons_of_mem _ ht)) h
        exact ⟨c :: w, rfl, List.forall_mem_cons.mpr ⟨htests test List.mem_cons_self c hc, hw⟩⟩
      · cases h

theorem utf8ScanOne_strInert {p q : Bytes} (hc : 0x80 ≤ c) (h : utf8ScanOne (c :: p) = some q) :
    ∃ w : Bytes, p = w ++ q ∧ ∀ d ∈ c :: w, StrInert d := by
  have hlow : ¬ c ≤ 0x7f := fun hle => absurd (UInt8.le_trans hc hle) (by decide)
  have htail : ∃ tests : List (UInt8 → Bool),
      (∀ test ∈ tests, ∀ d, test d = true → StrInert d) ∧ utf8Tail tests p = some q := by
    simp only [utf8ScanOne, hlow, if_false] at h
    repeat' split at h
    all_goals first
      | cases h
      | refine ⟨_, ?_, h⟩
    all_goals simp +contextual only [List.mem_cons, List.not_mem_nil, or_false, or_self,
      forall_eq_or_imp, strInert_of_isCont, implies_true, and_true]
    all_goals exact fun d hd => strInert_of_inRange (by decide) hd
  obtain ⟨tests, htests, h⟩ := htail
  obtain ⟨w, rfl, hw⟩ := utf8Tail_strInert htests h
  exact ⟨w, rfl, List.forall_mem_cons.mpr ⟨strInert_of_ge hc, hw⟩⟩

theorem strInert_of_hexValue (hc : (hexValue c).isSome) : StrInert c := by
  constructor <;> rintro rfl <;> exact absurd hc (by decide)

theorem parseHex4At_strInert {q : Bytes} (h : (parseHex4At q).isSome) :
    ∀ c ∈ q.take 4, StrInert c := by
  have hfold : ∀ (l : Bytes) (value : Nat),
      (l.foldlM (fun value c => (hexValue c).map fun h => (value <<< 4) ||| h) value).isSome →
      ∀ c ∈ l, StrInert c := by
    intro l
    induction l with
    | nil => simp
    | cons d l ih =>
      intro value hsome
      cases hd : hexValue d with
      | none => simp [List.foldlM_cons, hd] at hsome
      | some v =>
        simp only [List.foldlM_cons, hd, Option.map_some] at hsome
        exact List.forall_mem_cons.mpr
          ⟨strInert_of_hexValue (by rw [hd]; rfl), ih _ hsome⟩
  exact hfold _ 0 h

/-- What one round of the string loop passes over: bytes that neither end the
string nor start an escape, or one escape with its digits. -/
inductive StrRound : Bytes → Bytes → Prop
  | inert {c : UInt8} {w q : Bytes} (hw : ∀ d ∈ c :: w, StrInert d) : StrRound (c :: (w ++ q)) q
  | escape {esc : UInt8} {w q : Bytes} (hw : ∀ c ∈ w, StrInert c) :
      StrRound (chBackslash :: esc :: (w ++ q)) q

theorem findStringEndLoop_round {fuel : Nat} {p : Bytes} {escaped : Bool}
    {r : Bytes × Bool} (h : findStringEndLoop (fuel + 1) (c :: p) escaped = some r) :
    (c = chQuote ∧ r = (c :: p, escaped)) ∨
      ∃ q flag, StrRound (c :: p) q ∧ findStringEndLoop fuel q flag = some r := by
  simp only [findStringEndLoop] at h
  split at h
  · next hq =>
    cases h
    exact Or.inl ⟨hq, rfl⟩
  · next hq =>
    right
    split at h
    · cases h
    · split at h
      · next hb =>
        subst hb
        cases p with
        | nil => cases h
        | cons esc q =>
          simp only at h
          split at h
          · exact ⟨q, true, StrRound.escape (w := []) (by simp), h⟩
          · split at h
            · split at h
              · cases h
              · next hhex =>
                simp only [Bool.or_eq_true, decide_eq_true_eq,
                  Option.isNone_iff_eq_none, not_or] at hhex
                have hround : StrRound (chBackslash :: esc :: (q.take 4 ++ q.drop 4))
                    (q.drop 4) :=
                  StrRound.escape
                    (parseHex4At_strInert (Option.ne_none_iff_isSome.mp hhex.2))
                rw [List.take_append_drop] at hround
                exact ⟨_, true, hround, h⟩
            · cases h
      · next hb =>
        split at h
        · next hge =>
          split at h
          · cases h
          · next q hscan =>
            obtain ⟨w, hw, hinert⟩ := utf8ScanOne_strInert hge hscan
            exact ⟨q, escaped, hw ▸ StrRound.inert hinert, h⟩
        · refine ⟨p, escaped, StrRound.inert (w := []) ?_, h⟩
          simp only [List.mem_singleton, forall_eq]
          exact ⟨hq, hb⟩

theorem parseStringArena_span {cur text rest : Bytes}
    (h : parseStringArena cur = some (text, rest)) :
    ∃ span, findStringEnd cur = some span ∧ span.after = rest := by
  obtain ⟨span, hspan, h⟩ := Option.bind_eq_some_iff.mp h
  refine ⟨span, hspan, ?_⟩
  split at h
  · obtain ⟨_, _, heq⟩ := Option.map_eq_some_iff.mp h
    cases heq
    rfl
  · cases h
    rfl

/-! ## Every token is at least one byte long -/

/-! ## The string loop does not run out of fuel -/

end Dcc.Json
