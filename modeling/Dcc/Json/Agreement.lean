import Dcc.Json.Tokens
import Dcc.Json.Skip

/-!
# Where the skip functions agree with the DOM parser

The DOM parser passes over whitespace after the comma between two members of
an object; `dcc_json_skip_object` does not, and looks for the next key at once.
So the two parsers agree on a value exactly when no such comma is followed by
a blank.  The condition is stated on the bytes alone, by the lexical scan
`memberCommaBlank`, which knows only brackets, commas and string quotes:

* `skip_agrees_fuel` is the step of the argument, one statement for each of the
  five mutually recursive parsers, by induction on the fuel they share;
* `skipValueAt_agrees_iff` reads it off for whole values at a position of an
  input, and `skipValueAt_blank_after_comma` shows a value where they differ.
-/

namespace Dcc.Json

/-- The bracket a scan position lies in. -/
inductive Open
  | object
  | array
  deriving DecidableEq, Repr

/-- Where a scan position lies: outside strings, in a string, after a
backslash in a string. -/
inductive Mode
  | plain
  | str
  | esc
  deriving DecidableEq, Repr

/-- Whether, before the outermost bracket of `opens` is closed, some comma
whose innermost bracket is a brace is directly followed by whitespace. -/
def memberCommaBlank : List Open → Mode → Bytes → Bool
  | _, _, [] => false
  | opens, .esc, _ :: p => memberCommaBlank opens .str p
  | opens, .str, c :: p =>
    if c = chBackslash then memberCommaBlank opens .esc p
    else if c = chQuote then memberCommaBlank opens .plain p
    else memberCommaBlank opens .str p
  | opens, .plain, c :: p =>
    if c = chQuote then memberCommaBlank opens .str p
    else if c = chLBrace then memberCommaBlank (.object :: opens) .plain p
    else if c = chLBracket then memberCommaBlank (.array :: opens) .plain p
    else if c = chRBrace ∨ c = chRBracket then
      match opens with
      | [] => false
      | [_] => false
      | _ :: outer => memberCommaBlank outer .plain p
    else if c = chComma ∧ opens.head? = some .object ∧ p.head?.any isWs then true
    else memberCommaBlank opens .plain p

/-- Whether the value at the cursor has a member comma that is directly
followed by whitespace. -/
def blankAfterMemberComma (cur : Bytes) : Bool :=
  match skipWs cur with
  | [] => false
  | c :: p =>
    if c = chLBrace then memberCommaBlank [.object] .plain p
    else if c = chLBracket then memberCommaBlank [.array] .plain p
    else false

/-- The scan after the innermost bracket is closed. -/
def resume (opens : List Open) (rest : Bytes) : Bool :=
  if opens = [] then false else memberCommaBlank opens .plain rest

/-- A byte the scan outside strings takes no notice of. -/
def Inert (c : UInt8) : Prop :=
  c ≠ chQuote ∧ c ≠ chLBrace ∧ c ≠ chLBracket ∧ c ≠ chRBrace ∧ c ≠ chRBracket ∧ c ≠ chComma

/-! ## Whitespace, numbers and literals are invisible to the scan -/

theorem inert_of_isWs (c : UInt8) (hc : isWs c = true) : Inert c := by
  refine ⟨?_, ?_, ?_, ?_, ?_, ?_⟩ <;> rintro rfl <;> exact absurd hc (by decide)

theorem inert_of_isNumberChar (c : UInt8) (hc : isNumberChar c = true) : Inert c := by
  refine ⟨?_, ?_, ?_, ?_, ?_, ?_⟩ <;> rintro rfl <;> exact absurd hc (by decide)

theorem inert_literal {literal : Bytes}
    (h : literal = litTrue ∨ literal = litFalse ∨ literal = litNull) : ∀ c ∈ literal, Inert c := by
  rcases h with rfl | rfl | rfl <;>
    simp [litTrue, litFalse, litNull, Inert, chQuote, chLBrace, chLBracket, chRBrace, chRBracket,
      chComma]

variable {c : UInt8}

theorem memberCommaBlank_inert (hc : Inert c) (opens : List Open) (p : Bytes) :
    memberCommaBlank opens .plain (c :: p) = memberCommaBlank opens .plain p := by
  obtain ⟨h1, h2, h3, h4, h5, h6⟩ := hc
  simp [memberCommaBlank, h1, h2, h3, h4, h5, h6]

theorem memberCommaBlank_inert_append (opens : List Open) (rest : Bytes) :
    ∀ w : Bytes, (∀ c ∈ w, Inert c) →
      memberCommaBlank opens .plain (w ++ rest) = memberCommaBlank opens .plain rest
  | [], _ => rfl
  | c :: w, hw => by
      rw [List.cons_append, memberCommaBlank_inert (hw c List.mem_cons_self)]
      exact memberCommaBlank_inert_append opens rest w
        (fun d hd => hw d (List.mem_cons_of_mem _ hd))

theorem memberCommaBlank_dropWhile (opens : List Open) {q : UInt8 → Bool}
    (hq : ∀ c, q c = true → Inert c) (cur : Bytes) :
    memberCommaBlank opens .plain (cur.dropWhile q) = memberCommaBlank opens .plain cur := by
  conv => rhs; rw [← List.takeWhile_append_dropWhile (p := q) (l := cur)]
  exact (memberCommaBlank_inert_append opens _ _
    (fun c hc => hq c (List.mem_takeWhile_imp hc))).symm

theorem memberCommaBlank_skipWs (opens : List Open) (cur : Bytes) :
    memberCommaBlank opens .plain (skipWs cur) = memberCommaBlank opens .plain cur :=
  memberCommaBlank_dropWhile opens inert_of_isWs cur

theorem memberCommaBlank_number {cur text rest : Bytes} {integer : Bool}
    (h : parseNumberSpan cur = some (text, integer, rest)) (opens : List Open) :
    memberCommaBlank opens .plain cur = memberCommaBlank opens .plain rest := by
  obtain ⟨w, rfl, hw⟩ := numberRun_span h
  exact memberCommaBlank_inert_append opens rest w
    (fun c hc => inert_of_isNumberChar c (hw c hc))

theorem memberCommaBlank_literal {cur literal rest : Bytes}
    (hlit : ∀ c ∈ literal, Inert c) (h : matchLiteral cur literal = some rest)
    (opens : List Open) :
    memberCommaBlank opens .plain cur = memberCommaBlank opens .plain rest := by
  rw [matchLiteral_eq_append h]
  exact memberCommaBlank_inert_append opens rest literal hlit

/-! ## Strings are invisible to the scan -/

theorem memberCommaBlank_strInert_append (opens : List Open) (rest : Bytes) :
    ∀ w : Bytes, (∀ c ∈ w, StrInert c) →
      memberCommaBlank opens .str (w ++ rest) = memberCommaBlank opens .str rest
  | [], _ => rfl
  | c :: w, hw => by
      obtain ⟨hq, hb⟩ := hw c List.mem_cons_self
      rw [List.cons_append, memberCommaBlank]
      simp only [hb, hq, if_false]
      exact memberCommaBlank_strInert_append opens rest w
        (fun d hd => hw d (List.mem_cons_of_mem _ hd))

theorem StrRound.scan {p q : Bytes} (h : StrRound p q) (opens : List Open) :
    memberCommaBlank opens .str p = memberCommaBlank opens .str q := by
  cases h with
  | inert hw => exact memberCommaBlank_strInert_append opens _ _ hw
  | @escape esc w _ hw =>
    rw [← memberCommaBlank_strInert_append opens q w hw]
    simp [memberCommaBlank]

theorem findStringEndLoop_scan (opens : List Open) :
    ∀ {fuel : Nat} {p q : Bytes} {escaped flag : Bool},
      findStringEndLoop fuel p escaped = some (q, flag) →
      q.head? = some chQuote ∧ memberCommaBlank opens .str p = memberCommaBlank opens .str q := by
  intro fuel
  induction fuel with
  | zero => intro p q escaped flag h; cases h
  | succ fuel ih =>
    intro p q escaped flag h
    cases p with
    | nil => cases h
    | cons c p =>
      rcases findStringEndLoop_round h with ⟨hq, heq⟩ | ⟨q', flag', hround, hrest⟩
      · cases heq
        exact ⟨by rw [hq]; rfl, rfl⟩
      · obtain ⟨hend, hscan⟩ := ih hrest
        exact ⟨hend, (hround.scan opens).trans hscan⟩

variable {span : StringSpan}

theorem memberCommaBlank_string {cur : Bytes}
    (h : findStringEnd cur = some span) (opens : List Open) :
    memberCommaBlank opens .plain cur = memberCommaBlank opens .plain span.after := by
  cases cur with
  | nil => cases h
  | cons c p =>
    simp only [findStringEnd] at h
    split at h
    · next hq =>
      obtain ⟨⟨q, flag⟩, hloop, rfl⟩ := Option.map_eq_some_iff.mp h
      obtain ⟨hend, hscan⟩ := findStringEndLoop_scan opens hloop
      have hopen : memberCommaBlank opens .plain (c :: p) = memberCommaBlank opens .str p := by
        simp [memberCommaBlank, hq]
      cases q with
      | nil => cases hend
      | cons d r =>
        cases hend
        rw [hopen, hscan]
        simp [memberCommaBlank, StringSpan.after, show chQuote ≠ chBackslash by decide]
    · cases h

/-! ## The two parsers side by side -/

theorem skipKey_of_span {cur : Bytes} (h : findStringEnd cur = some span) :
    skipKey cur = some span.after := by
  have hne : cur ≠ [] := by
    rintro rfl
    cases h
  unfold skipKey
  cases hbuf : parseStringBuffer cur 2 with
  | none => simp [hne, h]
  | some key =>
    simp only [parseStringBuffer, h, Option.bind_some] at hbuf
    repeat' split at hbuf
    · cases hbuf
    · obtain ⟨_, _, rfl⟩ := Option.map_eq_some_iff.mp hbuf
      rfl
    · cases hbuf
    · cases hbuf
      rfl

theorem skipKey_of_isWs (hc : isWs c = true) (q : Bytes) : skipKey (c :: q) = none := by
  have hspan : findStringEnd (c :: q) = none := by
    simp [findStringEnd, (inert_of_isWs c hc).1]
  simp [skipKey, parseStringBuffer, hspan]

theorem skipValueFuel_skipWs (fuel : Nat) (cur : Bytes) :
    skipValueFuel fuel (skipWs cur) = skipValueFuel fuel cur := by
  cases fuel with
  | zero => rfl
  | succ fuel => simp only [skipValueFuel, skipWs_skipWs]

theorem skipItemsFuel_skipWs (fuel : Nat) (cur : Bytes) :
    skipItemsFuel fuel (skipWs cur) = skipItemsFuel fuel cur := by
  cases fuel with
  | zero => rfl
  | succ fuel => simp only [skipItemsFuel, skipValueFuel_skipWs]

/-- What the skip path returns for a value that ends at `rest`. -/
def skipOutcome (blank : Bool) (rest : Bytes) : Option Bytes := if blank then none else some rest

/-- The agreement of the two parsers on one value: `blank` is what the scan
finds inside it. -/
def ValueAgrees (cur rest : Bytes) (skipped : Option Bytes) : Prop :=
  ∃ blank, skipped = skipOutcome blank rest ∧ blankAfterMemberComma cur = blank ∧
    ∀ opens, opens ≠ [] →
      memberCommaBlank opens .plain cur = (blank || memberCommaBlank opens .plain rest)

/-- The agreement from inside a bracket up to its close. -/
def BodyAgrees (bracket : Open) (cur rest : Bytes) (skipped : Option Bytes) : Prop :=
  ∃ blank, skipped = skipOutcome blank rest ∧
    ∀ opens, memberCommaBlank (bracket :: opens) .plain cur = (blank || resume opens rest)

theorem valueAgrees_scalar {cur rest p : Bytes}
    (hcur : skipWs cur = c :: p) (hbrace : c ≠ chLBrace) (hbracket : c ≠ chLBracket)
    (hscan : ∀ opens, memberCommaBlank opens .plain (c :: p) = memberCommaBlank opens .plain rest) :
    ValueAgrees cur rest (some rest) := by
  refine ⟨false, rfl, ?_, fun opens _ => ?_⟩
  · simp [blankAfterMemberComma, hcur, hbrace, hbracket]
  · rw [← memberCommaBlank_skipWs, hcur, hscan, Bool.false_or]

variable {bracket : Open} {cur p rest : Bytes} {skipped : Option Bytes}

theorem valueAgrees_of_body (hbody : BodyAgrees bracket p rest skipped)
    (htop : blankAfterMemberComma cur = memberCommaBlank [bracket] .plain p)
    (hscan : ∀ opens, memberCommaBlank opens .plain cur =
      memberCommaBlank (bracket :: opens) .plain p) :
    ValueAgrees cur rest skipped := by
  obtain ⟨blank, hskip, hblank⟩ := hbody
  refine ⟨blank, hskip, ?_, fun opens hopens => ?_⟩
  · rw [htop, hblank]
    simp [resume]
  · rw [hscan, hblank]
    simp [resume, hopens]

theorem memberCommaBlank_close (hc : c = chRBrace ∨ c = chRBracket)
    (bracket : Open) (opens : List Open) (p : Bytes) :
    memberCommaBlank (bracket :: opens) .plain (c :: p) = resume opens p := by
  have h1 : c ≠ chQuote := by rcases hc with rfl | rfl <;> decide
  have h2 : c ≠ chLBrace := by rcases hc with rfl | rfl <;> decide
  have h3 : c ≠ chLBracket := by rcases hc with rfl | rfl <;> decide
  cases opens with
  | nil => simp [memberCommaBlank, resume, h1, h2, h3, hc]
  | cons b opens => simp [memberCommaBlank, resume, h1, h2, h3, hc]

theorem bodyAgrees_empty {p : Bytes}
    (hc : c = chRBrace ∨ c = chRBracket) (hp : (skipWs p).head? = some c) :
    BodyAgrees bracket p ((skipWs p).drop 1) (some ((skipWs p).drop 1)) := by
  refine ⟨false, rfl, fun opens => ?_⟩
  rw [← memberCommaBlank_skipWs]
  cases hws : skipWs p with
  | nil => rw [hws] at hp; cases hp
  | cons d q =>
    rw [hws] at hp
    cases hp
    rw [memberCommaBlank_close hc]
    simp

theorem bodyAgrees_value {cur value rest : Bytes} {next : Bytes → Option Bytes}
    (hvalue : ValueAgrees cur value skipped)
    (hnext : BodyAgrees bracket value rest (next value)) :
    BodyAgrees bracket cur rest (skipped.bind next) := by
  obtain ⟨b1, hskip, _, hscan⟩ := hvalue
  obtain ⟨b2, hskip2, hscan2⟩ := hnext
  refine ⟨b1 || b2, ?_, fun opens => ?_⟩
  · cases b1 with
    | true => simp [hskip, skipOutcome]
    | false => simp [hskip, skipOutcome, hskip2]
  · rw [hscan _ (List.cons_ne_nil _ _), hscan2, Bool.or_assoc]

theorem BodyAgrees.of_scan {cur cur' rest : Bytes} (h : BodyAgrees bracket cur' rest skipped)
    (hscan : ∀ opens, memberCommaBlank opens .plain cur = memberCommaBlank opens .plain cur') :
    BodyAgrees bracket cur rest skipped := by
  obtain ⟨blank, hskip, hblank⟩ := h
  exact ⟨blank, hskip, fun opens => by rw [hscan, hblank]⟩

theorem bodyAgrees_close (hc : c = chRBrace ∨ c = chRBracket)
    (q : Bytes) : BodyAgrees bracket (c :: q) q (some q) :=
  ⟨false, rfl, fun opens => by rw [memberCommaBlank_close hc, Bool.false_or]⟩

theorem memberCommaBlank_comma (bracket : Open) (opens : List Open) (q : Bytes) :
    memberCommaBlank (bracket :: opens) .plain (chComma :: q) =
      (decide (bracket = .object ∧ q.head?.any isWs = true) ||
        memberCommaBlank (bracket :: opens) .plain q) := by
  have h1 : chComma ≠ chQuote := by decide
  have h2 : chComma ≠ chLBrace := by decide
  have h3 : chComma ≠ chLBracket := by decide
  have h4 : ¬ (chComma = chRBrace ∨ chComma = chRBracket) := by decide
  by_cases hblank : bracket = .object ∧ q.head?.any isWs = true
  · simp [memberCommaBlank, hblank, h1, h2, h3, h4]
  · simp only [memberCommaBlank, h1, h2, h3, h4, if_false, List.head?_cons, Option.some.injEq,
      hblank, and_false, decide_false, Bool.false_or]

theorem bodyAgrees_itemComma {q rest : Bytes} {fuel : Nat}
    (h : BodyAgrees .array (skipWs q) rest (skipItemsFuel fuel (skipWs q))) :
    BodyAgrees .array (chComma :: q) rest (skipItemsFuel fuel q) := by
  obtain ⟨blank, hskip, hblank⟩ := h
  refine ⟨blank, by rw [← skipItemsFuel_skipWs, hskip], fun opens => ?_⟩
  rw [memberCommaBlank_comma, ← memberCommaBlank_skipWs, hblank]
  simp

theorem skipMembersFuel_of_isWs (hc : isWs c = true) (fuel : Nat) (p : Bytes) :
    skipMembersFuel fuel (c :: p) = none := by
  cases fuel with
  | zero => rfl
  | succ fuel => simp [skipMembersFuel, skipKey_of_isWs hc]

/-- A comma between two members: with a blank after it the scan reports it and
the skip path fails, without one the two parsers go on alike. -/
theorem bodyAgrees_memberComma {q rest : Bytes} {fuel : Nat}
    (h : BodyAgrees .object (skipWs q) rest (skipMembersFuel fuel (skipWs q))) :
    BodyAgrees .object (chComma :: q) rest (skipMembersFuel fuel q) := by
  by_cases hblank : q.head?.any isWs = true
  · refine ⟨true, ?_, fun opens => ?_⟩
    · cases q with
      | nil => cases hblank
      | cons c p => exact skipMembersFuel_of_isWs hblank fuel p
    · rw [memberCommaBlank_comma]
      simp [hblank]
  · have htight : skipWs q = q := by
      cases q with
      | nil => rfl
      | cons c p =>
        have hc : isWs c = false := by simpa using hblank
        exact List.dropWhile_cons_of_neg (by simp [hc])
    rw [htight] at h
    obtain ⟨blank, hskip, hscan⟩ := h
    refine ⟨blank, hskip, fun opens => ?_⟩
    rw [memberCommaBlank_comma, hscan]
    simp [hblank]

variable {v : Value}

theorem valueAgrees_token
    (hcur : skipWs cur = c :: p) (hbrace : c ≠ chLBrace) (hbracket : c ≠ chLBracket)
    (h : (if c = chQuote then parseString (c :: p)
      else if c = chMinus ∨ isDigit c then parseNumber (c :: p)
      else if c = 0x74 then parseLiteral (c :: p) litTrue (.bool true)
      else if c = 0x66 then parseLiteral (c :: p) litFalse (.bool false)
      else if c = 0x6e then parseLiteral (c :: p) litNull .null
      else none) = some (v, rest)) :
    ValueAgrees cur rest
      (if c = chQuote then (findStringEnd (c :: p)).map StringSpan.after
      else if c = chMinus ∨ isDigit c then (parseNumberSpan (c :: p)).map fun span => span.2.2
      else if c = 0x74 then matchLiteral (c :: p) litTrue
      else if c = 0x66 then matchLiteral (c :: p) litFalse
      else if c = 0x6e then matchLiteral (c :: p) litNull
      else none) := by
  have hliteral : ∀ {literal : Bytes} {json : Value}, (∀ d ∈ literal, Inert d) →
      parseLiteral (c :: p) literal json = some (v, rest) →
      ValueAgrees cur rest (matchLiteral (c :: p) literal) := by
    intro literal json hinert hlit
    obtain ⟨r, hr, heq⟩ := Option.map_eq_some_iff.mp hlit
    cases heq
    rw [hr]
    exact valueAgrees_scalar hcur hbrace hbracket (memberCommaBlank_literal hinert hr)
  split at h
  · next hquote =>
    rw [if_pos hquote]
    obtain ⟨⟨text, r⟩, hstring, heq⟩ := Option.map_eq_some_iff.mp h
    cases heq
    obtain ⟨span, hspan, rfl⟩ := parseStringArena_span hstring
    rw [hspan]
    exact valueAgrees_scalar hcur hbrace hbracket (memberCommaBlank_string hspan)
  · next hquote =>
    rw [if_neg hquote]
    split at h
    · next hnumber =>
      rw [if_pos hnumber]
      obtain ⟨⟨text, integer, r⟩, hspan, heq⟩ := Option.map_eq_some_iff.mp h
      cases heq
      rw [hspan]
      exact valueAgrees_scalar hcur hbrace hbracket (memberCommaBlank_number hspan)
    · next hnumber =>
      rw [if_neg hnumber]
      split_ifs at h ⊢
      · exact hliteral (inert_literal (by simp)) h
      · exact hliteral (inert_literal (by simp)) h
      · exact hliteral (inert_literal (by simp)) h

section

variable {fuel : Nat}
  (ihValue : ∀ cur v rest, parseValueFuel fuel cur = some (v, rest) →
    ValueAgrees cur rest (skipValueFuel fuel cur))
  (ihObject : ∀ p v rest, parseObjectFuel fuel p = some (v, rest) →
    BodyAgrees .object p rest (skipObjectFuel fuel p))
  (ihMembers : ∀ cur entries v rest, parseMembersFuel fuel cur entries = some (v, rest) →
    BodyAgrees .object cur rest (skipMembersFuel fuel cur))
  (ihArray : ∀ p v rest, parseArrayFuel fuel p = some (v, rest) →
    BodyAgrees .array p rest (skipArrayFuel fuel p))
  (ihItems : ∀ cur items v rest, parseItemsFuel fuel cur items = some (v, rest) →
    BodyAgrees .array cur rest (skipItemsFuel fuel cur))

include ihObject ihArray in
theorem value_agrees {cur rest : Bytes} (h : parseValueFuel (fuel + 1) cur = some (v, rest)) :
    ValueAgrees cur rest (skipValueFuel (fuel + 1) cur) := by
  simp only [parseValueFuel] at h
  simp only [skipValueFuel]
  cases hcur : skipWs cur with
  | nil => rw [hcur] at h; cases h
  | cons c p =>
    simp only [hcur] at h
    simp only
    have hscan : ∀ opens, memberCommaBlank opens .plain cur =
        memberCommaBlank opens .plain (c :: p) := by
      intro opens
      rw [← memberCommaBlank_skipWs, hcur]
    by_cases hbrace : c = chLBrace
    · subst hbrace
      rw [if_pos rfl] at h ⊢
      refine valueAgrees_of_body (ihObject p v rest h) ?_ fun opens => ?_
      · simp [blankAfterMemberComma, hcur]
      · rw [hscan]
        simp [memberCommaBlank, show chLBrace ≠ chQuote by decide]
    by_cases hbracket : c = chLBracket
    · subst hbracket
      rw [if_neg hbrace, if_pos rfl] at h ⊢
      refine valueAgrees_of_body (ihArray p v rest h) ?_ fun opens => ?_
      · simp [blankAfterMemberComma, hcur, hbrace]
      · rw [hscan]
        simp [memberCommaBlank, hbrace, show chLBracket ≠ chQuote by decide]
    rw [if_neg hbrace, if_neg hbracket] at h ⊢
    exact valueAgrees_token hcur hbrace hbracket h

include ihMembers in
theorem object_agrees {p rest : Bytes} (h : parseObjectFuel (fuel + 1) p = some (v, rest)) :
    BodyAgrees .object p rest (skipObjectFuel (fuel + 1) p) := by
  simp only [parseObjectFuel] at h
  simp only [skipObjectFuel]
  split at h
  · next hclose =>
    cases h
    rw [if_pos hclose]
    exact bodyAgrees_empty (Or.inl rfl) hclose
  · next hclose =>
    rw [if_neg hclose]
    exact (ihMembers _ _ _ _ h).of_scan fun opens => (memberCommaBlank_skipWs opens p).symm

include ihItems in
theorem array_agrees {p rest : Bytes} (h : parseArrayFuel (fuel + 1) p = some (v, rest)) :
    BodyAgrees .array p rest (skipArrayFuel (fuel + 1) p) := by
  simp only [parseArrayFuel] at h
  simp only [skipArrayFuel]
  split at h
  · next hclose =>
    cases h
    rw [if_pos hclose]
    exact bodyAgrees_empty (Or.inr rfl) hclose
  · next hclose =>
    rw [if_neg hclose]
    exact (ihItems _ _ _ _ h).of_scan fun opens => (memberCommaBlank_skipWs opens p).symm

include ihValue ihItems in
theorem items_agree {cur rest : Bytes} {items : List Value}
    (h : parseItemsFuel (fuel + 1) cur items = some (v, rest)) :
    BodyAgrees .array cur rest (skipItemsFuel (fuel + 1) cur) := by
  obtain ⟨⟨item, value⟩, hitem, h⟩ := Option.bind_eq_some_iff.mp h
  rw [skipItemsFuel]
  refine bodyAgrees_value (ihValue cur item value hitem) ?_
  refine BodyAgrees.of_scan ?_ fun opens => (memberCommaBlank_skipWs opens value).symm
  cases hws : skipWs value with
  | nil => simp only [hws] at h; cases h
  | cons d q =>
    simp only [hws] at h ⊢
    split at h
    · next hclose =>
      cases h
      rw [if_pos hclose]
      exact bodyAgrees_close (Or.inr hclose) _
    · next hclose =>
      rw [if_neg hclose]
      split at h
      · cases h
      · next hcomma =>
        have hd : d = chComma := Classical.not_not.mp hcomma
        subst hd
        rw [if_neg hcomma]
        exact bodyAgrees_itemComma (ihItems _ _ _ _ h)

include ihValue ihMembers in
theorem members_agree {cur rest : Bytes} {entries : List (Bytes × Value)}
    (h : parseMembersFuel (fuel + 1) cur entries = some (v, rest)) :
    BodyAgrees .object cur rest (skipMembersFuel (fuel + 1) cur) := by
  obtain ⟨⟨key, afterKey⟩, hkey, h⟩ := Option.bind_eq_some_iff.mp h
  obtain ⟨span, hspan, rfl⟩ := parseStringArena_span hkey
  rw [skipMembersFuel, skipKey_of_span hspan, Option.bind_some]
  refine BodyAgrees.of_scan ?_ (memberCommaBlank_string hspan)
  refine BodyAgrees.of_scan ?_ fun opens => (memberCommaBlank_skipWs opens _).symm
  cases hcolon : skipWs span.after with
  | nil => simp only [hcolon] at h; cases h
  | cons c p =>
    simp only [hcolon] at h ⊢
    split at h
    · cases h
    · next hc =>
      rw [if_neg hc]
      have hc : c = chColon := Classical.not_not.mp hc
      subst hc
      refine BodyAgrees.of_scan ?_ (memberCommaBlank_inert (by unfold Inert; decide) · p)
      obtain ⟨⟨item, value⟩, hvalue, h⟩ := Option.bind_eq_some_iff.mp h
      refine bodyAgrees_value (ihValue p item value hvalue) ?_
      refine BodyAgrees.of_scan ?_ fun opens => (memberCommaBlank_skipWs opens value).symm
      cases hws : skipWs value with
      | nil => simp only [hws] at h; cases h
      | cons d q =>
        simp only [hws] at h ⊢
        split at h
        · next hclose =>
          cases h
          rw [if_pos hclose]
          exact bodyAgrees_close (Or.inl hclose) _
        · next hclose =>
          rw [if_neg hclose]
          split at h
          · cases h
          · next hcomma =>
            have hd : d = chComma := Classical.not_not.mp hcomma
            subst hd
            rw [if_neg hcomma]
            exact bodyAgrees_memberComma (ihMembers _ _ _ _ h)

end

/-- **Agreement of the two parsers.**  One statement for each of the mutually
recursive functions, all for one fuel; the fuel is what the induction is on. -/
theorem skip_agrees_fuel (fuel : Nat) :
    (∀ cur v rest, parseValueFuel fuel cur = some (v, rest) →
      ValueAgrees cur rest (skipValueFuel fuel cur)) ∧
    (∀ p v rest, parseObjectFuel fuel p = some (v, rest) →
      BodyAgrees .object p rest (skipObjectFuel fuel p)) ∧
    (∀ cur entries v rest, parseMembersFuel fuel cur entries = some (v, rest) →
      BodyAgrees .object cur rest (skipMembersFuel fuel cur)) ∧
    (∀ p v rest, parseArrayFuel fuel p = some (v, rest) →
      BodyAgrees .array p rest (skipArrayFuel fuel p)) ∧
    (∀ cur items v rest, parseItemsFuel fuel cur items = some (v, rest) →
      BodyAgrees .array cur rest (skipItemsFuel fuel cur)) := by
  induction fuel with
  | zero =>
    refine ⟨?_, ?_, ?_, ?_, ?_⟩ <;> intros <;> contradiction
  | succ fuel ih =>
    obtain ⟨ihValue, ihObject, ihMembers, ihArray, ihItems⟩ := ih
    exact ⟨fun _ _ _ => value_agrees ihObject ihArray, fun _ _ _ => object_agrees ihMembers,
      fun _ _ _ _ => members_agree ihValue ihMembers,
      fun _ _ _ => array_agrees ihItems,
      fun _ _ _ _ => items_agree ihValue ihItems⟩

/-! ## Whole values at a position of an input -/

/-- `dcc_json_parse_value` on `input` from `start`: the value and the position
at which the parser stops. -/
def parseValueAt (input : Bytes) (start : Nat) : Option (Value × Nat) :=
  (parseValue (input.drop start)).map fun r => (r.1, input.length - r.2.length)

/-- `dcc_json_skip_value` on `input` from `start`: the position at which it
stops. -/
def skipValueAt (input : Bytes) (start : Nat) : Option Nat :=
  (skipValue (input.drop start)).map fun rest => input.length - rest.length

theorem skipValue_of_parseValue {cur rest : Bytes} (h : parseValue cur = some (v, rest)) :
    skipValue cur = skipOutcome (blankAfterMemberComma cur) rest := by
  obtain ⟨blank, hskip, hblank, _⟩ := (skip_agrees_fuel (parseFuel cur)).1 cur v rest h
  rw [hblank]
  exact hskip

/-- **When the skip path follows the DOM parser.**  Where the DOM parser reads a
value, `dcc_json_skip_value` stops at the same position exactly when no comma
between two members of an object inside the value is directly followed by
whitespace. -/
theorem skipValueAt_agrees_iff (input : Bytes) (start : Nat) (v : Value) (stop : Nat)
    (h : parseValueAt input start = some (v, stop)) :
    skipValueAt input start = some stop ↔ blankAfterMemberComma (input.drop start) = false := by
  obtain ⟨⟨json, rest⟩, hparse, heq⟩ := Option.map_eq_some_iff.mp h
  cases heq
  rw [skipValueAt, skipValue_of_parseValue hparse]
  cases blankAfterMemberComma (input.drop start) with
  | true => simp [skipOutcome]
  | false => simp [skipOutcome]

/-- The theorem on `{"a":1,"b":2}`. -/
theorem skipValueAt_tight_members :
    ∃ v, parseValueAt [0x7b, 0x22, 0x61, 0x22, 0x3a, 0x31, 0x2c, 0x22, 0x62, 0x22, 0x3a, 0x32,
        0x7d] 0 = some (v, 13) ∧
      skipValueAt [0x7b, 0x22, 0x61, 0x22, 0x3a, 0x31, 0x2c, 0x22, 0x62, 0x22, 0x3a, 0x32,
        0x7d] 0 = some 13 :=
  ⟨_, rfl, (skipValueAt_agrees_iff _ 0 _ 13 rfl).mpr (by decide)⟩

/-- On `{"a":1, "b":2}` the DOM parser reads the whole object and the skip path
fails. -/
theorem skipValueAt_blank_after_comma :
    ¬ ∀ (input : Bytes) (start : Nat) (v : Value) (stop : Nat),
      parseValueAt input start = some (v, stop) → skipValueAt input start = some stop := by
  intro hall
  have hskip := hall [0x7b, 0x22, 0x61, 0x22, 0x3a, 0x31, 0x2c, 0x20, 0x22, 0x62, 0x22, 0x3a,
    0x32, 0x7d] 0 _ 14 rfl
  exact absurd hskip (by decide +kernel)

end Dcc.Json
